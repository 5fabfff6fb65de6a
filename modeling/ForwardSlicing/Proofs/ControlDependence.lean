import ForwardSlicing.Proofs.ControlClosure
import ForwardSlicing.Proofs.Index
/-!
# Control dependence

`ControlDependence` states the rules of control dependence between statements: what depends on a node of the flow graph
depends on its statement, together with all that is executed with it; an entry decides on its parameters, and at the
full level a call decides on the entries it may reach.

`controlSuccessors_spec`: a query about a statement of a well-formed call graph succeeds, from any sound index, and
answers exactly this relation.
-/

namespace ForwardSlicing

/-! ## The relation -/

/-- The nodes of the flow graph of a context that depend on one of them. -/
def Context.dependents (c : Context) (n : FlowNode) : List FlowNode :=
  (ProcedureTable.ofProcedure c.procedure).dependents n

/-- The points of a context that are executed exactly when an instruction is. A return instruction is represented by
the exit; a call brings its arguments and its result. -/
inductive Context.Executes (c : Context) (i : Nat) : Point → Prop
  | exit {v : Option Int} : c.body[i]? = some (.ret v) → c.Executes i .exit
  | normal {ins : Instruction} : c.body[i]? = some ins → ins.isReturn = false → c.Executes i (.normal i)
  | result {target : Method} {args : List Int} {v : Int} {site : Option CallSite} :
      c.body[i]? = some (.invoke target args (some v) site) → c.Executes i (.returned i)
  | argument {target : Method} {args : List Int} {result : Option Int} {site : Option CallSite} {k : Nat} :
      c.body[i]? = some (.invoke target args result site) → k < args.length → c.Executes i (.argument i k)

/-- The second statement control-depends directly on the first. Calls are followed at the full level only. -/
inductive ControlDependence (g : DependenceGraph) (level : Level) : Statement → Statement → Prop
  | param {c : Context} {k : Nat} : k < c.procedure.params → ControlDependence g level (.of c .entry) (.of c (.param k))
  | entry {c : Context} {j : Nat} {p : Point} : .instr j ∈ c.dependents .entry → c.Executes j p →
      ControlDependence g level (.of c .entry) (.of c p)
  | decision {c : Context} {i j : Nat} {p : Point} : .instr j ∈ c.dependents (.instr i) → c.Executes j p →
      ControlDependence g level (.of c (.normal i)) (.of c p)
  | call {c d : Context} {i : Nat} : level.interprocedural = true → .of c i d ∈ g.calls.edges →
      ControlDependence g level (.of c (.normal i)) (.of d .entry)

theorem Context.Executes.in {c : Context} {i : Nat} {p : Point} (h : c.Executes i p) : p.In c := by
  cases h with
  | exit => trivial
  | normal hi => exact (List.getElem?_eq_some_iff.1 hi).1
  | result hi => exact ⟨_, _, _, _, hi⟩
  | argument hi hk => exact ⟨_, _, _, _, hi, hk⟩

/-- Control dependence leads to statements that exist. -/
theorem ControlDependence.holds {g : DependenceGraph} {level : Level} {s t : Statement} (hg : g.calls.WellFormed)
    (hs : g.calls.Holds s) (h : ControlDependence g level s t) : g.calls.Holds t := by
  cases h with
  | param hk => exact .of hs.node hk
  | entry _ hp => exact .of hs.node hp.in
  | decision _ hp => exact .of hs.node hp.in
  | call _ he => exact .of (hg.callee _ he) trivial

namespace DependenceGraph

/-! ## Answers -/

variable {g : DependenceGraph} {level : Level} {x : Index} {c : Context}

theorem executedWith_spec {i : Nat} (hi : i < c.body.length) :
    ∃ l, executedWith c (.instr i) = .ok l ∧ ∀ t, t ∈ l ↔ ∃ p, c.Executes i p ∧ t = .of c p := by
  obtain ⟨ins, hins⟩ : ∃ ins, c.body[i]? = some ins := ⟨_, List.getElem?_eq_getElem hi⟩
  cases ins with
  | invoke target args result site =>
    refine ⟨_, by simp only [executedWith, nodeStatement_normal hins rfl, hins]; rfl, fun t => ?_⟩
    simp only [List.mem_cons, List.mem_append, List.mem_map, List.mem_range]
    constructor
    · rintro ((rfl | ht) | ⟨k, hk, rfl⟩)
      · exact ⟨_, .normal hins rfl, rfl⟩
      · cases result with
        | none => simp at ht
        | some v => exact ⟨_, .result hins, by simpa using ht⟩
      · exact ⟨_, .argument hins hk, rfl⟩
    · rintro ⟨p, hp, rfl⟩
      cases hp with
      | exit h => cases hins.symm.trans h
      | normal h => exact .inl (.inl rfl)
      | result h =>
        cases hins.symm.trans h
        exact .inl (.inr (by simp))
      | argument h hk =>
        cases hins.symm.trans h
        exact .inr ⟨_, hk, rfl⟩
  | ret v =>
    refine ⟨[.of c .exit], by simp only [executedWith, nodeStatement_ret hins, hins]; rfl, fun t => ?_⟩
    rw [List.mem_singleton]
    constructor
    · rintro rfl
      exact ⟨_, .exit hins, rfl⟩
    · rintro ⟨p, hp, rfl⟩
      cases hp with
      | exit => rfl
      | normal h hr =>
        cases hins.symm.trans h
        cases hr
      | result h => cases hins.symm.trans h
      | argument h => cases hins.symm.trans h
  | _ =>
    refine ⟨[.of c (.normal i)], by simp only [executedWith, nodeStatement_normal hins rfl, hins]; rfl, fun t => ?_⟩
    rw [List.mem_singleton]
    constructor
    · rintro rfl
      exact ⟨_, .normal hins rfl, rfl⟩
    · rintro ⟨p, hp, rfl⟩
      cases hp with
      | exit h => cases hins.symm.trans h
      | normal => rfl
      | result h => cases hins.symm.trans h
      | argument h => cases hins.symm.trans h

/-- All that is executed with the instructions that depend on a node. -/
theorem executed_spec (hg : g.calls.WellFormed) (hc : c ∈ g.calls.nodes) (n : FlowNode) :
    ∃ ls, (c.dependents n).mapM (executedWith c) = .ok ls ∧
      ∀ t, t ∈ ls.flatten ↔ ∃ j, .instr j ∈ c.dependents n ∧ ∃ p, c.Executes j p ∧ t = .of c p := by
  -- only instructions depend on a node, so there is a statement for each
  have hinstr : ∀ m ∈ c.dependents n, ∃ i < c.body.length, m = .instr i := fun m hm =>
    Procedure.Decides.instr (hg.jumps c hc) hm
  obtain ⟨ls, hls, hmem⟩ := mapM_flatten_ok
    (P := fun (m : FlowNode) (t : Statement) => ∃ j, m = .instr j ∧ ∃ p, c.Executes j p ∧ t = .of c p) fun m hm => by
      obtain ⟨i, hi, rfl⟩ := hinstr m hm
      simpa using executedWith_spec hi
  refine ⟨ls, hls, fun t => (hmem t).trans ⟨?_, ?_⟩⟩
  · rintro ⟨m, hm, j, rfl, hj⟩
    exact ⟨j, hm, hj⟩
  · rintro ⟨j, hm, hj⟩
    exact ⟨_, hm, j, rfl, hj⟩

theorem isCall_of_hasCall {i : Nat} (h : c.HasCall i) : (Statement.of c (.normal i)).isCall = true := by
  obtain ⟨target, args, result, site, hi⟩ := h
  have hins : (Statement.of c (.normal i)).instruction? = some (.invoke target args result site) := hi
  simp only [Statement.isCall, hins]

theorem enteredFrom_spec (hg : g.calls.WellFormed) (hc : c ∈ g.calls.nodes) (level : Level) (i : Nat) :
    ∃ ds, g.enteredFrom level (.of c (.normal i)) i = .ok ds ∧
      ∀ d, d ∈ ds ↔ level.interprocedural = true ∧ .of c i d ∈ g.calls.edges := by
  unfold enteredFrom
  split
  case isTrue h =>
    simp only [Bool.and_eq_true] at h
    refine ⟨_, CallGraph.targets_of_contains (CallGraph.contains_of_mem hc) i, fun d => ?_⟩
    rw [hg.mem_calleesAt hc, h.1, eq_self, true_and]
  case isFalse h =>
    refine ⟨[], rfl, fun d => ⟨fun hd => absurd hd (by simp), ?_⟩⟩
    rintro ⟨hl, he⟩
    -- an edge is at a call, so the test does not fail at this level
    simp [hl, isCall_of_hasCall (hg.site _ he)] at h

theorem controlAnswer_spec (hg : g.calls.WellFormed) (hx : x.Sound g.calls) {s : Statement} (hs : g.calls.Holds s)
    (level : Level) :
    ∃ l, g.controlAnswer level s x = .ok l ∧ ∀ t, t ∈ l ↔ ControlDependence g level s t := by
  obtain ⟨c, p, spelling⟩ := s
  obtain ⟨hc, hp, rfl : spelling = {}⟩ := hs
  have htable : ∀ n, (x.table c.procedure).dependents n = c.dependents n := fun n => by rw [hx.table_eq hc]; rfl
  cases p with
  | entry =>
    obtain ⟨ls, hls, hmem⟩ := executed_spec hg hc .entry
    refine ⟨_, by simp only [controlAnswer, htable, hls]; rfl, fun t => ?_⟩
    simp only [List.mem_append, List.mem_map, List.mem_range, hmem]
    constructor
    · rintro (⟨k, hk, rfl⟩ | ⟨j, hj, p, hp, rfl⟩)
      · exact .param hk
      · exact .entry hj hp
    · intro h
      cases h with
      | param hk => exact .inl ⟨_, hk, rfl⟩
      | entry hj hp => exact .inr ⟨_, hj, _, hp, rfl⟩
  | normal i =>
    obtain ⟨ls, hls, hmem⟩ := executed_spec hg hc (.instr i)
    obtain ⟨ds, hds, hentered⟩ := enteredFrom_spec hg hc level i
    refine ⟨_, by simp only [controlAnswer, htable, hls, hds]; rfl, fun t => ?_⟩
    simp only [List.mem_append, List.mem_map, hmem, hentered]
    constructor
    · rintro (⟨d, ⟨hl, he⟩, rfl⟩ | ⟨j, hj, p, hp, rfl⟩)
      · exact .call hl he
      · exact .decision hj hp
    · intro h
      cases h with
      | decision hj hp => exact .inr ⟨_, hj, _, hp, rfl⟩
      | call hl he => exact .inl ⟨_, ⟨hl, he⟩, rfl⟩
  | _ =>
    refine ⟨[], rfl, fun t => ⟨fun h => absurd h (by simp), fun h => ?_⟩⟩
    cases h

/-! ## Queries -/

/-- A query about a statement of the call graph answers what depends on it. -/
theorem controlSuccessors_spec (hg : g.calls.WellFormed) (hx : x.Sound g.calls) {s : Statement} (hs : g.calls.Holds s)
    (level : Level) :
    g.Answered (fun t => level.enabled = true ∧ ControlDependence g level s t) (g.controlSuccessors level s x) := by
  unfold controlSuccessors
  rw [CallGraph.check_of_mem hs.node]
  cases hl : level.enabled with
  | false => exact answered_nil hx (by simp)
  | true =>
    have hi := indexForControl_sound hg.oneBody hx hs.node
    obtain ⟨l, heq, hmem⟩ := controlAnswer_spec hg hi hs level
    simp only [if_true, heq]
    refine answered_distinct hg hi (fun t ht => ht.2.holds hg hs) fun t => ?_
    rw [hmem, true_and]

end DependenceGraph
end ForwardSlicing
