import ForwardSlicing.Proofs.Slice
/-!
# Slices stay among the statements that exist

A statement is accepted if the factory of its kind makes it again of its own positions. The rules of dependence make
their statements without a factory, and only a position that a seed was given with is handed on as it is. Still a query
about an accepted statement never fails and answers accepted statements (`successors_found`), and so does a search from
them, with any choice of seeds, levels and budget (`slice_accepted`).
-/

namespace ForwardSlicing

/-! ## Accepted statements -/

namespace Statement

variable {c : Context} {index position : Json} {s : Statement}

/-- A position that was given is remembered, or it is the integer itself. -/
theorem spelled_index {index : Json} {i : Nat} (h : index.whole? = some (i : Int)) :
    (Spelling.of index).getD (.int i) = index := by
  cases index with
  | int k => rw [Option.some.inj h]; rfl
  | bool b => rfl
  | _ => cases h

theorem spelled_position {v : Json} {k : Nat} (h : v.position? = some k) : (Spelling.of v).getD (.int k) = v := by
  cases v with
  | int i =>
    simp only [Json.position?] at h
    split at h
    · have hi : i = k := by have := Option.some.inj h; omega
      rw [hi]; rfl
    · cases h
  | bool b => rfl
  | float x => rfl
  | _ => cases h

/-- The factory of its kind makes the statement again of its own positions. -/
def Accepted (s : Statement) : Prop := ofPositions s.kind s.context s.indexJson s.argumentJson = .ok s

theorem Sited.accepted (h : s.Sited c index position) : s.Accepted := by
  refine ofPositions_eq_ok.2 ⟨rfl, ?_⟩
  cases h with
  | @normal i ins hw hb =>
    have hindex : indexJson ⟨c, .normal i, ⟨Spelling.of index, none⟩⟩ = index := spelled_index hw
    rw [hindex]
    exact .normal hw hb
  | @returned i hw hi =>
    have hindex : indexJson ⟨c, .returned i, ⟨Spelling.of index, none⟩⟩ = index := spelled_index hw
    rw [hindex]
    exact .returned hw hi
  | @argument i k target args result site hw hb hp hk =>
    have hindex : indexJson ⟨c, .argument i k, ⟨Spelling.of index, Spelling.of position⟩⟩ = index := spelled_index hw
    have hposition : argumentJson ⟨c, .argument i k, ⟨Spelling.of index, Spelling.of position⟩⟩ = position :=
      spelled_position hp
    rw [hindex, hposition]
    exact .argument hw hb hp hk
  | @param k hp hk =>
    have hindex : indexJson ⟨c, .param k, ⟨Spelling.of index, none⟩⟩ = index := spelled_position hp
    rw [hindex]
    exact .param hp hk
  | entry => exact .entry
  | exit => exact .exit

theorem position?_int (k : Nat) : (Json.int k).position? = some k := by simp [Json.position?]

/-- A point that exists is found again at its integer positions. -/
theorem accepted_of_in {p : Point} (h : p.In c) : (of c p).Accepted := by
  cases p with
  | normal i =>
    have hs : Sited c (.int i) (.int 0) (of c (.normal i)) := .normal rfl (List.getElem?_eq_getElem h)
    exact hs.accepted
  | returned i =>
    have hs : Sited c (.int i) (.int 0) (of c (.returned i)) := .returned rfl h
    exact hs.accepted
  | argument i k =>
    obtain ⟨target, args, result, site, hb, hk⟩ := h
    have hs : Sited c (.int i) (.int k) (of c (.argument i k)) := .argument rfl hb (position?_int k) hk
    exact hs.accepted
  | param k =>
    have hs : Sited c (.int k) (.int 0) (of c (.param k)) := .param (position?_int k) h
    exact hs.accepted
  | entry => rfl
  | exit => rfl

end Statement

/-- A statement of a call graph that the factory of its kind accepts, with positions of any form. -/
structure CallGraph.Admits (g : CallGraph) (s : Statement) : Prop where
  node : s.context ∈ g.nodes
  accepted : s.Accepted

namespace CallGraph

variable {g : CallGraph} {s : Statement}

theorem Admits.sited (h : g.Admits s) : s.Sited s.context s.indexJson s.argumentJson :=
  (Statement.ofPositions_eq_ok.1 h.accepted).2

theorem admits_of_ofPositions {kind : StatementKind} {c : Context} {index position : Json} (hc : c ∈ g.nodes)
    (h : Statement.ofPositions kind c index position = .ok s) : g.Admits s := by
  have hs := (Statement.ofPositions_eq_ok.1 h).2
  exact ⟨hs.context_eq ▸ hc, hs.accepted⟩

theorem Holds.admits (h : g.Holds s) : g.Admits s := by
  rw [h.eq_of]
  exact ⟨h.node, Statement.accepted_of_in h.point⟩

end CallGraph

/-! ## What dependence leads to -/

/-- The point has a statement of its own: return instructions share the exit, and a call without a result returns no
value. -/
def Point.Shown (c : Context) : Point → Prop
  | .normal i => ∀ v, c.body[i]? ≠ some (.ret v)
  | .returned i => ∀ target args site, c.body[i]? ≠ some (.invoke target args none site)
  | _ => True

/-- A statement that a query may answer. -/
structure CallGraph.Finds (g : CallGraph) (s : Statement) : Prop extends g.Admits s where
  shown : s.point.Shown s.context

theorem Point.shown_normal {c : Context} {i : Nat} {ins : Instruction} (hi : c.body[i]? = some ins)
    (hr : ins.isReturn = false) : (Point.normal i).Shown c := by
  intro v hv
  cases hi.symm.trans hv
  cases hr

theorem Point.shown_returned {c : Context} {i : Nat} {target : Method} {args : List Int} {v : Int}
    {site : Option CallSite} (hi : c.body[i]? = some (.invoke target args (some v) site)) :
    (Point.returned i).Shown c := by
  intro target' args' site' h
  cases hi.symm.trans h

theorem Context.Uses.shown {c : Context} {p : Point} {v : Int} (h : c.Uses p v) : p.Shown c := by
  cases h with
  | argument => trivial
  | exit => trivial
  | normal hi _ hr _ => exact Point.shown_normal hi hr

theorem Context.Executes.shown {c : Context} {i : Nat} {p : Point} (h : c.Executes i p) : p.Shown c := by
  cases h with
  | exit => trivial
  | normal hi hr => exact Point.shown_normal hi hr
  | result hi => exact Point.shown_returned hi
  | argument => trivial

variable {g : DependenceGraph} {level : Level} {s t : Statement}

theorem DataDependence.shown (h : DataDependence g level s t) : t.point.Shown t.context := by
  cases h with
  | use _ hu => exact hu.shown
  | heap _ _ _ hj _ => exact Point.shown_normal hj rfl
  | passed => trivial
  | bound => trivial
  | returned _ hi => exact Point.shown_returned hi

theorem ControlDependence.shown (h : ControlDependence g level s t) : t.point.Shown t.context := by
  cases h with
  | param => trivial
  | entry _ hp => exact hp.shown
  | decision _ hp => exact hp.shown
  | call => trivial

namespace DependenceGraph

/-! ## Queries -/

/-- A query succeeds, leaves a sound index, and answers statements with a property only. -/
def AnsweredWithin (g : DependenceGraph) (P : Statement → Prop) (query : Answer (List Statement)) : Prop :=
  ∃ l x, query = (.ok l, x) ∧ x.Sound g.calls ∧ ∀ t ∈ l, P t

theorem Answered.within {P Q : Statement → Prop} {query : Answer (List Statement)} (h : g.Answered P query)
    (hPQ : ∀ t, P t → Q t) : g.AnsweredWithin Q query := by
  obtain ⟨l, x, hl, hx, -, hmem⟩ := h
  exact ⟨l, x, hl, hx, fun t ht => hPQ t ((hmem t).1 ht)⟩

section Queries
variable {x : Index}

/-- The statement with integer positions at the point of an admitted one. -/
theorem holds_plain (hs : g.calls.Admits s) : g.calls.Holds (.of s.context s.point) :=
  .of hs.node hs.sited.in

/-- A control query looks at the context and the point only. -/
theorem controlSuccessors_plain (level : Level) (s : Statement) (x : Index) :
    g.controlSuccessors level s x = g.controlSuccessors level (.of s.context s.point) x := rfl

theorem controlSuccessors_found (hg : g.calls.WellFormed) (hx : x.Sound g.calls) (hs : g.calls.Admits s)
    (level : Level) : g.AnsweredWithin g.calls.Finds (g.controlSuccessors level s x) := by
  have hp := holds_plain hs
  rw [controlSuccessors_plain]
  refine (controlSuccessors_spec hg hx hp level).within fun t ht => ?_
  exact ⟨(ht.2.holds hg hp).admits, ht.2.shown⟩

/-- An argument hands its position on as it was given. -/
theorem finds_param {c d : Context} {index position : Json} {i k : Nat} {spelling : Spelling}
    (hs : Statement.Sited c index position ⟨c, .argument i k, spelling⟩) (hd : d ∈ g.calls.nodes)
    (hk : k < d.procedure.params) : g.calls.Finds ⟨d, .param k, { index := spelling.argument }⟩ := by
  cases hs with
  | argument _ _ hp _ =>
    have hparam : Statement.Sited d position position ⟨d, .param k, ⟨Spelling.of position, none⟩⟩ := .param hp hk
    exact ⟨⟨hd, hparam.accepted⟩, trivial⟩

theorem dataAnswer_found (hg : g.calls.WellFormed) (hx : x.Sound g.calls) (hs : g.calls.Admits s) (level : Level) :
    ∃ l, g.dataAnswer level s (g.indexForData level s x) = .ok l ∧ ∀ t ∈ l, g.calls.Finds t := by
  obtain ⟨c, p, spelling⟩ := s
  have hc : c ∈ g.calls.nodes := hs.node
  have hsited := hs.sited
  have hp := holds_plain hs
  have hi := indexForData_sound hg.oneBody hx hs.node level
  -- at most points the positions make no difference
  have hplain : ∃ l, g.dataAnswer level (.of c p) (g.indexForData level (.of c p) x) = .ok l ∧
      ∀ t ∈ l, g.calls.Finds t := by
    obtain ⟨l, hl, hmem⟩ := dataAnswer_spec hg hx hp level
    refine ⟨l, hl, fun t ht => ?_⟩
    have hdep := (hmem t).1 ht
    exact ⟨(hdep.holds hg hp).admits, hdep.shown⟩
  cases p with
  | argument i k =>
    have htargets := CallGraph.targets_of_contains (CallGraph.contains_of_mem hc) i
    refine ⟨_, by simp only [dataAnswer, htargets]; rfl, fun t ht => ?_⟩
    simp only [List.mem_map, List.mem_filter, decide_eq_true_eq, hg.mem_calleesAt hc] at ht
    obtain ⟨d, ⟨he, hk⟩, rfl⟩ := ht
    exact finds_param hsited (hg.callee _ he) hk
  | param k =>
    obtain ⟨uses, huses, hmem⟩ := mapM_flatten_ok fun v
      (_ : v ∈ (Statement.paramValue? ⟨c, .param k, spelling⟩ k).toList) => useStatements_spec c v
    refine ⟨uses.flatten, ?_, fun t ht => ?_⟩
    · simp only [dataAnswer, hi.table_eq hc, ProcedureTable.ofProcedure, huses]
      rfl
    · obtain ⟨v, -, q, hq, rfl⟩ := (hmem t).1 ht
      exact ⟨(CallGraph.Holds.of hc hq.in).admits, hq.shown⟩
  | _ => exact hplain

theorem dataSuccessors_found (hg : g.calls.WellFormed) (hx : x.Sound g.calls) (hs : g.calls.Admits s) (level : Level) :
    g.AnsweredWithin g.calls.Finds (g.dataSuccessors level s x) := by
  unfold dataSuccessors
  rw [CallGraph.check_of_mem hs.node]
  cases hl : level.enabled with
  | false => exact ⟨[], x, rfl, hx, by simp⟩
  | true =>
    obtain ⟨l, heq, hmem⟩ := dataAnswer_found hg hx hs level
    simp only [if_true, heq]
    exact ⟨_, _, rfl, indexForData_sound hg.oneBody hx hs.node level, fun t ht => hmem t (mem_of_mem_distinct ht)⟩

/-- One step of a search: a query about an admitted statement does not fail, and what it answers is admitted again. -/
theorem successors_found (hg : g.calls.WellFormed) (hx : x.Sound g.calls) (hs : g.calls.Admits s)
    (data control : Level) : g.AnsweredWithin g.calls.Finds (g.successors data control s x) := by
  obtain ⟨ds, x₁, hd, hx₁, hds⟩ := dataSuccessors_found hg hx hs data
  obtain ⟨cs, x₂, hc, hx₂, hcs⟩ := controlSuccessors_found hg hx₁ hs control
  simp only [successors, bothSuccessors, hd, hc]
  refine ⟨_, _, rfl, hx₂, fun t ht => ?_⟩
  rcases List.mem_append.1 (mem_of_mem_distinct ht) with ht | ht
  · exact hds t ht
  · exact hcs t ht

end Queries

/-! ## Searches -/

section Searches
variable (g) (data control : Level) (limit : Option Int) (seeds : List Statement)

/-- Every statement is admitted, and it is a seed or a query may answer it. -/
def Kept (seen : List Statement) : Prop :=
  ∀ s ∈ seen, g.calls.Admits s ∧ (s ∈ seeds ∨ s.point.Shown s.context)

/-- A search leaves a sound index and ends with statements that are kept, or it fails at its budget. -/
def Safe (search : Answer (List Statement)) : Prop :=
  search.2.Sound g.calls ∧
    ((∃ slice, search.1 = .ok slice ∧ g.Kept seeds slice) ∨ ∃ l, limit = some l ∧ search.1 = .error (.truncated (.int l)))

variable {g limit seeds}

theorem safe_ok {slice : List Statement} {x : Index} (hx : x.Sound g.calls) (h : g.Kept seeds slice) :
    g.Safe limit seeds (.ok slice, x) :=
  ⟨hx, .inl ⟨slice, rfl, h⟩⟩

theorem safe_overrun {n : Nat} {x : Index} (hx : x.Sound g.calls) (h : overBudget limit n = true) :
    g.Safe limit seeds (.error (overrun limit), x) := by
  obtain ⟨l, rfl, -⟩ := overBudget_iff.1 h
  exact ⟨hx, .inr ⟨l, rfl, rfl⟩⟩

/-- The run of a search, on the number of statements it expands: what it has seen is kept. -/
theorem expand_safe (hg : g.calls.WellFormed) : ∀ (fuel : Nat) {pending seen : List Statement} {x : Index},
    x.Sound g.calls → (∀ s ∈ pending, s ∈ seen) → g.Kept seeds seen →
    g.Safe limit seeds (g.expand data control limit fuel pending seen x)
  | 0, _, _, _, hx, _, hseen => safe_ok hx hseen
  | _ + 1, [], _, _, hx, _, hseen => safe_ok hx hseen
  | fuel + 1, s :: pending, seen, x, hx, hpending, hseen => by
    have hs : g.calls.Admits s := (hseen s (hpending s (by simp))).1
    obtain ⟨next, x', hnext, hx', hfound⟩ := successors_found hg hx hs data control
    simp only [expand, hnext]
    split
    case isTrue h =>
      rw [Bool.and_eq_true] at h
      exact safe_overrun hx' h.2
    case isFalse =>
      refine expand_safe hg fuel hx' (fun t ht => ?_) fun t ht => ?_
      · rcases List.mem_append.1 ht with ht | ht
        · exact List.mem_append_right _ ht
        · exact List.mem_append_left _ (hpending t (List.mem_cons_of_mem _ ht))
      · rcases List.mem_append.1 ht with ht | ht
        · exact hseen t ht
        · have hnew := hfound t (mem_of_mem_fresh ht)
          exact ⟨hnew.toAdmits, .inr hnew.shown⟩

theorem forwardSlice_safe (hg : g.calls.WellFormed) {x : Index} (hx : x.Sound g.calls)
    (hs : ∀ s ∈ seeds, g.calls.Admits s) : g.Safe limit seeds (g.forwardSlice data control limit seeds x) := by
  have hf : g.foreign? seeds = none := foreign?_eq_none_iff.2 fun s h => CallGraph.contains_of_mem (hs s h).node
  simp only [forwardSlice, hf]
  split
  case isTrue h => exact safe_overrun hx h
  case isFalse =>
    have hstart : g.Kept seeds (distinct seeds) := fun s h =>
      ⟨hs s (mem_of_mem_distinct h), .inl (mem_of_mem_distinct h)⟩
    have hrun : g.Safe limit seeds
        (g.expand data control limit (g.statementBound seeds x) (distinct seeds) (distinct seeds) x) :=
      expand_safe data control hg _ hx (fun _ h => h) hstart
    revert hrun
    cases g.expand data control limit (g.statementBound seeds x) (distinct seeds) (distinct seeds) x with
    | mk out x' =>
      cases out with
      | error e => exact id
      | ok slice => exact fun h => ⟨h.1.note _, h.2⟩

end Searches
end DependenceGraph

namespace Model

/-- Seeds that factories make are admitted, so every search from them is safe. -/
theorem Loaded.slice_safe {m : Model} (hm : m.Loaded) (data control : Level) (limit : Option Int) {seeds : List Statement}
    (hseeds : ∀ s ∈ seeds, ∃ c ∈ m.calls.nodes, ∃ kind index position,
      Statement.ofPositions kind c index position = .ok s) {x : Index} (hx : x.Sound m.calls) :
    m.dependence.Safe limit seeds (m.dependence.forwardSlice data control limit seeds x) := by
  refine DependenceGraph.forwardSlice_safe data control hm.wellFormed hx fun s h => ?_
  obtain ⟨c, hc, kind, index, position, hof⟩ := hseeds s h
  exact CallGraph.admits_of_ofPositions hc hof

/-- From seeds that factories make, no search fails but at its budget. Every statement it finds is of a node of the call
graph, exists there and is accepted by the factory of its kind; one that is no seed is neither a return instruction nor
the value of a call without a result. -/
theorem slice_accepted {m : Model} (hm : m.Loaded) (data control : Level) (limit : Option Int) {seeds : List Statement}
    (hseeds : ∀ s ∈ seeds, ∃ c ∈ m.calls.nodes, ∃ kind index position,
      Statement.ofPositions kind c index position = .ok s) {x : Index} (hx : x.Sound m.calls) :
    (m.dependence.forwardSlice data control limit seeds x).2.Sound m.calls ∧
    ((∃ slice, (m.dependence.forwardSlice data control limit seeds x).1 = .ok slice ∧
        ∀ s ∈ slice, s.context ∈ m.calls.nodes ∧ s.Accepted ∧ s.point.In s.context ∧
          (s ∉ seeds → s.point.Shown s.context)) ∨
      ∃ l, limit = some l ∧ (m.dependence.forwardSlice data control limit seeds x).1 = .error (.truncated (.int l))) := by
  obtain ⟨hsound, ⟨slice, hslice, hkept⟩ | htruncated⟩ := hm.slice_safe data control limit hseeds hx
  · refine ⟨hsound, .inl ⟨slice, hslice, fun s h => ?_⟩⟩
    obtain ⟨hadmits, hseed | hshown⟩ := hkept s h
    · exact ⟨hadmits.node, hadmits.accepted, hadmits.sited.in, fun hn => absurd hseed hn⟩
    · exact ⟨hadmits.node, hadmits.accepted, hadmits.sited.in, fun _ => hshown⟩
  · exact ⟨hsound, .inr htruncated⟩

/-- The call is given as a truth value and so is its argument, which the parameter then keeps; no statement of the slice
is refused. -/
theorem slice_accepted_argument :
    ∃ s, Statement.ofPositions .argument (Sample.merged Sample.main) (.bool true) (.bool false) = .ok s ∧
    ∃ slice, (Sample.coarse.dependence.forwardSlice .full .full none [s] {}).1 = .ok slice ∧
      ∀ t ∈ slice, t.Accepted := by
  let s : Statement := ⟨Sample.merged Sample.main, .argument 1 0, ⟨some (.bool true), some (.bool false)⟩⟩
  have hof : Statement.ofPositions .argument (Sample.merged Sample.main) (.bool true) (.bool false) = .ok s := rfl
  have hseeds : ∀ t ∈ [s], ∃ c ∈ Sample.coarse.calls.nodes, ∃ kind index position,
      Statement.ofPositions kind c index position = .ok t := by
    intro t ht
    rw [List.mem_singleton.1 ht]
    exact ⟨Sample.merged Sample.main, by simp [Sample.coarse], _, _, _, hof⟩
  obtain ⟨-, ⟨slice, hslice, hall⟩ | ⟨l, hl, -⟩⟩ :=
    slice_accepted Sample.coarse_loaded .full .full none hseeds (Index.sound_empty _)
  · exact ⟨s, hof, slice, hslice, fun t ht => (hall t ht).2.1⟩
  · cases hl

end Model
end ForwardSlicing
