import ForwardSlicing.Proofs.Index
import ForwardSlicing.Proofs.Loading
/-!
# Data dependence

`DataDependence` states the four rules of data dependence directly, without the tables that queries are answered from:
a value flows from its definition to its uses, from a field write to the field reads that may see it, from an argument
or a call to the parameters of the callee, and from an exit to the calls that take its value.

`dataSuccessors_spec`: a query about a statement of a well-formed call graph succeeds, from any sound index, and answers
exactly this relation.
-/

namespace ForwardSlicing

/-! ## The relation -/

/-- A point of a context defines a value: a call defines its result when it has returned. -/
inductive Context.Defines (c : Context) : Point → Int → Prop
  | instruction {i : Nat} {ins : Instruction} {v : Int} : c.body[i]? = some ins → ins.isInvoke = false → v ∈ ins.defs →
      c.Defines (.normal i) v
  | result {i : Nat} {target : Method} {args : List Int} {v : Int} {site : Option CallSite} :
      c.body[i]? = some (.invoke target args (some v) site) → c.Defines (.returned i) v
  | param (k : Nat) : c.Defines (.param k) (k + 1)

/-- A point of a context uses a value: as an argument, as a returned value, or in any other instruction. -/
inductive Context.Uses (c : Context) : Point → Int → Prop
  | argument {i k : Nat} {target : Method} {args : List Int} {result : Option Int} {site : Option CallSite} {v : Int} :
      c.body[i]? = some (.invoke target args result site) → args[k]? = some v → c.Uses (.argument i k) v
  | exit {i : Nat} {v : Int} : c.body[i]? = some (.ret (some v)) → c.Uses .exit v
  | normal {i : Nat} {ins : Instruction} {v : Int} : c.body[i]? = some ins → ins.isInvoke = false →
      ins.isReturn = false → v ∈ ins.uses → c.Uses (.normal i) v

/-- Accesses of one field may touch the same storage: both are static, or their bases may be the same object. -/
inductive PointsTo.Shared (t : PointsTo) (c d : Context) : Option Int → Option Int → Prop
  | static : t.Shared c d none none
  | object {v w : Int} {o : String} : o ∈ t.objects c v → o ∈ t.objects d w → t.Shared c d (some v) (some w)

/-- The second statement data-depends directly on the first. Dependence through the heap is followed at the full level
only. -/
inductive DataDependence (g : DependenceGraph) (level : Level) : Statement → Statement → Prop
  | use {c : Context} {p q : Point} {v : Int} : c.Defines p v → c.Uses q v → DataDependence g level (.of c p) (.of c q)
  | heap {c d : Context} {i j : Nat} {base base' : Option Int} {field : String} {value result : Int} :
      level.heap = true → c.body[i]? = some (.putField base field value) →
      d ∈ g.calls.nodes → d.body[j]? = some (.getField result base' field) → g.pointsTo.Shared c d base base' →
      DataDependence g level (.of c (.normal i)) (.of d (.normal j))
  | passed {c d : Context} {i k : Nat} : .of c i d ∈ g.calls.edges → k < d.procedure.params →
      DataDependence g level (.of c (.argument i k)) (.of d (.param k))
  | bound {c d : Context} {i k : Nat} {target : Method} {args : List Int} {result : Option Int}
      {site : Option CallSite} : c.body[i]? = some (.invoke target args result site) → .of c i d ∈ g.calls.edges →
      k < args.length → k < d.procedure.params → DataDependence g level (.of c (.returned i)) (.of d (.param k))
  | returned {c d : Context} {i : Nat} {target : Method} {args : List Int} {v : Int} {site : Option CallSite} :
      .of c i d ∈ g.calls.edges → c.body[i]? = some (.invoke target args (some v) site) →
      DataDependence g level (.of d .exit) (.of c (.returned i))

theorem Context.Uses.in {c : Context} {p : Point} {v : Int} (h : c.Uses p v) : p.In c := by
  cases h with
  | argument hi hk => exact ⟨_, _, _, _, hi, (List.getElem?_eq_some_iff.1 hk).1⟩
  | exit => trivial
  | normal hi => exact (List.getElem?_eq_some_iff.1 hi).1

/-- Data dependence leads to statements that exist. -/
theorem DataDependence.holds {g : DependenceGraph} {level : Level} {s t : Statement} (hg : g.calls.WellFormed)
    (hs : g.calls.Holds s) (h : DataDependence g level s t) : g.calls.Holds t := by
  cases h with
  | use _ hu => exact .of hs.node hu.in
  | heap _ _ hd hj _ => exact .of hd (List.getElem?_eq_some_iff.1 hj).1
  | passed he hk => exact .of (hg.callee _ he) hk
  | bound _ he _ hk => exact .of (hg.callee _ he) hk
  | returned he hi => exact .of (hg.caller _ he) ⟨_, _, _, _, hi⟩

/-! ## Uses -/

theorem Procedure.mem_usesOf_argument {p : Procedure} {v : Int} {i k : Nat} :
    (i, some k) ∈ p.usesOf v ↔
      ∃ target args result site, p.body[i]? = some (.invoke target args result site) ∧ args[k]? = some v := by
  simp only [usesOf, List.mem_flatMap]
  constructor
  · rintro ⟨⟨ins, j⟩, hj, h⟩
    have hj' := List.mem_zipIdx_iff_getElem?.1 hj
    cases ins with
    | invoke target args result site =>
      simp only [List.mem_map, List.mem_filter, Prod.mk.injEq, Option.some.injEq, decide_eq_true_eq] at h
      obtain ⟨⟨w, k'⟩, ⟨hk, rfl⟩, rfl, rfl⟩ := h
      exact ⟨target, args, result, site, hj', List.mem_zipIdx_iff_getElem?.1 hk⟩
    | _ => simp at h
  · rintro ⟨target, args, result, site, hi, hk⟩
    refine ⟨(.invoke target args result site, i), List.mem_zipIdx_iff_getElem?.2 hi, ?_⟩
    exact List.mem_map.2 ⟨(v, k), List.mem_filter.2 ⟨List.mem_zipIdx_iff_getElem?.2 hk, by simp⟩, rfl⟩

theorem Procedure.mem_usesOf_plain {p : Procedure} {v : Int} {i : Nat} :
    (i, none) ∈ p.usesOf v ↔ ∃ ins, p.body[i]? = some ins ∧ ins.isInvoke = false ∧ v ∈ ins.uses := by
  simp only [usesOf, List.mem_flatMap]
  constructor
  · rintro ⟨⟨ins, j⟩, hj, h⟩
    have hj' := List.mem_zipIdx_iff_getElem?.1 hj
    cases ins with
    | invoke target args result site => simp at h
    | _ =>
      simp only [List.mem_map, List.mem_filter, Prod.mk.injEq, and_true, decide_eq_true_eq] at h
      obtain ⟨w, ⟨hw, rfl⟩, rfl⟩ := h
      exact ⟨_, hj', rfl, hw⟩
  · rintro ⟨ins, hi, hn, hv⟩
    refine ⟨(ins, i), List.mem_zipIdx_iff_getElem?.2 hi, ?_⟩
    cases ins with
    | invoke target args result site => cases hn
    | _ => exact List.mem_map.2 ⟨v, List.mem_filter.2 ⟨hv, by simp⟩, rfl⟩

namespace DependenceGraph

/-- The statements that use a value, if the table is that of the context. -/
theorem useStatements_spec (c : Context) (v : Int) :
    ∃ l, useStatements c.procedure c v = .ok l ∧ ∀ t, t ∈ l ↔ ∃ p, c.Uses p v ∧ t = .of c p := by
  unfold useStatements
  refine (mapM_ok ?_).imp fun l hl => ⟨hl.1, fun t => (hl.2 t).trans ?_⟩
  · rintro ⟨i, position⟩ hu
    cases position with
    | some k => exact ⟨_, rfl⟩
    | none =>
      obtain ⟨ins, hi, -, -⟩ := Procedure.mem_usesOf_plain.1 hu
      cases hr : ins.isReturn with
      | false => exact ⟨_, nodeStatement_normal hi hr⟩
      | true =>
        cases ins with
        | ret w => exact ⟨_, nodeStatement_ret hi⟩
        | _ => cases hr
  · constructor
    · rintro ⟨⟨i, position⟩, hu, ht⟩
      cases position with
      | some k =>
        obtain ⟨target, args, result, site, hi, hk⟩ := Procedure.mem_usesOf_argument.1 hu
        exact ⟨_, .argument hi hk, (Except.ok.inj ht).symm⟩
      | none =>
        obtain ⟨ins, hi, hn, hv⟩ := Procedure.mem_usesOf_plain.1 hu
        cases hr : ins.isReturn with
        | false =>
          dsimp only at ht
          rw [nodeStatement_normal hi hr] at ht
          exact ⟨_, .normal hi hn hr hv, (Except.ok.inj ht).symm⟩
        | true =>
          cases ins with
          | ret w =>
            dsimp only at ht
            rw [nodeStatement_ret hi] at ht
            rw [Instruction.uses, Option.mem_toList] at hv
            exact ⟨_, .exit (hv ▸ hi), (Except.ok.inj ht).symm⟩
          | _ => cases hr
    · rintro ⟨p, hp, rfl⟩
      cases hp with
      | argument hi hk => exact ⟨(_, some _), Procedure.mem_usesOf_argument.2 ⟨_, _, _, _, hi, hk⟩, rfl⟩
      | exit hi =>
        exact ⟨(_, none), Procedure.mem_usesOf_plain.2 ⟨_, hi, rfl, by simp [Instruction.uses]⟩, nodeStatement_ret hi⟩
      | normal hi hn hr hv =>
        exact ⟨(_, none), Procedure.mem_usesOf_plain.2 ⟨_, hi, hn, hv⟩, nodeStatement_normal hi hr⟩

/-! ## The heap -/

theorem mayAlias_of (t : PointsTo) (c d : Context) (base base' : Option Int) (field field' : String) :
    t.mayAlias (.of (some c) base field) (.of (some d) base' field') = true ↔
      field = field' ∧ t.Shared c d base base' := by
  cases base with
  | none =>
    cases base' with
    | none =>
      simp only [HeapLocation.of, PointsTo.mayAlias, beq_iff_eq]
      exact ⟨fun h => ⟨h, .static⟩, fun h => h.1⟩
    | some w =>
      simp only [HeapLocation.of, PointsTo.mayAlias, Bool.false_eq_true, false_iff]
      rintro ⟨-, h⟩
      cases h
  | some v =>
    cases base' with
    | none =>
      simp only [HeapLocation.of, PointsTo.mayAlias, Bool.false_eq_true, false_iff]
      rintro ⟨-, h⟩
      cases h
    | some w =>
      simp only [HeapLocation.of, PointsTo.mayAlias, PointsTo.baseObjects, Bool.and_eq_true, beq_iff_eq,
        List.any_eq_true, List.contains_iff_mem]
      constructor
      · rintro ⟨hf, o, ho, ho'⟩
        exact ⟨hf, .object ho ho'⟩
      · rintro ⟨hf, h⟩
        cases h with
        | object ho ho' => exact ⟨hf, _, ho, ho'⟩

variable {g : DependenceGraph}

theorem mem_readersOf {x : Index} (hx : x.reads = some (g.calls.nodes.flatMap HeapRead.ofContext)) (c : Context)
    (base : Option Int) (field : String) {t : Statement} :
    t ∈ g.readersOf x (.of (some c) base field) ↔ ∃ d ∈ g.calls.nodes, ∃ j result base',
      d.body[j]? = some (.getField result base' field) ∧ g.pointsTo.Shared c d base base' ∧ t = .of d (.normal j) := by
  simp only [readersOf, hx, Option.getD_some, List.mem_map, List.mem_filter, List.mem_flatMap]
  constructor
  · rintro ⟨r, ⟨⟨d, hd, hr⟩, ha⟩, rfl⟩
    obtain ⟨j, result, base', field', hj, rfl⟩ := HeapRead.mem_ofContext.1 hr
    obtain ⟨rfl, hsh⟩ := (mayAlias_of ..).1 ha
    exact ⟨d, hd, j, result, base', hj, hsh, rfl⟩
  · rintro ⟨d, hd, j, result, base', hj, hsh, rfl⟩
    have hr := HeapRead.mem_ofContext.2 ⟨j, result, base', field, hj, rfl⟩
    exact ⟨_, ⟨⟨d, hd, hr⟩, (mayAlias_of ..).2 ⟨rfl, hsh⟩⟩, rfl⟩

/-! ## Calls -/

theorem calleeParams_spec (hg : g.calls.WellFormed) {c : Context} (hc : c ∈ g.calls.nodes) (i n : Nat) :
    ∃ l, g.calleeParams c i n = .ok l ∧ ∀ t, t ∈ l ↔
      ∃ d k, .of c i d ∈ g.calls.edges ∧ k < n ∧ k < d.procedure.params ∧ t = .of d (.param k) := by
  have htargets := CallGraph.targets_of_contains (CallGraph.contains_of_mem hc) i
  refine ⟨_, by simp only [calleeParams, htargets]; rfl, fun t => ?_⟩
  simp only [List.mem_flatMap, List.mem_map, List.mem_range, hg.mem_calleesAt hc]
  constructor
  · rintro ⟨d, hd, k, hk, rfl⟩
    exact ⟨d, k, hd, by omega, by omega, rfl⟩
  · rintro ⟨d, k, hd, hn, hp, rfl⟩
    exact ⟨d, hd, k, by omega, rfl⟩

theorem returnedTo_spec {k : Invocation} (h : k.caller.HasCall k.site) : ∃ l, returnedTo k = .ok l ∧ ∀ t, t ∈ l ↔
    ∃ target args v site, k.caller.body[k.site]? = some (.invoke target args (some v) site) ∧ t = k.returned := by
  obtain ⟨target, args, result, site, hi⟩ := h
  cases result with
  | none => exact ⟨[], by simp [returnedTo, hi], by simp [hi]⟩
  | some v => exact ⟨[k.returned], by simp [returnedTo, hi], by simp [hi]⟩

/-! ## Answers, one for each kind of statement -/

/-- A query is answered with the statements that depend on the one asked about. -/
def DataAnswered (g : DependenceGraph) (level : Level) (s : Statement) (answer : Except Failure (List Statement)) :
    Prop := ∃ l, answer = .ok l ∧ ∀ t, t ∈ l ↔ DataDependence g level s t

section Answers
variable {level : Level} {x : Index} {c : Context}

/-- The reads that may see what an instruction writes. -/
def readersAfter (g : DependenceGraph) (level : Level) (x : Index) (c : Context) (ins : Instruction) : List Statement :=
  match HeapLocation.written? c ins with
  | some l => if level.heap then g.readersOf x l else []
  | none => []

/-- From the table of its own procedure, an instruction that is no call answers its uses and its readers. -/
theorem dataAnswer_normal_eq {i : Nat} {ins : Instruction} (hi : c.body[i]? = some ins) (hn : ins.isInvoke = false)
    (ht : (x.table c.procedure).procedure = c.procedure) :
    g.dataAnswer level (.of c (.normal i)) x = (do
      let uses ← ins.defs.mapM (useStatements c.procedure c)
      return uses.flatten ++ g.readersAfter level x c ins) := by
  cases ins with
  | invoke target args result site => cases hn
  | _ => simp only [dataAnswer, hi, ht]; rfl

theorem dataAnswer_call {i : Nat} (hi : c.HasCall i) :
    DataAnswered g level (.of c (.normal i)) (g.dataAnswer level (.of c (.normal i)) x) := by
  obtain ⟨target, args, result, site, hi⟩ := hi
  refine ⟨[], by simp only [dataAnswer, hi], fun t => ⟨fun h => absurd h (by simp), fun h => ?_⟩⟩
  -- a call defines its result only where it has returned
  cases h with
  | use hd hu =>
    cases hd with
    | instruction hb hn hv =>
      cases hi.symm.trans hb
      cases hn
  | heap _ hb => cases hi.symm.trans hb

theorem dataAnswer_normal (hx : x.Sound g.calls) (hc : c ∈ g.calls.nodes) {i : Nat} {ins : Instruction}
    (hi : c.body[i]? = some ins) (hn : ins.isInvoke = false)
    (hr : ∀ base field value, ins = .putField base field value → level.heap = true →
      x.reads = some (g.calls.nodes.flatMap HeapRead.ofContext)) :
    DataAnswered g level (.of c (.normal i)) (g.dataAnswer level (.of c (.normal i)) x) := by
  rw [dataAnswer_normal_eq hi hn (by rw [hx.table_eq hc]; rfl)]
  obtain ⟨uses, huses, hmem⟩ := mapM_flatten_ok fun v (_ : v ∈ ins.defs) => useStatements_spec c v
  rw [huses]
  refine ⟨_, rfl, fun t => ?_⟩
  rw [List.mem_append, hmem]
  constructor
  · rintro (⟨v, hv, p, hp, rfl⟩ | ht)
    · exact .use (.instruction hi hn hv) hp
    -- only a field write has readers
    · cases ins with
      | putField base field value =>
        simp only [readersAfter, HeapLocation.written?] at ht
        split at ht
        case isTrue hl =>
          obtain ⟨d, hd, j, result, base', hj, hsh, rfl⟩ := (mem_readersOf (hr _ _ _ rfl hl) c base field).1 ht
          exact .heap hl hi hd hj hsh
        case isFalse => simp at ht
      | _ => simp [readersAfter, HeapLocation.written?] at ht
  · intro h
    cases h with
    | use hd hu =>
      cases hd with
      | instruction hb _ hv =>
        cases hi.symm.trans hb
        exact .inl ⟨_, hv, _, hu, rfl⟩
    | heap hl hb hd hj hsh =>
      cases hi.symm.trans hb
      right
      simp only [readersAfter, HeapLocation.written?, if_pos hl]
      exact (mem_readersOf (hr _ _ _ rfl hl) c _ _).2 ⟨_, hd, _, _, _, hj, hsh, rfl⟩

theorem dataAnswer_returned (hg : g.calls.WellFormed) (hx : x.Sound g.calls) (hc : c ∈ g.calls.nodes) {i : Nat}
    (hi : c.HasCall i) : DataAnswered g level (.of c (.returned i)) (g.dataAnswer level (.of c (.returned i)) x) := by
  obtain ⟨target, args, result, site, hi⟩ := hi
  obtain ⟨uses, huses, hmem⟩ := mapM_flatten_ok fun v (_ : v ∈ result.toList) => useStatements_spec c v
  obtain ⟨params, hparams, hmem'⟩ := calleeParams_spec hg hc i args.length
  refine ⟨uses.flatten ++ params, ?_, fun t => ?_⟩
  · simp only [dataAnswer, hi, hx.table_eq hc, ProcedureTable.ofProcedure, huses, hparams]
    rfl
  · rw [List.mem_append, hmem, hmem']
    constructor
    · rintro (⟨v, hv, p, hp, rfl⟩ | ⟨d, k, he, hk, hp, rfl⟩)
      · rw [Option.mem_toList] at hv
        exact .use (.result (hv ▸ hi)) hp
      · exact .bound hi he hk hp
    · intro h
      cases h with
      | use hd hu =>
        cases hd with
        | result hb =>
          cases hi.symm.trans hb
          exact .inl ⟨_, by simp, _, hu, rfl⟩
      | bound hb he hk hpar =>
        cases hi.symm.trans hb
        exact .inr ⟨_, _, he, hk, hpar, rfl⟩

theorem dataAnswer_argument (hg : g.calls.WellFormed) (hc : c ∈ g.calls.nodes) (i k : Nat) :
    DataAnswered g level (.of c (.argument i k)) (g.dataAnswer level (.of c (.argument i k)) x) := by
  have htargets := CallGraph.targets_of_contains (CallGraph.contains_of_mem hc) i
  refine ⟨_, by simp only [dataAnswer, htargets]; rfl, fun t => ?_⟩
  simp only [List.mem_map, List.mem_filter, decide_eq_true_eq, hg.mem_calleesAt hc]
  constructor
  · rintro ⟨d, ⟨he, hk⟩, rfl⟩
    exact .passed he hk
  · intro h
    cases h with
    | use hd => cases hd
    | passed he hk => exact ⟨_, ⟨he, hk⟩, rfl⟩

theorem dataAnswer_param (hx : x.Sound g.calls) (hc : c ∈ g.calls.nodes) (k : Nat) :
    DataAnswered g level (.of c (.param k)) (g.dataAnswer level (.of c (.param k)) x) := by
  obtain ⟨uses, huses, hmem⟩ := mapM_flatten_ok fun v (_ : v ∈ (some ((k : Int) + 1)).toList) => useStatements_spec c v
  refine ⟨uses.flatten, ?_, fun t => ?_⟩
  · simp only [dataAnswer, Statement.paramValue?, hx.table_eq hc, ProcedureTable.ofProcedure, huses]
    rfl
  · rw [hmem]
    constructor
    · rintro ⟨v, hv, p, hp, rfl⟩
      simp only [Option.toList_some, List.mem_singleton] at hv
      exact .use (.param k) (hv ▸ hp)
    · intro h
      cases h with
      | use hd hu =>
        cases hd with
        | param => exact ⟨_, by simp, _, hu, rfl⟩

theorem dataAnswer_exit (hg : g.calls.WellFormed) (hc : c ∈ g.calls.nodes) :
    DataAnswered g level (.of c .exit) (g.dataAnswer level (.of c .exit) x) := by
  have hcall : ∀ k ∈ g.calls.callsTo c, k.caller.HasCall k.site := fun k hk => hg.site _ ((hg.mem_callsTo hc).1 hk)
  obtain ⟨returns, hreturns, hmem⟩ := mapM_flatten_ok fun k hk => returnedTo_spec (hcall k hk)
  have hcalls := CallGraph.callSitesTo_of_contains (CallGraph.contains_of_mem hc)
  have hanswer : g.dataAnswer level (.of c .exit) x = (do
      let returns ← (g.calls.callsTo c).mapM returnedTo
      return returns.flatten) := by
    simp only [dataAnswer, hcalls]
    rfl
  refine ⟨returns.flatten, by rw [hanswer, hreturns]; rfl, fun t => (hmem t).trans ⟨?_, fun h => ?_⟩⟩
  · rintro ⟨k, hk, target, args, v, site, hi, rfl⟩
    have he := (hg.mem_callsTo hc).1 hk
    obtain ⟨d, i, rfl⟩ : ∃ d i, k = .of d i := ⟨_, _, hg.eq_of he⟩
    exact .returned he hi
  · cases h with
    | use hd => cases hd
    | returned he hi => exact ⟨.of _ _, (hg.mem_callsTo hc).2 he, _, _, _, _, hi, rfl⟩

theorem dataAnswer_entry : DataAnswered g level (.of c .entry) (g.dataAnswer level (.of c .entry) x) := by
  refine ⟨[], rfl, fun t => ⟨fun h => absurd h (by simp), fun h => ?_⟩⟩
  cases h with
  | use hd => cases hd

end Answers

/-! ## Queries -/

section Queries
variable {level : Level} {x : Index} {s : Statement}

/-- A query about a field write that follows the heap has the heap reads at hand. -/
theorem reads_indexForData (hx : x.Sound g.calls) {c : Context} {i : Nat} {base : Option Int} {field : String}
    {value : Int} (hi : c.body[i]? = some (.putField base field value)) (hl : level.heap = true) :
    (g.indexForData level (.of c (.normal i)) x).reads = some (g.calls.nodes.flatMap HeapRead.ofContext) := by
  have hins : (Statement.of c (.normal i)).instruction? = some (.putField base field value) := hi
  simp only [indexForData, hins, hl, HeapLocation.written?, Instruction.defs, List.isEmpty_nil, if_true, Bool.true_and,
    Option.isSome_some]
  exact hx.reads_withReads

theorem dataAnswer_spec (hg : g.calls.WellFormed) (hx : x.Sound g.calls) (hs : g.calls.Holds s) (level : Level) :
    DataAnswered g level s (g.dataAnswer level s (g.indexForData level s x)) := by
  have hi := indexForData_sound hg.oneBody hx hs.node level
  obtain ⟨c, p, spelling⟩ := s
  obtain ⟨hc, hp, rfl : spelling = {}⟩ := hs
  cases p with
  | normal i =>
    obtain ⟨ins, hins⟩ : ∃ ins, c.body[i]? = some ins := ⟨_, List.getElem?_eq_getElem hp⟩
    cases hn : ins.isInvoke with
    | true =>
      cases ins with
      | invoke target args result site => exact dataAnswer_call ⟨target, args, result, site, hins⟩
      | _ => cases hn
    | false => exact dataAnswer_normal hi hc hins hn fun _ _ _ he hl => reads_indexForData hx (he ▸ hins) hl
  | returned i => exact dataAnswer_returned hg hi hc hp
  | argument i k => exact dataAnswer_argument hg hc i k
  | param k => exact dataAnswer_param hi hc k
  | entry => exact dataAnswer_entry
  | exit => exact dataAnswer_exit hg hc

/-- A query about a statement of the call graph answers what depends on it. -/
theorem dataSuccessors_spec (hg : g.calls.WellFormed) (hx : x.Sound g.calls) (hs : g.calls.Holds s) (level : Level) :
    g.Answered (fun t => level.enabled = true ∧ DataDependence g level s t) (g.dataSuccessors level s x) := by
  unfold dataSuccessors
  rw [CallGraph.check_of_mem hs.node]
  cases hl : level.enabled with
  | false => exact answered_nil hx (by simp)
  | true =>
    obtain ⟨l, heq, hmem⟩ := dataAnswer_spec hg hx hs level
    simp only [if_true, heq]
    refine answered_distinct hg (indexForData_sound hg.oneBody hx hs.node level) (fun t ht => ht.2.holds hg hs) fun t => ?_
    rw [hmem, true_and]

end Queries
end DependenceGraph

/-- In a loaded model, a data query at the full level answers the four rules and nothing else. -/
theorem Model.dataSuccessors_full {m : Model} (hm : m.Loaded) {x : Index} (hx : x.Sound m.calls) {s : Statement}
    (hs : m.calls.Holds s) : ∃ l, (m.dependence.dataSuccessors .full s x).1 = .ok l ∧ l.Nodup ∧
      ∀ t, t ∈ l ↔ DataDependence m.dependence .full s t := by
  have hg : m.dependence.calls.WellFormed := hm.wellFormed
  obtain ⟨l, x', hl, -, hn, hmem⟩ := DependenceGraph.dataSuccessors_spec hg hx hs .full
  exact ⟨l, by rw [hl], hn, fun t => (hmem t).trans (and_iff_right rfl)⟩

/-- The read of the recursive method may see the store, and no use of a value does. -/
theorem Model.dataSuccessors_full_store : Sample.coarse.calls.Holds Sample.store ∧
    (∃ l, (Sample.coarse.dependence.dataSuccessors .full Sample.store {}).1 = .ok l ∧
      Statement.of (Sample.merged Sample.walk) (.normal 0) ∈ l) ∧
    ∀ t, DataDependence Sample.coarse.dependence .full Sample.store t →
      t = .of (Sample.merged Sample.walk) (.normal 0) := by
  have hs : Sample.coarse.calls.Holds Sample.store :=
    .of (by simp [Sample.coarse]) (by decide : 2 < Sample.main.body.length)
  obtain ⟨l, hl, -, hmem⟩ := Model.dataSuccessors_full Sample.coarse_loaded (Index.sound_empty _) hs
  have hone : l = [.of (Sample.merged Sample.walk) (.normal 0)] := (Except.ok.inj hl).symm
  refine ⟨hs, ⟨l, hl, by simp [hone]⟩, fun t ht => ?_⟩
  simpa [hone] using (hmem t).2 ht

end ForwardSlicing
