import ForwardSlicing.Proofs.Criteria
import ForwardSlicing.Proofs.SliceSafety
/-!
# The calls that may reach a method

All over a call graph, a call is found by the methods it may reach, whatever method it declares. Whether it is a criterion
depends on the method it declares: a void one gives no value to slice from. `collect_bestEffort` and `collect_strict` say
what comes of any calls in any order, and `callers_exact` what comes of the calls that may reach a method.
-/

namespace ForwardSlicing

/-! ## Criteria of calls -/

namespace Context

variable {c : Context} {i : Nat} {target : Method}

theorem Declares.unique {target' : Method} (h : c.Declares i target) (h' : c.Declares i target') : target = target' := by
  obtain ⟨args, result, site, hi⟩ := h
  obtain ⟨args', result', site', hi'⟩ := h'
  cases hi.symm.trans hi'
  rfl

/-- The call at an index declares a method that returns nothing. -/
def CallsVoid (c : Context) (i : Nat) : Prop := ∃ target, c.Declares i target ∧ target.returnsVoid = true

/-- The call at an index declares a method with a result, and the statement is the value that it returns. -/
def Gives (c : Context) (i : Nat) (s : Statement) : Prop :=
  ∃ target, c.Declares i target ∧ target.returnsVoid = false ∧ s = .of c (.returned i)

theorem Declares.returnValue (h : c.Declares i target) : (Statement.of c (.normal i)).returnValue =
    if target.returnsVoid then .error (.voidReturn target) else .ok (.of c (.returned i)) := by
  obtain ⟨args, result, site, hi⟩ := h
  simp [Statement.returnValue, Statement.instruction?, Point.instruction?, hi]

end Context

/-- A call whose index was given as an integer. -/
def Invocation.IsPlainCall (k : Invocation) : Prop := ∃ c i, c.HasCall i ∧ k = .of c i

namespace CallGraph

open Context

/-! ## Collecting criteria -/

section Collecting
variable {c : Context} {i : Nat} {target : Method}

theorem criteriaOf_cons (h : c.Declares i target) (calls : List Invocation) :
    criteriaOf (.of c i :: calls) =
      (c, if target.returnsVoid then .error (.voidReturn target) else .ok (.of c (.returned i))) :: criteriaOf calls := by
  have hsome : (c.body[i]?).isNone = false := by
    obtain ⟨args, result, site, hi⟩ := h
    simp [hi]
  have hnormal : (Invocation.of c i).normal = .of c (.normal i) := rfl
  simp only [criteriaOf, List.map_cons, hsome, hnormal, h.returnValue, Bool.false_eq_true, if_false]

/-- In best effort, all values that calls give are collected. -/
theorem collect_bestEffort : ∀ {calls : List Invocation}, (∀ k ∈ calls, k.IsPlainCall) →
    ∀ (skipped : List SkippedCall) (seeds : List Statement), ∃ values,
      (collect true (criteriaOf calls) skipped seeds).1 = .ok (distinct (seeds ++ values)) ∧
      ∀ s, s ∈ values ↔ ∃ k ∈ calls, k.caller.Gives k.site s
  | [], _, skipped, seeds => ⟨[], by simp [criteriaOf, collect], by simp⟩
  | _ :: calls, hcalls, skipped, seeds => by
    obtain ⟨⟨c, i, hcall, rfl⟩, hrest⟩ := List.forall_mem_cons.1 hcalls
    obtain ⟨target, hdeclares⟩ : ∃ target, c.Declares i target := hcall
    rw [criteriaOf_cons hdeclares]
    cases hvoid : target.returnsVoid with
    | true =>
      obtain ⟨values, hvalues, hmem⟩ := collect_bestEffort hrest (skipped ++ [⟨c, .voidReturn target⟩]) seeds
      refine ⟨values, by simpa [collect] using hvalues, fun s => ?_⟩
      have hnone : ¬c.Gives i s := by
        rintro ⟨target', hdeclares', hresult, -⟩
        rw [hdeclares.unique hdeclares', hresult] at hvoid
        cases hvoid
      simp [hmem, hnone]
    | false =>
      obtain ⟨values, hvalues, hmem⟩ := collect_bestEffort hrest skipped (seeds ++ [.of c (.returned i)])
      refine ⟨.of c (.returned i) :: values, by simpa [collect] using hvalues, fun s => ?_⟩
      have hgives : c.Gives i s ↔ s = .of c (.returned i) :=
        ⟨fun ⟨_, _, _, hs⟩ => hs, fun hs => ⟨target, hdeclares, hvoid, hs⟩⟩
      simp [hmem, hgives]

/-- Otherwise the first void call ends the search, and without one the search is the same. -/
theorem collect_strict : ∀ {calls : List Invocation}, (∀ k ∈ calls, k.IsPlainCall) →
    ∀ (skipped : List SkippedCall) (seeds : List Statement),
      ((∀ k ∈ calls, ¬k.caller.CallsVoid k.site) ∧
        (collect false (criteriaOf calls) skipped seeds).1 = (collect true (criteriaOf calls) skipped seeds).1) ∨
      ∃ target, (∃ k ∈ calls, k.caller.Declares k.site target ∧ target.returnsVoid = true) ∧
        (collect false (criteriaOf calls) skipped seeds).1 = .error (.voidReturn target)
  | [], _, skipped, seeds => .inl ⟨by simp, rfl⟩
  | _ :: calls, hcalls, skipped, seeds => by
    obtain ⟨⟨c, i, hcall, rfl⟩, hrest⟩ := List.forall_mem_cons.1 hcalls
    obtain ⟨target, hdeclares⟩ : ∃ target, c.Declares i target := hcall
    rw [criteriaOf_cons hdeclares]
    cases hvoid : target.returnsVoid with
    | true => exact .inr ⟨target, ⟨.of c i, by simp, hdeclares, hvoid⟩, by simp [collect]⟩
    | false =>
      have hnotVoid : ¬c.CallsVoid i := by
        rintro ⟨target', hdeclares', hvoid'⟩
        rw [hdeclares.unique hdeclares', hvoid'] at hvoid
        cases hvoid
      rcases collect_strict hrest skipped (seeds ++ [.of c (.returned i)]) with
        ⟨hnone, hsame⟩ | ⟨target', ⟨k, hk, hvoid'⟩, herror⟩
      · exact .inl ⟨List.forall_mem_cons.2 ⟨hnotVoid, hnone⟩, by simpa [collect] using hsame⟩
      · exact .inr ⟨target', ⟨k, List.mem_cons_of_mem _ hk, hvoid'⟩, by simpa [collect] using herror⟩

end Collecting

/-! ## Calls that may reach a method -/

/-- The call at an index of a context has an edge to a context of the method. -/
def CallReaches (g : CallGraph) (m : Method) (c : Context) (i : Nat) : Prop := ∃ t, .of c i t ∈ g.edges ∧ t.method = m

section Reaching
variable {g : CallGraph} (hg : g.WellFormed) {m : Method} {c : Context} {i : Nat}
include hg

theorem CallReaches.node (h : g.CallReaches m c i) : c ∈ g.nodes := by
  obtain ⟨t, he, -⟩ := h
  exact hg.caller _ he

theorem CallReaches.hasCall (h : g.CallReaches m c i) : c.HasCall i := by
  obtain ⟨t, he, -⟩ := h
  exact hg.site _ he

/-- The values that calls give can be sliced from. -/
theorem CallReaches.holds_of_gives {s : Statement} (h : g.CallReaches m c i) (hs : c.Gives i s) : g.Holds s := by
  obtain ⟨-, -, -, rfl⟩ := hs
  exact .of (h.node hg) (h.hasCall hg)

/-- The calls that may reach a method are found. -/
theorem callsReaching_eq_ok : ∃ calls, g.callsReaching m = .ok calls ∧
    ∀ k, k ∈ calls ↔ ∃ c i, g.CallReaches m c i ∧ k = .of c i := by
  obtain ⟨found, hfound, hmem⟩ := mapM_flatten_ok (f := g.callSitesTo) (P := fun t k => ⟨k, t⟩ ∈ g.edges)
    fun t (ht : t ∈ g.nodesFor m) =>
      have hnode := (hg.mem_nodesFor.1 ht).1
      ⟨_, callSitesTo_of_contains (contains_of_mem hnode), fun k => hg.mem_callsTo hnode⟩
  refine ⟨found.flatten, by rw [callsReaching, hfound]; rfl, fun k => ?_⟩
  rw [hmem]
  constructor
  · rintro ⟨t, ht, he⟩
    have hk := hg.eq_of he
    exact ⟨k.caller, k.site, ⟨t, hk ▸ he, (hg.mem_nodesFor.1 ht).2⟩, hk⟩
  · rintro ⟨c, i, ⟨t, he, hm⟩, rfl⟩
    exact ⟨t, hg.mem_nodesFor.2 ⟨hg.callee _ he, hm⟩, he⟩

/-- The contexts that a method is reached from. -/
theorem callersOf_eq_ok : ∃ found, (g.nodesFor m).mapM g.predecessors = .ok found ∧
    ∀ c, c ∈ distinct found.flatten ↔ ∃ i, g.CallReaches m c i := by
  obtain ⟨found, hfound, hmem⟩ := mapM_flatten_ok (f := g.predecessors) (P := fun t c => ∃ i, .of c i t ∈ g.edges)
    fun t (ht : t ∈ g.nodesFor m) =>
      have hnode := (hg.mem_nodesFor.1 ht).1
      ⟨_, predecessors_of_contains (contains_of_mem hnode), fun c => hg.mem_callers hnode⟩
  have hnodes : ∀ c ∈ found.flatten, c ∈ g.nodes := by
    intro c hc
    obtain ⟨t, -, i, he⟩ := (hmem c).1 hc
    exact hg.caller _ he
  refine ⟨found, hfound, fun c => ?_⟩
  rw [hg.oneBody.exactOn.mem_distinct hnodes, hmem]
  constructor
  · rintro ⟨t, ht, i, he⟩
    exact ⟨i, t, he, (hg.mem_nodesFor.1 ht).2⟩
  · rintro ⟨i, t, he, hm⟩
    exact ⟨t, hg.mem_nodesFor.2 ⟨hg.callee _ he, hm⟩, i, he⟩

theorem findCallers_eq_error : g.findCallers m = .error (.noCallers m) ↔ ∀ c i, ¬g.CallReaches m c i := by
  obtain ⟨found, hfound, hmem⟩ := callersOf_eq_ok hg (m := m)
  have hempty : (distinct found.flatten).isEmpty = true ↔ ∀ c i, ¬g.CallReaches m c i := by
    rw [List.isEmpty_iff, List.eq_nil_iff_forall_not_mem]
    exact forall_congr' fun c => (not_congr (hmem c)).trans not_exists
  have hcallers : g.findCallers m =
      if (distinct found.flatten).isEmpty then .error (.noCallers m) else .ok (distinct found.flatten) := by
    rw [findCallers, hfound]
    rfl
  rw [hcallers, ← hempty]
  split
  case isTrue h => simp [h]
  case isFalse h => simp [h]

theorem findCallers_eq_ok (h : ∃ c i, g.CallReaches m c i) :
    ∃ callers, g.findCallers m = .ok callers ∧ callers.Nodup ∧ ∀ c, c ∈ callers ↔ ∃ i, g.CallReaches m c i := by
  obtain ⟨c, i, hreach⟩ := h
  obtain ⟨found, hfound, hmem⟩ := callersOf_eq_ok hg (m := m)
  have hne : (distinct found.flatten).isEmpty = false := by
    simpa using List.ne_nil_of_mem ((hmem c).2 ⟨i, hreach⟩)
  refine ⟨_, ?_, nodup_distinct _, hmem⟩
  rw [findCallers, hfound]
  exact if_neg (by simpa using hne)

/-- If calls may reach a method, they are gone through. -/
theorem findAllCallersOf_eq (h : ∃ c i, g.CallReaches m c i) : ∃ calls,
    (∀ bestEffort, g.findAllCallersOf m bestEffort = collect bestEffort (criteriaOf calls) [] []) ∧
    (∀ k ∈ calls, k.IsPlainCall) ∧ ∀ k, k ∈ calls ↔ ∃ c i, g.CallReaches m c i ∧ k = .of c i := by
  obtain ⟨calls, hcalls, hmem⟩ := callsReaching_eq_ok hg (m := m)
  obtain ⟨c, i, hreach⟩ := h
  have hne : calls.isEmpty = false := by simpa using List.ne_nil_of_mem ((hmem _).2 ⟨c, i, hreach, rfl⟩)
  refine ⟨calls, fun bestEffort => ?_, fun k hk => ?_, hmem⟩
  · simp only [findAllCallersOf, hcalls, hne, Bool.false_eq_true, if_false]
  · obtain ⟨c, i, hreach, rfl⟩ := (hmem k).1 hk
    exact ⟨c, i, hreach.hasCall hg, rfl⟩

theorem findAllCallersOf_bestEffort (h : ∃ c i, g.CallReaches m c i) :
    ∃ seeds, (g.findAllCallersOf m true).1 = .ok seeds ∧ seeds.Nodup ∧
      ∀ s, s ∈ seeds ↔ ∃ c i, g.CallReaches m c i ∧ c.Gives i s := by
  obtain ⟨calls, hfind, hplain, hcall⟩ := findAllCallersOf_eq hg h
  obtain ⟨values, hvalues, hmem⟩ := collect_bestEffort hplain [] []
  have hmem' : ∀ s, s ∈ values ↔ ∃ c i, g.CallReaches m c i ∧ c.Gives i s := by
    intro s
    rw [hmem]
    constructor
    · rintro ⟨k, hk, hs⟩
      obtain ⟨c, i, hreach, rfl⟩ := (hcall k).1 hk
      exact ⟨c, i, hreach, hs⟩
    · rintro ⟨c, i, hreach, hs⟩
      exact ⟨.of c i, (hcall _).2 ⟨c, i, hreach, rfl⟩, hs⟩
  have hheld : ∀ s ∈ values, g.Holds s := by
    intro s hs
    obtain ⟨c, i, hreach, hgives⟩ := (hmem' s).1 hs
    exact hreach.holds_of_gives hg hgives
  refine ⟨distinct values, ?_, nodup_distinct _, fun s => ?_⟩
  · rw [hfind]
    exact hvalues
  · rw [hg.exactOn_holds.mem_distinct hheld, hmem']

theorem findAllCallersOf_strict (h : ∃ c i, g.CallReaches m c i) :
    ((∀ c i, g.CallReaches m c i → ¬c.CallsVoid i) ∧ (g.findAllCallersOf m false).1 = (g.findAllCallersOf m true).1) ∨
    ∃ target, (∃ c i, g.CallReaches m c i ∧ c.CallsVoid i) ∧
      (g.findAllCallersOf m false).1 = .error (.voidReturn target) := by
  obtain ⟨calls, hfind, hplain, hcall⟩ := findAllCallersOf_eq hg h
  rw [hfind, hfind]
  rcases collect_strict hplain [] [] with ⟨hnone, hsame⟩ | ⟨target, ⟨k, hk, hvoid⟩, herror⟩
  · exact .inl ⟨fun c i hreach => hnone (.of c i) ((hcall _).2 ⟨c, i, hreach, rfl⟩), hsame⟩
  · obtain ⟨c, i, hreach, rfl⟩ := (hcall k).1 hk
    exact .inr ⟨target, ⟨c, i, hreach, target, hvoid⟩, herror⟩

theorem findAllCallersOf_eq_error (bestEffort : Bool) :
    (g.findAllCallersOf m bestEffort).1 = .error (.noCallers m) ↔ ∀ c i, ¬g.CallReaches m c i := by
  constructor
  · intro herror c i hreach
    obtain ⟨seeds, hseeds, -⟩ := findAllCallersOf_bestEffort hg ⟨c, i, hreach⟩
    cases bestEffort with
    | true => cases hseeds.symm.trans herror
    | false =>
      rcases findAllCallersOf_strict hg ⟨c, i, hreach⟩ with ⟨-, hsame⟩ | ⟨target, -, hvoid⟩
      · cases hseeds.symm.trans (hsame.symm.trans herror)
      · cases hvoid.symm.trans herror
  · intro hnone
    obtain ⟨calls, hcalls, hmem⟩ := callsReaching_eq_ok hg (m := m)
    obtain rfl : calls = [] := List.eq_nil_iff_forall_not_mem.2 fun k hk => by
      obtain ⟨c, i, hreach, -⟩ := (hmem k).1 hk
      exact hnone c i hreach
    simp [findAllCallersOf, hcalls]

/-- What is found, in best effort or not, are values that calls give. -/
theorem findAllCallersOf_holds {bestEffort : Bool} {seeds : List Statement}
    (h : (g.findAllCallersOf m bestEffort).1 = .ok seeds) : ∀ s ∈ seeds, g.Holds s := by
  have hsome : ∃ c i, g.CallReaches m c i := by
    by_contra hnone
    simp only [not_exists] at hnone
    cases h.symm.trans ((findAllCallersOf_eq_error hg bestEffort).2 hnone)
  obtain ⟨values, hvalues, -, hmem⟩ := findAllCallersOf_bestEffort hg hsome
  have hsame : seeds = values := by
    cases bestEffort with
    | true => exact Except.ok.inj (h.symm.trans hvalues)
    | false =>
      rcases findAllCallersOf_strict hg hsome with ⟨-, hsame⟩ | ⟨target, -, hvoid⟩
      · exact Except.ok.inj (h.symm.trans (hsame.trans hvalues))
      · cases hvoid.symm.trans h
  intro s hs
  obtain ⟨c, i, hreach, hgives⟩ := (hmem s).1 (hsame ▸ hs)
  exact hreach.holds_of_gives hg hgives

end Reaching
end CallGraph

namespace Model

open CallGraph

/-- Let a method be given. It has no callers exactly if no call may reach it. Otherwise its callers are the contexts of the
calls that may, and in best effort its criteria are the values that these calls give. Without best effort a call to a void
method fails the search, and only if there is none the same criteria are found. Every choice of criteria can be sliced
from. -/
theorem callers_exact {m : Model} (hm : m.Loaded) (method : Method) :
    (∀ c i, m.calls.CallReaches method c i → ∃! target, c.Declares i target) ∧
    (m.calls.findCallers method = .error (.noCallers method) ↔ ∀ c i, ¬m.calls.CallReaches method c i) ∧
    (∀ bestEffort, (m.calls.findAllCallersOf method bestEffort).1 = .error (.noCallers method) ↔
      ∀ c i, ¬m.calls.CallReaches method c i) ∧
    ((∃ c i, m.calls.CallReaches method c i) →
      (∃ callers, m.calls.findCallers method = .ok callers ∧ callers.Nodup ∧
        ∀ c, c ∈ callers ↔ ∃ i, m.calls.CallReaches method c i) ∧
      (∃ seeds, (m.calls.findAllCallersOf method true).1 = .ok seeds ∧ seeds.Nodup ∧
        ∀ s, s ∈ seeds ↔ ∃ c i, m.calls.CallReaches method c i ∧ c.Gives i s) ∧
      ((∃ target, (m.calls.findAllCallersOf method false).1 = .error (.voidReturn target)) ↔
        ∃ c i, m.calls.CallReaches method c i ∧ c.CallsVoid i) ∧
      ((∀ c i, m.calls.CallReaches method c i → ¬c.CallsVoid i) →
        (m.calls.findAllCallersOf method false).1 = (m.calls.findAllCallersOf method true).1)) ∧
    ∀ bestEffort seeds, (m.calls.findAllCallersOf method bestEffort).1 = .ok seeds →
      ∀ chosen : List Statement, (∀ s ∈ chosen, s ∈ seeds) → ∀ data control limit x, x.Sound m.calls →
        ∀ c, (m.dependence.forwardSlice data control limit chosen x).1 ≠ .error (.unknownContext c) := by
  have hg : m.calls.WellFormed := hm.wellFormed
  refine ⟨fun c i hreach => ?_, findCallers_eq_error hg, findAllCallersOf_eq_error hg, fun hsome => ?_,
    fun bestEffort seeds hseeds chosen hchosen data control limit x hx c => ?_⟩
  · obtain ⟨target, htarget⟩ : ∃ target, c.Declares i target := hreach.hasCall hg
    exact ⟨target, htarget, fun target' h' => h'.unique htarget⟩
  · refine ⟨findCallers_eq_ok hg hsome, findAllCallersOf_bestEffort hg hsome, ?_, fun hnone => ?_⟩
    · obtain ⟨seeds, hseeds, -⟩ := findAllCallersOf_bestEffort hg hsome
      rcases findAllCallersOf_strict hg hsome with ⟨hnone, hsame⟩ | ⟨target, hvoid, herror⟩
      · rw [hsame, hseeds]
        exact ⟨fun ⟨_, h⟩ => (by cases h), fun ⟨c, i, hreach, hvoid⟩ => absurd hvoid (hnone c i hreach)⟩
      · exact ⟨fun _ => hvoid, fun _ => ⟨target, herror⟩⟩
    · rcases findAllCallersOf_strict hg hsome with ⟨-, hsame⟩ | ⟨target, ⟨c, i, hreach, hvoid⟩, -⟩
      · exact hsame
      · exact absurd hvoid (hnone c i hreach)
  · have hadmits : ∀ s ∈ chosen, m.calls.Admits s :=
      fun s hs => (findAllCallersOf_holds hg hseeds s (hchosen s hs)).admits
    have hsafe : m.dependence.Safe limit chosen (m.dependence.forwardSlice data control limit chosen x) :=
      DependenceGraph.forwardSlice_safe data control hg hx hadmits
    obtain ⟨-, ⟨slice, hslice, -⟩ | ⟨l, -, htruncated⟩⟩ := hsafe
    · simp [hslice]
    · simp [htruncated]

end Model

/-! ## An example

A method is called in two contexts. One of the calls declares a void method, and dispatch finds the other one. -/

namespace Sample

def dispatch : Json := .obj [
  ("procedures", .arr [
    .obj [("signature", .str "Box.main()V"), ("instructions", .arr [
      .obj [("op", .str "invoke"), ("target", .str "Box.log(I)V"), ("args", .arr [.int 1])],
      .obj [("op", .str "invoke"), ("target", .str "Box.walk(I)I"), ("args", .arr [.int 1]), ("result", .int 2)],
      .obj [("op", .str "return")]])],
    .obj [("signature", .str "Box.walk(I)I"), ("instructions", .arr [
      .obj [("op", .str "return"), ("value", .int 1)]])]]),
  ("analyses", .obj [
    ("1cfa", .obj [
      ("contexts", .arr [
        .obj [("id", .str "main"), ("procedure", .str "Box.main()V")],
        .obj [("id", .str "first"), ("procedure", .str "Box.walk(I)I"), ("context", .str "first")],
        .obj [("id", .str "second"), ("procedure", .str "Box.walk(I)I"), ("context", .str "second")]]),
      ("edges", .arr [edge "main" 0 "first", edge "main" 1 "first", edge "main" 1 "second"])])])]

/-- The only caller. -/
def dispatcher : Context where
  procedure := ⟨⟨"Box", "main", ⟨[], "V"⟩⟩, 0,
    [.invoke logMethod [1] none none, .invoke walkMethod [1] (some 2) none, .ret none]⟩
  name := "Everywhere"

/-- A context of the method that is called. -/
def dispatchee (name : String) : Context := ⟨⟨walkMethod, 1, [.ret (some 1)]⟩, name⟩

def dispatched : Model where
  name := "1cfa"
  calls := {
    nodes := [dispatcher, dispatchee "first", dispatchee "second"]
    byMethod := [(dispatcher.method, [dispatcher]), (walkMethod, [dispatchee "first", dispatchee "second"])]
    entrypoints := []
    edges := [.of dispatcher 0 (dispatchee "first"), .of dispatcher 1 (dispatchee "first"),
      .of dispatcher 1 (dispatchee "second")] }
  pointsTo := ⟨[]⟩
  contexts := [("main", dispatcher), ("first", dispatchee "first"), ("second", dispatchee "second")]

theorem dispatched_loaded : dispatched.Loaded :=
  Model.loaded_of_ofJson (ofJson_of_gives (by decide +kernel : gives (fun _ => false) dispatch "1cfa" dispatched = true))

theorem dispatched_reaches {c : Context} {i : Nat} :
    dispatched.calls.CallReaches walkMethod c i ↔ c = dispatcher ∧ (i = 0 ∨ i = 1) := by
  simp only [CallGraph.CallReaches, dispatched, List.mem_cons, CallEdge.mk.injEq, Invocation.mk.injEq, and_true,
    and_assoc, List.not_mem_nil, or_false]
  constructor
  · rintro ⟨t, ⟨rfl, rfl, -⟩ | ⟨rfl, rfl, -⟩ | ⟨rfl, rfl, -⟩, -⟩
    · exact ⟨rfl, .inl rfl⟩
    · exact ⟨rfl, .inr rfl⟩
    · exact ⟨rfl, .inr rfl⟩
  · rintro ⟨rfl, rfl | rfl⟩
    · exact ⟨dispatchee "first", .inl ⟨rfl, rfl, rfl⟩, rfl⟩
    · exact ⟨dispatchee "first", .inr (.inl ⟨rfl, rfl, rfl⟩), rfl⟩

end Sample

/-- In best effort one of the two calls is a criterion, once, though it reaches two contexts. The other one fails the search
without best effort, though the method that it reaches is not void. -/
theorem Model.callers_exact_dispatched :
    (∃ callers, Sample.dispatched.calls.findCallers Sample.walkMethod = .ok callers ∧
      ∀ c, c ∈ callers ↔ c = Sample.dispatcher) ∧
    (∃ seeds, (Sample.dispatched.calls.findAllCallersOf Sample.walkMethod true).1 = .ok seeds ∧ seeds.Nodup ∧
      ∀ s, s ∈ seeds ↔ s = .of Sample.dispatcher (.returned 1)) ∧
    (∃ target, (Sample.dispatched.calls.findAllCallersOf Sample.walkMethod false).1 = .error (.voidReturn target)) ∧
    Sample.dispatched.calls.findCallers Sample.logMethod = .error (.noCallers Sample.logMethod) := by
  have hfirst : Sample.dispatcher.Declares 0 Sample.logMethod := ⟨_, _, _, rfl⟩
  have hsecond : Sample.dispatcher.Declares 1 Sample.walkMethod := ⟨_, _, _, rfl⟩
  obtain ⟨-, -, -, hfound, -⟩ := callers_exact Sample.dispatched_loaded Sample.walkMethod
  obtain ⟨⟨callers, hcallers, -, hcaller⟩, ⟨seeds, hseeds, hnodup, hseed⟩, hvoid, -⟩ :=
    hfound ⟨_, 0, Sample.dispatched_reaches.2 ⟨rfl, .inl rfl⟩⟩
  refine ⟨⟨callers, hcallers, fun c => ?_⟩, ⟨seeds, hseeds, hnodup, fun s => ?_⟩, ?_, ?_⟩
  · rw [hcaller]
    simp only [Sample.dispatched_reaches]
    exact ⟨fun ⟨_, hc, _⟩ => hc, fun hc => ⟨0, hc, .inl rfl⟩⟩
  · rw [hseed]
    constructor
    · rintro ⟨c, i, hreach, target, htarget, hresult, rfl⟩
      obtain ⟨rfl, rfl | rfl⟩ := Sample.dispatched_reaches.1 hreach
      · rw [htarget.unique hfirst] at hresult
        cases hresult
      · rfl
    · rintro rfl
      exact ⟨_, 1, Sample.dispatched_reaches.2 ⟨rfl, .inr rfl⟩, _, hsecond, rfl, rfl⟩
  · exact hvoid.2 ⟨_, 0, Sample.dispatched_reaches.2 ⟨rfl, .inl rfl⟩, _, hfirst, rfl⟩
  · refine (callers_exact Sample.dispatched_loaded Sample.logMethod).2.1.2 fun c i => ?_
    rintro ⟨t, he, ht⟩
    simp only [Sample.dispatched, List.mem_cons, CallEdge.mk.injEq, Invocation.mk.injEq, and_true, and_assoc,
      List.not_mem_nil, or_false] at he
    rcases he with ⟨-, -, rfl⟩ | ⟨-, -, rfl⟩ | ⟨-, -, rfl⟩
    · exact absurd ht (by decide)
    · exact absurd ht (by decide)
    · exact absurd ht (by decide)

end ForwardSlicing
