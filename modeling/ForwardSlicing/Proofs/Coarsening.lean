import ForwardSlicing.Proofs.Slice
/-!
# Coarser analyses

One analysis is coarser than another if a map of contexts keeps the procedures, takes calls to calls and loses no object
that a value may be. The map then takes each dependence to a dependence, rule by rule. So `slice_coarsens`: it takes the
slice in the finer analysis into the slice in the coarser one.
-/

namespace ForwardSlicing

/-- The same point of another context. -/
def Statement.mapContext (h : Context → Context) (s : Statement) : Statement := { s with context := h s.context }

namespace DependenceGraph

/-- The second graph is coarser than the first one along a map of contexts. -/
structure Coarsens (A B : DependenceGraph) (h : Context → Context) : Prop where
  node : ∀ c ∈ A.calls.nodes, h c ∈ B.calls.nodes
  procedure : ∀ c ∈ A.calls.nodes, (h c).procedure = c.procedure
  edge : ∀ c i d, .of c i d ∈ A.calls.edges → .of (h c) i (h d) ∈ B.calls.edges
  objects : ∀ c ∈ A.calls.nodes, ∀ v o, o ∈ A.pointsTo.objects c v → o ∈ B.pointsTo.objects (h c) v

end DependenceGraph

/-! ## Contexts of one procedure -/

section Procedures
variable {c d : Context} {p : Point} {v : Int}

theorem Context.body_eq (h : d.procedure = c.procedure) : d.body = c.body := congrArg Procedure.body h

theorem Point.In.of_procedure (h : d.procedure = c.procedure) (hp : p.In c) : p.In d := by
  cases p with
  | normal i => rwa [Point.In, Context.body_eq h]
  | returned i => rwa [Point.In, Context.HasCall, Context.body_eq h]
  | argument i k => rwa [Point.In, Context.body_eq h]
  | param k => rwa [Point.In, h]
  | entry => trivial
  | exit => trivial

theorem Context.Defines.of_procedure (h : d.procedure = c.procedure) (hp : c.Defines p v) : d.Defines p v := by
  have hb := Context.body_eq h
  cases hp with
  | instruction hi hn hv => exact .instruction (hb ▸ hi) hn hv
  | result hi => exact .result (hb ▸ hi)
  | param k => exact .param k

theorem Context.Uses.of_procedure (h : d.procedure = c.procedure) (hp : c.Uses p v) : d.Uses p v := by
  have hb := Context.body_eq h
  cases hp with
  | argument hi hk => exact .argument (hb ▸ hi) hk
  | exit hi => exact .exit (hb ▸ hi)
  | normal hi hn hr hv => exact .normal (hb ▸ hi) hn hr hv

theorem Context.Executes.of_procedure {i : Nat} (h : d.procedure = c.procedure) (hp : c.Executes i p) :
    d.Executes i p := by
  have hb := Context.body_eq h
  cases hp with
  | exit hi => exact .exit (hb ▸ hi)
  | normal hi hr => exact .normal (hb ▸ hi) hr
  | result hi => exact .result (hb ▸ hi)
  | argument hi hk => exact .argument (hb ▸ hi) hk

theorem Context.mem_dependents_of_procedure {n n' : FlowNode} (h : d.procedure = c.procedure)
    (hn : n' ∈ c.dependents n) : n' ∈ d.dependents n := by
  rwa [Context.dependents, h]

end Procedures

namespace DependenceGraph

/-! ## Rule by rule -/

section Rules
variable {A B : DependenceGraph} {h : Context → Context} (hh : Coarsens A B h) {s t : Statement}
include hh

theorem Coarsens.holds (hs : A.calls.Holds s) : B.calls.Holds (s.mapContext h) where
  node := hh.node _ hs.node
  point := hs.point.of_procedure (hh.procedure _ hs.node)
  plain := hs.plain

theorem Coarsens.shared {c d : Context} (hc : c ∈ A.calls.nodes) (hd : d ∈ A.calls.nodes) {base base' : Option Int}
    (hs : A.pointsTo.Shared c d base base') : B.pointsTo.Shared (h c) (h d) base base' := by
  cases hs with
  | static => exact .static
  | object ho ho' => exact .object (hh.objects c hc _ _ ho) (hh.objects d hd _ _ ho')

theorem Coarsens.dataDependence (hA : A.calls.WellFormed) {level : Level} (hs : A.calls.Holds s)
    (hst : DataDependence A level s t) : DataDependence B level (s.mapContext h) (t.mapContext h) := by
  have hproc := hh.procedure _ hs.node
  have hbody := Context.body_eq hproc
  cases hst with
  | use hd hu => exact .use (hd.of_procedure hproc) (hu.of_procedure hproc)
  | heap hl hi hd hj hsh =>
    have hbody' := Context.body_eq (hh.procedure _ hd)
    exact .heap hl (hbody ▸ hi) (hh.node _ hd) (hbody' ▸ hj) (hh.shared hs.node hd hsh)
  | passed he hk => exact .passed (hh.edge _ _ _ he) (hh.procedure _ (hA.callee _ he) ▸ hk)
  | bound hi he hk hpar => exact .bound (hbody ▸ hi) (hh.edge _ _ _ he) hk (hh.procedure _ (hA.callee _ he) ▸ hpar)
  | returned he hi =>
    have hbody' := Context.body_eq (hh.procedure _ (hA.caller _ he))
    exact .returned (hh.edge _ _ _ he) (hbody' ▸ hi)

theorem Coarsens.controlDependence {level : Level} (hs : A.calls.Holds s) (hst : ControlDependence A level s t) :
    ControlDependence B level (s.mapContext h) (t.mapContext h) := by
  have hproc := hh.procedure _ hs.node
  cases hst with
  | param hk => exact .param (hproc ▸ hk)
  | entry hj hp => exact .entry (Context.mem_dependents_of_procedure hproc hj) (hp.of_procedure hproc)
  | decision hj hp => exact .decision (Context.mem_dependents_of_procedure hproc hj) (hp.of_procedure hproc)
  | call hl he => exact .call hl (hh.edge _ _ _ he)

theorem Coarsens.depends (hA : A.calls.WellFormed) {data control : Level} (hs : A.calls.Holds s)
    (hst : A.Depends data control s t) : B.Depends data control (s.mapContext h) (t.mapContext h) := by
  rcases hst with ⟨hl, hst⟩ | ⟨hl, hst⟩
  · exact .inl ⟨hl, hh.dataDependence hA hs hst⟩
  · exact .inr ⟨hl, hh.controlDependence hs hst⟩

end Rules

/-! ## Slices -/

/-- The map takes the closure of statements into the closure of their images. -/
theorem Coarsens.closure {A B : DependenceGraph} {h : Context → Context} (hh : Coarsens A B h)
    (hA : A.calls.WellFormed) (hB : B.calls.WellFormed) {data control : Level} {seeds : List Statement}
    (hs : ∀ s ∈ seeds, A.calls.Holds s) {t : Statement} (ht : t ∈ A.closure data control seeds) :
    t.mapContext h ∈ B.closure data control (seeds.map (·.mapContext h)) := by
  -- the successors of a statement are known where the call graph holds it, so this goes along
  have hsub : A.closure data control seeds ⊆
      {t | A.calls.Holds t ∧ t.mapContext h ∈ B.closure data control (seeds.map (·.mapContext h))} := by
    refine Search.reach_subset (fun s h => ⟨hs s h, Search.mem_reach_of_mem (List.mem_map.2 ⟨s, h, rfl⟩)⟩) ?_
    rintro s ⟨hheld, hreach⟩ t hst
    have hdep := (successor_iff data control hA hheld).1 hst
    refine ⟨hdep.holds data control hA hheld, Search.reach_step hreach ?_⟩
    exact (successor_iff data control hB (hh.holds hheld)).2 (hh.depends hA hheld hdep)
  exact (hsub ht).2

end DependenceGraph

namespace Sample

theorem mem_objects_fine {c : Context} {v : Int} {o : String} (h : o ∈ fine.pointsTo.objects c v) :
    v = 1 ∧ o = "object" := by
  rw [PointsTo.objects] at h
  split at h
  case h_1 e he =>
    have hv := List.find?_some he
    have hmem := List.mem_of_find?_eq_some he
    simp only [PointsTo.isFor, Bool.and_eq_true, beq_iff_eq] at hv
    simp only [fine, List.mem_cons, List.not_mem_nil, or_false] at hmem
    rcases hmem with rfl | rfl
    · exact ⟨hv.2.symm, List.mem_singleton.1 h⟩
    · exact ⟨hv.2.symm, List.mem_singleton.1 h⟩
  case h_2 => cases h

/-- One context for each method is coarser than one for each call. -/
theorem coarsens : DependenceGraph.Coarsens fine.dependence coarse.dependence fun c => merged c.procedure where
  node := by simp [Model.dependence, fine, coarse, outer, inner, merged]
  procedure _ _ := rfl
  edge c i d he := by
    have hedge : ∀ e ∈ fine.calls.edges,
        .of (merged e.caller.procedure) e.site (merged e.callee.procedure) ∈ coarse.calls.edges := by
      simp [fine, coarse, outer, inner, merged]
    exact hedge _ he
  objects c hc v o ho := by
    obtain ⟨rfl, rfl⟩ := mem_objects_fine ho
    revert c
    decide

end Sample

namespace Model

open DependenceGraph

/-- A coarser analysis gives a larger slice. -/
theorem slice_coarsens {A B : Model} (hA : A.Loaded) (hB : B.Loaded) {h : Context → Context}
    (hh : Coarsens A.dependence B.dependence h) (data control : Level) {seeds : List Statement}
    (hseeds : ∀ s ∈ seeds, A.calls.Made s) {x y : Index} (hx : x.Sound A.calls) (hy : y.Sound B.calls) :
    ∃ slice image, (A.dependence.forwardSlice data control none seeds x).1 = .ok slice ∧
      (B.dependence.forwardSlice data control none (seeds.map (·.mapContext h)) y).1 = .ok image ∧
      ∀ t ∈ slice, t.mapContext h ∈ image := by
  have hwA : A.dependence.calls.WellFormed := hA.wellFormed
  have hwB : B.dependence.calls.WellFormed := hB.wellFormed
  have hs : ∀ s ∈ seeds, A.dependence.calls.Holds s := fun s h => (hseeds s h).holds
  have hs' : ∀ s ∈ seeds.map (·.mapContext h), B.dependence.calls.Holds s := by
    intro t ht
    obtain ⟨s, hmem, rfl⟩ := List.mem_map.1 ht
    exact hh.holds (hs s hmem)
  obtain ⟨slice, hslice, -, hmem⟩ :=
    closure_of_maySlice hwA hs (forwardSlice_maySlice data control none hwA hx fun _ => hs).1
  obtain ⟨image, himage, -, hmem'⟩ :=
    closure_of_maySlice hwB hs' (forwardSlice_maySlice data control none hwB hy fun _ => hs').1
  exact ⟨slice, image, hslice, himage, fun t ht => (hmem' _).2 (hh.closure hwA hwB hs ((hmem t).1 ht))⟩

/-- The slice of the store in the contexts of single calls is part of that in merged contexts. -/
theorem slice_coarsens_store : Sample.fine.calls.Made Sample.store ∧
    ∃ slice image, (Sample.fine.dependence.forwardSlice .full .full none [Sample.store] {}).1 = .ok slice ∧
      (Sample.coarse.dependence.forwardSlice .full .full none [Sample.store] {}).1 = .ok image ∧
      ∀ t ∈ slice, t.mapContext (fun c => Sample.merged c.procedure) ∈ image := by
  have hmade : Sample.fine.calls.Made Sample.store := Sample.made_store (by simp [Sample.fine])
  have hseeds : ∀ s ∈ [Sample.store], Sample.fine.calls.Made s := by simpa using hmade
  exact ⟨hmade, slice_coarsens Sample.fine_loaded Sample.coarse_loaded Sample.coarsens .full .full hseeds
    (Index.sound_empty _) (Index.sound_empty _)⟩

end Model
end ForwardSlicing
