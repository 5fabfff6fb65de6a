import ForwardSlicing.Proofs.Slice
/-!
# Stronger levels

A level that includes another one follows every dependence that the other one follows: only the heap rule and the call
rule ask for a level at all. So stronger levels lose no successor, and along the closure they lose no statement of a slice
(`closure_mono`). `slice_mono`: hence a budget that is enough at the stronger levels is enough at the weaker ones.
-/

namespace ForwardSlicing

/-! ## Levels -/

namespace Level

variable {strong weak : Level}

theorem enabled_of_includes (h : strong.includes weak = true) (hw : weak.enabled = true) : strong.enabled = true := by
  simp only [includes, enabled, decide_eq_true_eq] at h hw ⊢
  omega

theorem heap_of_includes (h : strong.includes weak = true) (hw : weak.heap = true) : strong.heap = true := by
  simp only [includes, heap, decide_eq_true_eq] at h hw ⊢
  omega

theorem interprocedural_of_includes (h : strong.includes weak = true) (hw : weak.interprocedural = true) :
    strong.interprocedural = true := by
  simp only [includes, interprocedural, decide_eq_true_eq] at h hw ⊢
  omega

end Level

/-! ## Dependence -/

section Dependence
variable {g : DependenceGraph} {strong weak : Level} {s t : Statement}

theorem DataDependence.mono (hl : strong.includes weak = true) (h : DataDependence g weak s t) :
    DataDependence g strong s t := by
  cases h with
  | use hd hu => exact .use hd hu
  | heap hh hi hd hj hs => exact .heap (Level.heap_of_includes hl hh) hi hd hj hs
  | passed he hk => exact .passed he hk
  | bound hi he hk hp => exact .bound hi he hk hp
  | returned he hi => exact .returned he hi

theorem ControlDependence.mono (hl : strong.includes weak = true) (h : ControlDependence g weak s t) :
    ControlDependence g strong s t := by
  cases h with
  | param hk => exact .param hk
  | entry hj hp => exact .entry hj hp
  | decision hj hp => exact .decision hj hp
  | call hi he => exact .call (Level.interprocedural_of_includes hl hi) he

end Dependence

namespace DependenceGraph

variable {g : DependenceGraph} {data data' control control' : Level}

theorem Depends.mono (hdata : data'.includes data = true) (hcontrol : control'.includes control = true) {s t : Statement}
    (h : g.Depends data control s t) : g.Depends data' control' s t := by
  rcases h with ⟨hl, h⟩ | ⟨hl, h⟩
  · exact .inl ⟨Level.enabled_of_includes hdata hl, h.mono hdata⟩
  · exact .inr ⟨Level.enabled_of_includes hcontrol hl, h.mono hcontrol⟩

theorem closure_mono (hg : g.calls.WellFormed) (hdata : data'.includes data = true)
    (hcontrol : control'.includes control = true) {seeds : List Statement} (hs : ∀ s ∈ seeds, g.calls.Holds s) :
    g.closure data control seeds ⊆ g.closure data' control' seeds := by
  -- the answers about a statement are known where the call graph holds it, so this goes along
  have hsub : g.closure data control seeds ⊆ {t | g.calls.Holds t ∧ t ∈ g.closure data' control' seeds} := by
    refine Search.reach_subset (fun s h => ⟨hs s h, Search.mem_reach_of_mem h⟩) ?_
    rintro s ⟨hheld, hreach⟩ t hst
    have hdep := (successor_iff data control hg hheld).1 hst
    refine ⟨hdep.holds data control hg hheld, Search.reach_step hreach ?_⟩
    exact (successor_iff data' control' hg hheld).2 (hdep.mono hdata hcontrol)
  exact fun t ht => (hsub ht).2

theorem finite_closure (hg : g.calls.WellFormed) {seeds : List Statement} (hs : ∀ s ∈ seeds, g.calls.Holds s) :
    (g.closure data control seeds).Finite := by
  have ha := answers_searchRules data control none hg
  exact ha.finite.subset (ha.reach_subset hs)

end DependenceGraph

namespace Model

open DependenceGraph

/-- Stronger levels lose nothing: no successor of a statement, no statement of a slice, and no slice that is within a
budget at the stronger levels fails at the weaker ones. -/
theorem slice_mono {m : Model} (hm : m.Loaded) {data data' control control' : Level}
    (hdata : data'.includes data = true) (hcontrol : control'.includes control = true) {x y : Index}
    (hx : x.Sound m.calls) (hy : y.Sound m.calls) :
    (∀ s, m.calls.Holds s → ∃ weak strong, (m.dependence.successors data control s x).1 = .ok weak ∧
      (m.dependence.successors data' control' s y).1 = .ok strong ∧ ∀ t ∈ weak, t ∈ strong) ∧
    ∀ seeds, (∀ s ∈ seeds, m.calls.Made s) →
      (∃ weak strong, (m.dependence.forwardSlice data control none seeds x).1 = .ok weak ∧
        (m.dependence.forwardSlice data' control' none seeds y).1 = .ok strong ∧ ∀ t ∈ weak, t ∈ strong) ∧
      ∀ limit strong, (m.dependence.forwardSlice data' control' limit seeds y).1 = .ok strong →
        ∃ weak, (m.dependence.forwardSlice data control limit seeds x).1 = .ok weak ∧ ∀ t ∈ weak, t ∈ strong := by
  have hg : m.dependence.calls.WellFormed := hm.wellFormed
  refine ⟨fun s hs => ?_, fun seeds hseeds => ?_⟩
  · obtain ⟨weak, _, hweak, -, -, hmem⟩ := successors_spec data control hg hx hs
    obtain ⟨strong, _, hstrong, -, -, hmem'⟩ := successors_spec data' control' hg hy hs
    refine ⟨weak, strong, by rw [hweak], by rw [hstrong], fun t ht => ?_⟩
    exact (hmem' t).2 (((hmem t).1 ht).mono hdata hcontrol)
  · have hs : ∀ s ∈ seeds, m.dependence.calls.Holds s := fun s h => (hseeds s h).holds
    have hsub := closure_mono hg hdata hcontrol hs
    -- what succeeds at the stronger levels is a closure within the budget, and the other closure is part of it
    have hbudget : ∀ limit strong, (m.dependence.forwardSlice data' control' limit seeds y).1 = .ok strong →
        ∃ weak, (m.dependence.forwardSlice data control limit seeds x).1 = .ok weak ∧ ∀ t ∈ weak, t ∈ strong := by
      intro limit strong hstrong
      have hout := outcome_forwardSlice data' control' limit hg hs hy
      rw [hstrong] at hout
      obtain ⟨hwithin, hmem'⟩ := within_of_ok hout
      have hle : (m.dependence.closure data control seeds).ncard ≤ (m.dependence.closure data' control' seeds).ncard :=
        Set.ncard_le_ncard hsub (finite_closure hg hs)
      obtain ⟨weak, hweak, -, hmem⟩ := closure_of_outcome
        (outcome_forwardSlice data control limit hg hs hx) fun l hl => by
          have := hwithin l hl
          omega
      exact ⟨weak, hweak, fun t ht => (hmem' t).2 (hsub ((hmem t).1 ht))⟩
    refine ⟨?_, hbudget⟩
    obtain ⟨strong, hstrong, -, -⟩ := closure_of_outcome
      (outcome_forwardSlice data' control' none hg hs hy) (by simp)
    obtain ⟨weak, hweak, hall⟩ := hbudget none strong hstrong
    exact ⟨weak, strong, hweak, hstrong, hall⟩

/-- The slice of the store off the heap is part of the full one, and a budget that is enough for the full one is enough
for it. -/
theorem slice_mono_store : Level.full.includes .noHeap = true ∧ Sample.coarse.calls.Made Sample.store ∧
    ∃ (budget : Int) (weak strong : List Statement),
      (Sample.coarse.dependence.forwardSlice .full .full (some budget) [Sample.store] {}).1 = .ok strong ∧
      (Sample.coarse.dependence.forwardSlice .noHeap .none (some budget) [Sample.store] {}).1 = .ok weak ∧
      ∀ t ∈ weak, t ∈ strong := by
  have hmade : Sample.coarse.calls.Made Sample.store := Sample.made_store (by simp [Sample.coarse])
  have hseeds : ∀ s ∈ [Sample.store], Sample.coarse.calls.Made s := by simpa using hmade
  have hx : ({} : Index).Sound Sample.coarse.calls := Index.sound_empty _
  obtain ⟨-, hslices⟩ := slice_mono Sample.coarse_loaded (by decide : Level.full.includes .noHeap = true)
    (by decide : Level.full.includes .none = true) hx hx
  have hg : Sample.coarse.dependence.calls.WellFormed := Sample.coarse_loaded.wellFormed
  have hs : ∀ s ∈ [Sample.store], Sample.coarse.dependence.calls.Holds s := fun s h => (hseeds s h).holds
  -- the size of the closure is a budget that is enough
  let size : Int := (Sample.coarse.dependence.closure .full .full [Sample.store]).ncard
  obtain ⟨strong, hstrong, -, -⟩ :=
    closure_of_outcome (outcome_forwardSlice .full .full (some size) hg hs hx) (by simp [size])
  obtain ⟨weak, hweak, hall⟩ := (hslices _ hseeds).2 _ _ hstrong
  exact ⟨by decide, hmade, size, weak, strong, hstrong, hweak, hall⟩

end Model
end ForwardSlicing
