import Mathlib.Order.Bounds.Basic
import ForwardSlicing.Proofs.ControlDependence
import ForwardSlicing.Proofs.DataDependence
import ForwardSlicing.Proofs.Search
/-!
# Forward slices are closures

`MaySlice` is the slice with its choices left open: the seeds may be taken up in any order, any pending statement may be
expanded next, and an answer may come from any sound index and be looked at in any order. `forwardSlice_maySlice`: the
slice is one of these. So what holds of all of them holds of the slice and does not depend on the choices it makes.

`slice_isLeast`: without a budget every choice ends, and with the least set of statements that has the seeds and their
successors. `slice_outcome`: a foreign seed fails first, then the size of this set decides against the budget.
-/

namespace ForwardSlicing.DependenceGraph

open Relation

/-! ## Successors -/

section Successors
variable (g : DependenceGraph) (data control : Level)

/-- The second statement is among the successors of the first one. -/
def Successor (s t : Statement) : Prop := ∃ next, (g.successors data control s {}).1 = .ok next ∧ t ∈ next

/-- The second statement depends directly on the first one, in one of the two ways. -/
def Depends (s t : Statement) : Prop :=
  (data.enabled = true ∧ DataDependence g data s t) ∨ (control.enabled = true ∧ ControlDependence g control s t)

variable {g}

theorem Depends.holds (hg : g.calls.WellFormed) {s t : Statement} (hs : g.calls.Holds s)
    (h : g.Depends data control s t) : g.calls.Holds t := by
  rcases h with ⟨-, h⟩ | ⟨-, h⟩
  · exact h.holds hg hs
  · exact h.holds hg hs

/-- A query about a statement of the call graph answers what depends on it, in one way or the other. -/
theorem successors_spec (hg : g.calls.WellFormed) {x : Index} (hx : x.Sound g.calls) {s : Statement}
    (hs : g.calls.Holds s) : g.Answered (g.Depends data control s) (g.successors data control s x) := by
  obtain ⟨ds, x₁, hd, hx₁, -, hds⟩ := dataSuccessors_spec hg hx hs data
  obtain ⟨cs, x₂, hc, hx₂, -, hcs⟩ := controlSuccessors_spec hg hx₁ hs control
  simp only [successors, bothSuccessors, hd, hc]
  refine answered_distinct hg hx₂ (fun t ht => ht.holds data control hg hs) fun t => ?_
  rw [List.mem_append, hds, hcs, Depends]

theorem successor_iff (hg : g.calls.WellFormed) {s t : Statement} (hs : g.calls.Holds s) :
    g.Successor data control s t ↔ g.Depends data control s t := by
  obtain ⟨l, x, hl, -, -, hmem⟩ := successors_spec data control hg (Index.sound_empty g.calls) hs
  rw [Successor, hl, ← hmem]
  constructor
  · rintro ⟨next, hn, ht⟩
    rwa [Except.ok.inj hn]
  · intro ht
    exact ⟨l, rfl, ht⟩

end Successors

/-! ## Searches -/

section Searches
variable (g : DependenceGraph) (data control : Level) (limit : Option Int)

/-- A search for a slice asks for successors, with any sound index. -/
def searchRules : Search.Rules Failure Statement where
  ask s out := ∃ x, x.Sound g.calls ∧ (g.successors data control s x).1 = out
  tooMany := overBudget limit
  overrun := overrun limit

theorem overBudget_mono {m n : Nat} (hmn : m ≤ n) (h : overBudget limit m = true) : overBudget limit n = true := by
  cases limit with
  | none => cases h
  | some l =>
    simp only [overBudget, Option.any_some, decide_eq_true_eq] at h ⊢
    omega

variable {g}

theorem answers_searchRules (hg : g.calls.WellFormed) :
    Search.Answers (g.searchRules data control limit) {s | g.calls.Holds s} (g.Successor data control) where
  exactOn := hg.exactOn_holds
  finite := g.finite_holds
  closed s hs t h := ((successor_iff data control hg hs).1 h).holds data control hg hs
  asked s _ := ⟨_, {}, Index.sound_empty g.calls, rfl⟩
  answer s hs out h := by
    obtain ⟨x, hx, rfl⟩ := h
    obtain ⟨l, x', hl, -, -, hmem⟩ := successors_spec data control hg hx hs
    refine ⟨l, by rw [hl], fun t => ?_⟩
    rw [hmem, successor_iff data control hg hs]
  mono _ _ := overBudget_mono limit

/-- Expanding is one of the searches. The pending statements are those of the search up to their order, since new ones
are put in front all at once. -/
theorem run_expand (hg : g.calls.WellFormed) {start : List Statement} (hs : ∀ s ∈ start, g.calls.Holds s) :
    ∀ (fuel : Nat) {pending waiting seen : List Statement} {x : Index}, waiting.Perm pending →
      Search.Inv (g.searchRules data control limit) (g.Successor data control) start ⟨waiting, [], seen⟩ →
      x.Sound g.calls → pending.length + ({s | g.calls.Holds s}.ncard - seen.length) ≤ fuel →
      Search.Run (g.searchRules data control limit) ⟨waiting, [], seen⟩
        (g.expand data control limit fuel pending seen x).1 ∧
      (g.expand data control limit fuel pending seen x).2.Sound g.calls
  | 0, pending, waiting, seen, x, hp, _, hx, hf => by
    cases List.length_eq_zero_iff.1 (by omega : pending.length = 0)
    cases hp.eq_nil
    exact ⟨⟨_, .refl, .done⟩, hx⟩
  | fuel + 1, [], waiting, seen, x, hp, _, hx, _ => by
    cases hp.eq_nil
    exact ⟨⟨_, .refl, .done⟩, hx⟩
  | fuel + 1, s :: pending, waiting, seen, x, hp, hi, hx, hf => by
    have ha := answers_searchRules data control limit hg
    have hheld : g.calls.Holds s := ha.reach_subset hs (hi.found s (hi.pending s (hp.mem_iff.2 (by simp))))
    obtain ⟨next, x', hnext, hx', -, -⟩ := successors_spec data control hg hx hheld
    have hask : (g.searchRules data control limit).ask s (.ok next) := ⟨x, hx, by rw [hnext]⟩
    simp only [expand, hnext]
    -- the budget is tested once for all new statements, and only if there are any
    split
    case isTrue h =>
      rw [Bool.and_eq_true] at h
      exact ⟨Search.run_expand_overrun hp hask hi.within h.2, hx'⟩
    case isFalse h =>
      have hw : overBudget limit (seen.length + (fresh seen next).length) = false := by
        have hseen : overBudget limit seen.length = false := hi.within
        cases hn : (fresh seen next).isEmpty with
        | true => simpa [List.isEmpty_iff.1 hn] using hseen
        | false => simpa [hn] using h
      -- what is found now was to be found before, so the fuel covers it
      have hsteps := Search.steps_expand ha.mono hp hask hw
      have hi' := Search.inv_steps ha hs hi hsteps
      have hle := hi'.length_le ha hs
      obtain ⟨hrun, hsound⟩ := run_expand hg hs fuel ((List.reverse_perm _).append_right pending) hi' hx' (by
        simp only [List.length_append, List.length_cons] at hf hle ⊢
        omega)
      exact ⟨.of_steps hsteps hrun, hsound⟩

end Searches

/-! ## Slices -/

section Slices
variable (g : DependenceGraph) (data control : Level) (limit : Option Int) (seeds : List Statement)

/-- The seeds without repeats, in any order. -/
def Starts (start : List Statement) : Prop := start.Nodup ∧ ∀ s, s ∈ start ↔ s ∈ seeds

/-- The outcomes that a slice may have, whatever it chooses. -/
inductive MaySlice : Except Failure (List Statement) → Prop
  | foreign {s : Statement} : g.foreign? seeds = some s → MaySlice (.error (.unknownContext s.context))
  | overrun {start : List Statement} : g.foreign? seeds = none → Starts seeds start →
      overBudget limit start.length = true → MaySlice (.error (overrun limit))
  | search {start : List Statement} {out : Except Failure (List Statement)} : g.foreign? seeds = none →
      Starts seeds start → overBudget limit start.length = false →
      Search.Run (g.searchRules data control limit) ⟨start, [], start⟩ out → MaySlice out

/-- The statements that the seeds lead to. -/
abbrev closure : Set Statement := Search.reach (g.Successor data control) seeds

variable {g seeds}

theorem foreign?_eq_none_iff : g.foreign? seeds = none ↔ ∀ s ∈ seeds, g.calls.contains s.context = true := by
  simp [foreign?]

/-- The first foreign seed is the one that all seeds before it are not. -/
theorem foreign?_eq_some_iff {s : Statement} : g.foreign? seeds = some s ↔ g.calls.contains s.context = false ∧
    ∃ before after, seeds = before ++ s :: after ∧ ∀ t ∈ before, g.calls.contains t.context = true := by
  simp [foreign?, List.find?_eq_some_iff_append]

theorem starts_distinct (hg : g.calls.WellFormed) (hs : ∀ s ∈ seeds, g.calls.Holds s) : Starts seeds (distinct seeds) :=
  ⟨nodup_distinct seeds, fun _ => hg.exactOn_holds.mem_distinct hs⟩

/-- The slice makes one of the possible choices. -/
theorem forwardSlice_maySlice (hg : g.calls.WellFormed) {x : Index} (hx : x.Sound g.calls)
    (hs : g.foreign? seeds = none → ∀ s ∈ seeds, g.calls.Holds s) :
    g.MaySlice data control limit seeds (g.forwardSlice data control limit seeds x).1 ∧
      (g.forwardSlice data control limit seeds x).2.Sound g.calls := by
  unfold forwardSlice
  cases hf : g.foreign? seeds with
  | some s => exact ⟨.foreign hf, hx⟩
  | none =>
    have hstart := starts_distinct hg (hs hf)
    have hheld : ∀ s ∈ distinct seeds, g.calls.Holds s := fun s h => hs hf s (mem_of_mem_distinct h)
    dsimp only
    cases hw : overBudget limit (distinct seeds).length with
    | true => exact ⟨.overrun hf hstart hw, hx⟩
    | false =>
      have hle := Search.length_le_ncard g.finite_holds hstart.1 hheld
      have hbound := g.ncard_holds_le seeds x
      obtain ⟨hrun, hsound⟩ := run_expand data control limit hg hheld (g.statementBound seeds x) (.refl _)
        (Search.inv_start hstart.1 hw) hx (by omega)
      revert hrun hsound
      simp only [Bool.false_eq_true, if_false]
      cases g.expand data control limit (g.statementBound seeds x) (distinct seeds) (distinct seeds) x with
      | mk out x' =>
        cases out with
        | error e => exact fun hrun hsound => ⟨.search hf hstart hw hrun, hsound⟩
        | ok slice => exact fun hrun hsound => ⟨.search hf hstart hw hrun, hsound.note _⟩

/-- Without a foreign seed, the closure of the seeds decides the outcome, whatever the choices. -/
theorem outcome_of_maySlice (hg : g.calls.WellFormed) (hs : ∀ s ∈ seeds, g.calls.Holds s)
    (hf : g.foreign? seeds = none) {out : Except Failure (List Statement)}
    (h : g.MaySlice data control limit seeds out) :
    Search.Outcome (g.searchRules data control limit) (g.Successor data control) seeds out := by
  have ha := answers_searchRules data control limit hg
  cases h with
  | foreign hf' => simp [hf] at hf'
  | @overrun start _ hstart hw =>
    have hle : start.length ≤ (g.closure data control seeds).ncard :=
      Search.length_le_ncard (ha.finite.subset (ha.reach_subset hs)) hstart.1 fun s h =>
        Search.mem_reach_of_mem ((hstart.2 s).1 h)
    rw [Search.Outcome, if_pos (ha.mono _ _ hle hw)]
    rfl
  | @search start _ _ hstart hw hrun =>
    have ho := Search.outcome_of_run ha (fun s h => hs s ((hstart.2 s).1 h)) hstart.1 hw hrun
    rwa [Search.Outcome, Search.reach_congr hstart.2] at ho

end Slices

/-! ## The closure -/

section Closure
variable (g : DependenceGraph) (data control : Level) (seeds : List Statement)

/-- The statements of a slice: the least set that has the seeds and is closed under successors, each member at the end
of a chain from a seed. -/
structure IsSlice (slice : List Statement) : Prop where
  nodup : slice.Nodup
  least : IsLeast {S : Set Statement | (∀ s ∈ seeds, s ∈ S) ∧ ∀ s ∈ S, ∀ t, g.Successor data control s t → t ∈ S}
    {t | t ∈ slice}
  chain : ∀ t ∈ slice, ∃ s ∈ seeds, ReflTransGen (g.Successor data control) s t

variable {g data control seeds}

theorem isSlice_of_closure {slice : List Statement} (hn : slice.Nodup)
    (h : ∀ t, t ∈ slice ↔ t ∈ g.closure data control seeds) : IsSlice g data control seeds slice where
  nodup := hn
  least := by
    constructor
    · refine ⟨fun s hs => (h s).2 (Search.mem_reach_of_mem hs), fun s hs t hst => ?_⟩
      exact (h t).2 (Search.reach_step ((h s).1 hs) hst)
    · rintro S ⟨hseeds, hclosed⟩ t ht
      exact Search.reach_subset hseeds hclosed ((h t).1 ht)
  chain t ht := (h t).1 ht

theorem overBudget_iff {limit : Option Int} {n : Nat} : overBudget limit n = true ↔ ∃ l, limit = some l ∧ l < n := by
  cases limit with
  | none => simp [overBudget]
  | some l => simp [overBudget]

/-- The budget fails exactly if it is less than the size of the closure. -/
theorem truncated_iff {limit : Option Int} {out : Except Failure (List Statement)}
    (h : Search.Outcome (g.searchRules data control limit) (g.Successor data control) seeds out) (l : Int) :
    out = .error (.truncated (.int l)) ↔ limit = some l ∧ l < (g.closure data control seeds).ncard := by
  rw [Search.Outcome] at h
  split at h
  case isTrue hover =>
    obtain ⟨l', rfl, hl'⟩ := overBudget_iff.1 hover
    rw [h]
    constructor
    · intro he
      injection he with he
      injection he with he
      injection he with he
      exact ⟨congrArg some he, he ▸ hl'⟩
    · rintro ⟨hl, -⟩
      rw [← Option.some.inj hl]
      rfl
  case isFalse hwithin =>
    obtain ⟨slice, rfl, -, -⟩ := h
    constructor
    · intro he
      cases he
    · intro hl
      exact absurd (overBudget_iff.2 ⟨l, hl⟩) hwithin

/-- Within the budget the outcome is the closure. -/
theorem closure_of_outcome {limit : Option Int} {out : Except Failure (List Statement)}
    (h : Search.Outcome (g.searchRules data control limit) (g.Successor data control) seeds out)
    (hw : ∀ l, limit = some l → (g.closure data control seeds).ncard ≤ l) :
    ∃ slice, out = .ok slice ∧ slice.Nodup ∧ ∀ t, t ∈ slice ↔ t ∈ g.closure data control seeds := by
  have hwithin : ¬(g.searchRules data control limit).tooMany (g.closure data control seeds).ncard = true := by
    intro hover
    obtain ⟨l, hl, hlt⟩ := overBudget_iff.1 hover
    exact absurd (hw l hl) (by omega)
  rwa [Search.Outcome, if_neg hwithin] at h

/-- A slice that succeeds is the closure, and the closure is within the budget. -/
theorem within_of_ok {limit : Option Int} {slice : List Statement}
    (h : Search.Outcome (g.searchRules data control limit) (g.Successor data control) seeds (.ok slice)) :
    (∀ l, limit = some l → (g.closure data control seeds).ncard ≤ l) ∧
      ∀ t, t ∈ slice ↔ t ∈ g.closure data control seeds := by
  have hwithin : ∀ l, limit = some l → (g.closure data control seeds).ncard ≤ l := by
    intro l hl
    by_contra hlt
    cases (truncated_iff h l).2 ⟨hl, by omega⟩
  obtain ⟨slice', hslice, -, hmem⟩ := closure_of_outcome h hwithin
  cases hslice
  exact ⟨hwithin, hmem⟩

/-- The slice that is computed of statements of the call graph is decided by their closure. -/
theorem outcome_forwardSlice (data control : Level) (limit : Option Int) (hg : g.calls.WellFormed)
    (hs : ∀ s ∈ seeds, g.calls.Holds s) {x : Index} (hx : x.Sound g.calls) :
    Search.Outcome (g.searchRules data control limit) (g.Successor data control) seeds
      (g.forwardSlice data control limit seeds x).1 := by
  have hf : g.foreign? seeds = none := foreign?_eq_none_iff.2 fun s h => CallGraph.contains_of_mem (hs s h).node
  exact outcome_of_maySlice data control limit hg hs hf (forwardSlice_maySlice data control limit hg hx fun _ => hs).1

/-- Without a budget, whatever the choices, the slice of statements of the call graph is their closure. -/
theorem closure_of_maySlice (hg : g.calls.WellFormed) (hs : ∀ s ∈ seeds, g.calls.Holds s)
    {out : Except Failure (List Statement)} (h : g.MaySlice data control none seeds out) :
    ∃ slice, out = .ok slice ∧ slice.Nodup ∧ ∀ t, t ∈ slice ↔ t ∈ g.closure data control seeds := by
  have hf : g.foreign? seeds = none := foreign?_eq_none_iff.2 fun s h => CallGraph.contains_of_mem (hs s h).node
  exact closure_of_outcome (outcome_of_maySlice data control none hg hs hf h) (by simp)

end Closure
end ForwardSlicing.DependenceGraph

namespace ForwardSlicing

theorem Sample.made_store {m : Model} (h : merged main ∈ m.calls.nodes) : m.calls.Made store :=
  ⟨merged main, h, .normal, 2, 0, rfl⟩

namespace Model

open DependenceGraph

variable {m : Model}

/-- Without a budget, every way to slice comes to an end and gives the least set that has the seeds and is closed under
successors; the slice that is computed is one of these. -/
theorem slice_isLeast (hm : m.Loaded) (data control : Level) {seeds : List Statement}
    (hseeds : ∀ s ∈ seeds, m.calls.Made s) {x : Index} (hx : x.Sound m.calls) :
    (∃ slice, (m.dependence.forwardSlice data control none seeds x).1 = .ok slice ∧
      IsSlice m.dependence data control seeds slice) ∧
    m.dependence.MaySlice data control none seeds (m.dependence.forwardSlice data control none seeds x).1 ∧
    (∀ out, m.dependence.MaySlice data control none seeds out → ∃ slice, out = .ok slice ∧
      IsSlice m.dependence data control seeds slice) ∧
    ∀ start, Starts seeds start →
      Search.Terminates (m.dependence.searchRules data control none) ⟨start, [], start⟩ := by
  have hg : m.dependence.calls.WellFormed := hm.wellFormed
  have hs : ∀ s ∈ seeds, m.dependence.calls.Holds s := fun s h => (hseeds s h).holds
  have hcode := (forwardSlice_maySlice data control none hg hx fun _ => hs).1
  have hall : ∀ out, m.dependence.MaySlice data control none seeds out → ∃ slice, out = .ok slice ∧
      IsSlice m.dependence data control seeds slice := by
    intro out hout
    obtain ⟨slice, rfl, hn, hmem⟩ := closure_of_maySlice hg hs hout
    exact ⟨slice, rfl, isSlice_of_closure hn hmem⟩
  refine ⟨hall _ hcode, hcode, hall, fun start hstart => ?_⟩
  exact Search.terminates (answers_searchRules data control none hg) (fun s h => hs s ((hstart.2 s).1 h)) hstart.1 rfl

/-- From the store, the search goes round the recursion and ends. -/
theorem slice_isLeast_store : Sample.coarse.calls.Made Sample.store ∧
    ∃ slice, (Sample.coarse.dependence.forwardSlice .full .full none [Sample.store] {}).1 = .ok slice ∧
      IsSlice Sample.coarse.dependence .full .full [Sample.store] slice := by
  have hmade : Sample.coarse.calls.Made Sample.store := Sample.made_store (by simp [Sample.coarse])
  have hseeds : ∀ s ∈ [Sample.store], Sample.coarse.calls.Made s := by simpa using hmade
  exact ⟨hmade, (slice_isLeast Sample.coarse_loaded .full .full hseeds (Index.sound_empty _)).1⟩

/-- The first foreign seed fails. Without one, the size of the closure decides: over the budget the slice fails with the
budget, and otherwise it is the closure. No choice matters. -/
theorem slice_outcome (hm : m.Loaded) (data control : Level) (limit : Option Int) {seeds : List Statement}
    (hseeds : ∀ s ∈ seeds, m.calls.contains s.context = true → m.calls.Made s) {x : Index} (hx : x.Sound m.calls) :
    m.dependence.MaySlice data control limit seeds (m.dependence.forwardSlice data control limit seeds x).1 ∧
    ∀ out, m.dependence.MaySlice data control limit seeds out →
      (∀ before s after, seeds = before ++ s :: after → (∀ t ∈ before, m.calls.contains t.context = true) →
        m.calls.contains s.context = false → out = .error (.unknownContext s.context)) ∧
      ((∀ s ∈ seeds, m.calls.contains s.context = true) →
        (m.dependence.closure data control seeds).Finite ∧
        (∀ l, out = .error (.truncated (.int l)) ↔
          limit = some l ∧ l < (m.dependence.closure data control seeds).ncard) ∧
        ((∀ l, limit = some l → (m.dependence.closure data control seeds).ncard ≤ l) →
          ∃ slice, out = .ok slice ∧ slice.Nodup ∧ ∀ t, t ∈ slice ↔ t ∈ m.dependence.closure data control seeds)) := by
  have hg : m.dependence.calls.WellFormed := hm.wellFormed
  have hs : m.dependence.foreign? seeds = none → ∀ s ∈ seeds, m.dependence.calls.Holds s :=
    fun hf s h => (hseeds s h (foreign?_eq_none_iff.1 hf s h)).holds
  refine ⟨(forwardSlice_maySlice data control limit hg hx hs).1, fun out hout => ⟨?_, fun hcont => ?_⟩⟩
  · intro before s after hsplit hbefore hforeign
    have hf : m.dependence.foreign? seeds = some s := foreign?_eq_some_iff.2 ⟨hforeign, before, after, hsplit, hbefore⟩
    cases hout with
    | foreign hf' => rw [Option.some.inj (hf.symm.trans hf')]
    | overrun hf' => simp [hf] at hf'
    | search hf' => simp [hf] at hf'
  · have hf : m.dependence.foreign? seeds = none := foreign?_eq_none_iff.2 hcont
    have ha := answers_searchRules data control limit hg
    have ho := outcome_of_maySlice data control limit hg (hs hf) hf hout
    exact ⟨ha.finite.subset (ha.reach_subset (hs hf)), truncated_iff ho, closure_of_outcome ho⟩

/-- With a budget of two statements the slice of the store fails, so it has more than two statements. -/
theorem slice_outcome_store : Sample.coarse.calls.Made Sample.store ∧
    (Sample.coarse.dependence.forwardSlice .full .full (some 2) [Sample.store] {}).1 = .error (.truncated (.int 2)) ∧
    2 < (Sample.coarse.dependence.closure .full .full [Sample.store]).ncard := by
  have hfails : (Sample.coarse.dependence.forwardSlice .full .full (some 2) [Sample.store] {}).1 =
      .error (.truncated (.int 2)) := by rfl
  have hmade : Sample.coarse.calls.Made Sample.store := Sample.made_store (by simp [Sample.coarse])
  have hseeds : ∀ s ∈ [Sample.store], Sample.coarse.calls.contains s.context = true → Sample.coarse.calls.Made s := by
    simpa using fun _ => hmade
  obtain ⟨hcode, hall⟩ := slice_outcome Sample.coarse_loaded .full .full (some 2) hseeds (Index.sound_empty _)
  have hnodes : ∀ s ∈ [Sample.store], Sample.coarse.calls.contains s.context = true := by decide
  have hsize := (((hall _ hcode).2 hnodes).2.1 2).1 hfails
  exact ⟨hmade, hfails, by exact_mod_cast hsize.2⟩

end Model
end ForwardSlicing
