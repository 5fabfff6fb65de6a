import ForwardSlicing.Proofs.Levels
import ForwardSlicing.Proofs.Sharing
/-!
# Slices of single seeds

Slicing from many seeds at once and slicing from each of them find the same statements, because the closure of the seeds is
the union of the closures of single seeds (`mem_closure_iff`). They differ in what the budget counts: all statements
together, or those of each seed.

Slicing from each seed collects the outcomes of single slices in the order of the seeds (`forwardSlices_eq`), each as from
an empty index. So workers who take turns collect the same. `slices_agree` puts everything together.
-/

namespace ForwardSlicing.DependenceGraph

/-! ## Closures of single seeds -/

section Closures
variable {g : DependenceGraph} {data control : Level} {seeds : List Statement} {t : Statement}

theorem mem_closure_iff : t ∈ g.closure data control seeds ↔ ∃ s ∈ seeds, t ∈ g.closure data control [s] := by
  simp [Search.reach]

/-- What a statement of a closure leads to is in the closure. -/
theorem closure_subset_of_mem (ht : t ∈ g.closure data control seeds) :
    g.closure data control [t] ⊆ g.closure data control seeds := by
  refine Search.reach_subset (fun s hs => ?_) fun s hs u hu => Search.reach_step hs hu
  rwa [List.mem_singleton.1 hs]

theorem holds_of_mem_closure (hg : g.calls.WellFormed) (hs : ∀ s ∈ seeds, g.calls.Holds s)
    (ht : t ∈ g.closure data control seeds) : g.calls.Holds t :=
  (answers_searchRules data control none hg).reach_subset hs ht

theorem ncard_closure_le (data control : Level) (hg : g.calls.WellFormed) (hs : ∀ s ∈ seeds, g.calls.Holds s)
    (ht : t ∈ seeds) : (g.closure data control [t]).ncard ≤ (g.closure data control seeds).ncard :=
  Set.ncard_le_ncard (closure_subset_of_mem (Search.mem_reach_of_mem ht)) (finite_closure hg hs)

end Closures

/-! ## Budgets that are enough -/

section Budgets
variable {g : DependenceGraph} {data control : Level} {limit : Option Int}

theorem expand_unlimited : ∀ (fuel : Nat) {pending seen found : List Statement} {x : Index},
    (g.expand data control limit fuel pending seen x).1 = .ok found →
    g.expand data control none fuel pending seen x = g.expand data control limit fuel pending seen x := by
  intro fuel
  induction fuel with
  | zero => intro pending seen found x _; rfl
  | succ fuel ih =>
    intro pending seen found x h
    cases pending with
    | nil => rfl
    | cons s pending =>
      simp only [expand] at h ⊢
      revert h
      rcases g.successors data control s x with ⟨_ | next, y⟩
      · exact fun _ => rfl
      · dsimp only
        intro h
        split at h
        · cases h
        case isFalse hwithin =>
          rw [if_neg hwithin, if_neg (by simp [overBudget])]
          exact ih h

/-- A budget that is enough makes no difference. -/
theorem forwardSlice_unlimited {seeds slice : List Statement} {x : Index}
    (h : (g.forwardSlice data control limit seeds x).1 = .ok slice) :
    (g.forwardSlice data control none seeds x).1 = .ok slice := by
  unfold forwardSlice at h ⊢
  cases hf : g.foreign? seeds with
  | some s => simp [hf] at h
  | none =>
    simp only [hf] at h ⊢
    rw [if_neg (by simp [overBudget])]
    split at h
    · cases h
    · cases hexpand : (g.expand data control limit (g.statementBound seeds x) (distinct seeds) (distinct seeds) x).1 with
      | error e =>
        revert h hexpand
        rcases g.expand data control limit (g.statementBound seeds x) (distinct seeds) (distinct seeds) x with ⟨_, y⟩
        rintro h rfl
        cases h
      | ok found => rwa [expand_unlimited _ hexpand]

end Budgets

/-! ## Collecting slices -/

/-- Outcomes for single seeds put together: the slices in the order of the seeds, or the failure of the first seed that
failed. -/
def collected (out : Statement → Except Failure (List Statement)) (seeds : List Statement) :
    Except Failure (List (Statement × List Statement)) :=
  seeds.mapM fun s => (out s).map (s, ·)

section Collecting
variable {out out' : Statement → Except Failure (List Statement)}

theorem collected_cons (s : Statement) (rest : List Statement) : collected out (s :: rest) =
    (out s >>= fun slice => collected out rest >>= fun slices => .ok ((s, slice) :: slices)) := by
  rw [collected, List.mapM_cons]
  cases out s <;> rfl

theorem collected_congr : ∀ {seeds : List Statement}, (∀ s ∈ seeds, out s = out' s) →
    collected out seeds = collected out' seeds
  | [], _ => rfl
  | s :: rest, h => by
    rw [collected_cons, collected_cons, h s (by simp), collected_congr fun t ht => h t (List.mem_cons_of_mem _ ht)]

theorem collected_eq_ok : ∀ {seeds : List Statement} {slices : List (Statement × List Statement)},
    collected out seeds = .ok slices ↔ slices.map (·.1) = seeds ∧ ∀ e ∈ slices, out e.1 = .ok e.2
  | [], slices => by
    rw [List.map_eq_nil_iff]
    constructor
    · intro h
      cases h
      exact ⟨rfl, by simp⟩
    · rintro ⟨rfl, -⟩
      rfl
  | s :: rest, slices => by
    simp only [collected_cons, bind_eq_ok, collected_eq_ok]
    constructor
    · rintro ⟨slice, hslice, slices, ⟨rfl, hall⟩, h⟩
      cases h
      exact ⟨rfl, List.forall_mem_cons.2 ⟨hslice, hall⟩⟩
    · rintro ⟨hkeys, hall⟩
      obtain ⟨⟨s', slice⟩, slices, rfl, rfl, rfl⟩ := List.map_eq_cons_iff.1 hkeys
      obtain ⟨hslice, hall⟩ := List.forall_mem_cons.1 hall
      exact ⟨slice, hslice, slices, ⟨rfl, hall⟩, rfl⟩

theorem exists_of_collected_error {e : Failure} : ∀ {seeds : List Statement}, collected out seeds = .error e →
    ∃ s ∈ seeds, out s = .error e
  | [], h => by cases h
  | s :: rest, h => by
    rw [collected_cons] at h
    cases hs : out s with
    | error e' =>
      rw [hs] at h
      cases h
      exact ⟨s, by simp, hs⟩
    | ok slice =>
      cases hrest : collected out rest with
      | error e' =>
        rw [hs, hrest] at h
        cases h
        obtain ⟨t, ht, hte⟩ := exists_of_collected_error hrest
        exact ⟨t, List.mem_cons_of_mem _ ht, hte⟩
      | ok slices =>
        rw [hs, hrest] at h
        cases h

end Collecting

section Slices
variable {g : DependenceGraph}

/-- Slices one after the other, each from the index that the last one left, are slices from an empty index. -/
theorem slicesOf_eq {sliceOf : Statement → Index → Answer (List Statement)} : ∀ {seeds : List Statement} {x : Index},
    x.Sound g.calls → (∀ s ∈ seeds, g.Transparent (sliceOf s)) →
    (slicesOf sliceOf seeds x).1 = collected (fun s => (sliceOf s {}).1) seeds
  | [], _, _, _ => rfl
  | s :: rest, x, hx, h => by
    obtain ⟨hanswer, hsound⟩ := h s (by simp) x hx
    rw [collected_cons, ← hanswer, slicesOf]
    revert hsound
    rcases sliceOf s x with ⟨_ | slice, y⟩
    · exact fun _ => rfl
    · intro hsound
      have ih := slicesOf_eq hsound fun t ht => h t (List.mem_cons_of_mem _ ht)
      rw [← ih]
      dsimp only
      rcases slicesOf sliceOf rest y with ⟨_ | slices, z⟩ <;> rfl

variable (data control : Level) (limit : Option Int) (workers : Nat) (hg : g.calls.WellFormed) {seeds : List Statement}
  (hs : ∀ s ∈ seeds, g.calls.Holds s)
include hg hs

theorem transparent_single {s : Statement} (h : s ∈ seeds) : g.Transparent (g.forwardSlice data control limit [s]) :=
  transparent_forwardSlice hg.oneBody hg.overNodes data control limit (List.forall_mem_singleton.2 fun _ => (hs s h).node)

theorem forwardSlices_eq {x : Index} (hx : x.Sound g.calls) :
    (g.forwardSlices data control limit workers seeds x).1 =
      collected (fun s => (g.forwardSlice data control limit [s] {}).1) (distinct seeds) := by
  have hf : g.foreign? (distinct seeds) = none :=
    foreign?_eq_none_iff.2 fun s h => CallGraph.contains_of_mem (hs s (mem_of_mem_distinct h)).node
  simp only [forwardSlices, hf]
  refine slicesOf_eq ?_ fun s h => transparent_single data control limit hg hs (mem_of_mem_distinct h)
  split
  · exact hx.note _
  · exact hx

/-- What happens to a single seed: over the budget it fails with the budget, and otherwise it gives its closure. -/
theorem single_cases {s : Statement} (h : s ∈ seeds) {x : Index} (hx : x.Sound g.calls) :
    (∃ l, limit = some l ∧ l < (g.closure data control [s]).ncard ∧
      (g.forwardSlice data control limit [s] x).1 = .error (.truncated (.int l))) ∨
    ((∀ l, limit = some l → (g.closure data control [s]).ncard ≤ l) ∧
      ∃ slice, (g.forwardSlice data control limit [s] x).1 = .ok slice ∧ ∀ t, t ∈ slice ↔ t ∈ g.closure data control [s]) := by
  have hout := outcome_forwardSlice data control limit hg (List.forall_mem_singleton.2 (hs s h)) hx
  by_cases hover : ∃ l, limit = some l ∧ l < (g.closure data control [s]).ncard
  · obtain ⟨l, hl⟩ := hover
    exact .inl ⟨l, hl.1, hl.2, (truncated_iff hout l).2 hl⟩
  · have hwithin : ∀ l, limit = some l → (g.closure data control [s]).ncard ≤ l := by
      intro l hl
      by_contra hlt
      exact hover ⟨l, hl, by omega⟩
    obtain ⟨slice, hslice, -, hmem⟩ := closure_of_outcome hout hwithin
    exact .inr ⟨hwithin, slice, hslice, hmem⟩

end Slices

/-! ## Joint and single slices -/

section Joint
variable {g : DependenceGraph} (data control : Level) (limit : Option Int)

/-- One slice of all seeds taken apart: a slice for each distinct seed, as it is alone and whatever budget is enough,
which together make up the slice of all and are closed. -/
structure Splits (g : DependenceGraph) (data control : Level) (limit : Option Int) (seeds joint : List Statement)
    (slices : List (Statement × List Statement)) : Prop where
  keys : FirstMentions seeds (slices.map (·.1))
  single : ∀ e ∈ slices, ∀ x : Index, x.Sound g.calls →
    (g.forwardSlice data control limit [e.1] x).1 = .ok e.2 ∧ (g.forwardSlice data control none [e.1] x).1 = .ok e.2
  union : ∀ t, t ∈ joint ↔ ∃ e ∈ slices, t ∈ e.2
  closed : ∀ e ∈ slices, ∀ t ∈ e.2, ∀ x : Index, x.Sound g.calls →
    ∃ own, (g.forwardSlice data control none [t] x).1 = .ok own ∧ ∀ u ∈ own, u ∈ e.2

variable (hg : g.calls.WellFormed) {seeds : List Statement} (hs : ∀ s ∈ seeds, g.calls.Holds s)
include hg hs

/-- What happens to all seeds: if one of them is over the budget, collecting fails with the budget, and otherwise it gives
slices. -/
theorem collected_cases :
    (∃ l, limit = some l ∧ (∃ s ∈ seeds, l < (g.closure data control [s]).ncard) ∧
      collected (fun s => (g.forwardSlice data control limit [s] {}).1) (distinct seeds) = .error (.truncated (.int l))) ∨
    ((∀ s ∈ seeds, ∀ l, limit = some l → (g.closure data control [s]).ncard ≤ l) ∧
      ∃ slices, collected (fun s => (g.forwardSlice data control limit [s] {}).1) (distinct seeds) = .ok slices) := by
  have hempty := Index.sound_empty g.calls
  cases hout : collected (fun s => (g.forwardSlice data control limit [s] {}).1) (distinct seeds) with
  | error e =>
    obtain ⟨s, hseed, he⟩ := exists_of_collected_error hout
    have hseed := mem_of_mem_distinct hseed
    rcases single_cases data control limit hg hs hseed hempty with ⟨l, hl, hlt, herror⟩ | ⟨-, slice, hok, -⟩
    · cases herror.symm.trans he
      exact .inl ⟨l, hl, ⟨s, hseed, hlt⟩, rfl⟩
    · cases hok.symm.trans he
  | ok slices =>
    refine .inr ⟨fun s hseed => ?_, slices, rfl⟩
    -- a seed over the budget would have failed, and its slice would be missing
    obtain ⟨hkeys, hslices⟩ := collected_eq_ok.1 hout
    have hkey : s ∈ slices.map (·.1) := hkeys ▸ (hg.exactOn_holds.mem_distinct hs).2 hseed
    obtain ⟨e, he, rfl⟩ := List.mem_map.1 hkey
    rcases single_cases data control limit hg hs hseed hempty with ⟨l, -, -, herror⟩ | ⟨hwithin, -⟩
    · cases herror.symm.trans (hslices e he)
    · exact hwithin

/-- Single slices that were collected split the slice of all seeds. -/
theorem splits_of_collected {joint : List Statement} {slices : List (Statement × List Statement)}
    (hjoint : ∀ t, t ∈ joint ↔ t ∈ g.closure data control seeds)
    (h : collected (fun s => (g.forwardSlice data control limit [s] {}).1) (distinct seeds) = .ok slices) :
    g.Splits data control limit seeds joint slices := by
  obtain ⟨hkeys, hslices⟩ := collected_eq_ok.1 h
  have hempty := Index.sound_empty g.calls
  have hseed : ∀ e ∈ slices, e.1 ∈ seeds := by
    intro e he
    exact mem_of_mem_distinct (hkeys ▸ List.mem_map_of_mem he)
  have hmem : ∀ e ∈ slices, ∀ t, t ∈ e.2 ↔ t ∈ g.closure data control [e.1] := by
    intro e he
    rcases single_cases data control limit hg hs (hseed e he) hempty with ⟨l, -, -, herror⟩ | ⟨-, slice, hok, hmem⟩
    · cases herror.symm.trans (hslices e he)
    · cases hok.symm.trans (hslices e he)
      exact hmem
  refine ⟨?_, fun e he x hx => ?_, fun t => ?_, fun e he t ht x hx => ?_⟩
  · rw [hkeys]
    exact hg.exactOn_holds.firstMentions_distinct hs
  · have hok := (transparent_single data control limit hg hs (hseed e he) x hx).1.trans (hslices e he)
    exact ⟨hok, forwardSlice_unlimited hok⟩
  · rw [hjoint, mem_closure_iff]
    constructor
    · rintro ⟨s, hs', ht⟩
      have hkey : s ∈ slices.map (·.1) := hkeys ▸ (hg.exactOn_holds.mem_distinct hs).2 hs'
      obtain ⟨e, he, rfl⟩ := List.mem_map.1 hkey
      exact ⟨e, he, (hmem e he t).2 ht⟩
    · rintro ⟨e, he, ht⟩
      exact ⟨e.1, hseed e he, (hmem e he t).1 ht⟩
  · have hclosure := (hmem e he t).1 ht
    have hheld : ∀ s ∈ [t], g.calls.Holds s :=
      List.forall_mem_singleton.2 (holds_of_mem_closure hg (List.forall_mem_singleton.2 (hs e.1 (hseed e he))) hclosure)
    obtain ⟨own, hown, -, hownmem⟩ := closure_of_outcome (outcome_forwardSlice data control none hg hheld hx) (by simp)
    exact ⟨own, hown, fun u hu => (hmem e he u).2 (closure_subset_of_mem hclosure ((hownmem u).1 hu))⟩

omit hs in
/-- Workers who take turns on a shared index, and are asked other things meanwhile, have the outcomes of single slices. -/
theorem collected_of_turns {history : List Event} (hhistory : ∀ e ∈ history, ∀ s ∈ e.about, s.context ∈ g.calls.nodes)
    {out : Statement → Except Failure (List Statement)}
    (hended : ∀ s ∈ seeds, ⟨⟨data, control, limit, [s]⟩, .ended (out s)⟩ ∈ (g.after history).tasks) :
    collected out (distinct seeds) =
      collected (fun s => (g.forwardSlice data control limit [s] {}).1) (distinct seeds) := by
  have hconsistent : g.Consistent (g.after history) :=
    List.foldlRecOn history g.next (consistent_empty g) fun session h e he =>
      h.next hg.oneBody hg.overNodes fun s hs _ => hhistory e he s hs
  refine collected_congr fun s hseed => ?_
  cases hconsistent.tasks _ (hended s (mem_of_mem_distinct hseed)) with
  | ended h => exact h

end Joint
end ForwardSlicing.DependenceGraph

namespace ForwardSlicing

/-- The store, the entry of the other method, and the store again. -/
def Sample.seeds : List Statement := [store, .of (merged walk) .entry, store]

namespace Model

open DependenceGraph

/-- If all seeds together are within the budget, slicing from each of them succeeds and splits the slice of all. Without a
budget both always succeed. Slicing from each seed fails exactly if one of the seeds alone is over the budget, and only in
this way; and it makes no difference how many workers take turns at it. -/
theorem slices_agree {m : Model} (hm : m.Loaded) (data control : Level) (limit : Option Int) (workers : Nat)
    {seeds : List Statement} (hseeds : ∀ s ∈ seeds, m.calls.Made s) {x y : Index} (hx : x.Sound m.calls)
    (hy : y.Sound m.calls) :
    (∀ joint, (m.dependence.forwardSlice data control limit seeds x).1 = .ok joint →
      ∃ slices, (m.dependence.forwardSlices data control limit workers seeds y).1 = .ok slices ∧
        m.dependence.Splits data control limit seeds joint slices) ∧
    (∃ joint, (m.dependence.forwardSlice data control none seeds x).1 = .ok joint) ∧
    (∃ slices, (m.dependence.forwardSlices data control none workers seeds y).1 = .ok slices) ∧
    (∀ l, (m.dependence.forwardSlices data control limit workers seeds y).1 = .error (.truncated (.int l)) ↔
      limit = some l ∧ ∃ s ∈ seeds, l < (m.dependence.closure data control [s]).ncard) ∧
    (∀ e, (m.dependence.forwardSlices data control limit workers seeds y).1 = .error e → ∃ l, e = .truncated (.int l)) ∧
    ∀ history out, (∀ e ∈ history, ∀ s ∈ e.about, s.context ∈ m.calls.nodes) →
      (∀ s ∈ seeds, ⟨⟨data, control, limit, [s]⟩, .ended (out s)⟩ ∈ (m.dependence.after history).tasks) →
      collected out (distinct seeds) = (m.dependence.forwardSlices data control limit workers seeds y).1 := by
  have hg : m.dependence.calls.WellFormed := hm.wellFormed
  have hs : ∀ s ∈ seeds, m.dependence.calls.Holds s := fun s h => (hseeds s h).holds
  have heq := fun budget => forwardSlices_eq data control budget workers hg hs hy
  have hcases := collected_cases data control limit hg hs
  rw [heq limit, heq none]
  refine ⟨fun joint hjoint => ?_, ?_, ?_, fun l => ?_, fun e he => ?_,
    fun history out hhistory hended => collected_of_turns data control limit hg hhistory hended⟩
  · have hout := outcome_forwardSlice data control limit hg hs hx
    rw [hjoint] at hout
    obtain ⟨hwithin, hmem⟩ := within_of_ok hout
    rcases hcases with ⟨l, hl, ⟨s, hseed, hlt⟩, -⟩ | ⟨-, slices, hslices⟩
    · have hall := hwithin l hl
      have hone := ncard_closure_le data control hg hs hseed
      omega
    · exact ⟨slices, hslices, splits_of_collected data control limit hg hs hmem hslices⟩
  · obtain ⟨joint, hjoint, -, -⟩ := closure_of_outcome (outcome_forwardSlice data control none hg hs hx) (by simp)
    exact ⟨joint, hjoint⟩
  · rcases collected_cases data control none hg hs with ⟨l, hl, -⟩ | ⟨-, hslices⟩
    · cases hl
    · exact hslices
  · rcases hcases with ⟨l', hl', hover, herror⟩ | ⟨hwithin, slices, hslices⟩
    · rw [herror, hl']
      constructor
      · intro h
        cases h
        exact ⟨rfl, hover⟩
      · rintro ⟨h, -⟩
        rw [Option.some.inj h]
    · rw [hslices]
      constructor
      · intro h
        cases h
      · rintro ⟨hl, s, hseed, hlt⟩
        have hle := hwithin s hseed l hl
        omega
  · rcases hcases with ⟨l, -, -, herror⟩ | ⟨-, slices, hslices⟩
    · cases herror.symm.trans he
      exact ⟨l, rfl⟩
    · cases hslices.symm.trans he

/-- With a seed that is given twice: without a budget the slices of the seeds split the slice of all. A budget of two
statements is too small for one of the seeds alone, and three workers fail with it. -/
theorem slices_agree_store : (∀ s ∈ Sample.seeds, Sample.coarse.calls.Made s) ∧
    (∃ joint slices, (Sample.coarse.dependence.forwardSlice .full .full none Sample.seeds {}).1 = .ok joint ∧
      (Sample.coarse.dependence.forwardSlices .full .full none 3 Sample.seeds {}).1 = .ok slices ∧
      Sample.coarse.dependence.Splits .full .full none Sample.seeds joint slices) ∧
    (Sample.coarse.dependence.forwardSlices .full .full (some 2) 3 Sample.seeds {}).1 = .error (.truncated (.int 2)) ∧
    ∃ s ∈ Sample.seeds, 2 < (Sample.coarse.dependence.closure .full .full [s]).ncard := by
  have hmade : ∀ s ∈ Sample.seeds, Sample.coarse.calls.Made s := by
    have hstore : Sample.coarse.calls.Made Sample.store := Sample.made_store (by simp [Sample.coarse])
    have hentry : Sample.coarse.calls.Made (.of (Sample.merged Sample.walk) .entry) :=
      ⟨Sample.merged Sample.walk, by simp [Sample.coarse], .entry, 0, 0, rfl⟩
    simp [Sample.seeds, hstore, hentry]
  have hx := Index.sound_empty Sample.coarse.calls
  have hfails : (Sample.coarse.dependence.forwardSlices .full .full (some 2) 3 Sample.seeds {}).1 =
      .error (.truncated (.int 2)) := by rfl
  obtain ⟨hsplits, ⟨joint, hjoint⟩, -⟩ := slices_agree Sample.coarse_loaded .full .full none 3 hmade hx hx
  obtain ⟨slices, hslices, hsplit⟩ := hsplits joint hjoint
  obtain ⟨-, -, -, htruncated, -⟩ := slices_agree Sample.coarse_loaded .full .full (some 2) 3 hmade hx hx
  obtain ⟨-, s, hs, hlt⟩ := (htruncated 2).1 hfails
  exact ⟨hmade, ⟨joint, slices, hjoint, hslices, hsplit⟩, hfails, s, hs, by exact_mod_cast hlt⟩

end Model
end ForwardSlicing
