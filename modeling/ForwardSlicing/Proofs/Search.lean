import Mathlib.Data.Set.Card
import Mathlib.Logic.Relation
import ForwardSlicing.Proofs.Lists
/-!
# Worklist searches in any order

A worklist search expands what it has found until nothing is left to expand. Which pending member it takes next,
and in which order it looks at an answer, is open: `Step` allows every choice. A budget may stop the search at any
member it adds.

`outcome_of_run`: whatever the choices, a search ends with exactly the members reachable from its start if these
are within the budget, and with the failure of the budget if they are not. `terminates`: every choice of steps comes
to an end. `mem_explore`: exploring without a budget finds exactly what is reachable.
-/

namespace ForwardSlicing

open Relation

/-- A search: the members that wait to be expanded, what was answered about the last one and not looked at yet, and
all members found. -/
structure Search (α : Type) where
  pending : List α
  arriving : List α
  found : List α

/-- What a search is made with: the possible answers about a member, the sizes that are over the budget, and the
failure then. -/
structure Search.Rules (ε α : Type) where
  ask : α → Except ε (List α) → Prop
  tooMany : Nat → Bool
  overrun : ε

namespace Search

variable {ε α : Type}

/-! ## Steps and ends -/

section Steps
variable [BEq α] (r : Rules ε α)

/-- A step asks about any pending member, or looks at the next arrival. -/
inductive Step : Search α → Search α → Prop
  | query {pending rest answer arriving found : List α} {a : α} :
      pending.Perm (a :: rest) → r.ask a (.ok answer) → arriving.Perm answer →
      Step ⟨pending, [], found⟩ ⟨rest, arriving, found⟩
  | known {pending arriving found : List α} {a : α} :
      found.contains a = true → Step ⟨pending, a :: arriving, found⟩ ⟨pending, arriving, found⟩
  | new {pending arriving found : List α} {a : α} :
      found.contains a = false → r.tooMany (found.length + 1) = false →
      Step ⟨pending, a :: arriving, found⟩ ⟨a :: pending, arriving, found ++ [a]⟩

/-- A search ends when nothing is pending, when a query fails, or when a new member is over the budget. -/
inductive Ends : Search α → Except ε (List α) → Prop
  | done {found : List α} : Ends ⟨[], [], found⟩ (.ok found)
  | failed {pending found : List α} {a : α} {e : ε} :
      a ∈ pending → r.ask a (.error e) → Ends ⟨pending, [], found⟩ (.error e)
  | overrun {pending arriving found : List α} {a : α} :
      found.contains a = false → r.tooMany (found.length + 1) = true →
      Ends ⟨pending, a :: arriving, found⟩ (.error r.overrun)

/-- Every choice of steps comes to an end: none goes on for ever, and none is stuck on the way. -/
def Terminates (s : Search α) : Prop :=
  Acc (fun t s => Step r s t) s ∧ ∀ t, ReflTransGen (Step r) s t → (∃ u, Step r t u) ∨ ∃ out, Ends r t out

/-- Some choice of steps ends with the outcome. -/
def Run (s : Search α) (out : Except ε (List α)) : Prop := ∃ t, ReflTransGen (Step r) s t ∧ Ends r t out

variable {r}

theorem Run.of_steps {s t : Search α} {out : Except ε (List α)} (hst : ReflTransGen (Step r) s t) (h : Run r t out) :
    Run r s out := by
  obtain ⟨u, hu, he⟩ := h
  exact ⟨u, hst.trans hu, he⟩

end Steps

/-! ## What is reachable -/

/-- Everything that `R` leads to from the members of a list, in any number of steps. -/
def reach (R : α → α → Prop) (start : List α) : Set α := {b | ∃ a ∈ start, ReflTransGen R a b}

theorem mem_reach_of_mem {R : α → α → Prop} {start : List α} {a : α} (h : a ∈ start) : a ∈ reach R start :=
  ⟨a, h, .refl⟩

theorem reach_step {R : α → α → Prop} {start : List α} {a b : α} (h : a ∈ reach R start) (hab : R a b) :
    b ∈ reach R start := by
  obtain ⟨s, hs, hr⟩ := h
  exact ⟨s, hs, hr.tail hab⟩

/-- What holds of the start and is kept by `R` holds of everything reachable. -/
theorem reach_subset {R : α → α → Prop} {start : List α} {S : Set α} (hs : ∀ a ∈ start, a ∈ S)
    (hR : ∀ a ∈ S, ∀ b, R a b → b ∈ S) : reach R start ⊆ S := by
  rintro b ⟨a, ha, hr⟩
  induction hr with
  | refl => exact hs a ha
  | tail _ hbc ih => exact hR _ ih _ hbc

theorem reach_congr {R : α → α → Prop} {start start' : List α} (h : ∀ a, a ∈ start ↔ a ∈ start') :
    reach R start = reach R start' := by
  ext b
  constructor
  · rintro ⟨a, ha, hr⟩
    exact ⟨a, (h a).1 ha, hr⟩
  · rintro ⟨a, ha, hr⟩
    exact ⟨a, (h a).2 ha, hr⟩

theorem length_le_ncard {l : List α} {U : Set α} (hU : U.Finite) (hl : l.Nodup) (h : ∀ a ∈ l, a ∈ U) :
    l.length ≤ U.ncard := by
  classical
  rw [← List.toFinset_card_of_nodup hl, ← Set.ncard_coe_finset]
  exact Set.ncard_le_ncard (fun a ha => h a (by simpa using ha)) hU

theorem length_eq_ncard {l : List α} {U : Set α} (hl : l.Nodup) (h : ∀ a, a ∈ l ↔ a ∈ U) : l.length = U.ncard := by
  classical
  rw [← List.toFinset_card_of_nodup hl, ← Set.ncard_coe_finset]
  congr 1
  ext a
  simp [h]

/-! ## Runs -/

/-- What holds of every search on the way: it has found the start, nothing that is not reachable and nothing twice,
and whatever a found member leads to is found or arriving, unless the member is still pending. -/
structure Inv (r : Rules ε α) (R : α → α → Prop) (start : List α) (s : Search α) : Prop where
  begun : ∀ a ∈ start, a ∈ s.found
  found : ∀ a ∈ s.found, a ∈ reach R start
  arriving : ∀ a ∈ s.arriving, a ∈ reach R start
  pending : ∀ a ∈ s.pending, a ∈ s.found
  nodup : s.found.Nodup
  expanded : ∀ a ∈ s.found, a ∈ s.pending ∨ ∀ b, R a b → b ∈ s.found ∨ b ∈ s.arriving
  within : r.tooMany s.found.length = false

theorem inv_start {r : Rules ε α} {R : α → α → Prop} {start : List α} (hn : start.Nodup)
    (hw : r.tooMany start.length = false) : Inv r R start ⟨start, [], start⟩ where
  begun _ h := h
  found _ h := mem_reach_of_mem h
  arriving _ h := absurd h (by simp)
  pending _ h := h
  nodup := hn
  expanded _ h := .inl h
  within := hw

theorem Inv.found_append {r : Rules ε α} {R : α → α → Prop} {start : List α} {s : Search α} (hi : Inv r R start s)
    {a : α} (ha : a ∈ reach R start) : ∀ b ∈ s.found ++ [a], b ∈ reach R start := by
  intro b hb
  rcases List.mem_append.1 hb with hb | hb
  · exact hi.found b hb
  · exact List.mem_singleton.1 hb ▸ ha

theorem Inv.nodup_append {r : Rules ε α} {R : α → α → Prop} {start : List α} {s : Search α} (hi : Inv r R start s)
    {a : α} (ha : a ∉ s.found) : (s.found ++ [a]).Nodup := by
  rw [← List.concat_eq_append]
  exact hi.nodup.concat ha

section Runs
variable [BEq α] {r : Rules ε α} {U : Set α} {R : α → α → Prop} {start : List α}

/-- The queries about members of `U` answer `R`: they succeed and list what `R` leads to, which is in `U` again, and
`U` is a finite set on which tests of equality are exact. A size over the budget stays over it when it grows. -/
structure Answers (r : Rules ε α) (U : Set α) (R : α → α → Prop) : Prop where
  exactOn : ExactOn U
  finite : U.Finite
  closed : ∀ a ∈ U, ∀ b, R a b → b ∈ U
  asked : ∀ a ∈ U, ∃ out, r.ask a out
  answer : ∀ a ∈ U, ∀ out, r.ask a out → ∃ l, out = .ok l ∧ ∀ b, b ∈ l ↔ R a b
  mono : ∀ m n, m ≤ n → r.tooMany m = true → r.tooMany n = true

theorem Answers.reach_subset (h : Answers r U R) (hs : ∀ a ∈ start, a ∈ U) : reach R start ⊆ U :=
  Search.reach_subset hs h.closed

theorem Inv.contains_found [ReflBEq α] (h : Answers r U R) (hs : ∀ a ∈ start, a ∈ U) {s : Search α}
    (hi : Inv r R start s) {a : α} (ha : a ∈ reach R start) : s.found.contains a = true ↔ a ∈ s.found :=
  h.exactOn.contains_iff (fun b hb => h.reach_subset hs (hi.found b hb)) (h.reach_subset hs ha)

theorem inv_step [ReflBEq α] (h : Answers r U R) (hs : ∀ a ∈ start, a ∈ U) {s t : Search α} (hi : Inv r R start s)
    (hst : Step r s t) : Inv r R start t := by
  cases hst with
  | @query pending rest answer arriving found a hp ha harr =>
    have haf : a ∈ found := hi.pending a (hp.mem_iff.2 (by simp))
    obtain ⟨l, hl, hmem⟩ := h.answer a (h.reach_subset hs (hi.found a haf)) _ ha
    cases hl
    refine ⟨hi.begun, hi.found, fun b hb => ?_, fun b hb => ?_, hi.nodup, fun b hb => ?_, hi.within⟩
    · exact reach_step (hi.found a haf) ((hmem b).1 (harr.mem_iff.1 hb))
    · exact hi.pending b (hp.mem_iff.2 (by simp [show b ∈ rest from hb]))
    · rcases hi.expanded b hb with hb' | hb'
      -- the member asked about is not pending any more, but all it leads to is arriving
      · rcases List.mem_cons.1 (hp.mem_iff.1 hb') with rfl | hb'
        · exact .inr fun c hc => .inr (harr.mem_iff.2 ((hmem c).2 hc))
        · exact .inl hb'
      · refine .inr fun c hc => .inl ?_
        simpa using hb' c hc
  | @known pending arriving found a ha =>
    have har : a ∈ reach R start := hi.arriving a (by simp)
    have haf : a ∈ found := (hi.contains_found h hs har).1 ha
    refine ⟨hi.begun, hi.found, fun b hb => hi.arriving b (List.mem_cons_of_mem _ hb), hi.pending, hi.nodup,
      fun b hb => (hi.expanded b hb).imp id fun hb' c hc => ?_, hi.within⟩
    rcases hb' c hc with hc' | hc'
    · exact .inl hc'
    · rcases List.mem_cons.1 hc' with rfl | hc'
      · exact .inl haf
      · exact .inr hc'
  | @new pending arriving found a ha hw =>
    have har : a ∈ reach R start := hi.arriving a (by simp)
    have haf : a ∉ found := fun hm => by simp [(hi.contains_found h hs har).2 hm] at ha
    refine ⟨fun b hb => List.mem_append_left _ (hi.begun b hb), hi.found_append har,
      fun b hb => hi.arriving b (List.mem_cons_of_mem _ hb), fun b hb => ?_, hi.nodup_append haf, fun b hb => ?_,
      by simpa using hw⟩
    · rcases List.mem_cons.1 hb with rfl | hb
      · simp
      · exact List.mem_append_left _ (hi.pending b hb)
    · rcases List.mem_append.1 hb with hb | hb
      · refine (hi.expanded b hb).imp (List.mem_cons_of_mem _) fun hb' c hc => ?_
        rcases hb' c hc with hc' | hc'
        · exact .inl (List.mem_append_left _ hc')
        · rcases List.mem_cons.1 hc' with rfl | hc'
          · exact .inl (by simp)
          · exact .inr hc'
      -- the new member itself waits to be expanded
      · exact .inl (by simp [List.mem_singleton.1 hb])

theorem inv_steps [ReflBEq α] (h : Answers r U R) (hs : ∀ a ∈ start, a ∈ U) {s t : Search α} (hi : Inv r R start s)
    (hst : ReflTransGen (Step r) s t) : Inv r R start t := by
  induction hst with
  | refl => exact hi
  | tail _ hst ih => exact inv_step h hs ih hst

/-! ## Every run ends -/

/-- What a run uses up, in order of weight: members to find, members to expand, arrivals to look at. -/
noncomputable def rank (U : Set α) (s : Search α) : Nat × Nat × Nat :=
  (U.ncard - s.found.length, s.pending.length, s.arriving.length)

theorem Inv.length_le (h : Answers r U R) (hs : ∀ a ∈ start, a ∈ U) {s : Search α} (hi : Inv r R start s) :
    s.found.length ≤ U.ncard :=
  length_le_ncard h.finite hi.nodup fun a ha => h.reach_subset hs (hi.found a ha)

theorem rank_step [ReflBEq α] (h : Answers r U R) (hs : ∀ a ∈ start, a ∈ U) {s t : Search α} (hi : Inv r R start s)
    (hst : Step r s t) : Prod.Lex (· < ·) (Prod.Lex (· < ·) (· < ·)) (rank U t) (rank U s) := by
  have hle := (inv_step h hs hi hst).length_le h hs
  cases hst with
  | query hp ha harr =>
    refine .right _ (.left _ _ ?_)
    simp [hp.length_eq]
  | known ha => exact .right _ (.right _ (by simp))
  | new ha hw =>
    refine .left _ _ ?_
    simp only [List.length_append, List.length_singleton] at hle ⊢
    omega

/-- No choice of steps goes on for ever. -/
theorem acc_step [ReflBEq α] (h : Answers r U R) (hs : ∀ a ∈ start, a ∈ U) {s : Search α} (hi : Inv r R start s) :
    Acc (fun t s => Step r s t) s := by
  have wf : WellFounded (Prod.Lex (· < ·) (Prod.Lex (· < ·) (· < ·)) : Nat × Nat × Nat → Nat × Nat × Nat → Prop) :=
    WellFounded.prod_lex Nat.lt_wfRel.wf (WellFounded.prod_lex Nat.lt_wfRel.wf Nat.lt_wfRel.wf)
  -- the invariant goes along, since only with it the rank falls at every step
  induction hk : rank U s using wf.induction generalizing s with
  | _ k ih =>
    subst hk
    exact ⟨s, fun t hst => ih _ (rank_step h hs hi hst) (inv_step h hs hi hst) rfl⟩

/-- A search that has not ended can go on. -/
theorem step_or_ends [ReflBEq α] (h : Answers r U R) (hs : ∀ a ∈ start, a ∈ U) {s : Search α} (hi : Inv r R start s) :
    (∃ t, Step r s t) ∨ ∃ out, Ends r s out := by
  obtain ⟨pending, arriving, found⟩ := s
  cases arriving with
  | cons a arriving =>
    cases hc : found.contains a with
    | true => exact .inl ⟨_, .known hc⟩
    | false =>
      cases hw : r.tooMany (found.length + 1) with
      | true => exact .inr ⟨_, .overrun hc hw⟩
      | false => exact .inl ⟨_, .new hc hw⟩
  | nil =>
    cases pending with
    | nil => exact .inr ⟨_, .done⟩
    | cons a rest =>
      have ha : a ∈ U := h.reach_subset hs (hi.found a (hi.pending a (by simp)))
      obtain ⟨out, hout⟩ := h.asked a ha
      obtain ⟨l, rfl, -⟩ := h.answer a ha out hout
      exact .inl ⟨_, .query (.refl _) hout (.refl _)⟩

theorem terminates [ReflBEq α] (h : Answers r U R) (hs : ∀ a ∈ start, a ∈ U) (hn : start.Nodup)
    (hw : r.tooMany start.length = false) : Terminates r ⟨start, [], start⟩ :=
  ⟨acc_step h hs (inv_start hn hw), fun _ ht => step_or_ends h hs (inv_steps h hs (inv_start hn hw) ht)⟩

/-! ## Outcomes -/

/-- The outcome is decided by what is reachable: all of it, if that is within the budget. -/
def Outcome (r : Rules ε α) (R : α → α → Prop) (start : List α) (out : Except ε (List α)) : Prop :=
  if r.tooMany (reach R start).ncard = true then out = .error r.overrun
  else ∃ found, out = .ok found ∧ found.Nodup ∧ ∀ a, a ∈ found ↔ a ∈ reach R start

theorem outcome_of_ends [ReflBEq α] (h : Answers r U R) (hs : ∀ a ∈ start, a ∈ U) {s : Search α}
    (hi : Inv r R start s) {out : Except ε (List α)} (ho : Ends r s out) : Outcome r R start out := by
  have hfin : (reach R start).Finite := h.finite.subset (h.reach_subset hs)
  cases ho with
  | @done found =>
    -- nothing is pending and nothing arrives, so what was found is closed
    have hcl : ∀ a ∈ found, ∀ b, R a b → b ∈ found := by
      intro a ha b hab
      simpa using (hi.expanded a ha).resolve_left (by simp) b hab
    have hmem : ∀ a, a ∈ found ↔ a ∈ reach R start :=
      fun a => ⟨hi.found a, fun ha => reach_subset hi.begun hcl ha⟩
    have hw := hi.within
    rw [show Search.found ⟨[], [], found⟩ = found from rfl, length_eq_ncard hi.nodup hmem] at hw
    rw [Outcome, if_neg (by simp [hw])]
    exact ⟨found, rfl, hi.nodup, hmem⟩
  | failed ha he =>
    obtain ⟨l, hl, -⟩ := h.answer _ (h.reach_subset hs (hi.found _ (hi.pending _ ha))) _ he
    cases hl
  | @overrun pending arriving found a ha hw =>
    -- the new member is reachable and not among the found ones, so more is reachable than the budget allows
    have har : a ∈ reach R start := hi.arriving a (by simp)
    have haf : a ∉ found := fun hm => by simp [(hi.contains_found h hs har).2 hm] at ha
    have hle : (found ++ [a]).length ≤ (reach R start).ncard :=
      length_le_ncard hfin (hi.nodup_append haf) (hi.found_append har)
    rw [Outcome, if_pos (h.mono _ _ (by simpa using hle) hw)]

/-- Whatever the choices, the outcome is the same. -/
theorem outcome_of_run [ReflBEq α] (h : Answers r U R) (hs : ∀ a ∈ start, a ∈ U) (hn : start.Nodup)
    (hw : r.tooMany start.length = false) {out : Except ε (List α)} (ho : Run r ⟨start, [], start⟩ out) :
    Outcome r R start out := by
  obtain ⟨t, ht, he⟩ := ho
  exact outcome_of_ends h hs (inv_steps h hs (inv_start hn hw) ht) he

end Runs

/-! ## Whole answers

A search may look at a whole answer at once and test its budget once for all new members. -/

theorem length_append_cons (found rest : List α) (a : α) :
    found.length + (a :: rest).length = (found ++ [a]).length + rest.length := by
  simp only [List.length_cons, List.length_append, List.length_nil]
  omega

theorem within_of_le {r : Rules ε α} (hm : ∀ m n, m ≤ n → r.tooMany m = true → r.tooMany n = true) {m n : Nat}
    (hmn : m ≤ n) (hn : r.tooMany n = false) : r.tooMany m = false := by
  cases h : r.tooMany m with
  | false => rfl
  | true => simp [hm m n hmn h] at hn

section Answers
variable [BEq α] [EquivBEq α] {r : Rules ε α}

theorem run_overrun (arriving : List α) : ∀ pending found : List α, r.tooMany found.length = false →
    r.tooMany (found.length + (fresh found arriving).length) = true →
    Run r ⟨pending, arriving, found⟩ (.error r.overrun) := by
  induction arriving with
  | nil =>
    intro pending found h0 hw
    simp [fresh_nil, h0] at hw
  | cons a arriving ih =>
    intro pending found h0 hw
    cases hc : found.contains a with
    | true =>
      rw [fresh_cons_of_seen hc] at hw
      exact .of_steps (.single (.known hc)) (ih pending found h0 hw)
    | false =>
      rw [fresh_cons_of_new hc, length_append_cons] at hw
      -- either this member is one too many, or one of those after it is
      cases hw1 : r.tooMany (found.length + 1) with
      | true => exact ⟨_, .refl, .overrun hc hw1⟩
      | false =>
        exact .of_steps (.single (.new hc hw1)) (ih (a :: pending) (found ++ [a]) (by simpa using hw1) hw)

/-- Expanding one member as a whole, if its new successors are over the budget. -/
theorem run_expand_overrun {pending rest found answer : List α} {a : α} (hp : pending.Perm (a :: rest))
    (ha : r.ask a (.ok answer)) (h0 : r.tooMany found.length = false)
    (hw : r.tooMany (found.length + (fresh found answer).length) = true) :
    Run r ⟨pending, [], found⟩ (.error r.overrun) :=
  .of_steps (.single (.query hp ha (.refl _))) (run_overrun answer rest found h0 hw)

variable (hm : ∀ m n, m ≤ n → r.tooMany m = true → r.tooMany n = true)
include hm

theorem steps_arrivals (arriving : List α) : ∀ pending found : List α,
    r.tooMany (found.length + (fresh found arriving).length) = false →
    ReflTransGen (Step r) ⟨pending, arriving, found⟩
      ⟨(fresh found arriving).reverse ++ pending, [], found ++ fresh found arriving⟩ := by
  induction arriving with
  | nil =>
    intro pending found _
    simp only [fresh_nil, List.reverse_nil, List.nil_append, List.append_nil]
    exact .refl
  | cons a arriving ih =>
    intro pending found hw
    cases hc : found.contains a with
    | true =>
      rw [fresh_cons_of_seen hc] at hw ⊢
      exact .head (.known hc) (ih pending found hw)
    | false =>
      rw [fresh_cons_of_new hc, length_append_cons] at hw
      have hrest := ih (a :: pending) (found ++ [a]) hw
      rw [fresh_cons_of_new hc]
      refine .head (.new hc (within_of_le hm (by simp) hw)) ?_
      simpa using hrest

/-- Expanding one member as a whole, if its new successors are within the budget. -/
theorem steps_expand {pending rest found answer : List α} {a : α} (hp : pending.Perm (a :: rest))
    (ha : r.ask a (.ok answer)) (hw : r.tooMany (found.length + (fresh found answer).length) = false) :
    ReflTransGen (Step r) ⟨pending, [], found⟩
      ⟨(fresh found answer).reverse ++ rest, [], found ++ fresh found answer⟩ :=
  .head (.query hp ha (.refl _)) (steps_arrivals hm _ _ _ hw)

end Answers

/-! ## Plain exploration

`explore` is a search whose queries never fail and that has no budget. -/

section Exploration
variable [BEq α] [LawfulBEq α] {next : α → List α} {U : Set α} {start : List α}

/-- A search that asks a function. -/
def exploreRules (next : α → List α) : Rules Unit α where
  ask a out := out = .ok (next a)
  tooMany _ := false
  overrun := ()

theorem answers_exploreRules (hfin : U.Finite) (hclosed : ∀ a ∈ U, ∀ b ∈ next a, b ∈ U) :
    Answers (exploreRules next) U fun a b => b ∈ next a where
  exactOn _ _ _ _ h := eq_of_beq h
  finite := hfin
  closed := hclosed
  asked a _ := ⟨_, rfl⟩
  answer a _ out h := ⟨next a, h, fun _ => Iff.rfl⟩
  mono _ _ _ h := by cases h

theorem run_explore (ha : Answers (exploreRules next) U fun a b => b ∈ next a) (hs : ∀ a ∈ start, a ∈ U) :
    ∀ (fuel : Nat) {pending waiting seen : List α}, waiting.Perm pending →
      Inv (exploreRules next) (fun a b => b ∈ next a) start ⟨waiting, [], seen⟩ →
      pending.length + (U.ncard - seen.length) ≤ fuel →
      Run (exploreRules next) ⟨waiting, [], seen⟩ (.ok (explore next fuel pending seen))
  | 0, pending, waiting, seen, hp, _, hf => by
    cases List.length_eq_zero_iff.1 (by omega : pending.length = 0)
    cases hp.eq_nil
    exact ⟨_, .refl, .done⟩
  | fuel + 1, [], waiting, seen, hp, _, _ => by
    cases hp.eq_nil
    exact ⟨_, .refl, .done⟩
  | fuel + 1, a :: pending, waiting, seen, hp, hi, hf => by
    have hask : (exploreRules next).ask a (.ok (next a)) := rfl
    have hwithin : (exploreRules next).tooMany (seen.length + (fresh seen (next a)).length) = false := rfl
    have hsteps := steps_expand ha.mono hp hask hwithin
    have hi' := inv_steps ha hs hi hsteps
    have hle := hi'.length_le ha hs
    refine .of_steps hsteps (run_explore ha hs fuel ((List.reverse_perm _).append_right pending) hi' ?_)
    simp only [List.length_append, List.length_cons] at hf hle ⊢
    omega

/-- An exploration with enough fuel finds exactly what its start leads to. -/
theorem mem_explore (hfin : U.Finite) (hclosed : ∀ a ∈ U, ∀ b ∈ next a, b ∈ U) (hs : ∀ a ∈ start, a ∈ U)
    (hn : start.Nodup) {fuel : Nat} (hf : U.ncard ≤ fuel) (a : α) :
    a ∈ explore next fuel start start ↔ a ∈ reach (fun a b => b ∈ next a) start := by
  have ha := answers_exploreRules hfin hclosed
  have hle := length_le_ncard hfin hn hs
  have hrun := run_explore ha hs fuel (.refl start) (inv_start hn rfl) (by omega)
  obtain ⟨found, hfound, -, hmem⟩ := outcome_of_run ha hs hn rfl hrun
  rw [Except.ok.inj hfound]
  exact hmem a

end Exploration
end Search
end ForwardSlicing
