import Mathlib.Data.List.Nodup
import Mathlib.Data.Set.Basic
import ForwardSlicing.Reachability
/-!
# Lists without repeats, and lists of computations that may fail

Contexts and statements are compared by what identifies them, so a test of equality may hold of two values that
differ. `ExactOn` says that it does not on the values at hand, and then `distinct` and `fresh` have the members
that one expects. `FirstMentions` says in which order.
-/

namespace ForwardSlicing

/-! ## Tests of equality -/

section Tests
variable {α : Type} [BEq α]

/-- Equal members of a set are the same. -/
def ExactOn (U : Set α) : Prop := ∀ a ∈ U, ∀ b ∈ U, (a == b) = true → a = b

theorem ExactOn.contains_iff [ReflBEq α] {U : Set α} (hU : ExactOn U) {xs : List α} {a : α}
    (hxs : ∀ b ∈ xs, b ∈ U) (ha : a ∈ U) : xs.contains a = true ↔ a ∈ xs := by
  rw [List.contains_iff_exists_mem_beq]
  constructor
  · rintro ⟨b, hb, hab⟩
    rwa [hU a ha b (hxs b hb) hab]
  · intro h
    exact ⟨a, h, BEq.rfl⟩

/-! ## Distinct members -/

theorem mem_of_mem_distinct {a : α} : ∀ {xs : List α}, a ∈ distinct xs → a ∈ xs
  | x :: xs, h => by
    simp only [distinct, List.mem_cons, List.mem_filter] at h ⊢
    rcases h with rfl | ⟨h, -⟩
    · exact .inl rfl
    · exact .inr (mem_of_mem_distinct h)

theorem ExactOn.mem_distinct {U : Set α} (hU : ExactOn U) {a : α} :
    ∀ {xs : List α}, (∀ b ∈ xs, b ∈ U) → (a ∈ distinct xs ↔ a ∈ xs)
  | [], _ => by simp [distinct]
  | x :: xs, hxs => by
    have ih : a ∈ distinct xs ↔ a ∈ xs := hU.mem_distinct fun b hb => hxs b (List.mem_cons_of_mem _ hb)
    simp only [distinct, List.mem_cons, List.mem_filter, ih]
    constructor
    · rintro (h | ⟨h, -⟩)
      · exact .inl h
      · exact .inr h
    · rintro (h | h)
      · exact .inl h
      · by_cases hx : (x == a) = true
        · exact .inl (hU x (hxs x (by simp)) a (hxs a (by simp [h])) hx).symm
        · exact .inr ⟨h, by simpa using hx⟩

theorem nodup_distinct [ReflBEq α] : ∀ xs : List α, (distinct xs).Nodup
  | [] => List.nodup_nil
  | x :: xs => by
    refine List.nodup_cons.2 ⟨fun h => ?_, (nodup_distinct xs).filter _⟩
    simpa using (List.mem_filter.1 h).2

/-- A choice that does not tell equal members apart may be made before or after dropping repeats. -/
theorem distinct_filter {p : α → Bool} (hp : ∀ a b, (a == b) = true → p a = p b) :
    ∀ xs : List α, distinct (xs.filter p) = (distinct xs).filter p
  | [] => rfl
  | x :: xs => by
    have ih := distinct_filter hp xs
    by_cases hx : p x = true
    · simp only [List.filter_cons_of_pos hx, distinct, ih, List.filter_filter]
      congr 1
      exact List.filter_congr fun a _ => Bool.and_comm _ _
    · simp only [List.filter_cons_of_neg hx, distinct, ih, List.filter_filter]
      refine List.filter_congr fun a _ => ?_
      by_cases hxa : (x == a) = true
      · simp [← hp x a hxa, hx]
      · simp [hxa]

/-- No two members of the list are equal. -/
def Apart (xs : List α) : Prop := xs.Pairwise fun a b => (a == b) = false

theorem apart_distinct : ∀ xs : List α, Apart (distinct xs)
  | [] => .nil
  | x :: xs => by
    refine List.pairwise_cons.2 ⟨fun a ha => ?_, (apart_distinct xs).filter _⟩
    simpa using (List.mem_filter.1 ha).2

/-! ## New members -/

theorem mem_of_mem_fresh {a : α} {seen xs : List α} (h : a ∈ fresh seen xs) : a ∈ xs :=
  List.mem_of_mem_filter (mem_of_mem_distinct h)

theorem apart_append_fresh [PartialEquivBEq α] {seen : List α} (h : Apart seen) (xs : List α) :
    Apart (seen ++ fresh seen xs) := by
  refine List.pairwise_append.2 ⟨h, apart_distinct _, fun a ha b hb => ?_⟩
  have hb' := (List.mem_filter.1 (mem_of_mem_distinct hb)).2
  rw [Bool.not_eq_true', ← Bool.not_eq_true, List.contains_iff_exists_mem_beq] at hb'
  rw [← Bool.not_eq_true]
  exact fun hab => hb' ⟨a, ha, BEq.symm hab⟩

theorem fresh_nil (seen : List α) : fresh seen [] = [] := rfl

theorem fresh_cons_of_seen {seen : List α} {x : α} (h : seen.contains x = true) (xs : List α) :
    fresh seen (x :: xs) = fresh seen xs := by
  simp [fresh, h]

theorem fresh_cons_of_new [EquivBEq α] {seen : List α} {x : α} (h : seen.contains x = false) (xs : List α) :
    fresh seen (x :: xs) = x :: fresh (seen ++ [x]) xs := by
  have hx : ∀ a b : α, (a == b) = true → (!(x == a)) = !(x == b) := by
    intro a b hab
    rw [BEq.congr_right hab]
  simp only [fresh, h, List.filter_cons, Bool.not_false, if_true, distinct, ← distinct_filter hx, List.filter_filter]
  -- the two tests are made in either order
  congr 3
  funext a
  simp [BEq.comm (a := a), Bool.and_comm]

/-- Adds a member at the end, unless it is there. -/
def addNew (xs : List α) (a : α) : List α := if xs.contains a then xs else xs ++ [a]

theorem foldl_addNew [EquivBEq α] (as : List α) : ∀ xs : List α, as.foldl addNew xs = xs ++ fresh xs as := by
  induction as with
  | nil => intro xs; simp [fresh_nil]
  | cons a as ih =>
    intro xs
    rw [List.foldl_cons, ih, addNew]
    cases h : xs.contains a with
    | true => rw [if_pos rfl, fresh_cons_of_seen h]
    | false => rw [if_neg (by simp), fresh_cons_of_new h, List.append_assoc, List.singleton_append]

theorem foldl_addNew_nil [EquivBEq α] (as : List α) : as.foldl addNew [] = distinct as := by
  simp [foldl_addNew, fresh]

section AddNew
variable {xs : List α} {a b : α}

theorem mem_addNew_of_mem (h : b ∈ xs) : b ∈ addNew xs a := by
  unfold addNew
  split
  · exact h
  · exact List.mem_append_left _ h

theorem mem_or_eq_of_mem_addNew (h : b ∈ addNew xs a) : b ∈ xs ∨ b = a := by
  unfold addNew at h
  split at h
  · exact .inl h
  · simpa using h

theorem ExactOn.mem_addNew_self [EquivBEq α] {U : Set α} (hU : ExactOn U) (hxs : ∀ b ∈ xs, b ∈ U) (ha : a ∈ U) :
    a ∈ addNew xs a := by
  unfold addNew
  split
  case isTrue h => exact (hU.contains_iff hxs ha).1 h
  case isFalse => simp

end AddNew

/-- Images under a map that keeps the test of equality are added as their members are. -/
theorem map_addNew {β : Type} [BEq β] {f : α → β} (hf : ∀ a b, (a == b) = (f a == f b)) (xs : List α) (a : α) :
    (addNew xs a).map f = addNew (xs.map f) (f a) := by
  have hcontains : (xs.map f).contains (f a) = xs.contains a := by
    rw [Bool.eq_iff_iff, List.contains_iff_exists_mem_beq, List.contains_iff_exists_mem_beq]
    simp [hf]
  simp only [addNew, hcontains]
  split <;> simp

/-! ## First mentions -/

/-- The second list has the members of the first one, each once, in the order in which they are first mentioned. -/
inductive FirstMentions {α : Type} : List α → List α → Prop
  | nil : FirstMentions [] []
  | again {xs ys : List α} {a : α} : FirstMentions xs ys → a ∈ xs → FirstMentions (xs ++ [a]) ys
  | first {xs ys : List α} {a : α} : FirstMentions xs ys → a ∉ xs → FirstMentions (xs ++ [a]) (ys ++ [a])

omit [BEq α] in
theorem FirstMentions.mem_iff {xs ys : List α} (h : FirstMentions xs ys) {b : α} : b ∈ ys ↔ b ∈ xs := by
  induction h with
  | nil => exact Iff.rfl
  | again _ ha ih =>
    rw [ih, List.mem_append, List.mem_singleton, or_iff_left_of_imp]
    rintro rfl
    exact ha
  | first _ _ ih => rw [List.mem_append, List.mem_append, ih]

omit [BEq α] in
theorem FirstMentions.nodup {xs ys : List α} (h : FirstMentions xs ys) : ys.Nodup := by
  induction h with
  | nil => exact List.nodup_nil
  | again _ _ ih => exact ih
  | first h ha ih =>
    rw [← List.concat_eq_append]
    exact ih.concat fun hm => ha (h.mem_iff.1 hm)

section Mentions
variable [EquivBEq α] {U : Set α} (hU : ExactOn U)
include hU

theorem ExactOn.firstMentions_addNew {xs ys : List α} {a : α} (hxs : ∀ b ∈ xs, b ∈ U) (ha : a ∈ U)
    (h : FirstMentions xs ys) : FirstMentions (xs ++ [a]) (addNew ys a) := by
  have hys : ys.contains a = true ↔ a ∈ xs := (hU.contains_iff (fun b hb => hxs b (h.mem_iff.1 hb)) ha).trans h.mem_iff
  unfold addNew
  split
  case isTrue hc => exact .again h (hys.1 hc)
  case isFalse hc => exact .first h fun hm => hc (hys.2 hm)

/-- Members that are added one after the other are mentioned one after the other. -/
theorem ExactOn.firstMentions_foldl {as : List α} : ∀ {xs ys : List α}, (∀ b ∈ xs ++ as, b ∈ U) → FirstMentions xs ys →
    FirstMentions (xs ++ as) (as.foldl addNew ys) := by
  induction as with
  | nil =>
    intro xs ys _ h
    rwa [List.append_nil]
  | cons a as ih =>
    intro xs ys hxs h
    rw [List.append_cons] at hxs ⊢
    have hstep := hU.firstMentions_addNew (fun b hb => hxs b (by simp [hb])) (hxs a (by simp)) h
    exact ih hxs hstep

theorem ExactOn.firstMentions_distinct {xs : List α} (hxs : ∀ b ∈ xs, b ∈ U) : FirstMentions xs (distinct xs) := by
  have h : FirstMentions ([] ++ xs) (xs.foldl addNew []) := hU.firstMentions_foldl hxs .nil
  rwa [foldl_addNew_nil] at h

end Mentions
end Tests

/-! ## Computations that may fail -/

section Failing
variable {ε α β : Type}

theorem bind_eq_ok {x : Except ε α} {f : α → Except ε β} {b : β} :
    (x >>= f) = .ok b ↔ ∃ a, x = .ok a ∧ f a = .ok b := by
  cases x with
  | error e => simp [bind, Except.bind]
  | ok a => simp [bind, Except.bind]

theorem map_eq_ok {x : Except ε α} {f : α → β} {b : β} : x.map f = .ok b ↔ ∃ a, x = .ok a ∧ f a = b := by
  cases x with
  | error e => simp [Except.map]
  | ok a => simp [Except.map]

/-- If the computation succeeds on every member, it succeeds on the list, and its results are those of the
members. -/
theorem mapM_ok {f : α → Except ε β} : ∀ {xs : List α}, (∀ a ∈ xs, ∃ b, f a = .ok b) →
    ∃ ys, xs.mapM f = .ok ys ∧ ∀ b, b ∈ ys ↔ ∃ a ∈ xs, f a = .ok b
  | [], _ => ⟨[], rfl, by simp⟩
  | x :: xs, h => by
    obtain ⟨y, hy⟩ := h x (by simp)
    obtain ⟨ys, hys, hmem⟩ := mapM_ok fun a (ha : a ∈ xs) => h a (by simp [ha])
    refine ⟨y :: ys, by simp [List.mapM_cons, hy, hys, bind, Except.bind, pure, Except.pure], fun b => ?_⟩
    rw [List.mem_cons, hmem]
    constructor
    · rintro (rfl | ⟨a, ha, hab⟩)
      · exact ⟨x, by simp, hy⟩
      · exact ⟨a, by simp [ha], hab⟩
    · rintro ⟨a, ha, hab⟩
      rcases List.mem_cons.1 ha with rfl | ha
      · rw [hy, Except.ok.injEq] at hab
        exact .inl hab.symm
      · exact .inr ⟨a, ha, hab⟩

/-- The same for computations of lists whose results are joined. -/
theorem mapM_flatten_ok {f : α → Except ε (List β)} {P : α → β → Prop} {xs : List α}
    (h : ∀ a ∈ xs, ∃ l, f a = .ok l ∧ ∀ b, b ∈ l ↔ P a b) :
    ∃ ls, xs.mapM f = .ok ls ∧ ∀ b, b ∈ ls.flatten ↔ ∃ a ∈ xs, P a b := by
  obtain ⟨ls, hls, hmem⟩ := mapM_ok fun a ha => (h a ha).imp fun _ hl => hl.1
  refine ⟨ls, hls, fun b => ?_⟩
  rw [List.mem_flatten]
  constructor
  · rintro ⟨l, hl, hb⟩
    obtain ⟨a, ha, hal⟩ := (hmem l).1 hl
    obtain ⟨l', hl', hP⟩ := h a ha
    cases hal.symm.trans hl'
    exact ⟨a, ha, (hP b).1 hb⟩
  · rintro ⟨a, ha, hab⟩
    obtain ⟨l, hl, hP⟩ := h a ha
    exact ⟨l, (hmem l).2 ⟨a, ha, hl⟩, (hP b).2 hab⟩

theorem mem_of_mapM {f : α → Except ε β} : ∀ {xs : List α} {ys : List β}, xs.mapM f = .ok ys →
    ∀ b ∈ ys, ∃ a ∈ xs, f a = .ok b
  | [], ys, h, b, hb => by
    cases h
    cases hb
  | x :: xs, ys, h, b, hb => by
    rw [List.mapM_cons, bind_eq_ok] at h
    obtain ⟨y, hy, h⟩ := h
    rw [bind_eq_ok] at h
    obtain ⟨ys', hys, h⟩ := h
    cases h
    rcases List.mem_cons.1 hb with rfl | hb
    · exact ⟨x, by simp, hy⟩
    · obtain ⟨a, ha, hab⟩ := mem_of_mapM hys b hb
      exact ⟨a, List.mem_cons_of_mem _ ha, hab⟩

/-- What every step keeps holds at the end of the list. -/
theorem foldlM_keeps {P : β → Prop} {f : β → α → Except ε β} (hf : ∀ b a b', P b → f b a = .ok b' → P b') :
    ∀ {xs : List α} {b b' : β}, P b → xs.foldlM f b = .ok b' → P b'
  | [], b, b', hb, h => by
    simp only [List.foldlM_nil, pure, Except.pure, Except.ok.injEq] at h
    exact h ▸ hb
  | x :: xs, b, b', hb, h => by
    rw [List.foldlM_cons, bind_eq_ok] at h
    obtain ⟨b₁, h₁, h⟩ := h
    exact foldlM_keeps hf (hf b x b₁ hb h₁) h

end Failing
end ForwardSlicing
