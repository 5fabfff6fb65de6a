import Mathlib.Data.List.TakeWhile
import ForwardSlicing.Method.Signature
/-!
# Signatures are read back

`Descriptor.FieldType` and `Descriptor.WellFormed` give the grammar of descriptors, and `Method.SpelledBy` the texts that name
a method: its class with dots or slashes, its name and its descriptor, with blanks around them. `parse_text` and
`ofSignature_spelled`: such texts are read as what they spell.
-/

namespace ForwardSlicing

/-! ## Characters -/

/-- What stands before the first occurrence of a character. -/
theorem takeWhile_ne {c : Char} {cs : List Char} (h : c ∉ cs) (rest : List Char) :
    (cs ++ c :: rest).takeWhile (· != c) = cs := by
  have hne : ∀ d ∈ cs, (d != c) = true := fun d hd => by
    rw [bne_iff_ne]
    rintro rfl
    exact h hd
  rw [List.takeWhile_append_of_pos hne]
  simp

namespace Text

/-- Blanks around a text do not count. -/
theorem stripChars_blanks {left right : List Char} (hleft : ∀ c ∈ left, isBlank c = true)
    (hright : ∀ c ∈ right, isBlank c = true) (cs : List Char) : stripChars (left ++ cs ++ right) = stripChars cs := by
  unfold stripChars
  rw [List.append_assoc, List.dropWhile_append_of_pos hleft, List.dropWhile_append]
  split
  case isTrue hempty =>
    rw [List.dropWhile_eq_nil_iff.2 hright, List.isEmpty_iff.1 hempty]
  case isFalse =>
    rw [List.reverse_append, List.dropWhile_append_of_pos (by simpa using hright)]

/-- Nothing else is taken off a text that neither begins nor ends with a blank. -/
theorem stripChars_append {left right cs : List Char} (hleft : ∀ c ∈ left, isBlank c = true)
    (hright : ∀ c ∈ right, isBlank c = true) (hfirst : ∃ c rest, cs = c :: rest ∧ isBlank c = false)
    (hlast : ∃ rest c, cs = rest ++ [c] ∧ isBlank c = false) : stripChars (left ++ cs ++ right) = cs := by
  have hdrop : cs.dropWhile isBlank = cs := by
    obtain ⟨c, rest, rfl, hc⟩ := hfirst
    exact List.dropWhile_cons_of_neg (by simp [hc])
  have hdrop' : cs.reverse.dropWhile isBlank = cs.reverse := by
    obtain ⟨rest, c, rfl, hc⟩ := hlast
    rw [List.reverse_append, List.reverse_singleton, List.singleton_append, List.dropWhile_cons_of_neg (by simp [hc])]
  rw [stripChars_blanks hleft hright, stripChars, hdrop, hdrop', List.reverse_reverse]

end Text

/-! ## Descriptors -/

namespace Descriptor

/-- The characters of a field type. -/
inductive FieldType : List Char → Prop
  | primitive {c : Char} : isPrimitive c = true → FieldType [c]
  | object {name : List Char} : name ≠ [] → ';' ∉ name → FieldType ('L' :: name ++ [';'])
  | array {t : List Char} : FieldType t → FieldType ('[' :: t)

/-- The parameter types are field types, and so is the return type unless it is void. -/
structure WellFormed (d : Descriptor) : Prop where
  params : ∀ t ∈ d.params, FieldType t.toList
  result : d.result = void ∨ FieldType d.result.toList

theorem readType_append {t : List Char} (h : FieldType t) (rest : List Char) : readType (t ++ rest) = .ok (t, rest) := by
  induction h with
  | @primitive c hc =>
    have hbrackets : c ≠ '[' ∧ c ≠ 'L' := by
      constructor <;> (rintro rfl; revert hc; decide)
    rw [List.singleton_append, readType]
    · rw [if_pos hc]
    · exact hbrackets.1
    · exact hbrackets.2
  | @object name hne hsemi =>
    have htake := takeWhile_ne hsemi rest
    rw [List.cons_append, List.cons_append, List.append_assoc, List.singleton_append, readType]
    simp [htake, hne]
  | @array t _ ih =>
    rw [List.cons_append, readType, ih]
    rfl

/-- A field type has a first character, and it is no closing parenthesis. -/
theorem FieldType.exists_cons {t : List Char} (h : FieldType t) : ∃ c cs, t = c :: cs ∧ c ≠ ')' := by
  cases h with
  | @primitive c hc =>
    refine ⟨c, [], rfl, ?_⟩
    rintro rfl
    revert hc
    decide
  | object => exact ⟨_, _, rfl, by decide⟩
  | array => exact ⟨_, _, rfl, by decide⟩

theorem readParams_append {ts : List String} (hts : ∀ t ∈ ts, FieldType t.toList) (rest : List Char) :
    ∀ fuel, ts.length ≤ fuel → readParams fuel (ts.flatMap String.toList ++ ')' :: rest) = .ok (ts, rest) := by
  induction ts with
  | nil =>
    intro fuel _
    cases fuel <;> rfl
  | cons t ts ih =>
    intro fuel hfuel
    obtain ⟨fuel, rfl⟩ : ∃ n, fuel = n + 1 := ⟨fuel - 1, by simp only [List.length_cons] at hfuel; omega⟩
    have ht := hts t (by simp)
    have hread := readType_append ht (ts.flatMap String.toList ++ ')' :: rest)
    have hrest := ih (fun t' h' => hts t' (List.mem_cons_of_mem _ h')) fuel (by simpa using hfuel)
    obtain ⟨c, cs, hc, hne⟩ := ht.exists_cons
    rw [List.flatMap_cons, List.append_assoc]
    rw [hc, List.cons_append] at hread ⊢
    rw [readParams, hread]
    · simp [bind, Except.bind, hrest, pure, Except.pure, ← hc]
    · intro h
      cases h
    · intro cs' h
      exact hne (List.cons.inj h).1

theorem readResult_eq {s : String} (h : s = void ∨ FieldType s.toList) : readResult s.toList = .ok s := by
  unfold readResult
  rw [String.ofList_toList]
  by_cases hv : s = void
  · rw [if_pos hv, hv]
  · have hread := readType_append (h.resolve_left hv) []
    rw [List.append_nil] at hread
    rw [if_neg hv, hread]
    simp [bind, Except.bind]

theorem length_le_flatMap {ts : List String} (hts : ∀ t ∈ ts, FieldType t.toList) :
    ts.length ≤ (ts.flatMap String.toList).length := by
  induction ts with
  | nil => simp
  | cons t ts ih =>
    obtain ⟨c, cs, hc, -⟩ := (hts t (by simp)).exists_cons
    have hrest := ih fun t' h' => hts t' (List.mem_cons_of_mem _ h')
    simp only [List.flatMap_cons, List.length_append, List.length_cons, hc]
    omega

theorem toList_text (d : Descriptor) :
    d.text.toList = '(' :: (d.params.flatMap String.toList ++ ')' :: d.result.toList) := by
  simp [text, String.toList_join]

/-- A descriptor is read back from its written form. -/
theorem parse_text {d : Descriptor} (hd : d.WellFormed) : parse d.text = .ok d := by
  have hlen : d.params.length ≤ (d.params.flatMap String.toList ++ ')' :: d.result.toList).length := by
    have hle := length_le_flatMap hd.params
    rw [List.length_append]
    omega
  have hparams := readParams_append hd.params d.result.toList _ hlen
  unfold parse
  rw [toList_text]
  simp only [hparams, readResult_eq hd.result, bind, Except.bind, pure, Except.pure]

theorem FieldType.last {t : List Char} (h : FieldType t) : ∃ rest c, t = rest ++ [c] ∧ Text.isBlank c = false := by
  induction h with
  | @primitive c hc =>
    have hletters : "BCDFIJSZ".toList.all (fun c => !Text.isBlank c) = true := by decide
    exact ⟨[], c, rfl, by simpa using List.all_eq_true.1 hletters c (List.contains_iff_mem.1 hc)⟩
  | @object name => exact ⟨'L' :: name, ';', rfl, by decide⟩
  | array _ ih =>
    obtain ⟨rest, c, rfl, hc⟩ := ih
    exact ⟨'[' :: rest, c, rfl, hc⟩

/-- The written form of a descriptor ends with a letter or a semicolon. -/
theorem WellFormed.last {d : Descriptor} (hd : d.WellFormed) :
    ∃ rest c, d.text.toList = rest ++ [c] ∧ Text.isBlank c = false := by
  obtain ⟨rest, c, hc, hblank⟩ : ∃ rest c, d.result.toList = rest ++ [c] ∧ Text.isBlank c = false := by
    rcases hd.result with hv | ht
    · exact ⟨[], 'V', by rw [hv]; rfl, by decide⟩
    · exact ht.last
  exact ⟨'(' :: (d.params.flatMap String.toList ++ ')' :: rest), c, by simp [toList_text, hc], hblank⟩

end Descriptor

/-! ## Methods -/

namespace Method

/-- A name and a descriptor that a signature can give. -/
structure Proper (m : Method) : Prop where
  nonempty : m.name ≠ ""
  dot : '.' ∉ m.name.toList
  parenthesis : '(' ∉ m.name.toList
  descriptor : m.descriptor.WellFormed

/-- The texts that name a method: its class, with dots or slashes, its name and its descriptor, with blanks around. -/
inductive SpelledBy (m : Method) : String → Prop
  | signature {left right cls : List Char} {c : Char} : m.Proper →
      (∀ b ∈ left, Text.isBlank b = true) → (∀ b ∈ right, Text.isBlank b = true) →
      Text.isBlank c = false → '(' ∉ c :: cls → replaceChar '/' '.' (String.ofList (c :: cls)) = m.className →
      SpelledBy m (String.ofList (left ++ (c :: cls ++ '.' :: m.name.toList ++ m.descriptor.text.toList) ++ right))

theorem cutAtLastDot_append {cls name : List Char} (h : '.' ∉ name) :
    cutAtLastDot (cls ++ '.' :: name) = some (cls, name) := by
  have htake : ((cls ++ '.' :: name).reverse.takeWhile (· != '.')) = name.reverse := by
    rw [List.reverse_append, List.reverse_cons, List.append_assoc, List.singleton_append]
    exact takeWhile_ne (by simpa using h) _
  unfold cutAtLastDot
  rw [htake, List.reverse_reverse, List.reverse_append, List.reverse_cons, List.append_assoc, List.singleton_append]
  simp

/-- A text is read as the method that it names. -/
theorem ofSignature_spelled {m : Method} {s : String} (h : m.SpelledBy s) : ofSignature s = .ok m := by
  cases h with
  | @signature left right cls c hm hleft hright hc hparen hclass =>
    obtain ⟨t, ht⟩ : ∃ t, m.descriptor.text.toList = '(' :: t := ⟨_, m.descriptor.toList_text⟩
    have hstrip : Text.stripChars (left ++ (c :: cls ++ '.' :: m.name.toList ++ m.descriptor.text.toList) ++ right) =
        c :: cls ++ '.' :: m.name.toList ++ m.descriptor.text.toList := by
      refine Text.stripChars_append hleft hright ⟨c, _, rfl, hc⟩ ?_
      obtain ⟨rest, d, hd, hblank⟩ := hm.descriptor.last
      exact ⟨c :: cls ++ '.' :: m.name.toList ++ rest, d, by rw [hd, ← List.append_assoc], hblank⟩
    -- the first parenthesis is that of the descriptor
    have hhead : (c :: cls ++ '.' :: m.name.toList ++ '(' :: t).takeWhile (· != '(') =
        c :: cls ++ '.' :: m.name.toList := by
      refine takeWhile_ne ?_ t
      simp only [List.mem_append, List.mem_cons, not_or] at hparen ⊢
      exact ⟨hparen, by decide, hm.parenthesis⟩
    have hclass' : (replaceChar '/' '.' (String.ofList (c :: cls))).isEmpty = false := by simp [replaceChar]
    have hname : m.name.isEmpty = false := by simpa using hm.nonempty
    unfold ofSignature
    rw [String.toList_ofList, hstrip, ht]
    simp only [hhead, List.drop_left, List.isEmpty_cons, Bool.false_eq_true, if_false]
    rw [cutAtLastDot_append hm.dot]
    simp only [ofParts, hclass', String.ofList_toList, hname, Bool.or_self, Bool.false_eq_true, if_false]
    rw [← ht, String.ofList_toList, Descriptor.parse_text hm.descriptor, hclass]

theorem ofJson_spelled {m : Method} {s : String} (h : m.SpelledBy s) : ofJson (.str s) = .ok m := by
  rw [ofJson, ofSignature_spelled h]

end Method
end ForwardSlicing
