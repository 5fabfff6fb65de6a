import Mathlib.Data.List.DropRight
import ForwardSlicing.Proofs.Lists
import ForwardSlicing.Proofs.Signature
/-!
# Signatures have one reading

`Descriptor.Splits` is the grammar of descriptors: a parenthesis, field types, a parenthesis and the return type. What the
scanner finds at the start of a text is a field type and the rest of the text (`readType_eq_ok`), and so on up to the whole
descriptor, so `parse_iff_splits`: a text is accepted exactly if it can be split, and it can be split in one way only.

A signature that is accepted is one of the spellings of the method it is read as (`spelledBy_iff`). The written form of the
method is another one, and so is the one with slashes: `ofSignature_roundTrip`.
-/

namespace ForwardSlicing

/-! ## Characters -/

/-- A text is cut at the first occurrence of a character. -/
theorem eq_of_drop_takeWhile {c d : Char} {cs rest : List Char} (h : cs.drop (cs.takeWhile (· != c)).length = d :: rest) :
    d = c ∧ cs = cs.takeWhile (· != c) ++ c :: rest ∧ c ∉ cs.takeWhile (· != c) := by
  induction cs with
  | nil => simp at h
  | cons a cs ih =>
    by_cases hac : a = c
    · subst hac
      simp at h
      simp [h]
    · have hkeep : (a :: cs).takeWhile (· != c) = a :: cs.takeWhile (· != c) := by simp [hac]
      rw [hkeep, List.length_cons, List.drop_succ_cons] at h
      obtain ⟨hd, heq, hnot⟩ := ih h
      rw [hkeep]
      exact ⟨hd, by rw [List.cons_append, ← heq], by simp [Ne.symm hac, hnot]⟩

namespace Text

theorem exists_blanks (cs : List Char) : ∃ left right, (∀ c ∈ left, isBlank c = true) ∧ (∀ c ∈ right, isBlank c = true) ∧
    cs = left ++ stripChars cs ++ right := by
  have hrest : cs.dropWhile isBlank = stripChars cs ++ ((cs.dropWhile isBlank).reverse.takeWhile isBlank).reverse := by
    rw [stripChars, ← List.reverse_append, List.takeWhile_append_dropWhile, List.reverse_reverse]
  refine ⟨cs.takeWhile isBlank, ((cs.dropWhile isBlank).reverse.takeWhile isBlank).reverse, ?_, ?_, ?_⟩
  · exact fun c hc => List.mem_takeWhile_imp hc
  · exact fun c hc => List.mem_takeWhile_imp (List.mem_reverse.1 hc)
  · rw [List.append_assoc, ← hrest, List.takeWhile_append_dropWhile]

theorem head_stripChars {cs rest : List Char} {c : Char} (h : stripChars cs = c :: rest) : isBlank c = false := by
  have hpre : stripChars cs <+: cs.dropWhile isBlank := List.rdropWhile_prefix isBlank _
  rw [h] at hpre
  obtain ⟨tail, htail⟩ := hpre
  have hhead := List.head?_dropWhile_not isBlank cs
  simpa [← htail] using hhead

end Text

/-! ## Descriptors -/

namespace Descriptor

section Readings
variable {cs t rest : List Char}

theorem fieldType_of_readType (h : readType cs = .ok (t, rest)) : FieldType t ∧ cs = t ++ rest := by
  fun_induction readType cs generalizing t rest with
  | case1 => cases h
  | case2 cs ih =>
    -- a bracket before another field type
    obtain ⟨⟨u, rest'⟩, hread, he⟩ := map_eq_ok.1 h
    obtain ⟨rfl, rfl⟩ := Prod.mk.inj he
    obtain ⟨hu, heq⟩ := ih hread
    exact ⟨.array hu, by rw [heq, List.cons_append]⟩
  | case3 => cases h
  | case4 => cases h
  | case5 cs name d rest' hdrop =>
    -- a class name up to the first semicolon
    rename_i hempty
    obtain ⟨rfl, rfl⟩ := Prod.mk.inj (Except.ok.inj h)
    obtain ⟨-, heq, hsemi⟩ := eq_of_drop_takeWhile hdrop
    refine ⟨.object (by simpa using hempty) hsemi, ?_⟩
    rw [List.cons_append, List.cons_append, List.append_assoc, List.singleton_append, ← heq]
  | case6 c cs _ _ hc =>
    obtain ⟨rfl, rfl⟩ := Prod.mk.inj (Except.ok.inj h)
    exact ⟨.primitive hc, rfl⟩
  | case7 => cases h

theorem readType_eq_ok : readType cs = .ok (t, rest) ↔ FieldType t ∧ cs = t ++ rest := by
  constructor
  · exact fieldType_of_readType
  · rintro ⟨ht, rfl⟩
    exact readType_append ht rest

theorem fieldTypes_of_readParams {fuel : Nat} {ts : List String} (h : readParams fuel cs = .ok (ts, rest)) :
    (∀ t ∈ ts, FieldType t.toList) ∧ cs = ts.flatMap String.toList ++ ')' :: rest := by
  fun_induction readParams fuel cs generalizing ts rest with
  | case1 => cases h
  | case2 _ cs =>
    obtain ⟨rfl, rfl⟩ := Prod.mk.inj (Except.ok.inj h)
    exact ⟨by simp, rfl⟩
  | case3 => cases h
  | case4 fuel cs _ _ ih =>
    -- a field type, and what is read after it
    obtain ⟨⟨t, after⟩, hread, h⟩ := bind_eq_ok.1 h
    obtain ⟨⟨us, rest'⟩, hus, h⟩ := bind_eq_ok.1 h
    obtain ⟨rfl, rfl⟩ := Prod.mk.inj (Except.ok.inj h)
    obtain ⟨ht, rfl⟩ := readType_eq_ok.1 hread
    obtain ⟨hall, rfl⟩ := ih _ hus
    exact ⟨by simpa using ⟨ht, hall⟩, by simp⟩

theorem eq_of_readResult {r : String} (h : readResult cs = .ok r) :
    (r = void ∨ FieldType r.toList) ∧ cs = r.toList := by
  unfold readResult at h
  split at h
  case isTrue hvoid =>
    cases h
    exact ⟨.inl rfl, by rw [← hvoid, String.toList_ofList]⟩
  case isFalse =>
    obtain ⟨⟨t, after⟩, hread, h⟩ := bind_eq_ok.1 h
    dsimp only at h
    split at h
    case isTrue hempty =>
      cases h
      obtain ⟨ht, rfl⟩ := readType_eq_ok.1 hread
      rw [String.toList_ofList, List.isEmpty_iff.1 hempty, List.append_nil]
      exact ⟨.inr ht, rfl⟩
    case isFalse => cases h

end Readings

/-- A text is accepted exactly if it is the written form of a descriptor, and it is read as that one. -/
theorem parse_eq_ok_iff {s : String} {d : Descriptor} : parse s = .ok d ↔ d.WellFormed ∧ s = d.text := by
  constructor
  · intro h
    unfold parse at h
    split at h
    case h_1 cs hs =>
      obtain ⟨⟨params, rest⟩, hparams, h⟩ := bind_eq_ok.1 h
      obtain ⟨r, hr, h⟩ := bind_eq_ok.1 h
      cases h
      obtain ⟨hall, rfl⟩ := fieldTypes_of_readParams hparams
      obtain ⟨hresult, rfl⟩ := eq_of_readResult hr
      exact ⟨⟨hall, hresult⟩, String.toList_inj.1 (by rw [hs, toList_text])⟩
    case h_2 => cases h
  · rintro ⟨hd, rfl⟩
    exact parse_text hd

/-! ## The grammar -/

/-- A field type: brackets, then the letter of a primitive type, or a class name between `L` and the first semicolon. -/
def IsFieldType (t : String) : Prop :=
  ∃ (depth : Nat) (base : List Char), t.toList = List.replicate depth '[' ++ base ∧
    ((∃ c ∈ "BCDFIJSZ".toList, base = [c]) ∨ ∃ name, name ≠ [] ∧ ';' ∉ name ∧ base = 'L' :: name ++ [';'])

/-- A text is a descriptor with these types: field types between parentheses, and another one or `V` after them. -/
structure Splits (s : String) (params : List String) (result : String) : Prop where
  parameters : ∀ t ∈ params, IsFieldType t
  returned : result = "V" ∨ IsFieldType result
  written : s = "(" ++ String.join params ++ ")" ++ result

theorem fieldType_replicate {base : List Char} (h : FieldType base) (depth : Nat) :
    FieldType (List.replicate depth '[' ++ base) := by
  induction depth with
  | zero => exact h
  | succ depth ih => exact .array ih

theorem fieldType_iff {t : String} : FieldType t.toList ↔ IsFieldType t := by
  unfold IsFieldType
  generalize t.toList = cs
  constructor
  · intro h
    induction h with
    | @primitive c hc => exact ⟨0, [c], rfl, .inl ⟨c, List.contains_iff_mem.1 hc, rfl⟩⟩
    | @object name hne hsemi => exact ⟨0, _, rfl, .inr ⟨name, hne, hsemi, rfl⟩⟩
    | array _ ih =>
      obtain ⟨depth, base, rfl, hbase⟩ := ih
      exact ⟨depth + 1, base, rfl, hbase⟩
  · rintro ⟨depth, base, rfl, ⟨c, hc, rfl⟩ | ⟨name, hne, hsemi, rfl⟩⟩
    · exact fieldType_replicate (.primitive (List.contains_iff_mem.2 hc)) depth
    · exact fieldType_replicate (.object hne hsemi) depth

theorem splits_iff {s : String} {d : Descriptor} : Splits s d.params d.result ↔ d.WellFormed ∧ s = d.text := by
  constructor
  · rintro ⟨hparams, hresult, rfl⟩
    exact ⟨⟨fun t ht => fieldType_iff.2 (hparams t ht), hresult.imp id fieldType_iff.2⟩, rfl⟩
  · rintro ⟨⟨hparams, hresult⟩, rfl⟩
    exact ⟨fun t ht => fieldType_iff.1 (hparams t ht), hresult.imp id fieldType_iff.1, rfl⟩

theorem parse_eq_ok_iff_splits {s : String} {d : Descriptor} : parse s = .ok d ↔ Splits s d.params d.result := by
  rw [parse_eq_ok_iff, splits_iff]

/-- A text is read as a descriptor exactly if it can be split into the types of one. Every other text is refused, with the
method that it was to describe. No text can be split in two ways. -/
theorem parse_iff_splits (s : String) :
    (∀ params result, parse s = .ok ⟨params, result⟩ ↔ Splits s params result) ∧
    ((∀ params result, ¬Splits s params result) → ∃ fault, parse s = .error fault ∧
      ∀ cls name, cls ≠ "" → name ≠ "" →
        Method.ofParts cls name s = .error ⟨.str (cls ++ "." ++ name ++ s), .descriptor fault⟩) ∧
    ∀ params result params' result', Splits s params result → Splits s params' result' →
      params = params' ∧ result = result' := by
  refine ⟨fun params result => parse_eq_ok_iff_splits, fun hnone => ?_, ?_⟩
  · cases hparse : parse s with
    | ok d => exact absurd (parse_eq_ok_iff_splits.1 hparse) (hnone _ _)
    | error fault =>
      refine ⟨fault, rfl, fun cls name hcls hname => ?_⟩
      simp [Method.ofParts, hparse, hcls, hname]
  · intro params result params' result' h h'
    have heq := (parse_eq_ok_iff_splits (d := ⟨params, result⟩)).2 h
    have heq' := (parse_eq_ok_iff_splits (d := ⟨params', result'⟩)).2 h'
    simpa using heq.symm.trans heq'

/-- The name of a class goes on to the first semicolon, whatever is in it, and it may not be empty. -/
theorem parse_iff_splits_nested :
    Splits "(La)(b[;[[I)V" ["La)(b[;", "[[I"] "V" ∧
    (∀ params result, Splits "(La)(b[;[[I)V" params result → params = ["La)(b[;", "[[I"] ∧ result = "V") ∧
    (∀ params result, ¬Splits "(L;)V" params result) ∧
    Method.ofParts "A" "f" "(L;)V" = .error ⟨.str "A.f(L;)V", .descriptor .unterminatedObject⟩ := by
  have hsplits : Splits "(La)(b[;[[I)V" ["La)(b[;", "[[I"] "V" := ((parse_iff_splits _).1 _ _).1 (by decide +kernel)
  have hrefused : parse "(L;)V" = .error .unterminatedObject := by decide +kernel
  have hnone : ∀ params result, ¬Splits "(L;)V" params result := by
    intro params result h
    have hparse := ((parse_iff_splits _).1 params result).2 h
    cases hrefused.symm.trans hparse
  obtain ⟨fault, hfault, hparts⟩ := (parse_iff_splits _).2.1 hnone
  cases hrefused.symm.trans hfault
  exact ⟨hsplits, fun params result h => (parse_iff_splits _).2.2 _ _ _ _ h hsplits, hnone,
    hparts "A" "f" (by decide) (by decide)⟩

end Descriptor

/-! ## Methods -/

namespace Method

section Spellings
variable {m : Method} {s : String}

theorem cutAtLastDot_eq_some {cs cls name : List Char} :
    cutAtLastDot cs = some (cls, name) ↔ cs = cls ++ '.' :: name ∧ '.' ∉ name := by
  constructor
  · intro h
    simp only [cutAtLastDot, List.length_reverse] at h
    split at h
    · cases h
    case h_2 d rest hdrop =>
      obtain ⟨rfl, rfl⟩ := Prod.mk.inj (Option.some.inj h)
      obtain ⟨-, heq, hdot⟩ := eq_of_drop_takeWhile hdrop
      refine ⟨?_, by simpa using hdot⟩
      have hrev := congrArg List.reverse heq
      simpa using hrev
  · rintro ⟨rfl, hdot⟩
    exact cutAtLastDot_append hdot

theorem ofParts_eq_ok {cls name text : String} : ofParts cls name text = .ok m ↔
    cls ≠ "" ∧ name ≠ "" ∧ ∃ d, Descriptor.parse text = .ok d ∧ m = ⟨cls, name, d⟩ := by
  unfold ofParts
  by_cases hempty : cls = "" ∨ name = ""
  · have htest : (cls.isEmpty || name.isEmpty) = true := by simpa using hempty
    simp only [htest, if_true, reduceCtorEq, false_iff]
    tauto
  · have htest : (cls.isEmpty || name.isEmpty) = false := by simpa using hempty
    rw [not_or] at hempty
    simp only [htest, Bool.false_eq_true, if_false, ne_eq, hempty, not_false_eq_true, true_and]
    cases Descriptor.parse text with
    | ok d => simp [eq_comm]
    | error fault => simp

/-- The parts that a signature is cut into. -/
theorem parts_of_ofSignature (h : ofSignature s = .ok m) : ∃ c cls name types,
    Text.stripChars s.toList = c :: cls ++ '.' :: name ++ '(' :: types ∧ '(' ∉ c :: cls ++ '.' :: name ∧ '.' ∉ name ∧
    ofParts (replaceChar '/' '.' (String.ofList (c :: cls))) (String.ofList name) (String.ofList ('(' :: types)) = .ok m := by
  simp only [ofSignature] at h
  generalize Text.stripChars s.toList = cs at h ⊢
  cases hdrop : cs.drop (cs.takeWhile (· != '(')).length with
  | nil => simp [hdrop] at h
  | cons d types =>
    obtain ⟨rfl, hcut, hparen⟩ := eq_of_drop_takeWhile hdrop
    simp only [hdrop, List.isEmpty_cons, Bool.false_eq_true, if_false] at h
    split at h
    case h_1 c cls name hhead =>
      obtain ⟨heq, hdot⟩ := cutAtLastDot_eq_some.1 hhead
      rw [heq] at hcut hparen
      exact ⟨c, cls, name, types, hcut, hparen, hdot, h⟩
    case h_2 => cases h

/-- A text is read as a method exactly if it spells the method. -/
theorem spelledBy_iff : m.SpelledBy s ↔ ofSignature s = .ok m := by
  refine ⟨ofSignature_spelled, fun h => ?_⟩
  obtain ⟨c, cls, name, types, hstrip, hparen, hdot, hparts⟩ := parts_of_ofSignature h
  obtain ⟨-, hname, d, hparse, rfl⟩ := ofParts_eq_ok.1 hparts
  obtain ⟨hd, htext⟩ := Descriptor.parse_eq_ok_iff.1 hparse
  obtain ⟨left, right, hleft, hright, hs⟩ := Text.exists_blanks s.toList
  simp only [List.mem_append, List.mem_cons, not_or] at hparen
  have hproper : (Method.mk (replaceChar '/' '.' (String.ofList (c :: cls))) (String.ofList name) d).Proper :=
    ⟨hname, by simpa using hdot, by simpa using hparen.2.2, hd⟩
  have hspelled := SpelledBy.signature hproper hleft hright (Text.head_stripChars hstrip)
    (by simpa using hparen.1) rfl
  rwa [String.toList_ofList, ← htext, String.toList_ofList, ← hstrip, ← hs, String.ofList_toList] at hspelled

/-! ### Other spellings -/

/-- A class as signatures give it: without a parenthesis, and not beginning with a blank. -/
def ClassText (cls : String) : Prop :=
  '(' ∉ cls.toList ∧ ∃ c rest, cls.toList = c :: rest ∧ Text.isBlank c = false

theorem toList_replaceChar (a b : Char) (s : String) :
    (replaceChar a b s).toList = s.toList.map fun c => if c = a then b else c := by
  rw [replaceChar, String.toList_ofList]

theorem ClassText.replaceChar {cls : String} (h : ClassText cls) {a b : Char} (hblank : Text.isBlank b = false)
    (hparen : b ≠ '(') : ClassText (replaceChar a b cls) := by
  obtain ⟨hcls, c, rest, hc, hfirst⟩ := h
  rw [ClassText, toList_replaceChar]
  constructor
  · intro hmem
    obtain ⟨x, hx, hreplaced⟩ := List.mem_map.1 hmem
    split at hreplaced
    · exact hparen hreplaced
    · exact hcls (hreplaced ▸ hx)
  · refine ⟨if c = a then b else c, _, by rw [hc, List.map_cons], ?_⟩
    split
    · exact hblank
    · exact hfirst

theorem SpelledBy.of_class {cls : String} (hm : m.Proper) (hcls : ClassText cls)
    (hclass : replaceChar '/' '.' cls = m.className) : m.SpelledBy (cls ++ "." ++ m.selector) := by
  obtain ⟨hparen, c, rest, hc, hfirst⟩ := hcls
  rw [hc] at hparen
  rw [← String.ofList_toList (s := cls), hc] at hclass
  have hspelled := SpelledBy.signature hm (List.forall_mem_nil _) (List.forall_mem_nil _) hfirst hparen hclass
  have htext : cls ++ "." ++ m.selector =
      String.ofList ([] ++ (c :: rest ++ '.' :: m.name.toList ++ m.descriptor.text.toList) ++ []) := by
    apply String.toList_inj.1
    simp [selector, hc]
  rwa [htext]

/-- A spelling gives the class of the method, with dots or slashes. -/
theorem SpelledBy.exists_class (h : m.SpelledBy s) :
    m.Proper ∧ ∃ cls, ClassText cls ∧ replaceChar '/' '.' cls = m.className := by
  cases h with
  | @signature left right cls c hm _ _ hc hparen hclass =>
    exact ⟨hm, String.ofList (c :: cls), ⟨by simpa using hparen, c, cls, by simp, hc⟩, hclass⟩

/-- To turn slashes into dots again changes nothing, even if all dots were turned into slashes in between. -/
theorem replaceChar_dots (cls : String) :
    replaceChar '/' '.' (replaceChar '/' '.' cls) = replaceChar '/' '.' cls ∧
    replaceChar '/' '.' (replaceChar '.' '/' (replaceChar '/' '.' cls)) = replaceChar '/' '.' cls := by
  constructor
  · apply String.toList_inj.1
    simp only [toList_replaceChar, List.map_map]
    apply List.map_congr_left
    intro c _
    by_cases hc : c = '/' <;> simp [hc]
  · apply String.toList_inj.1
    simp only [toList_replaceChar, List.map_map]
    apply List.map_congr_left
    intro c _
    by_cases hc : c = '/' <;> by_cases hc' : c = '.' <;> simp [hc, hc']

/-- The written form of a method is one of its spellings. -/
theorem SpelledBy.written (h : m.SpelledBy s) : m.SpelledBy m.signature := by
  obtain ⟨hm, cls, hcls, hclass⟩ := h.exists_class
  refine .of_class hm ?_ ?_
  · rw [← hclass]
    exact hcls.replaceChar (by decide) (by decide)
  · rw [← hclass, (replaceChar_dots cls).1]

/-- A method may be spelled with slashes in its class. -/
theorem SpelledBy.slashed (h : m.SpelledBy s) : m.SpelledBy (m.classPath ++ "." ++ m.selector) := by
  obtain ⟨hm, cls, hcls, hclass⟩ := h.exists_class
  refine .of_class hm ?_ ?_
  · rw [classPath, ← hclass]
    exact (hcls.replaceChar (by decide) (by decide)).replaceChar (by decide) (by decide)
  · rw [classPath, ← hclass, (replaceChar_dots cls).2]

end Spellings

/-- Blanks around a signature change nothing about how it is read. -/
theorem ofSignature_blanks {left right : String} (hleft : ∀ c ∈ left.toList, Text.isBlank c = true)
    (hright : ∀ c ∈ right.toList, Text.isBlank c = true) (s : String) :
    ofSignature (left ++ s ++ right) = ofSignature s := by
  have hstrip : Text.stripChars (left ++ s ++ right).toList = Text.stripChars s.toList := by
    rw [String.toList_append, String.toList_append, Text.stripChars_blanks hleft hright]
  simp only [ofSignature, hstrip]

/-- A method that a signature names is read back from its written form, and from the one with slashes in the class. Blanks
around the signature do not count. Methods that signatures name are the same exactly if their written forms are. -/
theorem ofSignature_roundTrip {s : String} {m : Method} (h : ofSignature s = .ok m) :
    ofSignature m.signature = .ok m ∧
    ofSignature (m.classPath ++ "." ++ m.selector) = .ok m ∧
    (∀ left right : String, (∀ c ∈ left.toList, Text.isBlank c = true) → (∀ c ∈ right.toList, Text.isBlank c = true) →
      ofSignature (left ++ s ++ right) = .ok m) ∧
    ∀ s' m', ofSignature s' = .ok m' → (m = m' ↔ m.signature = m'.signature) := by
  have hspelled : m.SpelledBy s := spelledBy_iff.2 h
  have hwritten : ofSignature m.signature = .ok m := ofSignature_spelled hspelled.written
  refine ⟨hwritten, ofSignature_spelled hspelled.slashed, fun left right hleft hright => ?_, fun s' m' h' => ?_⟩
  · rw [ofSignature_blanks hleft hright, h]
  · refine ⟨fun heq => by rw [heq], fun heq => ?_⟩
    have hwritten' : ofSignature m'.signature = .ok m' := ofSignature_spelled (spelledBy_iff.2 h').written
    rw [heq] at hwritten
    exact Except.ok.inj (hwritten.symm.trans hwritten')

end Method

/-- A method whose class begins with a dot, and whose parameter type has a dot and a parenthesis in it. -/
def Sample.dotted : Method := ⟨".shop.Cart", "add", ⟨["Lx.(y;"], "[I"⟩⟩

/-- The same method of the class without the dot. -/
def Sample.undotted : Method := ⟨"shop.Cart", "add", ⟨["Lx.(y;"], "[I"⟩⟩

/-- The class may be given with a leading slash, with dots only or with slashes throughout, and with blanks around. Without
the leading slash it is another class. -/
theorem Method.ofSignature_roundTrip_dotted :
    ofSignature "/shop.Cart.add(Lx.(y;)[I" = .ok Sample.dotted ∧
    ofSignature ".shop.Cart.add(Lx.(y;)[I" = .ok Sample.dotted ∧
    ofSignature "/shop/Cart.add(Lx.(y;)[I" = .ok Sample.dotted ∧
    ofSignature "\t /shop.Cart.add(Lx.(y;)[I\n\u3000" = .ok Sample.dotted ∧
    ofSignature "shop/Cart.add(Lx.(y;)[I" = .ok Sample.undotted ∧
    Sample.dotted.signature ≠ Sample.undotted.signature := by
  have hread : ofSignature "/shop.Cart.add(Lx.(y;)[I" = .ok Sample.dotted := by rfl
  have hread' : ofSignature "shop/Cart.add(Lx.(y;)[I" = .ok Sample.undotted := by rfl
  obtain ⟨hwritten, hslashed, hblanks, hsame⟩ := ofSignature_roundTrip hread
  refine ⟨hread, hwritten, hslashed, ?_, hread', fun heq => ?_⟩
  · exact hblanks "\t " "\n\u3000" (List.all_eq_true.1 (by decide)) (List.all_eq_true.1 (by decide))
  · exact absurd ((hsame _ _ hread').2 heq) (by decide)

end ForwardSlicing
