import Mathlib.Data.List.Basic
import ForwardSlicing.Text.CodePoint
/-!
# Texts and their code points

Every list of code points has a text, which is read back as that list (`codePoints_ofCodePoints`), and no two texts are read
as one list (`codePoints_injective`). So a surrogate without a partner is never confused with a character, and texts may be
compared by their code points.
-/

namespace ForwardSlicing.Text

theorem isSurrogate_iff {n : Nat} : isSurrogate n = true ↔ 0xd800 ≤ n ∧ n ≤ 0xdfff := by
  simp only [isSurrogate, isHighSurrogate, isLowSurrogate, Bool.or_eq_true, Bool.and_eq_true, decide_eq_true_eq]
  omega

theorem isReserved_iff {n : Nat} : isReserved n = true ↔ 0xdd800 ≤ n ∧ n ≤ 0xde000 := by
  simp only [isReserved, Bool.or_eq_true, Bool.and_eq_true, decide_eq_true_eq, isSurrogate_iff, beq_iff_eq]
  unfold surrogatePlane mark
  omega

theorem toNat_valid (c : Char) : c.toNat < 0xd800 ∨ (0xdfff < c.toNat ∧ c.toNat < 0x110000) := c.valid

theorem not_isSurrogate_toNat (c : Char) : isSurrogate c.toNat = false := by
  rw [← Bool.not_eq_true, isSurrogate_iff]
  have := toNat_valid c
  omega

theorem toNat_ofNat {n : Nat} (hn : n < 0x110000) (hs : isSurrogate n = false) : (Char.ofNat n).toNat = n := by
  rw [← Bool.not_eq_true, isSurrogate_iff] at hs
  have hvalid : n.isValidChar := by
    unfold Nat.isValidChar
    omega
  rw [Char.ofNat, dif_pos hvalid]
  rfl

/-! ## From code points to a text and back -/

/-- A character that is no mark stands for a code point of its own. -/
theorem codePointsOf_cons {c : Char} (h : c.toNat ≠ mark) (cs : List Char) :
    codePointsOf (c :: cs) = codePoint c :: codePointsOf cs := by
  cases cs with
  | nil => rfl
  | cons d cs => simp [codePointsOf, h]

/-- The characters that hold a code point are read as that code point, whatever follows them. -/
theorem codePointsOf_ofCodePoint {n : Nat} (hn : n < codePointCount) (cs : List Char) :
    codePointsOf (ofCodePoint n ++ cs) = n :: codePointsOf cs := by
  unfold codePointCount at hn
  unfold ofCodePoint
  split
  case isTrue hs =>
    rw [isSurrogate_iff] at hs
    have htoNat : (Char.ofNat (surrogatePlane + n)).toNat = surrogatePlane + n := by
      apply toNat_ofNat
      · unfold surrogatePlane; omega
      · rw [← Bool.not_eq_true, isSurrogate_iff]
        unfold surrogatePlane
        omega
    have hreserved : isReserved (surrogatePlane + n) = true := by
      rw [isReserved_iff]
      unfold surrogatePlane
      omega
    have hmark : surrogatePlane + n ≠ mark := by
      unfold surrogatePlane mark
      omega
    rw [List.singleton_append, codePointsOf_cons (by rwa [htoNat]), codePoint, htoNat, if_neg hmark, if_pos hreserved,
      Nat.add_sub_cancel_left]
  case isFalse hs =>
    have htoNat : (Char.ofNat n).toNat = n := toNat_ofNat hn (by simpa using hs)
    split
    case isTrue hr =>
      have hmark : (Char.ofNat mark).toNat = mark := rfl
      simp [codePointsOf, hmark, htoNat, hr]
    case isFalse hr =>
      have hmark : n ≠ mark := by
        rintro rfl
        exact hr rfl
      rw [List.singleton_append, codePointsOf_cons (by rwa [htoNat]), codePoint, htoNat, if_neg hmark, if_neg hr]

theorem codePointsOf_flatMap : ∀ {ns : List Nat}, (∀ n ∈ ns, n < codePointCount) →
    codePointsOf (ns.flatMap ofCodePoint) = ns
  | [], _ => rfl
  | n :: ns, h => by
    obtain ⟨hn, hns⟩ := List.forall_mem_cons.1 h
    rw [List.flatMap_cons, codePointsOf_ofCodePoint hn, codePointsOf_flatMap hns]

/-- The text of code points, which may be lone surrogates, is read back as these code points. -/
theorem codePoints_ofCodePoints {ns : List Nat} (h : ∀ n ∈ ns, n < codePointCount) : codePoints (ofCodePoints ns) = ns := by
  rw [codePoints, ofCodePoints, String.toList_ofList, codePointsOf_flatMap h]

/-! ## From a text to code points and back -/

/-- The characters that stand for a code point, or for a mark without a character to be marked. -/
def held (n : Nat) : List Char := if n = codePointCount then [Char.ofNat mark] else ofCodePoint n

theorem held_codePoint (c : Char) : held (codePoint c) = [c] := by
  have hvalid := toNat_valid c
  unfold codePoint
  split
  case isTrue hmark =>
    rw [held, if_pos rfl, ← hmark, Char.ofNat_toNat]
  case isFalse hmark =>
    split
    case isTrue hr =>
      rw [isReserved_iff] at hr
      have hs : isSurrogate (c.toNat - surrogatePlane) = true := by
        rw [isSurrogate_iff]
        unfold surrogatePlane
        unfold mark at hmark
        omega
      have hcount : c.toNat - surrogatePlane ≠ codePointCount := by
        unfold codePointCount
        omega
      have hback : surrogatePlane + (c.toNat - surrogatePlane) = c.toNat := by
        unfold surrogatePlane
        omega
      rw [held, if_neg hcount, ofCodePoint, if_pos hs, hback, Char.ofNat_toNat]
    case isFalse hr =>
      have hcount : c.toNat ≠ codePointCount := by
        unfold codePointCount
        omega
      rw [held, if_neg hcount, ofCodePoint, if_neg (by simp [not_isSurrogate_toNat]), if_neg hr, Char.ofNat_toNat]

/-- A character behind a mark is held with the mark. -/
theorem held_marked {d : Char} (h : isReserved d.toNat = true) : held d.toNat = [Char.ofNat mark, d] := by
  have hvalid := toNat_valid d
  have hcount : d.toNat ≠ codePointCount := by
    unfold codePointCount
    omega
  rw [held, if_neg hcount, ofCodePoint, if_neg (by simp [not_isSurrogate_toNat]), if_pos h, Char.ofNat_toNat]

theorem flatMap_held (cs : List Char) : (codePointsOf cs).flatMap held = cs := by
  fun_induction codePointsOf cs with
  | case1 => rfl
  | case2 c => rw [List.flatMap_singleton, held_codePoint]
  | case3 c d cs h ih =>
    rw [List.flatMap_cons, ih, held_marked h.2, ← h.1, Char.ofNat_toNat]
    rfl
  | case4 c d cs _ ih => rw [List.flatMap_cons, ih, held_codePoint, List.singleton_append]

/-- Texts with the same code points are the same. -/
theorem codePoints_injective : Function.Injective codePoints := by
  intro s t h
  rw [← String.toList_inj, ← flatMap_held s.toList, ← flatMap_held t.toList]
  exact congrArg (List.flatMap held) h

end ForwardSlicing.Text
