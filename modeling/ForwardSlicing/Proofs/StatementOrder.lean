import Mathlib.Data.List.Sort
import ForwardSlicing.Proofs.CodePoint
import ForwardSlicing.Proofs.Reading
import ForwardSlicing.Proofs.SignatureGrammar
import ForwardSlicing.Proofs.Statement
/-!
# The order of statements

Reports sort statements by signature, context name, index, kind and argument. This orders all statements, up to ties. The
methods of a loaded model are named by signatures, and a signature names one method only, so two statements of the model
that tie are the same (`Loaded.apart`). Hence a report lists statements in order (`Loaded.inOrder_sorted`), and a set of
statements has one list in order, whatever list it is sorted from (`InOrder.unique`).
-/

namespace ForwardSlicing

open Std

section Comparisons
variable {α β : Type}

/-- A comparison of values by what a function makes of them. -/
theorem transCmp_on {cmp : β → β → Ordering} (h : TransCmp cmp) (f : α → β) : TransCmp fun a b => cmp (f a) (f b) where
  eq_swap := h.eq_swap
  isLE_trans := h.isLE_trans

theorem transCmp_then {cmp cmp' : α → α → Ordering} (h : TransCmp cmp) (h' : TransCmp cmp') :
    TransCmp fun a b => (cmp a b).then (cmp' a b) :=
  inferInstanceAs (TransCmp (compareLex cmp cmp'))

end Comparisons

/-! ## Texts -/

namespace Text

theorem transCmp_compare : TransCmp Text.compare :=
  transCmp_on (inferInstanceAs (TransCmp (List.compareLex (Ord.compare : Nat → Nat → Ordering)))) codePoints

theorem compare_eq_iff {s t : String} : compare s t = .eq ↔ s = t := by
  rw [compare, LawfulEqCmp.compare_eq_iff_eq, codePoints_injective.eq_iff]

end Text

/-! ## Statements -/

namespace Statement

theorem transCmp_position {α : Type} (whole : α → Int) (fraction : α → Nat) :
    TransCmp fun a b => comparePosition (whole a) (whole b) (fraction a) (fraction b) :=
  transCmp_then (transCmp_on inferInstance whole) (transCmp_on inferInstance fraction)

instance : TransCmp Statement.compare :=
  transCmp_then (transCmp_on Text.transCmp_compare fun s : Statement => s.context.method.signature) <|
  transCmp_then (transCmp_on Text.transCmp_compare fun s : Statement => s.context.name) <|
  transCmp_then (transCmp_position sortIndex fun s => s.fractions.1) <|
  transCmp_then (transCmp_on Text.transCmp_compare fun s : Statement => s.kind.text) <|
  transCmp_position sortArgument fun s => s.fractions.2

theorem kind_text_injective : Function.Injective StatementKind.text := by
  intro k k' h
  have hread : ∀ k : StatementKind, StatementKind.ofText? k.text = some k := by
    intro k
    cases k <;> decide
  exact Option.some.inj ((hread k).symm.trans (h ▸ hread k'))

theorem comparePosition_eq {a b : Int} {m n : Nat} : comparePosition a b m n = .eq ↔ a = b ∧ m = n := by
  simp only [comparePosition, Ordering.then_eq_eq, LawfulEqCmp.compare_eq_iff_eq]

/-- Points of one kind are equal if the positions that they have are. -/
theorem point_eq_of_kind {s t : Statement} (hkind : s.kind = t.kind)
    (hindex : s.point.index?.isSome = true → t.point.index?.isSome = true → s.sortIndex = t.sortIndex)
    (hargument : s.point.argument?.isSome = true → t.point.argument?.isSome = true → s.sortArgument = t.sortArgument) :
    s.point = t.point := by
  obtain ⟨c, p, sp⟩ := s
  obtain ⟨d, q, sq⟩ := t
  cases p <;> cases q <;>
    simp_all [kind, Point.kind, sortIndex, sortArgument, Point.index?, Point.argument?]

/-- Statements tie exactly if they are equal and their methods are written in the same way. -/
theorem compare_eq_iff {s t : Statement} : compare s t = .eq ↔
    s.context.method.signature = t.context.method.signature ∧ s.context.name = t.context.name ∧ s.point = t.point ∧
      s.fractions = t.fractions := by
  simp only [compare, Ordering.then_eq_eq, Text.compare_eq_iff, comparePosition_eq, Prod.ext_iff]
  constructor
  · rintro ⟨hsignature, hname, ⟨hindex, hfst⟩, hkind, hargument, hsnd⟩
    have hpoint := point_eq_of_kind (kind_text_injective hkind) (fun _ _ => hindex) fun _ _ => hargument
    exact ⟨hsignature, hname, hpoint, hfst, hsnd⟩
  · rintro ⟨hsignature, hname, hpoint, hfst, hsnd⟩
    simp [hsignature, hname, kind, sortIndex, sortArgument, hpoint, hfst, hsnd]

/-! ## Lists in order -/

/-- The list has the statements of a slice in the order of reports, where no two of them tie. -/
structure InOrder (slice order : List Statement) : Prop where
  perm : order.Perm slice
  ascending : order.Pairwise (compare · · = .lt)

variable {slice slice' order order' : List Statement}

/-- To sort statements that do not tie puts them in order. -/
theorem inOrder_sorted (hn : slice.Nodup) (hapart : ∀ s ∈ slice, ∀ t ∈ slice, compare s t = .eq → s = t) :
    InOrder slice (sorted slice) := by
  have hperm : (sorted slice).Perm slice := List.mergeSort_perm slice le
  have hle : (sorted slice).Pairwise (fun s t => le s t = true) := by
    refine List.pairwise_mergeSort (fun _ _ _ => TransCmp.isLE_trans) (fun s t => ?_) slice
    have hswap : compare t s = (compare s t).swap := OrientedCmp.eq_swap
    rw [le, le, hswap]
    cases compare s t <;> rfl
  refine ⟨hperm, ((hperm.nodup_iff.2 hn).and hle).imp_of_mem fun {s t} hs ht hst => ?_⟩
  cases hcmp : compare s t with
  | lt => rfl
  | eq => exact absurd (hapart s (hperm.mem_iff.1 hs) t (hperm.mem_iff.1 ht) hcmp) hst.1
  | gt =>
    have : (compare s t).isLE = true := hst.2
    rw [hcmp] at this
    cases this

theorem not_lt_and_lt {s t : Statement} (h : compare s t = .lt) (h' : compare t s = .lt) : False := by
  rw [OrientedCmp.gt_of_lt h] at h'
  cases h'

theorem nodup_of_ascending (h : order.Pairwise (compare · · = .lt)) : order.Nodup := by
  refine h.imp fun {s t} hlt (heq : s = t) => ?_
  subst heq
  exact not_lt_and_lt hlt hlt

theorem InOrder.mem_iff (h : InOrder slice order) {s : Statement} : s ∈ order ↔ s ∈ slice := h.perm.mem_iff

theorem InOrder.nodup (h : InOrder slice order) : order.Nodup := nodup_of_ascending h.ascending

/-- A set of statements has one list in order. -/
theorem InOrder.unique (h : InOrder slice order) (h' : InOrder slice' order') (hmem : ∀ s, s ∈ slice ↔ s ∈ slice') :
    order = order' := by
  have hperm : order.Perm order' := (List.perm_ext_iff_of_nodup h.nodup h'.nodup).2 fun s => by
    rw [h.mem_iff, h'.mem_iff, hmem]
  exact hperm.eq_of_pairwise (fun _ _ _ _ hst hts => (not_lt_and_lt hst hts).elim) h.ascending h'.ascending

end Statement

/-! ## Loaded models -/

/-- Methods that texts name are known by their signatures. -/
theorem Method.SpelledBy.eq_of_signature {m m' : Method} {s s' : String} (h : m.SpelledBy s) (h' : m'.SpelledBy s')
    (heq : m.signature = m'.signature) : m = m' := by
  have hread : ofSignature m.signature = .ok m := ofSignature_spelled h.written
  have hread' : ofSignature m'.signature = .ok m' := ofSignature_spelled h'.written
  exact Except.ok.inj (hread.symm.trans (heq ▸ hread'))

namespace Model

/-- The method of every node is named by a text. -/
theorem Loaded.spelled {m : Model} (h : m.Loaded) {c : Context} (hc : c ∈ m.calls.nodes) : ∃ s, c.method.SpelledBy s := by
  obtain ⟨excludes, doc, cat, name, -, hload⟩ := h
  unfold Catalog.load at hload
  rw [bind_eq_ok] at hload
  obtain ⟨fields, -, hm⟩ := hload
  obtain ⟨a, ha, rfl⟩ := Catalog.modelOf_eq_ok.1 hm
  obtain ⟨id, hid⟩ := (ha.mem_nodes _).1 hc
  obtain ⟨items, -, hitems⟩ := ha.contexts
  obtain ⟨v, -, hv⟩ := exists_of_mem_forall₂ hitems hid
  cases hv with
  | @kept _ _ _ signature m p _ _ hsignature _ hp _ =>
    have hmethod : p.method = m := by simpa using List.find?_some hp
    subst hmethod
    cases signature with
    | str s => exact ⟨s, Method.spelledBy_iff.2 hsignature⟩
    | _ => cases hsignature

/-- Different statements of a loaded model do not tie. -/
theorem Loaded.apart {m : Model} (h : m.Loaded) {s t : Statement} (hs : m.calls.Holds s) (ht : m.calls.Holds t)
    (htie : Statement.compare s t = .eq) : s = t := by
  obtain ⟨hsignature, hname, hpoint, hfractions⟩ := Statement.compare_eq_iff.1 htie
  obtain ⟨_, hspelled⟩ := h.spelled hs.node
  obtain ⟨_, hspelled'⟩ := h.spelled ht.node
  have hmethod : s.context.method = t.context.method := hspelled.eq_of_signature hspelled' hsignature
  refine h.wellFormed.exactOn_holds s hs t ht (Statement.beq_iff.2 ?_)
  rw [Statement.key, Statement.key, Context.key, Context.key, hmethod, hname, hpoint, hfractions]

/-- A report of a loaded model lists statements in order. -/
theorem Loaded.inOrder_sorted {m : Model} (h : m.Loaded) {slice : List Statement} (hn : slice.Nodup)
    (hslice : ∀ s ∈ slice, m.calls.Holds s) : Statement.InOrder slice (Statement.sorted slice) :=
  Statement.inOrder_sorted hn fun s hs t ht => h.apart (hslice s hs) (hslice t ht)

end Model
end ForwardSlicing
