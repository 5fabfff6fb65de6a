import ForwardSlicing.Proofs.StatementOrder
import ForwardSlicing.Report.Text
/-!
# Groups of statements

Reports group the statements of a slice by context. The order of statements compares contexts first, so the statements of
a context stand together in it. `Loaded.groups_groupsOf`: each context heads one group, and the groups, one after the other,
list the statements in order.
-/

namespace ForwardSlicing

theorem distinct_sublist {α : Type} [BEq α] : ∀ xs : List α, (distinct xs).Sublist xs
  | [] => .slnil
  | x :: xs => (List.filter_sublist.trans (distinct_sublist xs)).cons_cons x

/-! ## The order of contexts -/

/-- The order of contexts in reports: by signature, then by name. -/
def Context.compare (c d : Context) : Ordering :=
  (Text.compare c.method.signature d.method.signature).then (Text.compare c.name d.name)

namespace Statement

variable {s t : Statement}

/-- Statements are compared by context first. -/
theorem lt_of_context_lt (h : Context.compare s.context t.context = .lt) : compare s t = .lt := by
  rw [compare, ← Ordering.then_assoc, show Ordering.then _ _ = Ordering.lt from h]
  rfl

theorem context_isLE_of_lt (h : compare s t = .lt) : (Context.compare s.context t.context).isLE = true := by
  rw [compare, ← Ordering.then_assoc] at h
  rw [Context.compare]
  revert h
  cases (Text.compare s.context.method.signature t.context.method.signature).then
    (Text.compare s.context.name t.context.name) with
  | lt => intro _; rfl
  | eq => intro _; rfl
  | gt => intro h; cases h

end Statement

namespace Model

variable {m : Model}

/-- Different nodes of a loaded model do not tie. -/
theorem Loaded.contexts_apart (h : m.Loaded) {c d : Context} (hc : c ∈ m.calls.nodes) (hd : d ∈ m.calls.nodes)
    (htie : Context.compare c d = .eq) : (c == d) = true := by
  rw [Context.compare, Ordering.then_eq_eq, Text.compare_eq_iff, Text.compare_eq_iff] at htie
  obtain ⟨_, hspelled⟩ := h.spelled hc
  obtain ⟨_, hspelled'⟩ := h.spelled hd
  rw [Context.beq_iff, Context.key, Context.key, hspelled.eq_of_signature hspelled' htie.1, htie.2]

end Model

/-! ## Groups -/

namespace Report

/-- Groups of the statements of a slice: different contexts head them, none is empty, each has statements of its context,
and one after the other they list the slice in order. -/
structure Groups (slice : List Statement) (groups : List (Context × List Statement)) : Prop where
  heads : (groups.map (·.1)).Nodup
  nonempty : ∀ group ∈ groups, group.2 ≠ []
  member : ∀ group ∈ groups, ∀ s ∈ group.2, s.context = group.1
  inOrder : Statement.InOrder slice (groups.flatMap (·.2))

/-- The contexts of some statements. -/
def headsOf (order : List Statement) : List Context := distinct (order.map (·.context))

/-- The groups of some statements. -/
def groupsOf (order : List Statement) : List (Context × List Statement) :=
  (headsOf order).map fun c => (c, order.filter (·.context == c))

theorem byContext_eq (slice : List Statement) : byContext slice = groupsOf (Statement.sorted slice) := rfl

end Report

namespace Model

open Report

section Groups
variable {m : Model} (hm : m.Loaded) {slice order : List Statement} (hslice : ∀ s ∈ slice, m.calls.Holds s)
  (h : Statement.InOrder slice order)
include hm hslice h

theorem Loaded.mem_headsOf {c : Context} : c ∈ headsOf order ↔ ∃ s ∈ slice, s.context = c := by
  have hnode : ∀ c ∈ order.map (·.context), c ∈ {c | c ∈ m.calls.nodes} := by
    intro c hc
    obtain ⟨s, hs, rfl⟩ := List.mem_map.1 hc
    exact (hslice s (h.mem_iff.1 hs)).node
  rw [headsOf, hm.wellFormed.oneBody.exactOn.mem_distinct hnode, List.mem_map]
  simp only [h.mem_iff]

/-- The statements of a group are those of its context. -/
theorem Loaded.mem_group {c : Context} (hc : c ∈ headsOf order) {s : Statement} :
    s ∈ order.filter (·.context == c) ↔ s ∈ slice ∧ s.context = c := by
  obtain ⟨t, ht, rfl⟩ := (hm.mem_headsOf hslice h).1 hc
  rw [List.mem_filter, h.mem_iff]
  constructor
  · rintro ⟨hs, heq⟩
    exact ⟨hs, hm.wellFormed.eq_of_beq (hslice s hs).node (hslice t ht).node heq⟩
  · rintro ⟨hs, heq⟩
    simp [hs, heq]

/-- The contexts of statements in order are in order. -/
theorem Loaded.heads_ascending : (headsOf order).Pairwise (fun c d => Context.compare c d = .lt) := by
  have hle : (order.map (·.context)).Pairwise (fun c d => (Context.compare c d).isLE = true) :=
    List.pairwise_map.2 (h.ascending.imp Statement.context_isLE_of_lt)
  apply ((apart_distinct _).and (hle.sublist (distinct_sublist _))).imp_of_mem
  rintro c d hc hd ⟨hne, hcd⟩
  obtain ⟨s, hs, rfl⟩ := (hm.mem_headsOf hslice h).1 hc
  obtain ⟨t, ht, rfl⟩ := (hm.mem_headsOf hslice h).1 hd
  cases hcmp : Context.compare s.context t.context with
  | lt => rfl
  | eq => simp [hm.contexts_apart (hslice s hs).node (hslice t ht).node hcmp] at hne
  | gt => simp [hcmp] at hcd

/-- The groups list the statements in order. -/
theorem Loaded.inOrder_groupsOf : Statement.InOrder slice ((groupsOf order).flatMap (·.2)) := by
  have hlt : ((groupsOf order).flatMap (·.2)).Pairwise (Statement.compare · · = .lt) := by
    rw [groupsOf, List.flatMap_map, List.pairwise_flatMap]
    refine ⟨fun c _ => h.ascending.filter _, ?_⟩
    apply (hm.heads_ascending hslice h).imp_of_mem
    intro c d hc hd hcd s hs t ht
    obtain ⟨-, rfl⟩ := (hm.mem_group hslice h hc).1 hs
    obtain ⟨-, rfl⟩ := (hm.mem_group hslice h hd).1 ht
    exact Statement.lt_of_context_lt hcd
  have hmem : ∀ s, s ∈ (groupsOf order).flatMap (·.2) ↔ s ∈ order := by
    intro s
    simp only [groupsOf, List.flatMap_map, List.mem_flatMap]
    constructor
    · rintro ⟨c, -, hs⟩
      exact List.mem_of_mem_filter hs
    · intro hs
      have hc : s.context ∈ headsOf order := (hm.mem_headsOf hslice h).2 ⟨s, h.mem_iff.1 hs, rfl⟩
      exact ⟨s.context, hc, (hm.mem_group hslice h hc).2 ⟨h.mem_iff.1 hs, rfl⟩⟩
  have hnodup : ((groupsOf order).flatMap (·.2)).Nodup := Statement.nodup_of_ascending hlt
  exact ⟨((List.perm_ext_iff_of_nodup hnodup h.nodup).2 hmem).trans h.perm, hlt⟩

theorem Loaded.groups_groupsOf : Groups slice (groupsOf order) where
  heads := by
    simp only [groupsOf, List.map_map, Function.comp_def, List.map_id']
    exact nodup_distinct _
  nonempty := by
    intro group hgroup
    obtain ⟨c, hc, rfl⟩ := List.mem_map.1 hgroup
    obtain ⟨s, hs, rfl⟩ := (hm.mem_headsOf hslice h).1 hc
    exact List.ne_nil_of_mem ((hm.mem_group hslice h hc).2 ⟨hs, rfl⟩)
  member := by
    intro group hgroup s hs
    obtain ⟨c, hc, rfl⟩ := List.mem_map.1 hgroup
    exact ((hm.mem_group hslice h hc).1 hs).2
  inOrder := hm.inOrder_groupsOf hslice h

omit h in
/-- The groups of a slice, one after the other, are the sorted slice. -/
theorem Loaded.flatMap_byContext (hn : slice.Nodup) : (byContext slice).flatMap (·.2) = Statement.sorted slice := by
  have ho := hm.inOrder_sorted hn hslice
  exact (hm.inOrder_groupsOf hslice ho).unique ho fun _ => Iff.rfl

end Groups
end Model
end ForwardSlicing
