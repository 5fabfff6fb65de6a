import Mathlib.Algebra.BigOperators.Group.List.Basic
import ForwardSlicing.Proofs.DotLines
import ForwardSlicing.Proofs.SeedSlices
/-!
# DOT graphs are dependence graphs

The text of a DOT graph is read line by line, as `Dot.lines` does. What is read are the statements of the slice, numbered in
order, and the dependences between two of them (`Depicts`). A slice is closed under dependence, and then no edge is missing
(`mem_of_successorsBy`).
-/

namespace ForwardSlicing

open Dot

namespace Report

/-- The text draws a slice: whatever looks like a node is read as a statement, numbered in order, and whatever looks like an
edge is read as a dependence between two of them. -/
structure Depicts (g : DependenceGraph) (data control : Level) (slice order : List Statement) (edges : List Edge)
    (out : String) : Prop where
  inOrder : Statement.InOrder slice order
  nodes_eq : ((lines out).filter isNode).map node? = order.zipIdx.map fun e => some ("s" ++ e.2.repr, e.1.label)
  edges_eq : ((lines out).filter isEdge).map Dot.edge? = edges.map fun e => some e.drawn
  nodup : edges.Nodup
  mem_edges : ∀ e, e ∈ edges ↔ ∃ s t, order[e.source]? = some s ∧ order[e.target]? = some t ∧
    t ∈ g.successorsBy data control e.kind s

end Report

/-! ## Slices of loaded models -/

/-- A slice leaves out no successor of a member. -/
theorem DependenceGraph.mem_of_successorsBy {g : DependenceGraph} (data control : Level) (limit : Option Int)
    (hg : g.calls.WellFormed) {seeds slice : List Statement} (hseeds : ∀ s ∈ seeds, g.calls.Holds s) {x : Index}
    (hx : x.Sound g.calls) (hslice : (g.forwardSlice data control limit seeds x).1 = .ok slice) {s t : Statement}
    (hs : s ∈ slice) {kind : DependenceKind} (ht : t ∈ g.successorsBy data control kind s) : t ∈ slice := by
  have hout := outcome_forwardSlice data control limit hg hseeds hx
  rw [hslice] at hout
  have hmem := (within_of_ok hout).2
  have hreach := (hmem s).1 hs
  have hheld : g.calls.Holds s := holds_of_mem_closure hg hseeds hreach
  have hdep := ((successorsBy_spec data control kind hg hheld).2 t).1 ht
  have hsucc := (successor_iff data control hg hheld).2 ((depends_iff data control).2 ⟨kind, hdep⟩)
  exact (hmem t).2 (Search.reach_step hreach hsucc)

namespace Model

open Report

/-- Every slice is drawn, with different ids for its nodes, and its edges are drawn differently. A slice that was computed
leaves out no dependence. -/
theorem dot_exact {m : Model} (hm : m.Loaded) (data control : Level) {slice : List Statement} (hn : slice.Nodup)
    (hmade : ∀ s ∈ slice, m.calls.Made s) {x : Index} (hx : x.Sound m.calls) :
    (∀ s ∈ slice, ∀ kind y, y.Sound m.calls → (m.dependence.kindSuccessors data control kind s y).1 =
      .ok (m.dependence.successorsBy data control kind s)) ∧
    Function.Injective (fun k : Nat => "s" ++ k.repr) ∧ Function.Injective Edge.drawn ∧
    ∃ out order edges, (dot m.dependence data control slice x).1 = .ok out ∧
      Depicts m.dependence data control slice order edges out ∧
      ∀ limit seeds y result, (∀ s ∈ seeds, m.calls.Made s) → y.Sound m.calls →
        (m.dependence.forwardSlice data control limit seeds y).1 = .ok result → (∀ s, s ∈ slice ↔ s ∈ result) →
        (∀ s ∈ slice, ∀ kind, ∀ t ∈ m.dependence.successorsBy data control kind s, t ∈ slice) ∧
        ((Dot.lines out).filter Dot.isEdge).length = (slice.map fun s =>
          (m.dependence.successorsBy data control .data s).length +
          (m.dependence.successorsBy data control .control s).length).sum := by
  have hg := hm.wellFormed
  have hholds : ∀ s ∈ slice, m.calls.Holds s := fun s hs => (hmade s hs).holds
  have ho := hm.inOrder_sorted hn hholds
  have horder : ∀ s ∈ Statement.sorted slice, m.calls.Holds s := fun s hs => hholds s (ho.mem_iff.1 hs)
  have hdraws := draws_graphLines (byContext slice)
    (edgesAmong m.dependence data control (Statement.sorted slice) (Statement.sorted slice))
  have hlines := Dot.lines_intercalate hdraws.closed (by simp [graphLines])
  have hnodup := nodup_edgesAmong (g := m.dependence) data control hg horder ho.nodup
  refine ⟨fun s hs kind y hy => ?_, name_injective, drawn_injective, _, _, _, hm.dot_eq data control hn hholds hx,
    ⟨ho, ?_, ?_, hnodup, fun e => mem_edgesAmong data control hg horder ho.nodup⟩, ?_⟩
  · obtain ⟨z, hz, -⟩ := m.dependence.kindSuccessors_eq data control kind hg (hholds s hs) hy
    rw [hz]
  · rw [hlines, hdraws.nodes, hm.flatMap_byContext hholds hn, nodes_nodeLines]
  · simp only [hlines, hdraws.edges, List.map_map, Function.comp_def, edge?_line]
  · intro limit seeds y result hseeds hy hresult hsame
    have hclosed : ∀ s ∈ slice, ∀ kind, ∀ t ∈ m.dependence.successorsBy data control kind s, t ∈ slice := by
      intro s hs kind t ht
      have hheld : ∀ s ∈ seeds, m.calls.Holds s := fun s hs => (hseeds s hs).holds
      rw [hsame]
      exact m.dependence.mem_of_successorsBy data control limit hg hheld hy hresult ((hsame s).1 hs) ht
    refine ⟨hclosed, ?_⟩
    rw [hlines, hdraws.edges, List.length_map, length_edgesAmong data control hg horder ho.nodup]
    · exact (ho.perm.map _).sum_eq
    · intro s hs kind t ht
      exact ho.mem_iff.2 (hclosed s (ho.mem_iff.1 hs) kind t ht)

theorem dot_exact_store : ∃ slice out order edges,
    (Sample.coarse.dependence.forwardSlice .full .full none [Sample.store] {}).1 = .ok slice ∧
    (∀ s ∈ slice, Sample.coarse.calls.Made s) ∧
    (dot Sample.coarse.dependence .full .full slice {}).1 = .ok out ∧
    Depicts Sample.coarse.dependence .full .full slice order edges out ∧
    (∃ a b : Nat, order[a]? = some Sample.store ∧ order[b]? = some (.of (Sample.merged Sample.walk) (.normal 0)) ∧
      some ("s" ++ a.repr, "s" ++ b.repr, "[style=solid];") ∈ ((Dot.lines out).filter Dot.isEdge).map Dot.edge?) ∧
    ((Dot.lines out).filter Dot.isEdge).length = (slice.map fun s =>
      (Sample.coarse.dependence.successorsBy .full .full .data s).length +
      (Sample.coarse.dependence.successorsBy .full .full .control s).length).sum := by
  have hg := Sample.coarse_loaded.wellFormed
  have hempty := Index.sound_empty Sample.coarse.calls
  have hseeds : ∀ s ∈ [Sample.store], Sample.coarse.calls.Made s := by
    simpa using Sample.made_store (m := Sample.coarse) (by simp [Sample.coarse])
  have hheld : ∀ s ∈ [Sample.store], Sample.coarse.calls.Holds s := fun s hs => (hseeds s hs).holds
  obtain ⟨slice, hslice, hn, hmem⟩ := DependenceGraph.closure_of_outcome
    (DependenceGraph.outcome_forwardSlice (g := Sample.coarse.dependence) .full .full none hg hheld hempty) (by simp)
  have hmade : ∀ s ∈ slice, Sample.coarse.calls.Made s := fun s hs =>
    (DependenceGraph.holds_of_mem_closure hg hheld ((hmem s).1 hs)).made
  obtain ⟨-, -, -, out, order, edges, hout, hdepicts, hall⟩ :=
    dot_exact Sample.coarse_loaded .full .full hn hmade hempty
  obtain ⟨hclosed, hcount⟩ := hall none _ {} slice hseeds hempty hslice fun _ => Iff.rfl
  refine ⟨slice, out, order, edges, hslice, hmade, hout, hdepicts, ?_, hcount⟩
  -- the value that is stored is read at the start of the other method
  have hreads : Sample.coarse.dependence.successorsBy .full .full .data Sample.store =
      [.of (Sample.merged Sample.walk) (.normal 0)] := rfl
  have hstore : Sample.store ∈ slice := (hmem _).2 (Search.mem_reach_of_mem (by simp))
  have hread : Statement.of (Sample.merged Sample.walk) (.normal 0) ∈ slice :=
    hclosed _ hstore .data _ (by simp [hreads])
  obtain ⟨a, ha⟩ := List.mem_iff_getElem?.1 (hdepicts.inOrder.mem_iff.2 hstore)
  obtain ⟨b, hb⟩ := List.mem_iff_getElem?.1 (hdepicts.inOrder.mem_iff.2 hread)
  have hedge : ⟨a, b, .data⟩ ∈ edges := (hdepicts.mem_edges _).2 ⟨_, _, ha, hb, by simp [hreads]⟩
  refine ⟨a, b, ha, hb, ?_⟩
  rw [hdepicts.edges_eq]
  exact List.mem_map.2 ⟨_, hedge, rfl⟩

end Model
end ForwardSlicing
