import Mathlib.Data.List.Sort
import ForwardSlicing.Proofs.ReportGroups
import ForwardSlicing.Proofs.Transparency
import ForwardSlicing.Report.Dot
/-!
# The edges of a DOT graph

The edges out of the members of a slice are asked for one member after the other, and an edge is drawn if its target is a
member too. `Edge` is an edge between numbered members. The lines of a DOT graph are those of a list of edges
(`edgeLines_eq`) that has each dependence between members once (`mem_edgesAmong`, `nodup_edgesAmong`), whatever index the
answers come from.
-/

namespace ForwardSlicing

/-! ## Successors of one kind -/

namespace DependenceGraph

/-- The query for the successors of one kind. -/
def kindSuccessors (g : DependenceGraph) (data control : Level) (kind : DependenceKind) (s : Statement) (x : Index) :
    Answer (List Statement) :=
  match kind with
  | .data => g.dataSuccessors data s x
  | .control => g.controlSuccessors control s x

/-- The successors of one kind, as an empty index answers. -/
def successorsBy (g : DependenceGraph) (data control : Level) (kind : DependenceKind) (s : Statement) : List Statement :=
  (g.kindSuccessors data control kind s {}).1.toOption.getD []

/-- The edges out of a statement. -/
def edgesFrom (g : DependenceGraph) (data control : Level) (s : Statement) : List (Statement × DependenceKind) :=
  (g.successorsBy data control .data s).map (·, .data) ++ (g.successorsBy data control .control s).map (·, .control)

/-- The second statement depends directly on the first one, in this way. -/
def DependsBy (g : DependenceGraph) (data control : Level) (kind : DependenceKind) (s t : Statement) : Prop :=
  match kind with
  | .data => data.enabled = true ∧ DataDependence g data s t
  | .control => control.enabled = true ∧ ControlDependence g control s t

section Successors
variable {g : DependenceGraph} (data control : Level) (kind : DependenceKind) {s t : Statement} {x : Index}

theorem mem_edgesFrom : (t, kind) ∈ g.edgesFrom data control s ↔ t ∈ g.successorsBy data control kind s := by
  cases kind <;> simp [edgesFrom]

theorem depends_iff : g.Depends data control s t ↔ ∃ kind, g.DependsBy data control kind s t := by
  constructor
  · rintro (h | h)
    · exact ⟨.data, h⟩
    · exact ⟨.control, h⟩
  · rintro ⟨kind, h⟩
    cases kind with
    | data => exact .inl h
    | control => exact .inr h

variable (hg : g.calls.WellFormed) (hs : g.calls.Holds s)
include hg hs

theorem kindSuccessors_spec (hx : x.Sound g.calls) :
    g.Answered (g.DependsBy data control kind s) (g.kindSuccessors data control kind s x) := by
  cases kind with
  | data => exact dataSuccessors_spec hg hx hs data
  | control => exact controlSuccessors_spec hg hx hs control

theorem transparent_kindSuccessors : g.Transparent (g.kindSuccessors data control kind s) := by
  cases kind with
  | data => exact transparent_dataSuccessors data hg.oneBody fun _ => hs.node
  | control => exact transparent_controlSuccessors control hg.oneBody fun _ => hs.node

theorem successorsBy_spec : (g.successorsBy data control kind s).Nodup ∧
    ∀ t, t ∈ g.successorsBy data control kind s ↔ g.DependsBy data control kind s t := by
  obtain ⟨l, x, hl, -, hn, hmem⟩ := kindSuccessors_spec data control kind hg hs (Index.sound_empty g.calls)
  rw [successorsBy, hl]
  exact ⟨hn, hmem⟩

/-- Every sound index gives the same answer. -/
theorem kindSuccessors_eq (hx : x.Sound g.calls) : ∃ y,
    g.kindSuccessors data control kind s x = (.ok (g.successorsBy data control kind s), y) ∧ y.Sound g.calls := by
  obtain ⟨l, y, hl, hy, -, -⟩ := kindSuccessors_spec data control kind hg hs hx
  have hsame := (transparent_kindSuccessors data control kind hg hs x hx).1
  refine ⟨y, ?_, hy⟩
  rw [successorsBy, ← hsame, hl]
  rfl

theorem successorEdges_eq (hx : x.Sound g.calls) : ∃ y,
    g.successorEdges data control s x = (.ok (g.edgesFrom data control s), y) ∧ y.Sound g.calls := by
  obtain ⟨y, hd, hy⟩ := kindSuccessors_eq data control .data hg hs hx
  obtain ⟨z, hc, hz⟩ := kindSuccessors_eq data control .control hg hs hy
  simp only [kindSuccessors] at hd hc
  refine ⟨z, ?_, hz⟩
  simp only [successorEdges, bothSuccessors, hd, hc, edgesFrom]

theorem holds_of_successorsBy (ht : t ∈ g.successorsBy data control kind s) : g.calls.Holds t := by
  have hdep := ((successorsBy_spec data control kind hg hs).2 t).1 ht
  exact ((depends_iff data control).2 ⟨kind, hdep⟩).holds data control hg hs

theorem nodup_edgesFrom : (g.edgesFrom data control s).Nodup := by
  have hn : ∀ kind, ((g.successorsBy data control kind s).map (·, kind)).Nodup := by
    intro kind
    apply (successorsBy_spec data control kind hg hs).1.map
    intro a b h
    exact congrArg Prod.fst h
  apply (hn .data).append (hn .control)
  intro e hd hc
  simp only [List.mem_map] at hd hc
  obtain ⟨_, -, rfl⟩ := hd
  obtain ⟨_, -, h⟩ := hc
  cases h

end Successors
end DependenceGraph

/-! ## Edges between members -/

/-- In a list without repeats a value is found where it stands. -/
theorem ExactOn.findIdx?_eq_some {α : Type} [BEq α] [ReflBEq α] {U : Set α} (hU : ExactOn U) {xs : List α} {a : α}
    (hn : xs.Nodup) (hxs : ∀ b ∈ xs, b ∈ U) (ha : a ∈ U) {i : Nat} :
    xs.findIdx? (· == a) = some i ↔ xs[i]? = some a := by
  rw [List.findIdx?_eq_some_iff_getElem, List.getElem?_eq_some_iff]
  constructor
  · rintro ⟨hi, heq, -⟩
    exact ⟨hi, hU _ (hxs _ (List.getElem_mem hi)) a ha heq⟩
  · rintro ⟨hi, rfl⟩
    refine ⟨hi, BEq.rfl, fun j hj heq => ?_⟩
    have hlt : j < xs.length := Nat.lt_trans hj hi
    have hsame : xs[j] = xs[i] := hU _ (hxs _ (List.getElem_mem hlt)) _ (hxs _ (List.getElem_mem hi)) heq
    exact Nat.ne_of_lt hj ((hn.getElem_inj_iff).1 hsame)

namespace Report

/-- An edge between the nodes with these numbers. -/
structure Edge where
  source : Nat
  target : Nat
  kind : DependenceKind

def Edge.line (e : Edge) : String := edgeLine e.source e.target e.kind

/-- The edge out of a member, if its target is a member. -/
def edge? (members : List Statement) (source : Statement) (edge : Statement × DependenceKind) : Option Edge := do
  let a ← members.findIdx? (· == source)
  let b ← members.findIdx? (· == edge.1)
  return ⟨a, b, edge.2⟩

/-- The edges out of some of the members. -/
def edgesAmong (g : DependenceGraph) (data control : Level) (members sources : List Statement) : List Edge :=
  sources.flatMap fun s => ((g.edgesFrom data control s).mergeSort edgeLe).filterMap (edge? members s)

theorem edgeLine?_eq (members : List Statement) (s : Statement) :
    edgeLine? members s = fun edge => (edge? members s edge).map Edge.line := by
  funext edge
  unfold edgeLine? edge?
  cases members.findIdx? (· == s) with
  | none => rfl
  | some a =>
    cases members.findIdx? (· == edge.1) with
    | none => rfl
    | some b => rfl

section Edges
variable {g : DependenceGraph} (data control : Level) {order : List Statement} (hg : g.calls.WellFormed)
  (horder : ∀ s ∈ order, g.calls.Holds s)
include hg

/-- The lines of edges are those of the edges among the members, whatever index the answers come from. -/
theorem edgeLines_eq (members : List Statement) : ∀ {sources : List Statement} {x : Index},
    (∀ s ∈ sources, g.calls.Holds s) → x.Sound g.calls → ∃ y, edgeLines g data control members sources x =
      (.ok ((edgesAmong g data control members sources).map Edge.line), y) ∧ y.Sound g.calls := by
  intro sources
  induction sources with
  | nil =>
    intro x _ hx
    exact ⟨x, rfl, hx⟩
  | cons s rest ih =>
    intro x hsources hx
    obtain ⟨y, hedges, hy⟩ := g.successorEdges_eq data control hg (hsources s (by simp)) hx
    obtain ⟨z, hlines, hz⟩ := ih (fun t ht => hsources t (by simp [ht])) hy
    refine ⟨z, ?_, hz⟩
    simp only [edgeLines, hedges, hlines, edgesAmong, List.flatMap_cons, List.map_append, edgeLine?_eq, List.map_filterMap]

include horder

theorem edge?_eq_some (hn : order.Nodup) {s t : Statement} (hs : g.calls.Holds s) (ht : g.calls.Holds t)
    {kind : DependenceKind} {e : Edge} : edge? order s (t, kind) = some e ↔
      order[e.source]? = some s ∧ order[e.target]? = some t ∧ e.kind = kind := by
  have hU := hg.exactOn_holds
  simp only [edge?, Option.bind_eq_bind, Option.bind_eq_some_iff, Option.pure_def, Option.some.injEq,
    hU.findIdx?_eq_some hn horder hs, hU.findIdx?_eq_some hn horder ht]
  constructor
  · rintro ⟨a, ha, b, hb, rfl⟩
    exact ⟨ha, hb, rfl⟩
  · rintro ⟨ha, hb, rfl⟩
    exact ⟨_, ha, _, hb, rfl⟩

/-- What an edge out of a member says about its ends. -/
theorem edge?_of_mem (hn : order.Nodup) {s : Statement} (hs : s ∈ order) {edge : Statement × DependenceKind}
    (hedge : edge ∈ (g.edgesFrom data control s).mergeSort edgeLe) {e : Edge} : edge? order s edge = some e ↔
      order[e.source]? = some s ∧ order[e.target]? = some edge.1 ∧ e.kind = edge.2 := by
  obtain ⟨t, kind⟩ := edge
  rw [List.mem_mergeSort, DependenceGraph.mem_edgesFrom] at hedge
  exact edge?_eq_some hg horder hn (horder s hs) (g.holds_of_successorsBy data control kind hg (horder s hs) hedge)

/-- The edges are the dependences between members. -/
theorem mem_edgesAmong (hn : order.Nodup) {e : Edge} : e ∈ edgesAmong g data control order order ↔
    ∃ s t, order[e.source]? = some s ∧ order[e.target]? = some t ∧ t ∈ g.successorsBy data control e.kind s := by
  simp only [edgesAmong, List.mem_flatMap, List.mem_filterMap]
  constructor
  · rintro ⟨s, hs, edge, hedge, he⟩
    obtain ⟨hsource, htarget, hkind⟩ := (edge?_of_mem data control hg horder hn hs hedge).1 he
    rw [List.mem_mergeSort] at hedge
    refine ⟨s, edge.1, hsource, htarget, ?_⟩
    rwa [hkind, ← DependenceGraph.mem_edgesFrom]
  · rintro ⟨s, t, hsource, htarget, ht⟩
    have hs := List.mem_of_getElem? hsource
    have hedge : (t, e.kind) ∈ (g.edgesFrom data control s).mergeSort edgeLe := by
      rwa [List.mem_mergeSort, DependenceGraph.mem_edgesFrom]
    exact ⟨s, hs, _, hedge, (edge?_of_mem data control hg horder hn hs hedge).2 ⟨hsource, htarget, rfl⟩⟩

/-- No edge is listed twice. -/
theorem nodup_edgesAmong (hn : order.Nodup) : (edgesAmong g data control order order).Nodup := by
  have hends {s : Statement} (hs : s ∈ order) {edge : Statement × DependenceKind}
      (hedge : edge ∈ (g.edgesFrom data control s).mergeSort edgeLe) {e : Edge} (he : edge? order s edge = some e) :=
    (edge?_of_mem data control hg horder hn hs hedge).1 he
  rw [edgesAmong, List.nodup_flatMap]
  constructor
  -- two edges out of one member differ in the target or in the kind
  · intro s hs
    have hsorted : ((g.edgesFrom data control s).mergeSort edgeLe).Nodup :=
      (List.mergeSort_perm _ _).nodup_iff.2 (g.nodup_edgesFrom data control hg (horder s hs))
    rw [List.Nodup, List.pairwise_filterMap]
    apply hsorted.imp_of_mem
    intro edge edge' hedge hedge' hne e he e' he' heq
    subst heq
    obtain ⟨-, htarget, hkind⟩ := hends hs hedge he
    obtain ⟨-, htarget', hkind'⟩ := hends hs hedge' he'
    exact hne (Prod.ext (Option.some.inj (htarget.symm.trans htarget')) (hkind.symm.trans hkind'))
  -- edges out of two members differ in the source
  · apply hn.imp_of_mem
    intro s t hs ht hne e he he'
    obtain ⟨edge, hedge, he⟩ := List.mem_filterMap.1 he
    obtain ⟨edge', hedge', he'⟩ := List.mem_filterMap.1 he'
    exact hne (Option.some.inj ((hends hs hedge he).1.symm.trans (hends ht hedge' he').1))

/-- If the members are closed under dependence, no edge is left out. -/
theorem length_edgesAmong (hn : order.Nodup)
    (hclosed : ∀ s ∈ order, ∀ kind, ∀ t ∈ g.successorsBy data control kind s, t ∈ order) :
    (edgesAmong g data control order order).length = (order.map fun s =>
      (g.successorsBy data control .data s).length + (g.successorsBy data control .control s).length).sum := by
  rw [edgesAmong, List.length_flatMap]
  congr 1
  apply List.map_congr_left
  intro s hs
  have hsome : ∀ edge ∈ (g.edgesFrom data control s).mergeSort edgeLe, (edge? order s edge).isSome = true := by
    intro edge hedge
    have hmem : edge.1 ∈ order := by
      rw [List.mem_mergeSort] at hedge
      exact hclosed s hs edge.2 _ ((DependenceGraph.mem_edgesFrom data control edge.2).1 hedge)
    obtain ⟨a, ha⟩ := List.mem_iff_getElem?.1 hs
    obtain ⟨b, hb⟩ := List.mem_iff_getElem?.1 hmem
    have he : edge? order s edge = some ⟨a, b, edge.2⟩ :=
      (edge?_of_mem data control hg horder hn hs hedge).2 ⟨ha, hb, rfl⟩
    rw [he]
    rfl
  rw [List.length_filterMap_eq_countP, List.countP_eq_length.2 hsome, List.length_mergeSort]
  simp [DependenceGraph.edgesFrom]

end Edges

end Report

/-- A DOT graph is drawn of every slice of a loaded model, whatever index the answers come from. -/
theorem Model.Loaded.dot_eq {m : Model} (hm : m.Loaded) (data control : Level) {slice : List Statement}
    (hn : slice.Nodup) (hslice : ∀ s ∈ slice, m.calls.Holds s) {x : Index} (hx : x.Sound m.calls) :
    (Report.dot m.dependence data control slice x).1 = .ok ("\n".intercalate (Report.graphLines (Report.byContext slice)
      ((Report.edgesAmong m.dependence data control (Statement.sorted slice) (Statement.sorted slice)).map
        Report.Edge.line))) := by
  have ho := hm.inOrder_sorted hn hslice
  have hmembers := hm.flatMap_byContext hslice hn
  have hsorted : ∀ s ∈ Statement.sorted slice, m.calls.Holds s := fun s hs => hslice s (ho.mem_iff.1 hs)
  obtain ⟨y, hlines, -⟩ := Report.edgeLines_eq (g := m.dependence) data control hm.wellFormed (Statement.sorted slice)
    hsorted hx
  simp only [Report.dot, hmembers, hlines]

end ForwardSlicing
