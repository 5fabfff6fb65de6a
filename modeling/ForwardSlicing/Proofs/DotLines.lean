import ForwardSlicing.Proofs.DotEdges
import ForwardSlicing.Proofs.DotText
/-!
# The lines of a DOT graph

`draws_graphLines`: the lines of nodes and edges that a reader finds in a DOT graph are those that were written, whatever the
labels say. `node?_nodeLine` and `edge?_line` say what is read from such a line. `clusters_graphLines`: the clusters are read
as the groups that were written.
-/

namespace ForwardSlicing.Report

open Dot

/-! ## Names -/

theorem not_mem_digits {c : Char} (h : c.isDigit = false) (n : Nat) : c ∉ Nat.toDigits 10 n := by
  intro hc
  simp [Nat.isDigit_of_mem_toDigits (by decide) (by decide) hc] at h

theorem digits_injective : Function.Injective (Nat.toDigits 10) := by
  intro a b h
  rw [← Nat.ofDigitChars_ten_toDigits (n := a), h, Nat.ofDigitChars_ten_toDigits]

theorem toList_nodeName (k : Nat) : (nodeName k).toList = 's' :: Nat.toDigits 10 k := by
  simp [nodeName]

theorem ofList_name (k : Nat) : String.ofList ('s' :: Nat.toDigits 10 k) = "s" ++ k.repr := by
  apply String.toList_inj.1
  simp

theorem name_injective : Function.Injective fun k : Nat => "s" ++ k.repr := by
  intro a b h
  have hlist := congrArg String.toList h
  simp only [← ofList_name, String.toList_ofList] at hlist
  exact digits_injective (List.cons.inj hlist).2

/-- What is drawn for an edge: the ids of its ends, and its style, solid for data and dashed for control. -/
def Edge.drawn (e : Edge) : String × String × String :=
  ("s" ++ e.source.repr, "s" ++ e.target.repr,
    match e.kind with
    | .data => "[style=solid];"
    | .control => "[style=dashed];")

/-- Different edges are drawn differently. -/
theorem drawn_injective : Function.Injective Edge.drawn := by
  rintro ⟨a, b, kind⟩ ⟨a', b', kind'⟩ h
  simp only [Edge.drawn, Prod.mk.injEq] at h
  obtain ⟨hsource, htarget, hstyle⟩ := h
  have hkind : kind = kind' := by
    revert hstyle
    cases kind <;> cases kind' <;> decide
  rw [name_injective hsource, name_injective htarget, hkind]

/-- What a line says behind the ends of its edge. -/
def styled (kind : DependenceKind) : String := "[style=" ++ styleOf kind ++ "];"

theorem toList_line (e : Edge) : e.line.toList = "    s".toList ++ Nat.toDigits 10 e.source ++ " -> s".toList ++
    Nat.toDigits 10 e.target ++ ' ' :: (styled e.kind).toList := by
  simp [Edge.line, edgeLine, styled, toList_nodeName]

/-! ## What the lines say -/

theorem isNode_eq_false {line : String} {c : Char} (hc : c ∈ "[label=".toList) (h : c ∉ bare line) :
    isNode line = false := by
  apply decide_eq_false
  intro hnode
  exact h (hnode.subset hc)

theorem isEdge_eq_false {line : String} (h : '>' ∉ bare line) : isEdge line = false := by
  apply decide_eq_false
  intro hedge
  exact h (hedge.subset (by decide))

/-- A closed line that is one of a node or not, and one of an edge or not. -/
structure Says (node edge : Bool) (line : String) : Prop where
  closed : Closed line
  node : isNode line = node
  edge : isEdge line = edge

theorem says_plain {line : String}
    (h : '"' ∉ line.toList ∧ '\n' ∉ line.toList ∧ '[' ∉ line.toList ∧ '>' ∉ line.toList) : Says false false line := by
  obtain ⟨hquote, hfeed, hbracket, harrow⟩ := h
  obtain ⟨hclosed, hbare⟩ := closed_of_plain hquote hfeed
  exact ⟨hclosed, isNode_eq_false (by decide : '[' ∈ _) (hbare ▸ hbracket), isEdge_eq_false (hbare ▸ harrow)⟩

theorem nodeLine_eq (k : Nat) (s : Statement) :
    nodeLine k s = labelled ("        " ++ nodeName k ++ " [label=") s.label "];" := by
  apply String.toList_inj.1
  simp [nodeLine, labelled]

theorem not_mem_nodeLine {c : Char} (hdigit : c.isDigit = false) (hc : c ∉ "        s [label=".toList) (k : Nat) :
    c ∉ ("        " ++ nodeName k ++ " [label=").toList := by
  simp only [String.toList_append, toList_nodeName]
  simp_all [not_mem_digits hdigit k]

theorem says_nodeLine (k : Nat) (s : Statement) : Says true false (nodeLine k s) := by
  have hquote := not_mem_nodeLine (c := '"') (by decide) (by decide) k
  have hfeed := not_mem_nodeLine (c := '\n') (by decide) (by decide) k
  have hbare := bare_labelled hquote (by decide : '"' ∉ "];".toList) s.label
  rw [nodeLine_eq]
  refine ⟨closed_labelled hquote (by decide) s.label hfeed (by decide), ?_, ?_⟩
  · apply decide_eq_true
    rw [hbare]
    exact ⟨"        ".toList ++ (nodeName k).toList ++ [' '], "\"];".toList, by simp⟩
  · apply isEdge_eq_false
    rw [hbare, List.mem_append, not_or]
    exact ⟨not_mem_nodeLine (by decide) (by decide) k, by decide⟩

theorem not_mem_line {c : Char} (hdigit : c.isDigit = false) (hc : c ∉ "    s -> [style=solid dashed];".toList) (e : Edge) :
    c ∉ e.line.toList := by
  rw [toList_line]
  cases e.kind <;> simp_all [styled, styleOf, not_mem_digits hdigit]

theorem says_line (e : Edge) : Says false true e.line := by
  obtain ⟨hclosed, hbare⟩ := closed_of_plain (not_mem_line (c := '"') (by decide) (by decide) e)
    (not_mem_line (by decide) (by decide) e)
  refine ⟨hclosed, ?_, ?_⟩
  · apply isNode_eq_false (by decide : 'b' ∈ _)
    rw [hbare]
    exact not_mem_line (by decide) (by decide) e
  · apply decide_eq_true
    rw [hbare, toList_line]
    exact ⟨"    s".toList ++ Nat.toDigits 10 e.source ++ [' '],
      " s".toList ++ Nat.toDigits 10 e.target ++ ' ' :: (styled e.kind).toList, by simp⟩

theorem labelLine_eq (text : String) :
    "        label=\"" ++ escape text ++ "\";" = labelled "        label=" text ";" := by
  apply String.toList_inj.1
  simp [labelled]

theorem says_label (text : String) : Says false false ("        label=\"" ++ escape text ++ "\";") := by
  have hbare := bare_labelled (by decide : '"' ∉ "        label=".toList) (by decide : '"' ∉ ";".toList) text
  rw [labelLine_eq]
  refine ⟨closed_labelled (by decide) (by decide) text (by decide) (by decide), ?_, ?_⟩
  · apply isNode_eq_false (by decide : '[' ∈ _)
    rw [hbare]
    decide
  · apply isEdge_eq_false
    rw [hbare]
    decide

theorem says_subgraph (n : Nat) : Says false false ("    subgraph cluster_" ++ n.repr ++ " \x7b") := by
  apply says_plain
  simp [not_mem_digits]

/-- The defaults of nodes are no node. -/
theorem says_defaults : Says false false "    node [shape=box, style=filled, fillcolor=lightblue];" := by
  obtain ⟨hclosed, hbare⟩ := closed_of_plain
    (by decide : '"' ∉ "    node [shape=box, style=filled, fillcolor=lightblue];".toList) (by decide)
  refine ⟨hclosed, ?_, ?_⟩
  · apply decide_eq_false
    rw [hbare]
    decide
  · apply isEdge_eq_false
    rw [hbare]
    decide

/-! ## What is read from a line -/

theorem label?_nodeLine (k : Nat) (s : Statement) : label? (nodeLine k s) = some (s.label, "];") := by
  rw [nodeLine_eq]
  exact label?_labelled (not_mem_nodeLine (by decide) (by decide) k) _ _

theorem label?_labelLine (text : String) : label? ("        label=\"" ++ escape text ++ "\";") = some (text, ";") := by
  rw [labelLine_eq]
  exact label?_labelled (by decide) _ _

theorem node?_nodeLine (k : Nat) (s : Statement) : node? (nodeLine k s) = some ("s" ++ k.repr, s.label) := by
  have hquote := not_mem_nodeLine (c := '"') (by decide) (by decide) k
  have hbare : bare (nodeLine k s) =
      [' '].intercalate (List.replicate 8 [] ++ ['s' :: Nat.toDigits 10 k, "[label=\"];".toList]) := by
    rw [nodeLine_eq, bare_labelled hquote (by decide : '"' ∉ "];".toList)]
    simp [List.intercalate, toList_nodeName, List.replicate]
  have hwords : words (nodeLine k s) = ["s" ++ k.repr, "[label=\"];"] := by
    rw [words_eq hbare (by simp [not_mem_digits]) (by simp), ← ofList_name]
    simp
  simp [node?, hwords, label?_nodeLine]

theorem words_line (e : Edge) : words e.line =
    ["s" ++ e.source.repr, "->", "s" ++ e.target.repr, styled e.kind] := by
  have hbare : bare e.line = e.line.toList :=
    (closed_of_plain (not_mem_line (by decide) (by decide) e) (not_mem_line (by decide) (by decide) e)).2
  have hpieces : bare e.line = [' '].intercalate (List.replicate 4 [] ++ ['s' :: Nat.toDigits 10 e.source, "->".toList,
      's' :: Nat.toDigits 10 e.target, (styled e.kind).toList]) := by
    rw [hbare, toList_line]
    simp [List.intercalate, List.replicate]
  have hblank : ' ' ∉ (styled e.kind).toList := by cases e.kind <;> decide
  have hne : styled e.kind ≠ "" := by cases e.kind <;> decide
  rw [words_eq hpieces (by simp [not_mem_digits, hblank]) (by simp), ← ofList_name, ← ofList_name]
  simp [hne]

theorem edge?_line (e : Edge) : Dot.edge? e.line = some e.drawn := by
  simp only [Dot.edge?, words_line, if_true, Edge.drawn]
  cases e.kind <;> rfl

theorem heading?_labelLine (text : String) : heading? ("        label=\"" ++ escape text ++ "\";") = some text := by
  have hbare : bare ("        label=\"" ++ escape text ++ "\";") =
      [' '].intercalate (List.replicate 8 [] ++ ["label=\";".toList]) := by
    rw [labelLine_eq, bare_labelled (by decide) (by decide)]
    rfl
  have hwords := words_eq hbare (by decide) (by simp)
  simp [heading?, hwords, label?_labelLine]

/-- A line without quotes is no label of a cluster, and no node. -/
theorem heading?_plain {line : String} (h : '"' ∉ line.toList) : heading? line = none ∧ node? line = none := by
  simp only [heading?, node?, label?_plain h]
  constructor <;> split <;> simp_all

theorem heading?_nodeLine (k : Nat) (s : Statement) : heading? (nodeLine k s) = none := by
  have hnode := node?_nodeLine k s
  unfold node? at hnode
  unfold heading?
  split at hnode
  case h_1 hwords hlabel => simp [hwords]
  case h_2 => cases hnode

/-! ## What the whole text says -/

/-- Closed lines with the lines of nodes and edges among them. -/
structure Draws (ls nodes edges : List String) : Prop where
  closed : ∀ line ∈ ls, Closed line
  nodes : ls.filter isNode = nodes
  edges : ls.filter isEdge = edges

theorem Draws.append {ls ls' nodes nodes' edges edges' : List String} (h : Draws ls nodes edges)
    (h' : Draws ls' nodes' edges') : Draws (ls ++ ls') (nodes ++ nodes') (edges ++ edges') where
  closed := List.forall_mem_append.2 ⟨h.closed, h'.closed⟩
  nodes := by rw [List.filter_append, h.nodes, h'.nodes]
  edges := by rw [List.filter_append, h.edges, h'.edges]

/-- A choice that is the same for all members takes all of them or none. -/
theorem filter_of_forall {p : String → Bool} {b : Bool} {ls : List String} (h : ∀ line ∈ ls, p line = b) :
    ls.filter p = bif b then ls else [] := by
  cases b with
  | true => exact List.filter_eq_self.2 h
  | false => exact List.filter_eq_nil_iff.2 fun line hline => by simp [h line hline]

theorem draws_of_says (node edge : Bool) {ls : List String} (h : ∀ line ∈ ls, Says node edge line) :
    Draws ls (bif node then ls else []) (bif edge then ls else []) where
  closed line hline := (h line hline).closed
  nodes := filter_of_forall fun line hline => (h line hline).node
  edges := filter_of_forall fun line hline => (h line hline).edge

/-- The lines of the nodes of statements, numbered from `k` on. -/
def nodeLines (order : List Statement) (k : Nat) : List String := (order.zipIdx k).map fun e => nodeLine e.2 e.1

theorem nodes_nodeLines (order : List Statement) (k : Nat) : (nodeLines order k).map node? =
    (order.zipIdx k).map fun e => some ("s" ++ e.2.repr, e.1.label) := by
  simp only [nodeLines, List.map_map, Function.comp_def, node?_nodeLine]

theorem draws_nodeLines (order : List Statement) (k : Nat) : Draws (nodeLines order k) (nodeLines order k) [] := by
  apply draws_of_says true false
  intro line hline
  obtain ⟨e, -, rfl⟩ := List.mem_map.1 hline
  exact says_nodeLine e.2 e.1

theorem draws_edges (edges : List Edge) : Draws (edges.map Edge.line) [] (edges.map Edge.line) := by
  apply draws_of_says false true
  intro line hline
  obtain ⟨e, -, rfl⟩ := List.mem_map.1 hline
  exact says_line e

theorem clusterLines_eq (n k : Nat) (group : Context × List Statement) : clusterLines n k group =
    ["    subgraph cluster_" ++ n.repr ++ " \x7b", "        label=\"" ++ escape group.1.text ++ "\";"] ++
      nodeLines group.2 k ++ ["    \x7d"] := by
  rw [nodeLines, List.zipIdx_eq_map_add (i := k), List.map_map]
  rfl

/-- Clusters have the nodes of their groups, numbered one after the other. -/
theorem draws_clustersFrom (groups : List (Context × List Statement)) (n k : Nat) :
    Draws (clustersFrom n k groups) (nodeLines (groups.flatMap (·.2)) k) [] := by
  induction groups generalizing n k with
  | nil => exact draws_of_says false false (List.forall_mem_nil _)
  | cons group rest ih =>
    have hopen : Draws ["    subgraph cluster_" ++ n.repr ++ " \x7b",
        "        label=\"" ++ escape group.1.text ++ "\";"] [] [] :=
      draws_of_says false false (by simp [says_subgraph, says_label])
    have hclose : Draws ["    \x7d"] [] [] :=
      draws_of_says false false (List.forall_mem_singleton.2 (says_plain (by decide)))
    have hall := ((hopen.append (draws_nodeLines group.2 k)).append hclose).append (ih (n + 1) (k + group.2.length))
    rw [clustersFrom, clusterLines_eq]
    simpa [nodeLines, List.zipIdx_append] using hall

/-- A DOT graph has the nodes of its groups and its edges, and nothing else that looks like one. -/
theorem draws_graphLines (groups : List (Context × List Statement)) (edges : List Edge) :
    Draws (graphLines groups (edges.map Edge.line)) (nodeLines (groups.flatMap (·.2)) 0) (edges.map Edge.line) := by
  have hhead : Draws ["digraph Slice \x7b", "    rankdir=TB;",
      "    node [shape=box, style=filled, fillcolor=lightblue];", ""] [] [] := by
    apply draws_of_says false false
    simp only [List.forall_mem_cons, List.not_mem_nil, false_implies, implies_true, and_true]
    exact ⟨says_plain (by decide), says_plain (by decide), says_defaults, says_plain (by decide)⟩
  have hgap : Draws [""] [] [] := draws_of_says false false (List.forall_mem_singleton.2 (says_plain (by decide)))
  have hclose : Draws ["\x7d"] [] [] := draws_of_says false false (List.forall_mem_singleton.2 (says_plain (by decide)))
  have hall := (hhead.append (draws_clustersFrom groups 0 0)).append (hgap.append ((draws_edges edges).append hclose))
  simpa [graphLines] using hall

/-! ## Clusters -/

/-- The lines before the clusters have no quotes. -/
theorem not_mem_head : ∀ line ∈ ["digraph Slice \x7b", "    rankdir=TB;",
    "    node [shape=box, style=filled, fillcolor=lightblue];", ""], '"' ∉ line.toList := by
  decide

/-- The lines behind the clusters have no quotes. -/
theorem not_mem_tail (edges : List Edge) : ∀ line ∈ "" :: edges.map Edge.line ++ ["\x7d"], '"' ∉ line.toList := by
  simp only [List.cons_append, List.forall_mem_cons, List.forall_mem_append, List.forall_mem_map]
  exact ⟨by decide, fun e _ => not_mem_line (by decide) (by decide) e, by decide⟩

theorem clusters_append {ls : List String} (h : ∀ line ∈ ls, heading? line = none) (rest : List String) :
    clusters (ls ++ rest) = clusters rest := by
  induction ls with
  | nil => rfl
  | cons line ls ih =>
    rw [List.forall_mem_cons] at h
    rw [List.cons_append, clusters, h.1]
    exact ih h.2

theorem heading?_nodeLines (order : List Statement) (k : Nat) : ∀ line ∈ nodeLines order k, heading? line = none := by
  intro line hline
  obtain ⟨e, -, rfl⟩ := List.mem_map.1 hline
  exact heading?_nodeLine e.2 e.1

/-- The nodes of a cluster end with the line that closes it. -/
theorem members_nodeLines (order : List Statement) (k : Nat) (rest : List String) :
    members (nodeLines order k ++ "    \x7d" :: rest) = order.map Statement.label := by
  induction order generalizing k with
  | nil =>
    have hclose : node? "    \x7d" = none := (heading?_plain (by decide)).2
    rw [nodeLines, List.zipIdx_nil, List.map_nil, List.nil_append, members, hclose]
    rfl
  | cons s order ih =>
    have hcons : nodeLines (s :: order) k = nodeLine k s :: nodeLines order (k + 1) := rfl
    rw [hcons, List.cons_append, members, node?_nodeLine]
    exact congrArg (s.label :: ·) (ih (k + 1))

theorem clusters_clustersFrom (groups : List (Context × List Statement)) (n k : Nat) (rest : List String) :
    clusters (clustersFrom n k groups ++ rest) =
      groups.map (fun group => (group.1.text, group.2.map Statement.label)) ++ clusters rest := by
  induction groups generalizing n k with
  | nil => rfl
  | cons group groups ih =>
    have hopen : heading? ("    subgraph cluster_" ++ n.repr ++ " \x7b") = none :=
      (heading?_plain (by simp [not_mem_digits])).1
    have hclose : heading? "    \x7d" = none := (heading?_plain (by decide)).1
    have hnodes := heading?_nodeLines group.2 k
    simp only [clustersFrom, clusterLines_eq, List.append_assoc, List.cons_append, List.nil_append]
    rw [clusters, hopen, clusters, heading?_labelLine, members_nodeLines, clusters_append hnodes, clusters, hclose, ih]
    rfl

/-- The clusters of a DOT graph are read as its groups, each headed by its context. -/
theorem clusters_graphLines (groups : List (Context × List Statement)) (edges : List Edge) :
    clusters (graphLines groups (edges.map Edge.line)) = groups.map fun group =>
      ("<" ++ (group.1.method.signature ++ " @ " ++ group.1.name) ++ ">", group.2.map Statement.label) := by
  have hhead := clusters_append fun line hline => (heading?_plain (not_mem_head line hline)).1
  have htail := clusters_append (fun line hline => (heading?_plain (not_mem_tail edges line hline)).1) []
  rw [List.append_nil] at htail
  rw [graphLines, List.append_assoc, List.append_assoc, hhead, clusters_clustersFrom, htail]
  simp only [clusters, List.append_nil, Context.text, Context.place]

end ForwardSlicing.Report
