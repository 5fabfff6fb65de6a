import ForwardSlicing.Proofs.DotLines
/-!
# Labels of DOT graphs

An escaped text is read back, up to the quote that follows it, whatever stands behind that quote. So no label reaches into the
text around it, and every label of a DOT graph is read as the text it was made from (`labels_graphLines`).
-/

namespace ForwardSlicing

namespace Report

open Dot

theorem labels_nodeLines (order : List Statement) (k : Nat) :
    (nodeLines order k).filterMap label? = order.map fun s => (s.label, "];") := by
  induction order generalizing k with
  | nil => rfl
  | cons s rest ih =>
    have hcons : nodeLines (s :: rest) k = nodeLine k s :: nodeLines rest (k + 1) := rfl
    rw [hcons, List.filterMap_cons_some (label?_nodeLine k s), ih, List.map_cons]

/-- The labels of groups: each context, and then its statements. -/
def labelsOf (groups : List (Context × List Statement)) : List (String × String) :=
  groups.flatMap fun group => (group.1.text, ";") :: group.2.map fun s => (s.label, "];")

theorem labels_clustersFrom (groups : List (Context × List Statement)) (n k : Nat) :
    (clustersFrom n k groups).filterMap label? = labelsOf groups := by
  induction groups generalizing n k with
  | nil => rfl
  | cons group rest ih =>
    have hopen : label? ("    subgraph cluster_" ++ n.repr ++ " \x7b") = none := label?_plain (by simp [not_mem_digits])
    have hclose : label? "    \x7d" = none := label?_plain (by decide)
    rw [clustersFrom, clusterLines_eq]
    simp [List.filterMap_append, hopen, hclose, label?_labelLine, labels_nodeLines, ih, labelsOf]

/-- Reading the labels of a DOT graph gives the texts of its contexts and statements. -/
theorem labels_graphLines (groups : List (Context × List Statement)) (edges : List Edge) :
    (lines ("\n".intercalate (graphLines groups (edges.map Edge.line)))).filterMap label? = labelsOf groups := by
  have hhead := List.filterMap_eq_nil_iff.2 fun line hline => label?_plain (not_mem_head line hline)
  have htail := List.filterMap_eq_nil_iff.2 fun line hline => label?_plain (not_mem_tail edges line hline)
  rw [lines_intercalate (draws_graphLines groups edges).closed (by simp [graphLines]), graphLines, List.append_assoc,
    List.append_assoc, List.filterMap_append, List.filterMap_append, hhead, labels_clustersFrom, htail, List.nil_append,
    List.append_nil]

/-! ## The whole text -/

/-- The lines of edges, from whatever graph they come. -/
theorem exists_edges {g : DependenceGraph} {data control : Level} {members sources : List Statement} {x y : Index}
    {ls : List String} (h : edgeLines g data control members sources x = (.ok ls, y)) :
    ∃ edges : List Edge, ls = edges.map Edge.line := by
  induction sources generalizing x ls with
  | nil =>
    cases h
    exact ⟨[], rfl⟩
  | cons s rest ih =>
    rcases hfrom : g.successorEdges data control s x with ⟨_ | edges, x'⟩
    · simp [edgeLines, hfrom] at h
    · rcases hrest : edgeLines g data control members rest x' with ⟨_ | ls', y'⟩ <;>
        simp only [edgeLines, hfrom, hrest] at h <;> cases h
      obtain ⟨drawn, rfl⟩ := ih hrest
      refine ⟨(edges.mergeSort edgeLe).filterMap (edge? members s) ++ drawn, ?_⟩
      rw [edgeLine?_eq, List.map_append, List.map_filterMap]

theorem exists_graphLines {g : DependenceGraph} {data control : Level} {slice : List Statement} {x : Index} {out : String}
    (h : (dot g data control slice x).1 = .ok out) :
    ∃ edges : List Edge, out = "\n".intercalate (graphLines (byContext slice) (edges.map Edge.line)) := by
  rcases hedges : edgeLines g data control ((byContext slice).flatMap (·.2)) (Statement.sorted slice) x with
    ⟨_ | ls, y⟩ <;> simp only [dot, hedges] at h <;> cases h
  obtain ⟨edges, rfl⟩ := exists_edges hedges
  exact ⟨edges, rfl⟩

/-- The characters with another text in place of one of them. -/
def replaced (a : Char) (text cs : List Char) : List Char := cs.flatMap fun c => if c = a then text else [c]

/-- Escaping is replacing the backslashes and after that the quotes. -/
theorem escape_eq_replaced (t : String) :
    (escape t).toList = replaced '"' ['\\', '"'] (replaced '\\' ['\\', '\\'] t.toList) := by
  have hchar : ∀ c, escapeChar c = replaced '"' ['\\', '"'] (if c = '\\' then ['\\', '\\'] else [c]) := by
    intro c
    by_cases hslash : c = '\\'
    · -- the backslashes of the first replacement stay as they are in the second
      subst hslash
      rfl
    · by_cases hquote : c = '"' <;> simp [escapeChar, replaced, hslash, hquote]
  rw [toList_escape, replaced, replaced, List.flatMap_assoc]
  exact List.flatMap_congr fun c _ => hchar c

/-- An escaped text is read back up to the quote behind it, so different texts stay different and none ends its quotes early
or reaches beyond them: the labels of every DOT graph are read as the texts of its contexts and statements. -/
theorem escape_readsBack :
    (∀ (t : String) (behind : List Char), readLabel ((escape t).toList ++ '"' :: behind) = some (t.toList, behind)) ∧
    Function.Injective escape ∧
    (∀ (t : String) (part : List Char), part <+: (escape t).toList → readLabel part = none) ∧
    (∀ t : String, (escape t).toList = replaced '"' ['\\', '"'] (replaced '\\' ['\\', '\\'] t.toList)) ∧
    ∀ (g : DependenceGraph) (data control : Level) (slice : List Statement) (x : Index) (out : String),
      (dot g data control slice x).1 = .ok out → (lines out).filterMap label? = labelsOf (byContext slice) := by
  have hread : ∀ (t : String) (behind : List Char),
      readLabel ((escape t).toList ++ '"' :: behind) = some (t.toList, behind) := by
    intro t behind
    rw [toList_escape, readLabel_escape]
  refine ⟨hread, ?_, ?_, escape_eq_replaced, ?_⟩
  · intro t t' h
    have hsame := hread t []
    rw [h, hread t' []] at hsame
    exact String.toList_inj.1 (Prod.mk.inj (Option.some.inj hsame)).1.symm
  · intro t part hpart
    rw [toList_escape] at hpart
    exact readLabel_part hpart
  · intro g data control slice x out hout
    obtain ⟨edges, rfl⟩ := exists_graphLines hout
    exact labels_graphLines _ edges

end Report

namespace Sample

/-- A context whose name would end its label, draw an edge and reach beyond the next quote. -/
def quoting : Context := ⟨walk, "\"; s1 -> s0; \\"⟩

/-- A call graph of one context. -/
def alone (c : Context) : DependenceGraph := ⟨{ nodes := [c] }, {}⟩

end Sample

theorem Report.escape_readsBack_quoting : ∃ out,
    (dot (Sample.alone Sample.quoting) .full .full [.of Sample.quoting .entry] {}).1 = .ok out ∧
    (Dot.lines out).filterMap Dot.label? =
      [("<Box.walk(I)I @ \"; s1 -> s0; \\>", ";"), ("METHOD_ENTRY", "];")] := by
  have hgroups : byContext [.of Sample.quoting .entry] = [(Sample.quoting, [.of Sample.quoting .entry])] := by
    simp [byContext, Statement.sorted, distinct]
  have hlabels : labelsOf [(Sample.quoting, [.of Sample.quoting .entry])] =
      [("<Box.walk(I)I @ \"; s1 -> s0; \\>", ";"), ("METHOD_ENTRY", "];")] := by decide
  have hdot : ∃ out, (dot (Sample.alone Sample.quoting) .full .full [.of Sample.quoting .entry] {}).1 = .ok out := by
    simp only [dot, hgroups, Statement.sorted, List.mergeSort_singleton]
    exact ⟨_, rfl⟩
  obtain ⟨out, hout⟩ := hdot
  obtain ⟨-, -, -, -, hread⟩ := escape_readsBack
  refine ⟨out, hout, ?_⟩
  rw [hread _ _ _ _ _ _ hout, hgroups, hlabels]

end ForwardSlicing
