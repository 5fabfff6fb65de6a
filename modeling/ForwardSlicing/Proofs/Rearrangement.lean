import Mathlib.Data.List.Perm.Basic
import ForwardSlicing.Proofs.Coarsening
import ForwardSlicing.Proofs.Program
/-!
# Documents in another order and with other ids

`Document.Rearranged` relates documents whose procedures, contexts, entry points, edges, points-to facts and objects are
listed in different orders, and whose contexts go by different ids. Entry by entry, what the one document says is what the
other one says, so their models have the same nodes, the same edges and the same objects. `slice_rearranged`: slices are
the same, or fail for the same budget.
-/

namespace ForwardSlicing

/-! ## Lists in another order -/

section Lists
variable {α β γ δ : Type}

/-- The members of the first list, each changed as the relation says, are those of the second one in some order. -/
def Reordered (R : α → β → Prop) (xs : List α) (ys : List β) : Prop :=
  ∃ mid, List.Forall₂ R xs mid ∧ mid.Perm ys

namespace Reordered

theorem perm_map {f : α → β} {xs : List α} {ys : List β} (h : Reordered (fun x y => f x = y) xs ys) :
    (xs.map f).Perm ys := by
  obtain ⟨mid, hmid, hperm⟩ := h
  have heq : List.Forall₂ Eq (xs.map f) mid := List.forall₂_map_left_iff.2 hmid
  rw [List.forall₂_eq_eq_eq] at heq
  exact heq ▸ hperm

theorem perm {xs ys : List α} (h : Reordered Eq xs ys) : xs.Perm ys := by
  simpa using perm_map (f := id) h

theorem of_perm {xs ys : List α} (h : xs.Perm ys) : Reordered Eq xs ys := ⟨xs, List.forall₂_refl xs, h⟩

variable {R : α → β → Prop} {xs : List α} {ys : List β}

theorem exists_image (h : Reordered R xs ys) {x : α} (hx : x ∈ xs) : ∃ y ∈ ys, R x y := by
  obtain ⟨mid, hmid, hperm⟩ := h
  obtain ⟨y, hy, hxy⟩ := exists_of_mem_forall₂ hmid.flip hx
  exact ⟨y, hperm.mem_iff.1 hy, hxy⟩

theorem exists_origin (h : Reordered R xs ys) {y : β} (hy : y ∈ ys) : ∃ x ∈ xs, R x y := by
  obtain ⟨mid, hmid, hperm⟩ := h
  exact exists_of_mem_forall₂ hmid (hperm.mem_iff.2 hy)

/-- If entries that correspond have readings that correspond, then entries in another order have readings in another
order. -/
theorem readings (h : Reordered R xs ys) {reads : α → γ → Prop} {reads' : β → δ → Prop} {T : γ → δ → Prop}
    (hstep : ∀ x y c, R x y → reads x c → ∃ d, reads' y d ∧ T c d) {cs : List γ} (hcs : List.Forall₂ reads xs cs) :
    ∃ ds, List.Forall₂ reads' ys ds ∧ Reordered T cs ds := by
  obtain ⟨mid, hmid, hperm⟩ := h
  obtain ⟨ds, hds, hT⟩ : ∃ ds, List.Forall₂ reads' mid ds ∧ List.Forall₂ T cs ds := by
    clear hperm
    induction hmid generalizing cs with
    | nil =>
      cases hcs
      exact ⟨[], .nil, .nil⟩
    | cons hxy _ ih =>
      cases hcs with
      | cons hc hcs =>
        obtain ⟨d, hd, hcd⟩ := hstep _ _ _ hxy hc
        obtain ⟨ds, hds, hT⟩ := ih hcs
        exact ⟨d :: ds, .cons hd hds, .cons hcd hT⟩
  obtain ⟨ds', hds', hperm'⟩ := List.perm_comp_forall₂ hperm.symm hds
  exact ⟨ds', hds', ds, hT, hperm'.symm⟩

end Reordered
end Lists

/-! ## Documents -/

namespace Document

/-- The new name of an id. -/
def renameId (ρ : String → String) : Json → Json
  | .str id => .str (ρ id)
  | v => v

/-- The lists are the same in different orders; what is no list is the same. -/
inductive Permuted : Json → Json → Prop
  | same (v : Json) : Permuted v v
  | list {items items' : List Json} : items.Perm items' → Permuted (.arr items) (.arr items')

/-- An entry of the contexts and the one that has the new id. -/
inductive RenamedContext (ρ : String → String) : Json → Json → Prop
  | object {fields fields' : Fields} : Json.lookup fields' "id" = (Json.lookup fields "id").map (renameId ρ) →
      Json.lookup fields' "procedure" = Json.lookup fields "procedure" →
      Json.lookup fields' "context" = Json.lookup fields "context" → RenamedContext ρ (.obj fields) (.obj fields')

/-- An entry of the edges and the one that has the new ids. -/
inductive RenamedEdge (ρ : String → String) : Json → Json → Prop
  | object {fields fields' : Fields} : Json.lookup fields' "caller" = (Json.lookup fields "caller").map (renameId ρ) →
      Json.lookup fields' "callee" = (Json.lookup fields "callee").map (renameId ρ) →
      Json.lookup fields' "site" = Json.lookup fields "site" → RenamedEdge ρ (.obj fields) (.obj fields')

/-- An entry of the points-to facts and one that has the new id and the objects in some order. -/
inductive RearrangedFact (ρ : String → String) : Json → Json → Prop
  | object {fields fields' : Fields} : Json.lookup fields' "context" = (Json.lookup fields "context").map (renameId ρ) →
      Json.lookup fields' "value" = Json.lookup fields "value" →
      Permuted (fieldOr fields "objects" (.arr [])) (fieldOr fields' "objects" (.arr [])) →
      RearrangedFact ρ (.obj fields) (.obj fields')

/-- The entries of a section, each changed as the relation says, are those of the other one in some order. -/
def ReordersSection (R : Json → Json → Prop) (key : String) (fields fields' : Fields) : Prop :=
  ∃ items items', fieldOr fields key (.arr []) = .arr items ∧ fieldOr fields' key (.arr []) = .arr items' ∧
    Reordered R items items'

/-- The ids of the contexts of an analysis. -/
def contextIds (fields : Fields) : Set String :=
  {id | ∃ items entry, fieldOr fields "contexts" (.arr []) = .arr items ∧ .obj entry ∈ items ∧
    Json.lookup entry "id" = some (.str id)}

/-- The sections of an analysis in other orders, with the ids renamed everywhere and different ids kept apart. -/
structure RearrangedAnalysis (ρ : String → String) (fields fields' : Fields) : Prop where
  injective : Set.InjOn ρ (contextIds fields)
  contexts : ReordersSection (RenamedContext ρ) "contexts" fields fields'
  entrypoints : ReordersSection (fun v w => w = renameId ρ v) "entrypoints" fields fields'
  edges : ReordersSection (RenamedEdge ρ) "edges" fields fields'
  facts : ReordersSection (RearrangedFact ρ) "points_to" fields fields'

/-- The procedures of a document and the sections of one analysis in other orders, with the ids renamed. -/
inductive Rearranged (ρ : String → String) (name : String) : Json → Json → Prop
  | document {fields fields' analyses analyses' entries entries' : Fields} :
      ReordersSection Eq "procedures" fields fields' →
      Json.lookup fields "analyses" = some (.obj analyses) → Json.lookup fields' "analyses" = some (.obj analyses') →
      Json.lookup analyses name = some (.obj entries) → Json.lookup analyses' name = some (.obj entries') →
      RearrangedAnalysis ρ entries entries' → Rearranged ρ name (.obj fields) (.obj fields')

/-- Sections in another order have readings in another order. -/
theorem ReadsSection.reorder {γ δ : Type} {R : Json → Json → Prop} {key : String} {fields fields' : Fields}
    (h : ReordersSection R key fields fields') {reads : Json → γ → Prop} {reads' : Json → δ → Prop} {T : γ → δ → Prop}
    (hstep : ∀ v w c, R v w → reads v c → ∃ d, reads' w d ∧ T c d) {found : List γ}
    (hfound : ReadsSection fields key reads found) : ∃ found', ReadsSection fields' key reads' found' ∧
      Reordered T found found' := by
  obtain ⟨items, items', hitems, hitems', hreordered⟩ := h
  obtain ⟨_, hread, hfound⟩ := hfound
  obtain rfl := Json.arr.inj (hitems.symm.trans hread)
  obtain ⟨found', hfound', hT⟩ := hreordered.readings hstep hfound
  exact ⟨found', ⟨items', hitems', hfound'⟩, hT⟩

/-- Sections in another order whose entries have the same readings. -/
theorem ReadsSection.permute {γ : Type} {R : Json → Json → Prop} {key : String} {fields fields' : Fields}
    (h : ReordersSection R key fields fields') {reads reads' : Json → γ → Prop}
    (hstep : ∀ v w c, R v w → reads v c → reads' w c) {found : List γ} (hfound : ReadsSection fields key reads found) :
    ∃ found', ReadsSection fields' key reads' found' ∧ found.Perm found' := by
  obtain ⟨found', hfound', hT⟩ := reorder h (fun v w c hvw hv => ⟨c, hstep v w c hvw hv, (rfl : c = c)⟩) hfound
  exact ⟨found', hfound', hT.perm⟩

/-- Texts in another order. -/
theorem Permuted.texts {objects : List String} {v : Json} (h : Permuted (.arr (objects.map .str)) v) :
    ∃ objects' : List String, v = .arr (objects'.map .str) ∧ objects.Perm objects' := by
  cases h with
  | same => exact ⟨objects, rfl, .refl _⟩
  | @list _ items' hperm =>
    have hread : List.Forall₂ (fun v s => v = Json.str s) (objects.map .str) objects := by
      rw [List.forall₂_map_left_iff]
      exact List.forall₂_same.2 fun _ _ => rfl
    obtain ⟨objects', hread', hobjects⟩ := (Reordered.of_perm hperm).readings
      (fun v w s hvw hv => ⟨s, hvw ▸ hv, (rfl : s = s)⟩) hread
    refine ⟨objects', congrArg Json.arr ?_, hobjects.perm⟩
    have hflip : List.Forall₂ Eq items' (objects'.map Json.str) := List.forall₂_map_right_iff.2 hread'
    rwa [List.forall₂_eq_eq_eq] at hflip

end Document

/-! ## Readings -/

section Readings
variable {ρ : String → String}

/-- The facts say the same of one value. -/
inductive PointsToEntry.Same : Option PointsToEntry → Option PointsToEntry → Prop
  | skipped : Same none none
  | kept {c : Context} {v : Int} {objects objects' : List String} : objects.Perm objects' →
      Same (some ⟨c, v, objects⟩) (some ⟨c, v, objects'⟩)

/-- The readings of one analysis are those of the other one in other orders, with ids renamed. -/
structure Analysis.Same (ρ : String → String) (a a' : Analysis) : Prop where
  ids : (a.ids.map fun e => (ρ e.1, e.2)).Perm a'.ids
  entrypoints : a.entrypoints.Perm a'.entrypoints
  edges : a.edges.Perm a'.edges
  facts : Reordered PointsToEntry.Same a.facts a'.facts

/-- The catalogs find the same procedures and exclude the same classes. -/
structure Catalog.Same (cat cat' : Catalog) : Prop where
  excludes : cat'.excludes = cat.excludes
  find? : ∀ m, Catalog.find? cat'.procedures m = Catalog.find? cat.procedures m

theorem Catalog.ReadsContext.renamed {cat cat' : Catalog} (hcat : cat.Same cat') {v w : Json}
    {e : String × Option Context} (hvw : Document.RenamedContext ρ v w) (h : cat.ReadsContext v e) :
    cat'.ReadsContext w (ρ e.1, e.2) := by
  cases hvw with
  | object hid hprocedure hcontext =>
    cases h with
    | excluded hi hp hm he =>
      rw [hi] at hid
      exact .excluded hid (hprocedure.trans hp) hm (hcat.excludes ▸ he)
    | kept hi hp hm he hf hn =>
      rw [hi] at hid
      refine .kept hid (hprocedure.trans hp) hm (hcat.excludes ▸ he) ((hcat.find? _).trans hf) ?_
      rwa [Document.fieldOr, hcontext]

variable {ids ids' : Ids} (hids : ∀ id c, (id, c) ∈ ids → (ρ id, c) ∈ ids')
include hids

theorem Ids.Names.renamed {v : Json} {found : Option Context} (h : ids.Names v found) :
    ids'.Names (Document.renameId ρ v) found := by
  obtain ⟨id, rfl, hid⟩ := h
  exact ⟨ρ id, rfl, hids id found hid⟩

theorem Ids.ReadsEdge.renamed {v w : Json} {e : Option CallEdge} (hvw : Document.RenamedEdge ρ v w)
    (h : ids.ReadsEdge v e) : ids'.ReadsEdge w e := by
  cases hvw with
  | object hcaller hcallee hsite =>
    cases h with
    | skipped hv hc hw hd hnone =>
      rw [hv] at hcaller
      rw [hw] at hcallee
      exact .skipped hcaller (hc.renamed hids) hcallee (hd.renamed hids) hnone
    | kept hv hc hw hd hu hs hi =>
      rw [hv] at hcaller
      rw [hw] at hcallee
      exact .kept hcaller (hc.renamed hids) hcallee (hd.renamed hids) (hsite.trans hu) hs hi

theorem Ids.ReadsFact.renamed {v w : Json} {f : Option PointsToEntry} (hvw : Document.RearrangedFact ρ v w)
    (h : ids.ReadsFact v f) : ∃ f', ids'.ReadsFact w f' ∧ PointsToEntry.Same f f' := by
  cases hvw with
  | object hcontext hvalue hobjects =>
    cases h with
    | skipped hv hc =>
      rw [hv] at hcontext
      exact ⟨none, .skipped hcontext (hc.renamed hids), .skipped⟩
    | kept hv hc hu hi ho =>
      rw [hv] at hcontext
      rw [ho] at hobjects
      obtain ⟨objects', ho', hperm⟩ := hobjects.texts
      exact ⟨_, .kept hcontext (hc.renamed hids) (hvalue.trans hu) hi ho', .kept hperm⟩

end Readings

/-! ## Catalogs and models -/

namespace Catalog

section Reads
variable {ρ : String → String} {cat cat' : Catalog} {fields fields' : Document.Fields} {a : Analysis}

theorem Reads.mem_contextIds (h : cat.Reads fields a) {e : String × Option Context} (he : e ∈ a.ids) :
    e.1 ∈ Document.contextIds fields := by
  obtain ⟨items, hitems, hread⟩ := h.contexts
  obtain ⟨v, hv, hve⟩ := exists_of_mem_forall₂ hread he
  cases hve with
  | excluded hid => exact ⟨items, _, hitems, hv, hid⟩
  | kept hid => exact ⟨items, _, hitems, hv, hid⟩

/-- An analysis that is rearranged can be read, with readings that are rearranged. -/
theorem Reads.rearranged (hcat : cat.Same cat') (hf : Document.RearrangedAnalysis ρ fields fields')
    (h : cat.Reads fields a) : ∃ a', cat'.Reads fields' a' ∧ a.Same ρ a' := by
  obtain ⟨ids', hcontexts, hreordered⟩ := Document.ReadsSection.reorder hf.contexts
    (fun v w e hvw hv => ⟨_, hv.renamed hcat hvw, (rfl : (ρ e.1, e.2) = (ρ e.1, e.2))⟩) h.contexts
  have hids : (a.ids.map fun e => (ρ e.1, e.2)).Perm ids' := hreordered.perm_map
  have hrenamed : ∀ id c, (id, c) ∈ a.ids → (ρ id, c) ∈ ids' :=
    fun id c hc => hids.mem_iff.1 (List.mem_map.2 ⟨(id, c), hc, rfl⟩)
  have hnodup : (ids'.map (·.1)).Nodup := by
    have hkeys : (a.ids.map fun e => (ρ e.1, e.2)).map (·.1) = (a.ids.map (·.1)).map ρ := by simp
    rw [← (hids.map _).nodup_iff, hkeys]
    refine List.Nodup.map_on (fun id hid id' hid' heq => ?_) h.nodup
    obtain ⟨e, he, rfl⟩ := List.mem_map.1 hid
    obtain ⟨e', he', rfl⟩ := List.mem_map.1 hid'
    exact hf.injective (h.mem_contextIds he) (h.mem_contextIds he') heq
  obtain ⟨entrypoints', hentrypoints, hsame⟩ := Document.ReadsSection.permute hf.entrypoints
    (fun v w c hvw hv => hvw ▸ hv.renamed hrenamed) h.entrypoints
  obtain ⟨edges', hedges, hsame'⟩ := Document.ReadsSection.permute hf.edges
    (fun v w e hvw hv => hv.renamed hrenamed hvw) h.edges
  obtain ⟨facts', hfacts, hsame''⟩ := Document.ReadsSection.reorder hf.facts
    (fun v w f hvw hv => hv.renamed hrenamed hvw) h.facts
  exact ⟨⟨ids', entrypoints', edges', facts'⟩, ⟨hcontexts, hnodup, hentrypoints, hedges, hfacts⟩,
    hids, hsame, hsame', hsame''⟩

end Reads

/-- The procedures of a catalog may come in any order. -/
theorem collect_same {excludes : String → Bool} (analyses analyses' : List (String × Json)) {ps ps' : List Procedure}
    (hperm : ps.Perm ps') (hn : ((ps.filter (keeps excludes)).map (·.method)).Nodup) :
    (collect excludes analyses ps).Same (collect excludes analyses' ps') := by
  have hfilter := hperm.filter (keeps excludes)
  have hn' : ((ps'.filter (keeps excludes)).map (·.method)).Nodup := (hfilter.map _).nodup_iff.1 hn
  refine ⟨by rw [collect_excludes, collect_excludes], fun m => Option.ext fun p => ?_⟩
  rw [collect_procedures, collect_procedures, find?_eq_some_iff hn, find?_eq_some_iff hn', hfilter.mem_iff]

end Catalog

namespace DependenceGraph

/-- The graphs have the same nodes, edges and objects. -/
structure Alike (A B : DependenceGraph) : Prop where
  node : ∀ c, c ∈ A.calls.nodes ↔ c ∈ B.calls.nodes
  edge : ∀ e, e ∈ A.calls.edges ↔ e ∈ B.calls.edges
  objects : ∀ c v o, o ∈ A.pointsTo.objects c v ↔ o ∈ B.pointsTo.objects c v

section Alike
variable {A B : DependenceGraph}

theorem Alike.symm (h : Alike A B) : Alike B A where
  node c := (h.node c).symm
  edge e := (h.edge e).symm
  objects c v o := (h.objects c v o).symm

theorem Alike.coarsens (h : Alike A B) : Coarsens A B id where
  node c hc := (h.node c).1 hc
  procedure _ _ := rfl
  edge _ _ _ he := (h.edge _).1 he
  objects c _ v o ho := (h.objects c v o).1 ho

theorem Alike.holds (h : Alike A B) {s : Statement} (hs : A.calls.Holds s) : B.calls.Holds s := h.coarsens.holds hs

theorem Alike.made (h : Alike A B) {s : Statement} (hs : A.calls.Made s) : B.calls.Made s := by
  obtain ⟨c, hc, hmade⟩ := hs
  exact ⟨c, (h.node c).1 hc, hmade⟩

variable {data control : Level} {seeds : List Statement}

theorem Alike.closure_subset (h : Alike A B) (hA : A.calls.WellFormed) (hB : B.calls.WellFormed)
    (hs : ∀ s ∈ seeds, A.calls.Holds s) : A.closure data control seeds ⊆ B.closure data control seeds := by
  intro t ht
  have hmap : seeds.map (·.mapContext id) = seeds := List.map_id seeds
  exact hmap ▸ h.coarsens.closure hA hB hs ht

theorem Alike.closure_eq (h : Alike A B) (hA : A.calls.WellFormed) (hB : B.calls.WellFormed)
    (hs : ∀ s ∈ seeds, A.calls.Holds s) : A.closure data control seeds = B.closure data control seeds :=
  Set.Subset.antisymm (h.closure_subset hA hB hs) (h.symm.closure_subset hB hA fun s hmem => h.holds (hs s hmem))

/-- The slices have the same statements, or the budget fails for both. -/
inductive SameOutcome : Except Failure (List Statement) → Except Failure (List Statement) → Prop
  | slice {xs ys : List Statement} : (∀ t, t ∈ xs ↔ t ∈ ys) → SameOutcome (.ok xs) (.ok ys)
  | truncated (limit : Json) : SameOutcome (.error (.truncated limit)) (.error (.truncated limit))

/-- The outcome of slicing is that of a graph with the same nodes, edges and objects. -/
theorem Alike.sameOutcome (h : Alike A B) (hA : A.calls.WellFormed) (hB : B.calls.WellFormed) (limit : Option Int)
    (hs : ∀ s ∈ seeds, A.calls.Holds s) {x y : Index} (hx : x.Sound A.calls) (hy : y.Sound B.calls) :
    SameOutcome (A.forwardSlice data control limit seeds x).1 (B.forwardSlice data control limit seeds y).1 := by
  have hout := outcome_forwardSlice data control limit hA hs hx
  have hout' := outcome_forwardSlice data control limit hB (fun s hmem => h.holds (hs s hmem)) hy
  have heq : A.closure data control seeds = B.closure data control seeds := h.closure_eq hA hB hs
  by_cases hover : ∃ l, limit = some l ∧ l < (A.closure data control seeds).ncard
  · obtain ⟨l, hl, hlt⟩ := hover
    rw [(truncated_iff hout l).2 ⟨hl, hlt⟩, (truncated_iff hout' l).2 ⟨hl, heq ▸ hlt⟩]
    exact .truncated _
  · have hwithin : ∀ l, limit = some l → (A.closure data control seeds).ncard ≤ l := by
      intro l hl
      by_contra hlt
      exact hover ⟨l, hl, by omega⟩
    obtain ⟨slice, hslice, -, hmem⟩ := closure_of_outcome hout hwithin
    obtain ⟨slice', hslice', -, hmem'⟩ := closure_of_outcome hout' (heq ▸ hwithin)
    rw [hslice, hslice']
    exact .slice fun t => by rw [hmem, hmem', heq]

end Alike
end DependenceGraph

/-- Readings in other orders and with other ids make graphs that are alike. -/
theorem Analysis.Same.alike {ρ : String → String} {a a' : Analysis} (h : a.Same ρ a') {cat cat' : Catalog}
    {fields fields' : Document.Fields} (hr : cat.Reads fields a) (hr' : cat'.Reads fields' a') (name : String) :
    (a.model name).dependence.Alike (a'.model name).dependence where
  node c := by
    rw [Model.dependence, Model.dependence, hr.mem_nodes, hr'.mem_nodes]
    simp only [← h.ids.mem_iff, List.mem_map, Prod.mk.injEq]
    constructor
    · rintro ⟨id, hid⟩
      exact ⟨ρ id, (id, some c), hid, rfl, rfl⟩
    · rintro ⟨_, ⟨id, _⟩, hid, rfl, rfl⟩
      exact ⟨id, hid⟩
  edge e := by
    rw [Model.dependence, Model.dependence, hr.mem_edges, hr'.mem_edges, h.edges.mem_iff]
  objects c v o := by
    show o ∈ (PointsTo.gather _).objects c v ↔ o ∈ (PointsTo.gather _).objects c v
    simp only [PointsTo.mem_objects_gather, List.reduceOption_mem_iff]
    constructor
    · rintro ⟨f, hf, hc, hv, ho⟩
      obtain ⟨_, hf', hsame⟩ := h.facts.exists_image hf
      cases hsame with
      | kept hperm => exact ⟨_, hf', hc, hv, hperm.mem_iff.1 ho⟩
    · rintro ⟨f, hf, hc, hv, ho⟩
      obtain ⟨_, hf', hsame⟩ := h.facts.exists_origin hf
      cases hsame with
      | kept hperm => exact ⟨_, hf', hc, hv, hperm.mem_iff.2 ho⟩

/-! ## Slices -/

namespace Model

open DependenceGraph

/-- A document that is rearranged is loaded if the document itself is, and the graphs are alike. -/
theorem ofJson_rearranged {excludes : String → Bool} {doc doc' : Json} {name : String} {ρ : String → String} {m : Model}
    (h : Document.Rearranged ρ name doc doc') (hm : Model.ofJson excludes doc name = .ok m) :
    ∃ m', Model.ofJson excludes doc' name = .ok m' ∧ m.dependence.Alike m'.dependence := by
  obtain ⟨cat, hcat, hload⟩ := ofJson_eq_ok.1 hm
  obtain ⟨analyses, ps, ⟨fields, items, rfl, hanalyses, hitems, hread⟩, hn, rfl⟩ := Catalog.ofJson_iff.1 hcat
  unfold Catalog.load at hload
  obtain ⟨entries, hsnapshot, hload⟩ := bind_eq_ok.1 hload
  obtain ⟨a, hr, rfl⟩ := Catalog.modelOf_eq_ok.1 hload
  cases h with
  | @document _ fields' listed analyses' entries' entries'' hprocedures hlisted hanalyses' hentries hentries' hanalysis =>
    obtain rfl : listed = analyses := by simpa [Document.fieldOr, hlisted] using hanalyses
    rw [Catalog.snapshot_eq_ok, Catalog.collect_analyses, hentries] at hsnapshot
    obtain rfl : entries' = entries := by simpa using hsnapshot
    obtain ⟨ps', ⟨items', hitems', hread'⟩, hps⟩ := Document.ReadsSection.permute hprocedures
      (fun v w p hvw hv => hvw ▸ hv) ⟨items, hitems, hread⟩
    obtain ⟨a', hr', hsame⟩ := hr.rearranged (Catalog.collect_same listed analyses' hps hn) hanalysis
    refine ⟨a'.model name, ofJson_eq_ok.2 ⟨Catalog.collect excludes analyses' ps', Catalog.ofJson_iff.2 ?_, ?_⟩,
      hsame.alike hr hr' name⟩
    · refine ⟨analyses', ps', ⟨fields', items', rfl, ?_, hitems', hread'⟩, ?_, rfl⟩
      · simp [Document.fieldOr, hanalyses']
      · exact ((hps.filter _).map _).nodup_iff.1 hn
    · unfold Catalog.load
      refine bind_eq_ok.2 ⟨entries'', Catalog.snapshot_eq_ok.2 ?_, Catalog.modelOf_eq_ok.2 ⟨a', hr', rfl⟩⟩
      rw [Catalog.collect_analyses, hentries']

/-- The order of the entries of a document and the ids of its contexts do not matter: a document that is rearranged is
loaded too, and every slice has the same statements or fails for the same budget. -/
theorem slice_rearranged {excludes : String → Bool} {doc doc' : Json} {name : String} {ρ : String → String} {m : Model}
    (h : Document.Rearranged ρ name doc doc') (hm : Model.ofJson excludes doc name = .ok m) :
    ∃ m', Model.ofJson excludes doc' name = .ok m' ∧
      ∀ (data control : Level) (limit : Option Int) (seeds : List Statement), (∀ s ∈ seeds, m.calls.Made s) →
        ∀ x y : Index, x.Sound m.calls → y.Sound m'.calls → (∀ s ∈ seeds, m'.calls.Made s) ∧
          SameOutcome (m.dependence.forwardSlice data control limit seeds x).1
            (m'.dependence.forwardSlice data control limit seeds y).1 := by
  obtain ⟨m', hm', halike⟩ := ofJson_rearranged h hm
  refine ⟨m', hm', fun data control limit seeds hseeds x y hx hy => ⟨fun s hs => halike.made (hseeds s hs), ?_⟩⟩
  have hA : m.dependence.calls.WellFormed := (loaded_of_ofJson hm).wellFormed
  have hB : m'.dependence.calls.WellFormed := (loaded_of_ofJson hm').wellFormed
  exact halike.sameOutcome hA hB limit (fun s hs => (hseeds s hs).holds) hx hy

end Model

/-! ## A program with two ids exchanged -/

namespace Sample

def exchange (id : String) : String := if id = "a" then "m" else if id = "m" then "a" else id

theorem exchange_involutive : Function.Involutive exchange := by
  intro id
  unfold exchange
  by_cases ha : id = "a"
  · subst ha
    decide
  · by_cases hm : id = "m"
    · subst hm
      decide
    · simp [ha, hm]

/-- The program with several ids for a context, from the last entry of each section to the first. -/
def exchangedDocument : Json := .obj [
  ("procedures", .arr [mainEntry, countEntry, walkEntry].reverse),
  ("analyses", .obj [
    ("0cfa", .obj [
      ("contexts", .arr [
        .obj [("id", .str "m"), ("procedure", .str "Box.walk(I)I")],
        .obj [("id", .str "a"), ("procedure", .str " Box.main()V")],
        .obj [("id", .str "b"), ("procedure", .str "Box.walk(I)I"), ("context", .str "Everywhere")]].reverse),
      ("entrypoints", .arr [.str "b", .str "a", .str "m"].reverse),
      ("edges", .arr [edge "a" 1 "m", edge "b" 1 "m", edge "a" 1 "b", edge "m" 1 "b"].reverse),
      ("points_to", .arr [
        .obj [("context", .str "m"), ("value", .int 1), ("objects", .arr [.str "first"])],
        .obj [("context", .str "a"), ("value", .int 1), ("objects", .arr [])],
        .obj [("context", .str "b"), ("value", .int 1), ("objects", .arr [.str "first", .str "second"])],
        .obj [("context", .str "a"), ("value", .int 1), ("objects", .arr [.str "second"])]].reverse)])])]

/-- What the program with several ids for a context is loaded as. -/
def aliasedModel : Model where
  name := "0cfa"
  calls := {
    nodes := [merged walk, merged main]
    byMethod := [(walk.method, [merged walk]), (main.method, [merged main])]
    entrypoints := [merged walk, merged main]
    edges := [.of (merged main) 1 (merged walk), .of (merged walk) 1 (merged walk)] }
  pointsTo := ⟨[⟨merged walk, 1, ["first", "second"]⟩, ⟨merged main, 1, ["second"]⟩]⟩
  contexts := aliased.contexts

def counts (path : String) : Bool := path == "lib/Count"

theorem aliasedModel_loaded : Model.ofJson counts aliasedDocument "0cfa" = .ok aliasedModel :=
  ofJson_of_gives (by decide +kernel : gives counts aliasedDocument "0cfa" aliasedModel = true)

theorem exchanged_rearranged : Document.Rearranged exchange "0cfa" aliasedDocument exchangedDocument := by
  refine .document ⟨_, _, rfl, rfl, .of_perm (List.reverse_perm _).symm⟩ rfl rfl rfl rfl
    ⟨?injective, ⟨_, _, rfl, rfl, _, ?contexts, (List.reverse_perm _).symm⟩,
      ⟨_, _, rfl, rfl, _, ?entrypoints, (List.reverse_perm _).symm⟩,
      ⟨_, _, rfl, rfl, _, ?edges, (List.reverse_perm _).symm⟩, ⟨_, _, rfl, rfl, _, ?facts, (List.reverse_perm _).symm⟩⟩
  case injective => exact exchange_involutive.injective.injOn
  case contexts => exact .cons (.object rfl rfl rfl) (.cons (.object rfl rfl rfl) (.cons (.object rfl rfl rfl) .nil))
  case entrypoints => exact .cons rfl (.cons rfl (.cons rfl .nil))
  case edges =>
    exact .cons (.object rfl rfl rfl) (.cons (.object rfl rfl rfl) (.cons (.object rfl rfl rfl)
      (.cons (.object rfl rfl rfl) .nil)))
  case facts =>
    exact .cons (.object rfl rfl (.same _)) (.cons (.object rfl rfl (.same _)) (.cons
      (.object rfl rfl (.list (.swap _ _ _))) (.cons (.object rfl rfl (.same _)) .nil)))

end Sample

/-- Exchanging ids and turning all sections around leaves the slices of the store as they are. -/
theorem Model.slice_rearranged_exchanged :
    Document.Rearranged Sample.exchange "0cfa" Sample.aliasedDocument Sample.exchangedDocument ∧
    Model.ofJson Sample.counts Sample.aliasedDocument "0cfa" = .ok Sample.aliasedModel ∧
    Sample.aliasedModel.calls.Made Sample.store ∧
    ∃ m', Model.ofJson Sample.counts Sample.exchangedDocument "0cfa" = .ok m' ∧ ∀ limit : Option Int,
      DependenceGraph.SameOutcome (Sample.aliasedModel.dependence.forwardSlice .full .full limit [Sample.store] {}).1
        (m'.dependence.forwardSlice .full .full limit [Sample.store] {}).1 := by
  have hmade : Sample.aliasedModel.calls.Made Sample.store := Sample.made_store (by simp [Sample.aliasedModel])
  have hseeds : ∀ s ∈ [Sample.store], Sample.aliasedModel.calls.Made s := by simpa using hmade
  obtain ⟨m', hm', hslices⟩ := Model.slice_rearranged Sample.exchanged_rearranged Sample.aliasedModel_loaded
  refine ⟨Sample.exchanged_rearranged, Sample.aliasedModel_loaded, hmade, m', hm', fun limit => ?_⟩
  exact (hslices .full .full limit _ hseeds {} {} (Index.sound_empty _) (Index.sound_empty _)).2

end ForwardSlicing
