import ForwardSlicing.Proofs.SliceSafety
/-!
# Excluding classes is deleting them from the document

`Document.withoutClasses` takes the excluded classes out of a document: their procedures and, in one analysis, their
contexts, the entry points and calls that name one of these, and what is known of their values. It looks at the document
alone. `Model.ofJson_withoutClasses`: where loading leaves the classes out, loading what is left of the document leaves
nothing out and gives the same model.

Each section of the document is one loop, and loading runs it over more entries than are left. `foldlM_filter` compares
the two runs, given what one entry does to each (`addProcedure_plain`, `addContext_plain` and so on).
-/

namespace ForwardSlicing

/-! ## Documents without the excluded classes -/

namespace Document

/-- The text in a field of an entry. -/
def textOf? (key : String) : Json → Option String
  | .obj fields =>
    match Json.lookup fields key with
    | some (.str s) => some s
    | _ => none
  | _ => none

/-- The method that a field of an entry names. -/
def methodOf? (key : String) : Json → Option Method
  | .obj fields => (Json.lookup fields key).bind fun v => (Method.ofJson v).toOption
  | _ => none

/-- A field of the entry names a method of an excluded class. -/
def inExcluded (excludes : String → Bool) (key : String) (entry : Json) : Bool :=
  (methodOf? key entry).any fun m => excludes m.classPath

/-- A field of the entry is one of the ids. -/
def mentions (ids : List String) (key : String) (entry : Json) : Bool := (textOf? key entry).any ids.contains

/-- The value is one of the ids. -/
def isAmong (ids : List String) : Json → Bool
  | .str id => ids.contains id
  | _ => false

/-- The entries that remain in a list. -/
def keepItems (keep : Json → Bool) : Json → Json
  | .arr items => .arr (items.filter keep)
  | v => v

/-- Changes the fields of an object. -/
def changeObject (f : Fields → Fields) : Json → Json
  | .obj fields => .obj (f fields)
  | v => v

/-- Changes a field, if it is there. -/
def changeField (key : String) (f : Json → Json) (fields : Fields) : Fields :=
  fields.map fun e => if e.1 == key then (e.1, f e.2) else e

/-- The id of a context whose class is excluded. -/
def excludedId? (excludes : String → Bool) (entry : Json) : Option String :=
  if inExcluded excludes "procedure" entry then textOf? "id" entry else none

/-- The ids of the contexts of an analysis whose classes are excluded. -/
def excludedIds (excludes : String → Bool) (fields : Fields) : List String :=
  match fieldOr fields "contexts" (.arr []) with
  | .arr items => items.filterMap (excludedId? excludes)
  | _ => []

/-- An analysis without the contexts of excluded classes and without all that names one of them. -/
def withoutContexts (excludes : String → Bool) (fields : Fields) : Fields :=
  let ids := excludedIds excludes fields
  changeField "contexts" (keepItems fun e => !inExcluded excludes "procedure" e) <|
  changeField "entrypoints" (keepItems fun e => !isAmong ids e) <|
  changeField "edges" (keepItems fun e => !(mentions ids "caller" e || mentions ids "callee" e)) <|
  changeField "points_to" (keepItems fun e => !mentions ids "context" e) fields

/-- Analyses, one of them without the contexts of excluded classes. -/
def withoutContextsIn (excludes : String → Bool) (name : String) (analyses : Fields) : Fields :=
  changeField name (changeObject (withoutContexts excludes)) analyses

/-- A document without the excluded classes, in its procedures and in one of its analyses. -/
def withoutClasses (excludes : String → Bool) (name : String) : Json → Json :=
  changeObject fun fields =>
    changeField "procedures" (keepItems fun e => !inExcluded excludes "signature" e) <|
    changeField "analyses" (changeObject (withoutContextsIn excludes name)) fields

/-! ## Fields -/

section Fields
variable {key : String} {fields : Fields} {v : Json}

theorem textOf?_obj {s : String} (h : Json.lookup fields key = some (.str s)) : textOf? key (.obj fields) = some s := by
  simp [textOf?, h]

theorem inExcluded_obj {excludes : String → Bool} {m : Method} (h : Json.lookup fields key = some v)
    (hm : Method.ofJson v = .ok m) : inExcluded excludes key (.obj fields) = excludes m.classPath := by
  simp [inExcluded, methodOf?, h, hm, Except.toOption]

theorem lookup_changeField (key : String) (f : Json → Json) (fields : Fields) (k : String) :
    Json.lookup (changeField key f fields) k =
      if k = key then (Json.lookup fields k).map f else Json.lookup fields k := by
  induction fields with
  | nil => simp [changeField, Json.lookup]
  | cons e fields ih =>
    unfold changeField Json.lookup at ih ⊢
    by_cases he : e.1 = k
    · by_cases hk : k = key
      · simp [he, hk]
      · simp [he, hk]
    · by_cases hk : e.1 = key
      · have hne : k ≠ key := fun h => he (hk.trans h.symm)
        simpa [he, hk, hne, Ne.symm hne] using ih
      · simpa [he, hk] using ih

/-- A field that is changed, where a missing one is not. -/
theorem fieldOr_changeField_self {f : Json → Json} {default : Json} (hf : f default = default) :
    fieldOr (changeField key f fields) key default = f (fieldOr fields key default) := by
  unfold fieldOr
  rw [lookup_changeField, if_pos rfl]
  cases Json.lookup fields key with
  | none => exact hf.symm
  | some w => rfl

theorem fieldOr_changeField_of_ne {f : Json → Json} {default : Json} {k : String} (h : k ≠ key) :
    fieldOr (changeField key f fields) k default = fieldOr fields k default := by
  unfold fieldOr
  rw [lookup_changeField, if_neg h]

end Fields
end Document

/-! ## Two runs -/

/-- A run over all entries and one over those that are kept, where one state is a view of the other one: an entry that is
kept does the same to both, and one that is not kept changes nothing in view. -/
theorem foldlM_filter {ε α β γ : Type} {f : β → α → Except ε β} {g : γ → α → Except ε γ} {keep : α → Bool} {view : β → γ}
    {P : β → Prop} (hkeep : ∀ b a b', P b → f b a = .ok b' → P b' ∧ (keep a = true → g (view b) a = .ok (view b')) ∧
      (keep a = false → view b' = view b)) {xs : List α} {b b' : β} (hb : P b) (h : xs.foldlM f b = .ok b') :
    (xs.filter keep).foldlM g (view b) = .ok (view b') := by
  induction xs generalizing b with
  | nil =>
    simp only [List.foldlM_nil, pure, Except.pure, Except.ok.injEq] at h
    rw [h]
    rfl
  | cons a xs ih =>
    rw [List.foldlM_cons, bind_eq_ok] at h
    obtain ⟨b₁, h₁, h⟩ := h
    obtain ⟨hb₁, hkept, hleft⟩ := hkeep b a b₁ hb h₁
    cases ha : keep a with
    | true =>
      rw [List.filter_cons_of_pos ha, List.foldlM_cons, hkept ha]
      exact ih hb₁ h
    | false =>
      rw [List.filter_cons_of_neg (by simp [ha]), ← hleft ha]
      exact ih hb₁ h

namespace Catalog

open Document

/-! ## Procedures -/

/-- The catalog with other analyses, which leaves nothing out. -/
def plain (analyses : List (String × Json)) (cat : Catalog) : Catalog := ⟨analyses, cat.procedures, [], fun _ => false⟩

theorem method_of_checked {m : Method} {n : Nat} {body : List Instruction} {p : Procedure}
    (h : checkedProcedure m n body = .ok p) : p.method = m := by
  unfold checkedProcedure at h
  split at h
  · rw [← Except.ok.inj h]
  · cases h

/-- The signature of an entry names the method of its procedure. -/
theorem inExcluded_procedure {excludes : String → Bool} {v : Json} {p : Procedure} (h : Document.procedure v = .ok p) :
    inExcluded excludes "signature" v = excludes p.method.classPath := by
  unfold Document.procedure at h
  simp only [bind_eq_ok] at h
  obtain ⟨fields, hobj, given, hgiven, m, hm, _, -, _, -, _, -, h⟩ := h
  rw [object_eq_ok.1 hobj, inExcluded_obj (field_eq_ok.1 hgiven) (method_eq_ok.1 hm), method_of_checked h]

/-- The catalog keeps its excluded classes while procedures are added, and none of these is of such a class. -/
structure Keeps (excludes : String → Bool) (cat : Catalog) : Prop where
  excludes_eq : cat.excludes = excludes
  procedure : ∀ p ∈ cat.procedures, excludes p.method.classPath = false

theorem addProcedure_plain {excludes : String → Bool} {cat cat' : Catalog} {v : Json} (analyses : List (String × Json))
    (hcat : cat.Keeps excludes) (h : cat.addProcedure v = .ok cat') :
    cat'.Keeps excludes ∧
    ((!inExcluded excludes "signature" v) = true → (cat.plain analyses).addProcedure v = .ok (cat'.plain analyses)) ∧
    ((!inExcluded excludes "signature" v) = false → cat'.plain analyses = cat.plain analyses) := by
  obtain ⟨rfl, hprocedure⟩ := hcat
  obtain ⟨p, hp, ⟨he, methods, rfl⟩ | ⟨he, hnew, rfl⟩⟩ := addProcedure_cases h
  · rw [inExcluded_procedure hp, he]
    exact ⟨⟨rfl, hprocedure⟩, by simp, fun _ => rfl⟩
  · rw [inExcluded_procedure hp, he]
    refine ⟨⟨rfl, fun q hq => ?_⟩, fun _ => ?_, by simp⟩
    · rcases List.mem_append.1 hq with hq | hq
      · exact hprocedure q hq
      · rwa [List.mem_singleton.1 hq]
    · unfold addProcedure
      rw [hp]
      simp [plain, bind, Except.bind, hnew, pure, Except.pure]

/-! ## Contexts -/

/-- What is loaded, without the ids that were left out. -/
def Loading.plain (l : Loading) : Loading := { l with dropped := [] }

section Steps
variable {cat : Catalog} {l l' : Loading} {v : Json}

/-- A context of an excluded class leaves its id; any other one is added, whether classes are left out or not. -/
theorem addContext_plain (analyses : List (String × Json)) (h : cat.addContext l v = .ok l') :
    l'.dropped = l.dropped ++ (excludedId? cat.excludes v).toList ∧
    ((!inExcluded cat.excludes "procedure" v) = true → (cat.plain analyses).addContext l.plain v = .ok l'.plain) ∧
    ((!inExcluded cat.excludes "procedure" v) = false → l'.plain = l.plain) := by
  obtain ⟨fields, id, signature, m, rfl, hid, hsignature, hm, hfree, -, hcases⟩ := addContext_eq_ok.1 h
  rw [excludedId?, textOf?_obj hid, inExcluded_obj hsignature hm]
  rcases hcases with ⟨he, rfl⟩ | ⟨he, p, name, hp, hname, rfl⟩
  · rw [he]
    exact ⟨rfl, by simp, fun _ => rfl⟩
  · rw [he]
    refine ⟨by simp, fun _ => ?_, by simp⟩
    rw [addContext_eq_ok]
    exact ⟨fields, id, signature, m, rfl, hid, hsignature, hm, hfree, by simp [Loading.plain],
      .inr ⟨rfl, p, name, hp, hname, rfl⟩⟩

theorem dropped_addContexts {items : List Json} (h : items.foldlM cat.addContext l = .ok l') :
    l'.dropped = l.dropped ++ items.filterMap (excludedId? cat.excludes) := by
  induction items generalizing l with
  | nil =>
    simp only [List.foldlM_nil, pure, Except.pure, Except.ok.injEq] at h
    simp [h]
  | cons v items ih =>
    rw [List.foldlM_cons, bind_eq_ok] at h
    obtain ⟨l₁, h₁, h⟩ := h
    rw [ih h, (addContext_plain [] h₁).1, List.filterMap_cons]
    cases excludedId? cat.excludes v with
    | none => simp
    | some id => simp

/-! ## Facts about contexts -/

/-- Any other id than those that were left out is resolved to its context, whether ids were left out or not. -/
theorem resolve_plain {place : String} {found : Option Context} (h : resolve l place v = .ok found) :
    ∃ id, v = .str id ∧ ((id ∈ l.dropped ∧ found = none) ∨
      (id ∉ l.dropped ∧ ∃ c, found = some c ∧ resolve l.plain place v = .ok (some c))) := by
  obtain ⟨id, rfl, ⟨hid, hfound⟩ | ⟨hid, c, hc, hfound⟩⟩ := resolve_eq_ok.1 h
  · exact ⟨id, rfl, .inl ⟨hid, hfound⟩⟩
  · refine ⟨id, rfl, .inr ⟨hid, c, hfound, ?_⟩⟩
    rw [resolve_eq_ok]
    exact ⟨id, rfl, .inr ⟨by simp [Loading.plain], c, hc, rfl⟩⟩

/-- A field of an entry that is resolved mentions an id that was left out exactly if it is resolved to nothing. -/
theorem resolve_field_plain {place place' key : String} {fields : Fields} {found : Option Context}
    (hfield : Document.field place fields key = .ok v) (h : resolve l place' v = .ok found) :
    (mentions l.dropped key (.obj fields) = true ∧ found = none) ∨
    (mentions l.dropped key (.obj fields) = false ∧ ∃ c, found = some c ∧ resolve l.plain place' v = .ok (some c)) := by
  obtain ⟨id, rfl, hcases⟩ := resolve_plain h
  have htext : textOf? key (.obj fields) = some id := textOf?_obj (field_eq_ok.1 hfield)
  simpa [mentions, htext] using hcases

/-- An entry keeps the ids that were left out; it does the same whether ids were left out or not if it is kept, and
otherwise it does nothing. -/
def StepKeeps (keep : List String → Json → Bool) (add : Loading → Json → Except Failure Loading) : Prop :=
  ∀ l v l', add l v = .ok l' → l'.dropped = l.dropped ∧ (keep l.dropped v = true → add l.plain v = .ok l'.plain) ∧
    (keep l.dropped v = false → l'.plain = l.plain)

theorem addEntrypoint_plain : StepKeeps (fun ids v => !isAmong ids v) addEntrypoint := by
  intro l v l' h
  unfold addEntrypoint at h
  rw [bind_eq_ok] at h
  obtain ⟨found, hfound, h⟩ := h
  obtain ⟨id, rfl, ⟨hid, rfl⟩ | ⟨hid, c, rfl, hc⟩⟩ := resolve_plain hfound
  · have hamong : isAmong l.dropped (.str id) = true := List.contains_iff_mem.2 hid
    rw [← Except.ok.inj h]
    exact ⟨rfl, by simp [hamong], fun _ => rfl⟩
  · have hamong : isAmong l.dropped (.str id) = false := by simpa [isAmong] using hid
    rw [← Except.ok.inj h]
    refine ⟨rfl, fun _ => ?_, by simp [hamong]⟩
    unfold addEntrypoint
    rw [bind_eq_ok]
    exact ⟨some c, hc, rfl⟩

theorem addEdge_plain :
    StepKeeps (fun ids v => !(mentions ids "caller" v || mentions ids "callee" v)) addEdge := by
  intro l v l' h
  unfold addEdge at h
  simp only [bind_eq_ok] at h
  obtain ⟨fields, hobj, v₁, hv₁, caller, hcaller, v₂, hv₂, callee, hcallee, h⟩ := h
  rw [object_eq_ok.1 hobj]
  obtain ⟨hm₁, rfl⟩ | ⟨hm₁, c, rfl, hc⟩ := resolve_field_plain hv₁ hcaller
  · rw [← Except.ok.inj h]
    exact ⟨rfl, by simp [hm₁], fun _ => rfl⟩
  · obtain ⟨hm₂, rfl⟩ | ⟨hm₂, d, rfl, hd⟩ := resolve_field_plain hv₂ hcallee
    · rw [← Except.ok.inj h]
      exact ⟨rfl, by simp [hm₂], fun _ => rfl⟩
    · simp only [bind_eq_ok] at h
      obtain ⟨w, hw, site, hsite, calls, hcalls, h⟩ := h
      rw [← Except.ok.inj h]
      refine ⟨rfl, fun _ => ?_, by simp [hm₁, hm₂]⟩
      unfold addEdge
      simp only [bind_eq_ok]
      refine ⟨fields, rfl, v₁, hv₁, some c, hc, v₂, hv₂, some d, hd, ?_⟩
      simp only [bind_eq_ok]
      exact ⟨w, hw, site, hsite, calls, hcalls, rfl⟩

theorem addFact_plain : StepKeeps (fun ids v => !mentions ids "context" v) addFact := by
  intro l v l' h
  unfold addFact at h
  simp only [bind_eq_ok] at h
  obtain ⟨fields, hobj, v₁, hv₁, found, hfound, h⟩ := h
  rw [object_eq_ok.1 hobj]
  obtain ⟨hm, rfl⟩ | ⟨hm, c, rfl, hc⟩ := resolve_field_plain hv₁ hfound
  · rw [← Except.ok.inj h]
    exact ⟨rfl, by simp [hm], fun _ => rfl⟩
  · simp only [bind_eq_ok] at h
    obtain ⟨w, hw, value, hvalue, items, hitems, objects, hobjects, h⟩ := h
    rw [← Except.ok.inj h]
    refine ⟨rfl, fun _ => ?_, by simp [hm]⟩
    unfold addFact
    simp only [bind_eq_ok]
    refine ⟨fields, rfl, v₁, hv₁, some c, hc, ?_⟩
    simp only [bind_eq_ok]
    exact ⟨w, hw, value, hvalue, items, hitems, objects, hobjects, rfl⟩

end Steps

/-! ## Sections -/

section Sections
variable {fields fields' : Fields} {key : String} {l l' : Loading}

theorem addSection_plain {keep : List String → Json → Bool} {add : Loading → Json → Except Failure Loading}
    (hadd : StepKeeps keep add)
    (hfields : fieldOr fields' key (.arr []) = keepItems (keep l.dropped) (fieldOr fields key (.arr [])))
    (h : addSection fields key add l = .ok l') :
    l'.dropped = l.dropped ∧ addSection fields' key add l.plain = .ok l'.plain := by
  obtain ⟨items, hitems, h⟩ := addSection_eq_ok.1 h
  have hstep : ∀ a v b, a.dropped = l.dropped → add a v = .ok b → b.dropped = l.dropped ∧
      (keep l.dropped v = true → add a.plain v = .ok b.plain) ∧ (keep l.dropped v = false → b.plain = a.plain) := by
    intro a v b ha hab
    have hk := hadd a v b hab
    rwa [ha] at hk
  refine ⟨foldlM_keeps (fun a v b ha hab => (hstep a v b ha hab).1) rfl h, ?_⟩
  rw [addSection_eq_ok]
  exact ⟨items.filter (keep l.dropped), by rw [hfields, hitems, keepItems], foldlM_filter hstep rfl h⟩

/-- The contexts of an analysis leave the ids of the excluded ones. -/
theorem addContexts_plain {cat : Catalog} (analyses : List (String × Json))
    (hfields : fieldOr fields' "contexts" (.arr []) =
      keepItems (fun e => !inExcluded cat.excludes "procedure" e) (fieldOr fields "contexts" (.arr [])))
    (h : addSection fields "contexts" cat.addContext {} = .ok l') :
    l'.dropped = excludedIds cat.excludes fields ∧
      addSection fields' "contexts" (cat.plain analyses).addContext {} = .ok l'.plain := by
  obtain ⟨items, hitems, h⟩ := addSection_eq_ok.1 h
  constructor
  · rw [dropped_addContexts h, excludedIds, hitems]
    rfl
  · rw [addSection_eq_ok]
    refine ⟨items.filter fun e => !inExcluded cat.excludes "procedure" e, by rw [hfields, hitems, keepItems], ?_⟩
    have hstep : ∀ a v b, True → cat.addContext a v = .ok b → True ∧
        ((!inExcluded cat.excludes "procedure" v) = true → (cat.plain analyses).addContext a.plain v = .ok b.plain) ∧
        ((!inExcluded cat.excludes "procedure" v) = false → b.plain = a.plain) :=
      fun _ _ _ _ hab => ⟨trivial, (addContext_plain analyses hab).2⟩
    exact foldlM_filter hstep trivial h

theorem fieldOr_withoutContexts (excludes : String → Bool) (fields : Fields) :
    fieldOr (withoutContexts excludes fields) "contexts" (.arr []) =
      keepItems (fun e => !inExcluded excludes "procedure" e) (fieldOr fields "contexts" (.arr [])) ∧
    fieldOr (withoutContexts excludes fields) "entrypoints" (.arr []) =
      keepItems (fun e => !isAmong (excludedIds excludes fields) e) (fieldOr fields "entrypoints" (.arr [])) ∧
    fieldOr (withoutContexts excludes fields) "edges" (.arr []) =
      keepItems (fun e => !(mentions (excludedIds excludes fields) "caller" e ||
        mentions (excludedIds excludes fields) "callee" e)) (fieldOr fields "edges" (.arr [])) ∧
    fieldOr (withoutContexts excludes fields) "points_to" (.arr []) =
      keepItems (fun e => !mentions (excludedIds excludes fields) "context" e) (fieldOr fields "points_to" (.arr [])) := by
  unfold withoutContexts
  dsimp only
  refine ⟨?_, ?_, ?_, ?_⟩
  · rw [fieldOr_changeField_self rfl, fieldOr_changeField_of_ne (by decide), fieldOr_changeField_of_ne (by decide),
      fieldOr_changeField_of_ne (by decide)]
  · rw [fieldOr_changeField_of_ne (by decide), fieldOr_changeField_self rfl, fieldOr_changeField_of_ne (by decide),
      fieldOr_changeField_of_ne (by decide)]
  · rw [fieldOr_changeField_of_ne (by decide), fieldOr_changeField_of_ne (by decide), fieldOr_changeField_self rfl,
      fieldOr_changeField_of_ne (by decide)]
  · rw [fieldOr_changeField_of_ne (by decide), fieldOr_changeField_of_ne (by decide),
      fieldOr_changeField_of_ne (by decide), fieldOr_changeField_self rfl]

/-- What is left of an analysis gives the model that the analysis gives. -/
theorem modelOf_plain {cat : Catalog} (analyses : List (String × Json)) {name : String} {m : Model}
    (h : cat.modelOf name fields = .ok m) :
    (cat.plain analyses).modelOf name (withoutContexts cat.excludes fields) = .ok m := by
  unfold modelOf at h
  simp only [bind_eq_ok] at h
  obtain ⟨l₁, h₁, l₂, h₂, l₃, h₃, l₄, h₄, h⟩ := h
  obtain ⟨hcontexts, hentrypoints, hedges, hfacts⟩ := fieldOr_withoutContexts cat.excludes fields
  obtain ⟨d₁, k₁⟩ := addContexts_plain analyses hcontexts h₁
  obtain ⟨d₂, k₂⟩ := addSection_plain addEntrypoint_plain (by rw [d₁]; exact hentrypoints) h₂
  obtain ⟨d₃, k₃⟩ := addSection_plain addEdge_plain (by rw [d₂, d₁]; exact hedges) h₃
  obtain ⟨-, k₄⟩ := addSection_plain addFact_plain (by rw [d₃, d₂, d₁]; exact hfacts) h₄
  rw [← Except.ok.inj h]
  unfold modelOf
  simp only [bind_eq_ok]
  exact ⟨_, k₁, _, k₂, _, k₃, _, k₄, rfl⟩

end Sections

/-! ## Documents -/

/-- The procedures of a document, and those that are left. -/
theorem ofJson_plain {excludes : String → Bool} {doc : Json} {cat : Catalog} (name : String)
    (h : ofJson excludes doc = .ok cat) :
    ofJson (fun _ => false) (withoutClasses excludes name doc) =
        .ok (cat.plain (withoutContextsIn excludes name cat.analyses)) ∧ cat.Keeps excludes := by
  obtain ⟨fields, analyses, items, rfl, hanalyses, hitems, h⟩ := ofJson_eq_ok.1 h
  have hstart : Keeps excludes ⟨analyses, [], [], excludes⟩ := ⟨rfl, by simp⟩
  refine ⟨?_, foldlM_keeps (fun _ _ _ hb hab => (addProcedure_plain [] hb hab).1) hstart h⟩
  rw [ofJson_eq_ok, analyses_of_foldlM h]
  refine ⟨_, withoutContextsIn excludes name analyses, items.filter fun e => !inExcluded excludes "signature" e,
    rfl, ?_, ?_, ?_⟩
  · rw [fieldOr_changeField_of_ne (by decide), fieldOr_changeField_self rfl, hanalyses]
    rfl
  · rw [fieldOr_changeField_self rfl, fieldOr_changeField_of_ne (by decide), hitems]
    rfl
  · exact foldlM_filter (fun _ _ _ hb hab => addProcedure_plain _ hb hab) hstart h

end Catalog

namespace Model

open Document

/-- No node of a model that is loaded is of an excluded class. -/
theorem classPath_of_mem_nodes {excludes : String → Bool} {doc : Json} {name : String} {m : Model}
    (h : ofJson excludes doc name = .ok m) {c : Context} (hc : c ∈ m.calls.nodes) :
    excludes c.method.classPath = false := by
  obtain ⟨cat, hcat, hload⟩ := ofJson_eq_ok.1 h
  obtain ⟨fields, -, hmodel⟩ := bind_eq_ok.1 hload
  have hfind := (Catalog.modelOf_grown hmodel).1.node c hc
  exact (Catalog.ofJson_plain name hcat).2.procedure _ (List.mem_of_find?_eq_some hfind)

/-- Where classes are left out of a model, the document without these classes gives the same model with nothing left
out. No node of it is of such a class, and no slice has a statement of one. -/
theorem ofJson_withoutClasses {excludes : String → Bool} {doc : Json} {name : String} {m : Model}
    (h : ofJson excludes doc name = .ok m) :
    ofJson (fun _ => false) (withoutClasses excludes name doc) name = .ok m ∧
    (∀ c ∈ m.calls.nodes, excludes c.method.classPath = false) ∧
    ∀ (data control : Level) (limit : Option Int) (seeds slice : List Statement) (x : Index), x.Sound m.calls →
      (∀ s ∈ seeds, ∃ c ∈ m.calls.nodes, ∃ kind index position,
        Statement.ofPositions kind c index position = .ok s) →
      (m.dependence.forwardSlice data control limit seeds x).1 = .ok slice →
      ∀ s ∈ slice, excludes s.context.method.classPath = false := by
  refine ⟨?_, fun c hc => classPath_of_mem_nodes h hc, ?_⟩
  · obtain ⟨cat, hcat, hload⟩ := ofJson_eq_ok.1 h
    obtain ⟨fields, hsnapshot, hmodel⟩ := bind_eq_ok.1 hload
    obtain ⟨hplain, hkeeps⟩ := Catalog.ofJson_plain name hcat
    refine ofJson_eq_ok.2 ⟨_, hplain, bind_eq_ok.2 ⟨withoutContexts excludes fields, ?_, ?_⟩⟩
    · rw [Catalog.snapshot_eq_ok] at hsnapshot ⊢
      simp only [Catalog.plain, withoutContextsIn, lookup_changeField, if_true, hsnapshot]
      rfl
    · have hleft := Catalog.modelOf_plain (withoutContextsIn excludes name cat.analyses) hmodel
      rwa [hkeeps.excludes_eq] at hleft
  · intro data control limit seeds slice x hx hseeds hslice s hs
    obtain ⟨-, ⟨slice', hslice', hkept⟩ | ⟨l, -, htruncated⟩⟩ :=
      (loaded_of_ofJson h).slice_safe data control limit hseeds hx
    · cases hslice.symm.trans hslice'
      exact classPath_of_mem_nodes h (hkept s hs).1.node
    · cases hslice.symm.trans htruncated

end Model

namespace Sample

/-- A method and one of another class, which it calls and which is an entry point as well. -/
def logging : Json := .obj [
  ("procedures", .arr [
    .obj [("signature", .str "Box.main()V"), ("instructions", .arr [
      .obj [("op", .str "new"), ("result", .int 1)],
      .obj [("op", .str "invoke"), ("target", .str "Log.write(I)V"), ("args", .arr [.int 1])],
      .obj [("op", .str "return")]])],
    .obj [("signature", .str "Log.write(I)V"), ("instructions", .arr [.obj [("op", .str "return")]])]]),
  ("analyses", .obj [
    ("0cfa", .obj [
      ("contexts", .arr [
        .obj [("id", .str "write"), ("procedure", .str "Log.write(I)V")],
        .obj [("id", .str "main"), ("procedure", .str "Box.main()V")]]),
      ("entrypoints", .arr [.str "write", .str "main"]),
      ("edges", .arr [edge "main" 1 "write"]),
      ("points_to", .arr [fact "write" 1, fact "main" 1])])])]

/-- The calling method. -/
def caller : Procedure where
  method := ⟨"Box", "main", ⟨[], "V"⟩⟩
  params := 0
  body := [.new 1 "java.lang.Object", .invoke ⟨"Log", "write", ⟨["I"], "V"⟩⟩ [1] none none, .ret none]

/-- What remains of the analysis without the class that is called. -/
def quiet : Model where
  name := "0cfa"
  calls := {
    nodes := [merged caller]
    byMethod := [(caller.method, [merged caller])]
    entrypoints := [merged caller] }
  pointsTo := ⟨[⟨merged caller, 1, ["object"]⟩]⟩
  contexts := [("main", merged caller)]

theorem quiet_of_logging : Model.ofJson (· == "Log") logging "0cfa" = .ok quiet :=
  ofJson_of_gives (by decide +kernel : gives (· == "Log") logging "0cfa" quiet = true)

end Sample

/-- Without the class `Log` its procedure, its context and all that names this are gone, and no statement of it is in the
slice of the object that is handed over. -/
theorem Model.ofJson_withoutClasses_logging :
    Model.ofJson (· == "Log") Sample.logging "0cfa" = .ok Sample.quiet ∧
    Model.ofJson (fun _ => false) (Document.withoutClasses (· == "Log") "0cfa" Sample.logging) "0cfa" = .ok Sample.quiet ∧
    ∃ slice, (Sample.quiet.dependence.forwardSlice .full .full none [.of (Sample.merged Sample.caller) (.normal 0)] {}).1 =
        .ok slice ∧ ∀ s ∈ slice, (s.context.method.classPath == "Log") = false := by
  obtain ⟨hmodel, -, hslices⟩ := Model.ofJson_withoutClasses Sample.quiet_of_logging
  have hseeds : ∀ s ∈ [Statement.of (Sample.merged Sample.caller) (.normal 0)], ∃ c ∈ Sample.quiet.calls.nodes,
      ∃ kind index position, Statement.ofPositions kind c index position = .ok s := by
    intro s hs
    rw [List.mem_singleton.1 hs]
    exact ⟨Sample.merged Sample.caller, by simp [Sample.quiet], .normal, .int 0, .int 0, rfl⟩
  have hx : ({} : Index).Sound Sample.quiet.calls := Index.sound_empty _
  obtain ⟨-, ⟨slice, hslice, -⟩ | ⟨l, hl, -⟩⟩ :=
    (Model.loaded_of_ofJson Sample.quiet_of_logging).slice_safe .full .full none hseeds hx
  · exact ⟨Sample.quiet_of_logging, hmodel, slice, hslice, hslices .full .full none _ slice {} hx hseeds hslice⟩
  · cases hl

end ForwardSlicing
