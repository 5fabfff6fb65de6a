import Mathlib.Data.List.Forall2
import Mathlib.Data.List.ReduceOption
import ForwardSlicing.Proofs.Loading
/-!
# Reading a document entry by entry

Loading goes through the entries of a document one by one and adds to what it has. Here the two are taken apart. What an
entry says is a relation between the entry and its reading: `Catalog.ReadsContext`, `Ids.Names`, `Ids.ReadsEdge`,
`Ids.ReadsFact`. What comes of all readings is `Analysis.model`: the contexts, entry points and calls without repeats,
and the points-to facts put together.

`modelOf_eq_ok`: loading an analysis succeeds exactly if every entry has a reading and no id is used twice, and then gives
this model. `ofJson_iff` says the same of the procedures.
-/

namespace ForwardSlicing

/-! ## Loops -/

section Loops
variable {ε α β γ : Type}

/-- Each member may be added to what the ones before it make. -/
def Fits (may : β → γ → Prop) (apply : β → γ → β) : β → List γ → Prop
  | _, [] => True
  | b, c :: cs => may b c ∧ Fits may apply (apply b c) cs

/-- A loop whose step reads an entry and then adds the reading, if it may: it succeeds exactly if all entries have
readings that fit, and then adds these. -/
theorem foldlM_eq_ok {add : β → α → Except ε β} {reads : α → γ → Prop} {may : β → γ → Prop} {apply : β → γ → β}
    {P : β → Prop} (hadd : ∀ b a b', P b → (add b a = .ok b' ↔ ∃ c, reads a c ∧ may b c ∧ b' = apply b c))
    (hP : ∀ b a c, P b → reads a c → may b c → P (apply b c)) {xs : List α} :
    ∀ {b b' : β}, P b → (xs.foldlM add b = .ok b' ↔
      ∃ cs, List.Forall₂ reads xs cs ∧ Fits may apply b cs ∧ b' = cs.foldl apply b) := by
  induction xs with
  | nil =>
    intro b b' _
    simp only [List.foldlM_nil, pure, Except.pure, Except.ok.injEq, List.forall₂_nil_left_iff]
    constructor
    · rintro rfl
      exact ⟨[], rfl, trivial, rfl⟩
    · rintro ⟨cs, rfl, -, rfl⟩
      rfl
  | cons a xs ih =>
    intro b b' hb
    rw [List.foldlM_cons, bind_eq_ok]
    constructor
    · rintro ⟨b₁, h₁, h⟩
      obtain ⟨c, hc, hmay, rfl⟩ := (hadd b a b₁ hb).1 h₁
      obtain ⟨cs, hcs, hfits, rfl⟩ := (ih (hP b a c hb hc hmay)).1 h
      exact ⟨c :: cs, .cons hc hcs, ⟨hmay, hfits⟩, rfl⟩
    · rintro ⟨_, hcs, hfits, rfl⟩
      cases hcs with
      | cons hc hcs =>
        obtain ⟨hmay, hfits⟩ := hfits
        exact ⟨_, (hadd b a _ hb).2 ⟨_, hc, hmay, rfl⟩, (ih (hP b a _ hb hc hmay)).2 ⟨_, hcs, hfits, rfl⟩⟩

theorem fits_of_forall {may : β → γ → Prop} {apply : β → γ → β} (h : ∀ b c, may b c) :
    ∀ (b : β) (cs : List γ), Fits may apply b cs
  | _, [] => trivial
  | b, c :: cs => ⟨h b c, fits_of_forall h (apply b c) cs⟩

theorem exists_of_mem_forall₂ {R : α → γ → Prop} {xs : List α} {cs : List γ} (h : List.Forall₂ R xs cs) {c : γ}
    (hc : c ∈ cs) : ∃ a ∈ xs, R a c := by
  induction h with
  | nil => cases hc
  | @cons a c' xs cs ha _ ih =>
    rcases List.mem_cons.1 hc with rfl | hc
    · exact ⟨a, by simp, ha⟩
    · obtain ⟨a', ha', hR⟩ := ih hc
      exact ⟨a', List.mem_cons_of_mem _ ha', hR⟩

theorem forall₂_of_mem {R S : α → γ → Prop} {xs : List α} {cs : List γ} (h : List.Forall₂ R xs cs)
    (hS : ∀ a c, c ∈ cs → R a c → S a c) : List.Forall₂ S xs cs := by
  induction h with
  | nil => exact .nil
  | @cons a c xs cs ha _ ih =>
    exact .cons (hS a c (by simp) ha) (ih fun a' c' hc' => hS a' c' (List.mem_cons_of_mem _ hc'))

/-- Where no key is used twice, what is found under a key is what has it. -/
theorem find?_key_iff {κ : Type} [BEq κ] [LawfulBEq κ] {key : α → κ} {as : List α} (hn : (as.map key).Nodup) {k : κ}
    {a : α} : as.find? (fun x => key x == k) = some a ↔ a ∈ as ∧ key a = k := by
  constructor
  · intro h
    exact ⟨List.mem_of_find?_eq_some h, by simpa using List.find?_some h⟩
  · rintro ⟨ha, rfl⟩
    have hsome : (as.find? fun x => key x == key a).isSome := List.find?_isSome.2 ⟨a, ha, by simp⟩
    obtain ⟨a', hf⟩ := Option.isSome_iff_exists.1 hsome
    have hkey : key a' = key a := by simpa using List.find?_some hf
    rw [hf, List.inj_on_of_nodup_map hn (List.mem_of_find?_eq_some hf) ha hkey]

theorem find?_value_iff {es : List (String × β)} (hn : (es.map (·.1)).Nodup) {key : String} {b : β} :
    (es.find? (·.1 == key)).map (·.2) = some b ↔ (key, b) ∈ es := by
  simp only [Option.map_eq_some_iff, find?_key_iff hn]
  constructor
  · rintro ⟨_, ⟨he, rfl⟩, rfl⟩
    exact he
  · intro he
    exact ⟨(key, b), ⟨he, rfl⟩, rfl⟩

/-- Readings that are nothing add nothing. -/
theorem foldl_elim {apply : β → γ → β} (cs : List (Option γ)) :
    ∀ b : β, cs.foldl (fun b c => c.elim b (apply b)) b = cs.reduceOption.foldl apply b := by
  induction cs with
  | nil => intro b; rfl
  | cons c cs ih =>
    intro b
    cases c with
    | none => rw [List.foldl_cons, List.reduceOption_cons_of_none, ih]; rfl
    | some c => rw [List.foldl_cons, List.reduceOption_cons_of_some, List.foldl_cons, ih]; rfl

end Loops

/-! ## Procedures -/

namespace Catalog

/-- The procedure is not of an excluded class. -/
def keeps (excludes : String → Bool) (p : Procedure) : Bool := !excludes p.method.classPath

/-- What a procedure is added to. -/
def withProcedure (cat : Catalog) (p : Procedure) : Catalog :=
  if cat.excludes p.method.classPath then
    { cat with excluded := if cat.excluded.contains p.method then cat.excluded else cat.excluded ++ [p.method] }
  else { cat with procedures := cat.procedures ++ [p] }

/-- A procedure that is not of an excluded class has to be the first one of its method. -/
def Accepts (cat : Catalog) (p : Procedure) : Prop := keeps cat.excludes p = true → find? cat.procedures p.method = none

section Procedures
variable {cat cat' : Catalog} {v : Json} {p : Procedure}

theorem addProcedure_eq_ok : cat.addProcedure v = .ok cat' ↔
    ∃ p, Document.procedure v = .ok p ∧ cat.Accepts p ∧ cat' = cat.withProcedure p := by
  unfold addProcedure Accepts keeps withProcedure
  rw [bind_eq_ok]
  refine exists_congr fun p => and_congr_right fun _ => ?_
  cases he : cat.excludes p.method.classPath with
  | true => simp [pure, Except.pure, eq_comm]
  | false =>
    cases hf : find? cat.procedures p.method with
    | none => simp [pure, Except.pure, eq_comm]
    | some q => simp

theorem withProcedure_excludes (cat : Catalog) (p : Procedure) : (cat.withProcedure p).excludes = cat.excludes := by
  unfold withProcedure
  split <;> rfl

theorem withProcedure_analyses (cat : Catalog) (p : Procedure) : (cat.withProcedure p).analyses = cat.analyses := by
  unfold withProcedure
  split <;> rfl

theorem withProcedure_procedures (cat : Catalog) (p : Procedure) :
    (cat.withProcedure p).procedures = cat.procedures ++ [p].filter (keeps cat.excludes) := by
  unfold withProcedure keeps
  cases h : cat.excludes p.method.classPath <;> simp [h]

theorem find?_eq_some_iff {ps : List Procedure} (hn : (ps.map (·.method)).Nodup) {m : Method} :
    find? ps m = some p ↔ p ∈ ps ∧ p.method = m :=
  find?_key_iff hn

theorem find?_eq_none_iff {ps : List Procedure} {m : Method} : find? ps m = none ↔ m ∉ ps.map (·.method) := by
  simp [find?, List.find?_eq_none]

/-- The catalog of some procedures. -/
def collect (excludes : String → Bool) (analyses : List (String × Json)) (ps : List Procedure) : Catalog :=
  ps.foldl withProcedure ⟨analyses, [], [], excludes⟩

theorem foldl_withProcedure (ps : List Procedure) : ∀ cat : Catalog,
    (ps.foldl withProcedure cat).excludes = cat.excludes ∧ (ps.foldl withProcedure cat).analyses = cat.analyses ∧
    (ps.foldl withProcedure cat).procedures = cat.procedures ++ ps.filter (keeps cat.excludes) := by
  induction ps with
  | nil => intro cat; simp
  | cons p ps ih =>
    intro cat
    obtain ⟨he, ha, hp⟩ := ih (cat.withProcedure p)
    rw [withProcedure_excludes] at he hp
    rw [withProcedure_analyses] at ha
    rw [withProcedure_procedures, List.append_assoc, ← List.filter_append, List.singleton_append] at hp
    exact ⟨he, ha, hp⟩

section Collect
variable (excludes : String → Bool) (analyses : List (String × Json)) (ps : List Procedure)

theorem collect_excludes : (collect excludes analyses ps).excludes = excludes := (foldl_withProcedure ps _).1

theorem collect_analyses : (collect excludes analyses ps).analyses = analyses := (foldl_withProcedure ps _).2.1

theorem collect_procedures : (collect excludes analyses ps).procedures = ps.filter (keeps excludes) := by
  rw [collect, (foldl_withProcedure ps _).2.2, List.nil_append]

end Collect

theorem fits_iff_nodup (ps : List Procedure) : ∀ {cat : Catalog}, (cat.procedures.map (·.method)).Nodup →
    (Fits Accepts withProcedure cat ps ↔
      ((cat.procedures ++ ps.filter (keeps cat.excludes)).map (·.method)).Nodup) := by
  induction ps with
  | nil => intro cat hcat; simpa [Fits] using hcat
  | cons p ps ih =>
    intro cat hcat
    have hsplit : cat.procedures ++ (p :: ps).filter (keeps cat.excludes) =
        (cat.withProcedure p).procedures ++ ps.filter (keeps (cat.withProcedure p).excludes) := by
      rw [withProcedure_procedures, withProcedure_excludes, List.append_assoc, ← List.filter_append,
        List.singleton_append]
    have hmay : cat.Accepts p ↔ ((cat.withProcedure p).procedures.map (·.method)).Nodup := by
      rw [Accepts, find?_eq_none_iff, withProcedure_procedures]
      cases hk : keeps cat.excludes p with
      | false => simpa [hk] using hcat
      | true => simp [hk, List.nodup_append, hcat]
    rw [Fits, hsplit, hmay]
    constructor
    · rintro ⟨hn, hfits⟩
      exact (ih hn).1 hfits
    · intro hn
      have hn' : ((cat.withProcedure p).procedures.map (·.method)).Nodup := by
        rw [List.map_append] at hn
        exact hn.of_append_left
      exact ⟨hn', (ih hn').2 hn⟩

end Procedures

/-- The analyses of a document, and its procedures one by one. -/
def Lists (doc : Json) (analyses : List (String × Json)) (ps : List Procedure) : Prop :=
  ∃ fields items, doc = .obj fields ∧ Document.fieldOr fields "analyses" (.obj []) = .obj analyses ∧
    Document.fieldOr fields "procedures" (.arr []) = .arr items ∧
    List.Forall₂ (fun v p => Document.procedure v = .ok p) items ps

/-- A document has a catalog exactly if all of its procedures can be read, and no two of those that are not of excluded
classes are of one method. -/
theorem ofJson_iff {excludes : String → Bool} {doc : Json} {cat : Catalog} : ofJson excludes doc = .ok cat ↔
    ∃ analyses ps, Lists doc analyses ps ∧ ((ps.filter (keeps excludes)).map (·.method)).Nodup ∧
      cat = collect excludes analyses ps := by
  have hloop : ∀ (items : List Json) (start cat : Catalog), items.foldlM addProcedure start = .ok cat ↔
      ∃ ps, List.Forall₂ (fun v p => Document.procedure v = .ok p) items ps ∧ Fits Accepts withProcedure start ps ∧
        cat = ps.foldl withProcedure start := by
    intro items start cat
    refine foldlM_eq_ok (P := fun _ => True) (fun _ _ _ _ => ?_) (fun _ _ _ _ _ _ => trivial) trivial
    exact addProcedure_eq_ok
  rw [ofJson_eq_ok]
  constructor
  · rintro ⟨fields, analyses, items, hdoc, ha, hitems, h⟩
    obtain ⟨ps, hps, hfits, rfl⟩ := (hloop _ _ _).1 h
    exact ⟨analyses, ps, ⟨fields, items, hdoc, ha, hitems, hps⟩,
      by simpa using (fits_iff_nodup ps (by simp)).1 hfits, rfl⟩
  · rintro ⟨analyses, ps, ⟨fields, items, hdoc, ha, hitems, hps⟩, hn, rfl⟩
    refine ⟨fields, analyses, items, hdoc, ha, hitems, (hloop _ _ _).2 ⟨ps, hps, ?_, rfl⟩⟩
    exact (fits_iff_nodup ps (by simp)).2 (by simpa using hn)

end Catalog

/-! ## Analyses -/

/-- The ids of an analysis, each with its context unless the class of the context is excluded. -/
abbrev Ids := List (String × Option Context)

namespace Ids

/-- The contexts by id, without those of excluded classes. -/
def kept (ids : Ids) : List (String × Context) := ids.filterMap fun e => e.2.map (e.1, ·)

/-- The ids of contexts of excluded classes. -/
def dropped (ids : Ids) : List String := ids.filterMap fun e => if e.2.isNone then some e.1 else none

variable (ids : Ids)

/-- The value is an id with this context. -/
def Names (v : Json) (found : Option Context) : Prop := ∃ id, v = .str id ∧ (id, found) ∈ ids

/-- What an entry of the edges is read as; it says nothing if one of its contexts is left out. -/
inductive ReadsEdge : Json → Option CallEdge → Prop
  | skipped {fields : Document.Fields} {v w : Json} {caller callee : Option Context} :
      Json.lookup fields "caller" = some v → ids.Names v caller →
      Json.lookup fields "callee" = some w → ids.Names w callee →
      caller = none ∨ callee = none → ReadsEdge (.obj fields) none
  | kept {fields : Document.Fields} {v w u : Json} {c d : Context} {site : Int} {i : Nat} :
      Json.lookup fields "caller" = some v → ids.Names v (some c) →
      Json.lookup fields "callee" = some w → ids.Names w (some d) →
      Json.lookup fields "site" = some u → Document.integer "edge site" u = .ok site →
      CallGraph.callAt? c site = some i → ReadsEdge (.obj fields) (some (.of c i d))

/-- What an entry of the points-to facts is read as; it says nothing if its context is left out. -/
inductive ReadsFact : Json → Option PointsToEntry → Prop
  | skipped {fields : Document.Fields} {v : Json} :
      Json.lookup fields "context" = some v → ids.Names v none → ReadsFact (.obj fields) none
  | kept {fields : Document.Fields} {v u : Json} {c : Context} {value : Int} {objects : List String} :
      Json.lookup fields "context" = some v → ids.Names v (some c) →
      Json.lookup fields "value" = some u → Document.integer "points_to value" u = .ok value →
      Document.fieldOr fields "objects" (.arr []) = .arr (objects.map .str) →
      ReadsFact (.obj fields) (some ⟨c, value, objects⟩)

end Ids

/-- What the entries of an analysis are read as, entry by entry. -/
structure Analysis where
  ids : Ids
  entrypoints : List (Option Context)
  edges : List (Option CallEdge)
  facts : List (Option PointsToEntry)

/-- Puts points-to facts together. -/
def PointsTo.gather (facts : List PointsToEntry) : PointsTo :=
  facts.foldl (fun t f => t.add f.context f.value f.objects) {}

/-- The model that the entries of an analysis describe. -/
def Analysis.model (a : Analysis) (name : String) : Model where
  name := name
  calls := {
    nodes := distinct (a.ids.kept.map (·.2))
    byMethod := .ofNodes (distinct (a.ids.kept.map (·.2)))
    entrypoints := distinct a.entrypoints.reduceOption
    edges := distinct a.edges.reduceOption }
  pointsTo := .gather a.facts.reduceOption
  contexts := a.ids.kept

/-- The field is a list whose entries have the readings; a field that is missing is an empty list. -/
def Document.ReadsSection {γ : Type} (fields : Document.Fields) (key : String) (reads : Json → γ → Prop)
    (found : List γ) : Prop :=
  ∃ items, Document.fieldOr fields key (.arr []) = .arr items ∧ List.Forall₂ reads items found

/-- Entries that are read in one way are read in another way that follows from it. -/
theorem Document.ReadsSection.map {β γ : Type} {fields : Document.Fields} {key : String} {R : Json → β → Prop}
    {S : Json → γ → Prop} {f : β → γ} {found : List β} (h : Document.ReadsSection fields key R found)
    (hS : ∀ v x, x ∈ found → R v x → S v (f x)) : Document.ReadsSection fields key S (found.map f) := by
  obtain ⟨items, hitems, hR⟩ := h
  exact ⟨items, hitems, List.forall₂_map_right_iff.2 (forall₂_of_mem hR hS)⟩

namespace Catalog

/-- What an entry of the contexts is read as: an id, and its context unless the class is excluded. -/
inductive ReadsContext (cat : Catalog) : Json → String × Option Context → Prop
  | excluded {fields : Document.Fields} {id : String} {signature : Json} {m : Method} :
      Json.lookup fields "id" = some (.str id) → Json.lookup fields "procedure" = some signature →
      Method.ofJson signature = .ok m → cat.excludes m.classPath = true → ReadsContext cat (.obj fields) (id, none)
  | kept {fields : Document.Fields} {id name : String} {signature : Json} {m : Method} {p : Procedure} :
      Json.lookup fields "id" = some (.str id) → Json.lookup fields "procedure" = some signature →
      Method.ofJson signature = .ok m → cat.excludes m.classPath = false → find? cat.procedures m = some p →
      Document.fieldOr fields "context" (.str everywhere) = .str name →
      ReadsContext cat (.obj fields) (id, some ⟨p, name⟩)

/-- The fields of an analysis have the readings, and no id is used twice. -/
structure Reads (cat : Catalog) (fields : Document.Fields) (a : Analysis) : Prop where
  contexts : Document.ReadsSection fields "contexts" cat.ReadsContext a.ids
  nodup : (a.ids.map (·.1)).Nodup
  entrypoints : Document.ReadsSection fields "entrypoints" a.ids.Names a.entrypoints
  edges : Document.ReadsSection fields "edges" a.ids.ReadsEdge a.edges
  facts : Document.ReadsSection fields "points_to" a.ids.ReadsFact a.facts

/-! ### Contexts -/

section Contexts
variable {cat : Catalog}

/-- Adds the reading of a context. -/
def Loading.withContext (l : Loading) : String × Option Context → Loading
  | (id, none) => { l with dropped := l.dropped ++ [id] }
  | (id, some c) => { l with contexts := l.contexts ++ [(id, c)], calls := l.calls.addNode c }

/-- The id of the reading is new. -/
def Loading.Lacks (l : Loading) (e : String × Option Context) : Prop := l.context? e.1 = none ∧ e.1 ∉ l.dropped

theorem addContext_iff {l l' : Loading} {v : Json} : cat.addContext l v = .ok l' ↔
    ∃ e, cat.ReadsContext v e ∧ l.Lacks e ∧ l' = l.withContext e := by
  rw [addContext_eq_ok]
  constructor
  · rintro ⟨fields, id, signature, m, rfl, hid, hsig, hm, hfree, hkept, ⟨he, rfl⟩ | ⟨he, p, name, hp, hname, rfl⟩⟩
    · exact ⟨(id, none), .excluded hid hsig hm he, ⟨hfree, hkept⟩, rfl⟩
    · exact ⟨(id, some ⟨p, name⟩), .kept hid hsig hm he hp hname, ⟨hfree, hkept⟩, rfl⟩
  · rintro ⟨e, hread, ⟨hfree, hkept⟩, rfl⟩
    cases hread with
    | excluded hid hsig hm he => exact ⟨_, _, _, _, rfl, hid, hsig, hm, hfree, hkept, .inl ⟨he, rfl⟩⟩
    | kept hid hsig hm he hp hname =>
      exact ⟨_, _, _, _, rfl, hid, hsig, hm, hfree, hkept, .inr ⟨he, _, _, hp, hname, rfl⟩⟩

theorem lacks_withContext {l : Loading} {e e' : String × Option Context} :
    (l.withContext e).Lacks e' ↔ l.Lacks e' ∧ e.1 ≠ e'.1 := by
  obtain ⟨id, c⟩ := e
  cases c with
  | none => simp [Loading.Lacks, Loading.withContext, Loading.context?, and_assoc, eq_comm]
  | some c =>
    simp only [Loading.Lacks, Loading.withContext, Loading.context?, Option.map_eq_none_iff, List.find?_append,
      Option.or_eq_none_iff, List.find?_singleton]
    by_cases h : id = e'.1 <;> simp [h]

theorem fits_iff_ids (ids : Ids) : ∀ l : Loading,
    Fits Loading.Lacks Loading.withContext l ids ↔ (∀ e ∈ ids, l.Lacks e) ∧ (ids.map (·.1)).Nodup := by
  induction ids with
  | nil => intro l; simp [Fits]
  | cons e ids ih =>
    intro l
    rw [Fits, ih]
    simp only [lacks_withContext, List.forall_mem_cons, List.map_cons, List.nodup_cons, List.mem_map, not_exists,
      not_and]
    constructor
    · rintro ⟨he, hall, hn⟩
      exact ⟨⟨he, fun e' h' => (hall e' h').1⟩, fun e' h' heq => (hall e' h').2 heq.symm, hn⟩
    · rintro ⟨⟨he, hall⟩, hne, hn⟩
      exact ⟨he, fun e' h' => ⟨hall e' h', fun heq => hne e' h' heq.symm⟩, hn⟩

theorem addNode_of_mem {g : CallGraph} {c : Context} (h : c ∈ g.nodes) : g.addNode c = g :=
  if_pos (CallGraph.contains_of_mem h)

theorem foldl_withContext (ids : Ids) : ∀ l : Loading, ids.foldl Loading.withContext l =
    { l with
      contexts := l.contexts ++ ids.kept
      dropped := l.dropped ++ ids.dropped
      calls := (ids.kept.map (·.2)).foldl CallGraph.addNode l.calls } := by
  induction ids with
  | nil => intro l; simp [Ids.kept, Ids.dropped]
  | cons e ids ih =>
    intro l
    obtain ⟨id, c⟩ := e
    rw [List.foldl_cons, ih]
    cases c with
    | none => simp [Loading.withContext, Ids.kept, Ids.dropped]
    | some c => simp [Loading.withContext, Ids.kept, Ids.dropped]

theorem foldl_addNode (cs : List Context) : ∀ (g : CallGraph) (ns : List Context),
    cs.foldl CallGraph.addNode (g.onNodes ns) = g.onNodes (cs.foldl addNew ns) := by
  induction cs with
  | nil => exact fun g ns => rfl
  | cons c cs ih => intro g ns; rw [List.foldl_cons, CallGraph.addNode_onNodes, ih, List.foldl_cons]

/-- The contexts of an analysis, with the ids of those that are left out, and each context as a node once. -/
def Loading.ofContexts (ids : Ids) : Loading where
  contexts := ids.kept
  dropped := ids.dropped
  calls := CallGraph.onNodes {} (distinct (ids.kept.map (·.2)))

theorem addContexts_eq_ok {items : List Json} {l : Loading} : items.foldlM cat.addContext {} = .ok l ↔
    ∃ ids, List.Forall₂ cat.ReadsContext items ids ∧ (ids.map (·.1)).Nodup ∧ l = .ofContexts ids := by
  have hloop : items.foldlM cat.addContext {} = .ok l ↔ ∃ ids, List.Forall₂ cat.ReadsContext items ids ∧
      Fits Loading.Lacks Loading.withContext {} ids ∧ l = ids.foldl Loading.withContext {} := by
    refine foldlM_eq_ok (P := fun _ => True) (fun _ _ _ _ => ?_) (fun _ _ _ _ _ _ => trivial) trivial
    exact addContext_iff
  rw [hloop]
  refine exists_congr fun ids => and_congr_right fun _ => ?_
  have hnew : ∀ e ∈ ids, Loading.Lacks {} e := fun e _ => ⟨rfl, by simp⟩
  have hcalls : ((Ids.kept ids).map (·.2)).foldl CallGraph.addNode ({} : Loading).calls =
      CallGraph.onNodes {} (distinct ((Ids.kept ids).map (·.2))) := by
    rw [← foldl_addNew_nil]
    exact foldl_addNode _ {} []
  rw [fits_iff_ids, and_iff_right hnew, foldl_withContext, hcalls]
  rfl

end Contexts

/-! ### Ids -/

section Readings
variable {ids : Ids} {id : String} {c : Context}

theorem mem_dropped : id ∈ ids.dropped ↔ (id, none) ∈ ids := by
  simp only [Ids.dropped, List.mem_filterMap, Option.ite_none_right_eq_some, Option.some.injEq,
    Option.isNone_iff_eq_none]
  constructor
  · rintro ⟨⟨_, _⟩, he, rfl, rfl⟩
    exact he
  · intro he
    exact ⟨_, he, rfl, rfl⟩

theorem mem_kept : (id, c) ∈ ids.kept ↔ (id, some c) ∈ ids := by
  simp only [Ids.kept, List.mem_filterMap, Option.map_eq_some_iff, Prod.mk.injEq]
  constructor
  · rintro ⟨⟨_, _⟩, he, _, rfl, rfl, rfl⟩
    exact he
  · intro he
    exact ⟨_, he, c, rfl, rfl, rfl⟩

theorem mem_contexts_kept : c ∈ ids.kept.map (·.2) ↔ ∃ id, (id, some c) ∈ ids := by
  simp only [List.mem_map, ← mem_kept]
  constructor
  · rintro ⟨⟨id, _⟩, he, rfl⟩
    exact ⟨id, he⟩
  · rintro ⟨id, he⟩
    exact ⟨(id, c), he, rfl⟩

theorem kept_keys_sublist : ∀ ids : Ids, (ids.kept.map (·.1)).Sublist (ids.map (·.1))
  | [] => .slnil
  | (_, none) :: ids => .cons _ (kept_keys_sublist ids)
  | (_, some _) :: ids => .cons_cons _ (kept_keys_sublist ids)

variable (hn : (ids.map (·.1)).Nodup)
include hn

/-- An id has one reading. -/
theorem reading_unique {x y : Option Context} (hx : (id, x) ∈ ids) (hy : (id, y) ∈ ids) : x = y := by
  have heq : ((id, x) : String × Option Context) = (id, y) := List.inj_on_of_nodup_map hn hx hy rfl
  exact (Prod.mk.inj heq).2

theorem context?_eq_some {l : Loading} (hl : l.contexts = ids.kept) :
    l.context? id = some c ↔ (id, some c) ∈ ids := by
  rw [Loading.context?, hl, find?_value_iff ((kept_keys_sublist ids).nodup hn), mem_kept]

end Readings

/-- The contexts of an analysis are loaded: they are known by their ids, and they are nodes. -/
structure Loading.Knows (cat : Catalog) (ids : Ids) (l : Loading) : Prop where
  contexts : l.contexts = ids.kept
  dropped : l.dropped = ids.dropped
  node : ∀ id c, (id, some c) ∈ ids → c ∈ l.calls.nodes
  inside : l.Over cat

/-! ### Entries about contexts -/

/-- Adds an entry point that is a node already. -/
def Loading.withEntrypoint (l : Loading) (c : Context) : Loading :=
  { l with calls := { l.calls with entrypoints := addNew l.calls.entrypoints c } }

/-- Adds an edge between nodes. -/
def Loading.withEdge (l : Loading) (e : CallEdge) : Loading :=
  { l with calls := { l.calls with edges := addNew l.calls.edges e } }

def Loading.withFact (l : Loading) (f : PointsToEntry) : Loading :=
  { l with pointsTo := l.pointsTo.add f.context f.value f.objects }

/-- A step reads an entry and adds the reading, unless it is nothing. -/
def StepReads (cat : Catalog) (ids : Ids) {γ : Type} (add : Loading → Json → Except Failure Loading)
    (reads : Json → Option γ → Prop) (apply : Loading → γ → Loading) : Prop :=
  ∀ l v l', Loading.Knows cat ids l →
    (add l v = .ok l' ↔ ∃ c, reads v c ∧ l' = c.elim l (apply l)) ∧ (add l v = .ok l' → Loading.Knows cat ids l')

/-- A step that leaves contexts and nodes as they are keeps what is known. -/
theorem stepReads_of_frame {cat : Catalog} {ids : Ids} {γ : Type} {add : Loading → Json → Except Failure Loading}
    {reads : Json → Option γ → Prop} {apply : Loading → γ → Loading}
    (hover : ∀ l v l', l.Over cat → add l v = .ok l' → l'.Over cat)
    (hframe : ∀ l c, (apply l c).contexts = l.contexts ∧ (apply l c).dropped = l.dropped ∧
      (apply l c).calls.nodes = l.calls.nodes)
    (hadd : ∀ l v l', Loading.Knows cat ids l → (add l v = .ok l' ↔ ∃ c, reads v c ∧ l' = c.elim l (apply l))) :
    StepReads cat ids add reads apply := by
  intro l v l' hl
  refine ⟨hadd l v l' hl, fun h => ?_⟩
  have hover' := hover l v l' hl.inside h
  obtain ⟨c, -, rfl⟩ := (hadd l v l' hl).1 h
  cases c with
  | none => exact hl
  | some c =>
    obtain ⟨hcontexts, hdropped, hnodes⟩ := hframe l c
    exact ⟨hcontexts.trans hl.contexts, hdropped.trans hl.dropped, fun id d hd => hnodes ▸ hl.node id d hd, hover'⟩

section Steps
variable {cat : Catalog} {ids : Ids} (hn : (ids.map (·.1)).Nodup)
include hn

theorem resolve_iff {l : Loading} (hl : l.Knows cat ids) {place : String} {v : Json} {found : Option Context} :
    resolve l place v = .ok found ↔ ids.Names v found := by
  rw [resolve_eq_ok]
  refine exists_congr fun id => and_congr_right fun _ => ?_
  rw [hl.dropped, mem_dropped]
  simp only [context?_eq_some hn hl.contexts]
  constructor
  · rintro (⟨hid, rfl⟩ | ⟨-, c, hc, rfl⟩)
    · exact hid
    · exact hc
  · intro hid
    cases found with
    | none => exact .inl ⟨hid, rfl⟩
    | some c => exact .inr ⟨fun hnone => (by simpa using reading_unique hn hid hnone), c, hid, rfl⟩

theorem addEntrypoint_reads : StepReads cat ids addEntrypoint ids.Names Loading.withEntrypoint := by
  refine stepReads_of_frame (fun _ _ _ => Loading.Over.addEntrypoint) (fun _ _ => ⟨rfl, rfl, rfl⟩) fun l v l' hl => ?_
  unfold addEntrypoint
  simp only [bind_eq_ok, resolve_iff hn hl]
  refine exists_congr fun found => and_congr_right fun hfound => ?_
  cases found with
  | none => exact ⟨fun h => (Except.ok.inj h).symm, fun h => congrArg Except.ok h.symm⟩
  | some c =>
    obtain ⟨id, -, hid⟩ := hfound
    have hcalls : l.calls.addEntrypoint c = { l.calls with entrypoints := addNew l.calls.entrypoints c } := by
      unfold CallGraph.addEntrypoint addNew
      rw [addNode_of_mem (hl.node id c hid)]
      dsimp only
      split <;> rfl
    simp only [hcalls]
    exact ⟨fun h => (Except.ok.inj h).symm, fun h => congrArg Except.ok h.symm⟩

omit hn in
/-- Between nodes, an edge is added unless it is there. -/
theorem addEdge_of_mem {S : Set Context} (hS : ExactOn S) {g g' : CallGraph} (hg : g.Grown S) {c d : Context}
    (hc : c ∈ g.nodes) (hd : d ∈ g.nodes) {site : Int} : g.addEdge c site d = (.ok (), g') ↔
      ∃ i, CallGraph.callAt? c site = some i ∧ g' = { g with edges := addNew g.edges (.of c i d) } := by
  have hsame : ∀ {b : Context}, b ∈ g.nodes → addNew g.nodes b = g.nodes := fun hb => if_pos (CallGraph.contains_of_mem hb)
  rw [CallGraph.addEdge_eq_ok]
  refine exists_congr fun i => and_congr_right fun _ => ?_
  rw [hg.addCall_eq hS (hg.node c hc) (hg.node d hd), hsame hc, hsame hd, hg.onNodes_self]

theorem addEdge_reads : StepReads cat ids addEdge ids.ReadsEdge Loading.withEdge := by
  refine stepReads_of_frame (fun _ _ _ => Loading.Over.addEdge) (fun _ _ => ⟨rfl, rfl, rfl⟩) fun l v l' hl => ?_
  have hexact := cat.oneBody_contextsOf.exactOn
  have hnode : ∀ {v : Json} {c : Context}, ids.Names v (some c) → c ∈ l.calls.nodes := fun ⟨id, _, hid⟩ => hl.node id _ hid
  unfold addEdge
  simp only [bind_eq_ok, Document.object_eq_ok, Document.field_eq_ok, resolve_iff hn hl]
  constructor
  · rintro ⟨fields, rfl, v₁, hv₁, caller, hcaller, v₂, hv₂, callee, hcallee, h⟩
    cases caller with
    | none => exact ⟨none, .skipped hv₁ hcaller hv₂ hcallee (.inl rfl), (Except.ok.inj h).symm⟩
    | some c =>
      cases callee with
      | none => exact ⟨none, .skipped hv₁ hcaller hv₂ hcallee (.inr rfl), (Except.ok.inj h).symm⟩
      | some d =>
        simp only [bind_eq_ok, Document.field_eq_ok] at h
        obtain ⟨u, hu, site, hsite, _, hadded, h⟩ := h
        have hadd : l.calls.addEdge c site d = (.ok (), (l.calls.addEdge c site d).2) := Prod.ext hadded rfl
        obtain ⟨i, hi, hcalls⟩ := (addEdge_of_mem hexact hl.inside.calls (hnode hcaller) (hnode hcallee)).1 hadd
        rw [hcalls] at h
        exact ⟨_, .kept hv₁ hcaller hv₂ hcallee hu hsite hi, (Except.ok.inj h).symm⟩
  · rintro ⟨found, hread, rfl⟩
    cases hread with
    | @skipped fields v₁ v₂ caller callee hv₁ hcaller hv₂ hcallee hnone =>
      refine ⟨fields, rfl, v₁, hv₁, caller, hcaller, v₂, hv₂, callee, hcallee, ?_⟩
      rcases hnone with rfl | rfl
      · rfl
      · cases caller <;> rfl
    | kept hv₁ hcaller hv₂ hcallee hu hsite hi =>
      refine ⟨_, rfl, _, hv₁, _, hcaller, _, hv₂, _, hcallee, ?_⟩
      simp only [bind_eq_ok, Document.field_eq_ok]
      have hadded := (addEdge_of_mem hexact hl.inside.calls (hnode hcaller) (hnode hcallee)).2 ⟨_, hi, rfl⟩
      refine ⟨_, hu, _, hsite, (), by rw [hadded], ?_⟩
      rw [hadded]
      rfl

omit hn in
theorem mapM_text_eq_ok {place : String} : ∀ {items : List Json} {objects : List String},
    items.mapM (Document.text place) = .ok objects ↔ items = objects.map .str
  | [], objects => by
    cases objects <;> simp [pure, Except.pure]
  | v :: items, objects => by
    rw [List.mapM_cons, bind_eq_ok]
    simp only [bind_eq_ok, Document.text_eq_ok, mapM_text_eq_ok, pure, Except.pure, Except.ok.injEq]
    constructor
    · rintro ⟨s, rfl, rest, rfl, rfl⟩
      rfl
    · intro h
      cases objects with
      | nil => cases h
      | cons s rest =>
        obtain ⟨rfl, rfl⟩ := List.cons.inj h
        exact ⟨s, rfl, rest, rfl, rfl⟩

theorem addFact_reads : StepReads cat ids addFact ids.ReadsFact Loading.withFact := by
  refine stepReads_of_frame (fun _ _ _ => Loading.Over.addFact) (fun _ _ => ⟨rfl, rfl, rfl⟩) fun l v l' hl => ?_
  unfold addFact
  simp only [bind_eq_ok, Document.object_eq_ok, Document.field_eq_ok, resolve_iff hn hl]
  constructor
  · rintro ⟨fields, rfl, v₁, hv₁, found, hfound, h⟩
    cases found with
    | none => exact ⟨none, .skipped hv₁ hfound, (Except.ok.inj h).symm⟩
    | some c =>
      simp only [bind_eq_ok, Document.field_eq_ok, Document.list_eq_ok, mapM_text_eq_ok] at h
      obtain ⟨u, hu, value, hvalue, items, hitems, objects, rfl, h⟩ := h
      exact ⟨_, .kept hv₁ hfound hu hvalue hitems, (Except.ok.inj h).symm⟩
  · rintro ⟨found, hread, rfl⟩
    cases hread with
    | skipped hv₁ hfound => exact ⟨_, rfl, _, hv₁, _, hfound, rfl⟩
    | kept hv₁ hfound hu hvalue hitems =>
      refine ⟨_, rfl, _, hv₁, _, hfound, ?_⟩
      simp only [bind_eq_ok, Document.field_eq_ok, Document.list_eq_ok, mapM_text_eq_ok]
      exact ⟨_, hu, _, hvalue, _, hitems, _, rfl, rfl⟩

end Steps

/-! ### Sections -/

section Sections
variable {cat : Catalog} {ids : Ids}

/-- The readings of a section are added one after the other. -/
theorem addSection_reads {γ : Type} {add : Loading → Json → Except Failure Loading} {reads : Json → Option γ → Prop}
    {apply : Loading → γ → Loading} (hadd : StepReads cat ids add reads apply) {fields : Document.Fields} {key : String}
    {l l' : Loading} (hl : l.Knows cat ids) :
    (addSection fields key add l = .ok l' ↔
      ∃ found, Document.ReadsSection fields key reads found ∧ l' = found.reduceOption.foldl apply l) ∧
    (addSection fields key add l = .ok l' → l'.Knows cat ids) := by
  have hloop : ∀ items : List Json, items.foldlM add l = .ok l' ↔ ∃ found, List.Forall₂ reads items found ∧
      Fits (fun _ _ => True) (fun l c => c.elim l (apply l)) l found ∧
      l' = found.foldl (fun l c => c.elim l (apply l)) l := by
    intro items
    refine foldlM_eq_ok (P := Loading.Knows cat ids) (fun b v b' hb => ?_) (fun b v c hb hc _ => ?_) hl
    · simpa using (hadd b v b' hb).1
    · exact (hadd b v _ hb).2 ((hadd b v _ hb).1.2 ⟨c, hc, rfl⟩)
  rw [addSection_eq_ok]
  constructor
  · simp only [hloop, foldl_elim, Document.ReadsSection]
    constructor
    · rintro ⟨items, hitems, found, hfound, -, rfl⟩
      exact ⟨found, ⟨items, hitems, hfound⟩, rfl⟩
    · rintro ⟨found, ⟨items, hitems, hfound⟩, rfl⟩
      exact ⟨items, hitems, found, hfound, fits_of_forall (fun _ _ => trivial) _ _, rfl⟩
  · rintro ⟨items, -, h⟩
    exact foldlM_keeps (fun b v b' hb => (hadd b v b' hb).2) hl h

theorem foldl_withEntrypoint (cs : List Context) : ∀ l : Loading, cs.foldl Loading.withEntrypoint l =
    { l with calls := { l.calls with entrypoints := cs.foldl addNew l.calls.entrypoints } } := by
  induction cs with
  | nil => intro l; rfl
  | cons c cs ih => intro l; rw [List.foldl_cons, ih]; rfl

theorem foldl_withEdge (es : List CallEdge) : ∀ l : Loading, es.foldl Loading.withEdge l =
    { l with calls := { l.calls with edges := es.foldl addNew l.calls.edges } } := by
  induction es with
  | nil => intro l; rfl
  | cons e es ih => intro l; rw [List.foldl_cons, ih]; rfl

theorem foldl_withFact (fs : List PointsToEntry) : ∀ l : Loading, fs.foldl Loading.withFact l =
    { l with pointsTo := fs.foldl (fun t f => t.add f.context f.value f.objects) l.pointsTo } := by
  induction fs with
  | nil => intro l; rfl
  | cons f fs ih => intro l; rw [List.foldl_cons, ih]; rfl

end Sections

/-! ### Models -/

/-- The contexts that are read carry the procedures of the catalog. -/
theorem ReadsContext.mem_contextsOf {cat : Catalog} {v : Json} {id : String} {c : Context}
    (h : cat.ReadsContext v (id, some c)) : c ∈ cat.contextsOf := by
  cases h with
  | kept _ _ _ _ hp _ => exact Catalog.mem_contextsOf hp _

theorem mem_contextsOf_of_reads {cat : Catalog} {items : List Json} {ids : Ids}
    (h : List.Forall₂ cat.ReadsContext items ids) {id : String} {c : Context} (hc : (id, some c) ∈ ids) :
    c ∈ cat.contextsOf := by
  obtain ⟨v, -, hv⟩ := exists_of_mem_forall₂ h hc
  exact hv.mem_contextsOf

theorem knows_ofContexts {cat : Catalog} {ids : Ids} (h : ∀ id c, (id, some c) ∈ ids → c ∈ cat.contextsOf) :
    (Loading.ofContexts ids).Knows cat ids := by
  have hnode : ∀ c ∈ ids.kept.map (·.2), c ∈ cat.contextsOf := by
    intro c hc
    obtain ⟨id, hid⟩ := mem_contexts_kept.1 hc
    exact h id c hid
  refine ⟨rfl, rfl, fun id c hc => ?_, fun e he => h e.1 e.2 (mem_kept.1 he),
    ⟨⟨fun c hc => hnode c (mem_of_mem_distinct hc), ?_, ?_, ?_⟩, rfl⟩, ?_⟩
  · exact (cat.oneBody_contextsOf.exactOn.mem_distinct hnode).2 (mem_contexts_kept.2 ⟨id, hc⟩)
  all_goals exact fun e he => absurd he (by simp [Loading.ofContexts, CallGraph.onNodes])

/-- The readings of all sections, added to the contexts, make the model. -/
theorem model_eq (a : Analysis) (name : String) : a.model name =
    let l := a.facts.reduceOption.foldl Loading.withFact (a.edges.reduceOption.foldl Loading.withEdge
      (a.entrypoints.reduceOption.foldl Loading.withEntrypoint (.ofContexts a.ids)))
    ⟨name, l.calls, l.pointsTo, l.contexts⟩ := by
  simp only [foldl_withFact, foldl_withEdge, foldl_withEntrypoint, Loading.ofContexts, CallGraph.onNodes, foldl_addNew_nil]
  rfl

/-- An analysis is loaded exactly if its fields can be read, and then its model is what they describe. -/
theorem modelOf_eq_ok {cat : Catalog} {name : String} {fields : Document.Fields} {m : Model} :
    cat.modelOf name fields = .ok m ↔ ∃ a, cat.Reads fields a ∧ m = a.model name := by
  unfold modelOf
  simp only [bind_eq_ok]
  constructor
  · rintro ⟨l₁, h₁, l₂, h₂, l₃, h₃, l₄, h₄, h⟩
    obtain ⟨items, hitems, h₁⟩ := addSection_eq_ok.1 h₁
    obtain ⟨ids, hids, hn, rfl⟩ := addContexts_eq_ok.1 h₁
    have k₁ := knows_ofContexts fun id c hc => mem_contextsOf_of_reads hids hc
    have k₂ := (addSection_reads (addEntrypoint_reads hn) k₁).2 h₂
    have k₃ := (addSection_reads (addEdge_reads hn) k₂).2 h₃
    obtain ⟨entrypoints, hentrypoints, rfl⟩ := (addSection_reads (addEntrypoint_reads hn) k₁).1.1 h₂
    obtain ⟨edges, hedges, rfl⟩ := (addSection_reads (addEdge_reads hn) k₂).1.1 h₃
    obtain ⟨facts, hfacts, rfl⟩ := (addSection_reads (addFact_reads hn) k₃).1.1 h₄
    refine ⟨⟨ids, entrypoints, edges, facts⟩, ⟨⟨items, hitems, hids⟩, hn, hentrypoints, hedges, hfacts⟩, ?_⟩
    rw [model_eq, ← Except.ok.inj h]
  · rintro ⟨a, ⟨⟨items, hitems, hids⟩, hn, hentrypoints, hedges, hfacts⟩, rfl⟩
    have k₁ := knows_ofContexts fun id c hc => mem_contextsOf_of_reads hids hc
    have h₂ := (addSection_reads (addEntrypoint_reads hn) k₁).1.2 ⟨_, hentrypoints, rfl⟩
    have k₂ := (addSection_reads (addEntrypoint_reads hn) k₁).2 h₂
    have h₃ := (addSection_reads (addEdge_reads hn) k₂).1.2 ⟨_, hedges, rfl⟩
    have k₃ := (addSection_reads (addEdge_reads hn) k₂).2 h₃
    have h₄ := (addSection_reads (addFact_reads hn) k₃).1.2 ⟨_, hfacts, rfl⟩
    rw [model_eq]
    exact ⟨_, addSection_eq_ok.2 ⟨items, hitems, addContexts_eq_ok.2 ⟨_, hids, hn, rfl⟩⟩, _, h₂, _, h₃, _, h₄, rfl⟩

/-! ### Members of models -/

section Members
variable {cat : Catalog} {fields : Document.Fields} {a : Analysis} (h : cat.Reads fields a) (name : String)
include h

theorem Reads.mem_contextsOf {id : String} {c : Context} (hc : (id, some c) ∈ a.ids) : c ∈ cat.contextsOf := by
  obtain ⟨items, -, hitems⟩ := h.contexts
  exact mem_contextsOf_of_reads hitems hc

/-- The nodes of the model are the contexts that are read. -/
theorem Reads.mem_nodes {c : Context} : c ∈ (a.model name).calls.nodes ↔ ∃ id, (id, some c) ∈ a.ids := by
  rw [Analysis.model, cat.oneBody_contextsOf.exactOn.mem_distinct fun c hc => ?_]
  · exact mem_contexts_kept
  · obtain ⟨id, hid⟩ := mem_contexts_kept.1 hc
    exact h.mem_contextsOf hid

/-- The edges of the model are the edges that are read. -/
theorem Reads.mem_edges {e : CallEdge} : e ∈ (a.model name).calls.edges ↔ some e ∈ a.edges := by
  have hread : ∀ e ∈ a.edges.reduceOption,
      e ∈ {e : CallEdge | e.caller ∈ cat.contextsOf ∧ e.callee ∈ cat.contextsOf ∧ e.isTruth = false} := by
    intro e he
    obtain ⟨items, -, hitems⟩ := h.edges
    obtain ⟨v, -, hv⟩ := exists_of_mem_forall₂ hitems (List.reduceOption_mem_iff.1 he)
    cases hv with
    | kept _ hcaller _ hcallee =>
      obtain ⟨_, -, hc⟩ := hcaller
      obtain ⟨_, -, hd⟩ := hcallee
      exact ⟨h.mem_contextsOf hc, h.mem_contextsOf hd, rfl⟩
  rw [Analysis.model, (exactOn_edges cat.oneBody_contextsOf.exactOn).mem_distinct hread, List.reduceOption_mem_iff]

end Members

end Catalog

/-! ## Points-to facts -/

namespace PointsTo

theorem isFor_iff {c : Context} {v : Int} {e : PointsToEntry} :
    isFor c v e = true ↔ (e.context == c) = true ∧ e.value = v := by
  simp [isFor]

theorem isFor_congr {c d : Context} (h : (c == d) = true) (v : Int) (e : PointsToEntry) :
    isFor c v e = isFor d v e := by
  rw [isFor, isFor, BEq.congr_right h]

/-- Entries that keep their context and value are found as before. -/
theorem find?_map_isFor {f : PointsToEntry → PointsToEntry} (hf : ∀ c v e, isFor c v (f e) = isFor c v e)
    (es : List PointsToEntry) (c : Context) (v : Int) :
    (es.map f).find? (isFor c v) = (es.find? (isFor c v)).map f := by
  rw [List.find?_map]
  congr 2
  funext e
  exact hf c v e

theorem mem_objects_add {t : PointsTo} {c d : Context} {v w : Int} {objects : List String} {o : String} :
    o ∈ (t.add c v objects).objects d w ↔ o ∈ t.objects d w ∨ (c == d) = true ∧ v = w ∧ o ∈ objects := by
  have hexact : ExactOn (Set.univ : Set String) := fun a _ b _ h => eq_of_beq h
  have hdistinct : ∀ l : List String, o ∈ distinct l ↔ o ∈ l := fun l => hexact.mem_distinct fun _ _ => trivial
  have hf : ∀ (c' : Context) (v' : Int) (e : PointsToEntry), isFor c' v' (if isFor c v e = true then
      { e with objects := distinct (e.objects ++ objects) } else e) = isFor c' v' e := by
    intro c' v' e
    split <;> rfl
  unfold add
  cases hany : t.entries.any (isFor c v) with
  | true =>
    rw [if_pos rfl, PointsTo.objects, find?_map_isFor hf, PointsTo.objects]
    cases hfind : t.entries.find? (isFor d w) with
    | none =>
      -- the entry that is extended is not the one looked for
      obtain ⟨e, he, hcv⟩ := List.any_eq_true.1 hany
      have hne := List.find?_eq_none.1 hfind e he
      simp only [Option.map_none, List.not_mem_nil, false_or, false_iff]
      rintro ⟨hcd, rfl, -⟩
      exact hne (isFor_congr hcd v e ▸ hcv)
    | some e =>
      have hdw := isFor_iff.1 (List.find?_some hfind)
      simp only [Option.map_some]
      split
      case isTrue hcv =>
        obtain ⟨hec, hev⟩ := isFor_iff.1 hcv
        have hcd : (c == d) = true := BEq.trans (BEq.symm hec) hdw.1
        simp [hdistinct, hcd, hev.symm.trans hdw.2]
      case isFalse hcv =>
        have hno : ¬((c == d) = true ∧ v = w ∧ o ∈ objects) := by
          rintro ⟨hcd, rfl, -⟩
          exact hcv (isFor_iff.2 ⟨BEq.trans hdw.1 (BEq.symm hcd), hdw.2⟩)
        simp [hno]
  | false =>
    rw [if_neg (by simp), PointsTo.objects, PointsTo.objects, List.find?_append]
    cases hfind : t.entries.find? (isFor d w) with
    | none =>
      by_cases hnew : isFor d w ⟨c, v, distinct objects⟩ = true
      · obtain ⟨hcd, rfl⟩ : (c == d) = true ∧ v = w := isFor_iff.1 hnew
        simp [hnew, hcd, hdistinct]
      · have hno : ¬((c == d) = true ∧ v = w ∧ o ∈ objects) := fun h => hnew (isFor_iff.2 ⟨h.1, h.2.1⟩)
        simp [hnew, hno]
    | some e =>
      have hdw := isFor_iff.1 (List.find?_some hfind)
      have hno : ¬((c == d) = true ∧ v = w ∧ o ∈ objects) := by
        rintro ⟨hcd, rfl, -⟩
        have hcv : isFor c v e = true := isFor_iff.2 ⟨BEq.trans hdw.1 (BEq.symm hcd), hdw.2⟩
        simp [List.any_eq_false.1 hany e (List.mem_of_find?_eq_some hfind)] at hcv
      simp [hno]

/-- A value may refer to the objects of all facts about it. -/
theorem mem_objects_gather {facts : List PointsToEntry} {c : Context} {v : Int} {o : String} :
    o ∈ (gather facts).objects c v ↔ ∃ f ∈ facts, (f.context == c) = true ∧ f.value = v ∧ o ∈ f.objects := by
  have hfold : ∀ t : PointsTo, o ∈ (facts.foldl (fun t f => t.add f.context f.value f.objects) t).objects c v ↔
      o ∈ t.objects c v ∨ ∃ f ∈ facts, (f.context == c) = true ∧ f.value = v ∧ o ∈ f.objects := by
    induction facts with
    | nil => intro t; simp
    | cons f facts ih =>
      intro t
      rw [List.foldl_cons, ih, mem_objects_add, List.exists_mem_cons_iff, or_assoc]
  rw [gather, hfold]
  simp [PointsTo.objects]

end PointsTo
end ForwardSlicing
