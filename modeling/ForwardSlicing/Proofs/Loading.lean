import ForwardSlicing.Dependence.Graph
import ForwardSlicing.Document.Model
import ForwardSlicing.Proofs.CallGraph
/-!
# Loaded models are well formed

The procedures of a catalog have jumps that stay inside, and there is one for each method. A context that an analysis
is loaded with carries the procedure that the catalog has for its method. `Model.Loaded.wellFormed`: so the call graph
of every loaded model is well formed.
-/

namespace ForwardSlicing

/-! ## Fields -/

namespace Document

variable {place key : String} {fields : Fields} {v : Json}

theorem object_eq_ok : object place v = .ok fields ↔ v = .obj fields := by
  cases v with
  | obj fs => simp [object]
  | _ => simp [object]

theorem list_eq_ok {items : List Json} : list place v = .ok items ↔ v = .arr items := by
  cases v with
  | arr xs => simp [list]
  | _ => simp [list]

theorem text_eq_ok {s : String} : text place v = .ok s ↔ v = .str s := by
  cases v with
  | str t => simp [text]
  | _ => simp [text]

theorem field_eq_ok : field place fields key = .ok v ↔ Json.lookup fields key = some v := by
  unfold field
  cases Json.lookup fields key with
  | none => simp
  | some w => simp

theorem method_eq_ok {m : Method} : method v = .ok m ↔ Method.ofJson v = .ok m := by
  unfold method
  cases Method.ofJson v with
  | error e => simp
  | ok m' => simp

end Document

/-! ## Procedures -/

theorem badJump?_of_checked {m : Method} {n : Nat} {body : List Instruction} {p : Procedure}
    (h : Document.checkedProcedure m n body = .ok p) : FlowGraph.badJump? p.body = none := by
  unfold Document.checkedProcedure FlowGraph.build at h
  cases hb : FlowGraph.badJump? body with
  | none =>
    rw [hb] at h
    rw [← Except.ok.inj h]
    exact hb
  | some jump => simp [hb] at h

theorem badJump?_of_procedure {v : Json} {p : Procedure} (h : Document.procedure v = .ok p) :
    FlowGraph.badJump? p.body = none := by
  unfold Document.procedure at h
  simp only [bind_eq_ok] at h
  obtain ⟨_, -, _, -, _, -, _, -, _, -, _, -, h⟩ := h
  exact badJump?_of_checked h

namespace Catalog

/-- What a procedure of the document adds: nothing but its method if its class is excluded, else itself. -/
theorem addProcedure_cases {cat cat' : Catalog} {v : Json} (h : cat.addProcedure v = .ok cat') :
    ∃ p, Document.procedure v = .ok p ∧
      ((cat.excludes p.method.classPath = true ∧ ∃ methods, cat' = { cat with excluded := methods }) ∨
      (cat.excludes p.method.classPath = false ∧ find? cat.procedures p.method = none ∧
        cat' = { cat with procedures := cat.procedures ++ [p] })) := by
  unfold addProcedure at h
  rw [bind_eq_ok] at h
  obtain ⟨p, hp, h⟩ := h
  refine ⟨p, hp, ?_⟩
  split at h
  case isTrue he => exact .inl ⟨he, _, (Except.ok.inj h).symm⟩
  case isFalse he =>
    split at h
    · cases h
    case isFalse hnew =>
      exact .inr ⟨by simpa using he, by simpa using hnew, (Except.ok.inj h).symm⟩

/-- The jumps of all procedures stay inside. -/
def JumpsInside (cat : Catalog) : Prop := ∀ p ∈ cat.procedures, FlowGraph.badJump? p.body = none

theorem addProcedure_jumpsInside {cat cat' : Catalog} {v : Json} (hc : cat.JumpsInside)
    (h : cat.addProcedure v = .ok cat') : cat'.JumpsInside := by
  obtain ⟨p, hp, ⟨-, methods, rfl⟩ | ⟨-, -, rfl⟩⟩ := addProcedure_cases h
  · exact hc
  · intro q hq
    rcases List.mem_append.1 hq with hq | hq
    · exact hc q hq
    · rw [List.mem_singleton.1 hq]
      exact badJump?_of_procedure hp

theorem ofJson_eq_ok {excludes : String → Bool} {doc : Json} {cat : Catalog} : ofJson excludes doc = .ok cat ↔
    ∃ fields analyses items, doc = .obj fields ∧ Document.fieldOr fields "analyses" (.obj []) = .obj analyses ∧
      Document.fieldOr fields "procedures" (.arr []) = .arr items ∧
      items.foldlM addProcedure ⟨analyses, [], [], excludes⟩ = .ok cat := by
  unfold ofJson
  constructor
  · intro h
    split at h
    case h_2 => cases h
    case h_1 fields =>
      split at h
      case h_2 => cases h
      case h_1 analyses ha =>
        rw [bind_eq_ok] at h
        obtain ⟨items, hitems, h⟩ := h
        exact ⟨fields, analyses, items, rfl, ha, Document.list_eq_ok.1 hitems, h⟩
  · rintro ⟨fields, analyses, items, rfl, ha, hitems, h⟩
    simp only [ha, hitems]
    exact bind_eq_ok.2 ⟨items, rfl, h⟩

/-- The analyses of a catalog are those of the document. -/
theorem analyses_of_foldlM {items : List Json} {start cat : Catalog} (h : items.foldlM addProcedure start = .ok cat) :
    cat.analyses = start.analyses := by
  refine foldlM_keeps (P := fun c => c.analyses = start.analyses) (fun c v c' hc hadd => ?_) rfl h
  obtain ⟨p, -, ⟨-, methods, rfl⟩ | ⟨-, -, rfl⟩⟩ := addProcedure_cases hadd
  · exact hc
  · exact hc

theorem ofJson_jumpsInside {excludes : String → Bool} {doc : Json} {cat : Catalog}
    (h : ofJson excludes doc = .ok cat) : cat.JumpsInside := by
  obtain ⟨_, _, items, -, -, -, h⟩ := ofJson_eq_ok.1 h
  exact foldlM_keeps (fun _ _ _ => addProcedure_jumpsInside) (fun _ hp => absurd hp (by simp)) h

/-! ## Contexts -/

/-- The contexts that carry the procedure of their method. -/
def contextsOf (cat : Catalog) : Set Context := {c | find? cat.procedures c.method = some c.procedure}

theorem oneBody_contextsOf (cat : Catalog) : OneBody cat.contextsOf := by
  intro c hc d hd hm
  have hc' : find? cat.procedures c.method = some c.procedure := hc
  have hd' : find? cat.procedures d.method = some d.procedure := hd
  rw [hm, hd'] at hc'
  exact (Option.some.inj hc').symm

theorem mem_contextsOf {cat : Catalog} {m : Method} {p : Procedure} (h : find? cat.procedures m = some p)
    (name : String) : ⟨p, name⟩ ∈ cat.contextsOf := by
  have hp : p.method = m := by simpa using List.find?_some h
  show find? cat.procedures p.method = some p
  rw [hp, h]

/-- A context of the document has a new id and a method; it adds its id if its class is left out, else its context. -/
theorem addContext_eq_ok {cat : Catalog} {l l' : Loading} {v : Json} : cat.addContext l v = .ok l' ↔
    ∃ fields id signature m, v = .obj fields ∧ Json.lookup fields "id" = some (.str id) ∧
      Json.lookup fields "procedure" = some signature ∧ Method.ofJson signature = .ok m ∧
      l.context? id = none ∧ id ∉ l.dropped ∧
      ((cat.excludes m.classPath = true ∧ l' = { l with dropped := l.dropped ++ [id] }) ∨
      (cat.excludes m.classPath = false ∧ ∃ p name, find? cat.procedures m = some p ∧
        Document.fieldOr fields "context" (.str everywhere) = .str name ∧
        l' = { l with contexts := l.contexts ++ [(id, ⟨p, name⟩)], calls := l.calls.addNode ⟨p, name⟩ })) := by
  unfold addContext
  simp only [bind_eq_ok, Document.object_eq_ok, Document.field_eq_ok, Document.text_eq_ok]
  constructor
  · rintro ⟨fields, rfl, _, hid, id, rfl, h⟩
    split at h
    case isTrue => cases h
    case isFalse hnew =>
      simp only [Bool.or_eq_true, not_or, Option.not_isSome_iff_eq_none, List.contains_iff_mem] at hnew
      simp only [bind_eq_ok, Document.field_eq_ok, Document.method_eq_ok] at h
      obtain ⟨signature, hsignature, m, hm, h⟩ := h
      refine ⟨fields, id, signature, m, rfl, hid, hsignature, hm, hnew.1, hnew.2, ?_⟩
      split at h
      case isTrue he => exact .inl ⟨he, (Except.ok.inj h).symm⟩
      case isFalse he =>
        split at h
        case h_1 => cases h
        case h_2 p hp =>
          simp only [bind_eq_ok, Document.text_eq_ok] at h
          obtain ⟨name, hname, h⟩ := h
          exact .inr ⟨by simpa using he, p, name, hp, hname, (Except.ok.inj h).symm⟩
  · rintro ⟨fields, id, signature, m, rfl, hid, hsignature, hm, hfree, hkept, h⟩
    refine ⟨fields, rfl, _, hid, id, rfl, ?_⟩
    rw [if_neg (by simp [hfree, hkept])]
    simp only [bind_eq_ok, Document.field_eq_ok, Document.method_eq_ok]
    refine ⟨signature, hsignature, m, hm, ?_⟩
    rcases h with ⟨he, rfl⟩ | ⟨he, p, name, hp, hname, rfl⟩
    · rw [if_pos he]
      rfl
    · rw [if_neg (by simp [he])]
      simp only [hp, hname]
      rfl

/-- An id is resolved to nothing if it was left out, else to its context. -/
theorem resolve_eq_ok {l : Loading} {place : String} {v : Json} {found : Option Context} :
    resolve l place v = .ok found ↔ ∃ id, v = .str id ∧
      ((id ∈ l.dropped ∧ found = none) ∨ (id ∉ l.dropped ∧ ∃ c, l.context? id = some c ∧ found = some c)) := by
  unfold resolve
  simp only [bind_eq_ok, Document.text_eq_ok, List.contains_iff_mem]
  refine exists_congr fun id => and_congr_right fun _ => ?_
  by_cases hd : id ∈ l.dropped
  · simp [hd, pure, Except.pure, eq_comm]
  · cases l.context? id with
    | none => simp [hd]
    | some c => simp [hd, pure, Except.pure, eq_comm]

theorem mem_of_resolve {l : Loading} {place : String} {v : Json} {c : Context}
    (h : resolve l place v = .ok (some c)) : ∃ id, (id, c) ∈ l.contexts := by
  obtain ⟨id, -, ⟨-, hc⟩ | ⟨-, d, hd, hc⟩⟩ := resolve_eq_ok.1 h
  · cases hc
  · obtain ⟨⟨id', d'⟩, hf, rfl⟩ := Option.map_eq_some_iff.1 hd
    exact ⟨id', Option.some.inj hc ▸ List.mem_of_find?_eq_some hf⟩

/-! ## Loading keeps the call graph well formed -/

/-- The contexts so far carry the procedures of the catalog, and the calls so far are between them, at sites that were
given as integers. -/
structure Loading.Over (cat : Catalog) (l : Loading) : Prop where
  context : ∀ e ∈ l.contexts, e.2 ∈ cat.contextsOf
  calls : l.calls.Grown cat.contextsOf
  plain : ∀ e ∈ l.calls.edges, e.isTruth = false

section Steps
variable {cat : Catalog} {l l' : Loading} {v : Json}

theorem Loading.Over.resolve (hl : l.Over cat) {place : String} {c : Context}
    (h : Catalog.resolve l place v = .ok (some c)) : c ∈ cat.contextsOf := by
  obtain ⟨id, hid⟩ := mem_of_resolve h
  exact hl.context _ hid

theorem Loading.Over.addContext (hl : l.Over cat) (h : cat.addContext l v = .ok l') : l'.Over cat := by
  obtain ⟨fields, id, signature, m, -, -, -, -, -, -, ⟨-, rfl⟩ | ⟨-, p, name, hp, -, rfl⟩⟩ := addContext_eq_ok.1 h
  · exact ⟨hl.context, hl.calls, hl.plain⟩
  · have hc := mem_contextsOf hp name
    have hplain : ∀ e ∈ (l.calls.addNode ⟨p, name⟩).edges, e.isTruth = false := by
      rw [hl.calls.addNode_eq]
      exact hl.plain
    refine ⟨fun e he => ?_, hl.calls.addNode hc, hplain⟩
    rcases List.mem_append.1 he with he | he
    · exact hl.context e he
    · rw [List.mem_singleton.1 he]
      exact hc

theorem Loading.Over.addEntrypoint (hl : l.Over cat) (h : Catalog.addEntrypoint l v = .ok l') : l'.Over cat := by
  unfold Catalog.addEntrypoint at h
  rw [bind_eq_ok] at h
  obtain ⟨found, hf, h⟩ := h
  cases found with
  | none => exact Except.ok.inj h ▸ hl
  | some c =>
    have hplain : ∀ e ∈ (l.calls.addEntrypoint c).edges, e.isTruth = false := by
      rw [hl.calls.addEntrypoint_eq]
      exact hl.plain
    rw [← Except.ok.inj h]
    exact ⟨hl.context, hl.calls.addEntrypoint (hl.resolve hf), hplain⟩

theorem Loading.Over.addEdge (hl : l.Over cat) (h : Catalog.addEdge l v = .ok l') : l'.Over cat := by
  unfold Catalog.addEdge at h
  simp only [bind_eq_ok] at h
  obtain ⟨fields, -, _, -, caller, hcaller, _, -, callee, hcallee, h⟩ := h
  split at h
  case h_2 => exact Except.ok.inj h ▸ hl
  case h_1 c d =>
    simp only [bind_eq_ok] at h
    obtain ⟨_, -, site, -, _, hadded, h⟩ := h
    have hexact := cat.oneBody_contextsOf.exactOn
    have hadd : l.calls.addEdge c site d = (.ok (), (l.calls.addEdge c site d).2) := Prod.ext hadded rfl
    obtain ⟨i, hi, hcalls⟩ := CallGraph.addEdge_eq_ok.1 hadd
    have hedges := congrArg CallGraph.edges
      (hl.calls.addCall_eq hexact (k := .of c i) (hl.resolve hcaller) (hl.resolve hcallee))
    rw [← Except.ok.inj h, hcalls]
    refine ⟨hl.context, hl.calls.addCall hexact (hl.resolve hcaller) (hl.resolve hcallee)
      (CallGraph.callAt?_eq_some_iff.1 hi).2, fun e he => ?_⟩
    rcases mem_or_eq_of_mem_addNew (hedges ▸ he) with he | rfl
    · exact hl.plain e he
    · rfl

theorem Loading.Over.addFact (hl : l.Over cat) (h : Catalog.addFact l v = .ok l') : l'.Over cat := by
  unfold Catalog.addFact at h
  simp only [bind_eq_ok] at h
  obtain ⟨fields, -, _, -, found, -, h⟩ := h
  cases found with
  | none => exact Except.ok.inj h ▸ hl
  | some c =>
    simp only [bind_eq_ok] at h
    obtain ⟨_, -, value, -, items, -, objects, -, h⟩ := h
    rw [← Except.ok.inj h]
    exact ⟨hl.context, hl.calls, hl.plain⟩

theorem Loading.Over.addSection {fields : Document.Fields} {key : String}
    {add : Loading → Json → Except Failure Loading} (hadd : ∀ l v l', l.Over cat → add l v = .ok l' → l'.Over cat)
    (hl : l.Over cat) (h : Catalog.addSection fields key add l = .ok l') : l'.Over cat := by
  unfold Catalog.addSection at h
  rw [bind_eq_ok] at h
  obtain ⟨items, -, h⟩ := h
  exact foldlM_keeps hadd hl h

end Steps

/-! ## Models -/

theorem addSection_eq_ok {fields : Document.Fields} {key : String} {add : Loading → Json → Except Failure Loading}
    {l l' : Loading} : addSection fields key add l = .ok l' ↔
      ∃ items, Document.fieldOr fields key (.arr []) = .arr items ∧ items.foldlM add l = .ok l' := by
  unfold addSection
  simp only [bind_eq_ok, Document.list_eq_ok]

theorem snapshot_eq_ok {cat : Catalog} {name : String} {fields : Document.Fields} :
    cat.snapshot name = .ok fields ↔ Json.lookup cat.analyses name = some (.obj fields) := by
  unfold snapshot
  cases Json.lookup cat.analyses name with
  | none => simp
  | some v => simp [Document.object_eq_ok]

theorem modelOf_grown {cat : Catalog} {name : String} {fields : Document.Fields} {m : Model}
    (h : cat.modelOf name fields = .ok m) : m.calls.Grown cat.contextsOf ∧ ∀ e ∈ m.calls.edges, e.isTruth = false := by
  unfold modelOf at h
  simp only [bind_eq_ok] at h
  obtain ⟨l₁, h₁, l₂, h₂, l₃, h₃, l₄, h₄, h⟩ := h
  have k₀ : Loading.Over cat {} :=
    ⟨fun _ he => absurd he (by simp), CallGraph.grown_empty, fun _ he => absurd he (by simp)⟩
  have k₁ := k₀.addSection (fun _ _ _ => Loading.Over.addContext) h₁
  have k₂ := k₁.addSection (fun _ _ _ => Loading.Over.addEntrypoint) h₂
  have k₃ := k₂.addSection (fun _ _ _ => Loading.Over.addEdge) h₃
  have k₄ := k₃.addSection (fun _ _ _ => Loading.Over.addFact) h₄
  rw [← Except.ok.inj h]
  exact ⟨k₄.calls, k₄.plain⟩

end Catalog

namespace Model

/-- The model is what some analysis of some document describes, with some classes left out. -/
def Loaded (m : Model) : Prop :=
  ∃ excludes doc cat name, Catalog.ofJson excludes doc = .ok cat ∧ cat.load name = .ok m

theorem ofJson_eq_ok {excludes : String → Bool} {doc : Json} {name : String} {m : Model} :
    Model.ofJson excludes doc name = .ok m ↔ ∃ cat, Catalog.ofJson excludes doc = .ok cat ∧ cat.load name = .ok m :=
  bind_eq_ok

theorem loaded_of_ofJson {excludes : String → Bool} {doc : Json} {name : String} {m : Model}
    (h : Model.ofJson excludes doc name = .ok m) : m.Loaded := by
  obtain ⟨cat, hcat, hload⟩ := ofJson_eq_ok.1 h
  exact ⟨excludes, doc, cat, name, hcat, hload⟩

/-- What dependence is computed from. -/
def dependence (m : Model) : DependenceGraph := ⟨m.calls, m.pointsTo⟩

theorem Loaded.wellFormed {m : Model} (h : m.Loaded) : m.calls.WellFormed := by
  obtain ⟨excludes, doc, cat, name, hcat, hload⟩ := h
  unfold Catalog.load at hload
  rw [bind_eq_ok] at hload
  obtain ⟨fields, -, hm⟩ := hload
  obtain ⟨ho, hplain⟩ := Catalog.modelOf_grown hm
  refine ⟨fun c hc d hd => cat.oneBody_contextsOf c (ho.node c hc) d (ho.node d hd), ho.caller, ho.callee, ho.site,
    fun c hc => ?_, ho.indexed, hplain⟩
  exact Catalog.ofJson_jumpsInside hcat _ (List.mem_of_find?_eq_some (ho.node c hc))

end Model

/-! ## An example

A method stores in a field what a recursive method returns, which reads the same field. One analysis has one context
for each method, the other one tells the calls from the two methods apart. -/

namespace Sample

/-- An entry of the edges of an analysis. -/
def edge (caller : String) (site : Int) (callee : String) : Json :=
  .obj [("caller", .str caller), ("site", .int site), ("callee", .str callee)]

/-- An entry of the points-to facts of an analysis. -/
def fact (context : String) (value : Int) : Json :=
  .obj [("context", .str context), ("value", .int value), ("objects", .arr [.str "object"])]

def document : Json := .obj [
  ("procedures", .arr [
    .obj [("signature", .str "Box.main()V"), ("instructions", .arr [
      .obj [("op", .str "new"), ("result", .int 1)],
      .obj [("op", .str "invoke"), ("target", .str "Box.walk(I)I"), ("args", .arr [.int 1]), ("result", .int 2)],
      .obj [("op", .str "putfield"), ("ref", .int 1), ("field", .str "next"), ("value", .int 2)],
      .obj [("op", .str "return")]])],
    .obj [("signature", .str "Box.walk(I)I"), ("instructions", .arr [
      .obj [("op", .str "getfield"), ("result", .int 2), ("ref", .int 1), ("field", .str "next")],
      .obj [("op", .str "invoke"), ("target", .str "Box.walk(I)I"), ("args", .arr [.int 2]), ("result", .int 3)],
      .obj [("op", .str "return"), ("value", .int 3)]])]]),
  ("analyses", .obj [
    ("0cfa", .obj [
      ("contexts", .arr [
        .obj [("id", .str "main"), ("procedure", .str "Box.main()V")],
        .obj [("id", .str "walk"), ("procedure", .str "Box.walk(I)I")]]),
      ("entrypoints", .arr [.str "main"]),
      ("edges", .arr [edge "main" 1 "walk", edge "walk" 1 "walk"]),
      ("points_to", .arr [fact "main" 1, fact "walk" 1, fact "walk" 2])]),
    ("vanilla-1cfa", .obj [
      ("contexts", .arr [
        .obj [("id", .str "main"), ("procedure", .str "Box.main()V")],
        .obj [("id", .str "outer"), ("procedure", .str "Box.walk(I)I"), ("context", .str "main")],
        .obj [("id", .str "inner"), ("procedure", .str "Box.walk(I)I"), ("context", .str "walk")]]),
      ("entrypoints", .arr [.str "main"]),
      ("edges", .arr [edge "main" 1 "outer", edge "outer" 1 "inner", edge "inner" 1 "inner"]),
      ("points_to", .arr [fact "main" 1, fact "outer" 1])])])]

def walkMethod : Method := ⟨"Box", "walk", ⟨["I"], "I"⟩⟩

/-- The method that stores. -/
def main : Procedure where
  method := ⟨"Box", "main", ⟨[], "V"⟩⟩
  params := 0
  body := [.new 1 "java.lang.Object", .invoke walkMethod [1] (some 2) none, .putField (some 1) "next" 2, .ret none]

/-- The method that reads. -/
def walk : Procedure where
  method := walkMethod
  params := 1
  body := [.getField 2 (some 1) "next", .invoke walkMethod [2] (some 3) none, .ret (some 3)]

/-- The only context of a method in the coarse analysis. -/
def merged (p : Procedure) : Context := ⟨p, "Everywhere"⟩

def outer : Context := ⟨walk, "main"⟩
def inner : Context := ⟨walk, "walk"⟩

/-- What the coarse analysis finds. -/
def coarse : Model where
  name := "0cfa"
  calls := {
    nodes := [merged main, merged walk]
    byMethod := [(main.method, [merged main]), (walk.method, [merged walk])]
    entrypoints := [merged main]
    edges := [.of (merged main) 1 (merged walk), .of (merged walk) 1 (merged walk)] }
  pointsTo := ⟨[⟨merged main, 1, ["object"]⟩, ⟨merged walk, 1, ["object"]⟩, ⟨merged walk, 2, ["object"]⟩]⟩
  contexts := [("main", merged main), ("walk", merged walk)]

/-- What the analysis that tells calls apart finds. -/
def fine : Model where
  name := "vanilla-1cfa"
  calls := {
    nodes := [merged main, outer, inner]
    byMethod := [(main.method, [merged main]), (walk.method, [outer, inner])]
    entrypoints := [merged main]
    edges := [.of (merged main) 1 outer, .of outer 1 inner, .of inner 1 inner] }
  pointsTo := ⟨[⟨merged main, 1, ["object"]⟩, ⟨outer, 1, ["object"]⟩]⟩
  contexts := [("main", merged main), ("outer", outer), ("inner", inner)]

/-- The statement that stores. -/
def store : Statement := .of (merged main) (.normal 2)

/-- The contexts of the two methods, those that no analysis has among them. -/
def contexts : Set Context := {c | c.procedure = main ∨ c.procedure = walk}

theorem oneBody_contexts : OneBody contexts := by
  have hdiffer : main.method ≠ walk.method := by decide
  rintro ⟨p, n⟩ hc ⟨q, k⟩ hd hm
  rcases hc with rfl | rfl <;> rcases hd with rfl | rfl
  · rfl
  · exact absurd hm hdiffer
  · exact absurd hm hdiffer.symm
  · rfl

section Loads

-- contexts are compared by their keys elsewhere, so that models can be compared is known here only
local instance : DecidableEq Context := fun a b =>
  decidable_of_iff (a.procedure = b.procedure ∧ a.name = b.name) (by cases a; cases b; simp)
local instance : DecidableEq CallEdge := fun a b =>
  decidable_of_iff (a.caller = b.caller ∧ a.site = b.site ∧ a.isTruth = b.isTruth ∧ a.callee = b.callee) (by
    obtain ⟨⟨_, _, _⟩, _⟩ := a
    obtain ⟨⟨_, _, _⟩, _⟩ := b
    simp only [CallEdge.mk.injEq, Invocation.mk.injEq, and_assoc])
local instance : DecidableEq PointsToEntry := fun a b =>
  decidable_of_iff (a.context = b.context ∧ a.value = b.value ∧ a.objects = b.objects) (by cases a; cases b; simp)
local instance : DecidableEq Model := fun a b =>
  decidable_of_iff (a.name = b.name ∧ a.calls.nodes = b.calls.nodes ∧ a.calls.byMethod = b.calls.byMethod ∧
      a.calls.entrypoints = b.calls.entrypoints ∧ a.calls.edges = b.calls.edges ∧
      a.pointsTo.entries = b.pointsTo.entries ∧ a.contexts = b.contexts)
    (by
      obtain ⟨_, ⟨_, _, _, _⟩, ⟨_⟩, _⟩ := a
      obtain ⟨_, ⟨_, _, _, _⟩, ⟨_⟩, _⟩ := b
      simp only [Model.mk.injEq, CallGraph.mk.injEq, PointsTo.mk.injEq, and_assoc])

/-- The document gives the model. -/
def gives (excludes : String → Bool) (doc : Json) (name : String) (m : Model) : Bool :=
  (Model.ofJson excludes doc name).toOption = some m

theorem ofJson_of_gives {excludes : String → Bool} {doc : Json} {name : String} {m : Model}
    (h : gives excludes doc name m = true) : Model.ofJson excludes doc name = .ok m := by
  rw [gives, decide_eq_true_eq] at h
  cases hm : Model.ofJson excludes doc name with
  | error e => simp [hm, Except.toOption] at h
  | ok m' => simpa [hm, Except.toOption] using h

end Loads

theorem coarse_loaded : coarse.Loaded :=
  Model.loaded_of_ofJson (ofJson_of_gives (by decide +kernel : gives (fun _ => false) document "0cfa" coarse = true))

theorem fine_loaded : fine.Loaded :=
  Model.loaded_of_ofJson (ofJson_of_gives (by decide +kernel : gives (fun _ => false) document "vanilla-1cfa" fine = true))

end Sample
end ForwardSlicing
