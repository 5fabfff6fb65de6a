import ForwardSlicing.Proofs.Flow
import ForwardSlicing.Proofs.Reading
import ForwardSlicing.Proofs.Search
import ForwardSlicing.Proofs.Signature
/-!
# Programs and the documents that spell them

A `Program` is what a document is about: procedures, and what one analysis found out about them, with contexts named by
ids. `Program.SpelledBy` is the format of documents, field by field: the fields stand in any order, other fields may stand
between them, and a field that says what its absence says may be left out. It does not speak of how documents are read.

`load_spelled`: a document that spells a well-formed program is loaded, and the model is the program with its ids resolved.
-/

namespace ForwardSlicing

/-! ## The format of documents -/

namespace Document

/-- An operand, which is null if it is absent. -/
def optional : Option Int → Json
  | none => .null
  | some v => .int v

/-- The site that a call states, which is null if it states none. -/
def siteJson : Option CallSite → Json
  | none => .null
  | some (.name s) => .str s
  | some (.number i) => .int i

/-- Operands in a row. -/
def integers (vs : List Int) : Json := .arr (vs.map .int)

/-- The objects that spell an instruction. -/
inductive SpellsInstruction : Json → Instruction → Prop
  | assign {fields : Fields} {result : Int} {operands : List Int} {label : String} :
      Json.lookup fields "op" = some (.str "assign") → Json.lookup fields "result" = some (.int result) →
      fieldOr fields "operands" (.arr []) = integers operands → fieldOr fields "label" (.str "") = .str label →
      SpellsInstruction (.obj fields) (.assign result operands label)
  | phi {fields : Fields} {result : Int} {operands : List Int} :
      Json.lookup fields "op" = some (.str "phi") → Json.lookup fields "result" = some (.int result) →
      fieldOr fields "operands" (.arr []) = integers operands → SpellsInstruction (.obj fields) (.phi result operands)
  | new {fields : Fields} {result : Int} {type : String} :
      Json.lookup fields "op" = some (.str "new") → Json.lookup fields "result" = some (.int result) →
      fieldOr fields "type" (.str "java.lang.Object") = .str type → SpellsInstruction (.obj fields) (.new result type)
  | getField {fields : Fields} {result : Int} {base : Option Int} {name : String} :
      Json.lookup fields "op" = some (.str "getfield") → Json.lookup fields "result" = some (.int result) →
      fieldOr fields "ref" .null = optional base → Json.lookup fields "field" = some (.str name) →
      SpellsInstruction (.obj fields) (.getField result base name)
  | putField {fields : Fields} {base : Option Int} {name : String} {value : Int} :
      Json.lookup fields "op" = some (.str "putfield") → fieldOr fields "ref" .null = optional base →
      Json.lookup fields "field" = some (.str name) → Json.lookup fields "value" = some (.int value) →
      SpellsInstruction (.obj fields) (.putField base name value)
  | invoke {fields : Fields} {target : Method} {signature : String} {args : List Int} {result : Option Int}
      {site : Option CallSite} :
      Json.lookup fields "op" = some (.str "invoke") → Json.lookup fields "target" = some (.str signature) →
      target.SpelledBy signature → fieldOr fields "args" (.arr []) = integers args →
      fieldOr fields "result" .null = optional result → fieldOr fields "site" .null = siteJson site →
      SpellsInstruction (.obj fields) (.invoke target args result site)
  | branch {fields : Fields} {operands : List Int} {target : Int} :
      Json.lookup fields "op" = some (.str "branch") → fieldOr fields "operands" (.arr []) = integers operands →
      Json.lookup fields "target" = some (.int target) → SpellsInstruction (.obj fields) (.branch operands target)
  | goto {fields : Fields} {target : Int} :
      Json.lookup fields "op" = some (.str "goto") → Json.lookup fields "target" = some (.int target) →
      SpellsInstruction (.obj fields) (.goto target)
  | ret {fields : Fields} {value : Option Int} :
      Json.lookup fields "op" = some (.str "return") → fieldOr fields "value" .null = optional value →
      SpellsInstruction (.obj fields) (.ret value)

/-- The objects that spell a procedure; the number of parameters is that of the descriptor unless it is given. -/
inductive SpellsProcedure : Json → Procedure → Prop
  | object {fields : Fields} {p : Procedure} {signature : String} :
      Json.lookup fields "signature" = some (.str signature) → p.method.SpelledBy signature →
      fieldOr fields "params" (.int p.method.descriptor.params.length) = .int p.params →
      ReadsSection fields "instructions" SpellsInstruction p.body → SpellsProcedure (.obj fields) p

/-- The objects that spell a context with its id. -/
inductive SpellsContext : Json → String × Context → Prop
  | object {fields : Fields} {id signature : String} {c : Context} :
      Json.lookup fields "id" = some (.str id) → Json.lookup fields "procedure" = some (.str signature) →
      c.method.SpelledBy signature → fieldOr fields "context" (.str everywhere) = .str c.name →
      SpellsContext (.obj fields) (id, c)

/-! ### Reading what is spelled -/

theorem toIntegers_integers (vs : List Int) : (integers vs).toIntegers = .ok vs := by
  show (vs.map Json.int).mapM Json.toInteger = .ok vs
  induction vs with
  | nil => rfl
  | cons v vs ih => simp [List.mapM_cons, ih, Json.toInteger, bind, Except.bind, pure, Except.pure]

section Spelled
variable {fields : Fields} {place key : String}

theorem operands_eq {vs : List Int} (h : fieldOr fields key (.arr []) = integers vs) :
    operands place fields key = .ok vs := by
  rw [operands, h, toIntegers_integers]

theorem operand?_eq {v : Option Int} (h : fieldOr fields key .null = optional v) :
    operand? place fields key = .ok v := by
  rw [operand?, h]
  cases v <;> rfl

theorem callSite_siteJson (site : Option CallSite) : callSite place (siteJson site) = .ok site := by
  cases site with
  | none => rfl
  | some s => cases s <;> rfl

theorem labelText_str (s : String) : labelText (.str s) = s := by
  unfold labelText Json.isSilent Json.plain
  by_cases h : s = ""
  · simp [h]
  · simp [h]

theorem field_eq {v : Json} (h : Json.lookup fields key = some v) : field place fields key = .ok v :=
  field_eq_ok.2 h

theorem required_eq {v : Int} (h : Json.lookup fields key = some (.int v)) :
    (field place fields key >>= operand place) = .ok v := by
  rw [field_eq h]
  rfl

theorem callTarget_spelled {m : Method} {s : String} (h : m.SpelledBy s) : callTarget place (.str s) = .ok m := by
  rw [callTarget, Method.ofJson_spelled h]

/-- An object that names an operation is read as an instruction of it. -/
theorem instruction_eq {op : String} {ins : Instruction} (hop : Json.lookup fields "op" = some (.str op))
    (h : instructionOf place fields op = some (.ok ins)) : instruction place (.obj fields) = .ok ins := by
  simp [instruction, object, field_eq hop, h, bind, Except.bind]

/-- An object is read as the instruction that it spells. -/
theorem instruction_spelled {v : Json} {ins : Instruction} (h : SpellsInstruction v ins) (place : String) :
    instruction place v = .ok ins := by
  cases h with
  | assign hop hresult hoperands hlabel =>
    refine instruction_eq hop ?_
    simp only [instructionOf, required_eq hresult, operands_eq hoperands, hlabel, labelText_str]
    rfl
  | phi hop hresult hoperands =>
    refine instruction_eq hop ?_
    simp only [instructionOf, required_eq hresult, operands_eq hoperands]
    rfl
  | new hop hresult htype =>
    refine instruction_eq hop ?_
    simp only [instructionOf, required_eq hresult, htype]
    rfl
  | getField hop hresult hbase hname =>
    refine instruction_eq hop ?_
    simp only [instructionOf, required_eq hresult, operand?_eq hbase, field_eq hname]
    rfl
  | putField hop hbase hname hvalue =>
    refine instruction_eq hop ?_
    simp only [instructionOf, operand?_eq hbase, field_eq hname, required_eq hvalue]
    rfl
  | invoke hop htarget hsignature hargs hresult hsite =>
    refine instruction_eq hop ?_
    simp only [instructionOf, field_eq htarget, operands_eq hargs, operand?_eq hresult, hsite, callSite_siteJson, bind,
      Except.bind, callTarget_spelled hsignature]
    rfl
  | branch hop hoperands htarget =>
    refine instruction_eq hop ?_
    simp only [instructionOf, operands_eq hoperands, required_eq htarget]
    rfl
  | goto hop htarget =>
    refine instruction_eq hop ?_
    simp only [instructionOf, required_eq htarget]
    rfl
  | ret hop hvalue =>
    refine instruction_eq hop ?_
    simp only [instructionOf, operand?_eq hvalue]
    rfl

end Spelled

theorem instructions_spelled {items : List Json} {body : List Instruction}
    (h : List.Forall₂ SpellsInstruction items body) (signature : String) : ∀ n : Nat,
    (items.zipIdx n).mapM (fun (item, i) => instruction (instructionPlace signature i) item) = .ok body := by
  induction h with
  | nil => intro n; rfl
  | cons hv _ ih =>
    intro n
    simp [List.zipIdx_cons, List.mapM_cons, instruction_spelled hv, ih, bind, Except.bind, pure, Except.pure]

/-- An object is read as the procedure that it spells, if the jumps of the procedure stay inside. -/
theorem procedure_spelled {v : Json} {p : Procedure} (h : SpellsProcedure v p)
    (hjumps : ∀ ins ∈ p.body, ∀ t ∈ ins.jumps, 0 ≤ t ∧ t < p.body.length) : procedure v = .ok p := by
  cases h with
  | @object fields p signature hsignature hspelled hparams hbody =>
    obtain ⟨items, hitems, hbody⟩ := hbody
    have hmethod : method (.str signature) = .ok p.method := method_eq_ok.2 (Method.ofJson_spelled hspelled)
    have hcount : paramCount signature p.method fields = .ok p.params := by
      simp [paramCount, hparams, integer, bind, Except.bind, pure, Except.pure]
    have hchecked : checkedProcedure p.method p.params p.body = .ok p := by
      simp [checkedProcedure, FlowGraph.build, FlowGraph.badJump?_eq_none_iff.2 hjumps]
    unfold procedure
    simp only [bind_eq_ok]
    exact ⟨fields, rfl, .str signature, field_eq hsignature, p.method, hmethod, p.params, hcount, items,
      list_eq_ok.2 hitems, p.body, instructions_spelled hbody signature 0, hchecked⟩

end Document

/-! ## Programs -/

/-- A call that an analysis found, between contexts given by their ids. -/
structure Program.Call where
  caller : String
  site : Nat
  callee : String

/-- What an analysis found out about a value of a context, which is given by its id. -/
structure Program.Fact where
  context : String
  value : Int
  objects : List String

/-- A program, and what one analysis found out about it. An id stands for a context, and several ids may stand for one. -/
structure Program where
  procedures : List Procedure
  analysis : String
  contexts : List (String × Context)
  entrypoints : List String
  calls : List Program.Call
  facts : List Program.Fact

namespace Program

/-- The methods of procedures and the ids of contexts are used once, jumps stay inside, and all that is mentioned exists. -/
structure WellFormed (p : Program) : Prop where
  methods : (p.procedures.map (·.method)).Nodup
  jumps : ∀ q ∈ p.procedures, ∀ ins ∈ q.body, ∀ t ∈ ins.jumps, 0 ≤ t ∧ t < q.body.length
  ids : (p.contexts.map (·.1)).Nodup
  listed : ∀ e ∈ p.contexts, e.2.procedure ∈ p.procedures
  entrypoints : ∀ id ∈ p.entrypoints, ∃ c, (id, c) ∈ p.contexts
  calls : ∀ k ∈ p.calls, ∃ c d, (k.caller, c) ∈ p.contexts ∧ (k.callee, d) ∈ p.contexts ∧ c.HasCall k.site
  facts : ∀ f ∈ p.facts, ∃ c, (f.context, c) ∈ p.contexts

/-- The objects that spell a call. -/
inductive SpellsCall : Json → Call → Prop
  | object {fields : Document.Fields} {k : Call} : Json.lookup fields "caller" = some (.str k.caller) →
      Json.lookup fields "site" = some (.int k.site) → Json.lookup fields "callee" = some (.str k.callee) →
      SpellsCall (.obj fields) k

/-- The objects that spell a fact. -/
inductive SpellsFact : Json → Fact → Prop
  | object {fields : Document.Fields} {f : Fact} : Json.lookup fields "context" = some (.str f.context) →
      Json.lookup fields "value" = some (.int f.value) →
      Document.fieldOr fields "objects" (.arr []) = .arr (f.objects.map .str) → SpellsFact (.obj fields) f

/-- The documents that spell a program. -/
inductive SpelledBy (p : Program) : Json → Prop
  | document {fields analyses entries : Document.Fields} :
      Document.ReadsSection fields "procedures" Document.SpellsProcedure p.procedures →
      Json.lookup fields "analyses" = some (.obj analyses) → Json.lookup analyses p.analysis = some (.obj entries) →
      Document.ReadsSection entries "contexts" Document.SpellsContext p.contexts →
      Document.ReadsSection entries "entrypoints" (fun v id => v = .str id) p.entrypoints →
      Document.ReadsSection entries "edges" SpellsCall p.calls →
      Document.ReadsSection entries "points_to" SpellsFact p.facts → SpelledBy p (.obj fields)

/-! ### Resolved ids -/

section Resolved
variable (p : Program)

/-- The context of an id. -/
def context? (id : String) : Option Context := (p.contexts.find? (·.1 == id)).map (·.2)

/-- A call between the contexts of its ids. -/
def edge? (k : Call) : Option CallEdge :=
  (p.context? k.caller).bind fun c => (p.context? k.callee).map fun d => .of c k.site d

/-- A fact about the context of its id. -/
def fact? (f : Fact) : Option PointsToEntry := (p.context? f.context).map fun c => ⟨c, f.value, f.objects⟩

/-- What the entries of a document that spells the program are read as. -/
def readings : Analysis where
  ids := p.contexts.map fun e => (e.1, some e.2)
  entrypoints := p.entrypoints.map p.context?
  edges := p.calls.map p.edge?
  facts := p.facts.map p.fact?

/-- The call is one of the program, with its ids resolved. -/
def Calls (e : CallEdge) : Prop :=
  ∃ k ∈ p.calls, ∃ c d, (k.caller, c) ∈ p.contexts ∧ (k.callee, d) ∈ p.contexts ∧ e = .of c k.site d

/-- The model is the program with its ids resolved: contexts that differ in their ids only are one node, calls and entry
points that differ in ids only are one, and what is known of a value is all that the facts about it say. -/
structure Describes (m : Model) : Prop where
  contexts : m.contexts = p.contexts
  nodes : m.calls.nodes = distinct (p.contexts.map (·.2))
  nodesFor : ∀ method, m.calls.nodesFor method = m.calls.nodes.filter fun c => decide (c.method = method)
  entrypoints : m.calls.entrypoints = distinct (p.entrypoints.filterMap p.context?)
  edges : ∀ e, e ∈ m.calls.edges ↔ p.Calls e
  count : m.calls.stats.edges = {e | p.Calls e}.ncard
  objects : ∀ c v o, o ∈ m.pointsTo.objects c v ↔
    ∃ f ∈ p.facts, ∃ d, (f.context, d) ∈ p.contexts ∧ (d == c) = true ∧ f.value = v ∧ o ∈ f.objects

variable {p} (hp : p.WellFormed)
include hp

theorem context?_eq_some {id : String} {c : Context} : p.context? id = some c ↔ (id, c) ∈ p.contexts :=
  find?_value_iff hp.ids

theorem edge?_eq_some {k : Call} {e : CallEdge} : p.edge? k = some e ↔
    ∃ c d, (k.caller, c) ∈ p.contexts ∧ (k.callee, d) ∈ p.contexts ∧ e = .of c k.site d := by
  simp only [edge?, Option.bind_eq_some_iff, Option.map_eq_some_iff, context?_eq_some hp]
  constructor
  · rintro ⟨c, hc, d, hd, rfl⟩
    exact ⟨c, d, hc, hd, rfl⟩
  · rintro ⟨c, d, hc, hd, rfl⟩
    exact ⟨c, hc, d, hd, rfl⟩

end Resolved

/-! ### Loading -/

section Loading
variable {p : Program} (hp : p.WellFormed)

theorem kept_readings (p : Program) : p.readings.ids.kept = p.contexts := by
  simp [readings, Ids.kept, List.filterMap_map]

theorem mem_ids {id : String} {c : Context} (h : (id, c) ∈ p.contexts) : (id, some c) ∈ p.readings.ids :=
  List.mem_map.2 ⟨(id, c), h, rfl⟩

include hp

/-- The entries of an analysis are read as the ids resolved. -/
theorem reads_spelled {cat : Catalog} (hcat : cat.procedures = p.procedures) (hex : ∀ path, cat.excludes path = false)
    {entries : Document.Fields} (hcontexts : Document.ReadsSection entries "contexts" Document.SpellsContext p.contexts)
    (hentrypoints : Document.ReadsSection entries "entrypoints" (fun v id => v = .str id) p.entrypoints)
    (hedges : Document.ReadsSection entries "edges" SpellsCall p.calls)
    (hfacts : Document.ReadsSection entries "points_to" SpellsFact p.facts) : cat.Reads entries p.readings := by
  refine ⟨hcontexts.map ?_, ?_, hentrypoints.map ?_, hedges.map ?_, hfacts.map ?_⟩
  · intro v e he hv
    cases hv with
    | object hid hprocedure hspelled hname =>
      have hfind := (Catalog.find?_eq_some_iff hp.methods).2 ⟨hp.listed _ he, rfl⟩
      rw [← hcat] at hfind
      exact .kept hid hprocedure (Method.ofJson_spelled hspelled) (hex _) hfind hname
  · have hids := hp.ids
    simpa [readings, Function.comp_def] using hids
  · rintro v id hid rfl
    obtain ⟨c, hc⟩ := hp.entrypoints id hid
    rw [(context?_eq_some hp).2 hc]
    exact ⟨id, rfl, mem_ids hc⟩
  · intro v k hk hv
    obtain ⟨c, d, hc, hd, hcall⟩ := hp.calls k hk
    have hedge : p.edge? k = some (.of c k.site d) := (edge?_eq_some hp).2 ⟨c, d, hc, hd, rfl⟩
    cases hv with
    | object hcaller hsite hcallee =>
      rw [hedge]
      exact .kept hcaller ⟨_, rfl, mem_ids hc⟩ hcallee ⟨_, rfl, mem_ids hd⟩ hsite rfl
        (CallGraph.callAt?_eq_some_iff.2 ⟨rfl, hcall⟩)
  · intro v f hf hv
    obtain ⟨c, hc⟩ := hp.facts f hf
    have hfact : p.fact? f = some ⟨c, f.value, f.objects⟩ := by rw [fact?, (context?_eq_some hp).2 hc]; rfl
    cases hv with
    | object hcontext hvalue hobjects =>
      rw [hfact]
      exact .kept hcontext ⟨_, rfl, mem_ids hc⟩ hvalue rfl hobjects

/-- The model of the readings is the program with its ids resolved. -/
theorem describes_readings {cat : Catalog} {entries : Document.Fields} (hr : cat.Reads entries p.readings) :
    p.Describes (p.readings.model p.analysis) := by
  have hmem : ∀ e, e ∈ (p.readings.model p.analysis).calls.edges ↔ p.Calls e := by
    intro e
    rw [hr.mem_edges]
    simp only [readings, List.mem_map, edge?_eq_some hp, Calls]
  have hentrypoints : p.readings.entrypoints.reduceOption = p.entrypoints.filterMap p.context? := by
    simp [readings, List.reduceOption, List.filterMap_map]
  refine ⟨kept_readings p, ?_, fun method => MethodTable.contextsOf_ofNodes _ _, ?_, hmem,
    Search.length_eq_ncard (nodup_distinct _) hmem, fun c v o => ?_⟩
  · rw [Analysis.model, kept_readings]
  · rw [Analysis.model, hentrypoints]
  · rw [Analysis.model, PointsTo.mem_objects_gather]
    simp only [readings, List.reduceOption_mem_iff, List.mem_map]
    constructor
    · rintro ⟨_, ⟨f, hf, hfact⟩, hc, hv, ho⟩
      obtain ⟨d, hd, rfl⟩ := Option.map_eq_some_iff.1 hfact
      exact ⟨f, hf, d, (context?_eq_some hp).1 hd, hc, hv, ho⟩
    · rintro ⟨f, hf, d, hd, hc, hv, ho⟩
      exact ⟨⟨d, f.value, f.objects⟩, ⟨f, hf, by rw [fact?, (context?_eq_some hp).2 hd]; rfl⟩, hc, hv, ho⟩

/-- A document that spells a well-formed program is loaded: its procedures are those of the program, and its model is the
program with its ids resolved. -/
theorem load_spelled {doc : Json} (hdoc : p.SpelledBy doc) :
    ∃ cat m, Catalog.ofJson (fun _ => false) doc = .ok cat ∧ cat.load p.analysis = .ok m ∧
      cat.procedures = p.procedures ∧ p.Describes m := by
  cases hdoc with
  | @document fields analyses entries hprocedures hanalyses hentries hcontexts hentrypoints hedges hfacts =>
    obtain ⟨items, hitems, hspelled⟩ := hprocedures
    have hread : List.Forall₂ (fun v q => Document.procedure v = .ok q) items p.procedures :=
      forall₂_of_mem hspelled fun v q hq hv => Document.procedure_spelled hv (hp.jumps q hq)
    have hlists : Catalog.Lists (.obj fields) analyses p.procedures :=
      ⟨fields, items, rfl, by simp [Document.fieldOr, hanalyses], hitems, hread⟩
    have hall : p.procedures.filter (Catalog.keeps fun _ => false) = p.procedures := by
      simp [Catalog.keeps]
    have hcat : (Catalog.collect (fun _ => false) analyses p.procedures).procedures = p.procedures :=
      (Catalog.collect_procedures _ _ _).trans hall
    have hr := reads_spelled hp hcat (fun _ => by rw [Catalog.collect_excludes]) hcontexts hentrypoints hedges hfacts
    refine ⟨_, p.readings.model p.analysis,
      Catalog.ofJson_iff.2 ⟨analyses, p.procedures, hlists, by rw [hall]; exact hp.methods, rfl⟩, ?_, hcat,
      describes_readings hp hr⟩
    unfold Catalog.load
    rw [bind_eq_ok]
    refine ⟨entries, Catalog.snapshot_eq_ok.2 ?_, Catalog.modelOf_eq_ok.2 ⟨p.readings, hr, rfl⟩⟩
    rw [Catalog.collect_analyses, hentries]

end Loading
end Program

/-! ## A program whose contexts have several ids -/

namespace Sample

/-- Counts the members of an array. -/
def count : Procedure where
  method := ⟨"lib.Count", "run", ⟨["[Ljava/lang/String;", "J"], "V"⟩⟩
  params := 3
  body := [.assign 4 [] "zero", .phi 5 [4, 6], .branch [5, 2] 5, .assign 6 [5] "", .goto 1, .ret none]

/-- The procedure that walks has two ids, and what is said of one of them is said of it. -/
def aliased : Program where
  procedures := [main, count, walk]
  analysis := "0cfa"
  contexts := [("a", merged walk), ("m", merged main), ("b", merged walk)]
  entrypoints := ["b", "m", "a"]
  calls := [⟨"m", 1, "a"⟩, ⟨"b", 1, "a"⟩, ⟨"m", 1, "b"⟩, ⟨"a", 1, "b"⟩]
  facts := [⟨"a", 1, ["first"]⟩, ⟨"m", 1, []⟩, ⟨"b", 1, ["second", "first"]⟩, ⟨"m", 1, ["second"]⟩]

/-! The entries of the procedures, with what need not be said left out. -/

def mainEntry : Json := .obj [("signature", .str "Box.main()V"), ("instructions", .arr [
  .obj [("op", .str "new"), ("result", .int 1)],
  .obj [("op", .str "invoke"), ("target", .str "Box.walk(I)I"), ("args", .arr [.int 1]), ("result", .int 2)],
  .obj [("op", .str "putfield"), ("ref", .int 1), ("field", .str "next"), ("value", .int 2)],
  .obj [("op", .str "return")]])]

def countEntry : Json := .obj [("signature", .str "lib/Count.run([Ljava/lang/String;J)V"), ("params", .int 3),
  ("instructions", .arr [
  .obj [("result", .int 4), ("op", .str "assign"), ("label", .str "zero")],
  .obj [("op", .str "phi"), ("result", .int 5), ("operands", .arr [.int 4, .int 6])],
  .obj [("op", .str "branch"), ("operands", .arr [.int 5, .int 2]), ("target", .int 5)],
  .obj [("op", .str "assign"), ("result", .int 6), ("operands", .arr [.int 5])],
  .obj [("op", .str "goto"), ("target", .int 1)],
  .obj [("op", .str "return"), ("value", .null)]])]

def walkEntry : Json := .obj [("signature", .str "Box.walk(I)I"), ("instructions", .arr [
  .obj [("op", .str "getfield"), ("result", .int 2), ("ref", .int 1), ("field", .str "next")],
  .obj [("op", .str "invoke"), ("target", .str "Box.walk(I)I"), ("args", .arr [.int 2]), ("result", .int 3)],
  .obj [("op", .str "return"), ("value", .int 3)]])]

/-- Spells the program, with fields in other orders. -/
def aliasedDocument : Json := .obj [
  ("analyses", .obj [
    ("other", .null),
    ("0cfa", .obj [
      ("points_to", .arr [
        .obj [("value", .int 1), ("context", .str "a"), ("objects", .arr [.str "first"])],
        .obj [("value", .int 1), ("context", .str "m")],
        .obj [("value", .int 1), ("context", .str "b"), ("objects", .arr [.str "second", .str "first"])],
        .obj [("value", .int 1), ("context", .str "m"), ("objects", .arr [.str "second"])]]),
      ("contexts", .arr [
        .obj [("id", .str "a"), ("procedure", .str "Box.walk(I)I")],
        .obj [("id", .str "m"), ("procedure", .str " Box.main()V")],
        .obj [("id", .str "b"), ("procedure", .str "Box.walk(I)I"), ("context", .str "Everywhere")]]),
      ("edges", .arr [edge "m" 1 "a", edge "b" 1 "a", edge "m" 1 "b", edge "a" 1 "b"]),
      ("entrypoints", .arr [.str "b", .str "m", .str "a"])])]),
  ("procedures", .arr [mainEntry, countEntry, walkEntry])]

theorem walk_spelled : walkMethod.SpelledBy "Box.walk(I)I" := by
  have hint : Descriptor.FieldType "I".toList := .primitive rfl
  have hproper : walkMethod.Proper := ⟨by decide, by decide, by decide, by simpa [walkMethod] using hint, .inr hint⟩
  exact @Method.SpelledBy.signature walkMethod [] [] ['o', 'x'] 'B' hproper (by simp) (by simp) (by decide) (by decide)
    (by decide)

theorem main_spelled : main.method.SpelledBy "Box.main()V" ∧ main.method.SpelledBy " Box.main()V" := by
  have hproper : main.method.Proper := ⟨by decide, by decide, by decide, by simp [main], .inl rfl⟩
  constructor
  · exact @Method.SpelledBy.signature main.method [] [] ['o', 'x'] 'B' hproper (by simp) (by simp) (by decide)
      (by decide) (by decide)
  · exact @Method.SpelledBy.signature main.method [' '] [] ['o', 'x'] 'B' hproper (List.forall_mem_singleton.2 (by decide))
      (by simp) (by decide) (by decide) (by decide)

theorem count_spelled : count.method.SpelledBy "lib/Count.run([Ljava/lang/String;J)V" := by
  have hstring : Descriptor.FieldType "[Ljava/lang/String;".toList :=
    .array (@Descriptor.FieldType.object "java/lang/String".toList (by decide) (by decide))
  have hlong : Descriptor.FieldType "J".toList := .primitive rfl
  have hproper : count.method.Proper :=
    ⟨by decide, by decide, by decide, by simpa [count] using ⟨hstring, hlong⟩, .inl rfl⟩
  exact @Method.SpelledBy.signature count.method [] [] "ib/Count".toList 'l' hproper (by simp) (by simp) (by decide)
    (by decide) (by decide)

theorem aliased_wellFormed : aliased.WellFormed where
  methods := by decide
  jumps := by decide
  ids := by decide
  listed := by decide
  entrypoints := by simp [aliased]
  calls := by
    have hmain : (merged main).HasCall 1 := ⟨_, _, _, _, rfl⟩
    have hwalk : (merged walk).HasCall 1 := ⟨_, _, _, _, rfl⟩
    simp [aliased, hmain, hwalk]
  facts := by simp [aliased]

theorem aliased_spelled : aliased.SpelledBy aliasedDocument := by
  refine .document ⟨_, rfl, .cons (.object rfl main_spelled.1 rfl ⟨_, rfl, ?main⟩) (.cons
    (.object rfl count_spelled rfl ⟨_, rfl, ?count⟩) (.cons (.object rfl walk_spelled rfl ⟨_, rfl, ?walk⟩) .nil))⟩ rfl rfl
    ⟨_, rfl, ?contexts⟩ ⟨_, rfl, ?entrypoints⟩ ⟨_, rfl, ?edges⟩ ⟨_, rfl, ?facts⟩
  case main =>
    exact .cons (.new rfl rfl rfl) (.cons (.invoke rfl rfl walk_spelled rfl rfl rfl) (.cons (.putField rfl rfl rfl rfl)
      (.cons (.ret rfl rfl) .nil)))
  case count =>
    exact .cons (.assign rfl rfl rfl rfl) (.cons (.phi rfl rfl rfl) (.cons (.branch rfl rfl rfl)
      (.cons (.assign rfl rfl rfl rfl) (.cons (.goto rfl rfl) (.cons (.ret rfl rfl) .nil)))))
  case walk =>
    exact .cons (.getField rfl rfl rfl rfl) (.cons (.invoke rfl rfl walk_spelled rfl rfl rfl) (.cons (.ret rfl rfl) .nil))
  case contexts =>
    exact .cons (.object rfl rfl walk_spelled rfl) (.cons (.object rfl rfl main_spelled.2 rfl)
      (.cons (.object rfl rfl walk_spelled rfl) .nil))
  case entrypoints => exact .cons rfl (.cons rfl (.cons rfl .nil))
  case edges =>
    exact .cons (.object rfl rfl rfl) (.cons (.object rfl rfl rfl) (.cons (.object rfl rfl rfl)
      (.cons (.object rfl rfl rfl) .nil)))
  case facts =>
    exact .cons (.object rfl rfl rfl) (.cons (.object rfl rfl rfl) (.cons (.object rfl rfl rfl)
      (.cons (.object rfl rfl rfl) .nil)))

end Sample

theorem Program.load_spelled_aliased : Sample.aliased.WellFormed ∧ Sample.aliased.SpelledBy Sample.aliasedDocument ∧
    ∃ cat m, Catalog.ofJson (fun _ => false) Sample.aliasedDocument = .ok cat ∧ cat.load "0cfa" = .ok m ∧
      cat.procedures = Sample.aliased.procedures ∧ Sample.aliased.Describes m :=
  ⟨Sample.aliased_wellFormed, Sample.aliased_spelled,
    Program.load_spelled Sample.aliased_wellFormed Sample.aliased_spelled⟩

end ForwardSlicing
