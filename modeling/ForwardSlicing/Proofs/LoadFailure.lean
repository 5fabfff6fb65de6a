import ForwardSlicing.Proofs.Loading
/-!
# How loading fails

Whatever a document is, loading an analysis of it gives a model or fails with a fault of the document or an unknown
analysis, with one exception: an operand that is infinite is not taken for a fault of the document. `FailsWith` says this
for one computation, and it goes through a computation part by part. `Model.ofJson_outcome`: so the exception needs an
infinite operand in the document, and an analysis is unknown exactly if the procedures are read and the document does not
have it.
-/

namespace ForwardSlicing

/-! ## Infinite operands -/

namespace Json

def isInfinite : Json → Bool
  | .float (.infinite _) => true
  | _ => false

/-- The members of a list. -/
def members : Json → List Json
  | .arr items => items
  | _ => []

/-- The members of the list in a field. -/
def membersOf (key : String) : Json → List Json
  | .obj fields => (Document.fieldOr fields key (.arr [])).members
  | _ => []

end Json

namespace Document

/-- The operand in a field is infinite. -/
def singleInfinite (fields : Fields) (key : String) : Bool := (Json.lookup fields key).any Json.isInfinite

/-- One of the operands in a field is infinite. -/
def listInfinite (fields : Fields) (key : String) : Bool :=
  (Json.lookup fields key).any fun v => v.members.any Json.isInfinite

/-- Some operand in the fields of an instruction is infinite. -/
def infiniteIn (fields : Fields) : Bool :=
  ["result", "ref", "value", "target"].any (singleInfinite fields) || ["operands", "args"].any (listInfinite fields)

def infiniteInstruction : Json → Bool
  | .obj fields => infiniteIn fields
  | _ => false

/-- Some instruction of the procedure has an infinite operand. -/
def infiniteProcedure (entry : Json) : Bool := (entry.membersOf "instructions").any infiniteInstruction

/-- Some instruction of the document has an infinite operand. -/
def hasInfiniteOperand (doc : Json) : Bool := (doc.membersOf "procedures").any infiniteProcedure

/-- The names of the analyses of a document. -/
def analysisNames : Json → List String
  | .obj fields =>
    match fieldOr fields "analyses" (.obj []) with
    | .obj analyses => analyses.map (·.1)
    | _ => []
  | _ => []

end Document

/-! ## Failures of a computation -/

/-- Every failure of the computation has a property. -/
def FailsWith {ε α : Type} (P : ε → Prop) (x : Except ε α) : Prop := ∀ e, x = .error e → P e

namespace FailsWith

variable {ε α β : Type} {P Q : ε → Prop}

theorem ok (a : α) : FailsWith P (.ok a) := by
  intro e h
  cases h

theorem error {e : ε} (h : P e) : FailsWith P (.error e : Except ε α) := by
  intro e' he
  cases he
  exact h

theorem mono {x : Except ε α} (hx : FailsWith P x) (h : ∀ e, P e → Q e) : FailsWith Q x :=
  fun e he => h e (hx e he)

theorem bind {x : Except ε α} {f : α → Except ε β} (hx : FailsWith P x)
    (hf : ∀ a, x = .ok a → FailsWith P (f a)) : FailsWith P (x >>= f) := by
  intro e h
  cases x with
  | error e' => exact hx e (by cases h; rfl)
  | ok a => exact hf a rfl e h

theorem mapM {f : α → Except ε β} {xs : List α} (h : ∀ a ∈ xs, FailsWith P (f a)) : FailsWith P (xs.mapM f) := by
  induction xs with
  | nil => exact ok []
  | cons a xs ih =>
    rw [List.mapM_cons]
    refine (h a (by simp)).bind fun b _ => ?_
    exact (ih fun a' ha => h a' (List.mem_cons_of_mem _ ha)).bind fun bs _ => ok _

theorem foldlM {f : β → α → Except ε β} {xs : List α} (h : ∀ b, ∀ a ∈ xs, FailsWith P (f b a)) (b : β) :
    FailsWith P (xs.foldlM f b) := by
  induction xs generalizing b with
  | nil => exact ok b
  | cons a xs ih =>
    rw [List.foldlM_cons]
    exact (h b a (by simp)).bind fun b' _ => ih (fun b a' ha => h b a' (List.mem_cons_of_mem _ ha)) b'

end FailsWith

namespace Failure

/-- The failure is a fault of the document. -/
def IsModel (e : Failure) : Prop := ∃ fault, e = .model fault

/-- The failure is a fault of the document, or it is an infinite operand and there is one. -/
def IsModelOr (infinite : Bool) (e : Failure) : Prop :=
  e.IsModel ∨ (e = .conversion .infinityToInteger ∧ infinite = true)

theorem IsModel.model (fault : ModelFault) : (Failure.model fault).IsModel := ⟨fault, rfl⟩

end Failure

namespace FailsWith

variable {α : Type} {x : Except Failure α}

theorem toOr (h : FailsWith Failure.IsModel x) (infinite : Bool) : FailsWith (Failure.IsModelOr infinite) x :=
  h.mono fun _ => .inl

theorem or_mono {a b : Bool} (h : FailsWith (Failure.IsModelOr a) x) (hab : a = true → b = true) :
    FailsWith (Failure.IsModelOr b) x :=
  h.mono fun _ he => he.imp_right fun hi => ⟨hi.1, hab hi.2⟩

end FailsWith

/-! ## Accessors -/

namespace Document

theorem object_fails (place : String) (v : Json) : FailsWith Failure.IsModel (object place v) := by
  cases v with
  | obj fields => exact .ok _
  | _ => exact .error (.model _)

theorem list_fails (place : String) (v : Json) : FailsWith Failure.IsModel (list place v) := by
  cases v with
  | arr items => exact .ok _
  | _ => exact .error (.model _)

theorem text_fails (place : String) (v : Json) : FailsWith Failure.IsModel (text place v) := by
  cases v with
  | str s => exact .ok _
  | _ => exact .error (.model _)

theorem integer_fails (place : String) (v : Json) : FailsWith Failure.IsModel (integer place v) := by
  unfold integer
  split
  · exact .ok _
  · split
    · exact .ok _
    · exact .error (.model _)
  · exact .error (.model _)

theorem field_fails (place : String) (fields : Fields) (key : String) :
    FailsWith Failure.IsModel (field place fields key) := by
  unfold field
  split
  · exact .ok _
  · exact .error (.model _)

theorem method_fails (v : Json) : FailsWith Failure.IsModel (method v) := by
  unfold method
  split
  · exact .ok _
  · exact .error (.model _)

theorem callTarget_fails (place : String) (v : Json) : FailsWith Failure.IsModel (callTarget place v) := by
  unfold callTarget
  split
  · exact .ok _
  · exact .error (.model _)

theorem callSite_fails (place : String) (v : Json) : FailsWith Failure.IsModel (callSite place v) := by
  unfold callSite
  split
  · exact .ok _
  · exact .ok _
  · exact .ok _
  · exact .error (.model _)

/-! ## Operands -/

theorem toInteger_fails (v : Json) :
    FailsWith (fun fault => fault = .infinityToInteger → v.isInfinite = true) v.toInteger := by
  intro fault h hf
  subst hf
  cases v with
  | float x =>
    cases x with
    | infinite negative => rfl
    | _ => cases h
  | str s =>
    simp only [Json.toInteger, Json.integerOfText] at h
    split at h
    · cases h
    · cases h
    · cases h
  | _ => cases h

/-- A text and an object are taken as lists of texts, so only a list has infinite members. -/
theorem toIntegers_fails (v : Json) :
    FailsWith (fun fault => fault = .infinityToInteger → v.members.any Json.isInfinite = true) v.toIntegers := by
  unfold Json.toIntegers
  refine FailsWith.bind ?_ fun items hitems => FailsWith.mapM fun w hw => ?_
  · intro fault h hf
    subst hf
    cases v with
    | _ => cases h
  · refine (toInteger_fails w).mono fun fault himp hf => ?_
    have hinf := himp hf
    cases v with
    | arr xs =>
      cases hitems
      exact List.any_eq_true.2 ⟨w, hw, hinf⟩
    | str s =>
      cases hitems
      obtain ⟨c, -, rfl⟩ := List.mem_map.1 hw
      cases hinf
    | obj fields =>
      cases hitems
      obtain ⟨f, -, rfl⟩ := List.mem_map.1 hw
      cases hinf
    | _ => cases hitems

theorem operandFault_is (place : String) {fault : ConversionFault} {infinite : Bool}
    (h : fault = .infinityToInteger → infinite = true) : (operandFault place fault).IsModelOr infinite := by
  cases fault with
  | infinityToInteger => exact .inr ⟨rfl, h rfl⟩
  | _ => exact .inl (.model _)

theorem operand_fails (place : String) (v : Json) :
    FailsWith (Failure.IsModelOr v.isInfinite) (operand place v) := by
  unfold operand
  split
  · exact .ok _
  case h_2 fault h => exact .error (operandFault_is place (toInteger_fails v fault h))

theorem required_fails (place : String) (fields : Fields) (key : String) :
    FailsWith (Failure.IsModelOr (singleInfinite fields key))
      (do operand place (← field place fields key)) := by
  refine ((field_fails place fields key).toOr _).bind fun v hv => (operand_fails place v).or_mono fun hi => ?_
  rw [singleInfinite, field_eq_ok.1 hv]
  exact hi

theorem operand?_fails (place : String) (fields : Fields) (key : String) :
    FailsWith (Failure.IsModelOr (singleInfinite fields key)) (operand? place fields key) := by
  unfold operand? fieldOr singleInfinite
  cases Json.lookup fields key with
  | none => exact .ok _
  | some v =>
    have hv : FailsWith (Failure.IsModelOr v.isInfinite) ((operand place v).map some) :=
      (operand_fails place v).bind fun i _ => .ok (some i)
    cases v with
    | null => exact .ok _
    | _ => exact hv

theorem operands_fails (place : String) (fields : Fields) (key : String) :
    FailsWith (Failure.IsModelOr (listInfinite fields key)) (operands place fields key) := by
  unfold operands
  split
  · exact .ok _
  case h_2 fault h =>
    refine .error (operandFault_is place fun hf => ?_)
    have hi := toIntegers_fails _ fault h hf
    unfold fieldOr at hi
    unfold listInfinite
    cases hl : Json.lookup fields key with
    | none => simp [hl, Json.members] at hi
    | some v => simpa [hl] using hi

/-! ## Instructions -/

section Instructions
variable {place : String} {fields : Fields}

theorem infiniteIn_of_single {key : String} (hkey : key ∈ ["result", "ref", "value", "target"])
    (h : singleInfinite fields key = true) : infiniteIn fields = true := by
  rw [infiniteIn, Bool.or_eq_true]
  exact .inl (List.any_eq_true.2 ⟨key, hkey, h⟩)

theorem infiniteIn_of_list {key : String} (hkey : key ∈ ["operands", "args"])
    (h : listInfinite fields key = true) : infiniteIn fields = true := by
  rw [infiniteIn, Bool.or_eq_true]
  exact .inr (List.any_eq_true.2 ⟨key, hkey, h⟩)

theorem instructionOf_fails {op : String} {result : Except Failure Instruction}
    (h : instructionOf place fields op = some result) : FailsWith (Failure.IsModelOr (infiniteIn fields)) result := by
  have hrequired : ∀ key ∈ ["result", "ref", "value", "target"],
      FailsWith (Failure.IsModelOr (infiniteIn fields)) (do operand place (← field place fields key)) :=
    fun key hkey => (required_fails place fields key).or_mono (infiniteIn_of_single hkey)
  have hoptional : ∀ key ∈ ["result", "ref", "value", "target"],
      FailsWith (Failure.IsModelOr (infiniteIn fields)) (operand? place fields key) :=
    fun key hkey => (operand?_fails place fields key).or_mono (infiniteIn_of_single hkey)
  have hlist : ∀ key ∈ ["operands", "args"],
      FailsWith (Failure.IsModelOr (infiniteIn fields)) (operands place fields key) :=
    fun key hkey => (operands_fails place fields key).or_mono (infiniteIn_of_list hkey)
  have hfield : ∀ key, FailsWith (Failure.IsModelOr (infiniteIn fields)) (field place fields key) :=
    fun key => (field_fails place fields key).toOr _
  have htext : ∀ v, FailsWith (Failure.IsModelOr (infiniteIn fields)) (text place v) :=
    fun v => (text_fails place v).toOr _
  unfold instructionOf at h
  dsimp only at h
  split at h
  case h_1 =>
    obtain rfl := Option.some.inj h
    exact (hrequired "result" (by simp)).bind fun _ _ => (hlist "operands" (by simp)).bind fun _ _ => .ok _
  case h_2 =>
    obtain rfl := Option.some.inj h
    exact (hrequired "result" (by simp)).bind fun _ _ => (hlist "operands" (by simp)).bind fun _ _ => .ok _
  case h_3 =>
    obtain rfl := Option.some.inj h
    exact (hrequired "result" (by simp)).bind fun _ _ => .ok _
  case h_4 =>
    obtain rfl := Option.some.inj h
    exact (hrequired "result" (by simp)).bind fun _ _ => (hoptional "ref" (by simp)).bind fun _ _ =>
      (hfield "field").bind fun v _ => (htext v).bind fun _ _ => .ok _
  case h_5 =>
    obtain rfl := Option.some.inj h
    exact (hoptional "ref" (by simp)).bind fun _ _ => (hfield "field").bind fun v _ => (htext v).bind fun _ _ =>
      (hrequired "value" (by simp)).bind fun _ _ => .ok _
  case h_6 =>
    obtain rfl := Option.some.inj h
    exact (hfield "target").bind fun v _ => ((callTarget_fails place v).toOr _).bind fun _ _ =>
      ((callSite_fails place _).toOr _).bind fun _ _ => (hlist "args" (by simp)).bind fun _ _ =>
      (hoptional "result" (by simp)).bind fun _ _ => .ok _
  case h_7 =>
    obtain rfl := Option.some.inj h
    exact (hlist "operands" (by simp)).bind fun _ _ => (hrequired "target" (by simp)).bind fun _ _ => .ok _
  case h_8 =>
    obtain rfl := Option.some.inj h
    exact (hrequired "target" (by simp)).bind fun _ _ => .ok _
  case h_9 =>
    obtain rfl := Option.some.inj h
    exact (hoptional "value" (by simp)).bind fun _ _ => .ok _
  case h_10 => cases h

theorem instruction_fails (place : String) (v : Json) :
    FailsWith (Failure.IsModelOr (infiniteInstruction v)) (instruction place v) := by
  unfold instruction
  refine ((object_fails place v).toOr _).bind fun fields hobj => ?_
  refine ((field_fails place fields "op").toOr _).bind fun op _ => ?_
  rw [object_eq_ok.1 hobj]
  dsimp only
  split
  case h_1 result hresult =>
    split at hresult
    · exact instructionOf_fails hresult
    · cases hresult
  case h_2 => exact .error (.inl (.model _))

end Instructions

/-! ## Procedures -/

theorem paramCount_fails (signature : String) (m : Method) (fields : Fields) :
    FailsWith Failure.IsModel (paramCount signature m fields) := by
  unfold paramCount
  refine (integer_fails _ _).bind fun n _ => ?_
  split
  · exact .error (.model _)
  · exact .ok _

theorem checkedProcedure_fails (m : Method) (params : Nat) (body : List Instruction) :
    FailsWith Failure.IsModel (checkedProcedure m params body) := by
  unfold checkedProcedure
  split
  · exact .ok _
  · exact .error (.model _)

theorem procedure_fails (v : Json) : FailsWith (Failure.IsModelOr (infiniteProcedure v)) (procedure v) := by
  unfold procedure
  refine ((object_fails _ v).toOr _).bind fun fields hobj => ?_
  refine ((field_fails _ fields _).toOr _).bind fun given _ => ?_
  refine ((method_fails given).toOr _).bind fun m _ => ?_
  refine ((paramCount_fails _ m fields).toOr _).bind fun params _ => ?_
  refine ((list_fails _ _).toOr _).bind fun items hitems => ?_
  refine FailsWith.bind (FailsWith.mapM fun item hitem => ?_) fun body _ => (checkedProcedure_fails m params body).toOr _
  refine (instruction_fails _ item.1).or_mono fun hi => ?_
  have hmem : item.1 ∈ items := (List.mem_zipIdx hitem).2.2 ▸ List.getElem_mem _
  have hmembers : v.membersOf "instructions" = items := by
    rw [object_eq_ok.1 hobj, Json.membersOf, list_eq_ok.1 hitems, Json.members]
  rw [infiniteProcedure, hmembers]
  exact List.any_eq_true.2 ⟨item.1, hmem, hi⟩

end Document

namespace Catalog

open Document

theorem addProcedure_fails (cat : Catalog) (v : Json) :
    FailsWith (Failure.IsModelOr (infiniteProcedure v)) (cat.addProcedure v) := by
  unfold addProcedure
  refine (procedure_fails v).bind fun p _ => ?_
  split
  · exact .ok _
  · split
    · exact .error (.inl (.model _))
    · exact .ok _

/-- Reading the procedures of a document fails with a fault of the document, or with an infinite operand in it. -/
theorem ofJson_fails (excludes : String → Bool) (doc : Json) :
    FailsWith (Failure.IsModelOr (hasInfiniteOperand doc)) (ofJson excludes doc) := by
  unfold ofJson
  split
  case h_2 => exact .error (.inl (.model _))
  case h_1 fields =>
    split
    case h_2 => exact .error (.inl (.model _))
    case h_1 analyses _ =>
      refine ((list_fails _ _).toOr _).bind fun items hitems => FailsWith.foldlM (fun cat v hv => ?_) _
      refine (addProcedure_fails cat v).or_mono fun hi => ?_
      have hmembers : (Json.obj fields).membersOf "procedures" = items := by
        rw [Json.membersOf, list_eq_ok.1 hitems, Json.members]
      rw [hasInfiniteOperand, hmembers]
      exact List.any_eq_true.2 ⟨v, hv, hi⟩

/-! ## Analyses -/

theorem addContext_fails (cat : Catalog) (l : Loading) (v : Json) :
    FailsWith Failure.IsModel (cat.addContext l v) := by
  unfold addContext
  refine (object_fails _ v).bind fun fields _ => ?_
  refine (field_fails _ fields _).bind fun given _ => ?_
  refine (text_fails _ given).bind fun id _ => ?_
  split
  · exact .error (.model _)
  · refine (field_fails _ fields _).bind fun signature _ => ?_
    refine (method_fails signature).bind fun m _ => ?_
    split
    · exact .ok _
    · split
      · exact .error (.model _)
      · exact (text_fails _ _).bind fun name _ => .ok _

theorem resolve_fails (l : Loading) (place : String) (v : Json) : FailsWith Failure.IsModel (resolve l place v) := by
  unfold resolve
  refine (text_fails _ v).bind fun id _ => ?_
  split
  · exact .ok _
  · split
    · exact .ok _
    · exact .error (.model _)

theorem addEntrypoint_fails (l : Loading) (v : Json) : FailsWith Failure.IsModel (addEntrypoint l v) := by
  unfold addEntrypoint
  refine (resolve_fails l _ v).bind fun found _ => ?_
  split
  · exact .ok _
  · exact .ok _

theorem addEdge_fails (l : Loading) (v : Json) : FailsWith Failure.IsModel (addEdge l v) := by
  unfold addEdge
  refine (object_fails _ v).bind fun fields _ => ?_
  refine (field_fails _ fields _).bind fun v₁ _ => (resolve_fails l _ v₁).bind fun caller _ => ?_
  refine (field_fails _ fields _).bind fun v₂ _ => (resolve_fails l _ v₂).bind fun callee _ => ?_
  split
  · refine (field_fails _ fields _).bind fun w _ => (integer_fails _ w).bind fun site _ => FailsWith.bind ?_ fun _ _ => .ok _
    unfold CallGraph.addEdge
    split
    · exact .error (.model _)
    · exact .ok _
  · exact .ok _

theorem addFact_fails (l : Loading) (v : Json) : FailsWith Failure.IsModel (addFact l v) := by
  unfold addFact
  refine (object_fails _ v).bind fun fields _ => ?_
  refine (field_fails _ fields _).bind fun v₁ _ => (resolve_fails l _ v₁).bind fun found _ => ?_
  split
  · exact .ok _
  · refine (field_fails _ fields _).bind fun w _ => (integer_fails _ w).bind fun value _ => ?_
    refine (list_fails _ _).bind fun items _ => ?_
    exact (FailsWith.mapM fun o _ => text_fails _ o).bind fun objects _ => .ok _

theorem addSection_fails (fields : Fields) (key : String) {add : Loading → Json → Except Failure Loading}
    (hadd : ∀ l v, FailsWith Failure.IsModel (add l v)) (l : Loading) :
    FailsWith Failure.IsModel (addSection fields key add l) := by
  unfold addSection
  exact (list_fails _ _).bind fun items _ => FailsWith.foldlM (fun l v _ => hadd l v) l

/-- An analysis that the document has fails with a fault of the document only. -/
theorem modelOf_fails (cat : Catalog) (name : String) (fields : Fields) :
    FailsWith Failure.IsModel (cat.modelOf name fields) := by
  unfold modelOf
  refine (addSection_fails fields _ cat.addContext_fails _).bind fun l₁ _ => ?_
  refine (addSection_fails fields _ addEntrypoint_fails l₁).bind fun l₂ _ => ?_
  refine (addSection_fails fields _ addEdge_fails l₂).bind fun l₃ _ => ?_
  exact (addSection_fails fields _ addFact_fails l₃).bind fun l₄ _ => .ok _

theorem lookup_eq_none {fields : Fields} {key : String} : Json.lookup fields key = none ↔ key ∉ fields.map (·.1) := by
  rw [Json.lookup, Option.map_eq_none_iff, List.find?_eq_none]
  simp only [beq_iff_eq, List.mem_map, not_exists, not_and]

/-- Loading an analysis that is not there fails with its name and the names of those that are; loading one that is there
fails with a fault of the document only. -/
theorem load_cases (cat : Catalog) (name : String) :
    (name ∉ cat.analysisNames ∧ cat.load name = .error (.unknownAnalysis name cat.analysisNames)) ∨
    (name ∈ cat.analysisNames ∧ FailsWith Failure.IsModel (cat.load name)) := by
  unfold load snapshot
  cases hl : Json.lookup cat.analyses name with
  | none => exact .inl ⟨lookup_eq_none.1 hl, rfl⟩
  | some v =>
    refine .inr ⟨?_, (object_fails _ v).bind fun fields _ => cat.modelOf_fails name fields⟩
    by_contra hn
    rw [lookup_eq_none.2 hn] at hl
    cases hl

theorem analysisNames_of_ofJson {excludes : String → Bool} {doc : Json} {cat : Catalog}
    (h : ofJson excludes doc = .ok cat) : cat.analysisNames = Document.analysisNames doc := by
  obtain ⟨fields, analyses, items, rfl, hanalyses, -, h⟩ := ofJson_eq_ok.1 h
  rw [analysisNames, analyses_of_foldlM h, Document.analysisNames, hanalyses]

end Catalog

namespace Model

/-- Loading gives a model or fails: with a fault of the document, with an unknown analysis, or with an infinite operand,
which the document then has. The analysis is unknown exactly if the procedures of the document are read and it does not
have an analysis of this name. -/
theorem ofJson_outcome (excludes : String → Bool) (doc : Json) (name : String) :
    ((∃ m, ofJson excludes doc name = .ok m) ∨ (∃ fault, ofJson excludes doc name = .error (.model fault)) ∨
      ofJson excludes doc name = .error (.unknownAnalysis name (Document.analysisNames doc)) ∨
      (ofJson excludes doc name = .error (.conversion .infinityToInteger) ∧ Document.hasInfiniteOperand doc = true)) ∧
    ((∃ asked available, ofJson excludes doc name = .error (.unknownAnalysis asked available)) ↔
      (∃ cat, Catalog.ofJson excludes doc = .ok cat) ∧ name ∉ Document.analysisNames doc) := by
  unfold ofJson
  cases hcat : Catalog.ofJson excludes doc with
  | error e =>
    have hfails := Catalog.ofJson_fails excludes doc e hcat
    refine ⟨?_, ?_⟩
    · rcases hfails with ⟨fault, rfl⟩ | ⟨rfl, hi⟩
      · exact .inr (.inl ⟨fault, rfl⟩)
      · exact .inr (.inr (.inr ⟨rfl, hi⟩))
    · constructor
      · rintro ⟨asked, available, he⟩
        cases he
        rcases hfails with ⟨fault, he⟩ | ⟨he, -⟩
        · cases he
        · cases he
      · rintro ⟨⟨cat, hc⟩, -⟩
        cases hc
  | ok cat =>
    rw [← Catalog.analysisNames_of_ofJson hcat]
    show ((∃ m, cat.load name = .ok m) ∨ (∃ fault, cat.load name = .error (.model fault)) ∨
      cat.load name = .error (.unknownAnalysis name cat.analysisNames) ∨
      (cat.load name = .error (.conversion .infinityToInteger) ∧ _)) ∧
      ((∃ asked available, cat.load name = .error (.unknownAnalysis asked available)) ↔ _)
    rcases cat.load_cases name with ⟨hn, hload⟩ | ⟨hn, hfails⟩
    · exact ⟨.inr (.inr (.inl hload)), fun _ => ⟨⟨cat, rfl⟩, hn⟩, fun _ => ⟨_, _, hload⟩⟩
    · refine ⟨?_, ?_, fun h => absurd hn h.2⟩
      · cases hload : cat.load name with
        | ok m => exact .inl ⟨m, rfl⟩
        | error e =>
          obtain ⟨fault, rfl⟩ := hfails e hload
          exact .inr (.inl ⟨fault, rfl⟩)
      · rintro ⟨asked, available, he⟩
        obtain ⟨fault, hf⟩ := hfails _ he
        cases hf

end Model

/-- A procedure with a branch whose target is infinite. -/
def Sample.unbounded : Json := .obj [
  ("procedures", .arr [
    .obj [("signature", .str "Box.main()V"), ("instructions", .arr [
      .obj [("op", .str "branch"), ("target", .float (.infinite false))]])]])]

/-- An infinite operand fails otherwise than with a fault of the document or an unknown analysis. -/
theorem Model.ofJson_unbounded :
    Model.ofJson (fun _ => false) Sample.unbounded "0cfa" = .error (.conversion .infinityToInteger) ∧
    ¬((∃ m, Model.ofJson (fun _ => false) Sample.unbounded "0cfa" = .ok m) ∨
      (∃ fault, Model.ofJson (fun _ => false) Sample.unbounded "0cfa" = .error (.model fault)) ∨
      ∃ asked available, Model.ofJson (fun _ => false) Sample.unbounded "0cfa" =
        .error (.unknownAnalysis asked available)) := by
  have hfails : Model.ofJson (fun _ => false) Sample.unbounded "0cfa" = .error (.conversion .infinityToInteger) := by
    rfl
  refine ⟨hfails, ?_⟩
  rw [hfails]
  rintro (⟨m, h⟩ | ⟨fault, h⟩ | ⟨asked, available, h⟩)
  · cases h
  · cases h
  · cases h

end ForwardSlicing
