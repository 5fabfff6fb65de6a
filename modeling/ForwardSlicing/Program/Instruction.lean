import ForwardSlicing.Method.Signature
/-!
# Instructions

A procedure body is a list of instructions over numbered values. Every instruction says which values it defines
and uses, where it may jump, and whether control may go on with the next one.
-/

namespace ForwardSlicing

/-- What identifies a call within a body, where the document says so. -/
inductive CallSite where
  | name (s : String)
  | number (i : Int)
deriving DecidableEq

/-- A call site as messages show it. -/
def CallSite.shown : CallSite → String
  | .name s => Text.quoted s
  | .number i => i.repr

/-- An instruction. A field access without a base value is an access to a static field. -/
inductive Instruction where
  | assign (result : Int) (operands : List Int) (label : String)
  | phi (result : Int) (operands : List Int)
  | new (result : Int) (type : String)
  | getField (result : Int) (base : Option Int) (field : String)
  | putField (base : Option Int) (field : String) (value : Int)
  | invoke (target : Method) (args : List Int) (result : Option Int) (site : Option CallSite)
  | branch (operands : List Int) (target : Int)
  | goto (target : Int)
  | ret (value : Option Int)
deriving DecidableEq

namespace Instruction

/-- The operation that a document names the instruction by. -/
def opName : Instruction → String
  | .assign .. => "assign"
  | .phi .. => "phi"
  | .new .. => "new"
  | .getField .. => "getfield"
  | .putField .. => "putfield"
  | .invoke .. => "invoke"
  | .branch .. => "branch"
  | .goto .. => "goto"
  | .ret .. => "return"

/-- The values an instruction defines. -/
def defs : Instruction → List Int
  | .assign r _ _ => [r]
  | .phi r _ => [r]
  | .new r _ => [r]
  | .getField r _ _ => [r]
  | .invoke _ _ r _ => r.toList
  | _ => []

/-- The values an instruction uses. -/
def uses : Instruction → List Int
  | .assign _ os _ => os
  | .phi _ os => os
  | .getField _ b _ => b.toList
  | .putField b _ v => b.toList ++ [v]
  | .invoke _ args _ _ => args
  | .branch os _ => os
  | .ret v => v.toList
  | _ => []

/-- Where an instruction may jump. -/
def jumps : Instruction → List Int
  | .branch _ t => [t]
  | .goto t => [t]
  | _ => []

/-- Control may go on with the next instruction. -/
def fallsThrough : Instruction → Bool
  | .goto _ => false
  | .ret _ => false
  | _ => true

def isReturn : Instruction → Bool
  | .ret _ => true
  | _ => false

def isInvoke : Instruction → Bool
  | .invoke .. => true
  | _ => false

/-- A value by its number. -/
def valueText (v : Int) : String := "v" ++ v.repr

/-- Values in a row. -/
def valuesText (vs : List Int) : String := ", ".intercalate (vs.map valueText)

/-- The object whose field is accessed. -/
def baseText : Option Int → String
  | none => "static"
  | some v => valueText v

/-- An instruction as reports show it; an assignment without a label is a copy. -/
def text : Instruction → String
  | .assign r os label =>
    valueText r ++ " = " ++ (if label.isEmpty then "copy" else label) ++ "(" ++ valuesText os ++ ")"
  | .phi r os => valueText r ++ " = phi(" ++ valuesText os ++ ")"
  | .new r type => valueText r ++ " = new " ++ type
  | .getField r b f => valueText r ++ " = getfield " ++ baseText b ++ "." ++ f
  | .putField b f v => "putfield " ++ baseText b ++ "." ++ f ++ " = " ++ valueText v
  | .invoke target args r _ =>
    (match r with | some v => valueText v ++ " = " | none => "") ++
      "invoke " ++ target.signature ++ "(" ++ valuesText args ++ ")"
  | .branch os t => "if (" ++ valuesText os ++ ") goto " ++ t.repr
  | .goto t => "goto " ++ t.repr
  | .ret none => "return"
  | .ret (some v) => "return " ++ valueText v

end Instruction
end ForwardSlicing
