import ForwardSlicing.Text.Digit
import ForwardSlicing.Text.Quoted
/-!
# Arguments of commands

A grammar lists the arguments of a command. An argument without names is found by its position, any other one by
its names; the names of one letter start with one dash and may be joined in one word, the others start with two
dashes and may be shortened as long as one option remains. A value may be joined to its option. After the word
`--` every word is plain.

An argument acts on a state as soon as it is read, so the first word that is wrong is the one reported.
-/

namespace ForwardSlicing.CommandLine

/-- Why a command is not run: it was asked for its version or for help, or it was not understood. -/
inductive Stop where
  | version
  | help
  | refused (program message : String)

/-- What an argument does. A value is absent if its place, or what is joined to its option, is nothing but `--`. -/
inductive Effect (σ : Type) where
  | flag (set : σ → σ)
  | value (read : Option String → σ → Except String σ)
  | rest (read : List String → σ → Except Stop σ)
  | stop (reason : Stop)

/-- An argument with the names of its option, if it is one. -/
structure Argument (σ : Type) where
  names : List String := []
  label : String
  required : Bool := false
  effect : Effect σ

/-- The arguments of a program. -/
structure Grammar (σ : Type) where
  program : String
  arguments : List (Argument σ)

variable {σ : Type}

namespace Argument

/-- The argument as messages call it. -/
def shown (a : Argument σ) : String := if a.names.isEmpty then a.label else "/".intercalate a.names

def takesValue (a : Argument σ) : Bool :=
  match a.effect with
  | .value _ => true
  | _ => false

end Argument

/-- An option as a word spells it, with the value that is joined to it. An option that is not known has no
argument. -/
structure Spelling (σ : Type) where
  argument : Option (Argument σ)
  name : String
  value : Option String := none

/-- A word of a command line. -/
inductive Word (σ : Type) where
  | plain (text : String)
  | separator
  | option (text : String) (spelling : Spelling σ)

namespace Word

def text : Word σ → String
  | .plain t => t
  | .separator => "--"
  | .option t _ => t

def isSeparator : Word σ → Bool
  | .separator => true
  | _ => false

def isOption : Word σ → Bool
  | .option _ _ => true
  | _ => false

end Word

namespace Grammar

variable (g : Grammar σ)

def refuse {α : Type} (message : String) : Except Stop α := .error (.refused g.program message)

/-- Refuses the words given to an argument. -/
def refuseFor {α : Type} (a : Argument σ) (message : String) : Except Stop α :=
  g.refuse ("argument " ++ a.shown ++ ": " ++ message)

/-! ## Words -/

/-- The names of all options, each with its argument. -/
def names : List (String × Argument σ) := g.arguments.flatMap fun a => a.names.map (·, a)

def find? (name : String) : Option (Argument σ) := g.arguments.find? (·.names.contains name)

/-- The parts of a word before and after its first equals sign. -/
def cutAtEquals (cs : List Char) : Option (List Char × List Char) :=
  match cs.dropWhile (· != '=') with
  | [] => none
  | _ :: value => some (cs.takeWhile (· != '='), value)

/-- The options that a word with two dashes can be short for. -/
def longSpellings (cs : List Char) : List (Spelling σ) :=
  let (start, value) : List Char × Option String := match cutAtEquals cs with
    | some (start, value) => (start, some (String.ofList value))
    | none => (cs, none)
  (g.names.filter fun e => start.isPrefixOf e.1.toList).map fun (name, a) => ⟨some a, name, value⟩

/-- The option of one letter that a word with one dash starts with; the rest of the word is joined to it. -/
def shortSpellings (cs : List Char) : List (Spelling σ) :=
  g.names.filterMap fun (name, a) =>
    if name.toList = cs.take 2 then some ⟨some a, name, some (String.ofList (cs.drop 2))⟩
    else if cs.isPrefixOf name.toList then some ⟨some a, name, none⟩
    else none

def isDigit (c : Char) : Bool := (Text.digitValue? c).isSome

/-- Digits, or a point and digits after any number of digits. -/
def isDecimal (cs : List Char) : Bool :=
  match cs.takeWhile isDigit, cs.dropWhile isDigit with
  | digits, [] => !digits.isEmpty
  | _, '.' :: fraction => !fraction.isEmpty && fraction.all isDigit
  | _, _ => false

/-- A word that is a negative number, after which a line may end. -/
def isNegativeNumber : List Char → Bool
  | '-' :: cs => isDecimal (if cs.getLast? = some '\n' then cs.dropLast else cs)
  | _ => false

/-- What a word with a dash is. -/
def dashedWord (word : String) : Except Stop (Word σ) :=
  let cs := word.toList
  let candidates := match cs with
    | '-' :: '-' :: _ => g.longSpellings cs
    | _ => g.shortSpellings cs
  match candidates with
  | [s] => .ok (.option word s)
  | [] =>
    if isNegativeNumber cs || cs.contains ' ' then .ok (.plain word) else .ok (.option word ⟨none, word, none⟩)
  | _ =>
    g.refuse ("ambiguous option: " ++ word ++ " could match " ++ ", ".intercalate (candidates.map (·.name)))

/-- What a word is. -/
def readWord (word : String) : Except Stop (Word σ) :=
  match word.toList with
  | '-' :: tail =>
    match g.find? word with
    | some a => .ok (.option word ⟨some a, word, none⟩)
    | none =>
      if tail.isEmpty then .ok (.plain word)
      else match (cutAtEquals word.toList).map fun (name, value) => (String.ofList name, String.ofList value) with
        | some (name, value) =>
          match g.find? name with
          | some a => .ok (.option word ⟨some a, name, some value⟩)
          | none => g.dashedWord word
        | none => g.dashedWord word
  | _ => .ok (.plain word)

/-- The words of a command line; after the first separator every word is plain. -/
def readWords : List String → Except Stop (List (Word σ))
  | [] => .ok []
  | word :: rest =>
    if word = "--" then .ok (.separator :: rest.map .plain)
    else do return (← g.readWord word) :: (← readWords rest)

end Grammar

/-! ## Taking words -/

/-- The state that arguments act on, those that were given, and the words that belong to none. -/
structure Progress (σ : Type) where
  state : σ
  given : List String := []
  extras : List String := []

namespace Grammar

variable (g : Grammar σ)

/-- Lets an argument act. Of the words given for a value, the first `--` does not count. -/
def act (a : Argument σ) (values : List String) (p : Progress σ) : Except Stop (Progress σ) :=
  let acted (state : σ) : Progress σ := { p with state, given := a.label :: p.given }
  match a.effect with
  | .flag set => .ok (acted (set p.state))
  | .value read =>
    match read (values.erase "--").head? p.state with
    | .ok state => .ok (acted state)
    | .error message => g.refuseFor a message
  | .rest read => do return acted (← read values p.state)
  | .stop reason => .error reason

/-- The words that the next argument by position takes, and those that are left. -/
def takeWords (a : Argument σ) (ws : List (Word σ)) : Option (List String × List (Word σ)) :=
  let start := (ws.takeWhile Word.isSeparator).map Word.text
  match ws.dropWhile Word.isSeparator with
  | .plain t :: rest =>
    match a.effect with
    | .rest _ => some (start ++ t :: rest.map Word.text, [])
    | _ =>
      let stop := (rest.takeWhile Word.isSeparator).map Word.text
      some (start ++ t :: stop, rest.dropWhile Word.isSeparator)
  | _ => none

/-- Fills as many places as words allow. -/
def fillPlaces : List (Argument σ) → List (Word σ) → Progress σ →
    Except Stop (List (Argument σ) × List (Word σ) × Progress σ)
  | [], ws, p => .ok ([], ws, p)
  | a :: places, ws, p =>
    match takeWords a ws with
    | none => .ok (a :: places, ws, p)
    | some (values, rest) => do fillPlaces places rest (← g.act a values p)

/-- The options joined in one word: those that are complete, and one that may need a value from the next word. -/
structure Cluster (σ : Type) where
  uses : List (Argument σ × List String) := []
  last : Option (Argument σ) := none

/-- The name has two dashes. -/
def isLong (name : String) : Bool := ['-', '-'].isPrefixOf name.toList

/-- The options of a word that starts with option `a`, named `name`, when `cs` is joined to it. An option that takes
a value takes all of it; any other one of one letter is followed by the letters of further options. -/
def cluster (a : Argument σ) (name : String) (cs : List Char) : Except Stop (Cluster σ) :=
  let ignored : Except Stop (Cluster σ) :=
    g.refuseFor a ("ignored explicit argument " ++ Text.quoted (String.ofList cs))
  if a.takesValue then .ok { uses := [(a, [String.ofList cs])] }
  else if isLong name then ignored
  else match cs with
    | [] => ignored
    | c :: more =>
      let next := String.ofList ['-', c]
      match g.find? next with
      | none => ignored
      | some b =>
        match more with
        | [] => .ok { uses := [(a, [])], last := some b }
        | d :: value => do
          let c ← cluster b next (d :: value)
          return { c with uses := (a, []) :: c.uses }

/-- The uses of a cluster once its last option has found its value, and the words that are left. -/
def complete (c : Cluster σ) (ws : List (Word σ)) :
    Except Stop (List (Argument σ × List String) × List (Word σ)) :=
  match c.last with
  | none => .ok (c.uses, ws)
  | some a =>
    if a.takesValue then
      match ws with
      | .plain t :: rest => .ok (c.uses ++ [(a, [t])], rest)
      | _ => g.refuseFor a "expected one argument"
    else .ok (c.uses ++ [(a, [])], ws)

/-- Takes an option and the words that belong to it. -/
def takeOption (word : String) (s : Spelling σ) (ws : List (Word σ)) (p : Progress σ) :
    Except Stop (List (Word σ) × Progress σ) :=
  match s.argument with
  | none => .ok (ws, { p with extras := p.extras ++ [word] })
  | some a => do
    let c ← match s.value with
      | none => pure ({ last := some a } : Cluster σ)
      | some value => g.cluster a s.name value.toList
    let (uses, rest) ← g.complete c ws
    return (rest, ← uses.foldlM (fun p (a, values) => g.act a values p) p)

/-- Takes words until no option is left, then fills the places that remain. Every round takes at least one word. -/
def takeAll : Nat → List (Argument σ) → List (Word σ) → Progress σ → Except Stop (Progress σ)
  | 0, _, _, p => .ok p
  | fuel + 1, places, ws, p =>
    if ws.any Word.isOption then
      match ws with
      | .option word s :: rest => do
        let (ws, p) ← g.takeOption word s rest p
        takeAll fuel places ws p
      | _ => do
        let (places, rest, p) ← g.fillPlaces places ws p
        if rest.length < ws.length then takeAll fuel places rest p
        else
          let before := (ws.takeWhile (!Word.isOption ·)).map Word.text
          takeAll fuel places (ws.dropWhile (!Word.isOption ·)) { p with extras := p.extras ++ before }
    else do
      let (_, rest, p) ← g.fillPlaces places ws p
      return { p with extras := p.extras ++ rest.map Word.text }

/-- Reads a command line: the state that its arguments make of a first one, and the words that belong to no
argument. -/
def parse (start : σ) (words : List String) : Except Stop (σ × List String) := do
  let ws ← g.readWords words
  let p ← g.takeAll (ws.length + 1) (g.arguments.filter (·.names.isEmpty)) ws ⟨start, [], []⟩
  let missing := g.arguments.filter fun a => a.required && !p.given.contains a.label
  if missing.isEmpty then return (p.state, p.extras)
  else g.refuse ("the following arguments are required: " ++ ", ".intercalate (missing.map (·.shown)))

end Grammar
end ForwardSlicing.CommandLine
