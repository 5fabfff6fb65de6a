import Mathlib.Data.List.Infix
import ForwardSlicing.Report.Dot
/-!
# Reading DOT text

A reader of DOT text is outside of quotes, inside of them, or behind a backslash inside of them. A line ends at a line feed
outside of quotes, and what a line says stands outside of quotes as well, in words with blanks between them. The text of a
label is read from left to right: a backslash makes the next character literal, and a quote without one ends the label.

`lines_intercalate`: lines that close their quotes are found again after they are joined. `mark_escape`: a label text never
leaves its quotes. `readLabel_escape`: an escaped text is read back, whatever stands behind its quotes.
-/

namespace ForwardSlicing.Dot

/-- Where a reader is. -/
inductive Mode where
  | plain
  | quoted
  | escaped
deriving DecidableEq

/-- Where the reader is after a character. -/
def Mode.next : Mode → Char → Mode
  | .plain, c => if c = '"' then .quoted else .plain
  | .quoted, c => if c = '"' then .plain else if c = '\\' then .escaped else .quoted
  | .escaped, _ => .quoted

/-- Where the reader is after some characters. -/
def Mode.after (mode : Mode) (cs : List Char) : Mode := cs.foldl Mode.next mode

/-- Characters, each with whether it is read outside of quotes. -/
def mark : Mode → List Char → List (Char × Bool)
  | _, [] => []
  | mode, c :: cs => (c, mode = .plain) :: mark (mode.next c) cs

/-- The lines of a text; a line feed inside of quotes belongs to its line. -/
def lines (text : String) : List String :=
  ((mark .plain text.toList).splitOn ('\n', true)).map fun line => String.ofList (line.map (·.1))

/-- The characters of a line outside of quotes. -/
def bare (line : String) : List Char := ((mark .plain line.toList).filter (·.2)).map (·.1)

/-- The line is that of a node. -/
def isNode (line : String) : Bool := "[label=".toList <:+: bare line

/-- The line is that of an edge. -/
def isEdge (line : String) : Bool := "->".toList <:+: bare line

/-- The words of a line outside of quotes. -/
def words (line : String) : List String := (((bare line).splitOn ' ').filter (· ≠ [])).map String.ofList

/-- Reads a label up to the quote that ends it: its text, and what stands behind the quote. -/
def readLabel : List Char → Option (List Char × List Char)
  | [] => none
  | c :: cs =>
    if c = '"' then some ([], cs)
    else if c = '\\' then
      match cs with
      | [] => none
      | d :: ds => (readLabel ds).map fun r => (d :: r.1, r.2)
    else (readLabel cs).map fun r => (c :: r.1, r.2)

/-- The text of the first label of a line, and what stands behind it. -/
def label? (line : String) : Option (String × String) :=
  (readLabel (line.toList.dropWhile (· ≠ '"')).tail).map fun r => (String.ofList r.1, String.ofList r.2)

/-- The id and the label of a node. -/
def node? (line : String) : Option (String × String) :=
  match words line, label? line with
  | [id, behind], some (text, _) => if behind = "[label=\"];" then some (id, text) else none
  | _, _ => none

/-- The ids at the ends of an edge, and what stands behind them. -/
def edge? (line : String) : Option (String × String × String) :=
  match words line with
  | [source, arrow, target, behind] => if arrow = "->" then some (source, target, behind) else none
  | _ => none

/-- The label of a cluster. -/
def heading? (line : String) : Option String :=
  match words line, label? line with
  | [word], some (text, _) => if word = "label=\";" then some text else none
  | _, _ => none

/-- The labels of the nodes that come next. -/
def members : List String → List String
  | [] => []
  | line :: rest =>
    match node? line with
    | some (_, text) => text :: members rest
    | none => []

/-- The clusters, each with its label and the labels of its nodes. -/
def clusters : List String → List (String × List String)
  | [] => []
  | line :: rest =>
    match heading? line with
    | some text => (text, members rest) :: clusters rest
    | none => clusters rest

/-! ## Marks -/

theorem mark_append (mode : Mode) (xs ys : List Char) :
    mark mode (xs ++ ys) = mark mode xs ++ mark (mode.after xs) ys := by
  induction xs generalizing mode with
  | nil => rfl
  | cons x xs ih => simp [mark, Mode.after, ih]

theorem after_append (mode : Mode) (xs ys : List Char) : mode.after (xs ++ ys) = (mode.after xs).after ys :=
  List.foldl_append

theorem map_mark (mode : Mode) (cs : List Char) : (mark mode cs).map (·.1) = cs := by
  induction cs generalizing mode with
  | nil => rfl
  | cons c cs ih => simp [mark, ih]

/-- Without quotes everything is outside of them. -/
theorem mark_plain {cs : List Char} (h : '"' ∉ cs) :
    mark .plain cs = cs.map (·, true) ∧ Mode.plain.after cs = .plain := by
  induction cs with
  | nil => exact ⟨rfl, rfl⟩
  | cons c cs ih =>
    rw [List.mem_cons, not_or] at h
    have hnext : Mode.plain.next c = .plain := by simp [Mode.next, Ne.symm h.1]
    simpa [mark, Mode.after, hnext] using ih h.2

/-- A label text never leaves its quotes. -/
theorem mark_escape (cs : List Char) :
    mark .quoted (cs.flatMap Report.escapeChar) = (cs.flatMap Report.escapeChar).map (·, false) ∧
      Mode.quoted.after (cs.flatMap Report.escapeChar) = .quoted := by
  induction cs with
  | nil => exact ⟨rfl, rfl⟩
  | cons c cs ih =>
    have hchar : mark .quoted (Report.escapeChar c) = (Report.escapeChar c).map (·, false) ∧
        Mode.quoted.after (Report.escapeChar c) = .quoted := by
      unfold Report.escapeChar
      split
      case isTrue => simp [mark, Mode.after, Mode.next]
      case isFalse h =>
        simp only [Bool.or_eq_true, decide_eq_true_eq, not_or] at h
        simp [mark, Mode.after, Mode.next, h]
    rw [List.flatMap_cons, mark_append, after_append, hchar.1, hchar.2, ih.1, ih.2, List.map_append]
    exact ⟨rfl, rfl⟩

/-! ## Lines -/

/-- The line closes its quotes, and has no line feed outside of them. -/
structure Closed (line : String) : Prop where
  whole : ('\n', true) ∉ mark .plain line.toList
  ends : Mode.plain.after line.toList = .plain

theorem mark_intercalate {ls : List String} (h : ∀ line ∈ ls, Closed line) :
    mark .plain (['\n'].intercalate (ls.map String.toList)) =
      [('\n', true)].intercalate (ls.map fun line => mark .plain line.toList) := by
  induction ls with
  | nil => rfl
  | cons line rest ih =>
    cases rest with
    | nil => simp
    | cons line' rest =>
      rw [List.forall_mem_cons] at h
      have hfeed : ∀ cs, mark .plain (['\n'] ++ cs) = ('\n', true) :: mark .plain cs := fun cs => rfl
      simp only [List.map_cons, List.intercalate_cons_cons, List.append_assoc] at ih ⊢
      rw [mark_append, h.1.ends, hfeed, ih h.2]
      rfl

/-- Closed lines are found again after they are joined. -/
theorem lines_intercalate {ls : List String} (h : ∀ line ∈ ls, Closed line) (hne : ls ≠ []) :
    lines ("\n".intercalate ls) = ls := by
  have hfeed : "\n".toList = ['\n'] := rfl
  have hwhole : ∀ line ∈ ls.map fun line => mark .plain line.toList, ('\n', true) ∉ line := by
    intro line hline
    obtain ⟨text, htext, rfl⟩ := List.mem_map.1 hline
    exact (h text htext).whole
  rw [lines, String.toList_intercalate, hfeed, mark_intercalate h, List.splitOn_intercalate _ hwhole (by simpa using hne)]
  simp only [List.map_map, Function.comp_def, map_mark, String.ofList_toList, List.map_id']

/-- A line without quotes. -/
theorem closed_of_plain {line : String} (hquote : '"' ∉ line.toList) (hfeed : '\n' ∉ line.toList) :
    Closed line ∧ bare line = line.toList := by
  obtain ⟨hmark, hafter⟩ := mark_plain hquote
  refine ⟨⟨?_, hafter⟩, ?_⟩
  · simpa [hmark] using hfeed
  · simp [bare, hmark, List.filter_map, Function.comp_def]

theorem toList_escape (text : String) : (Report.escape text).toList = text.toList.flatMap Report.escapeChar := by
  rw [Report.escape, String.toList_ofList]

/-- A line with one label. -/
def labelled (before text behind : String) : String := before ++ "\"" ++ Report.escape text ++ "\"" ++ behind

theorem toList_labelled (before text behind : String) : (labelled before text behind).toList =
    before.toList ++ ['"'] ++ text.toList.flatMap Report.escapeChar ++ ['"'] ++ behind.toList := by
  simp [labelled, toList_escape]

section Labelled
variable {before behind : String} (hbefore : '"' ∉ before.toList) (hbehind : '"' ∉ behind.toList) (text : String)
include hbefore hbehind

theorem mark_labelled : mark .plain (labelled before text behind).toList =
    before.toList.map (·, true) ++ ('"', true) :: ((text.toList.flatMap Report.escapeChar).map (·, false) ++
      ('"', false) :: behind.toList.map (·, true)) ∧ Mode.plain.after (labelled before text behind).toList = .plain := by
  obtain ⟨hmark, hafter⟩ := mark_plain hbefore
  obtain ⟨hmark', hafter'⟩ := mark_plain hbehind
  obtain ⟨hescape, hinside⟩ := mark_escape text.toList
  have hopen : Mode.plain.after ['"'] = .quoted := rfl
  have hclose : Mode.quoted.after ['"'] = .plain := rfl
  rw [toList_labelled]
  simp only [mark_append, after_append, hmark, hafter, hopen, hescape, hinside, hclose, hmark', hafter', and_true]
  simp [mark]

theorem closed_labelled (hfeed : '\n' ∉ before.toList) (hfeed' : '\n' ∉ behind.toList) :
    Closed (labelled before text behind) := by
  obtain ⟨hmark, hafter⟩ := mark_labelled hbefore hbehind text
  refine ⟨?_, hafter⟩
  rw [hmark]
  simp [hfeed, hfeed']

/-- What a line says outside of quotes does not depend on its label. -/
theorem bare_labelled : bare (labelled before text behind) = before.toList ++ '"' :: behind.toList := by
  rw [bare, (mark_labelled hbefore hbehind text).1]
  simp [List.filter_map, Function.comp_def]

end Labelled

/-- The words of a line, from its pieces between blanks. -/
theorem words_eq {line : String} {pieces : List (List Char)} (hbare : bare line = [' '].intercalate pieces)
    (hpieces : ∀ piece ∈ pieces, ' ' ∉ piece) (hne : pieces ≠ []) :
    words line = (pieces.filter (· ≠ [])).map String.ofList := by
  rw [words, hbare, List.splitOn_intercalate _ hpieces hne]

/-! ## Labels -/

theorem readLabel_quote (cs : List Char) : readLabel ('"' :: cs) = some ([], cs) := by
  rw [readLabel.eq_def]
  rfl

theorem readLabel_backslash (d : Char) (ds : List Char) :
    readLabel ('\\' :: d :: ds) = (readLabel ds).map fun r => (d :: r.1, r.2) := by
  rw [readLabel.eq_def]
  rfl

theorem readLabel_cons {c : Char} (hquote : c ≠ '"') (hslash : c ≠ '\\') (cs : List Char) :
    readLabel (c :: cs) = (readLabel cs).map fun r => (c :: r.1, r.2) := by
  rw [readLabel.eq_def]
  simp only [hquote, hslash, if_false]

theorem readLabel_escapeChar (c : Char) (cs : List Char) :
    readLabel (Report.escapeChar c ++ cs) = (readLabel cs).map fun r => (c :: r.1, r.2) := by
  unfold Report.escapeChar
  split
  case isTrue => exact readLabel_backslash c cs
  case isFalse h =>
    simp only [Bool.or_eq_true, decide_eq_true_eq, not_or] at h
    exact readLabel_cons h.2 h.1 cs

/-- An escaped text is read back, and reading ends with the quote behind it. -/
theorem readLabel_escape (cs behind : List Char) :
    readLabel (cs.flatMap Report.escapeChar ++ '"' :: behind) = some (cs, behind) := by
  induction cs with
  | nil => exact readLabel_quote behind
  | cons c cs ih => rw [List.flatMap_cons, List.append_assoc, readLabel_escapeChar, ih, Option.map_some]

/-- What stands behind a label is not looked at. -/
theorem readLabel_append {part text behind : List Char} (h : readLabel part = some (text, behind)) (more : List Char) :
    readLabel (part ++ more) = some (text, behind ++ more) := by
  fun_induction readLabel part generalizing text with
  | case1 => cases h
  | case2 =>
    cases h
    exact readLabel_quote _
  | case3 => cases h
  | case4 d ds hquote ih =>
    obtain ⟨⟨text, behind⟩, hr, heq⟩ := Option.map_eq_some_iff.1 h
    cases heq
    rw [List.cons_append, List.cons_append, readLabel_backslash, ih hr]
    rfl
  | case5 c cs hquote hslash ih =>
    obtain ⟨⟨text, behind⟩, hr, heq⟩ := Option.map_eq_some_iff.1 h
    cases heq
    rw [List.cons_append, readLabel_cons hquote hslash, ih hr]
    rfl

/-- No part of an escaped text ends a label. -/
theorem readLabel_part {cs part : List Char} (h : part <+: cs.flatMap Report.escapeChar) : readLabel part = none := by
  obtain ⟨more, hmore⟩ := h
  cases hread : readLabel part with
  | none => rfl
  | some r =>
    -- the label would end at the same place in the whole text, which is before its quote
    have hlong := readLabel_append hread (more ++ ['"'])
    rw [← List.append_assoc, hmore, readLabel_escape] at hlong
    simp at hlong

theorem dropWhile_plain {cs : List Char} (h : '"' ∉ cs) (rest : List Char) :
    (cs ++ rest).dropWhile (· ≠ '"') = rest.dropWhile (· ≠ '"') := by
  apply List.dropWhile_append_of_pos
  intro c hc
  simp [ne_of_mem_of_not_mem hc h]

theorem label?_plain {line : String} (h : '"' ∉ line.toList) : label? line = none := by
  have hdrop := dropWhile_plain h []
  rw [List.append_nil] at hdrop
  rw [label?, hdrop]
  rfl

theorem label?_labelled {before : String} (h : '"' ∉ before.toList) (text behind : String) :
    label? (labelled before text behind) = some (text, behind) := by
  have hdrop : (labelled before text behind).toList.dropWhile (· ≠ '"') =
      '"' :: (text.toList.flatMap Report.escapeChar ++ '"' :: behind.toList) := by
    simp only [toList_labelled, List.append_assoc, dropWhile_plain h]
    simp
  rw [label?, hdrop, List.tail_cons, readLabel_escape]
  simp

end ForwardSlicing.Dot
