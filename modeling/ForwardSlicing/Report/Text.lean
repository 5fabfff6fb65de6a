import ForwardSlicing.Program.Statement
/-!
# Slices as text

The statements of a slice are listed in the order of reports, grouped by context.
-/

namespace ForwardSlicing.Report

/-- Statements in the order of reports, grouped by context. -/
def byContext (slice : List Statement) : List (Context × List Statement) :=
  let sorted := Statement.sorted slice
  (distinct (sorted.map (·.context))).map fun c => (c, sorted.filter (·.context == c))

/-- The title that is used unless another one is given. -/
def defaultTitle : String := "Forward Slice"

/-- The lines for a context and its statements. -/
def groupLines (group : Context × List Statement) : List String :=
  ("  " ++ group.1.place) :: group.2.map fun s => "    - " ++ s.label

/-- A slice as text. -/
def text (title : String) (slice : List Statement) : String :=
  let groups := byContext slice
  "\n".intercalate <|
    [title, String.ofList (List.replicate 50 '='), "",
     "Statements (" ++ slice.length.repr ++ ") in " ++ groups.length.repr ++ " context(s):"] ++
    groups.flatMap groupLines

end ForwardSlicing.Report
