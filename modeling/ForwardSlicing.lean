import ForwardSlicing.CommandLine.Argument
import ForwardSlicing.CommandLine.Log
import ForwardSlicing.CommandLine.Options
import ForwardSlicing.CommandLine.Path
import ForwardSlicing.CommandLine.Run
import ForwardSlicing.Config
import ForwardSlicing.Console
import ForwardSlicing.Criteria
import ForwardSlicing.Dependence.Graph
import ForwardSlicing.Dependence.Index
import ForwardSlicing.Dependence.Level
import ForwardSlicing.Dependence.Named
import ForwardSlicing.Document.Field
import ForwardSlicing.Document.Model
import ForwardSlicing.Document.Procedure
import ForwardSlicing.Duration
import ForwardSlicing.Exclusion.Pattern
import ForwardSlicing.Exclusion.Reader
import ForwardSlicing.Exclusion.Set
import ForwardSlicing.Failure
import ForwardSlicing.Flow.Control
import ForwardSlicing.Flow.Graph
import ForwardSlicing.Flow.PostDominator
import ForwardSlicing.Json.Conversion
import ForwardSlicing.Json.Reader
import ForwardSlicing.Json.Value
import ForwardSlicing.Json.Writer
import ForwardSlicing.Main
import ForwardSlicing.Memo
import ForwardSlicing.Method.Descriptor
import ForwardSlicing.Method.Signature
import ForwardSlicing.Number.Binary64
import ForwardSlicing.Number.Decimal
import ForwardSlicing.Number.Integer
import ForwardSlicing.Program.CallGraph
import ForwardSlicing.Program.Heap
import ForwardSlicing.Program.Instruction
import ForwardSlicing.Program.Procedure
import ForwardSlicing.Program.Statement
import ForwardSlicing.Proofs.CallGraph
import ForwardSlicing.Proofs.CallGraphHistory
import ForwardSlicing.Proofs.Callers
import ForwardSlicing.Proofs.Coarsening
import ForwardSlicing.Proofs.CodePoint
import ForwardSlicing.Proofs.ConsoleScopes
import ForwardSlicing.Proofs.ControlClosure
import ForwardSlicing.Proofs.ControlDependence
import ForwardSlicing.Proofs.ControlPaths
import ForwardSlicing.Proofs.DataDependence
import ForwardSlicing.Proofs.DotEdges
import ForwardSlicing.Proofs.DotGraph
import ForwardSlicing.Proofs.DotLabel
import ForwardSlicing.Proofs.DotLines
import ForwardSlicing.Proofs.DotText
import ForwardSlicing.Proofs.EntrySlice
import ForwardSlicing.Proofs.Exclusion
import ForwardSlicing.Proofs.Flow
import ForwardSlicing.Proofs.FlowEdges
import ForwardSlicing.Proofs.ImmediatePostDominator
import ForwardSlicing.Proofs.Index
import ForwardSlicing.Proofs.Levels
import ForwardSlicing.Proofs.Lists
import ForwardSlicing.Proofs.LoadFailure
import ForwardSlicing.Proofs.Loading
import ForwardSlicing.Proofs.PostDominator
import ForwardSlicing.Proofs.Program
import ForwardSlicing.Proofs.Reading
import ForwardSlicing.Proofs.Rearrangement
import ForwardSlicing.Proofs.Report
import ForwardSlicing.Proofs.ReportGroups
import ForwardSlicing.Proofs.Search
import ForwardSlicing.Proofs.SeedSlices
import ForwardSlicing.Proofs.Sharing
import ForwardSlicing.Proofs.SignatureGrammar
import ForwardSlicing.Proofs.Slice
import ForwardSlicing.Proofs.SliceSafety
import ForwardSlicing.Proofs.Statement
import ForwardSlicing.Proofs.Transparency
import ForwardSlicing.Reachability
import ForwardSlicing.Report.Dot
import ForwardSlicing.Report.Json
import ForwardSlicing.Report.Text
import ForwardSlicing.Slice
import ForwardSlicing.Term
import ForwardSlicing.Text.Blank
import ForwardSlicing.Text.CodePoint
import ForwardSlicing.Text.Digit
import ForwardSlicing.Text.Lines
import ForwardSlicing.Text.Quoted
import ForwardSlicing.Text.Utf8
import ForwardSlicing.Text.Visible
import ForwardSlicing.Text.Word
