import Stepwise.Text.CodePoint
import Stepwise.Text.Blank
import Stepwise.Text.Digit
import Stepwise.Text.Word
import Stepwise.Text.Printable
import Stepwise.Text.Case
import Stepwise.Text.Quoted
import Stepwise.Text.Search
import Stepwise.Text.Occurrence
import Stepwise.Fault
import Stepwise.Number.Digits
import Stepwise.Number.Dyadic
import Stepwise.Number.Decimal
import Stepwise.Number.Numeral
import Stepwise.Dialect
import Stepwise.Table
import Stepwise.Source.Scan
import Stepwise.Source.Layout
import Stepwise.Source.Query
import Stepwise.Expr.Basic
import Stepwise.Expr.Token
import Stepwise.Expr.Parser
import Stepwise.Source.Assignment
import Stepwise.Source.Words
import Stepwise.Indented.Header
import Stepwise.Braced.Header
import Stepwise.Functions
import Stepwise.Number.Arith
import Stepwise.Value.Basic
import Stepwise.Value.Heap
import Stepwise.Value.Show
import Stepwise.Value.Compare
import Stepwise.Value.Convert
import Stepwise.Value.Percent
import Stepwise.Value.Printf
import Stepwise.Limits
import Stepwise.Recorder.Basic
import Stepwise.Recorder.Script
import Stepwise.Eval.Operator
import Stepwise.Eval.Merging
import Stepwise.Eval.Sorting
import Stepwise.Eval.Builtin
import Stepwise.Eval.Method
import Stepwise.Eval.Evaluate
import Stepwise.Exec.Flow
import Stepwise.Exec.Loop
import Stepwise.Exec.Chain
import Stepwise.Exec.Block
import Stepwise.Indented.Statement
import Stepwise.Indented.Run
import Stepwise.Braced.Body
import Stepwise.Braced.Statement
import Stepwise.Braced.Run
import Stepwise.Eval.Session
import Stepwise.Trace
import Stepwise.Json
import Stepwise.Service
import Stepwise.Proofs.Outcome
import Stepwise.Proofs.Likeness
import Stepwise.Proofs.LineRuns
import Stepwise.Proofs.Tables
import Stepwise.Proofs.Transparency
import Stepwise.Proofs.Unrolling
import Stepwise.Proofs.Termination
import Stepwise.Proofs.Tree
import Stepwise.Proofs.IndentedTree
import Stepwise.Proofs.BracedTree
import Stepwise.Proofs.ValueFaults
import Stepwise.Proofs.OperationFaults
import Stepwise.Proofs.Rearranging
import Stepwise.Proofs.ValueInvariants
import Stepwise.Proofs.Derivations
import Stepwise.Proofs.Snapshots
import Stepwise.Proofs.Reachability
import Stepwise.Proofs.Discipline
import Stepwise.Proofs.Regions
import Stepwise.Proofs.Regimes
import Stepwise.Proofs.RegimeStatements
import Stepwise.Proofs.RegimeRuns
import Stepwise.Proofs.CallEffects
import Stepwise.Proofs.WatchedRuns
import Stepwise.Proofs.PlainValues
import Stepwise.Proofs.DisciplinedRuns
import Stepwise.Proofs.RunFaults
import Stepwise.Proofs.Nesting
import Stepwise.Proofs.Returning
import Stepwise.Proofs.WellFormedTraces
import Stepwise.Proofs.Spacing
import Stepwise.Proofs.Writing
import Stepwise.Proofs.Relocation
import Stepwise.Proofs.CodeLines
import Stepwise.Proofs.CodeRuns
import Stepwise.Proofs.Layouts
import Stepwise.Proofs.FunctionBodies
import Stepwise.Proofs.LineNumbers
import Stepwise.Proofs.Operations
import Stepwise.Proofs.RunawayLoops
import Stepwise.Proofs.Unbraced
import Stepwise.Proofs.BracePlacement
import Stepwise.Proofs.BranchEnds
import Stepwise.Proofs.AssignmentTargets
import Stepwise.Proofs.OneLineBodies
import Stepwise.Proofs.SpreadBodies
import Stepwise.Proofs.CodeChars
import Stepwise.Proofs.CommentMarkers
import Stepwise.Proofs.ElementStores
import Stepwise.Proofs.IntegerMeaning
import Stepwise.Proofs.Unfoldings
import Stepwise.Proofs.Parameters
import Stepwise.Proofs.CallCeiling
import Stepwise.Proofs.Rereading
import Stepwise.Proofs.ClosedRuns
import Stepwise.Proofs.NumericKinds
import Stepwise.Proofs.Formats
import Stepwise.Proofs.OutputEntries
import Stepwise.Proofs.Narration
import Stepwise.Proofs.Locality
import Stepwise.Proofs.Tuples
import Stepwise.Proofs.Permutations
import Stepwise.Proofs.Retokenizing
import Stepwise.Proofs.AssignmentTexts
