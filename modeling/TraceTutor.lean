import TraceTutor.Main
import TraceTutor.Proofs.CLike.Step
import TraceTutor.Proofs.CLike.Cap
import TraceTutor.Proofs.CLike.LineReader
import TraceTutor.Proofs.CLike.Braces
import TraceTutor.Proofs.CLike.Classification
import TraceTutor.Proofs.CLike.Nesting
import TraceTutor.Proofs.CLike.Structured
import TraceTutor.Proofs.Script.Congruence
import TraceTutor.Proofs.Script.Invariant
import TraceTutor.Proofs.Script.Budget
import TraceTutor.Proofs.Script.Lexing
import TraceTutor.Proofs.Script.Parsing
import TraceTutor.Proofs.NameMap
import TraceTutor.Proofs.Script.WellFormed
import TraceTutor.Proofs.Session
import TraceTutor.Proofs.Value.Normal
import TraceTutor.Proofs.Value.Equality
import TraceTutor.Proofs.Discrepancy
import TraceTutor.Proofs.Script.Assignment
import TraceTutor.Proofs.Script.CallStack
import TraceTutor.Proofs.Trace.Normal
import TraceTutor.Proofs.Script.Isolation
import TraceTutor.Proofs.Script.Statements
import TraceTutor.Proofs.Script.Clauses
import TraceTutor.Proofs.Script.Flow
import TraceTutor.Proofs.Script.Footprint
import TraceTutor.Proofs.Script.Functions
import TraceTutor.Proofs.Script.Termination
import TraceTutor.Proofs.CLike.Insertion
import TraceTutor.Proofs.Script.PureEvaluation
import TraceTutor.Proofs.Json.Numeral
import TraceTutor.Proofs.Json.Layout
import TraceTutor.Proofs.Json.Reading
import TraceTutor.Proofs.Value.Numbers
import TraceTutor.Proofs.Json.Values
import TraceTutor.Proofs.Json.Words
import TraceTutor.Proofs.Trace.Codec
import TraceTutor.Proofs.Trace.Learner
import TraceTutor.Proofs.Number.Rounding
import TraceTutor.Proofs.Json.Double
import TraceTutor.Proofs.CLike.Comments
import TraceTutor.Proofs.Number.Whole
import TraceTutor.Proofs.Script.Printing
import TraceTutor.Proofs.Script.Spelling
import TraceTutor.Proofs.Script.Reparsing
import TraceTutor.Proofs.Script.Depth
import TraceTutor.Proofs.CLike.Words
import TraceTutor.Proofs.Value.Text
import TraceTutor.Proofs.CLike.RenamedLines
import TraceTutor.Proofs.CLike.RenamedStatements
import TraceTutor.Proofs.CLike.Renaming
import TraceTutor.Proofs.Number.Place
import TraceTutor.Proofs.IntegerOrder
import TraceTutor.Proofs.Value.Exact
import TraceTutor.Proofs.Script.Initializer
import TraceTutor.Proofs.Bindings
import TraceTutor.Proofs.Value.Closed
import TraceTutor.Proofs.Value.Canonical
import TraceTutor.Proofs.Trace.Values
import TraceTutor.Proofs.CLike.Values
import TraceTutor.Proofs.Script.Literals
import TraceTutor.Proofs.Script.Values
import TraceTutor.Proofs.CanonicalNumbers
import TraceTutor.Proofs.Script.Operands
import TraceTutor.Proofs.Script.Parts
import TraceTutor.Proofs.Script.Trail
import TraceTutor.Proofs.Script.Scopes
import TraceTutor.Proofs.Script.Constants
import TraceTutor.Proofs.Script.Updates
import TraceTutor.Proofs.Script.Endings
import TraceTutor.Proofs.CLike.Grammar
import TraceTutor.Proofs.CLike.Forms
import TraceTutor.Proofs.CLike.Endings
import TraceTutor.Proofs.CLike.Meaning
import TraceTutor.Proofs.CLike.LineComments
import TraceTutor.Proofs.CLike.OutputPieces
import TraceTutor.Proofs.CLike.Effects
import TraceTutor.Proofs.Script.Concatenation
import TraceTutor.Proofs.Number.Closest
import TraceTutor.Proofs.IntegerArithmetic
import TraceTutor.Proofs.Value.Equivalence
import TraceTutor.Proofs.Json.Unambiguous
import TraceTutor.Proofs.Explanation
import TraceTutor.Proofs.Script.Tiling
import TraceTutor.Proofs.Trace.History
import TraceTutor.Proofs.NameTable
import TraceTutor.Proofs.Viewer.Replay
import TraceTutor.Proofs.CLike.Matching
import TraceTutor.Proofs.IntegerRounding
import TraceTutor.Proofs.Viewer.Highlight
import TraceTutor.Proofs.Factorial
import TraceTutor.Proofs.Script.Climbing
import TraceTutor.Proofs.Script.Descent
import TraceTutor.Proofs.Script.Realization
import TraceTutor.Proofs.Script.Progress
