import Formulary.Evaluation.Program
import Formulary.Expr.Builder
import Formulary.Expr.Code
import Formulary.Expr.Equality
import Formulary.Expr.Measure
import Formulary.Expr.Names
import Formulary.Expr.Outline
import Formulary.Expr.Parser
import Formulary.Expr.Walk
import Formulary.Library.Catalogue
import Formulary.Limits.Basic
import Formulary.Limits.File
import Formulary.Number.Reading
import Formulary.Number.Text
import Formulary.Proofs.Optimizing
import Formulary.Proofs.RoundTrip
import Formulary.Simplification.Optimizer
import Formulary.Text.LetterCase
import Formulary.Text.Line
import Formulary.Text.Pattern
import Formulary.Text.Quoted
import Formulary.Token.Scanner
import Formulary.Value.Equality
import Formulary.Value.Normal
import Formulary.Value.Operator
import Formulary.Proofs.Assigned
import Formulary.Proofs.LongestMatch
import Formulary.Proofs.Partition
import Formulary.Proofs.Frame
import Formulary.Proofs.HostVariables
import Formulary.Proofs.Magnitude
import Formulary.Proofs.Native
import Formulary.Proofs.Escape
import Formulary.Proofs.Course
import Formulary.Proofs.Pointing
import Formulary.Proofs.Circulation
import Formulary.Proofs.Discarding
import Formulary.Proofs.Exactness
import Formulary.Proofs.Progression
import Formulary.Proofs.Unrolling
import Formulary.Proofs.LibraryUnrolling
import Formulary.Proofs.LazyRanges
import Formulary.Proofs.LoneLexeme
import Formulary.Proofs.Spans
import Formulary.Proofs.WiderLimits
import Formulary.Proofs.Diagnostics
import Formulary.Proofs.Reporting
import Formulary.Proofs.Reprinting
import Formulary.Proofs.Mentions
import Formulary.Proofs.Respacing
import Formulary.Proofs.NormalForm
import Formulary.Proofs.StraightLine
import Formulary.Proofs.Heads
import Formulary.Proofs.Foresight
import Formulary.Proofs.Distribution
import Formulary.Proofs.OperatorChain
import Formulary.Proofs.Sizes
import Formulary.Proofs.Inputs
import Formulary.Proofs.Snapshot
import Formulary.Proofs.Replacement
import Formulary.Proofs.Shrinking
import Formulary.Proofs.Normalizing
import Formulary.Proofs.Equivalence
import Formulary.Proofs.Advancing
import Formulary.Proofs.Locating
import Formulary.Proofs.Distinctness
import Formulary.Proofs.Cutting
import Formulary.Proofs.Quotation
import Formulary.Proofs.Traversal
