import IdiomLint.Config.Writing
import IdiomLint.Main
import IdiomLint.Pattern.Matcher
import IdiomLint.Pattern.Printer
import IdiomLint.Proofs.Correction.Pass
import IdiomLint.Proofs.Pattern.RoundTrip
import IdiomLint.Proofs.Run.Limit
import IdiomLint.Proofs.Run.Preservation
import IdiomLint.Proofs.Ruby.Expressions
import IdiomLint.Proofs.Idiom.Completeness
import IdiomLint.Proofs.Ruby.Ownership
import IdiomLint.Proofs.File.Outline
import IdiomLint.Proofs.Idiom.NoReturn
import IdiomLint.Proofs.Ruby.NoReturn
import IdiomLint.Proofs.Correction.NoReturn
import IdiomLint.Proofs.Correction.Location
import IdiomLint.Proofs.Correction.Reinspection
import IdiomLint.Proofs.Json.Token
import IdiomLint.Proofs.Json.Number
import IdiomLint.Proofs.Json.Fraction
import IdiomLint.Proofs.Json.RoundTrip
import IdiomLint.Proofs.Json.Acceptance
import IdiomLint.Proofs.Report.Writing
import IdiomLint.Proofs.Report.Form
import IdiomLint.Proofs.Run.Recheck
import IdiomLint.Proofs.Text.Position
import IdiomLint.Proofs.Pattern.Derivation
import IdiomLint.Proofs.Pattern.Splitting
import IdiomLint.Proofs.Pattern.Grammar
import IdiomLint.Proofs.Pattern.Calling
import IdiomLint.Proofs.Idiom.Copying
import IdiomLint.Proofs.Ruby.Framing
import IdiomLint.Proofs.Ruby.Ranges
import IdiomLint.Proofs.Ruby.Located
import IdiomLint.Proofs.Correction.Sparing
import IdiomLint.Proofs.Text.Pieces
import IdiomLint.Proofs.Text.Offsets
import IdiomLint.Proofs.Suppression.Comment
import IdiomLint.Proofs.Suppression.OwnLine
import IdiomLint.Proofs.Suppression.Hint
import IdiomLint.Proofs.Diff.Patch
import IdiomLint.Proofs.Diff.Script
import IdiomLint.Proofs.Diff.Hunks
import IdiomLint.Proofs.Diff.RoundTrip
import IdiomLint.Proofs.Run.Preview
import IdiomLint.Proofs.Config.Soundness
import IdiomLint.Proofs.Edit.Weaving
import IdiomLint.Proofs.Edit.Gathering
import IdiomLint.Proofs.Run.Described
import IdiomLint.Proofs.Run.Validation
import IdiomLint.Proofs.Analysis.Allotment
import IdiomLint.Proofs.Analysis.Listing
import IdiomLint.Proofs.Analysis.Crowding
import IdiomLint.Proofs.Correction.Fixpoint
import IdiomLint.Proofs.Pattern.Rest
import IdiomLint.Proofs.Ruby.Reading
import IdiomLint.Proofs.Ruby.Totality
import IdiomLint.Proofs.Ruby.Silence
import IdiomLint.Proofs.Ruby.IntegerLiteral
import IdiomLint.Proofs.Ruby.Arguments
import IdiomLint.Proofs.Registry
import IdiomLint.Proofs.File.Selection
import IdiomLint.Proofs.Syntax.Address
import IdiomLint.Proofs.File.Directories
import IdiomLint.Proofs.Config.Search
