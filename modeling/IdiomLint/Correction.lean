import IdiomLint.Analysis
import IdiomLint.Diff.Unified
import IdiomLint.Edit.Corrector

/-!
# Correction

Applying the edits of the findings until nothing is left to apply. A correction can uncover an offence
inside the text it moves, so the rules are run again after each pass.
-/

namespace IdiomLint

/-- How many passes are made at most. -/
def correctionPasses : Nat := 10

namespace Analyzer

/-- Make passes until one applies no edit. Each pass applies the edits of the findings that do not
overlap, and looks for findings again. -/
def correctFrom (a : Analyzer) (path : String) :
    Nat → String → List Finding → Analyzing (String × List Finding)
  | 0, text, findings => do
    .notify (.unstable path correctionPasses)
    return (text, findings)
  | passes + 1, text, findings => do
    let (corrector, notices) := Corrector.offerFindings { text } findings
    .notifyAll notices
    if corrector.accepted.isEmpty then return (text, findings)
    let text ← .ofExcept (corrector.corrected.mapError .edit)
    let result ← a.runRules path text
    a.correctFrom path passes text result.findings

/-- A text with the offences mended that can be mended, and the findings that remain in it. -/
def correctText (a : Analyzer) (path text : String) : Analyzing (String × List Finding) := do
  let result ← a.runRules path text
  a.correctFrom path correctionPasses text result.findings

/-- The correction of a file: its result afterwards, and the difference if there is one. A file
without fixable findings stays as it is. The file is written only when asked for. -/
def correctFile (a : Analyzer) (d : Disk) (write : Bool) (r : FileResult) :
    Analyzing (FileResult × Option String) := do
  if !r.findings.any Finding.fixable then return (r, none)
  let (text, remaining) ← a.correctText r.path r.text
  if text == r.text then return (r, none)
  let difference := Diff.unified r.text text (Path.relative (d.absolute r.path) d.here)
  if write then
    .emit (.write r.path (Utf8.encode text))
    .notify (.corrected r.path)
    return ({ r with text, findings := remaining }, some difference)
  else return (r, some difference)

/-- The correction of several files. -/
def correctFiles (a : Analyzer) (d : Disk) (write : Bool) (results : List FileResult) :
    Analyzing (List (FileResult × Option String)) :=
  results.mapM (a.correctFile d write)

end Analyzer

end IdiomLint
