import IdiomLint.Config.Basic
import IdiomLint.File.Tree
import IdiomLint.Grammar
import IdiomLint.Rule.Basic
import IdiomLint.Suppression
import IdiomLint.Text.Lines

/-!
# Analysis

Running rules on texts: one rule after the other until a file has as many findings as are kept, then
without the suppressed ones; and file after file, with a limit for all findings together.
-/

namespace IdiomLint

/-- Why an analysis breaks off. -/
inductive AnalysisError where
  | parse (e : ParseError)
  | setting (e : SettingError)
  | edit (e : EditError)
  /-- There can be no file of a path. -/
  | impossiblePath

/-- What an analysis needs. -/
structure Analyzer where
  /-- How sources are read; nothing if there is no adapter for their language. -/
  grammar : Option Grammar
  rules : List Rule
  config : Config

/-- What was found in a file. -/
structure FileResult where
  path : String
  text : String := ""
  findings : List Finding := []

/-- An outcome of an analysis. -/
abbrev Analyzing := Outcome AnalysisError

/-- A result that depends on settings. -/
def Analyzing.ofSetting {α : Type} (r : Except SettingError α) : Analyzing α :=
  .ofExcept (r.mapError .setting)

/-- The text of a file, or why there is none. Every line break is read as a line feed. -/
def Disk.readText (d : Disk) (path : String) : Except String String := do
  let bytes ← (d.read path).mapError (FileError.message path)
  let text ← (Utf8.decode? bytes).mapError Utf8.Fault.message
  return String.ofList (Lines.joinUniversal text.toList)

namespace Analyzer

/-- A finding with the severity that is set for its rule, if any is. -/
def withSeverity (a : Analyzer) (f : Finding) : Except SettingError Finding := do
  match ← a.config.severity? f.rule with
  | some severity => return if severity.same f.severity then f else { f with severity }
  | none => return f

/-- The findings of some rules after those found already. A rule that fails finds nothing. Once the
limit for a file is reached, the other rules are not run. -/
def findingsFrom (a : Analyzer) (context : RuleContext) (found : List Finding) :
    List Rule → Analyzing (List Finding)
  | [] => pure found
  | rule :: rest =>
    match rule.visit context with
    | .error _ => do
      .notify (.failedRule rule.id context.path)
      a.findingsFrom context found rest
    | .ok new => do
      let found := found ++ (← .ofSetting (new.mapM a.withSeverity))
      if ← .ofSetting (a.config.perFile.isReachedBy found.length) then
        .ofSetting (a.config.perFile.cut found)
      else a.findingsFrom context found rest

/-- What the rules find in a text. -/
def runRules (a : Analyzer) (path text : String) : Analyzing FileResult :=
  match a.grammar with
  | none => pure { path, text }
  | some grammar => do
    let tree ← (grammar.parse text).mapError .parse
    let found ← a.findingsFrom ⟨path, text, some tree⟩ [] a.rules
    return ⟨path, text, Suppression.keep text found⟩

/-- What the rules find in a file whose text is known. Without a grammar the file is passed over with
a notice. -/
def analyzeText (a : Analyzer) (path text : String) : Analyzing FileResult :=
  let run := a.runRules path text
  match run.result with
  | .error (.parse (.noGrammar e)) => ⟨run.effects ++ [.notice (.skippedFile path e.message)],
      .ok { path, text }⟩
  | _ => run

/-- What the rules find in a file. A file that cannot be read is passed over with a notice. -/
def analyzeFile (a : Analyzer) (d : Disk) (path : String) : Analyzing FileResult :=
  if !Path.isPossible path then .fail .impossiblePath
  else match d.readText path with
  | .ok text => a.analyzeText path text
  | .error reason => do
    .notify (.skippedFile path reason)
    return { path }

/-- Keep the first findings of the results, as many in all as a limit says. So many are kept
already. -/
def capFindings (limit : Datum) (kept : Nat) : List FileResult → Except SettingError (List FileResult)
  | [] => .ok []
  | r :: rest => do
    let r := { r with findings := r.findings.take (← limit.roomAfter kept) }
    return r :: (← capFindings limit (kept + r.findings.length) rest)

/-- What the rules find in several files. -/
def analyzeFiles (a : Analyzer) (d : Disk) (paths : List String) : Analyzing (List FileResult) := do
  let results ← paths.mapM (a.analyzeFile d)
  .ofSetting (capFindings a.config.inAll 0 results)

end Analyzer

end IdiomLint
