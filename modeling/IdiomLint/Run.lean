import IdiomLint.CommandLine.Options
import IdiomLint.Config.Reading
import IdiomLint.Config.Search
import IdiomLint.Correction
import IdiomLint.File.Collection
import IdiomLint.Json.Parser
import IdiomLint.Registry
import IdiomLint.Report.Form
import IdiomLint.Text.CommaList

/-!
# Runs

A run does what the command line asks for: it finds its configuration, chooses rules and files, inspects
the files and reports. What is printed, written and noticed on the way are the effects of its outcome;
`Inspection` is what stands between the files and the report.
-/

namespace IdiomLint

open CommandLine

/-- Why a run breaks off. -/
inductive RunError where
  | config (f : ConfigFault)
  | package (f : PackageFault)
  /-- A switch was given without the value that the run needs. -/
  | missingValue (s : Switch)
  | analysis (e : AnalysisError)
  | report (e : ReportError)

/-- The wording of a run error. -/
def RunError.message : RunError → String
  | .config _ => "the configuration cannot be read"
  | .package _ => "there can be no such package"
  | .missingValue s => (UsageError.missingValue s).message
  | .analysis (.parse _) => "a syntax tree is not as expected"
  | .analysis (.setting _) => "a setting cannot be used"
  | .analysis (.edit e) => e.message
  | .analysis .impossiblePath => "there can be no such file"
  | .report e => e.message

/-- How a run ends. -/
inductive Status where
  /-- There are no findings. -/
  | clean
  /-- There are findings, or the report does not have its form. -/
  | offended
  /-- There was nothing to do, or no way to do it. -/
  | unusable
  deriving DecidableEq

namespace Status

/-- The exit status of the program. -/
def code : Status → Nat
  | .clean => 0
  | .offended => 1
  | .unusable => 2

/-- How a run ends that found something, or nothing. -/
def ofFindings (findings : List Finding) : Status := if findings.isEmpty then .clean else .offended

end Status

/-! ## Inspection -/

/-- What is known about the files after they were analyzed and, if asked for, corrected. -/
structure Inspection where
  results : List FileResult
  /-- The files that have corrections, each with the difference. -/
  corrections : List (String × String)

namespace Inspection

/-- All findings, file by file. -/
def findings (i : Inspection) : List Finding := i.results.flatMap (·.findings)

/-- An inspection with corrected files. -/
def ofCorrected (files : List (FileResult × Option String)) : Inspection :=
  ⟨files.map (·.1), files.filterMap fun (r, difference) => difference.map fun text => (r.path, text)⟩

/-- The differences of all corrections. -/
def differences (i : Inspection) : String := String.join (i.corrections.map (·.2))

end Inspection

/-- Analyze files, and do about the findings what the mode says. -/
def Analyzer.inspect (a : Analyzer) (d : Disk) (mode : Mode) (files : List String) :
    Analyzing Inspection := do
  let results ← a.analyzeFiles d files
  match mode with
  | .report => return ⟨results, []⟩
  | .correct => return .ofCorrected (← a.correctFiles d true results)
  | .preview => return .ofCorrected (← a.correctFiles d false results)

/-! ## Reporting -/

/-- No time is measured. -/
def noTimes : Metrics :=
  ["parse_ms", "rules_ms", "total_ms"].map fun name => (name, .float (Binary64.ofInt 0))

/-- The report on an inspection. Of several results for one place the text of the last one counts. -/
def Inspection.report (i : Inspection) (d : Disk) (rules : List Rule) : Report where
  findings := i.findings
  files := i.results.length
  rules := rules.length
  metrics := noTimes
  texts := i.results.reverse.map fun r => (Path.resolved d.here r.path, r.text)
  corrected := i.corrections.map (·.1)
  directory := d.here

/-- What is wrong with the form of a written report. -/
def Report.faultsOfText (text : String) : List String :=
  match Json.parse? text with
  | some j => Report.faults j
  | none => ["not JSON"]

namespace CommandLine

/-- What is wrong with the form of a report, if that is to be checked. -/
def Options.faults (o : Options) (text : String) : List String :=
  if o.validate && o.format = some .json then Report.faultsOfText text else []

/-- Write a report in the format asked for. That there is none shows only here. -/
def Options.write (o : Options) (r : Report) : Except RunError String :=
  match o.format with
  | some format => (r.write format).mapError .report
  | none => .error (.report (.unknownFormat (Json.ofStrings []).literal))

/-- Print the result of an inspection, and tell how the run ends. A report without its form is not
printed. -/
def Options.conclude (o : Options) (d : Disk) (rules : List Rule) (i : Inspection) :
    Outcome RunError Status := do
  if o.mode = .preview then
    .emit (.print i.differences)
    return .ofFindings i.findings
  let text ← .ofExcept (o.write (i.report d rules))
  let faults := o.faults text
  if !faults.isEmpty then
    .notifyAll (faults.map .invalidReport)
    return .offended
  .emit (.print (text ++ "\n"))
  return .ofFindings i.findings

/-! ## Preparing -/

/-- The configuration file to be used. Unless one is given it is looked for from the first path on. -/
def Options.configPath (o : Options) (d : Disk) : Except RunError (Option String) :=
  match o.config, o.paths with
  | none, [] | some "", [] => .error (.missingValue .paths)
  | none, path :: _ | some "", path :: _ => .ok (Config.findFile d path)
  | path, _ => .ok path

/-- The configuration in a file, or the usual one if there is no file; nothing if it is refused. -/
def loadConfig (d : Disk) (path : Option String) : Outcome RunError (Option Config) :=
  let loaded := Config.load d (path.getD "")
  match loaded.result with
  | .error (.refused e) => ⟨loaded.effects ++ [.notice (.failure e.message)], .ok none⟩
  | _ => some <$> loaded.mapError .config

/-- The setting that says which rules are run. -/
def Options.ruleSetting (o : Options) (c : Config) : Datum :=
  match o.rules with
  | none | some "" => c.enabledRules
  | some text => .list ((CommaList.items text.toList).map .text)

/-- Identifiers as a notice shows them. -/
def shownIds (ids : List String) : String := (Json.ofStrings ids).literal

/-- The rules to be run. -/
def Options.chooseRules (o : Options) (c : Config) : Outcome RunError (Registry × List Rule) := do
  let r : Registry := ({} : Registry).addAdapter rubyLanguage rubyAdapter
  let (r, count) ← (r.discover ["factorylint.rules"]).mapError .package
  .notify (.discovered count (shownIds r.ruleIds))
  let rules ← .ofExcept ((r.enabledRules (o.ruleSetting c) rubyLanguage).mapError
    (.analysis ∘ .setting))
  .notify (.running rules.length (shownIds (rules.map (·.id))))
  return (r, rules)

/-- No files are analyzed unless it is known how many at once. -/
def Options.checkJobs (o : Options) : Except RunError Unit :=
  if o.jobs.isSome then .ok () else .error (.missingValue .jobs)

/-- A run with its configuration. -/
def Options.runWith (o : Options) (g : Grammar) (d : Disk) (c : Config) : Outcome RunError Status := do
  let (r, rules) ← o.chooseRules c
  let files ← (collectFiles (r.adapter? rubyLanguage) d c o.paths).mapError (.analysis ∘ .setting)
  if files.isEmpty then
    .notify .noFiles
    return .unusable
  .notify (.found files.length)
  .ofExcept o.checkJobs
  let i ← (Analyzer.inspect ⟨some g, rules, c⟩ d o.mode files).mapError .analysis
  o.conclude d rules i

/-- A run. Without a grammar there is nothing it can do. -/
def Options.run (o : Options) (g : Grammar) (d : Disk) : Outcome RunError Status := do
  match g with
  | .error e =>
    .notify (.failure e.message)
    return .unusable
  | .ok _ =>
    let path ← .ofExcept (o.configPath d)
    match ← loadConfig d path with
    | none => return .unusable
    | some c =>
      .notify (.usingConfig (path.getD "defaults"))
      o.runWith g d c

/-- The log of a run: a line for each notice that is shown. -/
def Options.log (o : Options) (ns : List Notice) : String :=
  String.join ((ns.filter fun n => o.verbose || n.isUrgent).map fun n => n.line ++ "\n")

end CommandLine

end IdiomLint
