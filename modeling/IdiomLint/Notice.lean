import IdiomLint.Edit.Basic

/-!
# Notices

What the program says about its own run, apart from the report: which files it skips and why, which
edits it leaves out, what it could not load.
-/

namespace IdiomLint

/-- How important a notice is. -/
inductive Level where
  | debug
  | info
  | warning
  | error
  deriving DecidableEq

/-- The name of a level. -/
def Level.name : Level → String
  | .debug => "DEBUG"
  | .info => "INFO"
  | .warning => "WARNING"
  | .error => "ERROR"

/-- Something that happened during a run. -/
inductive Notice where
  /-- An edit was left out because it overlaps one that was accepted. -/
  | skippedEdit (accepted edit : Edit)
  /-- A source has syntax errors. -/
  | partialTree
  /-- A configuration file was loaded. -/
  | loadedConfig (path : String)
  /-- A package with rules is not there. -/
  | missingPackage (name reason : String)
  /-- A module offers something as a rule that is none. -/
  | notARule (shown module : String)
  /-- No adapter is registered for a language. -/
  | noAdapter (language : String)
  /-- A path to analyze does not exist. -/
  | missingPath (path : String)
  /-- A rule failed on a file. -/
  | failedRule (rule path : String)
  /-- A file cannot be read or parsed. -/
  | skippedFile (path reason : String)
  /-- A file still changes after the last correction pass. -/
  | unstable (path : String) (passes : Nat)
  /-- A file was rewritten. -/
  | corrected (path : String)
  /-- The run cannot go on. -/
  | failure (reason : String)
  /-- There is nothing to analyze. -/
  | noFiles
  /-- The report does not have the promised form. -/
  | invalidReport (reason : String)
  /-- Which configuration is used. -/
  | usingConfig (path : String)
  /-- How many rules were found, and the identifiers of all rules known. -/
  | discovered (count : Nat) (ids : String)
  /-- How many rules are run, and their identifiers. -/
  | running (count : Nat) (ids : String)
  /-- How many files are analyzed. -/
  | found (count : Nat)
  deriving DecidableEq

namespace Notice

/-- The level of a notice. -/
def level : Notice → Level
  | .skippedEdit _ _ => .warning
  | .partialTree => .debug
  | .loadedConfig _ => .debug
  | .missingPackage _ _ => .warning
  | .notARule _ _ => .warning
  | .noAdapter _ => .error
  | .missingPath _ => .warning
  | .failedRule _ _ => .error
  | .skippedFile _ _ => .warning
  | .unstable _ _ => .warning
  | .corrected _ => .info
  | .failure _ => .error
  | .noFiles => .error
  | .invalidReport _ => .error
  | .usingConfig _ => .debug
  | .discovered _ _ => .debug
  | .running _ _ => .debug
  | .found _ => .debug

/-- The part of the program that a notice comes from. -/
def channel : Notice → String
  | .skippedEdit _ _ => "factorylint.engine.corrector"
  | .partialTree => "factorylint.engine.ruby_adapter"
  | .loadedConfig _ => "factorylint.engine.config"
  | .missingPackage _ _ => "factorylint.engine.registry"
  | .notARule _ _ => "factorylint.engine.registry"
  | _ => "factorylint.engine.runner"

/-- The wording of a notice. -/
def text : Notice → String
  | .skippedEdit accepted edit =>
    s!"Skipping autofix at byte {edit.start}: {(EditError.conflict accepted edit).message}"
  | .partialTree => "syntax errors in parsed Ruby source; results may be partial"
  | .loadedConfig path => s!"Loaded config from {path}"
  | .missingPackage name reason => s!"Could not import package {name}: {reason}"
  | .notARule shown module => s!"Ignoring non-rule {shown} in {module}.RULES"
  | .noAdapter language => s!"No adapter registered for language '{language}'"
  | .missingPath path => s!"Path '{path}' does not exist"
  | .failedRule rule path => s!"Rule '{rule}' failed on {path}"
  | .skippedFile path reason => s!"Skipping {path}: {reason}"
  | .unstable path passes => s!"{path} did not stabilize after {passes} correction passes"
  | .corrected path => s!"Corrected {path}"
  | .failure reason => reason
  | .noFiles => "No files found to analyze"
  | .invalidReport reason => s!"JSON validation: {reason}"
  | .usingConfig path => s!"Using config: {path}"
  | .discovered count ids => s!"Discovered {count} rules: {ids}"
  | .running count ids => s!"Running {count} rules: {ids}"
  | .found count => s!"Found {count} files to analyze"

/-- A notice as one line of a log. -/
def line (n : Notice) : String := s!"{n.level.name} {n.channel}: {n.text}"

/-- Is the notice shown when debugging information is not asked for? -/
def isUrgent (n : Notice) : Bool := n.level == .warning || n.level == .error

end Notice

end IdiomLint
