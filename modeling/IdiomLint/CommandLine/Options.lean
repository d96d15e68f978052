import IdiomLint.CommandLine.Argument
import IdiomLint.Report.Basic

/-!
# Options

What the program is asked to do, and how that is read from a command line. The arguments are read in
order, and a switch that is given twice counts the second time. Asking for help ends the reading. A
switch can be given without a value: that leaves its option empty, which only a run can judge.
-/

namespace IdiomLint.CommandLine

/-- What is done about the findings. -/
inductive Mode where
  /-- They are reported. -/
  | report
  /-- The files are corrected, and the remaining findings are reported. -/
  | correct
  /-- The corrections are shown, but not made. -/
  | preview
  deriving DecidableEq

/-- What the program is asked to do. -/
structure Options where
  /-- The files and directories to be analyzed, none if their switch was given without a value. -/
  paths : List String := []
  /-- Globs for the rules to be run, instead of those in the configuration. -/
  rules : Option String := none
  /-- The configuration file, instead of the nearest one. -/
  config : Option String := none
  /-- How the report is written; nothing if the switch was given without a value. -/
  format : Option Format := some .json
  /-- How many files are analyzed at once, if that was not given without a value. The results do not
  depend on the number. -/
  jobs : Option Int := some 0
  mode : Mode := .report
  /-- Is the form of the report checked? -/
  validate : Bool := false
  /-- Is debugging information shown? -/
  verbose : Bool := false
  deriving DecidableEq

/-- What a command line asks for. -/
inductive Request where
  | help
  | run (o : Options)
  deriving DecidableEq

namespace Options

/-- Choose what is done about the findings; once that is chosen, the other choice is an error. -/
def choose (o : Options) (s : Switch) (mode : Mode) (other : Switch) (otherMode : Mode) :
    Except UsageError Options :=
  if o.mode = otherMode then .error (.conflict s other) else .ok { o with mode }

/-- The format of a name. -/
def formatOf (value : String) : Except UsageError Format :=
  match Format.ofName? value with
  | some format => .ok format
  | none => .error (.badChoice .format value (Format.all.map Format.name))

/-- The integer that a numeral denotes. -/
def integerOf (s : Switch) (value : String) : Except UsageError Int :=
  match Integer.read? (.fixed 10) value.toList with
  | some n => .ok n
  | none => .error (.badInteger s value)

/-- Set a switch. Nothing remains to be done when help is asked for. -/
def set (o : Options) (setting : Setting) : Except UsageError (Option Options) :=
  let value := setting.values.head?
  match setting.switch with
  | .help => .ok none
  | .paths => .ok (some { o with paths := setting.values })
  | .rules => .ok (some { o with rules := value })
  | .config => .ok (some { o with config := value })
  | .format => (value.mapM formatOf).map fun format => some { o with format }
  | .jobs => (value.mapM (integerOf .jobs)).map fun jobs => some { o with jobs }
  | .autocorrect => (o.choose .autocorrect .correct .diff .preview).map some
  | .diff => (o.choose .diff .preview .autocorrect .correct).map some
  | .validate => .ok (some { o with validate := true })
  | .verbose => .ok (some { o with verbose := true })

/-- Set several switches. -/
def setAll (o : Options) : List Setting → Except UsageError (Option Options)
  | [] => .ok (some o)
  | setting :: rest => do
    match ← o.set setting with
    | none => return none
    | some o => o.setAll rest

/-- The request when all arguments are read: the switch for the paths must have been given, and all
arguments must have had a meaning. -/
def finish (o : Options) (done : Group) : Except UsageError Request :=
  if Switch.paths ∉ done.settings.map (·.switch) then .error (.missing .paths)
  else if !done.remaining.isEmpty then .error (.unrecognized done.remaining)
  else .ok (.run o)

/-- Read the arguments from a switch on, after what the arguments before it have meant. -/
def readGroups (o : Options) (done : Group) :
    List (Argument × List String) → Except UsageError Request
  | [] => o.finish done
  | (a, values) :: rest => do
    let g ← a.group values
    match ← o.setAll g.settings with
    | none => return .help
    | some o => o.readGroups (done.append g) rest

end Options

/-- What a command line asks for. Arguments from the separator on have no meaning. -/
def Request.read (args : List String) : Except UsageError Request := do
  let (front, back) := args.span (· != Argument.separator)
  let arguments ← front.mapM Argument.ofText
  let (values, groups) := Argument.withValues (arguments ++ back.map .unknown)
  Options.readGroups {} ⟨[], values⟩ groups

/-! ## Help -/

/-- The name of the program. -/
def programName : String := "factorylint"

/-- How the program is called. -/
def usage : String :=
  "usage: " ++ programName ++ " [-h] --paths PATHS [PATHS ...] [--rules RULES] [--config CONFIG] " ++
    "[--format \x7bjson,pretty\x7d] [--jobs JOBS] [--autocorrect | --diff] [--validate] [--verbose]"

/-- What a switch does. -/
def Switch.purpose : Switch → String
  | .help => "Show this help message and exit"
  | .paths => "Paths to files or directories to analyze"
  | .rules => "Rule patterns to run: '*' for all, or comma-separated IDs/patterns (default: from config)"
  | .config => "Path to configuration file (default: nearest .factorylint.yml)"
  | .format => "Output format: json (protocol v1) or pretty (human-readable)"
  | .jobs => "Number of parallel jobs (0=auto, 1=sequential, N=parallel)"
  | .autocorrect => "Rewrite files with the suggested corrections"
  | .diff => "Print the corrections as a unified diff without writing files"
  | .validate => "Validate JSON output against schema"
  | .verbose => "Enable debug logging"

/-- What the program does and how it is called. -/
def help : String :=
  usage ++ "\n\nFind and correct repeated factory calls in Ruby test suites\n\noptions:\n" ++
    "\n".intercalate (Switch.all.map fun s => "  " ++ s.shown ++ ": " ++ s.purpose)

end IdiomLint.CommandLine
