import IdiomLint.Number.Integer
import IdiomLint.Text.Quoted

/-!
# Switches

The switches of the command line, each with its name, its letter if it has one, and how many values
follow it; and the ways in which a command line can be wrong.
-/

namespace IdiomLint.CommandLine

/-- The switches of the command line. -/
inductive Switch where
  | help
  | paths
  | rules
  | config
  | format
  | jobs
  | autocorrect
  | diff
  | validate
  | verbose
  deriving DecidableEq

/-- How many values a switch has. -/
inductive Arity where
  | none
  | one
  /-- At least one. -/
  | several
  deriving DecidableEq

namespace Switch

/-- All switches. -/
def all : List Switch :=
  [.help, .paths, .rules, .config, .format, .jobs, .autocorrect, .diff, .validate, .verbose]

/-- The name of a switch without the hyphens before it. -/
def name : Switch → String
  | .help => "help"
  | .paths => "paths"
  | .rules => "rules"
  | .config => "config"
  | .format => "format"
  | .jobs => "jobs"
  | .autocorrect => "autocorrect"
  | .diff => "diff"
  | .validate => "validate"
  | .verbose => "verbose"

/-- The letter that stands for a switch after a single hyphen. -/
def letter? : Switch → Option Char
  | .help => some 'h'
  | .autocorrect => some 'a'
  | .verbose => some 'v'
  | _ => none

/-- How many values a switch has. Only switches without values have letters. -/
def arity : Switch → Arity
  | .paths => .several
  | .rules => .one
  | .config => .one
  | .format => .one
  | .jobs => .one
  | _ => .none

/-- The switch with a letter. -/
def ofLetter? (c : Char) : Option Switch := all.find? fun s => s.letter? == some c

/-- The switches that a name may stand for: the one that has it, or else all whose names begin with
it. -/
def candidates (name : List Char) : List Switch :=
  match all.filter fun s => s.name.toList == name with
  | [] => all.filter fun s => name.isPrefixOf s.name.toList
  | exact => exact

/-- A switch as messages name it. -/
def shown : Switch → String
  | .help => "-h/--help"
  | .autocorrect => "--autocorrect/-a"
  | .verbose => "--verbose/-v"
  | s => "--" ++ s.name

end Switch

/-- What is wrong with a command line. -/
inductive UsageError where
  /-- An abbreviated name stands for several switches. -/
  | ambiguous (argument : String) (candidates : List Switch)
  /-- A switch lacks its value. -/
  | missingValue (s : Switch)
  /-- A value is attached to a switch that has none. -/
  | needlessValue (s : Switch) (value : String)
  /-- The value of a switch is none of its choices. -/
  | badChoice (s : Switch) (value : String) (choices : List String)
  /-- The value of a switch is no integer. -/
  | badInteger (s : Switch) (value : String)
  /-- Two switches exclude one another. -/
  | conflict (s earlier : Switch)
  /-- A switch that must be there is not. -/
  | missing (s : Switch)
  /-- Some arguments have no meaning. -/
  | unrecognized (arguments : List String)
  deriving DecidableEq

namespace UsageError

/-- The wording of a usage error about one switch. -/
def about (s : Switch) (what : String) : String := "argument " ++ s.shown ++ ": " ++ what

/-- The wording of a usage error. -/
def message : UsageError → String
  | .ambiguous argument candidates =>
    "ambiguous option: " ++ argument ++ " could match " ++
      ", ".intercalate (candidates.map fun s => "--" ++ s.name)
  | .missingValue s =>
    about s (if s.arity = .several then "expected at least one argument" else "expected one argument")
  | .needlessValue s value => about s ("ignored explicit argument " ++ Quoted.quoted value)
  | .badChoice s value choices =>
    about s ("invalid choice: " ++ Quoted.quoted value ++ " (choose from " ++
      ", ".intercalate (choices.map Quoted.quoted) ++ ")")
  | .badInteger s value => about s ("invalid int value: " ++ Quoted.quoted value)
  | .conflict s earlier => about s ("not allowed with argument " ++ earlier.shown)
  | .missing s => "the following arguments are required: " ++ s.shown
  | .unrecognized arguments => "unrecognized arguments: " ++ " ".intercalate arguments

end UsageError

end IdiomLint.CommandLine
