import IdiomLint.Datum
import IdiomLint.File.Exclusion

/-!
# Configuration

The settings of a run. A configuration file is not checked beyond the names of its settings, so a
setting may be of a sort that cannot be used; that shows when it is used.
-/

namespace IdiomLint

/-- Why a setting cannot be used. -/
inductive SettingError where
  /-- A limit is no number, or no whole number. -/
  | badLimit
  /-- What should be a list has no items. -/
  | noItems
  /-- What should be a glob is no text. -/
  | badGlob
  /-- What should be a table is none. -/
  | noTable
  deriving DecidableEq

/-- The settings of a run. -/
structure Config where
  /-- The globs that the identifiers of the rules to be run match. -/
  enabledRules : Datum := .list [.text "*"]
  /-- How many findings are kept for a file. -/
  perFile : Datum := .int 50
  /-- How many findings are kept in all. -/
  inAll : Datum := .int 1000
  /-- The severities of rules by identifier. -/
  severities : Datum := .table []
  /-- Globs for the paths that are never analyzed. -/
  exclude : Datum := .list []

namespace Datum

/-- The items of a setting that should be a list. -/
def items (d : Datum) : Except SettingError (List Datum) :=
  match d.items? with
  | some items => .ok items
  | none => .error .noItems

/-- Does a count reach a limit? -/
def isReachedBy (limit : Datum) (count : Nat) : Except SettingError Bool :=
  match limit with
  | .float x => .ok (x.compareInt? count == some .lt || x.compareInt? count == some .eq)
  | d =>
    match d.integer? with
    | some n => .ok (decide (n ≤ count))
    | none => .error .badLimit

/-- The first items of a list, as many as a number says. A negative number says how many are left out
at the end. -/
def firstItems {α : Type} (n : Int) (xs : List α) : List α :=
  if 0 ≤ n then xs.take n.toNat else xs.take (xs.length - n.natAbs)

/-- The first items of a list up to a limit. -/
def cut {α : Type} (limit : Datum) (xs : List α) : Except SettingError (List α) :=
  match limit.integer? with
  | some n => .ok (firstItems n xs)
  | none => .error .badLimit

/-- How many more fit under a limit when so many are there already. A limit with a fraction allows no
number above zero. -/
def roomAfter (limit : Datum) (count : Nat) : Except SettingError Nat :=
  match limit with
  | .float x => if x.compareInt? count == some .gt then .error .badLimit else .ok 0
  | d =>
    match d.integer? with
    | some n => .ok (n - count).toNat
    | none => .error .badLimit

/-- Does a text pass a test for one of the globs? They are tried in order, and one that is no text
cannot be tried. -/
def anyGlob (test : String → Bool) : List Datum → Except SettingError Bool
  | [] => .ok false
  | .text glob :: rest => if test glob then .ok true else anyGlob test rest
  | _ :: _ => .error .badGlob

end Datum

namespace Config

/-- The severity set for a rule. -/
def severity? (c : Config) (rule : String) : Except SettingError (Option Datum) :=
  match c.severities with
  | .table entries => .ok (Datum.lookup? entries rule)
  | _ => .error .noTable

/-- The files that are to be analyzed, seen from the root. -/
def keepFiles (c : Config) (files : List String) (root : String) :
    Except SettingError (List String) := do
  let globs ← c.exclude.items
  files.filterM fun file => do
    let below := Path.relative file root
    if Exclusion.isExcluded below then return false
    return !(← Datum.anyGlob (fun glob => Exclusion.matchesAny below [glob]) globs)

/-- Are two configurations equal setting by setting? -/
def same (a b : Config) : Bool :=
  a.enabledRules.same b.enabledRules && a.perFile.same b.perFile && a.inAll.same b.inAll &&
    a.severities.same b.severities && a.exclude.same b.exclude

end Config

end IdiomLint
