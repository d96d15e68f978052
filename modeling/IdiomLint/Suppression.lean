import IdiomLint.Finding
import IdiomLint.Text.Blank
import IdiomLint.Text.CaseFold
import IdiomLint.Text.CommaList
import IdiomLint.Text.Glob
import IdiomLint.Text.Lines
import IdiomLint.Text.Position

/-!
# Suppression

A comment `# factorylint: ignore[factory.create_list]` suppresses the findings of a rule that begin on
its line. Several rules may be named, separated by commas, and a name may be a glob.
-/

namespace IdiomLint.Suppression

/-- The text after an opening bracket up to the next closing one, and what follows that. The text
must not be empty. -/
def bracketed? (cs : List Char) : Option (List Char × List Char) :=
  match cs.span (· != ']') with
  | ([], _) => none
  | (_, []) => none
  | (content, _ :: tail) => some (content, tail)

/-- What follows a word, white space before it and case aside. -/
def wordAfterBlanks? (word : String) (cs : List Char) : Option (List Char) :=
  CaseFold.after? word.toList (cs.dropWhile Blank.isBlank)

/-- The text between the brackets of an ignore comment at the front, and what follows it. -/
def comment? (cs : List Char) : Option (List Char × List Char) := do
  let afterMark ← CaseFold.after? ['#'] cs
  let afterTool ← wordAfterBlanks? "factorylint:" afterMark
  let afterIgnore ← wordAfterBlanks? "ignore" afterTool
  let afterBracket ← wordAfterBlanks? "[" afterIgnore
  bracketed? afterBracket

/-- The texts between the brackets of all ignore comments of a line. The first argument is a bound on
the number of steps; the length of the line is one. -/
def commentsWithin : Nat → List Char → List (List Char)
  | _, [] => []
  | 0, _ :: _ => []
  | fuel + 1, c :: rest =>
    match comment? (c :: rest) with
    | some (content, tail) => content :: commentsWithin fuel tail
    | none => commentsWithin fuel rest

/-- The texts between the brackets of all ignore comments of a line. -/
def comments (line : List Char) : List (List Char) := commentsWithin line.length line

/-- The patterns of all ignore comments of a line. -/
def patternsOf (line : List Char) : List String := (comments line).flatMap CommaList.items

/-- Does a pattern name a rule? -/
def names (pattern rule : String) : Bool := rule == pattern || Glob.matchesText pattern rule

/-- The patterns on each line of a text. -/
def table (text : String) : List (List String) := (Lines.atNewlines text.toList).map patternsOf

/-- The patterns on a line, the first line having the number 1. -/
def patternsAt (text : String) (line : Nat) : List String := ((table text)[line - 1]?).getD []

/-- Is a finding of a rule at an offset suppressed? -/
def isSuppressed (text rule : String) (offset : Int) : Bool :=
  (patternsAt text (Position.lineAt (Utf8.encode text) offset)).any (names · rule)

/-- The findings that are not suppressed. -/
def keep (text : String) (findings : List Finding) : List Finding :=
  findings.filter fun f => !isSuppressed text f.rule f.start

end IdiomLint.Suppression
