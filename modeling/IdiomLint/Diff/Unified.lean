import IdiomLint.Diff.Script
import IdiomLint.Text.Lines

/-!
# Unified diffs

A diff shows the changes of a script with three lines of context around them, changes that lie close
together in one hunk.
-/

namespace IdiomLint.Diff

/-- The number of unchanged lines shown around a change. -/
def context : Nat := 3

/-- A group of changes with the lines around them, and the number of lines before it in both lists. -/
structure Hunk where
  oldStart : Nat
  newStart : Nat
  segments : List Segment
  deriving DecidableEq

/-- The old lines of a hunk. -/
def Hunk.old (h : Hunk) : List String := h.segments.flatMap Segment.old

/-- The new lines of a hunk. -/
def Hunk.new (h : Hunk) : List String := h.segments.flatMap Segment.new

/-- The last lines of a list. -/
def takeLast (n : Nat) (lines : List String) : List String := lines.drop (lines.length - n)

/-- Gather segments into hunks. `old` and `new` count the lines before the segments, `current` is the
hunk that is open, its segments in reverse. -/
def gather (old new : Nat) (current : Hunk) : List Segment → List Hunk
  | [] => if current.segments.isEmpty then [] else [{ current with segments := current.segments.reverse }]
  | .change a b :: rest =>
    gather (old + a.length) (new + b.length)
      { current with segments := .change a b :: current.segments } rest
  | .same lines :: rest =>
    let old' := old + lines.length
    let new' := new + lines.length
    if rest.isEmpty then
      if current.segments.isEmpty then []
      else [{ current with segments := (.same (lines.take context) :: current.segments).reverse }]
    else if current.segments.isEmpty then
      let kept := takeLast context lines
      gather old' new' ⟨old' - kept.length, new' - kept.length, [.same kept]⟩ rest
    else if 2 * context < lines.length then
      let kept := takeLast context lines
      { current with segments := (.same (lines.take context) :: current.segments).reverse } ::
        gather old' new' ⟨old' - kept.length, new' - kept.length, [.same kept]⟩ rest
    else
      gather old' new' { current with segments := .same lines :: current.segments } rest

/-- The hunks of a script. -/
def hunks (segments : List Segment) : List Hunk := gather 0 0 ⟨0, 0, []⟩ segments

/-- The lines that a hunk covers: the number of the first one and their count, which is left out when
it is one. An empty stretch is placed after the line before it. -/
def rangeText (start count : Nat) : String :=
  if count = 1 then s!"{start + 1}"
  else if count = 0 then s!"{start},0"
  else s!"{start + 1},{count}"

/-- The header of a hunk. -/
def Hunk.header (h : Hunk) : String :=
  s!"@@ -{rangeText h.oldStart h.old.length} +{rangeText h.newStart h.new.length} @@\n"

/-- The lines of a segment, each after a mark. -/
def Segment.marked : Segment → List String
  | .same lines => lines.map (" " ++ ·)
  | .change old new => old.map ("-" ++ ·) ++ new.map ("+" ++ ·)

/-- A hunk as it is shown. -/
def Hunk.render (h : Hunk) : List String := h.header :: h.segments.flatMap Segment.marked

/-- The unified diff between two versions of a file; nothing if they agree. -/
def unified (old new path : String) : String :=
  let found := hunks (script (Lines.ofText old) (Lines.ofText new))
  if found.isEmpty then ""
  else String.join (s!"--- a/{path}\n" :: s!"+++ b/{path}\n" :: found.flatMap Hunk.render)

end IdiomLint.Diff
