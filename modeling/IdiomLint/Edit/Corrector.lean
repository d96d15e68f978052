import IdiomLint.Edit.Apply
import IdiomLint.Finding
import IdiomLint.Notice

/-!
# Gathering edits

A corrector gathers the edits of many findings for one text. An edit that overlaps one accepted before
is left out; after the text has been corrected, another analysis can take it up.
-/

namespace IdiomLint

/-- Do two edits touch a common place? -/
def Edit.overlaps (a b : Edit) : Bool := a.start < b.stop && b.start < a.stop

/-- The edits gathered for a text. -/
structure Corrector where
  text : String
  /-- The edits to be applied, in the order they were offered. -/
  accepted : List Edit := []
  /-- The edits left out, in the order they were offered. -/
  skipped : List Edit := []

namespace Corrector

/-- Offer an edit. The notice says which accepted edit it overlaps, if it is left out. -/
def offer (c : Corrector) (edit : Edit) : Corrector × Option Notice :=
  match c.accepted.find? edit.overlaps with
  | some other => ({ c with skipped := c.skipped ++ [edit] }, some (.skippedEdit other edit))
  | none => ({ c with accepted := c.accepted ++ [edit] }, none)

/-- Offer edits one after the other. -/
def offerAll (c : Corrector) : List Edit → Corrector × List Notice
  | [] => (c, [])
  | edit :: rest =>
    let (c, notice) := c.offer edit
    let (c, notices) := c.offerAll rest
    (c, notice.toList ++ notices)

/-- Offer all edits of a finding. -/
def offerFinding (c : Corrector) (f : Finding) : Corrector × List Notice := c.offerAll f.edits

/-- Offer all edits of several findings. -/
def offerFindings (c : Corrector) (fs : List Finding) : Corrector × List Notice :=
  c.offerAll (fs.flatMap Finding.edits)

/-- The text with all accepted edits applied. -/
def corrected (c : Corrector) : Except EditError String := applyEdits c.text c.accepted

end Corrector

end IdiomLint
