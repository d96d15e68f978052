import IdiomLint.Edit.Basic
import IdiomLint.Text.Utf8

/-!
# Applying edits

`applyEdits` orders the edits by their bounds, refuses two that overlap, and carries them out from the
end of the text towards its beginning, so that an edit does not move the ones still to come.
-/

namespace IdiomLint

namespace Edit

/-- Edits are ordered by where they begin, then by where they end. -/
def before (a b : Edit) : Bool := a.start < b.start || (a.start == b.start && a.stop ≤ b.stop)

/-- Edits in order; those with the same bounds keep theirs. -/
def sorted (edits : List Edit) : List Edit := edits.mergeSort before

/-- The first two neighbours of an ordered list that overlap. -/
def firstConflict? : List Edit → Option (Edit × Edit)
  | a :: b :: rest => if b.start < a.stop then some (a, b) else firstConflict? (b :: rest)
  | _ => none

/-- Does an edit lie inside a text of `size` bytes? -/
def inside (e : Edit) (size : Nat) : Bool := 0 ≤ e.start && e.stop ≤ size && e.start ≤ e.stop

/-- Carry out one edit on the bytes of a text. -/
def splice (bytes : List UInt8) (e : Edit) : List UInt8 :=
  bytes.take e.start.toNat ++ Utf8.encode e.replacement ++ bytes.drop e.stop.toNat

/-- Carry out edits in the given order, each one checked against the text as it is then. -/
def applyInOrder (bytes : List UInt8) : List Edit → Except EditError (List UInt8)
  | [] => .ok bytes
  | e :: rest =>
    if e.inside bytes.length then applyInOrder (e.splice bytes) rest
    else .error (.outside e bytes.length)

end Edit

/-- Apply edits that do not overlap to a text. -/
def applyEdits (text : String) (edits : List Edit) : Except EditError String := do
  let ordered := Edit.sorted edits
  match Edit.firstConflict? ordered with
  | some (a, b) => .error (.conflict a b)
  | none => do
    let bytes ← Edit.applyInOrder (Utf8.encode text) ordered.reverse
    match Utf8.decode? bytes with
    | .ok edited => .ok edited
    | .error _ => .error .notText

end IdiomLint
