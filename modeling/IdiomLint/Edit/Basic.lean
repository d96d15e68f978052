/-!
# Edits

An edit replaces the bytes of a text from `start` up to `stop` by another text; with `start = stop` it
inserts.
-/

namespace IdiomLint

/-- A replacement of a stretch of a text, given in bytes of its UTF-8 form. -/
structure Edit where
  start : Int
  stop : Int
  replacement : String
  deriving DecidableEq

/-- Why edits cannot be applied. -/
inductive EditError where
  /-- The second edit begins before the first one ends. -/
  | conflict (first second : Edit)
  /-- An edit is not inside a text of `size` bytes. -/
  | outside (edit : Edit) (size : Nat)
  /-- An edit cuts a character apart. -/
  | notText
  deriving DecidableEq

namespace EditError

/-- The wording of an error. -/
def message : EditError → String
  | .conflict a b => s!"overlapping edits [{a.start}, {a.stop}) and [{b.start}, {b.stop})"
  | .outside e size => s!"edit [{e.start}, {e.stop}) outside buffer of {size} bytes"
  | .notText => "the edited bytes are not UTF-8"

end EditError

end IdiomLint
