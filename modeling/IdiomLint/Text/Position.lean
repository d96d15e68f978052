import IdiomLint.Text.Utf8

/-!
# Places in a text

A byte offset is shown as a line, counted from 1, and a column in it. Reports count columns in bytes
from 0, messages for people count characters from 1. Offsets outside the text count as its ends.
-/

namespace IdiomLint

/-- A line and a column. -/
structure Position where
  line : Nat
  column : Nat
  deriving DecidableEq

namespace Position

/-- The byte that ends a line. -/
def newline : UInt8 := 10

/-- An offset moved into a text of `size` bytes. -/
def clamp (offset : Int) (size : Nat) : Nat := min offset.toNat size

/-- The items after the last one that satisfies `p`. -/
def afterLast {α : Type} (p : α → Bool) (items : List α) : List α :=
  (items.reverse.takeWhile (!p ·)).reverse

/-- The line of an offset. -/
def lineAt (bytes : List UInt8) (offset : Int) : Nat :=
  (bytes.take offset.toNat).count newline + 1

/-- The place of an offset, its column counted in bytes from 0. -/
def inBytes (bytes : List UInt8) (offset : Int) : Position :=
  let before := bytes.take (clamp offset bytes.length)
  ⟨before.count newline + 1, (afterLast (· == newline) before).length⟩

/-- The place of an offset, its column counted in characters from 1. A character that the offset cuts
apart is not counted. -/
def inCharacters (bytes : List UInt8) (offset : Int) : Position :=
  let before := Utf8.soundChars (bytes.take (clamp offset bytes.length))
  ⟨before.count '\n' + 1, (afterLast (· == '\n') before).length + 1⟩

end Position

/-- A stretch of a text by its places. -/
structure PositionRange where
  first : Position
  last : Position
  deriving DecidableEq

/-- The stretch between two offsets, its columns counted in bytes. -/
def PositionRange.ofBytes (bytes : List UInt8) (start stop : Int) : PositionRange :=
  ⟨Position.inBytes bytes start, Position.inBytes bytes stop⟩

end IdiomLint
