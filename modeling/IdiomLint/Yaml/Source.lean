import IdiomLint.Text.Lines
import IdiomLint.Text.Utf8

/-!
# YAML sources

A source is a text as far as it can be read. Text is read in portions, and what is wrong with a portion
is noticed when it is read: so much of the text as lies in the portions before still counts, and a text
that is refused for what it says there is refused for that. `Source.ofBytes` gives the source in the
bytes of a file.
-/

namespace IdiomLint.Yaml

/-- Why a text cannot be read. -/
inductive Fault where
  /-- The text does not follow the rules of YAML. -/
  | invalid
  /-- The bytes are no text. -/
  | notText
  /-- An escape asks for a character that does not exist. -/
  | noSuchCharacter (code : Nat)
  /-- A number has no digits. -/
  | emptyNumber
  /-- A number or a date is out of range, or is none. -/
  | badNumber
  /-- A number is too large to be multiplied with a floating-point number. -/
  | hugeNumber
  /-- A truth value is none of the words for one. -/
  | badTruth
  /-- A date is not written as one. -/
  | badMoment
  /-- A date is written as a mapping. -/
  | momentInMapping
  /-- The text of a scalar is looked for in a circle. -/
  | endless
  deriving DecidableEq

/-- A character that may stand in YAML text. -/
def isPrintable (c : Char) : Bool :=
  let n := c.toNat
  c == '\t' || c == '\n' || c == '\r' || (0x20 ≤ n && n ≤ 0x7E) || n == 0x85 ||
    (0xA0 ≤ n && n ≤ 0xD7FF) || (0xE000 ≤ n && n ≤ 0xFFFD) || 0x10000 ≤ n

/-- A text as far as it can be read. -/
structure Source where
  chars : List Char
  /-- Why nothing can be read after the characters; nothing if the text ends there. -/
  fault : Option Fault := none

namespace Source

/-- How many characters a portion holds. Two portions are read at the beginning. -/
def portion : Nat := 4096

/-- How many characters are read before the portion with the character of a number. -/
def readBefore (n : Nat) : Nat :=
  let whole := n / portion * portion
  if whole < 2 * portion then 0 else whole

/-- A text up to the portion in which a character stands that may not stand in YAML. -/
def ofChars (cs : List Char) (fault : Option Fault) : Source :=
  match cs.findIdx? (!isPrintable ·) with
  | some n => ⟨cs.take (readBefore n), some .invalid⟩
  | none => ⟨cs, fault⟩

/-- How many bytes are decoded at once. -/
def stretch : Nat := 8192

/-- How many bytes are decoded before a fault in them is noticed. A character that is cut off at the end
is noticed after all others are decoded. -/
def decodedBefore (f : Utf8.Fault) : Nat :=
  match f.why with
  | .badStart => f.offset / stretch * stretch
  | .badContinuation => (f.offset + f.bytes.length) / stretch * stretch
  | .truncated => f.offset

/-- The text in the bytes of a file. Every line break is read as a line feed. -/
def ofBytes (bytes : List UInt8) : Source :=
  match Utf8.decode? bytes with
  | .ok text => ofChars (Lines.joinUniversal text.toList) none
  | .error f =>
    -- What has been decoded may still be too little for a whole portion.
    let cs := Lines.joinUniversal (Utf8.soundChars (bytes.take (decodedBefore f)))
    ofChars (cs.take (readBefore cs.length)) (some .notText)

end Source

end IdiomLint.Yaml
