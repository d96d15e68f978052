import IdiomLint.Json.Basic
import IdiomLint.Text.Hex

/-!
# Tokens of JSON text

`JsonToken.tokens?` cuts JSON text into punctuation and scalars, white space left out.
-/

namespace IdiomLint

/-- A token of JSON text. -/
inductive JsonToken where
  | openArray
  | closeArray
  | openObject
  | closeObject
  | colon
  | comma
  /-- The text of a string. -/
  | string (s : String)
  /-- A number, a truth value or null. -/
  | scalar (j : Json)

namespace JsonToken

/-- The four blanks that may stand between tokens. -/
def isSpace (c : Char) : Bool := c == ' ' || c == '\n' || c == '\r' || c == '\t'

/-- The number that four hexadecimal digits denote. -/
def unit? (a b c d : Char) : Option Nat := do
  let a ← Hex.value? a
  let b ← Hex.value? b
  let c ← Hex.value? c
  let d ← Hex.value? d
  some (((a * 16 + b) * 16 + c) * 16 + d)

/-- The character that a one-letter escape denotes. -/
def escaped? (c : Char) : Option Char :=
  if c = '"' ∨ c = '\\' ∨ c = '/' then some c
  else if c = 'n' then some '\n'
  else if c = 'r' then some '\r'
  else if c = 't' then some '\t'
  else if c = 'b' then some '\x08'
  else if c = 'f' then some '\x0c'
  else none

/-- The code points and UTF-16 units of a string whose opening quote has been read, and what follows
its closing quote. -/
def stringUnits? : List Char → Option (List Nat × List Char)
  | [] => none
  | '"' :: rest => some ([], rest)
  | '\\' :: 'u' :: a :: b :: c :: d :: rest => do
    let unit ← unit? a b c d
    let (units, tail) ← stringUnits? rest
    some (unit :: units, tail)
  | '\\' :: c :: rest => do
    let e ← escaped? c
    let (units, tail) ← stringUnits? rest
    some (e.toNat :: units, tail)
  | c :: rest =>
    if c.toNat < 0x20 then none
    else do
      let (units, tail) ← stringUnits? rest
      some (c.toNat :: units, tail)

/-- Is the number the first half of a surrogate pair? -/
def isLead (n : Nat) : Bool := 0xD800 ≤ n && n < 0xDC00

/-- Is the number the second half of a surrogate pair? -/
def isTrail (n : Nat) : Bool := 0xDC00 ≤ n && n < 0xE000

/-- The characters of code points and UTF-16 units. A surrogate without its other half becomes
U+FFFD. -/
def joinUnits : List Nat → List Char
  | [] => []
  | [n] => [if isLead n || isTrail n then '\uFFFD' else Char.ofNat n]
  | n :: m :: rest =>
    if isLead n && isTrail m then
      Char.ofNat (0x10000 + (n - 0xD800) * 0x400 + (m - 0xDC00)) :: joinUnits rest
    else (if isLead n || isTrail n then '\uFFFD' else Char.ofNat n) :: joinUnits (m :: rest)

/-- Can the character stand inside a number? -/
def inNumber (c : Char) : Bool := c.isDigit || c == '.' || c == 'e' || c == 'E' || c == '+' || c == '-'

/-- Digits without a superfluous zero. -/
def wholePart? : List Char → Option (List Char × List Char)
  | [] => none
  | '0' :: rest => some (['0'], rest)
  | c :: rest => if c.isDigit then some ((c :: rest).span Char.isDigit) else none

/-- Is this what may follow the whole part of a number: a point with digits, then an exponent? -/
def isFraction (cs : List Char) : Bool :=
  let afterPoint : Option (List Char) := match cs with
    | '.' :: rest =>
      match rest.span Char.isDigit with
      | ([], _) => none
      | (_, tail) => some tail
    | cs => some cs
  match afterPoint with
  | none => false
  | some [] => true
  | some (c :: rest) =>
    let digits := match rest with
      | '+' :: r => r
      | '-' :: r => r
      | r => r
    (c == 'e' || c == 'E') && !digits.isEmpty && digits.all Char.isDigit

/-- The number that a text denotes: an integer, unless it has a point or an exponent. -/
def number? (cs : List Char) : Option Json := do
  let unsigned := match cs with
    | '-' :: rest => rest
    | cs => cs
  let (_, tail) ← wholePart? unsigned
  if tail.isEmpty then (Integer.signed? (.fixed 10) cs).map .int
  else if isFraction tail then (Binary64.ofText? (String.ofList cs)).map .float
  else none

/-- What follows a given beginning. -/
def after? : List Char → List Char → Option (List Char)
  | [], cs => some cs
  | w :: ws, c :: cs => if w = c then after? ws cs else none
  | _ :: _, [] => none

/-- The words that stand for values. -/
def words : List (List Char × Json) :=
  [("null".toList, .null), ("true".toList, .bool true), ("false".toList, .bool false),
    ("NaN".toList, .float .nan), ("Infinity".toList, .float (.infinity false)),
    ("-Infinity".toList, .float (.infinity true))]

/-- The word at the front. -/
def word? (cs : List Char) : List (List Char × Json) → Option (JsonToken × List Char)
  | [] => none
  | (w, j) :: rest =>
    match after? w cs with
    | some tail => some (.scalar j, tail)
    | none => word? cs rest

/-- The token at the front of a text that does not begin with a blank. -/
def front? : List Char → Option (JsonToken × List Char)
  | [] => none
  | '[' :: rest => some (.openArray, rest)
  | ']' :: rest => some (.closeArray, rest)
  | '\x7b' :: rest => some (.openObject, rest)
  | '\x7d' :: rest => some (.closeObject, rest)
  | ':' :: rest => some (.colon, rest)
  | ',' :: rest => some (.comma, rest)
  | '"' :: rest => (stringUnits? rest).map fun (units, tail) =>
    (.string (String.ofList (joinUnits units)), tail)
  | cs =>
    match word? cs words with
    | some found => some found
    | none =>
      let (digits, tail) := cs.span inNumber
      (number? digits).map fun j => (.scalar j, tail)

/-- The tokens of a text. The first argument is a bound on their number; the length of the text is
one, as a token takes at least one character. -/
def tokensWithin? : Nat → List Char → Option (List JsonToken)
  | _, [] => some []
  | 0, _ :: _ => none
  | fuel + 1, c :: rest =>
    if isSpace c then tokensWithin? fuel rest
    else do
      let (t, tail) ← front? (c :: rest)
      let ts ← tokensWithin? fuel tail
      some (t :: ts)

/-- The tokens of a text; nothing if it is no sequence of tokens. -/
def tokens? (cs : List Char) : Option (List JsonToken) := tokensWithin? cs.length cs

end JsonToken

end IdiomLint
