import IdiomLint.Number.Instances
import IdiomLint.Text.Blank
import IdiomLint.Text.Digit

/-!
# Integers as text

`decimal` writes an integer, `read?` reads a numeral: blanks around it, one sign, an optional base
mark, digits of any script with single underscores between them. Decimal text is limited to
`digitLimit` digits in both directions.
-/

namespace IdiomLint.Integer

/-- The most digits that decimal text may have. -/
def digitLimit : Nat := 4300

/-- An integer in decimal. -/
def decimal : Int → String
  | .ofNat n => String.ofList (Nat.toDigits 10 n)
  | .negSucc n => String.ofList ('-' :: Nat.toDigits 10 (n + 1))

/-- An integer in decimal, unless it has too many digits. -/
def decimal? (n : Int) : Option String :=
  if n.natAbs < 10 ^ digitLimit then some (decimal n) else none

/-- How the base of a numeral is chosen. -/
inductive Base where
  /-- The base is given; its mark may still stand in front of the digits. -/
  | fixed (base : Nat)
  /-- A mark `0x`, `0o` or `0b` chooses it; without one the numeral is decimal and does not begin
  with a superfluous zero. -/
  | marked
  deriving DecidableEq, Repr

/-- The value of a digit or letter. -/
def digitValue? (c : Char) : Option Nat :=
  if 'a' ≤ c ∧ c ≤ 'z' then some (c.toNat - 'a'.toNat + 10)
  else if 'A' ≤ c ∧ c ≤ 'Z' then some (c.toNat - 'A'.toNat + 10)
  else Digit.value? c

/-- The values of digits in a base, single underscores between two digits left out. -/
def digitValues? (base : Nat) : List Char → Option (List Nat)
  | [] => none
  | [c] => (digitValue? c).bind fun d => if d < base then some [d] else none
  | c :: '_' :: rest => do
    let d ← digitValue? c
    if d < base then (digitValues? base rest).map (d :: ·) else none
  | c :: rest => do
    let d ← digitValue? c
    if d < base then (digitValues? base rest).map (d :: ·) else none

/-- The number that digits denote. -/
def ofDigits (base : Nat) (digits : List Nat) : Nat := digits.foldl (fun n d => n * base + d) 0

/-- Is decimal text of this many digits refused? Bases that are powers of two have no limit. -/
def overLimit (base : Nat) (digits : List Nat) : Bool :=
  !(base == 2 || base == 8 || base == 16) && digitLimit < digits.length

/-- Read digits without sign or mark. -/
def natural? (base : Nat) (cs : List Char) : Option Nat := do
  let digits ← digitValues? base cs
  if overLimit base digits then none else some (ofDigits base digits)

/-- One underscore may follow a base mark. -/
def skipUnderscore : List Char → List Char
  | '_' :: rest => rest
  | cs => cs

/-- The letter that marks a base. -/
def mark? (base : Nat) : Option Char := [(2, 'b'), (8, 'o'), (16, 'x')].lookup base

/-- What follows the mark of a base if one is there. -/
def afterMark (base : Nat) : List Char → List Char
  | '0' :: c :: rest => if mark? base = some c.toLower then skipUnderscore rest else '0' :: c :: rest
  | cs => cs

/-- Read a numeral without sign or surrounding blanks. -/
def unsigned? : Base → List Char → Option Nat
  | .fixed base, cs => natural? base (afterMark base cs)
  | .marked, '0' :: mark :: rest =>
    if mark = 'x' ∨ mark = 'X' then natural? 16 (skipUnderscore rest)
    else if mark = 'o' ∨ mark = 'O' then natural? 8 (skipUnderscore rest)
    else if mark = 'b' ∨ mark = 'B' then natural? 2 (skipUnderscore rest)
    else (natural? 10 ('0' :: mark :: rest)).bind fun n => if n = 0 then some 0 else none
  | .marked, cs => natural? 10 cs

/-- What may surround a numeral: the six ASCII blanks and the white space beyond ASCII. -/
def isMargin (c : Char) : Bool := Blank.isAsciiBlank c || (128 ≤ c.toNat && Blank.isBlank c)

/-- Read a numeral with an optional sign. -/
def signed? (base : Base) : List Char → Option Int
  | '-' :: cs => (unsigned? base cs).map fun n => -(n : Int)
  | '+' :: cs => (unsigned? base cs).map fun n => (n : Int)
  | cs => (unsigned? base cs).map fun n => (n : Int)

/-- Read a numeral, blanks around it ignored. Digits of any script count as the ASCII digits of their
values, in a base mark too. -/
def read? (base : Base) (cs : List Char) : Option Int :=
  signed? base (Blank.trimBoth isMargin (cs.map Digit.toAscii))

end IdiomLint.Integer
