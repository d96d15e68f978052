import IdiomLint.Number.Sum
import IdiomLint.Text.Base64
import IdiomLint.Yaml.Moment

/-!
# The meaning of scalars

The sort of a plain scalar follows from its text; the sort of any scalar can be given by a tag.
-/

namespace IdiomLint.Yaml

/-- The sort of a node. -/
inductive Kind where
  | null
  | bool
  | int
  | float
  | text
  | bytes
  | moment
  /-- The key that merges other tables into a table. -/
  | merge
  /-- The key whose value stands for a table. -/
  | default
  | list
  /-- A list of pairs, written as a sequence of mappings with one entry each. -/
  | pairs
  /-- A set, written as a mapping of its items to nothing. -/
  | set
  | table
  /-- A sort that cannot be read. -/
  | other
  deriving DecidableEq

/-- The sort that a tag names. -/
def Kind.ofTag (tag : String) : Kind :=
  ([("null", Kind.null), ("bool", .bool), ("int", .int), ("float", .float), ("str", .text),
    ("binary", .bytes), ("timestamp", .moment), ("merge", .merge), ("value", .default), ("seq", .list),
    ("omap", .pairs), ("pairs", .pairs), ("set", .set), ("map", .table)].lookup
      ((tag.dropPrefix? "tag:yaml.org,2002:").map (·.copy) |>.getD "")).getD .other

namespace Scalar

/-! ## Plain scalars -/

/-- The words for nothing. -/
def nullWords : List String := ["~", "null", "Null", "NULL", ""]

/-- The words for truth values. -/
def truthWords : List String :=
  ["yes", "Yes", "YES", "no", "No", "NO", "true", "True", "TRUE", "false", "False", "FALSE",
    "on", "On", "ON", "off", "Off", "OFF"]

/-- Is a list not empty, and does each of its characters pass a test? -/
def allOf (p : Char → Bool) (cs : List Char) : Bool := !cs.isEmpty && cs.all p

/-- A digit or an underscore. -/
def isDigitOrLow (c : Char) : Bool := c.isDigit || c == '_'

/-- What follows a sign, or everything if there is none. -/
def afterSign : List Char → List Char
  | '+' :: rest => rest
  | '-' :: rest => rest
  | cs => cs

/-- The pieces between colons. -/
def colonPieces : List Char → List (List Char)
  | [] => [[]]
  | c :: rest =>
    if c = ':' then [] :: colonPieces rest
    else
      match colonPieces rest with
      | [] => [[c]]
      | piece :: pieces => (c :: piece) :: pieces

/-- A number of minutes or seconds: one digit, or two of which the first is at most five. -/
def isSixtieth : List Char → Bool
  | [c] => c.isDigit
  | [a, b] => a.isDigit && a ≤ '5' && b.isDigit
  | _ => false

/-- Digits and underscores, the first one being a digit. -/
def isNumeral : List Char → Bool
  | c :: rest => c.isDigit && rest.all isDigitOrLow
  | [] => false

/-- Is a text an integer: binary, octal, decimal, hexadecimal, or sixtieths between colons? -/
def isInteger (cs : List Char) : Bool :=
  match afterSign cs with
  | '0' :: 'b' :: rest => allOf (fun c => c == '0' || c == '1' || c == '_') rest
  | '0' :: 'x' :: rest => allOf (fun c => (Hex.value? c).isSome || c == '_') rest
  | ['0'] => true
  | '0' :: rest => allOf (fun c => ('0' ≤ c && c ≤ '7') || c == '_') rest
  | cs =>
    match colonPieces cs with
    | first :: more => isNumeral first && more.all isSixtieth
    | [] => false

/-- Is a text an exponent with its sign, or nothing? -/
def isExponent : List Char → Bool
  | [] => true
  | e :: sign :: digits =>
    (e == 'e' || e == 'E') && (sign == '+' || sign == '-') && allOf Char.isDigit digits
  | _ => false

/-- Is a text a number with a point, and perhaps an exponent? -/
def isPointed (cs : List Char) : Bool :=
  match cs with
  | '.' :: c :: rest => c.isDigit && isExponent (rest.dropWhile isDigitOrLow)
  | _ =>
    let cs := afterSign cs
    isNumeral (cs.takeWhile isDigitOrLow) &&
      match cs.dropWhile isDigitOrLow with
      | '.' :: rest => isExponent (rest.dropWhile isDigitOrLow)
      | _ => false

/-- Is a text a number of sixtieths with a point at its end? -/
def isPointedSixtieths (cs : List Char) : Bool :=
  let cs := afterSign cs
  match cs.dropWhile (· != '.') with
  | '.' :: rest =>
    rest.all isDigitOrLow &&
      match colonPieces (cs.takeWhile (· != '.')) with
      | first :: second :: more => isNumeral first && isSixtieth second && more.all isSixtieth
      | _ => false
  | _ => false

/-- Is a text a floating-point number? -/
def isFloat (cs : List Char) : Bool :=
  isPointed cs || isPointedSixtieths cs ||
    [".inf", ".Inf", ".INF"].contains (String.ofList (afterSign cs)) ||
    [".nan", ".NaN", ".NAN"].contains (String.ofList cs)

/-- The sort of a plain scalar. A line feed at its end does not count, unless it is all there is. -/
def kindOf (text : String) : Kind :=
  let cs := if text == "\n" then ['\n'] else Moment.withoutNewline text.toList
  let text := String.ofList cs
  if truthWords.contains text then .bool
  else if isFloat cs then .float
  else if isInteger cs then .int
  else if text == "<<" then .merge
  else if nullWords.contains text then .null
  else if Moment.isMoment cs then .moment
  else if text == "=" then .default
  else if ["!", "&", "*"].contains text then .other
  else .text

/-! ## Values -/

/-- A text without underscores. -/
def withoutLows (text : String) : List Char := text.toList.filter (· != '_')

/-- The sign of a number and what follows it. -/
def signed : List Char → Except Fault (Bool × List Char)
  | [] => .error .emptyNumber
  | '-' :: rest => .ok (true, rest)
  | '+' :: rest => .ok (false, rest)
  | cs => .ok (false, cs)

/-- A number in a base. -/
def integerIn (base : Nat) (cs : List Char) : Except Fault Int :=
  match Integer.read? (.fixed base) cs with
  | some n => .ok n
  | none => .error .badNumber

/-- Numbers of sixtieths put together. -/
def sixtieths (ns : List Int) : Int := ns.foldl (fun total n => total * 60 + n) 0

/-- The size of an integer, its sign aside. -/
def magnitude (cs : List Char) : Except Fault Int :=
  match cs with
  | [] => .error .emptyNumber
  | ['0'] => .ok 0
  | '0' :: 'b' :: rest => integerIn 2 rest
  | '0' :: 'x' :: rest => integerIn 16 rest
  | '0' :: rest => integerIn 8 ('0' :: rest)
  | _ => do return sixtieths (← (colonPieces cs).mapM (integerIn 10))

/-- The integer that a text denotes. -/
def integer (text : String) : Except Fault Int := do
  let (negative, cs) ← signed (withoutLows text)
  let n ← magnitude cs
  return if negative then -n else n

/-- A floating-point number in decimal notation. -/
def decimal (cs : List Char) : Except Fault Binary64 :=
  match Binary64.ofText? (String.ofList cs) with
  | some x => .ok x
  | none => .error .badNumber

/-- Numbers of sixtieths put together, the last one first. -/
def floatSixtieths : Nat → Binary64 → List Binary64 → Except Fault Binary64
  | _, total, [] => .ok total
  | base, total, x :: rest =>
    let factor := Binary64.ofInt base
    if factor.isFinite then floatSixtieths (base * 60) (total.add (x.mul factor)) rest
    else .error .hugeNumber

/-- The floating-point number that a text other than `.nan` denotes, its sign aside. -/
def floatMagnitude (cs : List Char) : Except Fault Binary64 := do
  if cs == ".inf".toList then return Binary64.infinity false
  if cs.contains ':' then
    floatSixtieths 1 (Binary64.zero false) (← (colonPieces cs).mapM decimal).reverse
  else decimal cs

/-- The floating-point number that a text denotes. An undefined number is always the same one if it is
written `.nan`, and carries a given number if it is not. -/
def float (payload : Nat) (text : String) : Except Fault Binary64 := do
  let (negative, cs) ← signed ((withoutLows text).map Char.toLower)
  if cs == ".nan".toList then return Binary64.nan
  let x ← floatMagnitude cs
  return if x.isNaN then Binary64.nanWith payload else if negative then x.neg else x

/-- The truth value that a text denotes, case aside. -/
def truth (text : String) : Except Fault Bool :=
  let word := String.ofList (text.toList.map Char.toLower)
  if ["yes", "true", "on"].contains word then .ok true
  else if ["no", "false", "off"].contains word then .ok false
  else .error .badTruth

/-- The bytes that a text denotes. -/
def bytes (text : String) : Except Fault (List UInt8) :=
  if text.toList.all fun c => c.toNat < 128 then
    match Base64.decode? text.toList with
    | some bs => .ok bs
    | none => .error .invalid
  else .error .invalid

/-- The datum that a scalar of some sort denotes. Undefined numbers carry a given number. -/
def datum (kind : Kind) (payload : Nat) (text : String) : Except Fault Datum :=
  match kind with
  | .null => .ok .null
  | .bool => (truth text).map .bool
  | .int => (integer text).map .int
  | .float => (float payload text).map .float
  | .text => .ok (.text text)
  | .bytes => (bytes text).map .bytes
  | .moment => (Moment.ofText text).map .moment
  | .merge | .default | .list | .pairs | .set | .table | .other => .error .invalid

end Scalar

end IdiomLint.Yaml
