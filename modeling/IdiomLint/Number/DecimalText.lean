import IdiomLint.Number.Binary64
import IdiomLint.Number.Integer

/-!
# Floating-point numbers as decimal text

`shortest` finds the fewest digits that read back as a number, and among those the nearest; a tie goes
to the even digit. `text` lays them out: positional while the decimal exponent is at least -4 and
below 16, otherwise with an exponent of at least two digits. `fixedOne` writes exactly one decimal
place. `ofText?` reads a decimal numeral.
-/

namespace IdiomLint.Binary64

/-- Compare `a · 10 ^ p` with `m · 2 ^ e`. -/
def compareDecimal (a : Nat) (p : Int) (m : Nat) (e : Int) : Ordering :=
  compare (a * 10 ^ p.toNat * 2 ^ (-e).toNat) (m * 2 ^ e.toNat * 10 ^ (-p).toNat)

/-- The largest integer `k` below `guess + fuel` with `10 ^ k ≤ m · 2 ^ e`, searched downwards. -/
def decimalExponentFrom : Nat → Int → Nat → Int → Int
  | 0, guess, _, _ => guess
  | fuel + 1, guess, m, e =>
    if compareDecimal 1 guess m e == .gt then decimalExponentFrom fuel (guess - 1) m e else guess

/-- The exponent of the first decimal digit of `m · 2 ^ e`, for positive `m`. The binary logarithm
times 0.30103 is at most two above it. -/
def decimalExponent (m : Nat) (e : Int) : Int :=
  decimalExponentFrom 4 (Int.fdiv (((Nat.log2 m : Int) + 1 + e) * 30103) 100000 + 1) m e

/-- The decimals `a · 10 ^ p` that read back as `m · 2 ^ e`: those between the midpoints to its two
neighbours, the midpoints themselves included when `m` is even. Below a power of two the neighbour
is only half as far away. -/
def readsBack (m : Nat) (e : Int) (a : Nat) (p : Int) : Bool :=
  let below := if m = 2 ^ 52 ∧ -1074 < e then compareDecimal a p (4 * m - 1) (e - 2)
    else compareDecimal a p (2 * m - 1) (e - 1)
  let above := compareDecimal a p (2 * m + 1) (e - 1)
  (below == .gt || (below == .eq && m % 2 == 0)) && (above == .lt || (above == .eq && m % 2 == 0))

/-- On the grid of multiples of `10 ^ p`, the neighbour of `m · 2 ^ e` that reads back, the nearer
one if both do. -/
def onGrid (m : Nat) (e p : Int) : Option Nat :=
  let num := m * 2 ^ e.toNat * 10 ^ (-p).toNat
  let den := 2 ^ (-e).toNat * 10 ^ p.toNat
  let q := num / den
  let r := num % den
  match readsBack m e q p, readsBack m e (q + 1) p with
  | true, true => some (if 2 * r < den then q else if den < 2 * r then q + 1 else q + q % 2)
  | true, false => some q
  | false, true => some (q + 1)
  | false, false => none

/-- Try grids of more and more digits. -/
def shortestFrom (m : Nat) (e first : Int) : Nat → Nat → Nat × Int
  | 0, _ => (m, e)
  | fuel + 1, count =>
    let p := first - count + 1
    match onGrid m e p with
    | some a => (a, p)
    | none => shortestFrom m e first fuel (count + 1)

/-- The digits and exponent of the shortest decimal that reads back as `m · 2 ^ e`. -/
def shortest (m : Nat) (e : Int) : Nat × Int := shortestFrom m e (decimalExponent m e) 17 1

/-- Split trailing zeros off a list of digits. -/
def dropTrailingZeros (digits : List Char) : List Char :=
  (digits.reverse.dropWhile (· == '0')).reverse

/-- Lay out digits whose first one has the decimal exponent `first`. -/
def layout (digits : List Char) (first : Int) : List Char :=
  let count := digits.length
  if first < -4 ∨ 16 ≤ first then
    let tail := digits.drop 1
    let mark := if first < 0 then '-' else '+'
    let power := Nat.toDigits 10 first.natAbs
    digits.take 1 ++ (if tail.isEmpty then [] else '.' :: tail) ++
      ('e' :: mark :: (if power.length < 2 then '0' :: power else power))
  else if first < 0 then
    '0' :: '.' :: List.replicate (-first - 1).toNat '0' ++ digits
  else
    let whole := first.toNat + 1
    if count ≤ whole then digits ++ List.replicate (whole - count) '0' ++ ['.', '0']
    else digits.take whole ++ '.' :: digits.drop whole

/-- The shortest decimal text that reads back as the number. -/
def text (x : Binary64) : String :=
  if x.isNaN then "nan"
  else
    let sign := if x.negative then ['-'] else []
    if !x.isFinite then String.ofList (sign ++ "inf".toList)
    else
      let (m, e) := x.scale
      if m = 0 then String.ofList (sign ++ "0.0".toList)
      else
        let (a, p) := shortest m e
        let all := Nat.toDigits 10 a
        String.ofList (sign ++ layout (dropTrailingZeros all) (p + all.length - 1))

/-- The number with exactly one decimal place; the exact binary value is rounded, a half to the even
digit. -/
def fixedOne (x : Binary64) : String :=
  if x.isNaN then "nan"
  else
    let sign := if x.negative then ['-'] else []
    if !x.isFinite then String.ofList (sign ++ "inf".toList)
    else
      let (m, e) := x.scale
      let tenths := roundHalfEven (m * 10 * 2 ^ e.toNat) (2 ^ (-e).toNat)
      String.ofList (sign ++ Nat.toDigits 10 (tenths / 10) ++ ['.'] ++ Nat.toDigits 10 (tenths % 10))

/-- The leading decimal digits of a text, as values, and what follows them. -/
def spanDigits : List Char → List Nat × List Char
  | [] => ([], [])
  | c :: rest =>
    match Digit.value? c with
    | some d => let (ds, tail) := spanDigits rest; (d :: ds, tail)
    | none => ([], c :: rest)

/-- Read what may follow the digits: nothing, or `e` and a signed exponent. -/
def exponent? : List Char → Option Int
  | [] => some 0
  | c :: rest =>
    if c = 'e' ∨ c = 'E' then
      let (neg, rest) := match rest with
        | '-' :: r => (true, r)
        | '+' :: r => (false, r)
        | r => (false, r)
      match spanDigits rest with
      | (d :: ds, []) =>
        let n : Int := Integer.ofDigits 10 (d :: ds)
        some (if neg then -n else n)
      | _ => none
    else none

/-- Do two texts agree up to the case of ASCII letters? -/
def equalUpToCase (cs : List Char) (s : String) : Bool := cs.map Char.toLower == s.toList

/-- Read a decimal numeral without sign: digits with at most one point, and an optional exponent; or
a name of infinity or of the undefined number. -/
def unsigned? (neg : Bool) (cs : List Char) : Option Binary64 :=
  if equalUpToCase cs "inf" || equalUpToCase cs "infinity" then some (infinity neg)
  else if equalUpToCase cs "nan" then some (if neg then Binary64.neg nan else nan)
  else
    let (whole, rest) := spanDigits cs
    let (fractional, rest) := match rest with
      | '.' :: r => spanDigits r
      | r => ([], r)
    if whole.isEmpty && fractional.isEmpty then none
    else (exponent? rest).map fun e =>
      ofDecimal neg (Integer.ofDigits 10 (whole ++ fractional)) (e - fractional.length)

/-- Read a decimal numeral, blanks around it ignored. -/
def ofText? (s : String) : Option Binary64 :=
  match Blank.trimBoth Integer.isMargin s.toList with
  | '-' :: cs => unsigned? true cs
  | '+' :: cs => unsigned? false cs
  | cs => unsigned? false cs

end IdiomLint.Binary64
