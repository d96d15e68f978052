import IdiomLint.Number.Instances

/-!
# Floating-point numbers

A binary floating-point number of 64 bits is kept as its bit pattern, so that two numbers are one
value exactly when their bits agree. A finite number is `m · 2 ^ e` with `m < 2 ^ 53` (`scale`), and
`ofRatio` rounds a quotient to the nearest number, a half going to the even neighbour. All
arithmetic is on `Nat` and `Int`.
-/

namespace IdiomLint

/-- A 64-bit binary floating-point number. -/
structure Binary64 where
  bits : UInt64
  deriving DecidableEq

namespace Binary64

/-- Is the sign bit set? -/
def negative (x : Binary64) : Bool := x.bits.toNat / 2 ^ 63 == 1

/-- The eleven bits of the exponent. -/
def exponentField (x : Binary64) : Nat := x.bits.toNat / 2 ^ 52 % 2 ^ 11

/-- The fifty-two bits of the fraction. -/
def fraction (x : Binary64) : Nat := x.bits.toNat % 2 ^ 52

/-- Neither infinite nor undefined. -/
def isFinite (x : Binary64) : Bool := x.exponentField != 2047

/-- The undefined number. -/
def isNaN (x : Binary64) : Bool := x.exponentField == 2047 && x.fraction != 0

/-- Put the three fields together. -/
def ofFields (neg : Bool) (exponent fraction : Nat) : Binary64 :=
  ⟨UInt64.ofNat ((if neg then 2 ^ 63 else 0) + exponent * 2 ^ 52 + fraction)⟩

/-- The undefined number that arithmetic yields. -/
def nan : Binary64 := ofFields false 2047 (2 ^ 51)

/-- An undefined number that carries another one. -/
def nanWith (payload : Nat) : Binary64 := ofFields false 2047 (2 ^ 51 + payload % 2 ^ 51)

/-- Infinity of a sign. -/
def infinity (neg : Bool) : Binary64 := ofFields neg 2047 0

/-- Zero of a sign. -/
def zero (neg : Bool) : Binary64 := ofFields neg 0 0

/-- Turn the sign around. -/
def neg (x : Binary64) : Binary64 := ⟨x.bits ^^^ 0x8000000000000000⟩

/-- The magnitude of a finite number as `m · 2 ^ e`. -/
def scale (x : Binary64) : Nat × Int :=
  if x.exponentField = 0 then (x.fraction, -1074)
  else (2 ^ 52 + x.fraction, (x.exponentField : Int) - 1075)

/-- A quotient rounded to the nearest integer, a half to the even one. -/
def roundHalfEven (num den : Nat) : Nat :=
  let q := num / den
  let r := num % den
  if 2 * r < den then q else if den < 2 * r then q + 1 else q + q % 2

/-- `num / den` as `a / b` with the factor `2 ^ k` on the side where it stays integral. -/
def shiftRatio (num den : Nat) (k : Int) : Nat × Nat :=
  if 0 ≤ k then (num * 2 ^ k.toNat, den) else (num, den * 2 ^ (-k).toNat)

/-- The number nearest to `num / den`, with `den` positive. -/
def ofRatio (neg : Bool) (num den : Nat) : Binary64 :=
  if num = 0 then zero neg
  else
    let rough : Int := (Nat.log2 num : Int) - Nat.log2 den - 53
    let (a, b) := shiftRatio num den (-rough)
    let e := max (if a / b < 2 ^ 53 then rough else rough + 1) (-1074)
    let (a, b) := shiftRatio num den (-e)
    let m := roundHalfEven a b
    let pattern := if m < 2 ^ 52 then m else (e + 1075).toNat * 2 ^ 52 + (m - 2 ^ 52)
    if pattern < 2047 * 2 ^ 52 then ofFields neg 0 pattern else infinity neg

/-- The number nearest to `digits · 10 ^ exponent`. Exponents far outside the range are decided
before any power is formed. -/
def ofDecimal (neg : Bool) (digits : Nat) (exponent : Int) : Binary64 :=
  let size : Int := exponent + (Nat.toDigits 10 digits).length
  if digits = 0 then zero neg
  else if 400 < size then infinity neg
  else if size < -400 then zero neg
  else if 0 ≤ exponent then ofRatio neg (digits * 10 ^ exponent.toNat) 1
  else ofRatio neg digits (10 ^ (-exponent).toNat)

/-- The number nearest to an integer. -/
def ofInt (n : Int) : Binary64 := ofRatio (n < 0) n.natAbs 1

/-- How a number compares with an integer; nothing for the undefined number. -/
def compareInt? (x : Binary64) (n : Int) : Option Ordering :=
  if x.isNaN then none
  else if !x.isFinite then some (if x.negative then .lt else .gt)
  else
    let (m, e) := x.scale
    let signed : Int := if x.negative then -(m : Int) else m
    if 0 ≤ e then some (compare (signed * 2 ^ e.toNat) n)
    else some (compare signed (n * 2 ^ (-e).toNat))

/-- Are two numbers equal as numbers? Zeros of either sign are, the undefined number equals none. -/
def same (x y : Binary64) : Bool :=
  !x.isNaN && !y.isNaN && (x.bits == y.bits || (x.bits ||| y.bits) == 0x8000000000000000)

/-- Is the number equal to an integer? -/
def sameInt (x : Binary64) (n : Int) : Bool := x.compareInt? n == some .eq

/-- Is the number an integer? -/
def isIntegral (x : Binary64) : Bool :=
  x.isFinite && (let (m, e) := x.scale; decide (0 ≤ e) || m % 2 ^ (-e).toNat == 0)

end Binary64

end IdiomLint
