import IdiomLint.Number.Binary64

/-!
# Sums and products of floating-point numbers

Both are formed exactly and rounded once.
-/

namespace IdiomLint.Binary64

/-- A finite number as a signed integer times a power of two. -/
def signedScale (x : Binary64) : Int × Int :=
  let (m, e) := x.scale
  (if x.negative then -(m : Int) else m, e)

/-- The number nearest to `m · 2 ^ e`. -/
def ofScaled (m e : Int) : Binary64 :=
  if 0 ≤ e then ofRatio (m < 0) (m.natAbs * 2 ^ e.toNat) 1
  else ofRatio (m < 0) m.natAbs (2 ^ (-e).toNat)

/-- The sum of two numbers. Infinities of different signs have none. -/
def add (x y : Binary64) : Binary64 :=
  if x.isNaN || y.isNaN then nan
  else if !x.isFinite then if y.isFinite || x.negative == y.negative then x else nan
  else if !y.isFinite then y
  else
    let (m, e) := x.signedScale
    let (n, f) := y.signedScale
    let low := min e f
    let total := m * 2 ^ (e - low).toNat + n * 2 ^ (f - low).toNat
    if total = 0 then zero (x.negative && y.negative) else ofScaled total low

/-- The product of two numbers. Zero and infinity have none. -/
def mul (x y : Binary64) : Binary64 :=
  let negative := x.negative != y.negative
  if x.isNaN || y.isNaN then nan
  else if !x.isFinite || !y.isFinite then
    if x.sameInt 0 || y.sameInt 0 then nan else infinity negative
  else
    let (m, e) := x.signedScale
    let (n, f) := y.signedScale
    if m * n = 0 then zero negative else ofScaled (m * n) (e + f)

end IdiomLint.Binary64
