/-!
# Sets of code points

A property of characters is stored as the ascending list of its closed ranges of code points;
`CodePoint.within` asks whether a number lies in one of them.
-/

namespace IdiomLint.CodePoint

/-- A closed range of code points, first and last. -/
abbrev Range := Nat × Nat

/-- Does `n` lie in one of the ranges? The list is ascending, so the search stops at the first range
that ends at `n` or beyond it. -/
def within (n : Nat) : List Range → Bool
  | [] => false
  | (first, last) :: rest => if last < n then within n rest else first ≤ n

/-- The last range that begins at `n` or before it, with the distance of `n` from its beginning. -/
def locate (n : Nat) : List Range → Option (Range × Nat)
  | [] => none
  | (first, last) :: rest =>
    if last < n then locate n rest
    else if first ≤ n then some ((first, last), n - first) else none

end IdiomLint.CodePoint
