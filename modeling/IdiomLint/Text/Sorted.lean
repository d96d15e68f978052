/-!
# Sorted texts

Texts are ordered by code points.
-/

namespace IdiomLint

/-- Drop items that equal the one before them. -/
def dropRepeats : List String → List String
  | a :: b :: rest => if a == b then dropRepeats (b :: rest) else a :: dropRepeats (b :: rest)
  | short => short

/-- Texts in order. -/
def sortTexts (items : List String) : List String := items.mergeSort fun a b => decide (a ≤ b)

/-- Texts in order, each of them once. -/
def sortDistinct (items : List String) : List String := dropRepeats (sortTexts items)

end IdiomLint
