/-!
# Powers and sums of integers

A power and a sum are those of the core library wherever they are written. Without these instances their
meaning would depend on the algebra that a module knows of.
-/

namespace IdiomLint

@[default_instance high]
instance naturalPower : Pow Nat Nat := ⟨Nat.pow⟩

instance integerPower : Pow Int Nat := ⟨Int.pow⟩

instance naturalZero : Zero Nat := ⟨0⟩

instance integerZero : Zero Int := ⟨0⟩

end IdiomLint
