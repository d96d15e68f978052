import IdiomLint.Number.Integer

/-!
# Integer literals

Underscores may separate digits; `0d` marks decimal digits, `0x`, `0o` and `0b` the other bases, and a
zero before a digit means octal. What is no such literal has no value.
-/

namespace IdiomLint.Ruby

/-- An integer literal without underscores and without its sign. -/
def unsignedLiteral? (cs : List Char) : Option Int :=
  match cs with
  | '0' :: c :: rest =>
    if c = 'd' ∨ c = 'D' then Integer.read? (.fixed 10) rest
    else if Digit.isDecimal c then Integer.read? (.fixed 8) cs
    else Integer.read? .marked cs
  | _ => Integer.read? .marked cs

/-- The value of an integer literal. -/
def integerLiteral? (text : String) : Option Int :=
  match text.toList.filter (· != '_') with
  | '-' :: cs => (unsignedLiteral? cs).map fun n => -n
  | '+' :: cs => unsignedLiteral? cs
  | cs => unsignedLiteral? cs

end IdiomLint.Ruby
