import IdiomLint.Pattern.Match
import IdiomLint.Pattern.Parser

/-!
# Named patterns

A `Matcher` is a pattern read from text, with a name to refer to it. Applied to a value it gives what
the pattern captures, in the order of the text.
-/

namespace IdiomLint

/-- A named pattern and the text it was read from. -/
structure Matcher where
  name : String
  source : String
  pattern : Pattern

/-- What a name in pattern text may refer to. -/
inductive Reference where
  | matcher (m : Matcher)
  | pattern (p : Pattern)

namespace Reference

/-- The pattern that a reference stands for. A bare capture or reference is taken without its outer
layer, as its own captures would not be seen anyway. -/
def target : Reference → Pattern
  | .matcher m => m.pattern
  | .pattern (.capture _ inner) => inner
  | .pattern (.ref _ inner) => inner
  | .pattern p => p

end Reference

/-- The patterns that pattern text can refer to; a later entry takes the place of an earlier one of
the same name. -/
abbrev References := List (String × Reference)

namespace References

/-- The patterns behind the names, the one that counts first. -/
def targets (refs : References) : List (String × Pattern) :=
  refs.reverse.map fun (name, reference) => (name, reference.target)

end References

namespace Matcher

/-- Read the pattern of a matcher. -/
def ofText (name source : String) (refs : References) : Except PatternError Matcher :=
  (Pattern.read source refs.targets).map fun pattern => ⟨name, source, pattern⟩

/-- A name that nothing is bound to. -/
structure Unbound where
  name : String
  deriving DecidableEq

/-- The part bound to a name. -/
def bound (bindings : Bindings) (name : String) : Except Unbound Value :=
  match bindings.get? name with
  | some v => .ok v
  | none => .error ⟨name⟩

/-- What a matcher makes of a value: nothing if the value has another shape, `true` if the pattern captures
nothing, the captured part if it captures one, and otherwise the tuple of all captured parts. The parts are
looked up under the names that the pattern captures. -/
def call (m : Matcher) (v : Value) : Except Unbound (Option Value) :=
  match m.pattern.match? v with
  | none => .ok none
  | some bindings =>
    match m.pattern.captureNames with
    | [] => .ok (some (.bool true))
    | [name] => (bound bindings name).map some
    | names => (names.mapM (bound bindings)).map fun parts => some (.tuple parts)

/-- What a matcher makes of a value, a name that nothing is bound to left aside. -/
def call? (m : Matcher) (v : Value) : Option Value := (m.call v).toOption.join

/-- How a matcher is shown. -/
def display (m : Matcher) : String :=
  s!"NodeMatcher({Quoted.quoted m.name}, {Quoted.quoted m.source})"

end Matcher

end IdiomLint
