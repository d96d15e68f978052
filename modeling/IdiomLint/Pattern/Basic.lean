import IdiomLint.Syntax.Value
import IdiomLint.Text.Quoted

/-!
# Patterns

A pattern describes the shape of a value of a syntax tree and names parts of it. The constructors of
`Pattern` can be put together in ways that mean nothing, such as a `rest` in the middle of a node;
the checked constructors `Pattern.mkCapture`, `Pattern.mkNode` and `Pattern.mkOneOf` refuse those, so that
in a pattern made with them every name is captured once and every alternative captures the same
names.
-/

namespace IdiomLint

/-- The shape of a value. -/
inductive Pattern where
  /-- Whatever stands there, `nil` included. -/
  | any
  /-- The remaining children of a node, however many. -/
  | rest
  /-- A literal of the same sort that is equal. -/
  | value (v : Value)
  /-- Whatever another pattern matches; that pattern's captures stay its own. -/
  | ref (name : String) (target : Pattern)
  /-- What a pattern matches, under a name. -/
  | capture (name : String) (inner : Pattern)
  /-- A node of a kind whose children match one by one. -/
  | node (kind : String) (children : List Pattern)
  /-- The first of several patterns that matches. -/
  | oneOf (alternatives : List Pattern)
  /-- No value at all. -/
  | never

/-- What is wrong with a pattern or with its text. -/
inductive PatternError where
  | unexpectedCharacter (c : Char) (offset : Nat)
  | unexpectedEnd (source : String)
  | expectedKind (source : String)
  | unexpectedToken (token source : String)
  | trailingInput (source : String)
  | unknownReference (name : String)
  | restNotLast (kind : String)
  | restAlternative
  | noAlternative
  | unequalCaptures
  | duplicateCapture (name : String)
  /-- An integer has more digits than decimal text may have. -/
  | integerTooLong
  deriving DecidableEq

namespace PatternError

/-- The wording of an error. -/
def message : PatternError → String
  | .unexpectedCharacter c offset =>
    let shown := Quoted.quoted (String.singleton c)
    s!"unexpected character {shown} at offset {offset}"
  | .unexpectedEnd source => s!"unexpected end of pattern: {Quoted.quoted source}"
  | .expectedKind source => s!"expected node type after '(' in {Quoted.quoted source}"
  | .unexpectedToken token source =>
    s!"unexpected {Quoted.quoted token} in pattern {Quoted.quoted source}"
  | .trailingInput source => s!"trailing input in pattern: {Quoted.quoted source}"
  | .unknownReference name => s!"unknown pattern reference '#{name}'"
  | .restNotLast kind => s!"'...' must be the last child of ({kind} ...)"
  | .restAlternative => "'...' cannot be an alternative"
  | .noAlternative => "empty alternation"
  | .unequalCaptures => "all alternatives must capture the same names"
  | .duplicateCapture name => s!"duplicate capture name '{name}'"
  | .integerTooLong => "integer has too many digits"

/-- Is it an error of pattern syntax? That an integer cannot be read has nothing to do with patterns. -/
def isSyntax : PatternError → Bool
  | .integerTooLong => false
  | _ => true

end PatternError

namespace Pattern

/-- Does the pattern stand for the remaining children, under a name or without one? -/
def isRest : Pattern → Bool
  | .rest => true
  | .capture _ .rest => true
  | _ => false

mutual

/-- The names that a pattern captures, in the order of the text. An alternation captures the names
of its first alternative, a reference none. -/
def captureNames : Pattern → List String
  | .capture name inner => name :: captureNames inner
  | .node _ children => captureNamesAll children
  | .oneOf (first :: _) => captureNames first
  | _ => []

/-- The names that the patterns of a list capture, one pattern after the other. -/
def captureNamesAll : List Pattern → List String
  | [] => []
  | p :: ps => captureNames p ++ captureNamesAll ps

end

/-- The first name that stands in a list a second time. -/
def firstRepeated? (seen : List String) : List String → Option String
  | [] => none
  | name :: names => if seen.contains name then some name else firstRepeated? (name :: seen) names

/-- Does a `rest` stand before the last child? -/
def restBeforeLast : List Pattern → Bool
  | [] => false
  | [_] => false
  | p :: ps => p.isRest || restBeforeLast ps

/-- Do two lists hold the same names? -/
def sameNames (a b : List String) : Bool := a.all b.contains && b.all a.contains

/-- Capture what a pattern matches, under a name that it does not capture itself. -/
def mkCapture (name : String) (inner : Pattern) : Except PatternError Pattern :=
  if inner.captureNames.contains name then .error (.duplicateCapture name)
  else .ok (.capture name inner)

/-- A node whose children capture different names, with a `rest` at most at the end. -/
def mkNode (kind : String) (children : List Pattern) : Except PatternError Pattern :=
  if restBeforeLast children then .error (.restNotLast kind)
  else
    match firstRepeated? [] (captureNamesAll children) with
    | some name => .error (.duplicateCapture name)
    | none => .ok (.node kind children)

/-- Check the alternatives one after the other against the names that the first one captures. -/
def checkAlternatives (expected : List String) : List Pattern → Except PatternError Unit
  | [] => .ok ()
  | p :: ps =>
    if p.isRest then .error .restAlternative
    else if sameNames p.captureNames expected then checkAlternatives expected ps
    else .error .unequalCaptures

/-- An alternation of at least one pattern, all of which capture the same names. -/
def mkOneOf (alternatives : List Pattern) : Except PatternError Pattern :=
  match alternatives with
  | [] => .error .noAlternative
  | first :: _ => do
    checkAlternatives first.captureNames alternatives
    .ok (.oneOf alternatives)

/-- A node of a kind with any children. -/
def ofKind (kind : String) : Pattern := .node kind [.rest]

end Pattern

end IdiomLint
