import IdiomLint.Pattern.Token

/-!
# Reading pattern text

    (type p ...)   node of a kind whose children match
    _              anything, an absent node included
    ...            the remaining children, zero or more
    nil            an absent node
    :name          a name
    42, -1         an integer
    "text"         a text
    {p q ...}      the first alternative that matches
    $p             capture, named by its number among those without a name, from 0
    $name=p        capture with a name
    #name          another pattern
    type           node of a kind with any children

`Pattern.read` works through the tokens once, with the enclosing patterns that are still open on a
stack; every node, alternation and capture is checked as soon as it is complete.
-/

namespace IdiomLint.Pattern

/-- A pattern that is not complete yet, with the parts read so far in reverse. -/
inductive Frame where
  | node (kind : String) (children : List Pattern)
  | oneOf (alternatives : List Pattern)
  | capture (name : String)

/-- Put a complete pattern where the innermost open one expects it. Captures are complete with it
and are closed in turn. What comes out is the whole pattern, or the frames that remain open. -/
def deliver (p : Pattern) : List Frame → Except PatternError (Pattern ⊕ List Frame)
  | [] => .ok (.inl p)
  | .capture name :: frames => do
    let captured ← mkCapture name p
    deliver captured frames
  | .node kind children :: frames => .ok (.inr (.node kind (p :: children) :: frames))
  | .oneOf alternatives :: frames => .ok (.inr (.oneOf (p :: alternatives) :: frames))

/-- The integer of a literal. -/
def integer (negative : Bool) (digits : List Nat) : Except PatternError Int :=
  if Integer.overLimit 10 digits then .error .integerTooLong
  else
    let n : Int := Integer.ofDigits 10 digits
    .ok (if negative then -n else n)

/-- The pattern that a single token stands for; nothing for a token that opens or closes. -/
def ofToken? (refs : List (String × Pattern)) : Token → Except PatternError (Option Pattern)
  | .ellipsis => .ok (some .rest)
  | .ref name =>
    match refs.lookup name with
    | some target => .ok (some (.ref name target))
    | none => .error (.unknownReference name)
  | .symbol name => .ok (some (.value (.text name)))
  | .string content => .ok (some (.value (.text content)))
  | .integer negative digits => do
    let n ← integer negative digits
    .ok (some (.value (.int n)))
  | .word name =>
    .ok (some (if name = "_" then .any else if name = "nil" then .value .nil else .ofKind name))
  | _ => .ok none

/-- How a token is spelt that can be out of place. -/
def spelling : Token → String
  | .closeParen => ")"
  | .closeBrace => "\x7d"
  | _ => ""

/-- Close the innermost frame with the token that ends it; nothing if it does not end that frame. -/
def close? : Token → List Frame → Option (Except PatternError Pattern × List Frame)
  | .closeParen, .node kind children :: frames => some (mkNode kind children.reverse, frames)
  | .closeBrace, .oneOf alternatives :: frames => some (mkOneOf alternatives.reverse, frames)
  | _, _ => none

/-- Read tokens with the given frames open and `count` captures without a name so far. -/
def readTokens (source : String) (refs : List (String × Pattern)) :
    List Frame → Nat → List Token → Except PatternError Pattern
  | _, _, [] => .error (.unexpectedEnd source)
  | frames, count, .capture (some name) :: ts =>
    readTokens source refs (.capture name :: frames) count ts
  | frames, count, .capture none :: ts =>
    readTokens source refs (.capture (Integer.decimal count) :: frames) (count + 1) ts
  | frames, count, .openBrace :: ts => readTokens source refs (.oneOf [] :: frames) count ts
  | _, _, [.openParen] => .error (.unexpectedEnd source)
  | frames, count, .openParen :: .word kind :: ts =>
    readTokens source refs (.node kind [] :: frames) count ts
  | _, _, .openParen :: _ :: _ => .error (.expectedKind source)
  | frames, count, token :: ts => do
    let (complete, frames) ← match close? token frames with
      | some (closed, outer) => do
        let p ← closed
        .ok (p, outer)
      | none => do
        match ← ofToken? refs token with
        | some p => .ok (p, frames)
        | none => .error (.unexpectedToken (spelling token) source)
    match ← deliver complete frames with
    | .inl whole => if ts.isEmpty then .ok whole else .error (.trailingInput source)
    | .inr frames => readTokens source refs frames count ts

/-- Read pattern text in which the given patterns can be referred to by name. -/
def read (source : String) (refs : List (String × Pattern)) : Except PatternError Pattern := do
  let tokens ← Token.tokens source
  readTokens source refs [] 0 tokens

end IdiomLint.Pattern
