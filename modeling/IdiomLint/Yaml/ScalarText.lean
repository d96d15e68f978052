import IdiomLint.Text.Hex
import IdiomLint.Yaml.Cursor

/-!
# The text of scalars

A scalar is written plainly, between quotes, or as a block of indented lines. All but some blocks fold
their lines: a single line break counts as a space, of several the first is dropped.
-/

namespace IdiomLint.Yaml

open Reading

/-- A line break and the empty lines after it, folded. -/
def foldBreaks (first : Char) (more : List Char) : List Char :=
  if first ≠ '\n' then first :: more else if more.isEmpty then [' '] else more

/-! ## Quoted scalars -/

/-- The character that a letter after a backslash stands for. -/
def escape? (c : Char) : Option Char :=
  [('0', '\x00'), ('a', '\x07'), ('b', '\x08'), ('t', '\t'), ('\t', '\t'), ('n', '\n'),
    ('v', '\x0b'), ('f', '\x0c'), ('r', '\r'), ('e', '\x1b'), (' ', ' '), ('"', '"'),
    ('\\', '\\'), ('/', '/'), ('N', '\u0085'), ('_', '\u00a0'), ('L', '\u2028'),
    ('P', '\u2029')].lookup c

/-- How many hexadecimal digits follow a letter after a backslash. -/
def codeLength? (c : Char) : Option Nat := [('x', 2), ('u', 4), ('U', 8)].lookup c

/-- The number that some hexadecimal digits write, the first of them so many places further. -/
def code (start length : Nat) : Reading Nat :=
  (List.range length).foldlM (fun n k => do
    match (← peekAt (start + k)).bind Hex.value? with
    | some digit => return n * 16 + digit
    | none => refuse) 0

/-- The second half of a character in UTF-16, if an escape for one stands here. -/
def lowHalf? : Reading (Option Nat) := do
  if (← peek) == some '\\' && (← peekAt 1) == some 'u' then
    let n ← code 2 4
    return if 0xDC00 ≤ n && n ≤ 0xDFFF then some n else none
  else return none

/-- A character given by its number. Two numbers that are the halves of a character in UTF-16 give that
character; half of one alone gives U+FFFD. -/
def coded (length : Nat) : Reading Char := do
  let n ← code 0 length
  if 0x110000 ≤ n then throw (.noSuchCharacter n)
  skip length
  if n.isValidChar then return Char.ofNat n
  if 0xDC00 ≤ n then return '\uFFFD'
  match ← lowHalf? with
  | some low =>
    skip 6
    return Char.ofNat (0x10000 + (n - 0xD800) * 0x400 + (low - 0xDC00))
  | none => return '\uFFFD'

/-- The empty lines inside a quoted scalar after a line break. No document may end there. The argument
is a bound on the number of lines. -/
def emptyLines : Nat → Reading (List Char)
  | 0 => refuse
  | fuel + 1 => do
    if ← atSeparator then refuse
    dropWhile isBlank
    match ← lineBreak? with
    | none => return []
    | some b => return b :: (← emptyLines fuel)

/-- What a backslash stands for that has been passed. -/
def escaped : Reading (List Char) := do
  match ← peek with
  | none => refuse
  | some ch =>
    match escape? ch, codeLength? ch with
    | some replacement, _ =>
      skip 1
      return [replacement]
    | none, some length =>
      skip 1
      return [← coded length]
    | none, none =>
      if (← lineBreak?).isNone then refuse
      emptyLines (← bound)

/-- A character of a quoted scalar that stands for itself between either quotes. -/
def isOrdinary (c : Char) : Bool :=
  !(c == '\'' || c == '"' || c == '\\' || isBlank c || isBreak c)

/-- What a quote or a backslash stands for; nothing where a part of a quoted scalar ends. -/
def quotedMark (double : Bool) : Reading (Option (List Char)) := do
  match ← peek, double with
  | some '\\', true =>
    skip 1
    return some (← escaped)
  | some '\'', false =>
    if (← peekAt 1) == some '\'' then
      skip 2
      return some ['\'']
    else return none
  | some '\'', true =>
    skip 1
    return some ['\'']
  | some '"', false =>
    skip 1
    return some ['"']
  | some '\\', false =>
    skip 1
    return some ['\\']
  | _, _ => return none

/-- The part of a quoted scalar up to white space, the closing quote or the end of the text. -/
def quotedRun (double : Bool) : Nat → Reading (List Char)
  | 0 => refuse
  | fuel + 1 => do
    let front ← takeWhile isOrdinary
    match ← quotedMark double with
    | none => return front
    | some cs => return front ++ cs ++ (← quotedRun double fuel)

/-- White space inside a quoted scalar. It is kept within a line and folded at its end. -/
def quotedSpace : Reading (List Char) := do
  let white ← takeWhile isBlank
  if (← peek).isNone then refuse
  match ← lineBreak? with
  | some b => return foldBreaks b (← emptyLines (← bound))
  | none => return white

/-- A quoted scalar up to its closing quote. -/
def quotedFrom (double : Bool) : Nat → Reading (List Char)
  | 0 => refuse
  | fuel + 1 => do
    let run ← quotedRun double (← bound)
    if (← peek) == some (if double then '"' else '\'') then
      skip 1
      return run
    let space ← quotedSpace
    return run ++ space ++ (← quotedFrom double fuel)

/-- A quoted scalar, beginning with its opening quote. -/
def quotedScalar (double : Bool) : Reading (List Char) := do
  skip 1
  quotedFrom double (← bound)

/-! ## Plain scalars -/

/-- A bracket or comma of flow collections. -/
def isFlowMark (c : Char) : Bool :=
  c == ',' || c == '[' || c == ']' || c == '\x7b' || c == '\x7d'

/-- The part of a plain scalar up to white space, a colon that ends a key, or, in a flow collection,
one of its marks. -/
def plainFront (inFlow : Bool) : List Char → List Char
  | [] => []
  | c :: rest =>
    let next := rest.head?
    if isBlank c || isBreak c ||
        (c == ':' && (endsWord next || (inFlow && (next.map isFlowMark).getD false))) ||
        (inFlow && (isFlowMark c || c == '?')) then []
    else c :: plainFront inFlow rest

/-- Go past a part of a plain scalar. A colon is looked at together with what follows it. -/
def plainRun (inFlow : Bool) : Reading (List Char) := do
  if (← peek) == some '#' then return []
  let front := plainFront inFlow (← get).rest
  if (← peekAt front.length) == some ':' then demand (front.length + 1)
  skip front.length
  return front

/-- The empty lines in a plain scalar after a line break; nothing if a document ends after one of
them. -/
def plainEmptyLines : Nat → Reading (Option (List Char))
  | 0 => return some []
  | fuel + 1 => do
    if ← atSeparator then return none
    dropWhile (· == ' ')
    match ← lineBreak? with
    | none => return some []
    | some b => return (← plainEmptyLines fuel).map (b :: ·)

/-- White space after a part of a plain scalar: what it counts as if the scalar goes on, and whether a
line ended. -/
def plainSpace : Reading (List Char × Bool) := do
  let white ← takeWhile (· == ' ')
  match ← lineBreak? with
  | none => return (white, false)
  | some b =>
    match ← plainEmptyLines (← bound) with
    | some more => return (foldBreaks b more, true)
    | none => return ([], true)

/-- A plain scalar from one of its parts on, and whether a line ended after it. Outside flow collections
it ends before a line that is not indented so far. -/
def plainFrom (inFlow : Bool) (indent : Int) : Nat → List Char → Bool → Reading (List Char × Bool)
  | 0, _, ended => return ([], ended)
  | fuel + 1, space, ended => do
    let run ← plainRun inFlow
    if run.isEmpty then return ([], ended)
    let (following, ended) ← plainSpace
    if following.isEmpty || (← peek) == some '#' || (!inFlow && ((← get).column : Int) < indent) then
      return (space ++ run, ended)
    let (tail, ended) ← plainFrom inFlow indent fuel following ended
    return (space ++ run ++ tail, ended)

/-- A plain scalar, and whether a line ended after it. -/
def plainScalar (inFlow : Bool) (indent : Int) : Reading (List Char × Bool) := do
  plainFrom inFlow indent (← bound) [] false

/-! ## Block scalars -/

/-- What becomes of the line breaks at the end of a block. -/
inductive Chomping where
  | strip
  | clip
  | keep
  deriving DecidableEq

/-- Go past a sign in the header of a block. -/
def chomping? : Reading (Option Chomping) := do
  match ← peek with
  | some '+' =>
    skip 1
    return some .keep
  | some '-' =>
    skip 1
    return some .strip
  | _ => return none

/-- Go past a digit in the header of a block, which says how far it is indented. -/
def increment? : Reading (Option Nat) := do
  match ← peek with
  | some ch =>
    if !ch.isDigit then return none
    if ch == '0' then refuse
    skip 1
    return some (ch.toNat - '0'.toNat)
  | none => return none

/-- The sign and the digit in the header of a block, in either order. -/
def blockHeader : Reading (Chomping × Option Nat) := do
  let first ← chomping?
  let increment ← increment?
  let second ← if first.isNone && increment.isSome then chomping? else pure none
  if !endsField (← peek) then refuse
  skipLineEnd
  return ((first.or second).getD .clip, increment)

/-- The empty lines before the first line of a block, and how far that one or a longer line of spaces
before it is indented. -/
def blockIndentation : Nat → Nat → Reading (List Char × Nat)
  | 0, widest => return ([], widest)
  | fuel + 1, widest => do
    dropWhile (· == ' ')
    let widest := max widest (← get).column
    match ← lineBreak? with
    | none => return ([], widest)
    | some b =>
      let (more, widest) ← blockIndentation fuel widest
      return (b :: more, widest)

/-- Go past at most so many spaces that the column is reached. -/
def indentTo (column : Nat) : Reading Unit := do
  let c ← get
  let n := ((c.rest.take (column - c.column)).takeWhile (· == ' ')).length
  skip n

/-- Go past the empty lines of a block. -/
def blockBreaks (indent : Nat) : Nat → Reading (List Char)
  | 0 => return []
  | fuel + 1 => do
    indentTo indent
    match ← lineBreak? with
    | none => return []
    | some b => return b :: (← blockBreaks indent fuel)

/-- Does a line of a block begin here? -/
def atBlockLine (indent : Nat) : Reading Bool := do
  if (← get).column == indent then return (← peek).isSome else return false

/-- The lines of a block. -/
structure BlockLines where
  text : List Char
  /-- The break that ends the last line. -/
  last : List Char := []
  /-- The empty lines at the end. -/
  breaks : List Char := []

/-- The lines of a block after the given empty lines. -/
def blockLines (folded : Bool) (indent : Nat) : Nat → List Char → Reading BlockLines
  | 0, breaks => return { text := [], breaks }
  | fuel + 1, breaks => do
    if !(← atBlockLine indent) then return { text := [], breaks }
    let flush := !((← peek).map isBlank).getD false
    let line ← takeWhile (!isBreak ·)
    let ending := (← lineBreak?).toList
    let following ← blockBreaks indent (← bound)
    if ← atBlockLine indent then
      let fold := folded && ending == ['\n'] && flush && !((← peek).map isBlank).getD false
      let join := if !fold then ending else if following.isEmpty then [' '] else []
      let more ← blockLines folded indent fuel following
      return { more with text := breaks ++ line ++ join ++ more.text }
    else return { text := breaks ++ line, last := ending, breaks := following }

/-- A block scalar inside a collection with an indentation, beginning with its mark. -/
def blockScalar (folded : Bool) (outer : Int) : Reading (List Char) := do
  skip 1
  let (chomping, increment) ← blockHeader
  let least := (max (outer + 1) 1).toNat
  let (breaks, indent) ←
    match increment with
    | none => do
      let (breaks, widest) ← blockIndentation (← bound) 0
      pure (breaks, max least widest)
    | some n => do
      let indent := least + n - 1
      pure (← blockBreaks indent (← bound), indent)
  let lines ← blockLines folded indent (← bound) breaks
  return match chomping with
    | .strip => lines.text
    | .clip => lines.text ++ lines.last
    | .keep => lines.text ++ lines.last ++ lines.breaks

end IdiomLint.Yaml
