import IdiomLint.Number.Integer
import IdiomLint.Text.Utf8
import IdiomLint.Yaml.ScalarText

/-!
# YAML tokens

The tokens of a YAML text. Indentation is turned into tokens that open and close block collections.
What turns out to be a key only when its colon is met is marked as one afterwards: until then its place
is kept as a pending key, which must lie on one line and within 1024 characters. Tokens are read one by
one as they are asked for, and no further than it takes to know whether a key begins at the first of
them.
-/

namespace IdiomLint.Yaml

/-- A token. -/
inductive Token where
  /-- The version that a text asks for. -/
  | version (major : Nat)
  /-- An abbreviation for tags. -/
  | handle (name expansion : String)
  /-- Any other directive. -/
  | directive
  | documentStart
  | documentEnd
  | blockSequence
  | blockMapping
  | blockEnd
  | flowSequence
  | flowSequenceEnd
  | flowMapping
  | flowMappingEnd
  | blockEntry
  | flowEntry
  | key
  | value
  | alias (name : String)
  | anchor (name : String)
  /-- A tag: the abbreviation in front, if there is one, and the rest. -/
  | tag (handle : Option String) (suffix : String)
  | scalar (text : String) (plain : Bool)
  | streamEnd
  deriving DecidableEq

/-- A place where a key may have begun. -/
structure PendingKey where
  /-- The number of tokens before it. -/
  position : Nat
  /-- Must a key be here, because it stands where the keys of a block begin? -/
  required : Bool
  index : Nat
  line : Nat
  column : Nat

/-- A text that has been turned into tokens up to some place. -/
structure Scan where
  cursor : Cursor
  /-- The tokens that have been read but not taken, the first one first. -/
  queue : List Token := []
  /-- How many tokens have been taken. -/
  taken : Nat := 0
  /-- Has the end of the text been read? -/
  done : Bool := false
  /-- The column of the innermost block, or -1 outside all blocks. -/
  indent : Int := -1
  /-- The columns of the blocks around it. -/
  indents : List Int := []
  /-- How many flow collections are open. -/
  flow : Nat := 0
  /-- May a key begin here? -/
  keyAllowed : Bool := true
  /-- The pending keys by the number of open flow collections. -/
  keys : List (Nat × PendingKey) := []

/-- Turning a text into tokens. -/
abbrev Scanning := StateT Scan (Except Fault)

namespace Scan

/-- Read at the place that has been reached. -/
def reading {α : Type} (r : Reading α) : Scanning α := do
  let s ← get
  let (a, cursor) ← r.run s.cursor
  set { s with cursor }
  return a

/-- Add a token. -/
def push (t : Token) : Scanning Unit := modify fun s => { s with queue := s.queue ++ [t] }

/-- Insert a token before all but the first ones. -/
def insertAt (position : Nat) (t : Token) : Scanning Unit :=
  modify fun s =>
    let (early, late) := s.queue.splitAt (position - s.taken)
    { s with queue := early ++ t :: late }

/-- Say whether a key may begin here. -/
def allowKey (allowed : Bool) : Scanning Unit := modify fun s => { s with keyAllowed := allowed }

/-! ## Pending keys -/

/-- Give up the pending keys that are too far away. -/
def dropStale : Scanning Unit := do
  let s ← get
  let (fresh, stale) := s.keys.partition fun (_, k) =>
    k.line == s.cursor.line && s.cursor.index - k.index ≤ 1024
  if stale.any (·.2.required) then refuse
  set { s with keys := fresh }

/-- Give up the pending key of the innermost collection. -/
def dropKey : Scanning Unit := do
  let s ← get
  if let some k := s.keys.lookup s.flow then
    if k.required then refuse
    set { s with keys := s.keys.filter (·.1 != s.flow) }

/-- What begins here may be a key. -/
def saveKey : Scanning Unit := do
  let s ← get
  if s.keyAllowed then
    dropKey
    let c := s.cursor
    let required := s.flow == 0 && s.indent == c.column
    let k : PendingKey := ⟨s.taken + s.queue.length, required, c.index, c.line, c.column⟩
    modify fun s => { s with keys := (s.flow, k) :: s.keys }

/-! ## Indentation -/

/-- Close the blocks that are indented further than a column. -/
def closeBlocks (column : Int) : List Int → Scanning Unit
  | outer :: indents => do
    if column < (← get).indent then
      push .blockEnd
      modify fun s => { s with indent := outer, indents }
      closeBlocks column indents
  | [] => pure ()

/-- Close the blocks that are indented further than a column, unless a flow collection is open. -/
def unwind (column : Int) : Scanning Unit := do
  let s ← get
  if s.flow == 0 then closeBlocks column s.indents

/-- Enter a block at a column, if that is further than the innermost block. -/
def enterBlock (column : Nat) : Scanning Bool := do
  let s ← get
  if s.indent < column then
    set { s with indents := s.indent :: s.indents, indent := column }
    return true
  else return false

/-- Outside flow collections, open a block here if it is indented further. -/
def openBlock (t : Token) : Scanning Unit := do
  let s ← get
  if s.flow == 0 then
    if ← enterBlock s.cursor.column then push t

/-- Outside flow collections, a key must be allowed here. -/
def requireKeyAllowed : Scanning Unit := do
  let s ← get
  if s.flow == 0 && !s.keyAllowed then refuse

/-! ## Directives -/

open Reading in
/-- A decimal number. -/
def number : Reading Nat := do
  let digits ← takeWhile Char.isDigit
  if digits.isEmpty then refuse
  match Integer.natural? 10 digits with
  | some n => return n
  | none => throw .badNumber

open Reading in
/-- The version after `%YAML`. -/
def versionValue : Reading Token := do
  dropWhile (· == ' ')
  let major ← number
  if (← peek) ≠ some '.' then refuse
  skip 1
  discard number
  if !endsField (← peek) then refuse
  return .version major

open Reading in
/-- An abbreviation for tags, with its exclamation marks. -/
def tagHandle : Reading String := do
  if (← peek) ≠ some '!' then refuse
  if (← peekAt 1) == some ' ' then
    skip 1
    return "!"
  skip 1
  let name ← takeWhile isNameChar
  if (← peek) ≠ some '!' then refuse
  skip 1
  return String.ofList ('!' :: name ++ ['!'])

/-- A character of a tag that stands for itself. -/
def isTagChar (c : Char) : Bool := c.isAlphanum || "-;/?:@&=+$,_.!~*'()[]".toList.contains c

open Reading in
/-- Bytes written with percent signs. -/
def percentBytes : Nat → Reading (List UInt8)
  | 0 => return []
  | fuel + 1 => do
    if (← peek) ≠ some '%' then return []
    skip 1
    let n ← code 0 2
    skip 2
    return UInt8.ofNat n :: (← percentBytes fuel)

open Reading in
/-- The rest of a tag. The argument is a bound on the number of its parts. -/
def tagText : Nat → Reading String
  | 0 => return ""
  | fuel + 1 => do
    let front ← takeWhile isTagChar
    if (← peek) ≠ some '%' then return String.ofList front
    match Utf8.decode? (← percentBytes (← bound)) with
    | .error _ => refuse
    | .ok middle => return String.ofList front ++ middle ++ (← tagText fuel)

/-- The rest of a tag, which must not be empty. -/
def tagSuffix : Reading String := do
  let start := (← get).index
  let text ← tagText (← Reading.bound)
  if (← get).index == start then refuse
  return text

open Reading in
/-- The abbreviation after `%TAG`. -/
def handleValue : Reading Token := do
  dropWhile (· == ' ')
  let name ← tagHandle
  if (← peek) ≠ some ' ' then refuse
  dropWhile (· == ' ')
  let expansion ← tagSuffix
  if !endsField (← peek) then refuse
  return .handle name expansion

open Reading in
/-- A directive, beginning with its percent sign. -/
def directiveToken : Reading Token := do
  skip 1
  let name ← takeWhile isNameChar
  if name.isEmpty || !endsField (← peek) then refuse
  let t ←
    if name == "YAML".toList then versionValue
    else if name == "TAG".toList then handleValue
    else do
      dropWhile (!isBreak ·)
      pure .directive
  skipLineEnd
  return t

/-! ## Anchors and tags -/

open Reading in
/-- The name of an anchor or an alias, after its mark. -/
def anchorName : Reading String := do
  skip 1
  let name ← takeWhile isNameChar
  if name.isEmpty then refuse
  let c ← peek
  if !(endsWord c || (c.map "?:,]\x7d%@`".toList.contains).getD false) then refuse
  return String.ofList name

open Reading in
/-- Does an abbreviation stand at the front of a tag: is there a second exclamation mark in it? -/
def hasHandle : Reading Bool := do
  let front := ((← get).rest.drop 1).takeWhile fun c => c != '!' && !endsField (some c)
  return (← peekAt (front.length + 1)) == some '!'

open Reading in
/-- The inside of a tag after its exclamation mark: an abbreviation, if there is one, and the rest. -/
def tagBody : Reading (Option String × String) := do
  let next ← peekAt 1
  if next == some '<' then
    skip 2
    let suffix ← tagSuffix
    if (← peek) ≠ some '>' then refuse
    skip 1
    return (none, suffix)
  if endsWord next then
    skip 1
    return (none, "!")
  if ← hasHandle then
    let handle ← tagHandle
    return (some handle, ← tagSuffix)
  skip 1
  return (some "!", ← tagSuffix)

/-- A tag, beginning with its exclamation mark. -/
def tagToken : Reading Token := do
  let (handle, suffix) ← tagBody
  if !endsField (← Reading.peek) then refuse
  return .tag handle suffix

/-! ## One token -/

/-- A token before and after which no key is pending: a directive or the border of a document. -/
def border (r : Reading Token) : Scanning Unit := do
  unwind (-1)
  dropKey
  allowKey false
  push (← reading r)

/-- The end of the text. -/
def atEnd : Scanning Unit := do
  unwind (-1)
  dropKey
  push .streamEnd
  modify fun s => { s with keyAllowed := false, keys := [], done := true }

/-- A mark of one character. -/
def mark (t : Token) : Scanning Unit := do
  reading (Reading.skip 1)
  push t

/-- The beginning of a flow collection. -/
def openFlow (t : Token) : Scanning Unit := do
  saveKey
  modify fun s => { s with flow := s.flow + 1, keyAllowed := true }
  mark t

/-- The end of a flow collection. -/
def closeFlow (t : Token) : Scanning Unit := do
  if (← get).flow == 0 then refuse
  dropKey
  modify fun s => { s with flow := s.flow - 1, keyAllowed := false }
  mark t

/-- A comma between the entries of a flow collection. -/
def flowEntry : Scanning Unit := do
  dropKey
  allowKey true
  mark .flowEntry

/-- The mark of an entry of a block sequence. -/
def blockEntry : Scanning Unit := do
  requireKeyAllowed
  openBlock .blockSequence
  dropKey
  allowKey true
  mark .blockEntry

/-- The mark of a key. -/
def keyMark : Scanning Unit := do
  requireKeyAllowed
  openBlock .blockMapping
  dropKey
  allowKey ((← get).flow == 0)
  mark .key

/-- What was a pending key is one now. -/
def confirmKey (k : PendingKey) : Scanning Unit := do
  modify fun s => { s with keys := s.keys.filter (·.1 != s.flow) }
  insertAt k.position .key
  if (← get).flow == 0 then
    if ← enterBlock k.column then insertAt k.position .blockMapping
  allowKey false

/-- The colon before a value. -/
def valueMark : Scanning Unit := do
  let s ← get
  match s.keys.lookup s.flow with
  | some k => confirmKey k
  | none =>
    requireKeyAllowed
    openBlock .blockMapping
    dropKey
    allowKey (s.flow == 0)
  mark .value

/-- A token that may begin a key, and that none follows at once. -/
def property (r : Reading Token) : Scanning Unit := do
  saveKey
  allowKey false
  push (← reading r)

/-- A quoted scalar. -/
def quoted (double : Bool) : Scanning Unit :=
  property do return .scalar (String.ofList (← quotedScalar double)) false

/-- A block scalar. -/
def block (folded : Bool) : Scanning Unit := do
  dropKey
  allowKey true
  let text ← reading (blockScalar folded (← get).indent)
  push (.scalar (String.ofList text) false)

/-- A plain scalar. A key may follow if a line has ended after it. -/
def plain : Scanning Unit := do
  saveKey
  let s ← get
  let (text, ended) ← reading (plainScalar (s.flow != 0) (s.indent + 1))
  allowKey ended
  push (.scalar (String.ofList text) true)

/-- May a plain scalar begin with a character? It is known whether a word ends after it. -/
def beginsPlain (inFlow ends : Bool) (ch : Char) : Bool :=
  !("-?:,[]\x7b\x7d#&*!|>'\"%@`".toList.contains ch || isBlank ch || isBreak ch) ||
    (!ends && (ch == '-' || (!inFlow && (ch == '?' || ch == ':'))))

/-- Go on after white space and comments. Outside flow collections a key may begin on a new line. -/
def skipSpace : Nat → Scanning Unit
  | 0 => pure ()
  | fuel + 1 => do
    let lineBreak ← reading do
      Reading.dropWhile (· == ' ')
      Reading.skipComment
      Reading.lineBreak?
    if lineBreak.isSome then
      if (← get).flow == 0 then allowKey true
      skipSpace fuel

/-- A token that begins with a certain character. -/
def stepOn (ch : Char) : Scanning Unit := do
  let s ← get
  let inFlow := s.flow != 0
  let first := s.cursor.column == 0
  let ends : Scanning Bool := return endsWord (← reading (Reading.peekAt 1))
  if ch == '%' && first then border directiveToken
  else if ← (if ch == '-' && first then reading (Reading.atMark "---") else pure false) then
    border do Reading.skip 3; return .documentStart
  else if ← (if ch == '.' && first then reading (Reading.atMark "...") else pure false) then
    border do Reading.skip 3; return .documentEnd
  else if ch == '[' then openFlow .flowSequence
  else if ch == '\x7b' then openFlow .flowMapping
  else if ch == ']' then closeFlow .flowSequenceEnd
  else if ch == '\x7d' then closeFlow .flowMappingEnd
  else if ch == ',' then flowEntry
  else if ← (if ch == '-' then ends else pure false) then blockEntry
  else if ← (if ch == '?' && !inFlow then ends else pure (ch == '?')) then keyMark
  else if ← (if ch == ':' && !inFlow then ends else pure (ch == ':')) then valueMark
  else if ch == '*' then property do return .alias (← anchorName)
  else if ch == '&' then property do return .anchor (← anchorName)
  else if ch == '!' then property tagToken
  else if ch == '|' && !inFlow then block false
  else if ch == '>' && !inFlow then block true
  else if ch == '\'' then quoted false
  else if ch == '"' then quoted true
  else if ← (if beginsPlain inFlow true ch then pure true else return beginsPlain inFlow (← ends) ch) then
    plain
  else refuse

/-- Read one token, and with it those that indentation asks for. A byte order mark at the beginning of
the text is passed over. -/
def step : Scanning Unit := do
  let c := (← get).cursor
  if c.index == 0 && (← reading Reading.peek) == some '\uFEFF' then reading (Reading.skip 1)
  skipSpace (c.size + 1)
  dropStale
  unwind (← get).cursor.column
  match ← reading Reading.peek with
  | none => atEnd
  | some ch => stepOn ch

/-! ## Taking tokens -/

/-- Read on until it is known what the next token is: a key may have to be put before it as long as it
is pending. The argument is a bound on the number of tokens. -/
def fill : Nat → Scanning Unit
  | 0 => pure ()
  | fuel + 1 => do
    let s ← get
    if s.done then return
    -- A key that has become too far away is no reason to read on.
    if !s.queue.isEmpty then dropStale
    let s ← get
    if s.queue.isEmpty || s.keys.any (·.2.position == s.taken) then
      step
      fill fuel

/-- The next token. -/
def peek : Scanning Token := do
  fill ((← get).cursor.size + 2)
  return (← get).queue.headD .streamEnd

/-- Take the next token. -/
def take : Scanning Token := do
  let t ← peek
  modify fun s => { s with queue := s.queue.drop 1, taken := s.taken + 1 }
  return t

/-- The beginning of a text. -/
def ofSource (source : Source) : Scan := { cursor := .ofSource source }

end Scan

end IdiomLint.Yaml
