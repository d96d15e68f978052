import IdiomLint.Yaml.Scalar

/-!
# Laying out YAML

A page is a text that is being written, with what the layout depends on: the column, whether a space has
just been written, and whether only indentation and marks have been written on the line.
-/

namespace IdiomLint.Yaml

/-- A text that is being written. -/
structure Page where
  /-- The characters written, the last one first. -/
  written : List Char := []
  column : Nat := 0
  /-- Does the text end in white space? -/
  spaced : Bool := true
  /-- Is there nothing but indentation and marks on the line? -/
  fresh : Bool := true

namespace Page

/-- How wide a line may grow before it is broken at the next space. -/
def width : Nat := 80

/-- The text of a page. -/
def text (p : Page) : String := String.ofList p.written.reverse

/-- Write characters. -/
def write (p : Page) (cs : List Char) : Page :=
  { p with written := cs.reverse ++ p.written, column := p.column + cs.length }

/-- End the line. -/
def newline (p : Page) : Page := ⟨'\n' :: p.written, 0, true, true⟩

/-- Write a mark, after a space if one is needed and none is there. -/
def mark (p : Page) (m : String) (needsSpace keepsFresh : Bool) : Page :=
  let cs := if p.spaced || !needsSpace then m.toList else ' ' :: m.toList
  { p.write cs with spaced := false, fresh := p.fresh && keepsFresh }

/-- Go to a column on this line if nothing else stands there, or on the next one. -/
def indentTo (p : Page) (column : Nat) : Page :=
  let p := if !p.fresh || column < p.column || (column == p.column && !p.spaced) then p.newline else p
  if p.column < column then { p.write (List.replicate (column - p.column) ' ') with spaced := true }
  else p

/-- Break the line inside a scalar. -/
def wrap (p : Page) (indent : Nat) : Page := { p.indentTo indent with spaced := false, fresh := false }

end Page

/-! ## The style of a scalar -/

/-- How a scalar is written. -/
inductive Style where
  | plain
  | single
  | double
  deriving DecidableEq

namespace Style

/-- Does a mark at the front of a text keep it from being plain? -/
def badFront : List Char → Bool
  | [] => false
  | c :: rest =>
    "#,[]\x7b\x7d&*!|>'\"%@`".toList.contains c ||
      ((c == '?' || c == ':' || c == '-') && endsWord rest.head?)

/-- Does a mark inside a text keep it from being plain? Before the text stands a given character. -/
def badInside : Char → List Char → Bool
  | _, [] => false
  | before, c :: rest =>
    (c == ':' && endsWord rest.head?) || (c == '#' && endsWord (some before)) || badInside c rest

/-- Does a text contain a character that only quotes with escapes can hold? -/
def isSpecial (c : Char) : Bool := !(c == '\n' || (0x20 ≤ c.toNat && c.toNat ≤ 0x7E))

/-- Do two characters follow one another somewhere in a text? -/
def hasPair (p q : Char → Bool) : List Char → Bool
  | a :: b :: rest => (p a && q b) || hasPair p q (b :: rest)
  | _ => false

/-- Does white space stand at an end of a text? -/
def hasMargin (cs : List Char) : Bool :=
  let isMargin (c : Option Char) : Bool := c == some ' ' || (c.map isBreak).getD false
  isMargin cs.head? || isMargin cs.getLast?

/-- Can a text be written plainly, its meaning aside? -/
def allowsPlain (cs : List Char) : Bool :=
  !("---".toList.isPrefixOf cs || "...".toList.isPrefixOf cs || badFront cs ||
    badInside (cs.headD ' ') cs.tail || hasMargin cs || cs.any isSpecial || cs.any isBreak)

/-- Can a text be written between single quotes? -/
def allowsSingle (cs : List Char) : Bool :=
  !(cs.any isSpecial || hasPair isBreak (· == ' ') cs || hasPair (· == ' ') isBreak cs)

/-- The style for a text. It is plain only where it would be read back as the same text; a key stays
on one line. -/
def ofText (isKey : Bool) (s : String) : Style :=
  let cs := s.toList
  let lines := cs.any isBreak
  if Scalar.kindOf s == .text && allowsPlain cs && !(isKey && (cs.isEmpty || lines)) then .plain
  else if allowsSingle cs && !(isKey && lines) then .single
  else .double

end Style

/-! ## Writing scalars -/

namespace Page

/-- A part of a text without inner changes between spaces, line breaks and other characters. -/
inductive Run where
  | spaces (n : Nat)
  | breaks (cs : List Char)
  | word (cs : List Char)

/-- A text as runs. -/
def runs : List Char → List Run
  | [] => []
  | c :: rest =>
    if c == ' ' then
      match runs rest with
      | .spaces n :: more => .spaces (n + 1) :: more
      | more => .spaces 1 :: more
    else if isBreak c then
      match runs rest with
      | .breaks cs :: more => .breaks (c :: cs) :: more
      | more => .breaks [c] :: more
    else
      match runs rest with
      | .word cs :: more => .word (c :: cs) :: more
      | more => .word [c] :: more

/-- Line breaks inside a scalar: one more than the text has, since a single one reads as a space. -/
def writeBreaks (p : Page) (indent : Nat) (cs : List Char) : Page :=
  let p := if cs.head? == some '\n' then p.newline else p
  (cs.foldl (fun p _ => p.newline) p).indentTo indent

/-- Runs of a scalar. Where a single space stands beyond the width of the page, the line is broken
instead, but not at the ends of the text. -/
def writeRuns (split : Bool) (indent : Nat) (first : Bool) : Page → List Run → Page
  | p, [] => p
  | p, .word cs :: rest => writeRuns split indent false (p.write cs) rest
  | p, .breaks cs :: rest => writeRuns split indent false (p.writeBreaks indent cs) rest
  | p, .spaces n :: rest =>
    if n == 1 && width < p.column && split && !first && !rest.isEmpty then
      writeRuns split indent false (p.wrap indent) rest
    else writeRuns split indent false (p.write (List.replicate n ' ')) rest

/-- A plain scalar. -/
def plain (p : Page) (split : Bool) (indent : Nat) (cs : List Char) : Page :=
  let p := if p.spaced then p else p.write [' ']
  writeRuns split indent true { p with spaced := false, fresh := false } (runs cs)

/-- A scalar between single quotes; single quotes in it are doubled. -/
def single (p : Page) (split : Bool) (indent : Nat) (cs : List Char) : Page :=
  let doubled := cs.flatMap fun c => if c = '\'' then ['\'', '\''] else [c]
  (writeRuns split indent true (p.mark "'" true false) (runs doubled)).mark "'" false false

/-- The letter that stands for a character after a backslash. -/
def letter? (c : Char) : Option Char :=
  [('\x00', '0'), ('\x07', 'a'), ('\x08', 'b'), ('\t', 't'), ('\n', 'n'), ('\x0b', 'v'),
    ('\x0c', 'f'), ('\r', 'r'), ('\x1b', 'e'), ('"', '"'), ('\\', '\\'), ('\u0085', 'N'),
    ('\u00a0', '_'), ('\u2028', 'L'), ('\u2029', 'P')].lookup c

/-- Upper-case hexadecimal digits. -/
def upperDigits (width n : Nat) : List Char := (Hex.digits width n).map Char.toUpper

/-- A character written with a backslash. -/
def escape (c : Char) : List Char :=
  match letter? c with
  | some letter => ['\\', letter]
  | none =>
    if c.toNat ≤ 0xFF then '\\' :: 'x' :: upperDigits 2 c.toNat
    else if c.toNat ≤ 0xFFFF then '\\' :: 'u' :: upperDigits 4 c.toNat
    else '\\' :: 'U' :: upperDigits 8 c.toNat

/-- Must a character be written with a backslash? -/
def needsEscape (c : Char) : Bool := c == '"' || c == '\\' || c.toNat < 0x20 || 0x7E < c.toNat

/-- The inside of a scalar between double quotes; the pending characters are not written yet. Beyond
the width of the page the line is broken at a space or after an escape, a backslash standing before
the break and before a space after it. -/
def doubleInside (split : Bool) (indent : Nat) :
    Page → List Char → Bool → List Char → Page
  | p, pending, _, [] => p.write pending
  | p, pending, first, c :: rest =>
    let escaped := needsEscape c
    let p := if escaped then (p.write pending).write (escape c) else p
    let pending := if escaped then [] else pending
    let reached := if escaped then p.column - 1 else p.column + pending.length
    let own := if escaped then [] else [c]
    if !first && !rest.isEmpty && (c == ' ' || pending.isEmpty) && width < reached && split then
      let p := (p.write (pending ++ ['\\'])).wrap indent
      let p := if (own ++ rest).head? == some ' ' then p.write ['\\'] else p
      doubleInside split indent p own false rest
    else doubleInside split indent p (pending ++ own) false rest

/-- A scalar between double quotes. -/
def double (p : Page) (split : Bool) (indent : Nat) (cs : List Char) : Page :=
  (doubleInside split indent (p.mark "\"" true false) [] true cs).mark "\"" false false

/-- A text. A key is never broken over lines. -/
def scalar (p : Page) (isKey : Bool) (indent : Nat) (s : String) : Page :=
  match Style.ofText isKey s with
  | .plain => p.plain (!isKey) indent s.toList
  | .single => p.single (!isKey) indent s.toList
  | .double => p.double (!isKey) indent s.toList

end Page

end IdiomLint.Yaml
