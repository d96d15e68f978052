import IdiomLint.Text.Hex

/-!
# UTF-8

Offsets in this library count the bytes of the UTF-8 form of a text. `encode` gives that form.
`pieces` cuts any byte sequence into the characters and the ill-formed stretches it is made of, each
stretch as long as the beginning of a character that cannot be completed; the three readings differ
only in what they make of such a stretch: `decode?` refuses it, `decodeLossy` writes U+FFFD for it,
and `decodeSound` leaves it out.
-/

namespace IdiomLint.Utf8

/-- The UTF-8 form of a list of characters. -/
def encodeChars (cs : List Char) : List UInt8 := cs.flatMap String.utf8EncodeChar

/-- The UTF-8 form of a text. -/
def encode (s : String) : List UInt8 := encodeChars s.toList

/-- The number of bytes in the UTF-8 form of a text. -/
def size (s : String) : Nat := (encode s).length

@[simp] theorem encodeChars_nil : encodeChars [] = [] := rfl

@[simp] theorem encodeChars_cons (c : Char) (cs : List Char) :
    encodeChars (c :: cs) = String.utf8EncodeChar c ++ encodeChars cs := rfl

@[simp] theorem encodeChars_append (a b : List Char) :
    encodeChars (a ++ b) = encodeChars a ++ encodeChars b := by
  simp [encodeChars]

/-- Why a stretch of bytes is no character. -/
inductive Defect where
  /-- Its first byte begins no character. -/
  | badStart
  /-- A byte that continues no character stands where one should go on. -/
  | badContinuation
  /-- The sequence ends inside a character. -/
  | truncated
  deriving DecidableEq, Repr

/-- A character, or a stretch of bytes that is none. -/
inductive Piece where
  | char (c : Char)
  | broken (bytes : List UInt8) (why : Defect)
  deriving DecidableEq, Repr

/-- A character of which some bytes are still to come. -/
structure Partial where
  /-- The bytes so far, last one first. -/
  seen : List UInt8
  /-- The bits they carry. -/
  bits : Nat
  /-- How many bytes are to come. -/
  missing : Nat
  /-- The least byte that may come next. -/
  low : UInt8
  /-- The greatest byte that may come next. -/
  high : UInt8
  deriving DecidableEq, Repr

/-- What a byte that stands at the beginning of a character makes: a complete piece, or a character
of which some bytes are still to come. The bounds on the second byte keep out overlong forms,
surrogates and numbers above U+10FFFF. -/
def start (b : UInt8) : Piece ⊕ Partial :=
  if b < 0x80 then .inl (.char (Char.ofNat b.toNat))
  else if b < 0xC2 then .inl (.broken [b] .badStart)
  else if b < 0xE0 then .inr ⟨[b], b.toNat - 0xC0, 1, 0x80, 0xBF⟩
  else if b < 0xF0 then
    .inr ⟨[b], b.toNat - 0xE0, 2, if b = 0xE0 then 0xA0 else 0x80, if b = 0xED then 0x9F else 0xBF⟩
  else if b < 0xF5 then
    .inr ⟨[b], b.toNat - 0xF0, 3, if b = 0xF0 then 0x90 else 0x80, if b = 0xF4 then 0x8F else 0xBF⟩
  else .inl (.broken [b] .badStart)

/-- One more byte of a character, if the byte continues it. -/
def Partial.next? (p : Partial) (b : UInt8) : Option (Piece ⊕ Partial) :=
  if p.low ≤ b ∧ b ≤ p.high then
    let bits := p.bits * 64 + (b.toNat - 0x80)
    some <| match p.missing with
      | 0 | 1 => .inl (.char (Char.ofNat bits))
      | n + 2 => .inr ⟨b :: p.seen, bits, n + 1, 0x80, 0xBF⟩
  else none

/-- The pieces that the bytes make after the beginning of a character, if one is open. A byte that
does not continue the open character closes it as ill-formed and is looked at again on its own. -/
def piecesFrom : Option Partial → List UInt8 → List Piece
  | none, [] => []
  | some p, [] => [.broken p.seen.reverse .truncated]
  | none, b :: rest =>
    match start b with
    | .inl piece => piece :: piecesFrom none rest
    | .inr p => piecesFrom (some p) rest
  | some p, b :: rest =>
    match p.next? b with
    | some (.inl piece) => piece :: piecesFrom none rest
    | some (.inr p') => piecesFrom (some p') rest
    | none =>
      .broken p.seen.reverse .badContinuation ::
        match start b with
        | .inl piece => piece :: piecesFrom none rest
        | .inr p' => piecesFrom (some p') rest

/-- The characters and ill-formed stretches of a byte sequence, in order. -/
def pieces (bytes : List UInt8) : List Piece := piecesFrom none bytes

/-- The number of bytes in a piece. -/
def Piece.width : Piece → Nat
  | .char c => (String.utf8EncodeChar c).length
  | .broken bytes _ => bytes.length

/-- A byte sequence that is not UTF-8: where its first ill-formed stretch begins, the stretch, and
what is wrong with it. -/
structure Fault where
  offset : Nat
  bytes : List UInt8
  why : Defect
  deriving DecidableEq, Repr

/-- Read pieces as characters, refusing an ill-formed stretch; `offset` is where the first piece
begins. -/
def charsOf (offset : Nat) : List Piece → Except Fault (List Char)
  | [] => .ok []
  | .char c :: rest => (charsOf (offset + (String.utf8EncodeChar c).length) rest).map (c :: ·)
  | .broken bytes why :: _ => .error ⟨offset, bytes, why⟩

/-- Read UTF-8, refusing ill-formed bytes. -/
def decode? (bytes : List UInt8) : Except Fault String := (charsOf 0 (pieces bytes)).map String.ofList

/-- Read UTF-8 with U+FFFD in the place of each ill-formed stretch. -/
def decodeLossy (bytes : List UInt8) : String :=
  String.ofList <| (pieces bytes).map fun
    | .char c => c
    | .broken _ _ => '\uFFFD'

/-- The characters of a byte sequence, ill-formed stretches left out. -/
def soundChars (bytes : List UInt8) : List Char :=
  (pieces bytes).filterMap fun
    | .char c => some c
    | .broken _ _ => none

/-- The report on a sequence that is not UTF-8. One offending byte is shown, several are located. -/
def Fault.message (f : Fault) : String :=
  let place := match f.bytes with
    | [b] => s!"byte 0x{String.ofList (Hex.digits 2 b.toNat)} in position {f.offset}"
    | bytes => s!"bytes in position {f.offset}-{f.offset + bytes.length - 1}"
  let reason := match f.why with
    | .badStart => "invalid start byte"
    | .badContinuation => "invalid continuation byte"
    | .truncated => "unexpected end of data"
  s!"'utf-8' codec can't decode {place}: {reason}"

end IdiomLint.Utf8
