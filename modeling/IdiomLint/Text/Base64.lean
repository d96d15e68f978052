/-!
# Base 64

Bytes written with letters that stand for six bits each. What is no such letter is passed over; padding
ends the text once it completes a group of four letters.
-/

namespace IdiomLint.Base64

/-- The six bits that a letter stands for. -/
def value? (c : Char) : Option Nat :=
  if 'A' ≤ c ∧ c ≤ 'Z' then some (c.toNat - 'A'.toNat)
  else if 'a' ≤ c ∧ c ≤ 'z' then some (c.toNat - 'a'.toNat + 26)
  else if '0' ≤ c ∧ c ≤ '9' then some (c.toNat - '0'.toNat + 52)
  else if c = '+' then some 62
  else if c = '/' then some 63
  else none

/-- What has been read of a group of four letters: how many letters, how much padding since the last of
them, and the bits that make no whole byte yet. -/
structure Group where
  letters : Nat := 0
  padding : Nat := 0
  bits : Nat := 0

/-- The group after one more letter, and the byte that it completes, if it does. -/
def Group.add (g : Group) (value : Nat) : Group × List UInt8 :=
  match g.letters with
  | 0 => (⟨1, 0, value⟩, [])
  | 1 => (⟨2, 0, value % 16⟩, [UInt8.ofNat (g.bits * 4 + value / 16)])
  | 2 => (⟨3, 0, value % 4⟩, [UInt8.ofNat (g.bits * 16 + value / 4)])
  | _ => (⟨0, 0, 0⟩, [UInt8.ofNat (g.bits * 64 + value)])

/-- The bytes that a text stands for after the beginning of a group. A group must be completed by
letters or padding. -/
def decodeFrom (g : Group) : List Char → Option (List UInt8)
  | [] => if g.letters = 0 then some [] else none
  | c :: rest =>
    if c = '=' then
      if 2 ≤ g.letters then
        if 4 ≤ g.letters + g.padding + 1 then some []
        else decodeFrom { g with padding := g.padding + 1 } rest
      else decodeFrom g rest
    else
      match value? c with
      | none => decodeFrom g rest
      | some value => (decodeFrom (g.add value).1 rest).map ((g.add value).2 ++ ·)

/-- The bytes that a text stands for. -/
def decode? (cs : List Char) : Option (List UInt8) := decodeFrom {} cs

end IdiomLint.Base64
