import IdiomLint.Number.Integer
import IdiomLint.Pattern.Basic
import IdiomLint.Text.WordChar

/-!
# Tokens of pattern text

`Token.tokens` cuts pattern text into tokens, white space left out. At each place the first of the
token forms that fits is taken, as long as possible; a place where none fits is an error.
-/

namespace IdiomLint

/-- A token of pattern text. -/
inductive Token where
  | openParen
  | closeParen
  | openBrace
  | closeBrace
  /-- Three points: the remaining children. -/
  | ellipsis
  /-- A dollar sign, with the name before an equals sign if there is one. -/
  | capture (name : Option String)
  /-- A name after a number sign. -/
  | ref (name : String)
  /-- A name after a colon. -/
  | symbol (name : String)
  /-- The content of a string literal. -/
  | string (content : String)
  /-- An integer literal: is it negative, and its digits. -/
  | integer (negative : Bool) (digits : List Nat)
  /-- A name that stands for itself. -/
  | word (name : String)
  deriving DecidableEq

namespace Token

/-- The longest run of name characters at the front, and what follows. -/
def spanName (cs : List Char) : String × List Char :=
  (String.ofList (cs.takeWhile WordChar.isWord), cs.dropWhile WordChar.isWord)

/-- A name at the front: a letter or underscore and all name characters after it. -/
def name? : List Char → Option (String × List Char)
  | [] => none
  | c :: rest => if WordChar.startsName c then some (spanName (c :: rest)) else none

/-- The content of a string literal whose opening quote has been read. A backslash stands before a
character that is meant as it is, and a line feed cannot be so marked. -/
def stringContent? : List Char → Option (List Char × List Char)
  | [] => none
  | '"' :: rest => some ([], rest)
  | '\\' :: c :: rest =>
    if c = '\n' then none
    else (stringContent? rest).map fun (content, tail) => (c :: content, tail)
  | c :: rest =>
    if c = '\\' then none
    else (stringContent? rest).map fun (content, tail) => (c :: content, tail)

/-- The digits at the front, as values, and what follows. -/
def spanDigits : List Char → List Nat × List Char
  | [] => ([], [])
  | c :: rest =>
    match Digit.value? c with
    | some d => let (ds, tail) := spanDigits rest; (d :: ds, tail)
    | none => ([], c :: rest)

/-- An integer literal whose sign has been read. -/
def integer? (negative : Bool) (cs : List Char) : Option (Token × List Char) :=
  match spanDigits cs with
  | ([], _) => none
  | (digits, tail) => some (.integer negative digits, tail)

/-- A question mark, exclamation mark or equals sign that ends a symbol. -/
def symbolMark? : List Char → Option (Char × List Char)
  | c :: rest => if c = '?' ∨ c = '!' ∨ c = '=' then some (c, rest) else none
  | [] => none

/-- The token at the front of a text that does not begin with white space. -/
def front? : List Char → Option (Token × List Char)
  | [] => none
  | '(' :: rest => some (.openParen, rest)
  | ')' :: rest => some (.closeParen, rest)
  | '\x7b' :: rest => some (.openBrace, rest)
  | '\x7d' :: rest => some (.closeBrace, rest)
  | '.' :: '.' :: '.' :: rest => some (.ellipsis, rest)
  | '$' :: rest =>
    match name? rest with
    | some (name, '=' :: tail) => some (.capture (some name), tail)
    | _ => some (.capture none, rest)
  | '#' :: rest =>
    match name? rest with
    | some (name, '?' :: tail) => some (.ref (name ++ "?"), tail)
    | some (name, tail) => some (.ref name, tail)
    | none => none
  | ':' :: rest =>
    match name? rest with
    | some (name, tail) =>
      match symbolMark? tail with
      | some (mark, tail) => some (.symbol (name.push mark), tail)
      | none => some (.symbol name, tail)
    | none => none
  | '"' :: rest => (stringContent? rest).map fun (content, tail) => (.string (String.ofList content), tail)
  | '-' :: rest => integer? true rest
  | c :: rest =>
    match integer? false (c :: rest) with
    | some found => some found
    | none => (name? (c :: rest)).map fun (name, tail) => (.word name, tail)

theorem spanDigits_length (cs : List Char) :
    (spanDigits cs).1.length + (spanDigits cs).2.length = cs.length := by
  fun_induction spanDigits cs <;> simp_all; omega

theorem length_of_name? {cs : List Char} {name : String} {tail : List Char}
    (h : name? cs = some (name, tail)) : tail.length < cs.length := by
  cases cs with
  | nil => simp [name?] at h
  | cons c rest =>
    simp only [name?, spanName] at h
    split at h
    · rename_i hc
      simp only [Option.some.injEq, Prod.mk.injEq] at h
      rw [← h.2, List.dropWhile_cons_of_pos (WordChar.isWord_of_startsName hc)]
      exact Nat.lt_succ_of_le (List.dropWhile_suffix _).length_le
    · simp at h

theorem length_of_stringContent? {cs content tail : List Char}
    (h : stringContent? cs = some (content, tail)) : tail.length < cs.length := by
  fun_induction stringContent? cs generalizing content with
  | case1 => simp at h
  | case2 rest => simp_all
  | case3 rest => simp at h
  | case4 c rest _ ih =>
    obtain ⟨⟨u, v⟩, huv, he⟩ := Option.map_eq_some_iff.1 h
    simp only [Prod.mk.injEq] at he
    have := ih (he.2 ▸ huv)
    simp only [List.length_cons]
    omega
  | case5 => simp at h
  | case6 c rest _ _ _ ih =>
    obtain ⟨⟨u, v⟩, huv, he⟩ := Option.map_eq_some_iff.1 h
    simp only [Prod.mk.injEq] at he
    have := ih (he.2 ▸ huv)
    simp only [List.length_cons]
    omega

theorem length_of_integer? {negative : Bool} {cs tail : List Char} {t : Token}
    (h : integer? negative cs = some (t, tail)) : tail.length < cs.length := by
  have hl := spanDigits_length cs
  rw [integer?] at h
  split at h
  · simp at h
  · rename_i digits rest hne heq
    simp only [Option.some.injEq, Prod.mk.injEq] at h
    rw [heq] at hl
    have : 0 < digits.length := List.length_pos_iff.2 (fun h0 => by simp_all)
    simp only [← h.2]
    simp only at hl
    omega

/-- A token takes at least one character. -/
theorem length_of_front? {cs tail : List Char} {t : Token}
    (h : front? cs = some (t, tail)) : tail.length < cs.length := by
  unfold front? at h
  split at h
  · simp at h
  all_goals try (simp only [Option.some.injEq, Prod.mk.injEq] at h; simp [← h.2]; done)
  · simp only [Option.some.injEq, Prod.mk.injEq] at h
    simp only [← h.2, List.length_cons]
    omega
  · split at h
    · rename_i hn
      simp only [Option.some.injEq, Prod.mk.injEq] at h
      have := length_of_name? hn
      simp only [← h.2, List.length_cons] at *
      omega
    · simp only [Option.some.injEq, Prod.mk.injEq] at h
      simp [← h.2]
  · split at h
    · rename_i hn
      simp only [Option.some.injEq, Prod.mk.injEq] at h
      have := length_of_name? hn
      simp only [← h.2, List.length_cons] at *
      omega
    · rename_i hn
      simp only [Option.some.injEq, Prod.mk.injEq] at h
      have := length_of_name? hn
      simp only [← h.2, List.length_cons] at *
      omega
    · simp at h
  · split at h
    · rename_i name mid hn
      have := length_of_name? hn
      split at h
      · rename_i mark tl hm
        simp only [Option.some.injEq, Prod.mk.injEq] at h
        have : tl.length < mid.length := by
          cases mid with
          | nil => simp [symbolMark?] at hm
          | cons c r =>
            simp only [symbolMark?] at hm
            split at hm <;> simp_all
        simp only [← h.2, List.length_cons]
        omega
      · simp only [Option.some.injEq, Prod.mk.injEq] at h
        simp only [← h.2, List.length_cons]
        omega
    · simp at h
  · obtain ⟨⟨u, v⟩, huv, he⟩ := Option.map_eq_some_iff.1 h
    simp only [Prod.mk.injEq] at he
    have := length_of_stringContent? huv
    simp only [← he.2, List.length_cons]
    omega
  · have := length_of_integer? h
    simp only [List.length_cons]
    omega
  · split at h
    · rename_i hi
      simp only [Option.some.injEq] at h
      exact length_of_integer? (h ▸ hi)
    · obtain ⟨⟨u, v⟩, huv, he⟩ := Option.map_eq_some_iff.1 h
      simp only [Prod.mk.injEq] at he
      exact he.2 ▸ length_of_name? huv

/-- The tokens of a text of which `offset` characters precede `cs`. -/
def tokensFrom (offset : Nat) (cs : List Char) : Except PatternError (List Token) :=
  match cs with
  | [] => .ok []
  | c :: rest =>
    if Blank.isBlank c then tokensFrom (offset + 1) rest
    else
      match h : front? (c :: rest) with
      | some (t, tail) =>
        have : tail.length < (c :: rest).length := length_of_front? h
        (tokensFrom (offset + ((c :: rest).length - tail.length)) tail).map (t :: ·)
      | none => .error (.unexpectedCharacter c offset)
termination_by cs.length
decreasing_by
  · simp
  · exact this

/-- The tokens of a text. -/
def tokens (source : String) : Except PatternError (List Token) := tokensFrom 0 source.toList

end Token

end IdiomLint
