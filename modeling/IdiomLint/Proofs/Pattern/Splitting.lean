import Mathlib.Data.List.Forall2
import IdiomLint.Proofs.Fallible
import IdiomLint.Proofs.Pattern.Lexeme

/-!
# The grammar of tokens

Pattern text is made of pieces of twelve forms, white space being the first of them. `Spells` says which
characters are a piece of a form, `Takes` which piece is taken at the front of a text: of the first form
that fits there, as long as possible. What makes the two computable is that a piece shows its form by its
first character (`Spells.form_eq`) and that the cutting takes no less than any piece (`Spells.front?`).
Main statement: the tokens of a text are those of the pieces into which it splits (`tokens_eq_ok`).
-/

namespace IdiomLint.Token

/-! ## Pieces of text -/

/-- The forms of a piece of pattern text. -/
inductive Form where
  | space
  | openParen
  | closeParen
  | openBrace
  | closeBrace
  | ellipsis
  | capture
  | ref
  | symbol
  | string
  | integer
  | word
  deriving DecidableEq

/-- The place of a form in the order in which the forms are tried. -/
def Form.rank : Form → Nat
  | .space => 0
  | .openParen => 1
  | .closeParen => 2
  | .openBrace => 3
  | .closeBrace => 4
  | .ellipsis => 5
  | .capture => 6
  | .ref => 7
  | .symbol => 8
  | .string => 9
  | .integer => 10
  | .word => 11

/-- The characters between the quotes of a string literal and the content that they stand for: each
character stands for itself, a quote and a backslash only behind a backslash, which may precede any
character but a line feed. -/
inductive Quotes : List Char → List Char → Prop
  | nil : Quotes [] []
  | plain {c : Char} {cs content : List Char} :
      c ≠ '"' → c ≠ '\\' → Quotes cs content → Quotes (c :: cs) (c :: content)
  | marked {c : Char} {cs content : List Char} :
      c ≠ '\n' → Quotes cs content → Quotes ('\\' :: c :: cs) (c :: content)

/-- The characters are digits with these values, at least one. -/
def Digits (cs : List Char) (digits : List Nat) : Prop :=
  cs ≠ [] ∧ List.Forall₂ (fun c d => Digit.value? c = some d) cs digits

/-- The characters are a piece of the form, and the token is what they stand for. White space stands for
none. -/
inductive Spells : Form → List Char → Option Token → Prop
  | space {cs : List Char} : cs ≠ [] → (∀ c ∈ cs, Blank.isBlank c = true) → Spells .space cs none
  | openParen : Spells .openParen ['('] (some .openParen)
  | closeParen : Spells .closeParen [')'] (some .closeParen)
  | openBrace : Spells .openBrace ['\x7b'] (some .openBrace)
  | closeBrace : Spells .closeBrace ['\x7d'] (some .closeBrace)
  | ellipsis : Spells .ellipsis ['.', '.', '.'] (some .ellipsis)
  | numbered : Spells .capture ['$'] (some (.capture none))
  | named {name : String} :
      IsName name → Spells .capture ('$' :: (name.toList ++ ['='])) (some (.capture (some name)))
  | ref {name : String} : IsName name → Spells .ref ('#' :: name.toList) (some (.ref name))
  | asking {name : String} :
      IsName name → Spells .ref ('#' :: (name.toList ++ ['?'])) (some (.ref (name ++ "?")))
  | symbol {name : String} : IsName name → Spells .symbol (':' :: name.toList) (some (.symbol name))
  | marked {name : String} {mark : Char} :
      IsName name → mark = '?' ∨ mark = '!' ∨ mark = '=' →
        Spells .symbol (':' :: (name.toList ++ [mark])) (some (.symbol (name.push mark)))
  | string {cs content : List Char} :
      Quotes cs content →
        Spells .string ('"' :: (cs ++ ['"'])) (some (.string (String.ofList content)))
  | natural {cs : List Char} {digits : List Nat} :
      Digits cs digits → Spells .integer cs (some (.integer false digits))
  | negative {cs : List Char} {digits : List Nat} :
      Digits cs digits → Spells .integer ('-' :: cs) (some (.integer true digits))
  | word {name : String} : IsName name → Spells .word name.toList (some (.word name))

/-- At the front of the text a piece is taken: no form before its own fits there, and no longer piece of
its own form does. -/
structure Takes (cs : List Char) (form : Form) (piece rest : List Char) (t : Option Token) : Prop where
  spells : Spells form piece t
  text : cs = piece ++ rest
  first : ∀ earlier, earlier.rank < form.rank → ∀ other u, other <+: cs → ¬ Spells earlier other u
  longest : ∀ other u, other <+: cs → Spells form other u → other.length ≤ piece.length

/-- The text splits into pieces, one taken after the other, and these are their tokens. -/
inductive Splits : List Char → List Token → Prop
  | nil : Splits [] []
  | cons {cs piece rest : List Char} {form : Form} {t : Option Token} {ts : List Token} :
      Takes cs form piece rest t → Splits rest ts → Splits cs (t.toList ++ ts)

/-! ## The first character shows the form -/

/-- The form of the pieces other than white space that begin with a character. -/
def formAt (c : Char) : Form :=
  if c = '(' then .openParen
  else if c = ')' then .closeParen
  else if c = '\x7b' then .openBrace
  else if c = '\x7d' then .closeBrace
  else if c = '.' then .ellipsis
  else if c = '$' then .capture
  else if c = '#' then .ref
  else if c = ':' then .symbol
  else if c = '"' then .string
  else if c = '-' ∨ (Digit.value? c).isSome then .integer
  else .word

theorem formAt_of_notMem_marks {c : Char} (h : c ∉ marks) :
    formAt c = if (Digit.value? c).isSome then .integer else .word := by
  simp only [marks, List.mem_cons, List.not_mem_nil, or_false, not_or] at h
  obtain ⟨h1, h2, h3, h4, h5, h6, h7, h8, h9, h10⟩ := h
  simp [formAt, h1, h2, h3, h4, h5, h6, h7, h8, h9, h10]

theorem formAt_digit {c : Char} {d : Nat} (h : Digit.value? c = some d) : formAt c = .integer := by
  have hsome : (Digit.value? c).isSome = true := by rw [h]; rfl
  have hmarks : c ∉ marks := notMem_marks (p := fun c => (Digit.value? c).isSome) (by decide) hsome
  rw [formAt_of_notMem_marks hmarks, if_pos hsome]

theorem formAt_name {c : Char} (h : WordChar.startsName c = true) : formAt c = .word := by
  have hmarks : c ∉ marks := notMem_marks (by decide) h
  rw [formAt_of_notMem_marks hmarks, value?_of_startsName h]
  rfl

/-- A piece that stands for a token has the form that its first character shows. -/
theorem Spells.form_eq {form : Form} {piece : List Char} {t : Token} (h : Spells form piece (some t)) :
    ∃ c tail, piece = c :: tail ∧ form = formAt c := by
  cases h with
  | openParen | closeParen | openBrace | closeBrace | ellipsis => exact ⟨_, _, rfl, by decide⟩
  | numbered | named _ => exact ⟨_, _, rfl, by decide⟩
  | ref _ | asking _ => exact ⟨_, _, rfl, by decide⟩
  | symbol _ | marked _ _ => exact ⟨_, _, rfl, by decide⟩
  | string _ => exact ⟨_, _, rfl, by decide⟩
  | negative _ => exact ⟨_, _, rfl, by decide⟩
  | natural hdigits =>
      obtain ⟨hne, hvalues⟩ := hdigits
      cases hvalues with
      | nil => exact absurd rfl hne
      | cons hd _ => exact ⟨_, _, rfl, (formAt_digit hd).symm⟩
  | word hname =>
      obtain ⟨c, cs, hcs, hstart, _⟩ := hname
      exact ⟨c, cs, hcs, (formAt_name hstart).symm⟩

/-- Pieces at the front of one text that stand for tokens have one form. -/
theorem Spells.form_unique {form form' : Form} {piece piece' cs : List Char} {t t' : Token}
    (h : Spells form piece (some t)) (h' : Spells form' piece' (some t')) (hpiece : piece <+: cs)
    (hpiece' : piece' <+: cs) : form = form' := by
  obtain ⟨c, tail, rfl, rfl⟩ := h.form_eq
  obtain ⟨c', tail', rfl, rfl⟩ := h'.form_eq
  obtain ⟨rest, rfl⟩ := hpiece
  obtain ⟨rest', heq⟩ := hpiece'
  rw [(List.cons.inj heq).1]

/-! ## What is cut off is a piece -/

theorem name?_eq_some {cs tail : List Char} {name : String} (h : name? cs = some (name, tail)) :
    IsName name ∧ cs = name.toList ++ tail := by
  refine ⟨isName_of_name? h, ?_⟩
  cases cs with
  | nil => simp [name?] at h
  | cons c cs =>
      rw [name?, Option.ite_none_right_eq_some, spanName, Option.some.injEq, Prod.mk.injEq] at h
      obtain ⟨_, rfl, rfl⟩ := h
      rw [String.toList_ofList, List.takeWhile_append_dropWhile]

theorem quotes_of_stringContent? {cs content tail : List Char}
    (h : stringContent? cs = some (content, tail)) :
    ∃ inner, cs = inner ++ '"' :: tail ∧ Quotes inner content := by
  fun_induction stringContent? cs generalizing content with
  | case1 => exact absurd h (by simp)
  | case2 rest =>
      cases h
      exact ⟨[], rfl, .nil⟩
  | case3 => exact absurd h (by simp)
  | case4 c rest hline ih =>
      obtain ⟨⟨inside, after⟩, hinside, heq⟩ := Option.map_eq_some_iff.mp h
      cases heq
      obtain ⟨inner, rfl, hquotes⟩ := ih hinside
      exact ⟨'\\' :: c :: inner, rfl, .marked hline hquotes⟩
  | case5 => exact absurd h (by simp)
  | case6 c rest hquote _ hmark ih =>
      obtain ⟨⟨inside, after⟩, hinside, heq⟩ := Option.map_eq_some_iff.mp h
      cases heq
      obtain ⟨inner, rfl, hquotes⟩ := ih hinside
      exact ⟨c :: inner, rfl, .plain hquote hmark hquotes⟩

theorem spanDigits_eq {cs tail : List Char} {digits : List Nat} (h : spanDigits cs = (digits, tail)) :
    ∃ inner, cs = inner ++ tail ∧ List.Forall₂ (fun c d => Digit.value? c = some d) inner digits := by
  induction cs generalizing digits with
  | nil =>
      cases h
      exact ⟨[], rfl, .nil⟩
  | cons c cs ih =>
      rw [spanDigits] at h
      split at h
      · next d hd =>
          cases h
          obtain ⟨inner, heq, hvalues⟩ := ih rfl
          exact ⟨c :: inner, congrArg (c :: ·) heq, .cons hd hvalues⟩
      · cases h
        exact ⟨[], rfl, .nil⟩

theorem digits_of_integer? {negative : Bool} {cs tail : List Char} {t : Token}
    (h : integer? negative cs = some (t, tail)) :
    ∃ inner digits, cs = inner ++ tail ∧ Digits inner digits ∧ t = .integer negative digits := by
  rw [integer?] at h
  split at h
  · exact absurd h (by simp)
  · next digits rest hne heq =>
      cases h
      obtain ⟨inner, rfl, hvalues⟩ := spanDigits_eq heq
      refine ⟨inner, digits, rfl, ⟨?_, hvalues⟩, rfl⟩
      rintro rfl
      exact hne (List.forall₂_nil_left_iff.mp hvalues)

/-- What the cutting takes off the front of a text is a piece. -/
theorem spells_of_front? {cs tail : List Char} {t : Token} (h : front? cs = some (t, tail)) :
    ∃ form piece, Spells form piece (some t) ∧ cs = piece ++ tail := by
  unfold front? at h
  split at h
  · exact absurd h (by simp)
  · cases h; exact ⟨_, _, .openParen, rfl⟩
  · cases h; exact ⟨_, _, .closeParen, rfl⟩
  · cases h; exact ⟨_, _, .openBrace, rfl⟩
  · cases h; exact ⟨_, _, .closeBrace, rfl⟩
  · cases h; exact ⟨_, _, .ellipsis, rfl⟩
  -- A name belongs to a dollar sign only with an equals sign after it.
  · split at h
    · next hread =>
        cases h
        obtain ⟨hname, rfl⟩ := name?_eq_some hread
        exact ⟨_, _, .named hname, by simp⟩
    · cases h; exact ⟨_, _, .numbered, rfl⟩
  · split at h
    · next hread =>
        cases h
        obtain ⟨hname, rfl⟩ := name?_eq_some hread
        exact ⟨_, _, .asking hname, by simp⟩
    · next hread =>
        cases h
        obtain ⟨hname, rfl⟩ := name?_eq_some hread
        exact ⟨_, _, .ref hname, rfl⟩
    · exact absurd h (by simp)
  · split at h
    · next name rest hread =>
        obtain ⟨hname, rfl⟩ := name?_eq_some hread
        split at h
        · next mark after hmark =>
            cases h
            cases rest with
            | nil => exact absurd hmark (by simp [symbolMark?])
            | cons c rest =>
                rw [symbolMark?, Option.ite_none_right_eq_some, Option.some.injEq,
                  Prod.mk.injEq] at hmark
                obtain ⟨hcases, rfl, rfl⟩ := hmark
                exact ⟨_, _, .marked hname hcases, by simp⟩
        · cases h; exact ⟨_, _, .symbol hname, rfl⟩
    · exact absurd h (by simp)
  · obtain ⟨⟨content, after⟩, hcontent, heq⟩ := Option.map_eq_some_iff.mp h
    cases heq
    obtain ⟨inner, rfl, hquotes⟩ := quotes_of_stringContent? hcontent
    exact ⟨_, _, .string hquotes, by simp⟩
  · obtain ⟨inner, digits, rfl, hdigits, rfl⟩ := digits_of_integer? h
    exact ⟨_, _, .negative hdigits, rfl⟩
  · split at h
    · next hint =>
        cases h
        obtain ⟨inner, digits, heq, hdigits, rfl⟩ := digits_of_integer? hint
        exact ⟨_, _, .natural hdigits, heq⟩
    · obtain ⟨⟨name, after⟩, hread, heq⟩ := Option.map_eq_some_iff.mp h
      cases heq
      obtain ⟨hname, heq⟩ := name?_eq_some hread
      exact ⟨_, _, .word hname, heq⟩

/-! ## No piece is longer than what is cut off -/

/-- A name is read together with the name characters that follow it. -/
theorem name?_of_isName {name : String} (hname : IsName name) (rest : List Char) :
    ∃ longer after, name? (name.toList ++ rest) = some (longer, after) ∧
      after.length ≤ rest.length ∧ (rest = [] → longer = name ∧ after = []) := by
  obtain ⟨c, cs, hcs, hstart, hword⟩ := hname
  have hall : ∀ d ∈ name.toList, WordChar.isWord d = true := by
    rw [hcs, List.forall_mem_cons]
    exact ⟨WordChar.isWord_of_startsName hstart, hword⟩
  refine ⟨String.ofList (name.toList ++ rest.takeWhile WordChar.isWord),
    rest.dropWhile WordChar.isWord, ?_, (List.dropWhile_suffix _).length_le, ?_⟩
  · rw [← List.takeWhile_append_of_pos hall, ← List.dropWhile_append_of_pos hall, hcs, List.cons_append,
      name?, if_pos hstart]
    rfl
  · rintro rfl
    rw [List.takeWhile_nil, List.append_nil, String.ofList_toList]
    exact ⟨rfl, rfl⟩

/-- A name is read up to a character that cannot be in it. -/
theorem name?_before {name : String} (hname : IsName name) {c : Char} (hc : WordChar.isWord c = false)
    (rest : List Char) : name? (name.toList ++ c :: rest) = some (name, c :: rest) := by
  apply name?_append hname
  intro d tail heq
  rw [← (List.cons.inj heq).1]
  exact hc

theorem stringContent?_of_quotes {inner content : List Char} (h : Quotes inner content)
    (rest : List Char) : stringContent? (inner ++ '"' :: rest) = some (content, rest) := by
  induction h with
  | nil => rw [List.nil_append, stringContent?]
  | @plain c cs content hquote hmark _ ih =>
      rw [List.cons_append]
      unfold stringContent?
      split
      · next heq => exact absurd heq (by simp)
      · next heq => exact absurd (List.cons.inj heq).1 hquote
      · next heq => exact absurd (List.cons.inj heq).1 hmark
      · next heq =>
          obtain ⟨rfl, rfl⟩ := List.cons.inj heq
          rw [if_neg hmark, ih]
          rfl
  | @marked c cs content hline _ ih =>
      rw [List.cons_append, List.cons_append, stringContent?, if_neg hline, ih]
      rfl

theorem integer?_of_digits (negative : Bool) {cs : List Char} {digits : List Nat}
    (h : Digits cs digits) (rest : List Char) :
    ∃ more tail, integer? negative (cs ++ rest) = some (.integer negative more, tail) ∧
      tail.length ≤ rest.length ∧ (rest = [] → more = digits) := by
  obtain ⟨hne, hvalues⟩ := h
  have hspan : spanDigits (cs ++ rest) = (digits ++ (spanDigits rest).1, (spanDigits rest).2) := by
    clear hne
    induction hvalues with
    | nil => rfl
    | cons hd _ ih => simp [spanDigits, hd, ih]
  have hlength := spanDigits_length rest
  have hdigits : digits ≠ [] := by
    rintro rfl
    exact hne (List.forall₂_nil_right_iff.mp hvalues)
  refine ⟨digits ++ (spanDigits rest).1, (spanDigits rest).2, ?_, by omega, ?_⟩
  · rw [integer?, hspan]
    split
    · next heq => exact absurd (List.append_eq_nil_iff.mp (Prod.mk.inj heq).1).1 hdigits
    · next heq =>
        cases heq
        rfl
  · rintro rfl
    rw [spanDigits, List.append_nil]

/-- A question mark, exclamation mark or equals sign cannot be in a name. -/
theorem isWord_mark {mark : Char} (h : mark = '?' ∨ mark = '!' ∨ mark = '=') :
    WordChar.isWord mark = false := by
  rcases h with rfl | rfl | rfl <;> rfl

/-- Where a piece stands, the cutting takes no less than it off the text; and it takes the piece as what
it stands for if nothing follows. -/
theorem Spells.front? {form : Form} {piece : List Char} {t : Token} (h : Spells form piece (some t))
    (rest : List Char) : ∃ u tail, front? (piece ++ rest) = some (u, tail) ∧
      tail.length ≤ rest.length ∧ (rest = [] → u = t) := by
  cases h with
  | openParen | closeParen | openBrace | closeBrace | ellipsis =>
      exact ⟨_, _, rfl, Nat.le_refl _, fun _ => rfl⟩
  | numbered =>
      rw [List.singleton_append, Token.front?]
      split
      · next hread =>
          have hlength := length_of_name? hread
          rw [List.length_cons] at hlength
          refine ⟨_, _, rfl, by omega, ?_⟩
          rintro rfl
          exact absurd hread (by simp [name?])
      · exact ⟨_, _, rfl, Nat.le_refl _, fun _ => rfl⟩
  | named hname =>
      rw [List.cons_append, List.append_assoc, List.singleton_append, front?_capture_some hname]
      exact ⟨_, _, rfl, Nat.le_refl _, fun _ => rfl⟩
  | ref hname =>
      obtain ⟨longer, after, hread, hlength, heq⟩ := name?_of_isName hname rest
      rw [List.cons_append, Token.front?, hread]
      split
      · next hfound =>
          cases hfound
          rw [List.length_cons] at hlength
          refine ⟨_, _, rfl, by omega, fun hrest => ?_⟩
          exact absurd (heq hrest).2 (by simp)
      · next hfound =>
          cases hfound
          exact ⟨_, _, rfl, hlength, fun hrest => by rw [(heq hrest).1]⟩
      · next hfound => exact absurd hfound (by simp)
  | asking hname =>
      have hread := name?_before hname (isWord_mark (Or.inl rfl)) rest
      rw [List.cons_append, List.append_assoc, List.singleton_append, Token.front?, hread]
      exact ⟨_, _, rfl, Nat.le_refl _, fun _ => rfl⟩
  | symbol hname =>
      obtain ⟨longer, after, hread, hlength, heq⟩ := name?_of_isName hname rest
      rw [List.cons_append, Token.front?, hread]
      cases after with
      | nil => exact ⟨_, _, rfl, hlength, fun hrest => by rw [(heq hrest).1]⟩
      | cons c after =>
          have hrest : rest ≠ [] := fun hrest => absurd (heq hrest).2 (by simp)
          simp only [symbolMark?]
          by_cases hmark : c = '?' ∨ c = '!' ∨ c = '='
          · rw [List.length_cons] at hlength
            simp only [if_pos hmark]
            exact ⟨_, _, rfl, by omega, fun h => absurd h hrest⟩
          · simp only [if_neg hmark]
            exact ⟨_, _, rfl, hlength, fun h => absurd h hrest⟩
  | marked hname hmark =>
      have hread := name?_before hname (isWord_mark hmark) rest
      rw [List.cons_append, List.append_assoc, List.singleton_append, Token.front?, hread]
      simp only [symbolMark?, if_pos hmark]
      exact ⟨_, _, rfl, Nat.le_refl _, fun _ => rfl⟩
  | string hquotes =>
      rw [List.cons_append, List.append_assoc, List.singleton_append, Token.front?,
        stringContent?_of_quotes hquotes rest]
      exact ⟨_, _, rfl, Nat.le_refl _, fun _ => rfl⟩
  | @natural cs digits hdigits =>
      obtain ⟨more, tail, hread, hlength, heq⟩ := integer?_of_digits false hdigits rest
      obtain ⟨hne, hvalues⟩ := hdigits
      cases hvalues with
      | nil => exact absurd rfl hne
      | @cons c d cs digits hd _ =>
          have hsome : (Digit.value? c).isSome = true := by rw [hd]; rfl
          have hmarks : c ∉ marks :=
            notMem_marks (p := fun c => (Digit.value? c).isSome) (by decide) hsome
          rw [List.cons_append] at hread ⊢
          rw [front?_of_notMem_marks hmarks, hread]
          exact ⟨_, _, rfl, hlength, fun hrest => by rw [heq hrest]⟩
  | negative hdigits =>
      obtain ⟨more, tail, hread, hlength, heq⟩ := integer?_of_digits true hdigits rest
      exact ⟨_, _, hread, hlength, fun hrest => by rw [heq hrest]⟩
  | word hname =>
      obtain ⟨longer, after, hread, hlength, heq⟩ := name?_of_isName hname rest
      obtain ⟨c, cs, hcs, hstart, _⟩ := hname
      have hmarks : c ∉ marks := notMem_marks (by decide) hstart
      have hdigits : integer? false (c :: (cs ++ rest)) = none := by
        simp [integer?, spanDigits, value?_of_startsName hstart]
      rw [hcs, List.cons_append] at hread ⊢
      rw [front?_of_notMem_marks hmarks, hdigits, hread]
      exact ⟨_, _, rfl, hlength, fun hrest => by rw [(heq hrest).1]⟩

/-! ## The cutting takes pieces -/

/-- A piece stands for one token. -/
theorem Spells.token_unique {form form' : Form} {piece : List Char} {t t' : Token}
    (h : Spells form piece (some t)) (h' : Spells form' piece (some t')) : t = t' := by
  obtain ⟨u, tail, hfront, _, heq⟩ := h.front? []
  obtain ⟨u', tail', hfront', _, heq'⟩ := h'.front? []
  rw [hfront, Option.some.injEq, Prod.mk.injEq] at hfront'
  rw [← heq rfl, ← heq' rfl, hfront'.1]

theorem not_spells_space {c : Char} (hc : Blank.isBlank c = false) {cs piece : List Char}
    {u : Option Token} (hpiece : piece <+: c :: cs) : ¬ Spells .space piece u := by
  intro h
  cases h with
  | space hne hblank =>
      obtain ⟨rest, heq⟩ := hpiece
      cases piece with
      | nil => exact hne rfl
      | cons d piece =>
          have hd := hblank d List.mem_cons_self
          rw [(List.cons.inj heq).1, hc] at hd
          exact absurd hd (by simp)

/-- Only white space stands for no token. -/
theorem Spells.eq_space {form : Form} {piece : List Char} (h : Spells form piece none) :
    form = .space := by
  cases h
  rfl

theorem Spells.rank_pos {form : Form} {piece : List Char} {t : Token}
    (h : Spells form piece (some t)) : Form.space.rank < form.rank := by
  cases h <;> decide

/-- Where there is no white space, the cutting takes what the grammar takes. -/
theorem takes_iff_front? {c : Char} (hc : Blank.isBlank c = false) {cs rest : List Char} {t : Token} :
    (∃ form piece, Takes (c :: cs) form piece rest (some t)) ↔
      front? (c :: cs) = some (t, rest) := by
  constructor
  · rintro ⟨form, piece, hspells, htext, _, hlongest⟩
    obtain ⟨u, tail, hfront, hlength, _⟩ := hspells.front? rest
    rw [← htext] at hfront
    obtain ⟨form', piece', hspells', htext'⟩ := spells_of_front? hfront
    -- The piece that is cut off has the same form, so it is not longer either.
    have hpiece' : piece' <+: c :: cs := ⟨tail, htext'.symm⟩
    have hform := hspells.form_unique hspells' ⟨rest, htext.symm⟩ hpiece'
    have hle := hlongest piece' _ hpiece' (hform ▸ hspells')
    have hsame : piece ++ rest = piece' ++ tail := htext.symm.trans htext'
    have hlengths := congrArg List.length hsame
    rw [List.length_append, List.length_append] at hlengths
    obtain ⟨rfl, rfl⟩ := List.append_inj hsame (by omega)
    rw [hfront, hspells.token_unique hspells']
  · intro hfront
    obtain ⟨form, piece, hspells, htext⟩ := spells_of_front? hfront
    have hpiece : piece <+: c :: cs := ⟨rest, htext.symm⟩
    refine ⟨form, piece, hspells, htext, ?_, ?_⟩
    · intro earlier hrank other u hother hspells'
      cases u with
      | none =>
          rw [hspells'.eq_space] at hspells'
          exact not_spells_space hc hother hspells'
      | some u =>
          rw [hspells'.form_unique hspells hother hpiece] at hrank
          exact absurd hrank (Nat.lt_irrefl _)
    · intro other u hother hspells'
      cases u with
      | none =>
          rw [hspells'.eq_space] at hspells'
          exact absurd hspells' (not_spells_space hc hother)
      | some u =>
          obtain ⟨after, hafter⟩ := hother
          obtain ⟨_, tail, hfront', hlength, _⟩ := hspells'.front? after
          rw [hafter, hfront, Option.some.injEq, Prod.mk.injEq] at hfront'
          have hlengths := congrArg List.length (hafter.trans htext)
          rw [List.length_append, List.length_append, hfront'.2] at hlengths
          omega

/-! ## White space -/

/-- The white space at the front of a text is one piece. -/
theorem takes_space {c : Char} (hc : Blank.isBlank c = true) (cs : List Char) :
    Takes (c :: cs) .space ((c :: cs).takeWhile Blank.isBlank) ((c :: cs).dropWhile Blank.isBlank)
      none := by
  have hblank : ∀ d ∈ (c :: cs).takeWhile Blank.isBlank, Blank.isBlank d = true :=
    List.all_eq_true.mp List.all_takeWhile
  refine ⟨.space (by simp [hc]) hblank, List.takeWhile_append_dropWhile.symm, ?_, ?_⟩
  · intro earlier hrank
    exact absurd hrank (Nat.not_lt_zero _)
  · rintro other u ⟨rest, heq⟩ hspells
    cases hspells with
    | space _ hall =>
        rw [← heq, List.takeWhile_append_of_pos hall, List.length_append]
        exact Nat.le_add_right _ _

theorem tokensFrom_blanks {blanks : List Char} (h : ∀ c ∈ blanks, Blank.isBlank c = true)
    (rest : List Char) (offset : Nat) :
    tokensFrom offset (blanks ++ rest) = tokensFrom (offset + blanks.length) rest := by
  induction blanks generalizing offset with
  | nil => rfl
  | cons c blanks ih =>
      rw [List.forall_mem_cons] at h
      rw [List.cons_append, tokensFrom, if_pos h.1, ih h.2, List.length_cons, Nat.add_assoc,
        Nat.add_comm 1]

/-! ## The tokens of a text -/

theorem Splits.cuts {cs : List Char} {ts : List Token} (h : Splits cs ts) : Cuts cs ts := by
  induction h with
  | nil => exact cuts_nil
  | @cons cs piece rest form t ts htakes _ ih =>
      cases t with
      | none =>
          obtain ⟨hspells, rfl, _, _⟩ := htakes
          cases hspells with
          | space _ hblank =>
              intro offset
              rw [tokensFrom_blanks hblank]
              exact ih _
      | some t =>
          obtain ⟨c, tail, hpiece, _⟩ := htakes.spells.form_eq
          have htext : cs = c :: (tail ++ rest) := by rw [htakes.text, hpiece, List.cons_append]
          subst htext
          -- White space would have been taken first.
          have hc : Blank.isBlank c = false := by
            rw [Bool.eq_false_iff]
            intro hblank
            apply htakes.first .space htakes.spells.rank_pos [c] none ⟨tail ++ rest, rfl⟩
            exact .space (by simp) (by simpa using hblank)
          exact Cuts.front hc ((takes_iff_front? hc).mp ⟨form, piece, htakes⟩) ih

theorem splits_of_tokensFrom {offset : Nat} {cs : List Char} {ts : List Token}
    (h : tokensFrom offset cs = .ok ts) : Splits cs ts := by
  -- The induction is on the length, as a piece can be any number of characters.
  induction hn : cs.length using Nat.strongRecOn generalizing offset cs ts with
  | _ n ih =>
      subst hn
      cases cs with
      | nil =>
          rw [tokensFrom, Except.ok.injEq] at h
          rw [← h]
          exact .nil
      | cons c cs =>
          cases hc : Blank.isBlank c with
          | true =>
              have htakes := takes_space hc cs
              have hrest : ((c :: cs).dropWhile Blank.isBlank).length < (c :: cs).length := by
                rw [List.dropWhile_cons_of_pos hc]
                exact Nat.lt_succ_of_le (List.dropWhile_suffix _).length_le
              have hblank : ∀ d ∈ (c :: cs).takeWhile Blank.isBlank, Blank.isBlank d = true :=
                List.all_eq_true.mp List.all_takeWhile
              rw [htakes.text, tokensFrom_blanks hblank] at h
              exact .cons htakes (ih _ hrest h rfl)
          | false =>
              rw [tokensFrom, if_neg (by simp [hc])] at h
              split at h
              · next t tail hfront =>
                  obtain ⟨others, hothers, rfl⟩ := map_eq_ok.mp h
                  obtain ⟨form, piece, htakes⟩ := (takes_iff_front? hc).mpr hfront
                  exact .cons htakes (ih _ (length_of_front? hfront) hothers rfl)
              · exact absurd h (by simp)

/-- The tokens of a text are those of the pieces into which it splits. -/
theorem tokens_eq_ok {source : String} {ts : List Token} :
    tokens source = .ok ts ↔ Splits source.toList ts :=
  ⟨splits_of_tokensFrom, fun h => h.cuts 0⟩

end IdiomLint.Token
