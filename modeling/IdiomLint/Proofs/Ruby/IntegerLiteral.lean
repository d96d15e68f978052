import Mathlib.Data.Nat.Digits.Defs
import Mathlib.Tactic.IntervalCases
import IdiomLint.Proofs.Fallible
import IdiomLint.Proofs.Idiom.Writing
import IdiomLint.Proofs.Number.Decimal
import IdiomLint.Ruby.Conversion

/-!
# What integer literals denote

`Literal text n` says that a text is an integer literal for a number, by the form of the literal alone: its digits
stand in the base that its mark or its first zero gives, single underscores may stand between them, and a sign may
stand in front. The number is the one whose digits in that base are the digits of the literal.

Main statement: a literal is read as the number that it denotes, a literal that begins with a zero and has a digit
beyond seven is not read at all, and a number that was written in decimal is read again, in a replacement too
(`integerLiteral?_denotes`).
-/

namespace IdiomLint.Ruby

/-! ## Literals -/

/-- The character is the digit of a value, a letter of either case beyond nine. -/
def IsDigitOf (c : Char) (d : Nat) : Prop :=
  "0123456789abcdef".toList[d]? = some c ∨ "0123456789ABCDEF".toList[d]? = some c

/-- Digits with single underscores between them, and the values of the digits, all below the base. -/
inductive Spelled (base : Nat) : List Char → List Nat → Prop
  | last {c : Char} {d : Nat} : d < base → IsDigitOf c d → Spelled base [c] [d]
  | next {c : Char} {d : Nat} {cs : List Char} {ds : List Nat} : d < base → IsDigitOf c d →
      Spelled base cs ds → Spelled base (c :: cs) (d :: ds)
  | spaced {c : Char} {d : Nat} {cs : List Char} {ds : List Nat} : d < base → IsDigitOf c d →
      Spelled base cs ds → Spelled base (c :: '_' :: cs) (d :: ds)

/-- The number with the given digits, of which the first one counts most. -/
def numberOf (base : Nat) (ds : List Nat) : Nat := Nat.ofDigits base ds.reverse

/-- The marks of bases other than ten. -/
def baseMarks : List (Char × Nat) := [('x', 16), ('X', 16), ('o', 8), ('O', 8), ('b', 2), ('B', 2)]

/-- The integer literals without a sign, and the numbers they denote. Decimal digits are limited in number. -/
inductive Unsigned : List Char → Nat → Prop
  /-- Of decimal literals only the zero begins with a zero. -/
  | decimal {cs : List Char} {d : Nat} {ds : List Nat} : Spelled 10 cs (d :: ds) → (d = 0 → ds = []) →
      (d :: ds).length ≤ 4300 → Unsigned cs (numberOf 10 (d :: ds))
  | markedDecimal {mark : Char} {cs : List Char} {ds : List Nat} : mark ∈ ['d', 'D'] → Spelled 10 cs ds →
      ds.length ≤ 4300 → Unsigned ('0' :: mark :: cs) (numberOf 10 ds)
  | marked {mark : Char} {base : Nat} {cs : List Char} {ds : List Nat} : (mark, base) ∈ baseMarks →
      Spelled base cs ds → Unsigned ('0' :: mark :: cs) (numberOf base ds)
  /-- A zero before other digits. -/
  | octal {cs : List Char} {d : Nat} {ds : List Nat} : Spelled 8 cs (0 :: d :: ds) →
      Unsigned cs (numberOf 8 (0 :: d :: ds))

/-- The integer literals, and the numbers they denote. -/
inductive Literal (text : String) : Int → Prop
  | unsigned {n : Nat} : Unsigned text.toList n → Literal text n
  | positive {cs : List Char} {n : Nat} : text.toList = '+' :: cs → Unsigned cs n → Literal text n
  | negative {cs : List Char} {n : Nat} : text.toList = '-' :: cs → Unsigned cs n → Literal text (-n)

/-- Decimal digits after a zero, one of them beyond seven. -/
def BeyondOctal (cs : List Char) : Prop := ∃ d ds, Spelled 10 cs (0 :: d :: ds) ∧ ∃ e ∈ d :: ds, 8 ≤ e

/-- A text that begins with a zero like an octal literal, perhaps behind a sign, but is none. -/
def FalseOctal (text : String) : Prop :=
  BeyondOctal text.toList ∨ ∃ sign cs, sign ∈ ['+', '-'] ∧ text.toList = sign :: cs ∧ BeyondOctal cs

/-! ## Digits one by one -/

/-- The characters that an integer literal consists of, but for signs and underscores. -/
def literalChars : List Char := "0123456789abcdefABCDEFxXoOdD".toList

theorem isDigitOf_iff {c : Char} {d : Nat} :
    IsDigitOf c d ↔ (c, d) ∈ "0123456789abcdef".toList.zipIdx ∨ (c, d) ∈ "0123456789ABCDEF".toList.zipIdx := by
  rw [IsDigitOf, List.mem_zipIdx_iff_getElem?, List.mem_zipIdx_iff_getElem?]

/-- What holds of the digits of either case holds of all digits. -/
theorem forall_isDigitOf {p : Char → Nat → Prop} (hlower : ∀ e ∈ "0123456789abcdef".toList.zipIdx, p e.1 e.2)
    (hupper : ∀ e ∈ "0123456789ABCDEF".toList.zipIdx, p e.1 e.2) {c : Char} {d : Nat} (h : IsDigitOf c d) : p c d := by
  rcases isDigitOf_iff.mp h with h | h
  · exact hlower _ h
  · exact hupper _ h

theorem IsDigitOf.mem_literalChars {c : Char} {d : Nat} (h : IsDigitOf c d) : c ∈ literalChars :=
  forall_isDigitOf (p := fun c _ => c ∈ literalChars) (by decide) (by decide) h

theorem IsDigitOf.digitValue? {c : Char} {d : Nat} (h : IsDigitOf c d) : Integer.digitValue? c = some d :=
  forall_isDigitOf (p := fun c d => Integer.digitValue? c = some d) (by decide) (by decide) h

theorem ne_of_mem_literalChars {c : Char} (h : c ∈ literalChars) : c ≠ '_' ∧ c ≠ '-' ∧ c ≠ '+' := by
  have hall : (literalChars.all fun c => decide (c ≠ '_' ∧ c ≠ '-' ∧ c ≠ '+')) = true := by decide
  exact of_decide_eq_true (List.all_eq_true.mp hall c h)

theorem mem_literalChars_of_decimalMark {c : Char} (h : c = 'd' ∨ c = 'D') : c ∈ literalChars := by
  rcases h with rfl | rfl <;> decide

/-- A literal without its underscores. -/
def withoutUnderscores (cs : List Char) : List Char := cs.filter (· != '_')

theorem withoutUnderscores_cons {c : Char} (h : c ∈ literalChars) (cs : List Char) :
    withoutUnderscores (c :: cs) = c :: withoutUnderscores cs :=
  List.filter_cons_of_pos (bne_iff_ne.mpr (ne_of_mem_literalChars h).1)

/-- The digits that are spelled are left when the underscores are taken out. -/
theorem Spelled.digits {base : Nat} {cs : List Char} {ds : List Nat} (h : Spelled base cs ds) :
    List.Forall₂ IsDigitOf (withoutUnderscores cs) ds ∧ (∀ d ∈ ds, d < base) ∧ ds ≠ [] := by
  induction h with
  | last hd hc =>
      rw [withoutUnderscores_cons hc.mem_literalChars]
      exact ⟨.cons hc .nil, List.forall_mem_singleton.mpr hd, List.cons_ne_nil _ _⟩
  | next hd hc _ ih =>
      rw [withoutUnderscores_cons hc.mem_literalChars]
      exact ⟨.cons hc ih.1, List.forall_mem_cons.mpr ⟨hd, ih.2.1⟩, List.cons_ne_nil _ _⟩
  | spaced hd hc _ ih =>
      rw [withoutUnderscores_cons hc.mem_literalChars]
      exact ⟨.cons hc ih.1, List.forall_mem_cons.mpr ⟨hd, ih.2.1⟩, List.cons_ne_nil _ _⟩

theorem mem_literalChars_of_digits {ws : List Char} {ds : List Nat} (h : List.Forall₂ IsDigitOf ws ds) :
    ∀ c ∈ ws, c ∈ literalChars := by
  induction h with
  | nil => exact List.forall_mem_nil _
  | cons hc _ ih => exact List.forall_mem_cons.mpr ⟨hc.mem_literalChars, ih⟩

/-! ## Reading digits -/

/-- Digits have their values in a base, unless one of them is not below the base. -/
theorem digitValues?_of_digits {base : Nat} {ws : List Char} {ds : List Nat} (h : List.Forall₂ IsDigitOf ws ds)
    (hne : ds ≠ []) : Integer.digitValues? base ws = if ∀ d ∈ ds, d < base then some ds else none := by
  induction h with
  | nil => exact absurd rfl hne
  | @cons c d ws ds hc hws ih =>
      have hfirst : Integer.digitValue? c = some d := hc.digitValue?
      cases hws with
      | nil =>
          rw [Integer.digitValues?, hfirst, Option.bind_some]
          simp only [List.forall_mem_singleton]
      | @cons c' d' ws ds hc' hws =>
          have hrest := ih (List.cons_ne_nil _ _)
          have hmark : c' ≠ '_' := (ne_of_mem_literalChars hc'.mem_literalChars).1
          rw [Integer.digitValues?, hfirst, hrest]
          · show (if d < base then _ else _) = _
            have hall : (∀ e ∈ d :: d' :: ds, e < base) ↔ d < base ∧ ∀ e ∈ d' :: ds, e < base := List.forall_mem_cons
            by_cases hd : d < base
            · by_cases hds : ∀ e ∈ d' :: ds, e < base
              · rw [if_pos hd, if_pos hds, if_pos (hall.mpr ⟨hd, hds⟩)]
                rfl
              · rw [if_pos hd, if_neg hds, if_neg fun h => hds (hall.mp h).2]
                rfl
            · rw [if_neg hd, if_neg fun h => hd (hall.mp h).1]
          · simp
          · rintro _ heq
            exact hmark (List.cons.inj heq).1

theorem ofDigits_eq_numberOf (base : Nat) (ds : List Nat) : Integer.ofDigits base ds = numberOf base ds := by
  rw [Integer.ofDigits, numberOf, Nat.ofDigits_eq_foldr, List.foldr_reverse]
  simp [Nat.mul_comm, Nat.add_comm]

/-- Digits below the base are read as the number that they denote, if there are not too many of them. -/
theorem natural?_of_digits {base : Nat} {ws : List Char} {ds : List Nat} (h : List.Forall₂ IsDigitOf ws ds)
    (hne : ds ≠ []) (hds : ∀ d ∈ ds, d < base) (hlimit : base = 10 → ds.length ≤ 4300)
    (hbase : base ∈ [2, 8, 10, 16]) : Integer.natural? base ws = some (numberOf base ds) := by
  have hover : Integer.overLimit base ds = false := by
    simp only [List.mem_cons, List.not_mem_nil, or_false] at hbase
    rcases hbase with rfl | rfl | rfl | rfl
    · rfl
    · rfl
    · exact Bool.eq_false_iff.mpr fun hover => absurd (Integer.overLimit_ten.mp hover) (Nat.not_lt.mpr (hlimit rfl))
    · rfl
  rw [Integer.natural?, digitValues?_of_digits h hne, if_pos hds]
  show (if Integer.overLimit base ds then none else some (Integer.ofDigits base ds)) = _
  rw [hover, if_neg Bool.false_ne_true, ofDigits_eq_numberOf]

/-- Nothing in a literal is a blank around a number, a sign or a digit of another script. -/
theorem read?_of_literalChars {base : Integer.Base} {ws : List Char} (h : ∀ c ∈ ws, c ∈ literalChars) :
    Integer.read? base ws = (Integer.unsigned? base ws).map fun n => (n : Int) := by
  have hall : (literalChars.all fun c => decide (Digit.toAscii c = c ∧ Integer.isMargin c = false)) = true := by decide
  have hplain : ∀ c ∈ literalChars, Digit.toAscii c = c ∧ Integer.isMargin c = false :=
    fun c hc => of_decide_eq_true (List.all_eq_true.mp hall c hc)
  have hascii : ws.map Digit.toAscii = ws := (List.map_congr_left fun c hc => (hplain c (h c hc)).1).trans (List.map_id' ws)
  rw [Integer.read?, hascii, Blank.trimBoth_eq_self fun c hc => (hplain c (h c hc)).2, Integer.signed?]
  · rintro cs rfl
    exact (ne_of_mem_literalChars (h _ List.mem_cons_self)).2.1 rfl
  · rintro cs rfl
    exact (ne_of_mem_literalChars (h _ List.mem_cons_self)).2.2 rfl

/-! ## Reading literals -/

theorem isDecimal_of_digit {c : Char} {d : Nat} (h : IsDigitOf c d) (hd : d < 10) :
    Digit.isDecimal c = true ∧ c ≠ 'd' ∧ c ≠ 'D' ∧ c.toLower ≠ 'o' :=
  forall_isDigitOf (p := fun c d => d < 10 → Digit.isDecimal c = true ∧ c ≠ 'd' ∧ c ≠ 'D' ∧ c.toLower ≠ 'o')
    (by decide) (by decide) h hd

theorem eq_zero_iff_of_digit {c : Char} {d : Nat} (h : IsDigitOf c d) : c = '0' ↔ d = 0 :=
  forall_isDigitOf (p := fun c d => c = '0' ↔ d = 0) (by decide) (by decide) h

theorem unsignedLiteral?_of_zero {c : Char} {d : Nat} {ws : List Char} {ds : List Nat} (hc : IsDigitOf c d)
    (hd : d < 10) (hws : List.Forall₂ IsDigitOf ws ds) :
    unsignedLiteral? ('0' :: c :: ws) = (Integer.natural? 8 ('0' :: c :: ws)).map fun n => (n : Int) := by
  obtain ⟨hdecimal, hlower, hupper, hmark⟩ := isDecimal_of_digit hc hd
  have hall : ∀ c' ∈ '0' :: c :: ws, c' ∈ literalChars :=
    List.forall_mem_cons.mpr ⟨by decide, List.forall_mem_cons.mpr ⟨hc.mem_literalChars, mem_literalChars_of_digits hws⟩⟩
  rw [unsignedLiteral?, if_neg (by simp [hlower, hupper]), if_pos hdecimal, read?_of_literalChars hall,
    Integer.unsigned?, Integer.afterMark, if_neg]
  intro h
  exact hmark (Option.some.inj h).symm

theorem afterMark_ten (ws : List Char) : Integer.afterMark 10 ws = ws := by
  rw [Integer.afterMark.eq_def]
  split
  · next c rest heq => rw [show Integer.mark? 10 = none from rfl, if_neg (by simp)]
  · rfl

/-- Behind the mark of a base stands a number in that base. -/
theorem unsigned?_marked {mark : Char} {base : Nat} {ws : List Char} (hmark : (mark, base) ∈ baseMarks)
    (h : ∀ c ∈ ws, c ∈ literalChars) :
    Integer.unsigned? .marked ('0' :: mark :: ws) = Integer.natural? base ws := by
  have hskip : Integer.skipUnderscore ws = ws := by
    rw [Integer.skipUnderscore.eq_def]
    split
    · exact absurd rfl (ne_of_mem_literalChars (h _ List.mem_cons_self)).1
    · rfl
  simp only [baseMarks, List.mem_cons, Prod.mk.injEq, List.not_mem_nil, or_false] at hmark
  rcases hmark with ⟨rfl, rfl⟩ | ⟨rfl, rfl⟩ | ⟨rfl, rfl⟩ | ⟨rfl, rfl⟩ | ⟨rfl, rfl⟩ | ⟨rfl, rfl⟩ <;>
    rw [Integer.unsigned?, hskip] <;> rfl

/-- An unsigned literal is read as the number that it denotes. -/
theorem unsignedLiteral?_of_unsigned {cs : List Char} {n : Nat} (h : Unsigned cs n) :
    unsignedLiteral? (withoutUnderscores cs) = some (n : Int) := by
  cases h with
  | @decimal cs d ds hcs hzero hlimit =>
      obtain ⟨hdigits, hbelow, hne⟩ := hcs.digits
      have hread := natural?_of_digits hdigits hne hbelow (fun _ => hlimit) (by decide)
      have hall := mem_literalChars_of_digits hdigits
      generalize withoutUnderscores cs = ws at *
      -- Behind a zero there is no other digit.
      have hsingle : ∀ c rest, ws ≠ '0' :: c :: rest := by
        rintro c rest rfl
        cases hdigits with
        | cons hc hrest =>
            rw [hzero ((eq_zero_iff_of_digit hc).mp rfl)] at hrest
            cases hrest
      rw [unsignedLiteral?, read?_of_literalChars hall, Integer.unsigned?, hread]
      · rfl
      · exact fun c rest heq => hsingle c rest heq
      · exact fun c rest heq => hsingle c rest heq
  | @markedDecimal mark cs ds hmark hcs hlimit =>
      obtain ⟨hdigits, hbelow, hne⟩ := hcs.digits
      have hread := natural?_of_digits hdigits hne hbelow (fun _ => hlimit) (by decide)
      have hmark := List.mem_pair.mp hmark
      have hliteral := mem_literalChars_of_decimalMark hmark
      rw [withoutUnderscores_cons (by decide), withoutUnderscores_cons hliteral, unsignedLiteral?, if_pos hmark,
        read?_of_literalChars (mem_literalChars_of_digits hdigits), Integer.unsigned?, afterMark_ten, hread]
      rfl
  | @marked mark base cs ds hmark hcs =>
      obtain ⟨hdigits, hbelow, hne⟩ := hcs.digits
      have hmarks : ∀ entry ∈ baseMarks, entry.2 ∈ [2, 8, 10, 16] ∧ entry.2 ≠ 10 ∧ entry.1 ∈ literalChars ∧
          ¬ (entry.1 = 'd' ∨ entry.1 = 'D') ∧ Digit.isDecimal entry.1 = false := by decide
      obtain ⟨hbase, hten, hliteral, hdecimal, hdigit⟩ := hmarks _ hmark
      have hread := natural?_of_digits hdigits hne hbelow (fun h => absurd h hten) hbase
      have hall := mem_literalChars_of_digits hdigits
      rw [withoutUnderscores_cons (by decide), withoutUnderscores_cons hliteral]
      rw [unsignedLiteral?, if_neg hdecimal, if_neg (Bool.eq_false_iff.mp hdigit), read?_of_literalChars
        (List.forall_mem_cons.mpr ⟨by decide, List.forall_mem_cons.mpr ⟨hliteral, hall⟩⟩), unsigned?_marked hmark hall, hread]
      rfl
  | @octal cs d ds hcs =>
      obtain ⟨hdigits, hbelow, hne⟩ := hcs.digits
      have hread := natural?_of_digits hdigits hne hbelow (fun h => absurd h (by decide)) (by decide)
      generalize withoutUnderscores cs = ws at *
      cases hdigits with
      | @cons z _ _ _ hz hrest =>
          cases hrest with
          | @cons c _ ws _ hc hws =>
              obtain rfl := (eq_zero_iff_of_digit hz).mpr rfl
              have hd : d < 10 := Nat.lt_trans (hbelow d (by simp)) (by decide)
              rw [unsignedLiteral?_of_zero hc hd hws, hread]
              rfl

theorem mem_literalChars_of_unsigned {cs : List Char} {n : Nat} (h : Unsigned cs n) :
    ∀ c ∈ withoutUnderscores cs, c ∈ literalChars := by
  have hzero : ∀ {mark : Char} {cs : List Char} {ds : List Nat} {base : Nat}, mark ∈ literalChars →
      Spelled base cs ds → ∀ c ∈ withoutUnderscores ('0' :: mark :: cs), c ∈ literalChars := by
    intro mark cs ds base hmark hcs
    rw [withoutUnderscores_cons (by decide), withoutUnderscores_cons hmark]
    exact List.forall_mem_cons.mpr ⟨by decide, List.forall_mem_cons.mpr
      ⟨hmark, mem_literalChars_of_digits hcs.digits.1⟩⟩
  cases h with
  | decimal hcs _ _ => exact mem_literalChars_of_digits hcs.digits.1
  | markedDecimal hmark hcs _ => exact hzero (mem_literalChars_of_decimalMark (List.mem_pair.mp hmark)) hcs
  | marked hmark hcs =>
      have hmarks : ∀ entry ∈ baseMarks, entry.1 ∈ literalChars := by decide
      exact hzero (hmarks _ hmark) hcs
  | octal hcs => exact mem_literalChars_of_digits hcs.digits.1

theorem integerLiteral?_of_literalChars {text : String}
    (h : ∀ c ∈ withoutUnderscores text.toList, c ∈ literalChars) :
    integerLiteral? text = unsignedLiteral? (withoutUnderscores text.toList) := by
  rw [withoutUnderscores] at h ⊢
  rw [integerLiteral?]
  split
  · next heq =>
      rw [heq] at h
      exact absurd rfl (ne_of_mem_literalChars (h _ List.mem_cons_self)).2.1
  · next heq =>
      rw [heq] at h
      exact absurd rfl (ne_of_mem_literalChars (h _ List.mem_cons_self)).2.2
  · rfl

theorem integerLiteral?_of_minus {text : String} {cs : List Char} (h : text.toList = '-' :: cs) :
    integerLiteral? text = (unsignedLiteral? (withoutUnderscores cs)).map fun n => -n := by
  rw [integerLiteral?, h]
  rfl

theorem integerLiteral?_of_plus {text : String} {cs : List Char} (h : text.toList = '+' :: cs) :
    integerLiteral? text = unsignedLiteral? (withoutUnderscores cs) := by
  rw [integerLiteral?, h]
  rfl

/-- A literal is read as the number that it denotes. -/
theorem integerLiteral?_of_literal {text : String} {n : Int} (h : Literal text n) : integerLiteral? text = some n := by
  cases h with
  | unsigned h =>
      rw [integerLiteral?_of_literalChars (mem_literalChars_of_unsigned h), unsignedLiteral?_of_unsigned h]
  | positive htext h => rw [integerLiteral?_of_plus htext, unsignedLiteral?_of_unsigned h]
  | negative htext h =>
      rw [integerLiteral?_of_minus htext, unsignedLiteral?_of_unsigned h]
      rfl

/-! ## Texts that are not read -/

theorem unsignedLiteral?_of_beyondOctal {cs : List Char} (h : BeyondOctal cs) :
    unsignedLiteral? (withoutUnderscores cs) = none ∧ ∀ c ∈ withoutUnderscores cs, c ∈ literalChars := by
  obtain ⟨d, ds, hcs, e, he, hlarge⟩ := h
  obtain ⟨hdigits, hbelow, hne⟩ := hcs.digits
  refine ⟨?_, mem_literalChars_of_digits hdigits⟩
  have hnone : Integer.natural? 8 (withoutUnderscores cs) = none := by
    rw [Integer.natural?, digitValues?_of_digits hdigits hne, if_neg]
    · rfl
    · exact fun hall => absurd (hall e (List.mem_cons_of_mem 0 he)) (Nat.not_lt.mpr hlarge)
  generalize withoutUnderscores cs = ws at *
  cases hdigits with
  | @cons z _ _ _ hz hrest =>
      cases hrest with
      | @cons c _ ws _ hc hws =>
          obtain rfl := (eq_zero_iff_of_digit hz).mpr rfl
          rw [unsignedLiteral?_of_zero hc (hbelow d (by simp)) hws, hnone]
          rfl

/-- What begins like an octal literal and is none has no value. -/
theorem integerLiteral?_of_falseOctal {text : String} (h : FalseOctal text) : integerLiteral? text = none := by
  rcases h with h | ⟨sign, cs, hsign, htext, h⟩
  · obtain ⟨hnone, hall⟩ := unsignedLiteral?_of_beyondOctal h
    rw [integerLiteral?_of_literalChars hall, hnone]
  · obtain ⟨hnone, _⟩ := unsignedLiteral?_of_beyondOctal h
    rcases List.mem_pair.mp hsign with rfl | rfl
    · rw [integerLiteral?_of_plus htext, hnone]
    · rw [integerLiteral?_of_minus htext, hnone]
      rfl

/-! ## Written numbers -/

theorem isDigitOf_of_isDigit {c : Char} (h : c.isDigit = true) :
    c.toNat - '0'.toNat < 10 ∧ IsDigitOf c (c.toNat - '0'.toNat) := by
  obtain ⟨hfirst, hlast⟩ := Digit.toNat_of_isDigit h
  rw [← Char.ofNat_toNat c]
  generalize c.toNat = k at hfirst hlast
  interval_cases k <;> exact ⟨by decide, Or.inl rfl⟩

/-- ASCII digits one after the other spell their values. -/
theorem spelled_of_isDigit {cs : List Char} (hne : cs ≠ []) (h : ∀ c ∈ cs, c.isDigit = true) :
    Spelled 10 cs (cs.map fun c => c.toNat - '0'.toNat) := by
  induction cs with
  | nil => exact absurd rfl hne
  | cons c cs ih =>
      obtain ⟨hc, hcs⟩ := List.forall_mem_cons.mp h
      obtain ⟨hlt, hdigit⟩ := isDigitOf_of_isDigit hc
      cases cs with
      | nil => exact .last hlt hdigit
      | cons c' cs => exact .next hlt hdigit (ih (List.cons_ne_nil _ _) hcs)

/-- A natural number in decimal is a literal for it. -/
theorem unsigned_toDigits {k : Nat} (h : (Nat.toDigits 10 k).length ≤ 4300) : Unsigned (Nat.toDigits 10 k) k := by
  have hspelled : Spelled 10 (Nat.toDigits 10 k) (Integer.decimalDigits k) :=
    spelled_of_isDigit Nat.toDigits_ne_nil fun c hc => Integer.isDigit_of_mem_toDigits hc
  have hvalue : numberOf 10 (Integer.decimalDigits k) = k := by
    rw [← ofDigits_eq_numberOf, Integer.ofDigits_decimalDigits]
  have hlength : (Integer.decimalDigits k).length ≤ 4300 := by rwa [Integer.decimalDigits, List.length_map]
  obtain ⟨c, cs, hchars⟩ := List.exists_cons_of_ne_nil (Nat.toDigits_ne_nil (b := 10) (n := k))
  have hdigits : Integer.decimalDigits k = (c.toNat - '0'.toNat) :: cs.map fun c => c.toNat - '0'.toNat := by
    rw [Integer.decimalDigits, hchars]
    rfl
  have hc : c.isDigit = true := Integer.isDigit_of_mem_toDigits (n := k) (hchars ▸ List.mem_cons_self)
  rw [hdigits] at hspelled hvalue hlength
  have hliteral := Unsigned.decimal hspelled (fun hzero => ?_) hlength
  · rwa [hvalue] at hliteral
  · -- A number does not begin with a zero unless it is the zero.
    obtain rfl := (eq_zero_iff_of_digit (isDigitOf_of_isDigit hc).2).mpr hzero
    rw [Integer.eq_nil_of_toDigits_zero hchars]
    rfl

/-- What is written for a number in decimal is a literal for it. -/
theorem literal_of_decimal? {n : Int} {text : String} (h : Integer.decimal? n = some text) : Literal text n := by
  rw [Integer.decimal?, Option.ite_none_right_eq_some] at h
  obtain ⟨hlimit, h⟩ := h
  obtain rfl := Option.some.inj h
  rw [← Integer.length_decimalDigits_le_iff (by decide), Integer.decimalDigits, List.length_map] at hlimit
  cases n with
  | ofNat k =>
      refine .unsigned ?_
      rw [Integer.decimal, String.toList_ofList]
      exact unsigned_toDigits hlimit
  | negSucc k =>
      exact .negative (String.toList_ofList (l := '-' :: Nat.toDigits 10 (k + 1))) (unsigned_toDigits hlimit)

theorem exists_decimal? {n : Int} (h : (Nat.toDigits 10 n.natAbs).length ≤ 4300) :
    ∃ text, Integer.decimal? n = some text := by
  have hfew : (Integer.decimalDigits n.natAbs).length ≤ Integer.digitLimit := by
    rw [Integer.decimalDigits, List.length_map]
    exact h
  exact ⟨Integer.decimal n, if_pos ((Integer.length_decimalDigits_le_iff (by decide)).mp hfew)⟩

/-! ## Literals and numbers -/

/-- A literal is read as the number that it denotes, and what begins like an octal literal and is none is not read. A
number that has few enough digits is written so that it is read again, and so is the count in a replacement. -/
theorem integerLiteral?_denotes :
    (∀ text n, Literal text n → integerLiteral? text = some n) ∧
    (∀ text, FalseOctal text → integerLiteral? text = none) ∧
    (∀ n : Int, (Nat.toDigits 10 n.natAbs).length ≤ 4300 →
      ∃ text, Integer.decimal? n = some text ∧ integerLiteral? text = some n) ∧
    ∀ (i : Idiom) (text : String), i.replacement = .ok text → ∃ factory count options,
      text = i.receiverText ++ "create_list" ++ (if i.createCall.parenthesized then "(" else " ") ++
        (":" ++ factory ++ ", " ++ count ++ options) ++ (if i.createCall.parenthesized then ")" else "") ∧
      ∀ (source : List UInt8) (n : ConcreteNode), n.form = .integer → n.text source = count →
        convert source n = .ok (n.build source "int" [.int i.count]) := by
  refine ⟨fun text n => integerLiteral?_of_literal, fun text => integerLiteral?_of_falseOctal, fun n h => ?_,
    fun i text h => ?_⟩
  · obtain ⟨text, htext⟩ := exists_decimal? h
    exact ⟨text, htext, integerLiteral?_of_literal (literal_of_decimal? htext)⟩
  · obtain ⟨arguments, harguments, htext⟩ := Idiom.of_replacement h
    obtain ⟨factory, count, options, _, hcount, _, rfl⟩ := Idiom.of_argumentTexts harguments
    refine ⟨factory, count, options, ?_, fun source n hform hn => ?_⟩
    · rw [htext]
      split
      · rfl
      · rw [String.append_empty]
    · rw [convert, hform]
      show Except.ok (n.build source "int" [integerValue (n.text source)]) = _
      rw [hn, integerValue, integerLiteral?_of_literal (literal_of_decimal? hcount)]

/-- A call that is repeated 255 times. -/
def repeatedOften : Idiom where
  block := { kind := "block" }
  repeatCall := { kind := "send" }
  countNode := { kind := "int" }
  count := 255
  createCall := { kind := "send" }
  receiver := .nil
  factory := .text "user"
  options := []

theorem integerLiteral?_denotes_signed :
    Literal "-0x1F_f" (-511) ∧ integerLiteral? "-0x1F_f" = some (-511) ∧
    FalseOctal "+0_18" ∧ integerLiteral? "+0_18" = none ∧
    (Nat.toDigits 10 (-120 : Int).natAbs).length ≤ 4300 ∧
    (∃ text, Integer.decimal? (-120) = some text ∧ integerLiteral? text = some (-120)) ∧
    repeatedOften.replacement = .ok "create_list :user, 255" ∧ ∃ factory count options,
      "create_list :user, 255" = repeatedOften.receiverText ++ "create_list" ++
        (if repeatedOften.createCall.parenthesized then "(" else " ") ++
        (":" ++ factory ++ ", " ++ count ++ options) ++ (if repeatedOften.createCall.parenthesized then ")" else "") ∧
      ∀ (source : List UInt8) (n : ConcreteNode), n.form = .integer → n.text source = count →
        convert source n = .ok (n.build source "int" [.int repeatedOften.count]) := by
  obtain ⟨hliteral, hnone, hwritten, hreplaced⟩ := integerLiteral?_denotes
  have hhex : Literal "-0x1F_f" (-511) := by
    have hdigits : Spelled 16 "1F_f".toList [1, 15, 15] :=
      .next (by decide) (Or.inl rfl) (.spaced (by decide) (Or.inr rfl) (.last (by decide) (Or.inl rfl)))
    exact .negative rfl (.marked (by decide) hdigits)
  have hoctal : FalseOctal "+0_18" := by
    have hdigits : Spelled 10 "0_18".toList [0, 1, 8] :=
      .spaced (by decide) (Or.inl rfl) (.next (by decide) (Or.inl rfl) (.last (by decide) (Or.inl rfl)))
    exact Or.inr ⟨'+', "0_18".toList, by decide, rfl, 1, [8], hdigits, 8, by decide, by decide⟩
  have hfew : (Nat.toDigits 10 (-120 : Int).natAbs).length ≤ 4300 := by decide
  have hreplacement : repeatedOften.replacement = .ok "create_list :user, 255" := by decide +kernel
  exact ⟨hhex, hliteral _ _ hhex, hoctal, hnone _ hoctal, hfew, hwritten _ hfew, hreplacement,
    hreplaced _ _ hreplacement⟩

end IdiomLint.Ruby
