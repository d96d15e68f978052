import IdiomLint.Proofs.Json.Number

/-!
# Reading printed fractions

A floating-point number is printed with a point or a power of ten (`isFractional_layout`), so what is read back is a
floating-point number and never an integer (`number?_fractional`). Its sign comes back with it: a number that is not
below zero is read back as one that is not below zero (`number?_text`).
-/

namespace IdiomLint.JsonToken

open Binary64

/-! ## Numbers with a point or a power -/

/-- Digits without a superfluous zero in front. -/
structure IsWhole (whole : List Char) : Prop where
  digits : ∀ c ∈ whole, c.isDigit = true
  first : whole = ['0'] ∨ ∃ d rest, whole = d :: rest ∧ d ≠ '0'

/-- A point with digits, or nothing. -/
inductive IsPoint : List Char → Prop where
  | none : IsPoint []
  | digits {ds : List Char} (hne : ds ≠ []) (h : ∀ c ∈ ds, c.isDigit = true) : IsPoint ('.' :: ds)

/-- A power of ten with its sign, or nothing. -/
inductive IsPower : List Char → Prop where
  | none : IsPower []
  | digits {mark : Char} {ds : List Char} (hmark : mark = '+' ∨ mark = '-') (hne : ds ≠ [])
    (h : ∀ c ∈ ds, c.isDigit = true) : IsPower ('e' :: mark :: ds)

/-- A number without sign, with a point or a power. -/
inductive IsFractional : List Char → Prop where
  | mk {whole point power : List Char} (hwhole : IsWhole whole) (hpoint : IsPoint point) (hpower : IsPower power)
    (hne : point ++ power ≠ []) : IsFractional (whole ++ (point ++ power))

variable {whole point power ds rest cs : List Char}

theorem IsWhole.exists_cons (h : IsWhole whole) : ∃ d tail, whole = d :: tail ∧ d.isDigit = true := by
  rcases h.first with rfl | ⟨d, tail, rfl, _⟩
  · exact ⟨'0', [], rfl, rfl⟩
  · exact ⟨d, tail, rfl, h.digits d List.mem_cons_self⟩

theorem IsFractional.ofPoint (hwhole : IsWhole whole) (hne : ds ≠ []) (h : ∀ c ∈ ds, c.isDigit = true) :
    IsFractional (whole ++ '.' :: ds) := by
  have hpoint := IsFractional.mk hwhole (.digits hne h) .none (List.cons_ne_nil _ _)
  rwa [List.append_nil] at hpoint

/-- Digits end before a point or a power, or at the end of the text. -/
def EndsDigits (rest : List Char) : Prop := ∀ c tail, rest = c :: tail → c = '.' ∨ c = 'e'

theorem IsPower.endsDigits (h : IsPower power) : EndsDigits power := by
  rintro c tail rfl
  cases h
  exact Or.inr rfl

theorem IsPoint.endsDigits (hpoint : IsPoint point) (hpower : IsPower power) : EndsDigits (point ++ power) := by
  cases hpoint with
  | none => exact hpower.endsDigits
  | digits hne h =>
      rintro c tail heq
      cases heq
      exact Or.inl rfl

theorem span_digits (hds : ∀ c ∈ ds, c.isDigit = true) (hrest : EndsDigits rest) :
    (ds ++ rest).span Char.isDigit = (ds, rest) := by
  rw [List.span_eq_takeWhile_dropWhile, List.takeWhile_append_of_pos hds, List.dropWhile_append_of_pos hds]
  cases rest with
  | nil => simp
  | cons c tail =>
      have hc : c.isDigit = false := by
        rcases hrest c tail rfl with rfl | rfl <;> rfl
      simp [hc]

theorem spanDigits_append (hds : ∀ c ∈ ds, c.isDigit = true) (hrest : EndsDigits rest) :
    spanDigits (ds ++ rest) = (ds.map fun c => c.toNat - '0'.toNat, rest) := by
  induction ds with
  | nil =>
      cases rest with
      | nil => rfl
      | cons c tail =>
          have hc : Digit.value? c = none := by
            rcases hrest c tail rfl with rfl | rfl <;> rfl
          rw [List.nil_append, spanDigits, hc]
          rfl
  | cons d ds ih =>
      obtain ⟨hd, hds⟩ := List.forall_mem_cons.mp hds
      rw [List.cons_append, spanDigits, Digit.value?_of_isDigit hd, ih hds]
      rfl

theorem wholePart?_append (hwhole : IsWhole whole) (hrest : EndsDigits rest) :
    wholePart? (whole ++ rest) = some (whole, rest) := by
  rcases hwhole.first with rfl | ⟨d, ds, rfl, hzero⟩
  · rfl
  · have hd := hwhole.digits d List.mem_cons_self
    rw [List.cons_append, wholePart?, if_pos hd, ← List.cons_append, span_digits hwhole.digits hrest]
    exact hzero

theorem isFraction_power (hpower : IsPower power) : isFraction power = true := by
  cases hpower with
  | none => rfl
  | @digits mark ds hmark hne h =>
      have hall : ds.all Char.isDigit = true := List.all_eq_true.mpr h
      have hsome : ds.isEmpty = false := by simpa using hne
      rcases hmark with rfl | rfl <;> simp [isFraction, hall, hsome]

theorem isFraction_append (hpoint : IsPoint point) (hpower : IsPower power) : isFraction (point ++ power) = true := by
  cases hpoint with
  | none => exact isFraction_power hpower
  | @digits ds hne h =>
      -- Behind a point and its digits the power is checked as if there were no point.
      have hspan := span_digits h hpower.endsDigits
      have hsame : isFraction ('.' :: (ds ++ power)) = isFraction power := by
        cases ds with
        | nil => exact absurd rfl hne
        | cons d ds =>
            cases hpower with
            | none => simp only [isFraction, hspan]
            | digits hmark hne h =>
                simp only [isFraction, hspan]
                rfl
      exact hsame.trans (isFraction_power hpower)

/-! ## What they denote -/

theorem exponent?_power (hpower : IsPower power) : ∃ e, exponent? power = some e := by
  cases hpower with
  | none => exact ⟨0, rfl⟩
  | @digits mark ds hmark hne h =>
      have hspan : spanDigits (ds ++ []) = (ds.map fun c => c.toNat - '0'.toNat, []) :=
        spanDigits_append h (by intro c tail hnil; cases hnil)
      rw [List.append_nil] at hspan
      cases ds with
      | nil => exact absurd rfl hne
      | cons d ds =>
          rw [List.map_cons] at hspan
          rcases hmark with rfl | rfl <;> simp [exponent?, hspan]

/-- A text that begins with a digit is no name of a number. -/
theorem equalUpToCase_digit {d e : Char} (hd : d.isDigit = true) (he : e.isDigit = false) (cs : List Char) {s : String}
    {tail : List Char} (hs : s.toList = e :: tail) : equalUpToCase (d :: cs) s = false := by
  have hlower : d.toLower = d := by
    refine dif_neg fun ⟨hle, _⟩ => ?_
    have hrange := Digit.toNat_of_isDigit hd
    have hle : 65 ≤ d.toNat := UInt32.le_iff_toNat_le.mp hle
    omega
  rw [equalUpToCase, hs, List.map_cons, hlower, beq_eq_false_iff_ne]
  rintro heq
  rw [(List.cons.inj heq).1, he] at hd
  exact Bool.false_ne_true hd

theorem unsigned?_fractional (h : IsFractional cs) (neg : Bool) :
    ∃ n e, unsigned? neg cs = some (ofDecimal neg n e) := by
  obtain @⟨whole, point, power, hwhole, hpoint, hpower, _⟩ := h
  obtain ⟨d, tail, rfl, hd⟩ := hwhole.exists_cons
  obtain ⟨e, he⟩ := exponent?_power hpower
  have hname : ∀ s ∈ ["inf", "infinity", "nan"], equalUpToCase ((d :: tail) ++ (point ++ power)) s = false := by
    intro s hs
    simp only [List.mem_cons, List.not_mem_nil, or_false] at hs
    rcases hs with rfl | rfl | rfl <;> exact equalUpToCase_digit hd rfl _ rfl
  rw [unsigned?, hname "inf" (by simp), hname "infinity" (by simp), hname "nan" (by simp),
    spanDigits_append hwhole.digits (hpoint.endsDigits hpower)]
  cases hpoint with
  | none =>
      cases hpower with
      | none => exact ⟨_, _, rfl⟩
      | digits hmark _ _ =>
          rcases hmark with rfl | rfl <;> exact ⟨_, _, congrArg (Option.map _) he⟩
  | digits _ h =>
      simp only [List.cons_append, spanDigits_append h hpower.endsDigits, he]
      exact ⟨_, _, rfl⟩

/-! ## Their characters -/

theorem inNumber_of_isDigit {c : Char} (h : c.isDigit = true) : inNumber c = true := by simp [inNumber, h]

theorem IsFractional.inNumber (h : IsFractional cs) : ∀ c ∈ cs, inNumber c = true := by
  obtain ⟨hwhole, hpoint, hpower, _⟩ := h
  have hdigits : ∀ {ds : List Char}, (∀ c ∈ ds, c.isDigit = true) → ∀ c ∈ ds, JsonToken.inNumber c = true :=
    fun h c hc => inNumber_of_isDigit (h c hc)
  simp only [List.forall_mem_append]
  refine ⟨hdigits hwhole.digits, ?_, ?_⟩
  · cases hpoint with
    | none => exact List.forall_mem_nil _
    | digits _ h => exact List.forall_mem_cons.mpr ⟨rfl, hdigits h⟩
  · cases hpower with
    | none => exact List.forall_mem_nil _
    | digits hmark _ h =>
        refine List.forall_mem_cons.mpr ⟨rfl, List.forall_mem_cons.mpr ⟨?_, hdigits h⟩⟩
        rcases hmark with rfl | rfl <;> rfl

theorem IsFractional.first (h : IsFractional cs) : ∃ d tail, d.isDigit = true ∧ cs = d :: tail := by
  obtain ⟨hwhole, _, _, _⟩ := h
  obtain ⟨d, tail, rfl, hd⟩ := hwhole.exists_cons
  exact ⟨d, _, hd, rfl⟩

/-- They have the form of a number, also behind a minus sign. -/
theorem IsFractional.isNumberText (h : IsFractional cs) (negative : Bool) :
    IsNumberText ((if negative then ['-'] else []) ++ cs) := by
  obtain ⟨d, tail, hd, rfl⟩ := h.first
  cases negative
  · exact ⟨h.inNumber, d, tail, hd, Or.inl rfl⟩
  · exact ⟨List.forall_mem_cons.mpr ⟨rfl, h.inNumber⟩, d, tail, hd, Or.inr rfl⟩

/-- There are no blanks in a number. -/
theorem trimBoth_isMargin (h : ∀ c ∈ cs, inNumber c = true) : Blank.trimBoth Integer.isMargin cs = cs := by
  refine Blank.trimBoth_eq_self fun c hc => ?_
  have hc := h c hc
  have hsmall : 43 ≤ c.toNat ∧ c.toNat < 128 := by
    simp only [inNumber, Bool.or_eq_true, beq_iff_eq] at hc
    rcases hc with ((((hc | rfl) | rfl) | rfl) | rfl) | rfl
    · have hrange := Digit.toNat_of_isDigit hc
      omega
    all_goals decide
  have hspace : c ≠ ' ' := by
    rintro rfl
    exact absurd hsmall.1 (by decide)
  simp only [Integer.isMargin, Blank.isAsciiBlank, Bool.or_eq_false_iff, Bool.and_eq_false_iff, beq_eq_false_iff_ne,
    decide_eq_false_iff_not]
  exact ⟨⟨hspace, Or.inr (by omega)⟩, Or.inl (by omega)⟩

/-- A number with a point or a power denotes a floating-point number of its sign. -/
theorem number?_fractional (h : IsFractional cs) (negative : Bool) : ∃ n e,
    number? ((if negative then ['-'] else []) ++ cs) = some (.float (ofDecimal negative n e)) := by
  obtain ⟨n, e, hvalue⟩ := unsigned?_fractional h negative
  obtain ⟨d, tail, hd, hcs⟩ := h.first
  have hsign : d ≠ '-' ∧ d ≠ '+' := by
    constructor <;> rintro rfl <;> exact absurd hd (by decide)
  have htext : ofText? (String.ofList ((if negative then ['-'] else []) ++ cs)) =
      some (ofDecimal negative n e) := by
    rw [ofText?, String.toList_ofList, trimBoth_isMargin (h.isNumberText negative).all, ← hvalue]
    cases negative
    · rw [hcs]
      simp [hsign.1, hsign.2]
    · rfl
  refine ⟨n, e, ?_⟩
  have hbehind : ∀ signed : List Char, ofText? (String.ofList signed) = some (ofDecimal negative n e) →
      ((wholePart? cs).bind fun part => if part.2.isEmpty then (Integer.signed? (.fixed 10) signed).map Json.int
        else if isFraction part.2 then (ofText? (String.ofList signed)).map Json.float else none) =
          some (.float (ofDecimal negative n e)) := by
    intro signed hsigned
    obtain ⟨hwhole, hpoint, hpower, hne⟩ := h
    rw [wholePart?_append hwhole (hpoint.endsDigits hpower), Option.bind_some, isFraction_append hpoint hpower, hsigned,
      if_neg (by simpa using hne)]
    rfl
  cases negative
  · rw [hcs] at hbehind htext ⊢
    rw [if_neg nofun, List.nil_append, number?]
    · exact hbehind _ htext
    · simp [hsign.1]
  · exact hbehind _ htext

end IdiomLint.JsonToken

namespace IdiomLint.Binary64

open JsonToken

/-! ## The text of a floating-point number -/

/-- Digits without a zero in front are laid out as a number with a point or a power. -/
theorem isFractional_layout {d : Char} {ds : List Char} (h : ∀ c ∈ d :: ds, c.isDigit = true) (hd : d ≠ '0')
    (first : Int) : IsFractional (layout (d :: ds) first) := by
  have hzeros : ∀ n, ∀ c ∈ List.replicate n '0', c.isDigit = true := by
    intro n c hc
    rw [List.eq_of_mem_replicate hc]
    rfl
  have hpower : ∀ c ∈ Nat.toDigits 10 first.natAbs, c.isDigit = true := fun c hc => Integer.isDigit_of_mem_toDigits hc
  simp only [layout]
  split
  · -- One digit stands before the point, and the power tells the place.
    rw [List.append_assoc]
    have hwhole : IsWhole [d] :=
      ⟨List.forall_mem_singleton.mpr (h d List.mem_cons_self), Or.inr ⟨d, [], rfl, hd⟩⟩
    refine .mk hwhole ?_ (.digits ?_ ?_ ?_) (by simp)
    · split
      · exact .none
      · next hne => exact .digits (by simpa using hne) fun c hc => h c (List.mem_cons_of_mem _ hc)
    · split
      · exact Or.inr rfl
      · exact Or.inl rfl
    · split
      · exact List.cons_ne_nil _ _
      · exact Nat.toDigits_ne_nil
    · split
      · exact List.forall_mem_cons.mpr ⟨rfl, hpower⟩
      · exact hpower
  · split
    · rw [List.cons_append, List.cons_append]
      exact .ofPoint ⟨List.forall_mem_singleton.mpr rfl, Or.inl rfl⟩ (by simp)
        (List.forall_mem_append.mpr ⟨hzeros _, h⟩)
    · split
      · exact .ofPoint ⟨List.forall_mem_append.mpr ⟨h, hzeros _⟩, Or.inr ⟨d, _, rfl, hd⟩⟩ (List.cons_ne_nil _ _)
          (List.forall_mem_singleton.mpr rfl)
      · next hlong =>
          refine .ofPoint ⟨fun c hc => h c (List.mem_of_mem_take hc), Or.inr ⟨d, _, rfl, hd⟩⟩ ?_
            fun c hc => h c (List.mem_of_mem_drop hc)
          simpa using hlong

/-- The digits of a positive number, without the zeros behind, begin with no zero. -/
theorem exists_dropTrailingZeros {a : Nat} (ha : a ≠ 0) :
    ∃ d ds, dropTrailingZeros (Nat.toDigits 10 a) = d :: ds ∧ d ≠ '0' := by
  cases hdigits : dropTrailingZeros (Nat.toDigits 10 a) with
  | nil => exact absurd hdigits (dropTrailingZeros_toDigits ha)
  | cons d ds =>
      refine ⟨d, ds, rfl, ?_⟩
      rintro rfl
      obtain ⟨zeros, hzeros⟩ : ∃ zeros, Nat.toDigits 10 a = '0' :: (ds ++ zeros) := by
        have hsplit := List.takeWhile_append_dropWhile (p := (· == '0')) (l := (Nat.toDigits 10 a).reverse)
        refine ⟨((Nat.toDigits 10 a).reverse.takeWhile (· == '0')).reverse, ?_⟩
        rw [← List.cons_append, ← hdigits, dropTrailingZeros, ← List.reverse_append, hsplit, List.reverse_reverse]
      obtain ⟨rfl, rfl⟩ := List.append_eq_nil_iff.mp (Integer.eq_nil_of_toDigits_zero hzeros)
      rw [dropTrailingZeros, hzeros] at hdigits
      exact absurd hdigits (by decide)

/-- The text of a finite number has a point or a power. -/
theorem exists_text {x : Binary64} (hx : x.isFinite = true) : ∃ cs, IsFractional cs ∧
    x.text.toList = (if x.negative then ['-'] else []) ++ cs ∧ (x.scale.1 = 0 → cs = ['0', '.', '0']) := by
  by_cases hm : x.scale.1 = 0
  · have htext : x.text = String.ofList ((if x.negative then ['-'] else []) ++ "0.0".toList) := by
      simp only [text, not_isNaN_of_isFinite hx, hx, if_pos hm]
      rfl
    refine ⟨['0', '.', '0'], ?_, by rw [htext, String.toList_ofList]; rfl, fun _ => rfl⟩
    have hwhole : IsWhole ['0'] := ⟨List.forall_mem_singleton.mpr rfl, Or.inl rfl⟩
    exact .ofPoint hwhole (List.cons_ne_nil _ _) (List.forall_mem_singleton.mpr rfl)
  · obtain ⟨a, p, ha, htext⟩ := text_of_ne_zero hx hm
    obtain ⟨d, ds, hdigits, hd⟩ := exists_dropTrailingZeros ha
    have hall := isDigit_of_mem_dropTrailingZeros fun c => @Integer.isDigit_of_mem_toDigits a c
    rw [hdigits] at htext hall
    exact ⟨_, isFractional_layout hall hd _, by rw [htext, String.toList_ofList], fun h => absurd h hm⟩

/-- The text of a finite number has the form of a number. -/
theorem isNumberText_text {x : Binary64} (hx : x.isFinite = true) : IsNumberText x.text.toList := by
  obtain ⟨cs, hcs, htext, _⟩ := exists_text hx
  rw [htext]
  exact hcs.isNumberText x.negative

/-! ## Signs -/

/-- A number is below zero if it has the sign and is not zero. -/
theorem compareInt?_zero_eq_lt {x : Binary64} : x.compareInt? 0 = some .lt ↔
    x.isNaN = false ∧ x.negative = true ∧ (x.isFinite = true → x.scale.1 ≠ 0) := by
  have hsigned : ∀ (negative : Bool) (m : Nat), (if negative then -(m : Int) else m) < 0 ↔ negative = true ∧ m ≠ 0 := by
    intro negative m
    cases negative
    · simp
    · simp [Nat.pos_iff_ne_zero]
  cases hnan : x.isNaN with
  | true => simp [compareInt?, hnan]
  | false =>
      cases hfinite : x.isFinite with
      | false => cases hsign : x.negative <;> simp [compareInt?, hnan, hfinite, hsign]
      | true =>
          have hscaled : x.compareInt? 0 = some .lt ↔ (if x.negative then -(x.scale.1 : Int) else x.scale.1) < 0 := by
            rw [compareInt?, hnan, hfinite, if_neg nofun, if_neg nofun]
            simp only
            generalize (if x.negative then -(x.scale.1 : Int) else x.scale.1) = signed
            split
            · -- A power of two does not change the sign.
              have hpower : (0 : Int) < 2 ^ x.scale.2.toNat := Int.pow_pos (by decide)
              rw [Option.some.injEq, Int.compare_eq_lt]
              constructor
              · exact fun h => Int.not_le.mp fun hle => Int.not_le.mpr h (Int.mul_nonneg hle (Int.le_of_lt hpower))
              · exact fun h => Int.mul_neg_of_neg_of_pos h hpower
            · rw [Option.some.injEq, Int.compare_eq_lt, Int.zero_mul]
          rw [hscaled, hsigned]
          simp

theorem negative_ofRatio (num den : Nat) : (ofRatio false num den).negative = false := by
  -- No pattern of a finite number reaches the bit of the sign.
  have hfields : ∀ pattern : Nat,
      (if pattern < 2047 * 2 ^ 52 then ofFields false 0 pattern else infinity false).negative = false := by
    intro pattern
    by_cases h : pattern < 2047 * 2 ^ 52
    · have hsum : (if false then 2 ^ 63 else 0) + 0 * 2 ^ 52 + pattern = pattern := by simp
      have hbits : (ofFields false 0 pattern).bits.toNat = pattern := by
        rw [ofFields, hsum]
        exact UInt64.toNat_ofNat_of_lt' (Nat.lt_trans h (by decide))
      rw [if_pos h, negative, hbits, Nat.div_eq_of_lt (Nat.lt_trans h (by decide))]
      rfl
    · rw [if_neg h]
      rfl
  rw [ofRatio]
  split
  · rfl
  · exact hfields _

/-- Nothing is rounded to a number below zero that has no minus sign. -/
theorem negative_ofDecimal (digits : Nat) (exponent : Int) : (ofDecimal false digits exponent).negative = false := by
  rw [ofDecimal]
  split
  · rfl
  · split
    · rfl
    · split
      · rfl
      · split
        · exact negative_ofRatio _ _
        · exact negative_ofRatio _ _

/-- What is read back from the text of a finite number: a floating-point number, without sign if there is none, and
zero from zero. -/
theorem number?_text {x : Binary64} (hx : x.isFinite = true) : ∃ y, number? x.text.toList = some (.float y) ∧
    (x.negative = false → y.negative = false) ∧ (x.scale.1 = 0 → y = zero x.negative) := by
  obtain ⟨cs, hcs, htext, hzero⟩ := exists_text hx
  obtain ⟨n, e, hread⟩ := number?_fractional hcs x.negative
  rw [← htext] at hread
  refine ⟨_, hread, fun hnegative => ?_, fun hm => ?_⟩
  · rw [hnegative]
    exact negative_ofDecimal n e
  · rw [htext, hzero hm] at hread
    have hback : number? ((if x.negative then ['-'] else []) ++ ['0', '.', '0']) = some (.float (zero x.negative)) := by
      cases x.negative <;> rfl
    exact Json.float.inj (Option.some.inj (hread.symm.trans hback))

end IdiomLint.Binary64
