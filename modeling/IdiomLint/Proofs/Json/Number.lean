import Mathlib.Data.List.TakeWhile
import IdiomLint.Proofs.Json.Token
import IdiomLint.Proofs.Number.Decimal

/-!
# Printed numbers

A printed number is one token, whatever follows it that cannot stand in a number (`Stops`): the number that
its text denotes, or nothing if it denotes none. An integer is read back unless it has more digits than decimal
text may have (`tokens?_decimal`); the text of a finite floating-point number is always one of digits, points
and exponents (`isNumberText_text`).
-/

namespace IdiomLint.JsonToken

/-! ## Numbers -/

/-- A number ends before these characters, or at the end of the text. -/
def Stops (rest : List Char) : Prop := ∀ c tail, rest = c :: tail → inNumber c = false

theorem stops_nil : Stops [] := by
  intro c tail h
  exact absurd h (by simp)

theorem stops_cons {c : Char} (h : inNumber c = false) (rest : List Char) : Stops (c :: rest) := by
  intro d tail heq
  cases heq
  exact h

/-- The characters of a number, from a digit on or from a minus sign before a digit. -/
structure IsNumberText (cs : List Char) : Prop where
  all : ∀ c ∈ cs, inNumber c = true
  first : ∃ d tail, d.isDigit = true ∧ (cs = d :: tail ∨ cs = '-' :: d :: tail)

theorem span_number {cs rest : List Char} (hcs : ∀ c ∈ cs, inNumber c = true) (hrest : Stops rest) :
    (cs ++ rest).span inNumber = (cs, rest) := by
  rw [List.span_eq_takeWhile_dropWhile, List.takeWhile_append_of_pos hcs, List.dropWhile_append_of_pos hcs]
  cases rest with
  | nil => simp
  | cons c tail =>
      have hc := hrest c tail rfl
      simp [hc]

/-- The characters with which no number begins, but other tokens do. -/
def marks : List Char := ['[', ']', '\x7b', '\x7d', ':', ',', '"', 'n', 't', 'f', 'N', 'I']

theorem not_mem_marks {d : Char} (hd : d.isDigit = true) : d ∉ marks := by
  have hmarks : ∀ c ∈ marks, c.isDigit = false := by simp [marks]
  intro hmem
  rw [hmarks d hmem] at hd
  exact Bool.false_ne_true hd

/-- A text that begins with a number begins with no word. -/
theorem word?_number {d : Char} (hd : d.isDigit = true) (rest : List Char) :
    word? (d :: rest) words = none ∧ word? ('-' :: d :: rest) words = none := by
  have hletters := not_mem_marks hd
  have hminus : '-' ≠ d := by
    rintro rfl
    exact absurd hd (by decide)
  have hwords : words = [(['n', 'u', 'l', 'l'], .null), (['t', 'r', 'u', 'e'], .bool true),
      (['f', 'a', 'l', 's', 'e'], .bool false), (['N', 'a', 'N'], .float .nan),
      (['I', 'n', 'f', 'i', 'n', 'i', 't', 'y'], .float (.infinity false)),
      (['-', 'I', 'n', 'f', 'i', 'n', 'i', 't', 'y'], .float (.infinity true))] := rfl
  simp only [marks, List.mem_cons, List.not_mem_nil, or_false, not_or] at hletters
  obtain ⟨_, _, _, _, _, _, _, hn, ht, hf, hN, hI⟩ := hletters
  rw [hwords]
  constructor
  · simp [word?, after?, Ne.symm hn, Ne.symm ht, Ne.symm hf, Ne.symm hN, Ne.symm hI, hminus]
  · simp [word?, after?, Ne.symm hI]

theorem front?_of_word? {c : Char} (hc : c ∉ marks) {rest : List Char}
    (hword : word? (c :: rest) words = none) {digits tail : List Char}
    (hspan : (c :: rest).span inNumber = (digits, tail)) :
    front? (c :: rest) = (number? digits).map fun j => (.scalar j, tail) := by
  simp only [marks, List.mem_cons, List.not_mem_nil, or_false, not_or] at hc
  obtain ⟨h1, h2, h3, h4, h5, h6, h7, _⟩ := hc
  rw [front?, hword]
  · simp only
    rw [hspan]
  all_goals simp_all

/-- The front of a text that begins with a number is that number, if it can be read. -/
theorem front?_number {cs rest : List Char} (hcs : IsNumberText cs) (hrest : Stops rest) :
    front? (cs ++ rest) = (number? cs).map fun j => (.scalar j, rest) := by
  have hspan := span_number hcs.all hrest
  obtain ⟨d, tail, hd, heq⟩ := hcs.first
  obtain ⟨hword, hminus⟩ := word?_number hd (tail ++ rest)
  rcases heq with rfl | rfl
  · exact front?_of_word? (not_mem_marks hd) hword hspan
  · exact front?_of_word? (by decide) hminus hspan

/-- A printed number is a token if it can be read back, and cannot be cut off otherwise. -/
theorem tokens?_number {cs rest : List Char} (hcs : IsNumberText cs) (hrest : Stops rest) :
    tokens? (cs ++ rest) = (number? cs).bind fun j => (tokens? rest).map (.scalar j :: ·) := by
  have hfront := front?_number hcs hrest
  obtain ⟨d, tail, hd, heq⟩ := hcs.first
  have hspace : ∀ c, isSpace c = true → c.isDigit = false ∧ c ≠ '-' := by
    intro c hc
    simp only [isSpace, Bool.or_eq_true, beq_iff_eq] at hc
    rcases hc with ((rfl | rfl) | rfl) | rfl <;> decide
  have hhead : ∃ c tail, cs = c :: tail ∧ isSpace c = false := by
    rcases heq with rfl | rfl
    · refine ⟨d, tail, rfl, ?_⟩
      rw [Bool.eq_false_iff]
      intro h
      rw [(hspace d h).1] at hd
      exact Bool.false_ne_true hd
    · exact ⟨'-', d :: tail, rfl, rfl⟩
  obtain ⟨c, tail, rfl, hc⟩ := hhead
  rw [List.cons_append] at hfront ⊢
  rw [tokens?_cons, if_neg (by simp [hc]), hfront]
  cases number? (c :: tail) with
  | none => rfl
  | some j => rfl

/-! ## Integers -/

theorem exists_toDigits (n : Nat) : ∃ d tail, d.isDigit = true ∧ Nat.toDigits 10 n = d :: tail := by
  cases hcs : Nat.toDigits 10 n with
  | nil => exact absurd hcs Nat.toDigits_ne_nil
  | cons d tail => exact ⟨d, tail, Integer.isDigit_of_mem_toDigits (hcs ▸ List.mem_cons_self), rfl⟩

theorem isNumberText_decimal (n : Int) : IsNumberText (Integer.decimal n).toList := by
  have hnumber : ∀ m, ∀ c ∈ Nat.toDigits 10 m, inNumber c = true := by
    intro m c hc
    simp [inNumber, Integer.isDigit_of_mem_toDigits hc]
  cases n with
  | ofNat m =>
      rw [Integer.decimal, String.toList_ofList]
      obtain ⟨d, tail, hd, heq⟩ := exists_toDigits m
      exact ⟨hnumber m, d, tail, hd, Or.inl heq⟩
  | negSucc m =>
      rw [Integer.decimal, String.toList_ofList]
      obtain ⟨d, tail, hd, heq⟩ := exists_toDigits (m + 1)
      refine ⟨List.forall_mem_cons.mpr ⟨rfl, hnumber (m + 1)⟩, d, tail, hd, Or.inr ?_⟩
      rw [heq]

/-- All digits of a number are its whole part. -/
theorem wholePart?_toDigits (n : Nat) : wholePart? (Nat.toDigits 10 n) = some (Nat.toDigits 10 n, []) := by
  obtain ⟨d, tail, hd, heq⟩ := exists_toDigits n
  have hall : ∀ c ∈ d :: tail, c.isDigit = true := by
    rw [← heq]
    exact fun c hc => Integer.isDigit_of_mem_toDigits hc
  rw [heq]
  by_cases hzero : d = '0'
  · subst hzero
    rw [Integer.eq_nil_of_toDigits_zero heq]
    rfl
  · rw [wholePart?, if_pos hd, List.span_eq_takeWhile_dropWhile]
    · rw [List.takeWhile_eq_self_iff.mpr hall, List.dropWhile_eq_nil_iff.mpr hall]
    · exact hzero

theorem unsigned?_toDigits (n : Nat) : Integer.unsigned? (.fixed 10) (Nat.toDigits 10 n) =
    if n < 10 ^ Integer.digitLimit then some n else none := by
  have hmark : Integer.afterMark 10 (Nat.toDigits 10 n) = Nat.toDigits 10 n := by
    have hten : Integer.mark? 10 = none := rfl
    unfold Integer.afterMark
    split
    · next heq =>
        rw [hten, if_neg nofun, heq]
    · rfl
  rw [Integer.unsigned?, hmark, Integer.natural?_toDigits]

/-- A whole part with nothing behind it denotes an integer, also behind a minus sign. -/
theorem number?_whole {d : Char} {cs : List Char} (hd : d.isDigit = true)
    (h : wholePart? (d :: cs) = some (d :: cs, [])) :
    number? (d :: cs) = (Integer.unsigned? (.fixed 10) (d :: cs)).map (fun n => .int n) ∧
    number? ('-' :: d :: cs) = (Integer.unsigned? (.fixed 10) (d :: cs)).map (fun n => .int (-n)) := by
  have hminus : d ≠ '-' := by
    rintro rfl
    exact absurd hd (by decide)
  have hplus : d ≠ '+' := by
    rintro rfl
    exact absurd hd (by decide)
  constructor
  · rw [number?]
    · show (wholePart? (d :: cs)).bind _ = _
      rw [h]
      show (Integer.signed? (.fixed 10) (d :: cs)).map Json.int = _
      rw [Integer.signed?]
      · cases Integer.unsigned? (.fixed 10) (d :: cs) <;> rfl
      · simp [hminus]
      · simp [hplus]
    · simp [hminus]
  · rw [number?]
    show (wholePart? (d :: cs)).bind _ = _
    rw [h]
    show (Integer.signed? (.fixed 10) ('-' :: d :: cs)).map Json.int = _
    rw [Integer.signed?]
    cases Integer.unsigned? (.fixed 10) (d :: cs) <;> rfl

/-- A printed integer is read back unless it has more digits than decimal text may have. -/
theorem number?_decimal (n : Int) : number? (Integer.decimal n).toList =
    if n.natAbs < 10 ^ Integer.digitLimit then some (.int n) else none := by
  have hdigits : ∀ m, ∃ d cs, Nat.toDigits 10 m = d :: cs ∧ d.isDigit = true ∧
      wholePart? (d :: cs) = some (d :: cs, []) ∧
      Integer.unsigned? (.fixed 10) (d :: cs) = if m < 10 ^ Integer.digitLimit then some m else none := by
    intro m
    obtain ⟨d, cs, hd, heq⟩ := exists_toDigits m
    exact ⟨d, cs, heq, hd, heq ▸ wholePart?_toDigits m, heq ▸ unsigned?_toDigits m⟩
  cases n with
  | ofNat m =>
      obtain ⟨d, cs, heq, hd, hwhole, hvalue⟩ := hdigits m
      rw [Integer.decimal, String.toList_ofList, heq, (number?_whole hd hwhole).1, hvalue]
      show _ = if m < _ then _ else _
      split <;> rfl
  | negSucc m =>
      obtain ⟨d, cs, heq, hd, hwhole, hvalue⟩ := hdigits (m + 1)
      rw [Integer.decimal, String.toList_ofList, heq, (number?_whole hd hwhole).2, hvalue]
      show _ = if m + 1 < _ then _ else _
      split <;> rfl

/-- A printed integer is a token, unless it has more digits than decimal text may have. -/
theorem tokens?_decimal (n : Int) {rest : List Char} (hrest : Stops rest) :
    tokens? ((Integer.decimal n).toList ++ rest) =
      if n.natAbs < 10 ^ Integer.digitLimit then (tokens? rest).map (.scalar (.int n) :: ·) else none := by
  rw [tokens?_number (isNumberText_decimal n) hrest, number?_decimal]
  split <;> rfl

end IdiomLint.JsonToken

/-! ## Floating-point numbers -/

namespace IdiomLint.Binary64

/-- Zero does not read back as a positive number. -/
theorem readsBack_zero {m : Nat} (hm : m ≠ 0) (e p : Int) : readsBack m e 0 p = false := by
  have hbelow : ∀ k : Nat, k ≠ 0 → ∀ e' : Int, compareDecimal 0 p k e' = .lt := by
    intro k hk e'
    have hpos : 0 < k * 2 ^ e'.toNat * 10 ^ (-p).toNat :=
      Nat.mul_pos (Nat.mul_pos (Nat.pos_of_ne_zero hk) (Nat.pow_pos (by decide))) (Nat.pow_pos (by decide))
    rw [compareDecimal, Nat.zero_mul, Nat.zero_mul]
    exact Nat.compare_eq_lt.mpr hpos
  rw [readsBack]
  split <;> rw [hbelow _ (by omega)] <;> rfl

theorem ne_zero_of_onGrid {m a : Nat} {e p : Int} (hm : m ≠ 0) (h : onGrid m e p = some a) : a ≠ 0 := by
  have hback : ∀ q, readsBack m e q p = true → q ≠ 0 := by
    rintro q hq rfl
    rw [readsBack_zero hm] at hq
    exact Bool.false_ne_true hq
  rw [onGrid] at h
  split at h
  · next hq _ =>
      have hne := hback _ hq
      have hgrow : ∀ k, _ + k ≠ 0 := fun k => Nat.ne_of_gt (Nat.add_pos_left (Nat.pos_of_ne_zero hne) k)
      cases h
      split
      · exact hne
      · split
        · exact hgrow _
        · exact hgrow _
  · next hq _ =>
      cases h
      exact hback _ hq
  · cases h
    exact Nat.succ_ne_zero _
  · exact absurd h nofun

/-- The shortest decimal of a positive number is positive. -/
theorem ne_zero_of_shortestFrom {m : Nat} (hm : m ≠ 0) (e first : Int) :
    ∀ fuel count, (shortestFrom m e first fuel count).1 ≠ 0 := by
  intro fuel
  induction fuel with
  | zero => exact fun _ => hm
  | succ fuel ih =>
      intro count
      rw [shortestFrom]
      split
      · next a ha => exact ne_zero_of_onGrid hm ha
      · exact ih (count + 1)

/-- The digits of a positive number are not all zeros. -/
theorem dropTrailingZeros_toDigits {a : Nat} (ha : a ≠ 0) : dropTrailingZeros (Nat.toDigits 10 a) ≠ [] := by
  intro h
  have hzeros : ∀ c ∈ Nat.toDigits 10 a, c = '0' := by
    intro c hc
    have hdropped := List.reverse_eq_nil_iff.mp h
    have hall := List.dropWhile_eq_nil_iff.mp hdropped c (List.mem_reverse.mpr hc)
    exact beq_iff_eq.mp hall
  obtain ⟨d, tail, _, heq⟩ := JsonToken.exists_toDigits a
  rw [heq] at hzeros
  obtain ⟨rfl, _⟩ := List.forall_mem_cons.mp hzeros
  have hnil := Integer.eq_nil_of_toDigits_zero heq
  have hvalue := Integer.ofDigits_decimalDigits a
  rw [Integer.decimalDigits, heq, hnil] at hvalue
  exact ha hvalue.symm

theorem isDigit_of_mem_dropTrailingZeros {digits : List Char} (h : ∀ c ∈ digits, c.isDigit = true) :
    ∀ c ∈ dropTrailingZeros digits, c.isDigit = true := by
  intro c hc
  rw [dropTrailingZeros, List.mem_reverse] at hc
  exact h c (List.mem_reverse.mp ((List.dropWhile_sublist _).mem hc))

theorem not_isNaN_of_isFinite {x : Binary64} (hx : x.isFinite = true) : x.isNaN = false := by
  simp only [isFinite, bne_iff_ne] at hx
  simp [isNaN, hx]

/-- The text of a finite number that is not zero. -/
theorem text_of_ne_zero {x : Binary64} (hx : x.isFinite = true) (hm : x.scale.1 ≠ 0) :
    ∃ a p, a ≠ 0 ∧ x.text = String.ofList ((if x.negative then ['-'] else []) ++
      layout (dropTrailingZeros (Nat.toDigits 10 a)) (p + (Nat.toDigits 10 a).length - 1)) := by
  refine ⟨(shortest x.scale.1 x.scale.2).1, (shortest x.scale.1 x.scale.2).2,
    ne_zero_of_shortestFrom hm _ _ _ _, ?_⟩
  simp only [text, not_isNaN_of_isFinite hx, hx, if_neg hm]
  rfl

end IdiomLint.Binary64
