import IdiomLint.Number.Integer

/-!
# Decimal digits and the numbers they denote

`Integer.decimalDigits n` are the digit values of the decimal text of `n`. They denote `n` again
(`ofDigits_decimalDigits`), there are at most `k` of them exactly when `n < 10 ^ k`
(`length_decimalDigits_le_iff`), and conversely `k` digits denote a number below `10 ^ k`
(`ofDigits_lt`), so that the limit on decimal text is one limit in both directions
(`natural?_toDigits`).
-/

namespace IdiomLint

namespace CodePoint

/-- What is located lies in the range that is given with it. -/
theorem mem_of_locate {n : Nat} {ranges : List Range} {r : Range} {k : Nat}
    (h : locate n ranges = some (r, k)) : r ∈ ranges ∧ n = r.1 + k ∧ n ≤ r.2 := by
  induction ranges with
  | nil => simp [locate] at h
  | cons range ranges ih =>
      obtain ⟨first, last⟩ := range
      rw [locate] at h
      split at h
      · obtain ⟨hmem, hrest⟩ := ih h
        exact ⟨List.mem_cons_of_mem _ hmem, hrest⟩
      · rw [Option.ite_none_right_eq_some, Option.some.injEq, Prod.mk.injEq] at h
        obtain ⟨hfirst, rfl, rfl⟩ := h
        refine ⟨by simp, ?_, ?_⟩
        · show n = first + (n - first)
          omega
        · show n ≤ last
          omega

end CodePoint

namespace Blank

/-- Where no character satisfies `p` none is dropped. -/
theorem trimBoth_eq_self {p : Char → Bool} {cs : List Char} (h : ∀ c ∈ cs, p c = false) : trimBoth p cs = cs := by
  have hnone : ∀ {ds : List Char}, (∀ c ∈ ds, p c = false) → ds.dropWhile p = ds := by
    intro ds hds
    cases ds with
    | nil => rfl
    | cons c ds => rw [List.dropWhile_cons_of_neg (by simp [hds c List.mem_cons_self])]
  rw [trimBoth, hnone h, hnone fun c hc => h c (List.mem_reverse.mp hc), List.reverse_reverse]

end Blank

namespace Digit

theorem asciiValue?_eq_some {c : Char} {d : Nat} :
    asciiValue? c = some d ↔ c.isDigit = true ∧ c.toNat - '0'.toNat = d := by
  rw [asciiValue?, Option.ite_none_right_eq_some, Option.some.injEq]

theorem toNat_of_isDigit {c : Char} (h : c.isDigit = true) : 48 ≤ c.toNat ∧ c.toNat ≤ 57 := by
  simp only [Char.isDigit, Bool.and_eq_true, decide_eq_true_eq, UInt32.le_iff_toNat_le] at h
  exact h

/-- An ASCII digit has the value of its place. -/
theorem value?_of_isDigit {c : Char} (h : c.isDigit = true) :
    value? c = some (c.toNat - '0'.toNat) := by
  have hrange := toNat_of_isDigit h
  rw [value?, if_pos (by omega)]
  exact asciiValue?_eq_some.mpr ⟨h, rfl⟩

/-- The value of a digit of any script is below ten. -/
theorem value?_lt {c : Char} {d : Nat} (h : value? c = some d) : d < 10 := by
  rw [value?] at h
  split at h
  · obtain ⟨hdigit, rfl⟩ := asciiValue?_eq_some.mp h
    have hrange := toNat_of_isDigit hdigit
    show c.toNat - 48 < 10
    omega
  · obtain ⟨⟨r, k⟩, hlocate, rfl⟩ := Option.map_eq_some_iff.mp h
    obtain ⟨hmem, hplace, hlast⟩ := CodePoint.mem_of_locate hlocate
    have hten : ∀ run ∈ runsBeyondAscii, run.2 = run.1 + 9 := by decide
    have := hten r hmem
    show k < 10
    omega

end Digit

namespace Integer

/-- The values of the decimal digits of a natural number. -/
def decimalDigits (n : Nat) : List Nat := (Nat.toDigits 10 n).map fun c => c.toNat - '0'.toNat

theorem decimalDigits_ne_nil (n : Nat) : decimalDigits n ≠ [] := by
  simp [decimalDigits]

/-- The digits of a number denote the number. -/
theorem ofDigits_decimalDigits (n : Nat) : ofDigits 10 (decimalDigits n) = n := by
  have h := Nat.ofDigitChars_ten_toDigits (n := n)
  rw [Nat.ofDigitChars_eq_foldl] at h
  rw [ofDigits, decimalDigits, List.foldl_map]
  simpa [Nat.mul_comm] using h

/-- A number has at most `k` digits exactly when it is below `10 ^ k`. -/
theorem length_decimalDigits_le_iff {n k : Nat} (hk : 0 < k) :
    (decimalDigits n).length ≤ k ↔ n < 10 ^ k := by
  rw [decimalDigits, List.length_map]
  exact Nat.length_toDigits_le_iff (by decide) hk

/-- Digits read behind a number that is already there. -/
theorem foldl_digits_lt {base : Nat} :
    ∀ {digits : List Nat} (n : Nat), (∀ d ∈ digits, d < base) →
      digits.foldl (fun n d => n * base + d) n < (n + 1) * base ^ digits.length := by
  intro digits
  induction digits with
  | nil => intro n _; simp
  | cons d digits ih =>
      intro n hdigits
      have hd : d < base := hdigits d (by simp)
      have hrest := ih (n * base + d) fun e he => hdigits e (by simp [he])
      have hstep : n * base + d + 1 ≤ (n + 1) * base := by
        rw [Nat.add_mul, Nat.one_mul]
        omega
      rw [List.foldl_cons, List.length_cons, Nat.pow_succ, Nat.mul_comm (base ^ digits.length),
        ← Nat.mul_assoc]
      exact Nat.lt_of_lt_of_le hrest (Nat.mul_le_mul_right _ hstep)

/-- So many digits denote a number below that power of the base. -/
theorem ofDigits_lt {base : Nat} {digits : List Nat} (h : ∀ d ∈ digits, d < base) :
    ofDigits base digits < base ^ digits.length := by
  have hfold := foldl_digits_lt 0 h
  rwa [Nat.zero_add, Nat.one_mul] at hfold

theorem tenPow_le {m n : Nat} (h : m ≤ n) : 10 ^ m ≤ 10 ^ n := Nat.pow_le_pow_right (by decide) h

theorem lt_limit_of_lt_ten {n : Nat} (h : n < 10) : n < 10 ^ digitLimit := by
  have hten : 10 ^ 1 ≤ 10 ^ digitLimit := tenPow_le (by decide)
  exact Nat.lt_of_lt_of_le h hten

/-- Decimal digits are refused exactly when there are too many of them. -/
theorem overLimit_ten {digits : List Nat} :
    overLimit 10 digits = true ↔ digitLimit < digits.length := by
  simp [overLimit]

/-! ## Reading decimal digits back -/

theorem isDigit_of_mem_toDigits {n : Nat} {c : Char} (h : c ∈ Nat.toDigits 10 n) : c.isDigit = true :=
  Nat.isDigit_of_mem_toDigits (by decide) (by decide) h

theorem digitValue?_of_isDigit {c : Char} (h : c.isDigit = true) :
    digitValue? c = some (c.toNat - '0'.toNat) := by
  have hrange := Digit.toNat_of_isDigit h
  have hlower : ¬ ('a' ≤ c ∧ c ≤ 'z') := by
    rintro ⟨hle, _⟩
    have hle : 97 ≤ c.toNat := UInt32.le_iff_toNat_le.mp hle
    omega
  have hupper : ¬ ('A' ≤ c ∧ c ≤ 'Z') := by
    rintro ⟨hle, _⟩
    have hle : 65 ≤ c.toNat := UInt32.le_iff_toNat_le.mp hle
    omega
  rw [digitValue?, if_neg hlower, if_neg hupper, Digit.value?_of_isDigit h]

/-- ASCII digits have the values of their places. -/
theorem digitValues?_of_isDigit {cs : List Char} (hne : cs ≠ []) (h : ∀ c ∈ cs, c.isDigit = true) :
    digitValues? 10 cs = some (cs.map fun c => c.toNat - '0'.toNat) := by
  have hten : ∀ {c : Char}, c.isDigit = true → c.toNat - '0'.toNat < 10 := by
    intro c hc
    have hrange := Digit.toNat_of_isDigit hc
    show c.toNat - 48 < 10
    omega
  induction cs with
  | nil => exact absurd rfl hne
  | cons c cs ih =>
      obtain ⟨hc, hcs⟩ := List.forall_mem_cons.mp h
      have hvalue := digitValue?_of_isDigit hc
      cases cs with
      | nil =>
          rw [digitValues?, hvalue, Option.bind_some, if_pos (hten hc)]
          rfl
      | cons d cs =>
          have hmark : d ≠ '_' := by
            rintro rfl
            exact absurd (hcs _ List.mem_cons_self) (by decide)
          have hrest := ih (by simp) hcs
          rw [digitValues?, hvalue]
          · show (if c.toNat - '0'.toNat < 10 then _ else _) = _
            rw [if_pos (hten hc), hrest]
            rfl
          · simp
          · rintro _ heq
            exact hmark (List.cons.inj heq).1

/-- A printed number is read back unless it has more digits than decimal text may have. -/
theorem natural?_toDigits (n : Nat) :
    natural? 10 (Nat.toDigits 10 n) = if n < 10 ^ digitLimit then some n else none := by
  have hvalues : digitValues? 10 (Nat.toDigits 10 n) = some (decimalDigits n) :=
    digitValues?_of_isDigit Nat.toDigits_ne_nil fun c hc => isDigit_of_mem_toDigits hc
  rw [natural?, hvalues]
  show (if overLimit 10 (decimalDigits n) then none else some (ofDigits 10 (decimalDigits n))) = _
  have hlimit : (decimalDigits n).length ≤ digitLimit ↔ n < 10 ^ digitLimit :=
    length_decimalDigits_le_iff (by decide)
  rw [ofDigits_decimalDigits]
  by_cases hn : n < 10 ^ digitLimit
  · rw [if_pos hn, if_neg]
    rw [overLimit_ten]
    exact Nat.not_lt.mpr (hlimit.mpr hn)
  · rw [if_neg hn, if_pos]
    rw [overLimit_ten]
    exact Nat.lt_of_not_le fun hle => hn (hlimit.mp hle)

/-- Of the digits of a number only a single zero is a zero in front. -/
theorem eq_nil_of_toDigits_zero {n : Nat} {cs : List Char} (h : Nat.toDigits 10 n = '0' :: cs) : cs = [] := by
  refine Decidable.byContradiction fun hne => ?_
  have hvalue := ofDigits_decimalDigits n
  have hdigits : decimalDigits n = 0 :: cs.map fun c => c.toNat - '0'.toNat := by
    rw [decimalDigits, h, List.map_cons]
    rfl
  have hsame : ofDigits 10 (cs.map fun c => c.toNat - '0'.toNat) = n := by
    rw [hdigits] at hvalue
    exact hvalue
  have hten : ∀ d ∈ cs.map fun c => c.toNat - '0'.toNat, d < 10 := by
    intro d hd
    obtain ⟨c, hc, rfl⟩ := List.mem_map.mp hd
    have hmem : c ∈ Nat.toDigits 10 n := by
      rw [h]
      exact List.mem_cons_of_mem _ hc
    have hrange := Digit.toNat_of_isDigit (isDigit_of_mem_toDigits hmem)
    show c.toNat - 48 < 10
    omega
  -- Without the zero there are digits enough for the number already.
  have hlt := ofDigits_lt hten
  rw [hsame, List.length_map] at hlt
  have hlength := (length_decimalDigits_le_iff (List.length_pos_iff.mpr hne)).mpr hlt
  rw [hdigits, List.length_cons, List.length_map] at hlength
  omega

end Integer

end IdiomLint
