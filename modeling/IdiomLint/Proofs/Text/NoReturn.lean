import IdiomLint.Number.DecimalText
import IdiomLint.Proofs.Text.Lines
import IdiomLint.Proofs.Text.Utf8
import IdiomLint.Text.Quoted

/-!
# Texts without carriage returns

What is read from a file has no carriage return in it, and neither has what is decoded from bytes of it
(`noReturn_decodeLossy`). Numbers and quoted texts never have one.
-/

namespace IdiomLint

/-- There is no carriage return in the text. -/
def NoReturn (s : String) : Prop := '\r' ∉ s.toList

instance (s : String) : Decidable (NoReturn s) := inferInstanceAs (Decidable ('\r' ∉ s.toList))

theorem noReturn_append {s t : String} : NoReturn (s ++ t) ↔ NoReturn s ∧ NoReturn t := by
  rw [NoReturn, String.toList_append, List.mem_append, not_or]
  rfl

theorem NoReturn.append {s t : String} (hs : NoReturn s) (ht : NoReturn t) : NoReturn (s ++ t) :=
  noReturn_append.mpr ⟨hs, ht⟩

theorem noReturn_ofList {cs : List Char} : NoReturn (String.ofList cs) ↔ '\r' ∉ cs := by
  rw [NoReturn, String.toList_ofList]

theorem noReturn_intercalate {separator : String} (hseparator : NoReturn separator) {ss : List String}
    (h : ∀ s ∈ ss, NoReturn s) : NoReturn (separator.intercalate ss) := by
  rw [NoReturn, String.toList_intercalate]
  induction ss with
  | nil => exact List.not_mem_nil
  | cons s ss ih =>
      rw [List.forall_mem_cons] at h
      cases ss with
      | nil =>
          rw [List.map_singleton, List.intercalate_singleton]
          exact h.1
      | cons t ss =>
          rw [List.map_cons, List.map_cons, List.intercalate_cons_cons, List.mem_append, List.mem_append,
            not_or, not_or]
          exact ⟨⟨h.1, hseparator⟩, ih h.2⟩

theorem noReturn_join {ss : List String} (h : ∀ s ∈ ss, NoReturn s) : NoReturn (String.join ss) := by
  rw [NoReturn, String.toList_join, List.mem_flatMap]
  rintro ⟨s, hs, hreturn⟩
  exact h s hs hreturn

/-- What is read has no carriage return in it. -/
theorem noReturn_joinUniversal (cs : List Char) : NoReturn (String.ofList (Lines.joinUniversal cs)) :=
  noReturn_ofList.mpr (Lines.not_mem_joinUniversal cs)

/-! ## Bytes -/

namespace Utf8

/-- The byte of the carriage return. -/
def returnByte : UInt8 := 13

theorem eq_of_returnByte_mem {c : Char} (h : returnByte ∈ String.utf8EncodeChar c) : c = '\r' :=
  eq_of_ascii_mem (show 13 < 0x80 by decide) h

theorem noReturn_iff (s : String) : NoReturn s ↔ returnByte ∉ encode s := by
  rw [NoReturn, encode, encodeChars, List.mem_flatMap, not_iff_not]
  constructor
  · exact fun h => ⟨'\r', h, by decide⟩
  · rintro ⟨c, hc, h⟩
    exact eq_of_returnByte_mem h ▸ hc

/-- Whatever may come next, an open character will not be a carriage return. -/
def Partial.IsLate (p : Partial) : Prop := 14 ≤ p.bits * 64 + (p.low.toNat - 0x80)

theorem eq_of_ofNat_eq_return {n : Nat} (h : Char.ofNat n = '\r') : n = 13 := by
  by_cases hn : n < 0xD800 ∨ 0xDFFF < n ∧ n < 0x110000
  · rw [← toNat_charOfNat hn, h]
    rfl
  · rw [Char.ofNat, dif_neg hn] at h
    exact absurd h (by decide)

/-- A byte that begins a character is the carriage return, or begins a character far behind it. -/
theorem of_start {b : UInt8} : (start b = .inl (.char '\r') → b = returnByte) ∧
    ∀ p, start b = .inr p → p.IsLate := by
  obtain ⟨n, hn, rfl⟩ := exists_ofNat b
  rcases Nat.lt_or_ge n 0x80 with h1 | h1
  · rw [start_one h1]
    refine ⟨fun h => ?_, by simp⟩
    rw [Sum.inl.injEq, Piece.char.injEq] at h
    rw [eq_of_ofNat_eq_return h]
    rfl
  rcases Nat.lt_or_ge n 0xC2 with h2 | h2
  · rw [start_bad hn (Or.inl ⟨h1, h2⟩)]
    simp
  rcases Nat.lt_or_ge n 0xE0 with h3 | h3
  · rw [start_two h2 h3]
    refine ⟨by simp, fun p hp => ?_⟩
    cases hp
    show 14 ≤ (n - 0xC0) * 64 + _
    omega
  rcases Nat.lt_or_ge n 0xF0 with h4 | h4
  · rw [start_three h3 h4]
    refine ⟨by simp, fun p hp => ?_⟩
    cases hp
    by_cases hfirst : n = 0xE0
    · simp [Partial.IsLate, hfirst]
    · show 14 ≤ (n - 0xE0) * 64 + _
      omega
  rcases Nat.lt_or_ge n 0xF5 with h5 | h5
  · rw [start_four h4 h5]
    refine ⟨by simp, fun p hp => ?_⟩
    cases hp
    by_cases hfirst : n = 0xF0
    · simp [Partial.IsLate, hfirst]
    · show 14 ≤ (n - 0xF0) * 64 + _
      omega
  · rw [start_bad hn (Or.inr h5)]
    simp

/-- The next byte of such a character does not make it a carriage return. -/
theorem of_next {p : Partial} {b : UInt8} (hp : p.IsLate) :
    p.next? b ≠ some (.inl (.char '\r')) ∧ ∀ p', p.next? b = some (.inr p') → p'.IsLate := by
  unfold Partial.IsLate at hp
  rw [Partial.next?]
  split
  · next hb =>
      have hlow := UInt8.le_iff_toNat_le.mp hb.1
      have hlate : 14 ≤ p.bits * 64 + (b.toNat - 0x80) := by omega
      have hchar : Char.ofNat (p.bits * 64 + (b.toNat - 0x80)) ≠ '\r' := by
        intro heq
        have := eq_of_ofNat_eq_return heq
        omega
      simp only [Option.some.injEq]
      split
      · simpa using hchar
      · simpa using hchar
      · refine ⟨by simp, fun p' hp' => ?_⟩
        cases hp'
        show 14 ≤ (p.bits * 64 + (b.toNat - 0x80)) * 64 + _
        omega
  · simp

theorem mem_of_piecesFrom {p : Option Partial} {bytes : List UInt8} (hp : ∀ q ∈ p, q.IsLate)
    (h : .char '\r' ∈ piecesFrom p bytes) : returnByte ∈ bytes := by
  have hlate : ∀ {p' : Partial}, p'.IsLate → ∀ q ∈ some p', q.IsLate := by
    rintro p' hp' q hq
    exact Option.some.inj hq ▸ hp'
  fun_induction piecesFrom p bytes with
  | case1 => exact absurd h List.not_mem_nil
  | case2 p => exact absurd (List.mem_singleton.mp h) (by simp)
  | case3 b rest piece hstart ih =>
      rcases List.mem_cons.mp h with rfl | h
      · exact of_start.1 hstart ▸ List.mem_cons_self
      · exact List.mem_cons_of_mem b (ih (by simp) h)
  | case4 b rest p hstart ih =>
      exact List.mem_cons_of_mem b (ih (hlate (of_start.2 _ hstart)) h)
  | case5 p b rest piece hnext ih =>
      rcases List.mem_cons.mp h with rfl | h
      · exact absurd hnext (of_next (hp p rfl)).1
      · exact List.mem_cons_of_mem b (ih (by simp) h)
  | case6 p b rest p' hnext ih =>
      exact List.mem_cons_of_mem b (ih (hlate ((of_next (hp p rfl)).2 p' hnext)) h)
  | case7 p b rest hnext ih ih' =>
      -- The byte is looked at again on its own.
      rcases List.mem_cons.mp h with h | h
      · exact absurd h (by simp)
      · split at h
        · next piece hstart =>
            rcases List.mem_cons.mp h with rfl | h
            · exact of_start.1 hstart ▸ List.mem_cons_self
            · exact List.mem_cons_of_mem b (ih (by simp) h)
        · next p' hstart =>
            exact List.mem_cons_of_mem b (ih' p' (hlate (of_start.2 _ hstart)) h)

/-- What is decoded from bytes without the one of the carriage return has none in it. -/
theorem noReturn_decodeLossy {bytes : List UInt8} (h : returnByte ∉ bytes) : NoReturn (decodeLossy bytes) := by
  rw [decodeLossy, noReturn_ofList, List.mem_map]
  rintro ⟨piece, hpiece, hreturn⟩
  cases piece with
  | char c =>
      obtain rfl : c = '\r' := hreturn
      exact h (mem_of_piecesFrom (by simp) hpiece)
  | broken bytes why =>
      have hother : '\uFFFD' ≠ '\r' := by decide
      exact hother hreturn

end Utf8

/-! ## Numbers and quoted texts -/

theorem not_mem_toDigits (n : Nat) : '\r' ∉ Nat.toDigits 10 n := by
  intro h
  have hdigit : '\r'.isDigit = true := Nat.isDigit_of_mem_toDigits (by decide) (by decide) h
  exact absurd hdigit (by decide)

theorem Integer.noReturn_decimal (n : Int) : NoReturn (decimal n) := by
  cases n with
  | ofNat n => exact noReturn_ofList.mpr (not_mem_toDigits n)
  | negSucc n =>
      rw [decimal, noReturn_ofList, List.mem_cons, not_or]
      exact ⟨by decide, not_mem_toDigits (n + 1)⟩

theorem Integer.noReturn_of_decimal? {n : Int} {s : String} (h : decimal? n = some s) : NoReturn s := by
  rw [decimal?, Option.ite_none_right_eq_some] at h
  obtain ⟨_, h⟩ := h
  cases h
  exact noReturn_decimal n

namespace Binary64

theorem not_mem_layout {digits : List Char} (h : '\r' ∉ digits) (first : Int) :
    '\r' ∉ layout digits first := by
  have htake : ∀ k, '\r' ∉ digits.take k := fun k hk => h (List.mem_of_mem_take hk)
  have hdrop : ∀ k, '\r' ∉ digits.drop k := fun k hk => h (List.mem_of_mem_drop hk)
  have hzeros : ∀ k, '\r' ∉ List.replicate k '0' := fun k hk =>
    absurd (List.eq_of_mem_replicate hk) (by decide)
  rw [layout]
  split
  · simp only [List.mem_append, List.mem_cons, not_or]
    refine ⟨⟨htake 1, ?_⟩, by decide, ?_, ?_⟩
    · split
      · exact List.not_mem_nil
      · rw [List.mem_cons, not_or]
        exact ⟨by decide, hdrop 1⟩
    · split <;> decide
    · split
      · rw [List.mem_cons, not_or]
        exact ⟨by decide, not_mem_toDigits _⟩
      · exact not_mem_toDigits _
  · split
    · simp only [List.mem_append, List.mem_cons, not_or]
      exact ⟨⟨by decide, by decide, hzeros _⟩, h⟩
    · simp only
      split
      · simp only [List.mem_append, not_or]
        exact ⟨⟨h, hzeros _⟩, by decide⟩
      · simp only [List.mem_append, List.mem_cons, not_or]
        exact ⟨htake _, by decide, hdrop _⟩

theorem not_mem_dropTrailingZeros {digits : List Char} (h : '\r' ∉ digits) :
    '\r' ∉ dropTrailingZeros digits := by
  rw [dropTrailingZeros, List.mem_reverse]
  exact fun hmem => h (List.mem_reverse.mp ((List.dropWhile_sublist _).subset hmem))

theorem noReturn_text (x : Binary64) : NoReturn x.text := by
  have hsign : '\r' ∉ (if x.negative then ['-'] else []) := by
    split <;> decide
  rw [text]
  split
  · decide
  · simp only
    split
    · rw [noReturn_ofList, List.mem_append, not_or]
      exact ⟨hsign, by decide⟩
    · split
      · rw [noReturn_ofList, List.mem_append, not_or]
        exact ⟨hsign, by decide⟩
      · rw [noReturn_ofList, List.mem_append, not_or]
        exact ⟨hsign, not_mem_layout (not_mem_dropTrailingZeros (not_mem_toDigits _)) _⟩

end Binary64

theorem Hex.not_mem_digits (width : Nat) : ∀ n, '\r' ∉ digits width n := by
  have hdigit : ∀ k < 16, digit k ≠ '\r' := by decide
  induction width with
  | zero => exact fun n => List.not_mem_nil
  | succ width ih =>
      intro n
      rw [digits, List.mem_append, not_or, List.mem_singleton]
      exact ⟨ih _, Ne.symm (hdigit _ (Nat.mod_lt n (by decide)))⟩

namespace Quoted

theorem not_mem_escape {quote : Char} (hquote : quote ≠ '\r') (c : Char) : '\r' ∉ escape quote c := by
  have hhex : ∀ (letter : Char) (width : Nat), letter ≠ '\r' →
      '\r' ∉ '\\' :: letter :: Hex.digits width c.toNat := by
    intro letter width hletter
    simp only [List.mem_cons, not_or]
    exact ⟨by decide, Ne.symm hletter, Hex.not_mem_digits width _⟩
  unfold escape
  split
  · next hc =>
      have hne : c ≠ '\r' := by
        rintro rfl
        rw [Bool.or_eq_true, beq_iff_eq, beq_iff_eq] at hc
        exact hc.elim (Ne.symm hquote) (by decide)
      simpa using Ne.symm hne
  · split
    · decide
    · split
      · decide
      · split
        · decide
        · split
          · next hprintable =>
              intro hc
              rw [← List.mem_singleton.mp hc] at hprintable
              exact absurd hprintable (by decide)
          · split
            · exact hhex 'x' 2 (by decide)
            · split
              · exact hhex 'u' 4 (by decide)
              · exact hhex 'U' 8 (by decide)

theorem noReturn_quoted (s : String) : NoReturn (quoted s) := by
  have hquote : quoteFor s.toList ≠ '\r' := by
    unfold quoteFor
    split <;> decide
  rw [quoted, noReturn_ofList, List.mem_append, List.mem_cons, List.mem_flatMap, List.mem_singleton, not_or, not_or]
  refine ⟨⟨Ne.symm hquote, ?_⟩, Ne.symm hquote⟩
  rintro ⟨c, _, hc⟩
  exact not_mem_escape hquote c hc

end Quoted

end IdiomLint
