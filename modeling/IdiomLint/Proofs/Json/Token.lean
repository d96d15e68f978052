import Mathlib.Data.List.TakeDrop
import IdiomLint.Json.Printer
import IdiomLint.Json.Token
import IdiomLint.Proofs.Text.Utf8

/-!
# Tokens of printed JSON

`tokens?_cons` says how a text is cut, without the bound that `tokensWithin?` carries along. From it follow the
tokens of what `Json.render` writes: a mark or a word is cut off as it stands (`tokens?_of_front`), a line break is
passed over (`tokens?_newline`), and a string is one token (`tokens?_renderString`).
-/

namespace IdiomLint.JsonToken

/-! ## Cutting -/

theorem length_after? {ws : List Char} : ∀ {cs tail : List Char}, after? ws cs = some tail →
    cs.length = ws.length + tail.length := by
  induction ws with
  | nil =>
      intro cs tail h
      cases h
      simp
  | cons w ws ih =>
      intro cs tail h
      cases cs with
      | nil => exact absurd h (by simp [after?])
      | cons c cs =>
          rw [after?, Option.ite_none_right_eq_some] at h
          rw [List.length_cons, List.length_cons, ih h.2]
          omega

theorem length_word? {ws : List (List Char × Json)} (hws : ∀ w ∈ ws, w.1 ≠ []) {cs tail : List Char}
    {t : JsonToken} (h : word? cs ws = some (t, tail)) : tail.length < cs.length := by
  induction ws with
  | nil => exact absurd h (by simp [word?])
  | cons w ws ih =>
      rw [List.forall_mem_cons] at hws
      rw [word?] at h
      split at h
      · next tail' htail =>
          cases h
          have hlength := length_after? htail
          have hpos := List.length_pos_iff.mpr hws.1
          omega
      · exact ih hws.2 h

theorem length_stringUnits? (cs : List Char) : ∀ {units : List Nat} {tail : List Char},
    stringUnits? cs = some (units, tail) → tail.length < cs.length := by
  fun_induction stringUnits? cs with
  | case1 => simp
  | case2 rest => simp
  | case3 a b c d rest ih =>
      intro units tail h
      simp only [Option.bind_eq_bind, Option.bind_eq_some_iff] at h
      obtain ⟨unit, _, ⟨found, tail'⟩, hfound, h⟩ := h
      cases h
      have hlt := ih hfound
      simp only [List.length_cons]
      omega
  | case4 c rest _ ih =>
      intro units tail h
      simp only [Option.bind_eq_bind, Option.bind_eq_some_iff] at h
      obtain ⟨e, _, ⟨found, tail'⟩, hfound, h⟩ := h
      cases h
      have hlt := ih hfound
      simp only [List.length_cons]
      omega
  | case5 => simp
  | case6 c rest _ _ _ _ ih =>
      intro units tail h
      simp only [Option.bind_eq_bind, Option.bind_eq_some_iff] at h
      obtain ⟨⟨found, tail'⟩, hfound, h⟩ := h
      cases h
      exact Nat.lt_succ_of_lt (ih hfound)

theorem number?_nil : number? [] = none := rfl

/-- A token takes up at least one character. -/
theorem length_front? {cs tail : List Char} {t : JsonToken} (h : front? cs = some (t, tail)) :
    tail.length < cs.length := by
  have hwords : ∀ w ∈ words, w.1 ≠ [] := by
    simp [words]
  unfold front? at h
  split at h
  case h_1 => exact absurd h (by simp)
  case h_8 rest =>
    obtain ⟨⟨units, tail'⟩, hfound, h⟩ := Option.map_eq_some_iff.mp h
    cases h
    exact Nat.lt_succ_of_lt (length_stringUnits? rest hfound)
  case h_9 hne _ _ _ _ _ _ _ =>
    split at h
    · next found hfound =>
        cases h
        exact length_word? hwords hfound
    · rw [List.span_eq_takeWhile_dropWhile] at h
      obtain ⟨j, hj, h⟩ := Option.map_eq_some_iff.mp h
      cases h
      have hlength := congrArg List.length (List.takeWhile_append_dropWhile (p := inNumber) (l := cs))
      rw [List.length_append] at hlength
      -- There is no number without a character.
      cases hdigits : cs.takeWhile inNumber with
      | nil =>
          rw [hdigits] at hj
          exact absurd hj (by simp [number?_nil])
      | cons c digits =>
          rw [hdigits, List.length_cons] at hlength
          omega
  all_goals
    cases h
    simp

/-- Any bound that the length of the text allows will do. -/
theorem tokensWithin?_of_le {fuel : Nat} : ∀ {fuel' : Nat} {cs : List Char}, cs.length ≤ fuel →
    cs.length ≤ fuel' → tokensWithin? fuel cs = tokensWithin? fuel' cs := by
  induction fuel with
  | zero =>
      intro fuel' cs h _
      rw [List.length_eq_zero_iff.mp (Nat.le_zero.mp h)]
      cases fuel' <;> rfl
  | succ fuel ih =>
      intro fuel' cs h h'
      cases cs with
      | nil => cases fuel' <;> rfl
      | cons c rest =>
          rw [List.length_cons] at h h'
          obtain ⟨fuel', rfl⟩ := Nat.exists_eq_add_of_lt (Nat.lt_of_lt_of_le (Nat.succ_pos _) h')
          rw [Nat.zero_add] at h' ⊢
          rw [tokensWithin?, tokensWithin?]
          split
          · exact ih (by omega) (by omega)
          · cases hfront : front? (c :: rest) with
            | none => rfl
            | some found =>
                have hlt := length_front? hfront
                rw [List.length_cons] at hlt
                have hrest := @ih fuel' found.2 (by omega) (by omega)
                show (tokensWithin? fuel found.2).bind _ = (tokensWithin? fuel' found.2).bind _
                rw [hrest]

/-- A blank is passed over, and anything else begins with a token. -/
theorem tokens?_cons (c : Char) (rest : List Char) : tokens? (c :: rest) =
    if isSpace c then tokens? rest
    else (front? (c :: rest)).bind fun found => (tokens? found.2).map (found.1 :: ·) := by
  rw [tokens?, List.length_cons, tokensWithin?]
  split
  · rfl
  · cases hfront : front? (c :: rest) with
    | none => rfl
    | some found =>
        have hlt := length_front? hfront
        rw [List.length_cons] at hlt
        have hrest := @tokensWithin?_of_le rest.length found.2.length found.2 (by omega) (Nat.le_refl _)
        show (tokensWithin? rest.length found.2).bind _ = (tokens? found.2).map _
        rw [hrest, ← tokens?]
        cases tokens? found.2 with
        | none => rfl
        | some ts => rfl

theorem tokens?_blank {c : Char} (hc : isSpace c = true) (rest : List Char) :
    tokens? (c :: rest) = tokens? rest := by
  rw [tokens?_cons, if_pos hc]

theorem tokens?_of_front {cs tail : List Char} {c : Char} {t : JsonToken} (hc : isSpace c = false)
    (h : front? (c :: cs) = some (t, tail)) : tokens? (c :: cs) = (tokens? tail).map (t :: ·) := by
  rw [tokens?_cons, if_neg (by simp [hc]), h]
  rfl

theorem tokens?_newline (level : Nat) (rest : List Char) :
    tokens? ((Json.newline level).toList ++ rest) = tokens? rest := by
  have hspaces : ∀ n, tokens? (List.replicate n ' ' ++ rest) = tokens? rest := by
    intro n
    induction n with
    | zero => rfl
    | succ n ih =>
        rw [List.replicate_succ, List.cons_append, tokens?_blank rfl, ih]
  rw [Json.newline, String.toList_ofList, List.cons_append, tokens?_blank rfl, hspaces]

/-! ## Strings -/

/-- The code point of a character, or its two UTF-16 units if it lies beyond the basic plane. -/
def units (c : Char) : List Nat :=
  if c.toNat < 0x10000 then [c.toNat]
  else [0xD800 + (c.toNat - 0x10000) / 0x400, 0xDC00 + (c.toNat - 0x10000) % 0x400]

theorem value?_digit : ∀ n < 16, Hex.value? (Hex.digit n) = some n := by decide

theorem unit?_digits {n : Nat} (hn : n < 0x10000) : ∃ a b c d, Hex.digits 4 n = [a, b, c, d] ∧
    unit? a b c d = some n := by
  refine ⟨_, _, _, _, rfl, ?_⟩
  rw [unit?, value?_digit _ (Nat.mod_lt _ (by decide)), value?_digit _ (Nat.mod_lt _ (by decide)),
    value?_digit _ (Nat.mod_lt _ (by decide)), value?_digit _ (Nat.mod_lt _ (by decide))]
  show some _ = some n
  congr 1
  omega

/-- A unit that is written as an escape is read back. -/
theorem stringUnits?_escapeUnit {n : Nat} (hn : n < 0x10000) (rest : List Char) :
    stringUnits? (Json.escapeUnit n ++ rest) = (stringUnits? rest).map fun p => (n :: p.1, p.2) := by
  obtain ⟨a, b, c, d, hdigits, hunit⟩ := unit?_digits hn
  rw [Json.escapeUnit, hdigits]
  show stringUnits? ('\\' :: 'u' :: a :: b :: c :: d :: rest) = _
  rw [stringUnits?, hunit]
  cases stringUnits? rest with
  | none => rfl
  | some p => rfl

/-- The ways in which a character is written in a string. -/
theorem escapeChar_cases (c : Char) :
    (∃ e, Json.escapeChar c = ['\\', e] ∧ e ≠ 'u' ∧ escaped? e = some c ∧ c.toNat < 0x10000) ∨
    (Json.escapeChar c = [c] ∧ c ≠ '"' ∧ c ≠ '\\' ∧ 0x20 ≤ c.toNat ∧ c.toNat < 0x10000) ∨
    (Json.escapeChar c = Json.escapeUnit c.toNat ∧ c.toNat < 0x10000) ∨
    (Json.escapeChar c = Json.escapeUnit (0xD800 + (c.toNat - 0x10000) / 0x400) ++
      Json.escapeUnit (0xDC00 + (c.toNat - 0x10000) % 0x400) ∧ 0x10000 ≤ c.toNat) := by
  by_cases hshort : c ∈ ['"', '\\', '\n', '\r', '\t', '\x08', '\x0c']
  · left
    simp only [List.mem_cons, List.not_mem_nil, or_false] at hshort
    rcases hshort with rfl | rfl | rfl | rfl | rfl | rfl | rfl
    · exact ⟨'"', rfl, by decide, rfl, by decide⟩
    · exact ⟨'\\', rfl, by decide, rfl, by decide⟩
    · exact ⟨'n', rfl, by decide, rfl, by decide⟩
    · exact ⟨'r', rfl, by decide, rfl, by decide⟩
    · exact ⟨'t', rfl, by decide, rfl, by decide⟩
    · exact ⟨'b', rfl, by decide, rfl, by decide⟩
    · exact ⟨'f', rfl, by decide, rfl, by decide⟩
  · simp only [List.mem_cons, List.not_mem_nil, or_false, not_or] at hshort
    obtain ⟨hquote, hslash, hline, hreturn, htab, hback, hform⟩ := hshort
    right
    rw [Json.escapeChar, if_neg hquote, if_neg hslash, if_neg hline, if_neg hreturn, if_neg htab,
      if_neg hback, if_neg hform]
    by_cases hprinted : 0x20 ≤ c.toNat ∧ c.toNat < 0x7F
    · rw [if_pos hprinted]
      exact Or.inl ⟨rfl, hquote, hslash, hprinted.1, by omega⟩
    · rw [if_neg hprinted]
      by_cases hbasic : c.toNat < 0x10000
      · rw [if_pos hbasic]
        exact Or.inr (Or.inl ⟨rfl, hbasic⟩)
      · rw [if_neg hbasic]
        exact Or.inr (Or.inr ⟨rfl, by omega⟩)

/-- A character that is written in a string is read back as its units. -/
theorem stringUnits?_escapeChar (c : Char) (rest : List Char) :
    stringUnits? (Json.escapeChar c ++ rest) = (stringUnits? rest).map fun p => (units c ++ p.1, p.2) := by
  rcases escapeChar_cases c with ⟨e, hchar, hu, he, hbasic⟩ | ⟨hchar, hquote, hslash, hlow, hbasic⟩ |
    ⟨hchar, hbasic⟩ | ⟨hchar, hbeyond⟩
  · rw [hchar, units, if_pos hbasic]
    show stringUnits? ('\\' :: e :: rest) = _
    rw [stringUnits?, he]
    · cases stringUnits? rest <;> rfl
    · exact fun _ _ _ _ _ h _ => hu h
  · rw [hchar, units, if_pos hbasic]
    show stringUnits? (c :: rest) = _
    rw [stringUnits?, if_neg (by omega)]
    · cases stringUnits? rest <;> rfl
    · exact hquote
    · exact fun _ _ _ _ _ h _ => hslash h
    · exact fun _ _ h _ => hslash h
  · rw [hchar, units, if_pos hbasic, stringUnits?_escapeUnit hbasic]
    rfl
  · have hvalid := Utf8.toNat_valid c
    rw [hchar, units, if_neg (by omega), List.append_assoc, stringUnits?_escapeUnit (by omega),
      stringUnits?_escapeUnit (by omega), Option.map_map]
    rfl

theorem stringUnits?_escaped (cs rest : List Char) :
    stringUnits? (cs.flatMap Json.escapeChar ++ '"' :: rest) = some (cs.flatMap units, rest) := by
  induction cs with
  | nil => rfl
  | cons c cs ih =>
      rw [List.flatMap_cons, List.append_assoc, stringUnits?_escapeChar, ih, List.flatMap_cons]
      rfl

theorem isLead_iff {n : Nat} : isLead n = true ↔ 0xD800 ≤ n ∧ n < 0xDC00 := by
  simp [isLead]

theorem isTrail_iff {n : Nat} : isTrail n = true ↔ 0xDC00 ≤ n ∧ n < 0xE000 := by
  simp [isTrail]

theorem joinUnits_single {n : Nat} (h : n < 0xD800 ∨ 0xDFFF < n) (rest : List Nat) :
    joinUnits (n :: rest) = Char.ofNat n :: joinUnits rest := by
  have hlead : isLead n = false := by
    rw [Bool.eq_false_iff, ne_eq, isLead_iff]
    omega
  have htrail : isTrail n = false := by
    rw [Bool.eq_false_iff, ne_eq, isTrail_iff]
    omega
  cases rest with
  | nil =>
      show [if isLead n || isTrail n then '\uFFFD' else Char.ofNat n] = _
      rw [hlead, htrail]
      rfl
  | cons m rest =>
      rw [joinUnits, hlead, htrail]
      rfl

theorem joinUnits_pair {n m : Nat} (hn : isLead n = true) (hm : isTrail m = true) (rest : List Nat) :
    joinUnits (n :: m :: rest) =
      Char.ofNat (0x10000 + (n - 0xD800) * 0x400 + (m - 0xDC00)) :: joinUnits rest := by
  rw [joinUnits, hn, hm]
  rfl

/-- The units of a character are joined to the character. -/
theorem joinUnits_units (c : Char) (rest : List Nat) : joinUnits (units c ++ rest) = c :: joinUnits rest := by
  have hvalid := Utf8.toNat_valid c
  rw [units]
  split
  · show joinUnits (c.toNat :: rest) = _
    rw [joinUnits_single (by omega), Char.ofNat_toNat]
  · show joinUnits (_ :: _ :: rest) = _
    rw [joinUnits_pair (isLead_iff.mpr (by omega)) (isTrail_iff.mpr (by omega))]
    have hnumber : 0x10000 + (0xD800 + (c.toNat - 0x10000) / 0x400 - 0xD800) * 0x400 +
        (0xDC00 + (c.toNat - 0x10000) % 0x400 - 0xDC00) = c.toNat := by omega
    rw [hnumber, Char.ofNat_toNat]

theorem joinUnits_flatMap_units (cs : List Char) : joinUnits (cs.flatMap units) = cs := by
  induction cs with
  | nil => rfl
  | cons c cs ih => rw [List.flatMap_cons, joinUnits_units, ih]

/-- A printed string is a token. -/
theorem tokens?_renderString (s : String) (rest : List Char) :
    tokens? ((Json.renderString s).toList ++ rest) = (tokens? rest).map (.string s :: ·) := by
  have htext : (Json.renderString s).toList ++ rest = '"' :: (s.toList.flatMap Json.escapeChar ++ '"' :: rest) := by
    rw [Json.renderString, String.toList_ofList]
    simp
  rw [htext]
  refine tokens?_of_front rfl ?_
  rw [front?, stringUnits?_escaped]
  show some (string (String.ofList (joinUnits (s.toList.flatMap units))), rest) = _
  rw [joinUnits_flatMap_units, String.ofList_toList]

end IdiomLint.JsonToken
