import IdiomLint.Pattern.Printer
import IdiomLint.Proofs.Number.Decimal

/-!
# Where tokens of pattern text begin and end

`Cuts cs ts` says that the characters `cs` are cut into the tokens `ts`, whatever precedes them. The
lemmas `front?_…` give, for each form of a token, the text of it that is cut off as a whole when a
character follows that cannot belong to it (`Ends`). In the other direction `wellFormed_of_tokensFrom` says
which names and digits the tokens of any text carry.
-/

namespace IdiomLint.Token

/-! ## Cutting -/

/-- The characters are cut into the tokens, wherever they stand. -/
def Cuts (cs : List Char) (ts : List Token) : Prop := ∀ offset, tokensFrom offset cs = .ok ts

theorem cuts_nil : Cuts [] [] := by
  intro offset
  rw [tokensFrom]

theorem Cuts.blank {c : Char} {cs : List Char} {ts : List Token} (hc : Blank.isBlank c = true)
    (h : Cuts cs ts) : Cuts (c :: cs) ts := by
  intro offset
  rw [tokensFrom, if_pos hc]
  exact h (offset + 1)

theorem Cuts.front {c : Char} {cs tail : List Char} {t : Token} {ts : List Token}
    (hc : Blank.isBlank c = false) (hfront : front? (c :: cs) = some (t, tail)) (h : Cuts tail ts) :
    Cuts (c :: cs) (t :: ts) := by
  intro offset
  rw [tokensFrom, if_neg (by simp [hc])]
  split
  · next t' tail' hfound =>
      rw [hfront, Option.some.injEq, Prod.mk.injEq] at hfound
      obtain ⟨rfl, rfl⟩ := hfound
      rw [h]
      rfl
  · next hnone =>
      rw [hfront] at hnone
      exact absurd hnone (by simp)

theorem tokens_of_cuts {source : String} {ts : List Token} (h : Cuts source.toList ts) :
    tokens source = .ok ts := h 0

/-- What follows a token: nothing, a space or a closing bracket. -/
def Ends (rest : List Char) : Prop := ∀ c tail, rest = c :: tail → c = ' ' ∨ c = ')' ∨ c = '\x7d'

theorem ends_nil : Ends [] := by
  intro c tail h
  exact absurd h (by simp)

theorem ends_cons {c : Char} (h : c = ' ' ∨ c = ')' ∨ c = '\x7d') (rest : List Char) :
    Ends (c :: rest) := by
  intro d tail heq
  obtain ⟨rfl, rfl⟩ := List.cons.inj heq
  exact h

/-- A property that the three characters lack is lacking in front of what follows. -/
theorem Ends.head {rest : List Char} (h : Ends rest) {p : Char → Bool} (hspace : p ' ' = false)
    (hparen : p ')' = false) (hbrace : p '\x7d' = false) :
    ∀ c tail, rest = c :: tail → p c = false := by
  intro c tail heq
  rcases h c tail heq with rfl | rfl | rfl
  · exact hspace
  · exact hparen
  · exact hbrace

/-- The run of characters with a property ends where a character lacks it. -/
theorem span_append {p : Char → Bool} {cs rest : List Char} (hcs : ∀ c ∈ cs, p c = true)
    (hrest : ∀ c tail, rest = c :: tail → p c = false) :
    (cs ++ rest).takeWhile p = cs ∧ (cs ++ rest).dropWhile p = rest := by
  rw [List.takeWhile_append_of_pos hcs, List.dropWhile_append_of_pos hcs]
  cases rest with
  | nil => simp
  | cons c tail =>
      have hc := hrest c tail rfl
      simp [hc]

/-! ## Names -/

/-- A letter or underscore, and name characters after it. -/
def IsName (s : String) : Prop :=
  ∃ c cs, s.toList = c :: cs ∧ WordChar.startsName c = true ∧ ∀ d ∈ cs, WordChar.isWord d = true

theorem IsName.ofChars {s : String} {c : Char} {cs : List Char} (hs : s.toList = c :: cs)
    (hstart : WordChar.startsName c = true) (hword : cs.all WordChar.isWord = true) : IsName s :=
  ⟨c, cs, hs, hstart, List.all_eq_true.mp hword⟩

/-- A name, perhaps with a question mark at its end. -/
def IsReferenceName (s : String) : Prop := IsName s ∨ ∃ name, IsName name ∧ s = name ++ "?"

/-- A name is read up to the first character that cannot be in it. -/
theorem name?_append {name : String} (hname : IsName name) {rest : List Char}
    (hrest : ∀ c tail, rest = c :: tail → WordChar.isWord c = false) :
    name? (name.toList ++ rest) = some (name, rest) := by
  obtain ⟨c, cs, hcs, hstart, hword⟩ := hname
  have hall : ∀ d ∈ name.toList, WordChar.isWord d = true := by
    rw [hcs, List.forall_mem_cons]
    exact ⟨WordChar.isWord_of_startsName hstart, hword⟩
  obtain ⟨htake, hdrop⟩ := span_append hall hrest
  rw [hcs, List.cons_append] at htake hdrop ⊢
  rw [name?, if_pos hstart, spanName, htake, hdrop, ← hcs, String.ofList_toList]

theorem isName_of_name? {cs tail : List Char} {name : String} (h : name? cs = some (name, tail)) :
    IsName name := by
  cases cs with
  | nil => simp [name?] at h
  | cons c cs =>
      rw [name?, Option.ite_none_right_eq_some, spanName, Option.some.injEq, Prod.mk.injEq] at h
      obtain ⟨hstart, rfl, _⟩ := h
      rw [List.takeWhile_cons_of_pos (WordChar.isWord_of_startsName hstart)]
      refine ⟨c, cs.takeWhile WordChar.isWord, String.toList_ofList, hstart, ?_⟩
      intro d hd
      exact List.all_eq_true.mp (List.all_takeWhile (l := cs)) d hd

/-- The letters and the underscore have their places between 65 and 122. -/
theorem toNat_of_startsName {c : Char} (h : WordChar.startsName c = true) :
    65 ≤ c.toNat ∧ c.toNat ≤ 122 := by
  rw [WordChar.startsName, Bool.or_eq_true, beq_iff_eq] at h
  rcases h with rfl | h
  · decide
  · have hplace := WordChar.toNat_of_isAlpha h
    omega

/-- What begins a name is no digit. -/
theorem value?_of_startsName {c : Char} (h : WordChar.startsName c = true) :
    Digit.value? c = none := by
  have hplace := toNat_of_startsName h
  have hdigit : ¬ c.isDigit = true := by
    intro hd
    have := Digit.toNat_of_isDigit hd
    omega
  rw [Digit.value?, if_pos (by omega), Digit.asciiValue?, if_neg hdigit]

/-! ## The token at the front -/

/-- The characters with which tokens begin that are neither names nor numbers. -/
def marks : List Char := ['(', ')', '\x7b', '\x7d', '.', '$', '#', ':', '"', '-']

/-- Without a mark in front there is a number or a word. -/
theorem front?_of_notMem_marks {c : Char} (h : c ∉ marks) (cs : List Char) :
    front? (c :: cs) =
      match integer? false (c :: cs) with
      | some found => some found
      | none => (name? (c :: cs)).map fun (name, tail) => (.word name, tail) := by
  -- Every arm of the cutting but the first and the last asks for a mark.
  have hmark : ∀ {mark : Char} {rest tail : List Char}, mark ∈ marks → c :: rest ≠ mark :: tail := by
    intro mark rest tail hmem heq
    rw [(List.cons.inj heq).1] at h
    exact h hmem
  unfold front?
  split
  case h_1 heq => exact absurd heq (List.cons_ne_nil c cs)
  case h_12 heq =>
    obtain ⟨rfl, rfl⟩ := List.cons.inj heq
    rfl
  all_goals
    next heq => exact absurd heq (hmark (by simp [marks]))

/-- What has a property that every mark lacks is no mark. -/
theorem notMem_marks {p : Char → Bool} (hmarks : (marks.all fun d => !p d) = true) {c : Char}
    (hc : p c = true) : c ∉ marks := by
  intro hmem
  have hnone := List.all_eq_true.mp hmarks c hmem
  rw [hc] at hnone
  exact absurd hnone (by decide)

theorem front?_word {name : String} (hname : IsName name) {rest : List Char} (hrest : Ends rest) :
    front? (name.toList ++ rest) = some (.word name, rest) := by
  have hread := name?_append hname (hrest.head (p := WordChar.isWord) rfl rfl rfl)
  obtain ⟨c, cs, hcs, hstart, _⟩ := hname
  have hmarks : c ∉ marks := notMem_marks (by decide) hstart
  have hdigits : integer? false (c :: (cs ++ rest)) = none := by
    simp [integer?, spanDigits, value?_of_startsName hstart]
  rw [hcs, List.cons_append] at hread ⊢
  rw [front?_of_notMem_marks hmarks, hdigits, hread]
  rfl

theorem front?_capture_some {name : String} (hname : IsName name) (rest : List Char) :
    front? ('$' :: (name.toList ++ '=' :: rest)) = some (.capture (some name), rest) := by
  have hequals : ∀ c tail, '=' :: rest = c :: tail → WordChar.isWord c = false := by
    intro c tail heq
    rw [← (List.cons.inj heq).1]
    rfl
  rw [front?, name?_append hname hequals]
  rfl

theorem front?_capture_none {rest : List Char}
    (h : ∀ name tail, name? rest ≠ some (name, '=' :: tail)) :
    front? ('$' :: rest) = some (.capture none, rest) := by
  rw [front?]
  split
  · next name tail hname => exact absurd hname (h name tail)
  · rfl

theorem front?_ref {name : String} (hname : IsReferenceName name) {rest : List Char}
    (hrest : Ends rest) : front? ('#' :: (name.toList ++ rest)) = some (.ref name, rest) := by
  rcases hname with hname | ⟨stem, hstem, rfl⟩
  -- A name without a question mark must not find one in what follows it.
  · rw [front?, name?_append hname (hrest.head (p := WordChar.isWord) rfl rfl rfl)]
    split
    · next name' tail heq =>
        rw [Option.some.injEq, Prod.mk.injEq] at heq
        rcases hrest _ _ heq.2 with h | h | h <;> exact absurd h (by decide)
    · next name' tail _ heq =>
        rw [Option.some.injEq, Prod.mk.injEq] at heq
        rw [heq.1, heq.2]
    · next heq => exact absurd heq (by simp)
  · have hmark : ∀ c tail, '?' :: rest = c :: tail → WordChar.isWord c = false := by
      intro c tail heq
      rw [← (List.cons.inj heq).1]
      rfl
    have htext : (stem ++ "?").toList ++ rest = stem.toList ++ '?' :: rest := by simp
    rw [htext, front?, name?_append hstem hmark]
    rfl

/-! ## String literals -/

/-- A written string literal is read back up to its closing quote. -/
theorem stringContent?_append (cs rest : List Char) :
    stringContent? (cs.flatMap Pattern.escapeChar ++ '"' :: rest) = some (cs, rest) := by
  induction cs with
  | nil => rw [List.flatMap_nil, List.nil_append, stringContent?]
  | cons c cs ih =>
      rw [List.flatMap_cons, List.append_assoc, Pattern.escapeChar]
      by_cases hc : c = '"' ∨ c = '\\'
      · have hline : c ≠ '\n' := by rcases hc with rfl | rfl <;> decide
        rw [if_pos hc, List.cons_append, List.singleton_append, stringContent?, if_neg hline, ih]
        rfl
      · rw [if_neg hc, List.singleton_append]
        rw [not_or] at hc
        unfold stringContent?
        split <;> simp_all

theorem front?_string (s : String) (rest : List Char) :
    front? ('"' :: (s.toList.flatMap Pattern.escapeChar ++ '"' :: rest)) = some (.string s, rest) := by
  rw [front?, stringContent?_append, Option.map_some]
  show some (string (String.ofList s.toList), rest) = _
  rw [String.ofList_toList]

/-! ## Integer literals -/

/-- ASCII digits are read up to the first character that is no digit. -/
theorem spanDigits_append {cs rest : List Char} (hcs : ∀ c ∈ cs, c.isDigit = true)
    (hrest : ∀ c tail, rest = c :: tail → Digit.isDecimal c = false) :
    spanDigits (cs ++ rest) = (cs.map fun c => c.toNat - '0'.toNat, rest) := by
  induction cs with
  | nil =>
      cases rest with
      | nil => rfl
      | cons c tail =>
          have hc := hrest c tail rfl
          rw [Digit.isDecimal, Option.isSome_eq_false_iff, Option.isNone_iff_eq_none] at hc
          simp [spanDigits, hc]
  | cons c cs ih =>
      have hc := Digit.value?_of_isDigit (hcs c (by simp))
      have hrest := ih fun d hd => hcs d (by simp [hd])
      simp [spanDigits, hc, hrest]

theorem integer?_append (negative : Bool) (n : Nat) {rest : List Char} (hrest : Ends rest) :
    integer? negative (Nat.toDigits 10 n ++ rest) =
      some (.integer negative (Integer.decimalDigits n), rest) := by
  have hdigits : ∀ c ∈ Nat.toDigits 10 n, c.isDigit = true := fun c hc =>
    Nat.isDigit_of_mem_toDigits (by decide) (by decide) hc
  have hspan := spanDigits_append hdigits (hrest.head (p := Digit.isDecimal) rfl rfl rfl)
  rw [← Integer.decimalDigits] at hspan
  rw [integer?, hspan]
  split
  · next heq => exact absurd (Prod.mk.inj heq).1 (Integer.decimalDigits_ne_nil n)
  · next digits tail _ heq =>
      rw [Prod.mk.injEq] at heq
      rw [heq.1, heq.2]

theorem front?_natural (n : Nat) {rest : List Char} (hrest : Ends rest) :
    front? (Nat.toDigits 10 n ++ rest) = some (.integer false (Integer.decimalDigits n), rest) := by
  have hread := integer?_append false n hrest
  cases hcs : Nat.toDigits 10 n with
  | nil => exact absurd hcs Nat.toDigits_ne_nil
  | cons c cs =>
      have hdigit : c.isDigit = true :=
        Nat.isDigit_of_mem_toDigits (b := 10) (n := n) (by decide) (by decide) (by simp [hcs])
      have hmarks : c ∉ marks := notMem_marks (p := Char.isDigit) (by decide) hdigit
      rw [hcs, List.cons_append] at hread
      rw [List.cons_append, front?_of_notMem_marks hmarks, hread]

theorem front?_negative (n : Nat) {rest : List Char} (hrest : Ends rest) :
    front? ('-' :: (Nat.toDigits 10 n ++ rest)) =
      some (.integer true (Integer.decimalDigits n), rest) := by
  rw [front?]
  exact integer?_append true n hrest

/-! ## What the tokens of a text carry -/

/-- The names in a token are names, and its digits are decimal. -/
def WellFormed : Token → Prop
  | .capture (some name) => IsName name
  | .ref name => IsReferenceName name
  | .word name => IsName name
  | .integer _ digits => ∀ d ∈ digits, d < 10
  | _ => True

theorem spanDigits_lt (cs : List Char) : ∀ d ∈ (spanDigits cs).1, d < 10 := by
  induction cs with
  | nil => simp [spanDigits]
  | cons c cs ih =>
      rw [spanDigits]
      split
      · next d hd =>
          rw [List.forall_mem_cons]
          exact ⟨Digit.value?_lt hd, ih⟩
      · simp

theorem wellFormed_of_integer? {negative : Bool} {cs tail : List Char} {t : Token}
    (h : integer? negative cs = some (t, tail)) : t.WellFormed := by
  have hdigits := spanDigits_lt cs
  rw [integer?] at h
  split at h
  · exact absurd h (by simp)
  · next digits rest _ heq =>
      rw [heq] at hdigits
      rw [Option.some.injEq, Prod.mk.injEq] at h
      rw [← h.1]
      exact hdigits

theorem wellFormed_of_front? {cs tail : List Char} {t : Token} (h : front? cs = some (t, tail)) :
    t.WellFormed := by
  unfold front? at h
  split at h
  · exact absurd h (by simp)
  · cases h; trivial
  · cases h; trivial
  · cases h; trivial
  · cases h; trivial
  · cases h; trivial
  · split at h
    · next hname => cases h; exact isName_of_name? hname
    · cases h; trivial
  · split at h
    · next hname => cases h; exact Or.inr ⟨_, isName_of_name? hname, rfl⟩
    · next hname => cases h; exact Or.inl (isName_of_name? hname)
    · exact absurd h (by simp)
  · split at h
    · split at h
      · cases h; trivial
      · cases h; trivial
    · exact absurd h (by simp)
  · obtain ⟨_, _, heq⟩ := Option.map_eq_some_iff.mp h
    cases heq
    trivial
  · exact wellFormed_of_integer? h
  · split at h
    · next hint => cases h; exact wellFormed_of_integer? hint
    · obtain ⟨_, hname, heq⟩ := Option.map_eq_some_iff.mp h
      cases heq
      exact isName_of_name? hname

/-- The tokens of any text are well formed. -/
theorem wellFormed_of_tokensFrom {offset : Nat} {cs : List Char} {ts : List Token}
    (h : tokensFrom offset cs = .ok ts) : ∀ t ∈ ts, t.WellFormed := by
  -- The induction is on the length, as a token can be any number of characters.
  induction hn : cs.length using Nat.strongRecOn generalizing offset cs ts with
  | _ n ih =>
      cases cs with
      | nil =>
          rw [tokensFrom, Except.ok.injEq] at h
          simp [← h]
      | cons c cs =>
          rw [tokensFrom] at h
          split at h
          · exact ih cs.length (by simp [← hn]) h rfl
          · split at h
            · next t tail hfront =>
                have hlength : tail.length < n := hn ▸ length_of_front? hfront
                cases htail : tokensFrom (offset + ((c :: cs).length - tail.length)) tail with
                | error e =>
                    rw [htail] at h
                    exact absurd h (by simp [Except.map])
                | ok others =>
                    rw [htail] at h
                    cases h
                    rw [List.forall_mem_cons]
                    exact ⟨wellFormed_of_front? hfront, ih tail.length hlength htail rfl⟩
            · exact absurd h (by simp)

end IdiomLint.Token
