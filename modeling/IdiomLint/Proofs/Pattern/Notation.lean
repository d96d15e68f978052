import IdiomLint.Proofs.Pattern.Built
import IdiomLint.Proofs.Pattern.Lexeme

/-!
# Patterns that have a notation

`Notated refs p` describes the patterns that pattern text can denote when `refs` are the patterns it may
refer to: built ones whose names and literals can be spelt, whose references are in `refs`, and whose
captures without a written name are numbered in the order of the text. The text of such a pattern is cut
into exactly the tokens one expects (`Spelled.tokens_render`): no token runs into its neighbour, and no bare dollar
sign takes a name from what follows it.
-/

namespace IdiomLint.Pattern

open Token (Cuts Ends IsName IsReferenceName)

/-! ## The class -/

mutual

/-- The names of captures that are positions, in the order of the text, all alternatives included. -/
def positions : Pattern → List String
  | .capture name inner => (if isPosition name then [name] else []) ++ positions inner
  | .node _ children => positionsAll children
  | .oneOf alternatives => positionsAll alternatives
  | _ => []

/-- The positions in the patterns of a list, one pattern after the other. -/
def positionsAll : List Pattern → List String
  | [] => []
  | p :: ps => positions p ++ positionsAll ps

end

/-- So many numbers from `first` on, as names. -/
def numbers (first count : Nat) : List String :=
  (List.range' first count).map fun k : Nat => Integer.decimal (k : Int)

/-- Every name and literal of the pattern can be written, and every reference is to the pattern that its
name stands for. -/
inductive Spelled (refs : List (String × Pattern)) : Pattern → Prop
  | any : Spelled refs .any
  | rest : Spelled refs .rest
  | nil : Spelled refs (.value .nil)
  | text (s : String) : Spelled refs (.value (.text s))
  | int {n : Int} : n.natAbs < 10 ^ Integer.digitLimit → Spelled refs (.value (.int n))
  | ref {name : String} {target : Pattern} :
      IsReferenceName name → refs.lookup name = some target → Spelled refs (.ref name target)
  | capture {name : String} {inner : Pattern} :
      isPosition name = true ∨ IsName name → Spelled refs inner → Spelled refs (.capture name inner)
  | node {kind : String} {children : List Pattern} :
      IsName kind → (∀ c ∈ children, Spelled refs c) → Spelled refs (.node kind children)
  | oneOf {alternatives : List Pattern} :
      (∀ a ∈ alternatives, Spelled refs a) → Spelled refs (.oneOf alternatives)

/-- The pattern can be denoted by pattern text that may refer to `refs`. -/
structure Notated (refs : List (String × Pattern)) (p : Pattern) : Prop where
  built : Built p
  spelled : Spelled refs p
  /-- The captures that are positions are numbered 0, 1, 2, … in the order of the text. -/
  numbered : positions p = numbers 0 (positions p).length

/-! ## The tokens of a pattern -/

/-- The token of a literal. -/
def tokensOfValue : Value → List Token
  | .nil => [.word "nil"]
  | .text s => [.string s]
  | .int n => [.integer (n < 0) (Integer.decimalDigits n.natAbs)]
  | _ => []

mutual

/-- The tokens of a pattern's text. -/
def tokensOf : Pattern → List Token
  | .any => [.word "_"]
  | .rest => [.ellipsis]
  | .value v => tokensOfValue v
  | .ref name _ => [.ref name]
  | .capture name inner => .capture (if isPosition name then none else some name) :: tokensOf inner
  | .node kind children => .openParen :: .word kind :: (tokensOfAll children ++ [.closeParen])
  | .oneOf alternatives => .openBrace :: (tokensOfAll alternatives ++ [.closeBrace])
  | .never => []

/-- The tokens of several patterns, one pattern after the other. -/
def tokensOfAll : List Pattern → List Token
  | [] => []
  | p :: ps => tokensOf p ++ tokensOfAll ps

end

/-! ## A name in front of a pattern's text -/

theorem isName_underscore : IsName "_" := .ofChars rfl (by decide) (by decide)

theorem isName_nil : IsName "nil" := .ofChars rfl (by decide) (by decide)

/-- A name is no position, as it does not begin with a digit. -/
theorem isPosition_of_isName {name : String} (h : IsName name) : isPosition name = false := by
  obtain ⟨c, cs, hcs, hstart, _⟩ := h
  have hdigit : c.isDigit = false := by
    rw [Bool.eq_false_iff]
    intro hd
    have hsome := Digit.value?_of_isDigit hd
    rw [Token.value?_of_startsName hstart] at hsome
    exact absurd hsome (by simp)
  rw [isPosition, hcs, List.all_cons, hdigit, Bool.false_and]

theorem name?_of_not_startsName {c : Char} (h : WordChar.startsName c = false) (cs : List Char) :
    Token.name? (c :: cs) = none := by
  rw [Token.name?, if_neg (by simp [h])]

/-- A word of a pattern's text has no equals sign after it. -/
theorem name?_word_ne {word : String} (hword : IsName word) {rest : List Char} (hrest : Ends rest)
    (name : String) (tail : List Char) :
    Token.name? (word.toList ++ rest) ≠ some (name, '=' :: tail) := by
  rw [Token.name?_append hword (hrest.head (p := WordChar.isWord) rfl rfl rfl)]
  intro heq
  rw [Option.some.injEq, Prod.mk.injEq] at heq
  rcases hrest _ _ heq.2 with h | h | h <;> exact absurd h (by decide)

/-- The text of an integer begins with a minus sign or a digit. -/
theorem exists_decimal_eq_cons (n : Int) :
    ∃ c cs, (Integer.decimal n).toList = c :: cs ∧ WordChar.startsName c = false := by
  cases n with
  | negSucc n => exact ⟨'-', _, String.toList_ofList, by decide⟩
  | ofNat n =>
      cases hcs : Nat.toDigits 10 n with
      | nil => exact absurd hcs Nat.toDigits_ne_nil
      | cons c cs =>
          refine ⟨c, cs, by rw [Integer.decimal, String.toList_ofList, hcs], ?_⟩
          rw [Bool.eq_false_iff]
          intro hstart
          have hdigit : c.isDigit = true :=
            Nat.isDigit_of_mem_toDigits (b := 10) (n := n) (by decide) (by decide) (by simp [hcs])
          have hsome := Digit.value?_of_isDigit hdigit
          rw [Token.value?_of_startsName hstart] at hsome
          exact absurd hsome (by simp)

/-- After a bare dollar sign, no name with an equals sign behind it can be read. -/
theorem Spelled.name?_ne {refs : List (String × Pattern)} {p : Pattern} (hp : Spelled refs p)
    {rest : List Char} (hrest : Ends rest) (name : String) (tail : List Char) :
    Token.name? ((render p).toList ++ rest) ≠ some (name, '=' :: tail) := by
  -- All texts but those of words begin with a character that begins no name.
  have hnone : ∀ {c : Char} {cs : List Char}, WordChar.startsName c = false →
      Token.name? (c :: cs) ≠ some (name, '=' :: tail) := by
    intro c cs hc
    rw [name?_of_not_startsName hc]
    simp
  cases hp with
  | any => exact name?_word_ne isName_underscore hrest name tail
  | rest => exact hnone (c := '.') (by decide)
  | nil => exact name?_word_ne isName_nil hrest name tail
  | text s =>
      rw [render, renderValue, renderText, String.toList_ofList]
      exact hnone (c := '"') (by decide)
  | @int n _ =>
      obtain ⟨c, cs, hcs, hc⟩ := exists_decimal_eq_cons n
      rw [render, renderValue, hcs]
      exact hnone hc
  | ref _ _ =>
      rw [render, String.toList_append]
      exact hnone (c := '#') (by decide)
  | @capture label inner _ _ =>
      rw [render]
      cases isPosition label with
      | true =>
          simp only [if_true, String.toList_append]
          exact hnone (c := '$') (by decide)
      | false =>
          simp only [Bool.false_eq_true, if_false, String.toList_append]
          exact hnone (c := '$') (by decide)
  | node _ _ =>
      rw [render]
      simp only [String.toList_append]
      exact hnone (c := '(') (by decide)
  | @oneOf alternatives _ =>
      cases alternatives with
      | nil => exact hnone (c := '\x7b') (by decide)
      | cons first others =>
          rw [render]
          simp only [String.toList_append]
          exact hnone (c := '\x7b') (by decide)

/-! ## Cutting a pattern's text -/

theorem ends_renderAll (ps : List Pattern) {rest : List Char} (hrest : Ends rest) :
    Ends ((renderAll ps).toList ++ rest) := by
  cases ps with
  | nil => exact hrest
  | cons p ps =>
      rw [renderAll]
      simp only [String.toList_append]
      exact Token.ends_cons (Or.inl rfl) _

theorem cuts_renderAll {ps : List Pattern}
    (hps : ∀ p ∈ ps, ∀ rest ts, Ends rest → Cuts rest ts →
      Cuts ((render p).toList ++ rest) (tokensOf p ++ ts))
    {rest : List Char} {ts : List Token} (hrest : Ends rest) (hts : Cuts rest ts) :
    Cuts ((renderAll ps).toList ++ rest) (tokensOfAll ps ++ ts) := by
  induction ps with
  | nil => exact hts
  | cons p ps ih =>
      have htail := ih fun q hq => hps q (by simp [hq])
      have hhead := hps p (by simp) _ _ (ends_renderAll ps hrest) htail
      rw [renderAll, tokensOfAll]
      simp only [String.toList_append, List.append_assoc]
      exact Cuts.blank (c := ' ') (by decide) hhead

theorem cuts_word {word : String} (hword : IsName word) {rest : List Char} {ts : List Token}
    (hrest : Ends rest) (hts : Cuts rest ts) : Cuts (word.toList ++ rest) (.word word :: ts) := by
  have hfront := Token.front?_word hword hrest
  obtain ⟨c, cs, hcs, hstart, _⟩ := hword
  have hplace := Token.toNat_of_startsName hstart
  rw [hcs, List.cons_append] at hfront ⊢
  exact Cuts.front (Blank.isBlank_of_toNat (by omega) (by omega)) hfront hts

theorem cuts_decimal (n : Int) {rest : List Char} {ts : List Token} (hrest : Ends rest)
    (hts : Cuts rest ts) :
    Cuts ((Integer.decimal n).toList ++ rest)
      (.integer (n < 0) (Integer.decimalDigits n.natAbs) :: ts) := by
  cases n with
  | negSucc n =>
      have hfront := Token.front?_negative (n + 1) hrest
      have hsign : decide (Int.negSucc n < 0) = true := decide_eq_true (Int.negSucc_lt_zero n)
      rw [hsign, Int.natAbs_negSucc, Integer.decimal, String.toList_ofList]
      exact Cuts.front (by decide) hfront hts
  | ofNat n =>
      have hfront := Token.front?_natural n hrest
      have hsign : decide (Int.ofNat n < 0) = false := decide_eq_false (by simp)
      rw [hsign, Int.natAbs_ofNat', Integer.decimal, String.toList_ofList]
      cases hcs : Nat.toDigits 10 n with
      | nil => exact absurd hcs Nat.toDigits_ne_nil
      | cons c cs =>
          have hdigit : c.isDigit = true :=
            Nat.isDigit_of_mem_toDigits (b := 10) (n := n) (by decide) (by decide) (by simp [hcs])
          have hplace := Digit.toNat_of_isDigit hdigit
          rw [hcs, List.cons_append] at hfront
          exact Cuts.front (Blank.isBlank_of_toNat (by omega) (by omega)) hfront hts

/-- The text of a pattern is cut into its tokens, if what follows the text ends the last of them. -/
theorem Spelled.cuts_render {refs : List (String × Pattern)} {p : Pattern} (hp : Spelled refs p) :
    ∀ (rest : List Char) (ts : List Token), Ends rest → Cuts rest ts →
      Cuts ((render p).toList ++ rest) (tokensOf p ++ ts) := by
  induction hp with
  | any =>
      intro rest ts hrest hts
      exact cuts_word isName_underscore hrest hts
  | rest =>
      intro rest ts hrest hts
      exact Cuts.front (c := '.') (by decide) rfl hts
  | nil =>
      intro rest ts hrest hts
      exact cuts_word isName_nil hrest hts
  | text s =>
      intro rest ts hrest hts
      rw [render, renderValue, renderText, String.toList_ofList, List.append_assoc,
        List.cons_append]
      exact Cuts.front (by decide) (Token.front?_string s rest) hts
  | @int n _ =>
      intro rest ts hrest hts
      exact cuts_decimal n hrest hts
  | ref hname _ =>
      intro rest ts hrest hts
      rw [render, String.toList_append, List.append_assoc]
      exact Cuts.front (c := '#') (by decide) (Token.front?_ref hname hrest) hts
  | @capture label inner hlabel hinner ih =>
      intro rest ts hrest hts
      have htail := ih rest ts hrest hts
      rw [render, tokensOf]
      cases hposition : isPosition label with
      | true =>
          -- The bare dollar sign takes no name from the text of the inner pattern.
          have hfront := Token.front?_capture_none (hinner.name?_ne hrest)
          simp only [if_true, String.toList_append, List.append_assoc]
          exact Cuts.front (c := '$') (by decide) hfront htail
      | false =>
          have hname : IsName label := by
            rcases hlabel with h | h
            · rw [hposition] at h
              exact absurd h Bool.false_ne_true
            · exact h
          have hfront := Token.front?_capture_some hname ((render inner).toList ++ rest)
          simp only [Bool.false_eq_true, if_false, String.toList_append, List.append_assoc]
          exact Cuts.front (c := '$') (by decide) hfront htail
  | @node kind children hkind _ ih =>
      intro rest ts hrest hts
      have hclose : Cuts (')' :: rest) (.closeParen :: ts) := Cuts.front (by decide) rfl hts
      have hends : Ends (')' :: rest) := Token.ends_cons (by simp) rest
      have hchildren := cuts_renderAll ih hends hclose
      have hword := cuts_word hkind (ends_renderAll children hends) hchildren
      rw [render, tokensOf]
      simp only [String.toList_append, List.append_assoc, List.cons_append]
      exact Cuts.front (c := '(') (by decide) rfl hword
  | @oneOf alternatives _ ih =>
      intro rest ts hrest hts
      have hclose : Cuts ('\x7d' :: rest) (.closeBrace :: ts) := Cuts.front (by decide) rfl hts
      have hends : Ends ('\x7d' :: rest) := Token.ends_cons (by simp) rest
      rw [tokensOf]
      cases alternatives with
      | nil => exact Cuts.front (c := '\x7b') (by decide) rfl hclose
      | cons first others =>
          have hothers := cuts_renderAll (fun q hq => ih q (List.mem_cons_of_mem first hq)) hends hclose
          have hfirst := ih first (by simp) _ _ (ends_renderAll others hends) hothers
          rw [render, tokensOfAll]
          simp only [String.toList_append, List.append_assoc, List.cons_append]
          exact Cuts.front (c := '\x7b') (by decide) rfl hfirst

/-- The tokens of a pattern's text. -/
theorem Spelled.tokens_render {refs : List (String × Pattern)} {p : Pattern} (hp : Spelled refs p) :
    Token.tokens (render p) = .ok (tokensOf p) := by
  have hcuts := hp.cuts_render [] [] Token.ends_nil Token.cuts_nil
  rw [List.append_nil, List.append_nil] at hcuts
  exact Token.tokens_of_cuts hcuts

end IdiomLint.Pattern
