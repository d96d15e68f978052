import IdiomLint.Proofs.Fallible
import IdiomLint.Proofs.Suppression.OwnLine
import IdiomLint.Report.Basic

/-!
# The hint in a report

A report says which comment suppresses a finding. Put at the end of a line without a marker, that comment is the
only one on the line (`carries_hinted`): no marker can begin in the line and end in the comment, since the comment
begins with a hash and a marker has none but its first character. Main statement: `hint_suppresses`.
-/

namespace IdiomLint

/-- The report on a finding gives the comment that suppresses its rule. -/
theorem Report.hint_of_findingJson {directory : String} {texts : List (String × String)} {f : Finding} {j : Json}
    (h : findingJson directory texts f = .ok j) :
    j.get? "suppression_hint" = some (.str (suppressionHint f.rule)) := by
  obtain ⟨path, _, h⟩ := bind_eq_ok.mp h
  obtain ⟨details, _, h⟩ := bind_eq_ok.mp h
  obtain ⟨severity, _, h⟩ := bind_eq_ok.mp h
  cases h
  rfl

namespace Suppression

open Blank (isBlank)
open Position (IsLine Holds)

/-! ## The characters of a marker -/

/-- What words are spelled with is white space, or a character of one of them. -/
theorem Spells.char {words : List String} {cs : List Char} (h : Spells words cs) {c : Char} (hc : c ∈ cs) :
    isBlank c = true ∨ ∃ word ∈ words, CaseFold.fold c ∈ word.toList := by
  induction h with
  | nil => exact absurd hc List.not_mem_nil
  | @cons word words blanks front rest hblanks hfront _ ih =>
      rw [List.mem_append, List.mem_append] at hc
      rcases hc with (hc | hc) | hc
      · exact Or.inl (hblanks c hc)
      · refine Or.inr ⟨word, List.mem_cons_self, ?_⟩
        rw [← hfront]
        exact List.mem_map_of_mem hc
      · exact (ih hc).imp_right fun ⟨other, hother, hmem⟩ => ⟨other, List.mem_cons_of_mem word hother, hmem⟩

/-- The hash of a marker is the only one in it. -/
theorem hash_not_mem_of_spells {cs : List Char} (h : Spells markerWords cs) : '#' ∉ cs := by
  intro hc
  rcases h.char hc with hblank | ⟨word, hword, hmem⟩
  · exact absurd hblank (by decide)
  · have hnone : ∀ word ∈ markerWords, CaseFold.fold '#' ∉ word.toList := by decide
    exact hnone word hword hmem

/-- A marker ends with its bracket. -/
theorem IsMarker.exists_bracket {marker : List Char} (h : IsMarker marker) :
    ∃ front bracket, marker = front ++ [bracket] ∧ CaseFold.fold bracket = '[' := by
  obtain ⟨_, rfl, hwords⟩ := h
  cases hwords with
  | @cons _ _ blanks tool _ _ _ hrest =>
      cases hrest with
      | @cons _ _ blanks' ignore _ _ _ hrest =>
          cases hrest with
          | @cons _ _ blanks'' last _ _ hlast hrest =>
              cases hrest
              obtain ⟨bracket, rfl, hbracket⟩ := List.map_eq_singleton_iff.mp hlast
              exact ⟨'#' :: (blanks ++ tool ++ (blanks' ++ ignore ++ blanks'')), bracket, by simp, hbracket⟩

/-- A blank behind a line makes no marker. -/
theorem not_isMarker_before_blank {line skipped marker back : List Char} (hline : ¬ HoldsMarker line)
    (h : line ++ [' '] = skipped ++ (marker ++ back)) : ¬ IsMarker marker := by
  intro hmarker
  rcases List.eq_nil_or_concat' back with rfl | ⟨back, last, rfl⟩
  · -- The marker would end with the blank.
    obtain ⟨front, bracket, rfl, hbracket⟩ := hmarker.exists_bracket
    rw [List.append_nil, ← List.append_assoc] at h
    obtain ⟨_, hlast⟩ := List.append_inj' h rfl
    cases hlast
    exact absurd hbracket (by decide)
  · rw [← List.append_assoc, ← List.append_assoc] at h
    obtain ⟨hfront, _⟩ := List.append_inj' h rfl
    exact hline ⟨skipped, marker, back, by rw [hfront, List.append_assoc], hmarker⟩

/-- No comment begins in a line without a marker and the blank behind it, when a hash comes next. -/
theorem not_opens_before_hash {line rest skipped more : List Char} (hline : ¬ HoldsMarker line)
    (hmore : line ++ [' '] = skipped ++ more) (hne : more ≠ []) : ¬ Opens (more ++ '#' :: rest) := by
  rintro ⟨content, tail, marker, htext, hmarker, _, _⟩
  rw [List.append_assoc] at htext
  rcases List.append_eq_append_iff.mp htext with ⟨back, hback, hrest⟩ | ⟨back, hback, _⟩
  · cases back with
    | nil =>
        rw [List.append_nil] at hback
        rw [← hback, ← List.append_nil marker] at hmore
        exact not_isMarker_before_blank hline hmore hmarker
    | cons hash back =>
        -- The marker reaches beyond the blank, so it has a hash besides its first character.
        obtain ⟨words, hwords, hspells⟩ := hmarker
        obtain ⟨c, others, rfl⟩ := List.exists_cons_of_ne_nil hne
        rw [hback, List.cons_append] at hwords
        refine hash_not_mem_of_spells hspells ?_
        rw [← (List.cons.inj hwords).2, (List.cons.inj hrest).1]
        exact List.mem_append_right others List.mem_cons_self
  · rw [hback] at hmore
    exact not_isMarker_before_blank hline hmore hmarker

/-! ## A line with its hint -/

/-- A rule that a comment can name by itself. -/
structure Nameable (rule : String) : Prop where
  tight : Blank.Tight isBlank rule.toList
  comma : ',' ∉ rule.toList
  bracket : ']' ∉ rule.toList
  newline : '\n' ∉ rule.toList

/-- A line with the hint for a rule behind it. -/
def hinted (line : List Char) (hint : String) : List Char := line ++ ' ' :: hint.toList

theorem toList_suppressionHint (rule : String) : (Report.suppressionHint rule).toList =
    '#' :: " factorylint: ignore[".toList ++ rule.toList ++ [']'] := by
  have hopen : "# factorylint: ignore[".toList = '#' :: " factorylint: ignore[".toList := by simp
  have hclose : "]".toList = [']'] := by simp
  have hfront := String.toList_append (s := "# factorylint: ignore[") (t := rule)
  have hwhole := String.toList_append (s := "# factorylint: ignore[" ++ rule) (t := "]")
  rw [hfront, hopen, hclose] at hwhole
  exact hwhole

theorem isMarker_hint : IsMarker ('#' :: " factorylint: ignore[".toList) := by
  have hwords : " factorylint: ignore[".toList =
      [' '] ++ "factorylint:".toList ++ ([' '] ++ "ignore".toList ++ ([] ++ ['['] ++ [])) := by simp
  have hspace : ∀ c ∈ [' '], isBlank c = true := List.forall_mem_singleton.mpr (by decide)
  refine ⟨_, rfl, ?_⟩
  rw [hwords]
  exact .cons hspace (by decide) (.cons hspace (by decide) (.cons (List.forall_mem_nil _) (by decide) .nil))

theorem Nameable.isComment {rule : String} (h : Nameable rule) :
    IsComment (Report.suppressionHint rule).toList rule.toList [] := by
  refine ⟨'#' :: " factorylint: ignore[".toList, toList_suppressionHint rule, isMarker_hint, ?_, h.bracket⟩
  obtain ⟨first, _, hfirst, _⟩ := h.tight
  intro hnil
  rw [hnil] at hfirst
  cases hfirst

/-- The hint is the only comment on its line. -/
theorem carries_hinted {line : List Char} {rule : String} (hline : ¬ HoldsMarker line) (h : Nameable rule) :
    Carries (hinted line (Report.suppressionHint rule)) [rule.toList] := by
  have hnone : Carries [] [] := by
    refine .none ?_
    intro before rest hnil hopens
    exact hopens.ne_nil (List.append_eq_nil_iff.mp hnil.symm).2
  have hcarries : Carries ((line ++ [' ']) ++ (Report.suppressionHint rule).toList) [rule.toList] := by
    refine .next ?_ h.isComment hnone
    intro skipped more hbefore hne
    rw [toList_suppressionHint]
    exact not_opens_before_hash hline hbefore hne
  rw [hinted]
  rwa [List.append_assoc] at hcarries

theorem Nameable.patternsOf_hinted {line : List Char} {rule : String} (hline : ¬ HoldsMarker line)
    (h : Nameable rule) : patternsOf (hinted line (Report.suppressionHint rule)) = [rule] := by
  have hpieces : CommaList.pieces rule.toList = [rule.toList] := by
    rw [CommaList.pieces_eq_splitOn, List.splitOn_eq_singleton h.comma]
  have htrim : Blank.trimBoth isBlank rule.toList = rule.toList := by
    have htrim : Blank.trimBoth isBlank ([] ++ rule.toList ++ []) = rule.toList :=
      Blank.trimBoth_append (List.forall_mem_nil _) (List.forall_mem_nil _) h.tight
    rwa [List.nil_append, List.append_nil] at htrim
  have hne : rule.toList.isEmpty = false := by
    obtain ⟨first, _, hfirst, _⟩ := h.tight
    obtain ⟨rest, hrest⟩ := List.head?_eq_some_iff.mp hfirst
    rw [hrest]
    rfl
  rw [patternsOf, ← carries_iff.mp (carries_hinted hline h), List.flatMap_singleton, CommaList.items, hpieces,
    List.map_singleton, htrim]
  simp [hne]

/-- Put behind a line without a marker, the hint of a report suppresses the rule of its finding everywhere on the
line, and no other rules than those that match it as a glob. The patterns of all other lines stay as they are. -/
theorem hint_suppresses {directory : String} {texts : List (String × String)} {f : Finding} {j : Json}
    {hint text : String} {before line after : List Char} {number : Nat}
    (hjson : Report.findingJson directory texts f = .ok j)
    (hhint : j.get? "suppression_hint" = some (.str hint)) (hrule : Nameable f.rule)
    (hline : IsLine text.toList before line after number) (hmarker : ¬ HoldsMarker line) :
    IsLine (String.ofList (before ++ hinted line hint ++ after)).toList before (hinted line hint) after number ∧
    (∀ offset, Holds before (hinted line hint) after offset →
      isSuppressed (String.ofList (before ++ hinted line hint ++ after)) f.rule offset = true) ∧
    (∀ rule offset, Holds before (hinted line hint) after offset → rule ≠ f.rule →
      Glob.matchesText f.rule rule = false →
      isSuppressed (String.ofList (before ++ hinted line hint ++ after)) rule offset = false) ∧
    ∀ i, i + 1 ≠ number →
      (table (String.ofList (before ++ hinted line hint ++ after)))[i]? = (table text)[i]? := by
  have hsame : hint = Report.suppressionHint f.rule := by
    rw [Report.hint_of_findingJson hjson] at hhint
    cases hhint
    rfl
  subst hsame
  have hwhole : '\n' ∉ hinted line (Report.suppressionHint f.rule) := by
    rw [hinted, toList_suppressionHint]
    simp only [List.mem_append, List.mem_cons, not_or]
    exact ⟨hline.whole, by decide, ⟨⟨by decide, by simp⟩, hrule.newline⟩, by decide⟩
  have hnew : IsLine (String.ofList (before ++ hinted line (Report.suppressionHint f.rule) ++ after)).toList before
      (hinted line (Report.suppressionHint f.rule)) after number :=
    ⟨String.toList_ofList, hline.first, hwhole, hline.last, hline.number⟩
  have hnamed : ∀ rule, NamedOn (hinted line (Report.suppressionHint f.rule)) rule ↔
      f.rule = rule ∨ Glob.matchesText f.rule rule = true := by
    intro rule
    rw [← any_patternsOf, hrule.patternsOf_hinted hmarker, List.any_cons, List.any_nil, Bool.or_false,
      names_eq_true]
  refine ⟨hnew, ?_, ?_, ?_⟩
  · intro offset hholds
    exact (isSuppressed_of_holds hnew hholds f.rule).mpr ((hnamed f.rule).mpr (Or.inl rfl))
  · intro rule offset hholds hne hglob
    rw [← Bool.not_eq_true, isSuppressed_of_holds hnew hholds rule, hnamed rule, not_or, hglob]
    exact ⟨Ne.symm hne, Bool.false_ne_true⟩
  · intro i hi
    have hplace : ((before.splitOn '\n').dropLast.map patternsOf).length + 1 = number := by
      rw [List.length_map, length_dropLast_splitOn, hline.number]
    rw [table_of_isLine hnew, table_of_isLine hline, List.getElem?_append, List.getElem?_append]
    split
    · rfl
    · next hge =>
        -- Beyond the place of the line itself both lists go on with the lines after it.
        obtain ⟨k, hk⟩ : ∃ k, i - ((before.splitOn '\n').dropLast.map patternsOf).length = k + 1 :=
          ⟨i - number, by omega⟩
        rw [hk, List.getElem?_cons_succ, List.getElem?_cons_succ]

/-- A finding of a rule whose name is a glob with an open bracket. -/
def bracketFinding : Finding where
  rule := "r.*["
  message := "m"
  file := "a.rb"
  start := 0
  stop := 1
  severity := .text "warn"

/-- A line with the beginnings of two markers, the second of which is nothing but a hash. -/
def nearMissLine : List Char := "x # factorylint: ignore #".toList

/-- The hint works behind two near misses, and for a name with a bracket. -/
theorem hint_suppresses_near_miss :
    Nameable bracketFinding.rule ∧ ¬ HoldsMarker nearMissLine ∧
      IsLine (String.ofList ([] ++ nearMissLine ++ ['\n'])).toList [] nearMissLine ['\n'] 1 ∧
      ∃ j hint, Report.findingJson "/" [] bracketFinding = .ok j ∧
        j.get? "suppression_hint" = some (.str hint) ∧
        isSuppressed (String.ofList ([] ++ hinted nearMissLine hint ++ ['\n'])) "r.*[" 0 = true ∧
        isSuppressed (String.ofList ([] ++ hinted nearMissLine hint ++ ['\n'])) "r" 0 = false := by
  have hrule : Nameable bracketFinding.rule :=
    ⟨⟨'r', '[', by decide, by decide, by decide, by decide⟩, by decide, by decide, by decide⟩
  have hmarker : ¬ HoldsMarker nearMissLine := by decide +kernel
  have hline : IsLine (String.ofList ([] ++ nearMissLine ++ ['\n'])).toList [] nearMissLine ['\n'] 1 :=
    ⟨String.toList_ofList, Or.inl rfl, by decide, Or.inr ⟨[], rfl⟩, rfl⟩
  have hholds : Holds [] (hinted nearMissLine (Report.suppressionHint bracketFinding.rule)) ['\n'] 0 :=
    ⟨Or.inl rfl, Or.inr (by omega)⟩
  obtain ⟨j, hjson⟩ : ∃ j, Report.findingJson "/" [] bracketFinding = .ok j := ⟨_, rfl⟩
  have hhint := Report.hint_of_findingJson hjson
  obtain ⟨_, hown, hothers, _⟩ := hint_suppresses hjson hhint hrule hline hmarker
  exact ⟨hrule, hmarker, hline, j, _, hjson, hhint, hown 0 hholds,
    hothers "r" 0 hholds (by decide) (by decide +kernel)⟩

end Suppression

end IdiomLint
