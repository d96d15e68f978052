import Mathlib.Data.List.Infix
import Mathlib.Data.List.TakeDrop
import IdiomLint.Proofs.Text.Pieces
import IdiomLint.Suppression

/-!
# Ignore comments

An ignore comment is a marker, some text without a closing bracket, and a closing bracket. A marker is a hash, the
name of the tool, a word and an opening bracket, in any case and with any white space in between (`IsMarker`).
The comments of a line are found from left to right, each one the leftmost there is after the one before it
(`Carries`). Main statement: that is what the search finds, and there is no other way to find them
(`carries_iff`).
-/

namespace IdiomLint

/-- White space has no case. -/
theorem CaseFold.fold_of_isBlank {c : Char} (h : Blank.isBlank c = true) : CaseFold.fold c = c := by
  have hne : ∀ d, Blank.isBlank d = false → c ≠ d := by
    rintro d hd rfl
    exact Bool.noConfusion (hd.symm.trans h)
  have hspecial : ¬ (c = '\u0130' ∨ c = '\u0131') := by
    rintro (hc | hc)
    · exact hne _ (by decide) hc
    · exact hne _ (by decide) hc
  rw [CaseFold.fold, if_neg hspecial, if_neg (hne _ (by decide)), if_neg (hne _ (by decide))]
  refine dif_neg ?_
  rintro ⟨hfirst, hlast⟩
  have hfirst : 65 ≤ c.toNat := UInt32.le_iff_toNat_le.mp hfirst
  have hlast : c.toNat ≤ 90 := UInt32.le_iff_toNat_le.mp hlast
  rw [Blank.isBlank_of_toNat (by omega) (by omega)] at h
  exact Bool.noConfusion h

/-- Only the hash counts as a hash. -/
theorem CaseFold.eq_of_fold_eq_hash {c : Char} (h : CaseFold.fold c = '#') : c = '#' := by
  rw [CaseFold.fold] at h
  split at h
  · exact absurd h (by decide)
  split at h
  · exact absurd h (by decide)
  split at h
  · exact absurd h (by decide)
  by_cases hupper : c.val ≥ 'A'.val ∧ c.val ≤ 'Z'.val
  · -- The small letters have their places behind the hash.
    have hlower : c.toLower = _ := dif_pos hupper
    rw [hlower] at h
    have hplace : (c.val + ('a'.val - 'A'.val)).toNat = 35 := congrArg Char.toNat h
    have hfirst : 65 ≤ c.toNat := UInt32.le_iff_toNat_le.mp hupper.1
    have hlast : c.toNat ≤ 90 := UInt32.le_iff_toNat_le.mp hupper.2
    have hval : c.val.toNat = c.toNat := rfl
    have hshift : ('a'.val - 'A'.val : UInt32).toNat = 32 := rfl
    rw [UInt32.toNat_add, hshift, hval] at hplace
    omega
  · have hsame : c.toLower = c := dif_neg hupper
    rwa [hsame] at h

namespace Suppression

open Blank (isBlank)

/-! ## Markers -/

/-- The words one after the other, in any case and with any white space in front of each. -/
inductive Spells : List String → List Char → Prop
  | nil : Spells [] []
  | cons {word : String} {words : List String} {blanks front rest : List Char} :
      (∀ c ∈ blanks, isBlank c = true) → front.map CaseFold.fold = word.toList → Spells words rest →
      Spells (word :: words) (blanks ++ front ++ rest)

/-- What follows the hash of a marker. -/
def markerWords : List String := ["factorylint:", "ignore", "["]

/-- A marker, from its hash to its opening bracket. -/
def IsMarker (cs : List Char) : Prop := ∃ rest, cs = '#' :: rest ∧ Spells markerWords rest

/-- A word does not begin with white space. -/
def IsWord (word : String) : Prop := ∃ c rest, word.toList = c :: rest ∧ isBlank c = false

theorem isWord_of_mem_markerWords : ∀ word ∈ markerWords, IsWord word := by
  intro word hword
  simp only [markerWords, List.mem_cons, List.not_mem_nil, or_false] at hword
  rcases hword with rfl | rfl | rfl
  · exact ⟨'f', "actorylint:".toList, by decide, by decide⟩
  · exact ⟨'i', "gnore".toList, by decide, by decide⟩
  · exact ⟨'[', [], by decide, by decide⟩

theorem wordAfterBlanks?_eq_some {word : String} (hword : IsWord word) {cs tail : List Char} :
    wordAfterBlanks? word cs = some tail ↔ ∃ blanks front, cs = blanks ++ front ++ tail ∧
      (∀ c ∈ blanks, isBlank c = true) ∧ front.map CaseFold.fold = word.toList := by
  rw [wordAfterBlanks?, CaseFold.after?_eq_some]
  constructor
  · rintro ⟨front, hrest, hfront⟩
    refine ⟨cs.takeWhile isBlank, front, ?_, List.all_eq_true.mp List.all_takeWhile, hfront⟩
    rw [List.append_assoc, ← hrest, List.takeWhile_append_dropWhile]
  · rintro ⟨blanks, front, rfl, hblanks, hfront⟩
    refine ⟨front, ?_, hfront⟩
    obtain ⟨c, rest, hword, hc⟩ := hword
    cases front with
    | nil => exact absurd (hfront.trans hword) (by simp)
    | cons d front =>
        have hd : isBlank d = false := by
          rw [← Bool.not_eq_true]
          intro hd
          have hsame := (List.cons.inj (hfront.trans hword)).1
          rw [CaseFold.fold_of_isBlank hd] at hsame
          rw [hsame, hc] at hd
          exact Bool.noConfusion hd
        exact Blank.dropWhile_append_of_head hblanks rfl hd tail

/-- What follows some words, white space before each of them and case aside. -/
def afterWords? : List String → List Char → Option (List Char)
  | [], cs => some cs
  | word :: words, cs => (wordAfterBlanks? word cs).bind (afterWords? words)

theorem afterWords?_eq_some {words : List String} (hwords : ∀ word ∈ words, IsWord word)
    {cs tail : List Char} : afterWords? words cs = some tail ↔ ∃ front, cs = front ++ tail ∧ Spells words front := by
  induction words generalizing cs with
  | nil =>
      rw [afterWords?, Option.some.injEq]
      constructor
      · rintro rfl
        exact ⟨[], rfl, .nil⟩
      · rintro ⟨front, rfl, hfront⟩
        cases hfront
        rfl
  | cons word words ih =>
      obtain ⟨hword, hwords⟩ := List.forall_mem_cons.mp hwords
      rw [afterWords?, Option.bind_eq_some_iff]
      constructor
      · rintro ⟨rest, hfirst, hrest⟩
        obtain ⟨blanks, front, rfl, hblanks, hfront⟩ := (wordAfterBlanks?_eq_some hword).mp hfirst
        obtain ⟨others, rfl, hothers⟩ := (ih hwords).mp hrest
        exact ⟨blanks ++ front ++ others, by simp, .cons hblanks hfront hothers⟩
      · rintro ⟨front, rfl, hfront⟩
        cases hfront with
        | @cons _ _ blanks front others hblanks hfront hothers =>
            refine ⟨others ++ tail, (wordAfterBlanks?_eq_some hword).mpr ?_, (ih hwords).mpr ⟨others, rfl, hothers⟩⟩
            exact ⟨blanks, front, by simp, hblanks, hfront⟩

/-- What follows a marker at the front. -/
def afterMarker? (cs : List Char) : Option (List Char) :=
  (CaseFold.after? ['#'] cs).bind (afterWords? markerWords)

theorem afterMarker?_eq_some {cs tail : List Char} :
    afterMarker? cs = some tail ↔ ∃ marker, cs = marker ++ tail ∧ IsMarker marker := by
  have hhash : ∀ front : List Char, front.map CaseFold.fold = ['#'] ↔ front = ['#'] := by
    intro front
    constructor
    · intro h
      obtain ⟨c, rfl, hc⟩ := List.map_eq_singleton_iff.mp h
      rw [CaseFold.eq_of_fold_eq_hash hc]
    · rintro rfl
      rfl
  simp only [afterMarker?, Option.bind_eq_some_iff, CaseFold.after?_eq_some, hhash,
    afterWords?_eq_some isWord_of_mem_markerWords]
  constructor
  · rintro ⟨_, ⟨_, rfl, rfl⟩, words, rfl, hwords⟩
    exact ⟨'#' :: words, rfl, words, rfl, hwords⟩
  · rintro ⟨_, rfl, words, rfl, hwords⟩
    exact ⟨words ++ tail, ⟨['#'], rfl, rfl⟩, words, rfl, hwords⟩

/-- A marker stands somewhere in a line. -/
def HoldsMarker (line : List Char) : Prop := ∃ front marker back, line = front ++ marker ++ back ∧ IsMarker marker

theorem holdsMarker_iff {line : List Char} :
    HoldsMarker line ↔ ∃ rest ∈ line.tails, (afterMarker? rest).isSome = true := by
  simp only [List.mem_tails, Option.isSome_iff_exists, afterMarker?_eq_some]
  constructor
  · rintro ⟨front, marker, back, rfl, hmarker⟩
    exact ⟨marker ++ back, ⟨front, by simp⟩, back, marker, rfl, hmarker⟩
  · rintro ⟨_, ⟨front, rfl⟩, back, marker, rfl, hmarker⟩
    exact ⟨front, marker, back, by simp, hmarker⟩

instance (line : List Char) : Decidable (HoldsMarker line) := decidable_of_iff _ holdsMarker_iff.symm

/-! ## Comments -/

/-- A comment at the front of some characters: its marker, the text between its brackets, and what follows it. -/
def IsComment (cs content tail : List Char) : Prop :=
  ∃ marker, cs = marker ++ content ++ ']' :: tail ∧ IsMarker marker ∧ content ≠ [] ∧ ']' ∉ content

theorem bracketed?_eq_some {cs content tail : List Char} :
    bracketed? cs = some (content, tail) ↔ cs = content ++ ']' :: tail ∧ content ≠ [] ∧ ']' ∉ content := by
  rw [bracketed?, List.span_eq_takeWhile_dropWhile]
  constructor
  · intro h
    split at h
    · cases h
    · cases h
    · next front bracket _ hne heq =>
        cases h
        obtain ⟨hfront, hback⟩ := Prod.mk.inj heq
        have hwhole : cs.takeWhile (· != ']') ++ cs.dropWhile (· != ']') = cs :=
          List.takeWhile_append_dropWhile
        have hbracket := List.head?_dropWhile_not (· != ']') cs
        rw [hback] at hbracket hwhole
        have hbracket : bracket = ']' := by simpa using hbracket
        rw [hfront, hbracket] at hwhole
        refine ⟨hwhole.symm, hne, ?_⟩
        intro hmem
        rw [← hfront] at hmem
        simpa using List.all_eq_true.mp List.all_takeWhile _ hmem
  · rintro ⟨rfl, hne, hcontent⟩
    have hall : ∀ c ∈ content, (c != ']') = true := by
      intro c hc
      rw [bne_iff_ne]
      rintro rfl
      exact hcontent hc
    rw [List.takeWhile_append_of_pos hall, List.dropWhile_append_of_pos hall]
    obtain ⟨c, rest, rfl⟩ := List.exists_cons_of_ne_nil hne
    simp

theorem comment?_eq_some {cs content tail : List Char} :
    comment? cs = some (content, tail) ↔ IsComment cs content tail := by
  have hcomment : comment? cs = (afterMarker? cs).bind bracketed? := by
    simp [comment?, afterMarker?, afterWords?, markerWords, Option.bind_assoc]
  rw [hcomment]
  simp only [Option.bind_eq_some_iff, afterMarker?_eq_some, bracketed?_eq_some]
  constructor
  · rintro ⟨_, ⟨marker, rfl, hmarker⟩, rfl, hne, hcontent⟩
    exact ⟨marker, by simp, hmarker, hne, hcontent⟩
  · rintro ⟨marker, rfl, hmarker, hne, hcontent⟩
    exact ⟨content ++ ']' :: tail, ⟨marker, by simp, hmarker⟩, rfl, hne, hcontent⟩

/-- There is one way at most to read a comment. -/
theorem IsComment.unique {cs content tail content' tail' : List Char} (h : IsComment cs content tail)
    (h' : IsComment cs content' tail') : content = content' ∧ tail = tail' := by
  have hsame := (comment?_eq_some.mpr h).symm.trans (comment?_eq_some.mpr h')
  exact Prod.mk.inj (Option.some.inj hsame)

/-! ## The comments of a line -/

/-- A comment begins at the front of some characters. -/
def Opens (cs : List Char) : Prop := ∃ content tail, IsComment cs content tail

/-- The texts between the brackets of the comments of a line, from left to right. After each comment the search
goes on behind it. -/
inductive Carries : List Char → List (List Char) → Prop
  | none {line : List Char} : (∀ before rest, line = before ++ rest → ¬ Opens rest) → Carries line []
  | next {before rest content tail : List Char} {contents : List (List Char)} :
      (∀ skipped more, before = skipped ++ more → more ≠ [] → ¬ Opens (more ++ rest)) →
      IsComment rest content tail → Carries tail contents → Carries (before ++ rest) (content :: contents)

theorem Opens.ne_nil {cs : List Char} (h : Opens cs) : cs ≠ [] := by
  obtain ⟨content, tail, marker, rfl, _⟩ := h
  simp

/-- A character where no comment begins is passed over. -/
theorem Carries.skip {c : Char} {line : List Char} {contents : List (List Char)} (hc : ¬ Opens (c :: line))
    (h : Carries line contents) : Carries (c :: line) contents := by
  cases h with
  | none hnone =>
      refine .none ?_
      intro before rest hline
      cases before with
      | nil =>
          rw [List.nil_append] at hline
          rwa [← hline]
      | cons d before => exact hnone before rest (List.cons.inj hline).2
  | @next before rest _ _ _ hfirst hcomment hrest =>
      refine @Carries.next (c :: before) rest _ _ _ ?_ hcomment hrest
      intro skipped more hbefore hmore
      cases skipped with
      | nil =>
          rw [List.nil_append] at hbefore
          rwa [← hbefore]
      | cons d skipped => exact hfirst skipped more (List.cons.inj hbefore).2 hmore

theorem carries_commentsWithin {fuel : Nat} {line : List Char} (h : line.length ≤ fuel) :
    Carries line (commentsWithin fuel line) := by
  fun_induction commentsWithin fuel line with
  | case1 fuel =>
      refine .none ?_
      intro before rest hline hopens
      exact hopens.ne_nil (List.append_eq_nil_iff.mp hline.symm).2
  | case2 c rest => exact absurd h (by simp)
  | case3 fuel c rest content tail hcomment ih =>
      have hcomment := comment?_eq_some.mp hcomment
      refine @Carries.next [] (c :: rest) _ _ _ ?_ hcomment (ih ?_)
      · intro skipped more hbefore hmore
        exact absurd (List.append_eq_nil_iff.mp hbefore.symm).2 hmore
      · obtain ⟨marker, hline, _⟩ := hcomment
        have hlength := congrArg List.length hline
        simp only [List.length_cons, List.length_append] at h hlength
        omega
  | case4 fuel c rest hcomment ih =>
      refine .skip ?_ (ih (Nat.le_of_succ_le_succ h))
      rintro ⟨content, tail, hopens⟩
      rw [comment?_eq_some.mpr hopens] at hcomment
      cases hcomment

theorem Carries.unique {line : List Char} {contents others : List (List Char)} (h : Carries line contents)
    (h' : Carries line others) : contents = others := by
  induction h generalizing others with
  | none hnone =>
      cases h' with
      | none => rfl
      | next _ hcomment _ => exact absurd ⟨_, _, hcomment⟩ (hnone _ _ rfl)
  | @next before rest content tail contents hfirst hcomment hrest ih =>
      generalize hline : before ++ rest = line at h'
      cases h' with
      | none hnone => exact absurd ⟨_, _, hcomment⟩ (hnone _ _ hline.symm)
      | @next before' rest' content' tail' contents' hfirst' hcomment' hrest' =>
          -- Neither of the two comments begins before the other one.
          have hbefore : before = before' := by
            rcases List.append_eq_append_iff.mp hline with ⟨more, hbefore', hrest⟩ | ⟨more, hbefore, hrest'⟩
            · by_cases hmore : more = []
              · rw [hbefore', hmore, List.append_nil]
              · have hopens : Opens rest := ⟨_, _, hcomment⟩
                rw [hrest] at hopens
                exact absurd hopens (hfirst' before more hbefore' hmore)
            · by_cases hmore : more = []
              · rw [hbefore, hmore, List.append_nil]
              · have hopens : Opens rest' := ⟨_, _, hcomment'⟩
                rw [hrest'] at hopens
                exact absurd hopens (hfirst before' more hbefore hmore)
          rw [hbefore] at hline
          cases List.append_cancel_left hline
          obtain ⟨rfl, rfl⟩ := hcomment.unique hcomment'
          rw [ih hrest']

/-- The comments of a line are those that the search finds. -/
theorem carries_iff {line : List Char} {contents : List (List Char)} :
    Carries line contents ↔ contents = comments line := by
  have hfound : Carries line (comments line) := carries_commentsWithin (Nat.le_refl _)
  constructor
  · intro h
    exact h.unique hfound
  · rintro rfl
    exact hfound

/-- A comment of a line names a rule: one of its items is the rule or a glob that the rule matches. -/
def NamedOn (line : List Char) (rule : String) : Prop :=
  ∃ contents content item, Carries line contents ∧ content ∈ contents ∧ CommaList.IsItem content item ∧
    (item = rule ∨ Glob.matchesText item rule = true)

theorem names_eq_true {pattern rule : String} :
    names pattern rule = true ↔ pattern = rule ∨ Glob.matchesText pattern rule = true := by
  rw [names, Bool.or_eq_true, beq_iff_eq, eq_comm]

theorem any_patternsOf {line : List Char} {rule : String} :
    (patternsOf line).any (names · rule) = true ↔ NamedOn line rule := by
  rw [List.any_eq_true, patternsOf]
  simp only [List.mem_flatMap, CommaList.mem_items, names_eq_true]
  constructor
  · rintro ⟨item, ⟨content, hcontent, hitem⟩, hnames⟩
    exact ⟨comments line, content, item, carries_iff.mpr rfl, hcontent, hitem, hnames⟩
  · rintro ⟨contents, content, item, hcarries, hcontent, hitem, hnames⟩
    rw [carries_iff.mp hcarries] at hcontent
    exact ⟨item, ⟨content, hcontent, hitem⟩, hnames⟩

end Suppression

end IdiomLint
