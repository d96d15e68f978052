import IdiomLint.Proofs.Analysis.Listing

/-!
# Suppressed findings under the limit

The limit for a file is applied to all findings, the suppressed ones among them. So a suppressed finding can
take the place of one that is not, and what comes after the limit is never seen (`suppressed_takes_place`).
Main statement: as many findings are reported as there are to report and as fit under the limit, unless a
finding that could be reported comes after the limit and a suppressed one before it
(`length_findings_runRules_iff`).
-/

namespace IdiomLint

/-! ## Counting what is kept of a prefix -/

section Counting

variable {α : Type} (p : α → Bool) (n : Nat) (xs : List α)

theorem length_filter_take_add_drop :
    ((xs.take n).filter p).length + ((xs.drop n).filter p).length = (xs.filter p).length := by
  rw [← List.length_append, ← List.filter_append, List.take_append_drop]

theorem length_filter_take_le : ((xs.take n).filter p).length ≤ min n (xs.filter p).length := by
  have hprefix := Nat.le_trans (List.length_filter_le p (xs.take n)) (List.length_take_le n xs)
  have hsum := length_filter_take_add_drop p n xs
  omega

/-- A prefix has as many good members as it can have, unless there is a good one after it and one in it that
is not. -/
theorem length_filter_take_eq_min_iff : ((xs.take n).filter p).length = min n (xs.filter p).length ↔
    (∀ x ∈ xs.drop n, p x = false) ∨ ∀ x ∈ xs.take n, p x = true := by
  have hprefix := List.length_filter_le p (xs.take n)
  have htake := List.length_take_le n xs
  have hsum := length_filter_take_add_drop p n xs
  constructor
  · intro hmin
    rcases Nat.eq_zero_or_pos ((xs.drop n).filter p).length with hnone | hsome
    · refine Or.inl fun x hx => ?_
      simpa using List.filter_eq_nil_iff.mp (List.length_eq_zero_iff.mp hnone) x hx
    · -- There are more than fit in, so every place is taken by a good one.
      refine Or.inr (List.length_filter_eq_length_iff.mp ?_)
      omega
  · rintro (hafter | hbefore)
    · have hnone : (xs.drop n).filter p = [] := List.filter_eq_nil_iff.mpr fun x hx => by simp [hafter x hx]
      rw [hnone, List.length_nil, Nat.add_zero] at hsum
      omega
    · have hall := List.length_filter_eq_length_iff.mpr hbefore
      have hlength := List.length_take (i := n) (l := xs)
      have hdrop := List.length_filter_le p (xs.drop n)
      rw [List.length_drop] at hdrop
      omega

end Counting

/-- What is suppressed does not depend on severities. -/
theorem Suppression.keep_graded (text : String) (severities : List (Datum × Datum)) (findings : List Finding) :
    keep text (findings.map (Finding.graded severities)) =
      (keep text findings).map (Finding.graded severities) := by
  rw [keep, keep, List.filter_map]
  rfl

namespace Analyzer

variable {a : Analyzer} {severities : List (Datum × Datum)} {path text : String} {limit : Nat}

/-- The findings that are reported are at most as many as fit under the limit and as are not suppressed. They
are just as many exactly if none that is not suppressed comes after the limit, or none that is suppressed
before it. -/
theorem length_findings_runRules_iff {g : Grammar} {tree : Node} {all : List Finding} (hgrammar : a.grammar = some g)
    (h : a.Sets severities limit) (htree : (g.parse text).result = .ok tree)
    (hall : RuleContext.listing ⟨path, text, some tree⟩ a.rules = all) : ∃ findings,
      (a.runRules path text).result = .ok ⟨path, text, findings⟩ ∧
      findings.length ≤ min limit (Suppression.keep text all).length ∧
      (findings.length = min limit (Suppression.keep text all).length ↔
        (∀ f ∈ all.drop limit, Suppression.isSuppressed text f.rule f.start = true) ∨
        ∀ f ∈ all.take limit, Suppression.isSuppressed text f.rule f.start = false) := by
  refine ⟨_, h.result_runRules hgrammar htree, ?_⟩
  rw [hall, ← List.map_take, Suppression.keep_graded, List.length_map, Suppression.keep, Suppression.keep]
  refine ⟨length_filter_take_le _ limit all, (length_filter_take_eq_min_iff _ limit all).trans ?_⟩
  simp only [Bool.not_eq_false', Bool.not_eq_true']

/-- Two findings, of which the first one is suppressed, and room for both. -/
theorem length_findings_runRules_spots : ∃ tree findings,
    (spotAnalyzer [spotRule "early" [0, 27]]).grammar = some letterGrammar ∧
    (spotAnalyzer [spotRule "early" [0, 27]]).Sets [(.text "late", .text "error")] 4 ∧
    (letterGrammar.parse spotText).result = .ok tree ∧
    RuleContext.listing ⟨"/a.rb", spotText, some tree⟩ [spotRule "early" [0, 27]] =
      [spot "early" (.text "warn") 0, spot "early" (.text "warn") 27] ∧
    ((spotAnalyzer [spotRule "early" [0, 27]]).runRules "/a.rb" spotText).result =
      .ok ⟨"/a.rb", spotText, findings⟩ ∧ findings.length = 1 := by
  have hsets := sets_spotAnalyzer [spotRule "early" [0, 27]]
  have htree := result_parse_letterGrammar spotText
  obtain ⟨findings, hrun, _, hiff⟩ := @length_findings_runRules_iff _ _ "/a.rb" _ _ _ _ _ rfl hsets htree rfl
  have hcount := hiff.mpr (Or.inl (List.forall_mem_nil _))
  exact ⟨_, findings, rfl, hsets, htree, rfl, hrun, hcount.trans (by decide +kernel)⟩

end Analyzer

/-! ## A suppressed block before another one -/

/-- Two blocks. Nothing is reported on the line of the first one. -/
def crowdedText : String :=
  "3.times \x7b create(:post) \x7d # factorylint: ignore[*]\n2.times \x7b create(:post) \x7d\n"

/-- The tree of the text. -/
def crowdedTree : Ruby.ConcreteNode :=
  ⟨"program", true, 0, 77, none, [Ruby.postRepeat 0 25 none 10, Ruby.leaf "comment" 26 50 none,
    Ruby.postRepeat 51 76 none 61]⟩

/-- The analyzer of the built-in rule that keeps one finding in a file. -/
def crowdedAnalyzer : Analyzer :=
  ⟨some (.ok fun _ => ⟨crowdedTree, false⟩), [createListRule], { perFile := .int 1 }⟩

namespace Analyzer

/-- The block on the second line is not suppressed and there is room for one finding, but the suppressed block
before it takes the room. -/
theorem suppressed_takes_place : ∃ tree findings,
    Ruby.convert (Utf8.encode crowdedText) crowdedTree = .ok tree ∧
    crowdedAnalyzer.Sets [] 1 ∧
    (Suppression.keep crowdedText
      (RuleContext.listing ⟨"a.rb", crowdedText, some tree⟩ crowdedAnalyzer.rules)).length = 1 ∧
    (crowdedAnalyzer.runRules "a.rb" crowdedText).result = .ok ⟨"a.rb", crowdedText, findings⟩ ∧
    ¬ findings.length = min 1 1 := by
  have hfirst := Ruby.convert_postRepeat (Utf8.encode crowdedText) 0 25 none 10
  have hsecond := Ruby.convert_postRepeat (Utf8.encode crowdedText) 51 76 none 61
  have htree : Ruby.convert (Utf8.encode crowdedText) crowdedTree = .ok _ :=
    Ruby.convert_two (by decide) rfl hfirst hsecond
  obtain ⟨findings, hcount, hrun⟩ := @exists_result_runRules "a.rb" crowdedText (fun _ => ⟨crowdedTree, false⟩)
    [createListRule] { perFile := .int 1 } _ _ List.length 0 htree (by decide +kernel)
  refine ⟨_, findings, htree, ⟨rfl, List.forall_mem_nil _, rfl⟩, by decide +kernel, hrun, ?_⟩
  rw [hcount]
  decide

end Analyzer

end IdiomLint
