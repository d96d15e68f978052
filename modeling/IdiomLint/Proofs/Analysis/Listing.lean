import IdiomLint.Proofs.Analysis.Loop
import IdiomLint.Proofs.Correction.Writes
import IdiomLint.Proofs.Ruby.Repeats

/-!
# The loop over the rules as a prefix of a listing

The loop over the rules stops early and passes over rules that fail. What it gives can be said without it:
list what all rules find, grade it, keep as many as the limit says and leave out the suppressed ones. Main
statement: the analysis of a text gives just that, and a rule that fails could as well not be there, wherever
it stands (`result_runRules_listing`).
-/

namespace IdiomLint

/-! ## Limits and severities -/

namespace Datum

variable {limit : Datum} {n : Int}

/-- What counts as a number is an integer or a truth value. -/
theorem exists_of_integer? (h : limit.integer? = some n) : limit = .int n ∨ ∃ b, limit = .bool b := by
  cases limit with
  | int m => exact Or.inl (congrArg Datum.int (Option.some.inj h))
  | bool b => exact Or.inr ⟨b, rfl⟩
  | null | float _ | text _ | list _ | pair _ _ | table _ | bytes _ | moment _ | set _ | enclosing _ =>
      exact absurd h (by simp [integer?])

theorem isReachedBy_of_integer? (h : limit.integer? = some n) (count : Nat) :
    limit.isReachedBy count = .ok (decide (n ≤ count)) := by
  rcases exists_of_integer? h with rfl | ⟨b, rfl⟩
  · rfl
  · rw [isReachedBy, h]
    simp

theorem cut_of_integer? {α : Type} (h : limit.integer? = some n) (xs : List α) :
    limit.cut xs = .ok (firstItems n xs) := by
  rw [cut, h]

@[simp] theorem firstItems_natCast {α : Type} (count : Nat) (xs : List α) :
    firstItems (count : Int) xs = xs.take count := by
  rw [firstItems, if_pos (Int.natCast_nonneg count), Int.toNat_natCast]

/-- Only a text is equal to a text. -/
theorem same_text {s : String} {d : Datum} (h : (Datum.text s).same d = true) : d = .text s := by
  cases d with
  | text t =>
      obtain rfl : s = t := by simpa [same] using h
      rfl
  | null | bool _ | int _ | float _ | list _ | pair _ _ | table _ | bytes _ | moment _ | set _ | enclosing _ =>
      exact absurd h (by simp [same])

theorem exists_of_lookup? {α : Type} {entries : List (Datum × α)} {key : String} {value : α}
    (h : lookup? entries key = some value) : ∃ entry ∈ entries, entry.2 = value := by
  obtain ⟨⟨k, v⟩, hentry, h⟩ := List.exists_of_findSome?_eq_some h
  refine ⟨_, hentry, ?_⟩
  cases k with
  | text s => simpa using (Option.ite_none_right_eq_some.mp h).2
  | null | bool _ | int _ | float _ | list _ | pair _ _ | table _ | bytes _ | moment _ | set _ | enclosing _ =>
      exact absurd h (by simp)

end Datum

/-- The finding with the severity that a table sets for its rule, if it sets any. -/
def Finding.graded (severities : List (Datum × Datum)) (f : Finding) : Finding :=
  { f with severity := (Datum.lookup? severities f.rule).getD f.severity }

namespace Analyzer

variable {a : Analyzer} {severities : List (Datum × Datum)} {path text : String} {context : RuleContext}
  {limit : Nat}

/-- The analyzer is set up with a table of severities and a limit that can be used. -/
structure Sets (a : Analyzer) (severities : List (Datum × Datum)) (limit : Nat) : Prop where
  table : a.config.severities = .table severities
  texts : ∀ entry ∈ severities, ∃ s, entry.2 = .text s
  perFile : a.config.perFile.integer? = some (limit : Int)

theorem Sets.withSeverity_eq (h : a.Sets severities limit) (f : Finding) :
    a.withSeverity f = .ok (f.graded severities) := by
  have hseverity : a.config.severity? f.rule = .ok (Datum.lookup? severities f.rule) := by
    rw [Config.severity?, h.table]
  refine bind_eq_ok.mpr ⟨_, hseverity, ?_⟩
  rw [Finding.graded]
  cases hlookup : Datum.lookup? severities f.rule with
  | none => rfl
  | some severity =>
      obtain ⟨entry, hentry, rfl⟩ := Datum.exists_of_lookup? hlookup
      obtain ⟨s, hs⟩ := h.texts entry hentry
      -- An equal severity is the same one, so setting it changes nothing.
      by_cases hsame : entry.2.same f.severity = true
      · rw [hs] at hsame
        show Except.ok (if _ then f else _) = _
        rw [if_pos (hs ▸ hsame), hs, ← Datum.same_text hsame]
        rfl
      · exact congrArg Except.ok (if_neg hsame)

theorem Sets.mapM_withSeverity (h : a.Sets severities limit) (new : List Finding) :
    new.mapM a.withSeverity = .ok (new.map (Finding.graded severities)) :=
  mapM_eq_ok fun f _ => h.withSeverity_eq f

/-! ## The loop -/

/-- As long as no more is kept than the limit says, the loop takes as much of the listing as is missing. -/
theorem Sets.collects (h : a.Sets severities limit) (rules : List Rule) : ∀ {found : List Finding},
    found.length ≤ limit → a.Collects context found rules
      ((found ++ (context.listing rules).map (Finding.graded severities)).take limit) := by
  induction rules with
  | nil =>
      intro found hfound
      rw [RuleContext.listing_nil, List.map_nil, List.append_nil, List.take_of_length_le hfound]
      exact .done
  | cons rule rest ih =>
      intro found hfound
      rw [RuleContext.listing_cons]
      cases hvisit : rule.visit context with
      | error e =>
          rw [Rule.found_of_error hvisit, List.nil_append]
          exact .failed hvisit (ih hfound)
      | ok new =>
          rw [Rule.found_of_ok hvisit, List.map_append, ← List.append_assoc]
          have hreached := Datum.isReachedBy_of_integer? h.perFile
            (found ++ new.map (Finding.graded severities)).length
          by_cases hfull : limit ≤ (found ++ new.map (Finding.graded severities)).length
          · rw [List.take_append_of_le_length hfull]
            refine .full hvisit (h.mapM_withSeverity new) ?_ ?_
            · rw [hreached, decide_eq_true (Int.ofNat_le.mpr hfull)]
            · rw [Datum.cut_of_integer? h.perFile, Datum.firstItems_natCast]
          · refine .more hvisit (h.mapM_withSeverity new) ?_ (ih (Nat.le_of_not_le hfull))
            rw [hreached, decide_eq_false (mt Int.ofNat_le.mp hfull)]

/-- The analysis of a text with a tree gives the first findings of the listing that are not suppressed. -/
theorem Sets.result_runRules {g : Grammar} {tree : Node} (h : a.Sets severities limit)
    (hgrammar : a.grammar = some g) (htree : (g.parse text).result = .ok tree) :
    (a.runRules path text).result = .ok ⟨path, text, Suppression.keep text
      (((RuleContext.listing ⟨path, text, some tree⟩ a.rules).map (Finding.graded severities)).take limit)⟩ := by
  obtain ⟨grammar, rules, config⟩ := a
  cases hgrammar
  exact result_runRules_of_parse htree (@Sets.collects _ _ _ _ h rules [] (Nat.zero_le limit)).result_findingsFrom

theorem result_runRules_of_parse_error {g : Grammar} {e : ParseError} (hgrammar : a.grammar = some g)
    (h : (g.parse text).result = .error e) : (a.runRules path text).result = .error (.parse e) := by
  unfold runRules
  rw [hgrammar]
  show (((g.parse text).mapError AnalysisError.parse) >>= _).result = _
  rw [Outcome.result_bind]
  show ((g.parse text).result.mapError AnalysisError.parse >>= _) = _
  rw [h]
  rfl

/-- The analysis of a text gives what is not suppressed of the first findings of all rules that do not fail,
graded as the severities say. A rule that fails could as well be left out, wherever it stands. -/
theorem result_runRules_listing {g : Grammar} (hgrammar : a.grammar = some g) (h : a.Sets severities limit)
    (path text : String) :
    ((a.runRules path text).result = ((g.parse text).result.mapError AnalysisError.parse).map fun tree =>
      ⟨path, text, Suppression.keep text (((RuleContext.listing ⟨path, text, some tree⟩ a.rules).map
        (Finding.graded severities)).take limit)⟩) ∧
    ∀ front rule back, a.rules = front ++ rule :: back →
      (∀ tree, (g.parse text).result = .ok tree → ∃ e, rule.visit ⟨path, text, some tree⟩ = .error e) →
      (runRules { a with rules := front ++ back } path text).result = (a.runRules path text).result := by
  cases htree : (g.parse text).result with
  | error e =>
      refine ⟨result_runRules_of_parse_error hgrammar htree, fun front rule back _ _ => ?_⟩
      rw [result_runRules_of_parse_error hgrammar htree]
      exact result_runRules_of_parse_error hgrammar htree
  | ok tree =>
      refine ⟨h.result_runRules hgrammar htree, fun front rule back hrules hfails => ?_⟩
      obtain ⟨e, hvisit⟩ := hfails tree rfl
      have hothers : Sets { a with rules := front ++ back } severities limit := ⟨h.table, h.texts, h.perFile⟩
      rw [hothers.result_runRules hgrammar htree, h.result_runRules hgrammar htree, hrules]
      simp only [RuleContext.listing_append, RuleContext.listing_cons, Rule.found_of_error hvisit, List.nil_append]

end Analyzer

/-! ## A rule that fails between two others -/

/-- Every text is a name. -/
def letterGrammar : Grammar := .ok fun _ => ⟨Ruby.leaf "identifier" 0 1 none, false⟩

theorem result_parse_letterGrammar (text : String) : (letterGrammar.parse text).result =
    .ok (Ruby.nameNode (Utf8.encode text) (Ruby.leaf "identifier" 0 1 none)) := by
  show (Ruby.convert (Utf8.encode text) (Ruby.leaf "identifier" 0 1 none)).mapError ParseError.oddTree = _
  rw [Ruby.convert_name (by decide)]
  rfl

/-- A finding of no extent. -/
def spot (rule : String) (severity : Datum) (start : Int) : Finding where
  rule
  message := "Look here."
  file := "/a.rb"
  start
  stop := start
  severity

/-- A rule that finds the same spots in every text. -/
def spotRule (id : String) (starts : List Int) : Rule where
  id
  languages := ["ruby"]
  visit _ := .ok (starts.map (spot id (.text "warn")))

/-- A rule that fails on every text. -/
def brokenRule : Rule where
  id := "broken"
  languages := ["ruby"]
  visit _ := .error .gaveUp

/-- Two lines. Nothing is reported on the first one. -/
def spotText : String := "a # factorylint: ignore[*]\nb\n"

/-- An analyzer with some rules that keeps four findings in a file. -/
def spotAnalyzer (rules : List Rule) : Analyzer :=
  ⟨some letterGrammar, rules, { perFile := .int 4, severities := .table [(.text "late", .text "error")] }⟩

theorem sets_spotAnalyzer (rules : List Rule) :
    (spotAnalyzer rules).Sets [(.text "late", .text "error")] 4 where
  table := rfl
  texts := List.forall_mem_singleton.mpr ⟨"error", rfl⟩
  perFile := rfl

theorem keep_spots : Suppression.keep spotText [spot "early" (.text "warn") 0, spot "early" (.text "warn") 27,
      spot "late" (.text "error") 27, spot "late" (.text "error") 0] =
    [spot "early" (.text "warn") 27, spot "late" (.text "error") 27] := by
  have hfirst : ∀ rule ∈ ["early", "late"], Suppression.isSuppressed spotText rule 0 = true := by decide +kernel
  have hsecond : ∀ rule ∈ ["early", "late"], Suppression.isSuppressed spotText rule 27 = false := by decide +kernel
  simp only [List.forall_mem_cons] at hfirst hsecond
  simp [Suppression.keep, spot, hfirst, hsecond]

namespace Analyzer

/-- The fifth finding does not fit under the limit, and of the first four two are suppressed. -/
theorem result_runRules_listing_spots :
    (spotAnalyzer [spotRule "early" [0, 27], brokenRule, spotRule "late" [27, 0, 27]]).grammar =
      some letterGrammar ∧
    (spotAnalyzer [spotRule "early" [0, 27], brokenRule, spotRule "late" [27, 0, 27]]).Sets
      [(.text "late", .text "error")] 4 ∧
    ((spotAnalyzer [spotRule "early" [0, 27], brokenRule, spotRule "late" [27, 0, 27]]).runRules "/a.rb"
      spotText).result = .ok ⟨"/a.rb", spotText, [spot "early" (.text "warn") 27, spot "late" (.text "error") 27]⟩ ∧
    (∃ tree, (letterGrammar.parse spotText).result = .ok tree ∧
      brokenRule.visit ⟨"/a.rb", spotText, some tree⟩ = .error .gaveUp) ∧
    ((spotAnalyzer [spotRule "early" [0, 27], spotRule "late" [27, 0, 27]]).runRules "/a.rb" spotText).result =
      .ok ⟨"/a.rb", spotText, [spot "early" (.text "warn") 27, spot "late" (.text "error") 27]⟩ := by
  have hsets := sets_spotAnalyzer [spotRule "early" [0, 27], brokenRule, spotRule "late" [27, 0, 27]]
  obtain ⟨hrun, hleave⟩ := result_runRules_listing rfl hsets "/a.rb" spotText
  rw [result_parse_letterGrammar] at hrun
  have hfound := hrun.trans
    (congrArg (fun findings => Except.ok (FileResult.mk "/a.rb" spotText findings)) keep_spots)
  refine ⟨rfl, hsets, hfound, ⟨_, result_parse_letterGrammar spotText, rfl⟩, ?_⟩
  exact (hleave [spotRule "early" [0, 27]] brokenRule [spotRule "late" [27, 0, 27]] rfl
    fun _ _ => ⟨.gaveUp, rfl⟩).trans hfound

end Analyzer

end IdiomLint
