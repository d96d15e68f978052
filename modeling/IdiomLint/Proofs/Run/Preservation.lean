import IdiomLint.Proofs.File.Tree
import IdiomLint.Proofs.Ruby.Repeats
import IdiomLint.Proofs.Run.Stages
import IdiomLint.Proofs.Text.Lines

/-!
# What a correcting run preserves

A correcting run keeps what it does not edit, up to the line breaks: texts are read with every line break
turned into a line feed, and are written as they are then. Main statement: a line that no edit touches is
in the corrected file with a line feed at its end, so its bytes are kept exactly when there is no carriage
return in it (`run_keeps_lines`).
-/

namespace IdiomLint

open Ruby (blockProgram blockText blockTree replacedProgram replacedText replacedTree)

/-- Every line that no edit touches stands where the edits moved it, with a line feed for its line break. It
has its old bytes exactly when there is no carriage return in it. -/
def KeepLines (original : String) (edits : List (List Edit)) (last : String) : Prop :=
  ∀ before line after, Lines.universal original.toList = before ++ line :: after →
    Edit.Untouched edits (Utf8.width (before.flatMap Lines.joinUniversal))
      (Utf8.width (Lines.joinUniversal line)) →
    ∃ front kept back, Utf8.encode last = front ++ (kept ++ back) ∧
      (front.length : Int) = Edit.movedThrough edits (Utf8.width (before.flatMap Lines.joinUniversal)) ∧
      kept = Utf8.encodeChars (Lines.joinUniversal line) ∧
      (kept = Utf8.encodeChars line ↔ '\r' ∉ line)

namespace Analyzer

/-- The edits of all passes that correct a text, and the corrected text. -/
def CorrectsText (a : Analyzer) (path text : String) (edits : List (List Edit)) (last : String) : Prop :=
  ∃ result remaining, (a.runRules path text).result = .ok result ∧
    a.Corrects path correctionPasses text result.findings edits last remaining

theorem correctsText_of_correctText {a : Analyzer} {path text last : String} {remaining : List Finding}
    (h : (a.correctText path text).result = .ok (last, remaining)) :
    ∃ edits, a.CorrectsText path text edits last := by
  obtain ⟨result, hresult, h⟩ := Outcome.result_bind_eq_ok.mp h
  obtain ⟨edits, hedits⟩ := corrects_of_correctFrom _ h
  exact ⟨edits, result, remaining, hresult, hedits⟩

/-- What no edit touches is in the corrected text, with a line feed for each line break. -/
theorem CorrectsText.keepLines {a : Analyzer} {path original last : String} {edits : List (List Edit)}
    (h : a.CorrectsText path (String.ofList (Lines.joinUniversal original.toList)) edits last) :
    KeepLines original edits last := by
  intro before line after hline huntouched
  obtain ⟨result, remaining, _, hcorrects⟩ := h
  have hne : Utf8.encodeChars (Lines.joinUniversal line) ≠ [] := by
    have hmem : line ∈ Lines.universal original.toList := by
      rw [hline]
      simp
    have hpos := Utf8.width_pos (Lines.joinUniversal_ne_nil (Lines.ne_nil_of_mem_universal hmem))
    exact List.ne_nil_of_length_pos hpos
  -- The line breaks are replaced line by line, so the line has a stretch of its own in what is read.
  have htext : Utf8.encode (String.ofList (Lines.joinUniversal original.toList)) =
      Utf8.encodeChars (before.flatMap Lines.joinUniversal) ++
        (Utf8.encodeChars (Lines.joinUniversal line) ++
          Utf8.encodeChars (after.flatMap Lines.joinUniversal)) := by
    rw [Utf8.encode, String.toList_ofList, ← Lines.flatMap_universal, hline, List.flatMap_append,
      List.flatMap_cons, Utf8.encodeChars_append, Utf8.encodeChars_append]
  obtain ⟨front, back, hbytes, hfront⟩ := hcorrects.keeps htext hne huntouched
  refine ⟨front, _, back, hbytes, hfront, rfl, ?_⟩
  rw [← Lines.joinUniversal_eq_self]
  exact ⟨Utf8.encodeChars_injective, fun h => by rw [h]⟩

end Analyzer

namespace CommandLine

/-- After a run a file is as it was, or it was corrected by the edits of some passes, which keep its lines
but for their line breaks. -/
theorem Options.run_keeps_lines {o : Options} {g : Grammar} {d : Disk} {names : List String}
    {original : String} (hfile : d.root.get? names = some (.file (Utf8.encode original))) :
    ((∀ w ∈ (o.run g d).writes, d.place w.1 ≠ names) ∧
      (d.writeAll (o.run g d).writes).root.get? names = some (.file (Utf8.encode original))) ∨
    ∃ a path edits last, o.Analyzes g d a ∧ d.place path = names ∧
      a.CorrectsText path (String.ofList (Lines.joinUniversal original.toList)) edits last ∧
      (d.writeAll (o.run g d).writes).root.get? names = some (.file (Utf8.encode last)) ∧
      KeepLines original edits last := by
  have hwrites : ∀ w ∈ (o.run g d).writes, ∃ content,
      d.root.get? (d.place w.1) = some (.file content) := by
    intro w hw
    obtain ⟨a, path, text, last, remaining, _, hread, _, rfl⟩ := mem_writes_run hw
    obtain ⟨before, hbefore, _⟩ := Disk.exists_of_readText hread
    exact ⟨_, Disk.get?_of_read hbefore⟩
  rcases Disk.get?_writeAll hwrites hfile with hnone | ⟨w, hw, hplace, hlast⟩
  · exact Or.inl hnone
  · obtain ⟨a, path, text, last, remaining, ha, hread, hcorrect, rfl⟩ := mem_writes_run hw
    obtain ⟨before, hbefore, rfl⟩ := Disk.exists_of_readText hread
    have hcontent := Disk.get?_of_read hbefore
    -- The text corrected is that of the file in this place, as there is only one.
    have hsame : before = original := by
      rw [hplace, hfile, Option.some.injEq, FileTree.file.injEq] at hcontent
      exact Utf8.encode_injective hcontent.symm
    obtain ⟨edits, hedits⟩ := Analyzer.correctsText_of_correctText hcorrect
    rw [hsame] at hedits
    exact Or.inr ⟨a, d.absolute path, edits, last, ha, hplace, hedits, hlast, hedits.keepLines⟩

/-! ## A run on a file with carriage returns -/

/-- The text of a file with a carriage return before each line feed. -/
def carriageText : String := "3.times \x7b create :user \x7d\r\nfoo\r\n"

def carriageDisk : Disk := ⟨.directory [("a.rb", .file (Utf8.encode carriageText))], []⟩

/-- The trees of the text that is read and of the text that the correction makes of it. -/
def carriageGrammar : Grammar :=
  .ok fun text => ⟨if text = blockText then blockProgram else replacedProgram, false⟩

def carriageOptions : Options := { paths := ["/a.rb"], mode := .correct }

/-- The run on a file with carriage returns satisfies what every run does. -/
theorem Options.run_keeps_lines_carriage :
    carriageDisk.root.get? ["a.rb"] = some (.file (Utf8.encode carriageText)) ∧
    (((∀ w ∈ (carriageOptions.run carriageGrammar carriageDisk).writes,
        carriageDisk.place w.1 ≠ ["a.rb"]) ∧
      (carriageDisk.writeAll (carriageOptions.run carriageGrammar carriageDisk).writes).root.get? ["a.rb"] =
        some (.file (Utf8.encode carriageText))) ∨
    ∃ a path edits last, carriageOptions.Analyzes carriageGrammar carriageDisk a ∧
      carriageDisk.place path = ["a.rb"] ∧
      a.CorrectsText path (String.ofList (Lines.joinUniversal carriageText.toList)) edits last ∧
      (carriageDisk.writeAll (carriageOptions.run carriageGrammar carriageDisk).writes).root.get? ["a.rb"] =
        some (.file (Utf8.encode last)) ∧
      KeepLines carriageText edits last) :=
  ⟨rfl, run_keeps_lines rfl⟩

/-- The analyzer of the run. -/
def carriageAnalyzer : Analyzer := ⟨some carriageGrammar, [createListRule], {}⟩

/-- The edit that the run makes. -/
def carriageEdit : Edit := ⟨0, 24, "create_list :user, 3"⟩

theorem runRules_blockText : ∃ f : Finding, f.edits = [carriageEdit] ∧
    (carriageAnalyzer.runRules "/a.rb" blockText).result = .ok ⟨"/a.rb", blockText, [f]⟩ := by
  have htree : (carriageGrammar.parse blockText).result = .ok (blockTree (Utf8.encode blockText)) := by
    show (Ruby.convert (Utf8.encode blockText) blockProgram).mapError ParseError.oddTree = _
    rw [Ruby.convert_blockProgram]
    rfl
  have hfound : ((carriageAnalyzer.findingsFrom
      ⟨"/a.rb", blockText, some (blockTree (Utf8.encode blockText))⟩ [] [createListRule]).result.toOption.map
        fun found => (Suppression.keep blockText found).map Finding.edits) = some [[carriageEdit]] := by
    decide +kernel
  obtain ⟨found, hfound, hedits⟩ := Option.map_eq_some_iff.mp hfound
  obtain ⟨f, hf, hedits⟩ := List.map_eq_singleton_iff.mp hedits
  refine ⟨f, hedits, ?_⟩
  rw [← hf]
  exact Analyzer.result_runRules_of_parse htree (toOption_eq_some.mp hfound)

theorem runRules_replacedText :
    (carriageAnalyzer.runRules "/a.rb" replacedText).result = .ok ⟨"/a.rb", replacedText, []⟩ := by
  have htree : (carriageGrammar.parse replacedText).result =
      .ok (replacedTree (Utf8.encode replacedText)) := by
    show (Ruby.convert (Utf8.encode replacedText) replacedProgram).mapError ParseError.oddTree = _
    rw [Ruby.convert_replacedProgram]
    rfl
  have hfound : ((carriageAnalyzer.findingsFrom
      ⟨"/a.rb", replacedText, some (replacedTree (Utf8.encode replacedText))⟩ []
        [createListRule]).result.toOption.map
          fun found => (Suppression.keep replacedText found).isEmpty) = some true := by
    decide +kernel
  obtain ⟨found, hfound, hempty⟩ := Option.map_eq_some_iff.mp hfound
  rw [← List.isEmpty_iff.mp hempty]
  exact Analyzer.result_runRules_of_parse htree (toOption_eq_some.mp hfound)

/-- The first pass makes the edit, the second one finds nothing to do. -/
theorem correctsText_blockText :
    carriageAnalyzer.CorrectsText "/a.rb" blockText [[carriageEdit]] replacedText := by
  obtain ⟨f, hedits, hfirst⟩ := runRules_blockText
  refine ⟨_, [], hfirst, ?_⟩
  have hoffer : (Corrector.offerFindings { text := blockText } [f]).1 =
      { text := blockText, accepted := [carriageEdit] } := by
    rw [Corrector.offerFindings, List.flatMap_singleton, hedits]
    rfl
  exact .pass hoffer (by simp) (by decide +kernel) runRules_replacedText (.stable rfl)

theorem inspects_carriageOptions :
    carriageOptions.Inspects carriageGrammar carriageDisk carriageAnalyzer ["/a.rb"] := by
  have hfiles : (collectFiles (some rubyAdapter) carriageDisk {} ["/a.rb"]).result = .ok ["/a.rb"] :=
    toOption_eq_some.mp (by decide +kernel)
  exact ⟨none, {}, ⟨[createListRule], [(createListRule.id, createListRule)], [(rubyLanguage, rubyAdapter)]⟩,
    [createListRule], rfl, rfl, rfl, hfiles, rfl⟩

theorem writes_carriageRun : (carriageOptions.run carriageGrammar carriageDisk).writes =
    [("/a.rb", Utf8.encode replacedText)] := by
  obtain ⟨f, hedits, hrun⟩ := runRules_blockText
  obtain ⟨r, remaining, hresult, hcorrects⟩ := correctsText_blockText
  have hgrammar : ∃ parse, carriageGrammar = .ok parse := ⟨_, rfl⟩
  have hlast : (carriageAnalyzer.correctText "/a.rb" blockText).result = .ok (replacedText, remaining) :=
    Outcome.result_bind_eq_ok.mpr ⟨r, hresult, hcorrects.result_correctFrom⟩
  have hread : carriageDisk.readText "/a.rb" = .ok blockText := by decide +kernel
  have hfixable : [f].any Finding.fixable = true := by
    rw [List.any_cons, Finding.fixable, hedits]
    rfl
  have hpossible : Path.isPossible "/a.rb" = true := by decide +kernel
  have hne : replacedText ≠ blockText := by decide
  rw [Options.writes_run hgrammar inspects_carriageOptions (List.cons_ne_nil _ _) rfl]
  exact @Analyzer.writes_inspect _ _ ⟨"/a.rb", blockText, [f]⟩ _ _ hpossible hread hrun rfl hfixable hlast hne

/-- A line that no edit touches can lose its carriage return: after the run the bytes of the second line
are nowhere in the file. -/
theorem run_drops_carriage_return :
    carriageDisk.root.get? ["a.rb"] = some (.file (Utf8.encode carriageText)) ∧
    carriageOptions.Analyzes carriageGrammar carriageDisk carriageAnalyzer ∧
    carriageAnalyzer.CorrectsText "/a.rb" (String.ofList (Lines.joinUniversal carriageText.toList))
      [[carriageEdit]] replacedText ∧
    (carriageDisk.writeAll (carriageOptions.run carriageGrammar carriageDisk).writes).root.get? ["a.rb"] =
      some (.file (Utf8.encode replacedText)) ∧
    ∃ before line, Lines.universal carriageText.toList = [before, line] ∧
      Edit.Untouched [[carriageEdit]] (Utf8.width (Lines.joinUniversal before))
        (Utf8.width (Lines.joinUniversal line)) ∧
      ¬ Utf8.encodeChars line <:+: Utf8.encode replacedText := by
  have htext : String.ofList (Lines.joinUniversal carriageText.toList) = blockText := by decide +kernel
  refine ⟨rfl, ⟨none, {}, _, [createListRule], rfl, rfl, rfl, rfl⟩, ?_, ?_, ?_⟩
  · rw [htext]
    exact correctsText_blockText
  · rw [writes_carriageRun]
    rfl
  · refine ⟨"3.times \x7b create :user \x7d\r\n".toList, "foo\r\n".toList, by decide +kernel,
      ⟨?_, trivial⟩, by decide +kernel⟩
    rw [List.forall_mem_singleton]
    exact Or.inl (by decide +kernel)

end CommandLine

end IdiomLint
