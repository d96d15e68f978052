import IdiomLint.Proofs.Diff.RoundTrip
import IdiomLint.Proofs.Run.Limit

/-!
# What a previewing run shows

A run that previews corrections prints the differences of the files that it would change, one after the other. Main
statement: each of them is a patch that makes the corrected text of the file's text, and all of them are read from
what is printed exactly when every line shown but the very last one ends in a line break (`preview_reads`).
-/

namespace IdiomLint

open Diff (Change Patch Reader)

namespace Analyzer

variable {a : Analyzer} {d : Disk}

/-- A change is what the correction of a file would make of its text. -/
structure Previews (a : Analyzer) (d : Disk) (r : FileResult) (c : Change) : Prop where
  old : c.old = r.text
  path : c.path = Path.relative (d.absolute r.path) d.here
  different : c.old ≠ c.new
  corrected : ∃ remaining, (a.correctText r.path r.text).result = .ok (c.new, remaining)

/-- What is shown of a file is the change that its correction would make. -/
theorem exists_previews {r s : FileResult} {text : String}
    (h : (a.correctFile d false r).result = .ok (s, some text)) :
    s = r ∧ ∃ c : Change, text = c.diff ∧ a.Previews d r c := by
  rw [correctFile] at h
  generalize hpath : Path.relative (d.absolute r.path) d.here = path at h
  split at h
  · cases h
  · obtain ⟨⟨last, remaining⟩, hlast, h⟩ := Outcome.result_bind_eq_ok.mp h
    simp only at h
    split at h
    · cases h
    · next hother =>
        cases h
        rw [beq_iff_eq] at hother
        exact ⟨rfl, ⟨r.text, last, path⟩, by rw [Change.diff], rfl, hpath.symm, Ne.symm hother, remaining, hlast⟩

/-- A file with something to mend is shown when its text would change. -/
theorem result_correctFile_of_previewed {r : FileResult} {last : String} {remaining : List Finding}
    (hfixable : r.findings.any Finding.fixable = true)
    (hlast : (a.correctText r.path r.text).result = .ok (last, remaining)) (hne : last ≠ r.text) :
    (a.correctFile d false r).result =
      .ok (r, some (Diff.unified r.text last (Path.relative (d.absolute r.path) d.here))) := by
  rw [correctFile, hfixable, Bool.not_true, if_neg Bool.false_ne_true]
  refine Outcome.result_bind_eq_ok.mpr ⟨(last, remaining), hlast, ?_⟩
  show Outcome.result (if (last == r.text) = true then _ else _) = _
  rw [if_neg (by rw [beq_iff_eq]; exact hne)]
  rfl

theorem exists_changes_of_corrected {results : List FileResult} {corrected : List (FileResult × Option String)}
    (h : ∀ s ∈ corrected, ∃ r ∈ results, (a.correctFile d false r).result = .ok s) :
    ∃ changes : List Change, (Inspection.ofCorrected corrected).differences = Diff.shown changes ∧
      ∀ c ∈ changes, ∃ r ∈ (Inspection.ofCorrected corrected).results, a.Previews d r c := by
  induction corrected with
  | nil => exact ⟨[], rfl, List.forall_mem_nil _⟩
  | cons s corrected ih =>
      rw [List.forall_mem_cons] at h
      obtain ⟨⟨r, _, hr⟩, h⟩ := h
      obtain ⟨changes, hshown, hchanges⟩ := ih h
      have hlater : ∀ c ∈ changes, ∃ r ∈ (Inspection.ofCorrected (s :: corrected)).results, a.Previews d r c := by
        intro c hc
        obtain ⟨r, hmem, hpreviews⟩ := hchanges c hc
        exact ⟨r, List.mem_cons_of_mem _ hmem, hpreviews⟩
      obtain ⟨result, difference⟩ := s
      cases difference with
      | none => exact ⟨changes, hshown, hlater⟩
      | some text =>
          obtain ⟨rfl, c, rfl, hpreviews⟩ := exists_previews hr
          refine ⟨c :: changes, ?_, List.forall_mem_cons.mpr ⟨⟨result, List.mem_cons_self, hpreviews⟩, hlater⟩⟩
          rw [Diff.shown_cons, ← hshown]
          exact String.join_cons

/-- The differences of an inspection that previews corrections are those of changes. -/
theorem exists_changes {files : List String} {i : Inspection} (h : (a.inspect d .preview files).result = .ok i) :
    ∃ changes : List Change, i.differences = Diff.shown changes ∧ ∀ c ∈ changes, ∃ r ∈ i.results, a.Previews d r c := by
  obtain ⟨results, _, h⟩ := Outcome.result_bind_eq_ok.mp h
  obtain ⟨corrected, hcorrected, h⟩ := Outcome.result_bind_eq_ok.mp h
  cases h
  exact exists_changes_of_corrected (Outcome.exists_of_result_mapM hcorrected)

end Analyzer

namespace CommandLine

/-- **The differences that a run shows are patches.** Each of them makes the corrected text of the text of its file,
and they are read from what is shown, as they are, exactly when every line but the very last one ends in a break. -/
theorem Options.preview_reads (reader : Reader) :
    (∀ changes : List Change, (∀ c ∈ changes, c.Fits reader.ends) →
      (∀ c ∈ changes, String.join c.patch.source = c.diff ∧ c.patch.apply reader.ends c.old = some c.new) ∧
      (Patch.readAll? reader.ends (Diff.shown changes) = some (changes.map Change.patch) ↔
        ∀ line ∈ (changes.flatMap Change.lines).dropLast, Lines.Ended reader.ends line.toList)) ∧
    ∀ (o : Options) (a : Analyzer) (d : Disk) (files : List String) (i : Inspection), o.mode = .preview →
      (a.inspect d o.mode files).result = .ok i → ∃ changes : List Change,
        (o.conclude d a.rules i).printed = Diff.shown changes ∧ ∀ c ∈ changes, ∃ r ∈ i.results, a.Previews d r c := by
  constructor
  · intro changes hfits
    refine ⟨fun c hc => ⟨Change.join_lines (hfits c hc).different, Change.apply_patch (hfits c hc)⟩, ?_⟩
    exact Diff.readAll?_shown_iff reader hfits
  · intro o a d files i hmode h
    rw [hmode] at h
    obtain ⟨changes, hshown, hchanges⟩ := Analyzer.exists_changes h
    refine ⟨changes, ?_, hchanges⟩
    rw [← hshown, conclude, if_pos hmode]
    show String.join [i.differences] = i.differences
    rw [String.join_cons]
    exact String.append_empty

/-! ## Changes that can be read, and one that cannot -/

/-- A loop that gives way to a call. -/
def loopChange : Change :=
  ⟨"3.times \x7b create :user \x7d\nfoo\n", "create_list :user, 3\nfoo\n", "spec/a_spec.rb"⟩

/-- A line more in a text that ends without a line break. -/
def insertedChange : Change := ⟨"foo\r\nbar", "foo\r\nfoo\r\nbar", "b.rb"⟩

def letterOptions : Options := { paths := ["/a.rb"], mode := .preview }

theorem fits_loopChange : loopChange.Fits Reader.feeds.ends where
  different := by decide
  path := by simp [loopChange, Reader.feeds]
  old := by decide +kernel
  new := by decide +kernel

theorem fits_insertedChange : insertedChange.Fits Reader.feeds.ends where
  different := by decide
  path := by simp [insertedChange, Reader.feeds]
  old := by decide +kernel
  new := by decide +kernel

/-- The run on the text `a` shows how it would be mended. -/
theorem inspect_letterAnalyzer :
    ∃ i, ((letterAnalyzer 1).inspect letterDisk .preview ["/a.rb"]).result = .ok i := by
  have hlast := @correctText_letterAnalyzer 1 "/a.rb" (runRules_letterAnalyzer rfl rfl) rfl
  have hcorrect := @Analyzer.result_correctFile_of_previewed _ letterDisk letterResult _ _ rfl hlast (by decide)
  have hfiles := Outcome.result_mapM_of_forall₂ (.cons hcorrect .nil)
  exact ⟨_, Outcome.result_bind_eq_ok.mpr ⟨[letterResult], analyzeFiles_letterAnalyzer 1,
    Outcome.result_bind_eq_ok.mpr ⟨_, hfiles, rfl⟩⟩⟩

/-- Two changes that are shown one after the other, and the run on the text `a`. -/
theorem Options.preview_reads_loop :
    (∀ c ∈ [loopChange, insertedChange], c.Fits Reader.feeds.ends) ∧
    Patch.readAll? Reader.feeds.ends (Diff.shown [loopChange, insertedChange]) =
      some [loopChange.patch, insertedChange.patch] ∧
    loopChange.patch.apply Reader.feeds.ends loopChange.old = some loopChange.new ∧
    insertedChange.patch.apply Reader.feeds.ends insertedChange.old = some insertedChange.new ∧
    ∃ i, letterOptions.mode = .preview ∧
      ((letterAnalyzer 1).inspect letterDisk letterOptions.mode ["/a.rb"]).result = .ok i ∧
      ∃ changes : List Change, (letterOptions.conclude letterDisk (letterAnalyzer 1).rules i).printed =
        Diff.shown changes ∧ ∀ c ∈ changes, ∃ r ∈ i.results, (letterAnalyzer 1).Previews letterDisk r c := by
  obtain ⟨hread, hrun⟩ := preview_reads Reader.feeds
  have hfits : ∀ c ∈ [loopChange, insertedChange], c.Fits Reader.feeds.ends := by
    rw [List.forall_mem_cons, List.forall_mem_singleton]
    exact ⟨fits_loopChange, fits_insertedChange⟩
  obtain ⟨hpatches, hiff⟩ := hread [loopChange, insertedChange] hfits
  obtain ⟨i, hinspect⟩ := inspect_letterAnalyzer
  refine ⟨hfits, hiff.mpr (by decide +kernel), (hpatches _ (by simp)).2, (hpatches _ (by simp)).2, i, rfl, hinspect, ?_⟩
  exact hrun letterOptions (letterAnalyzer 1) letterDisk ["/a.rb"] i rfl hinspect

/-- A difference can be one that nobody reads: the last line of the old text has no line break, and the last line of
the new text is put right behind it. One that is read by itself can make what is shown after it unreadable, and one
who takes a line feed for the only line break reads no difference between texts with another one in a line. -/
theorem unified_unreadable :
    ("a" : String) ≠ "b" ∧ Diff.unified "a" "b" "x.rb" = "--- a/x.rb\n+++ b/x.rb\n@@ -1 +1 @@\n-a+b" ∧
    Patch.readAll? Reader.feeds.ends (Diff.unified "a" "b" "x.rb") = none ∧
    Patch.readAll? Reader.allBreaks.ends (Diff.unified "a" "b" "x.rb") = none ∧
    Patch.readAll? Reader.feeds.ends insertedChange.diff = some [insertedChange.patch] ∧
    Patch.readAll? Reader.feeds.ends (Diff.shown [insertedChange, loopChange]) = none ∧
    Patch.readAll? Reader.feeds.ends (Diff.unified "a\x0bb\n" "a\x0bc\n" "x.rb") = none := by
  refine ⟨by decide, by decide +kernel, by decide +kernel, by decide +kernel, by decide +kernel, by decide +kernel,
    by decide +kernel⟩

end CommandLine

end IdiomLint
