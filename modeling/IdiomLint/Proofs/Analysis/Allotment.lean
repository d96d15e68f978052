import IdiomLint.Proofs.Analysis.Listing

/-!
# What the limit for all findings leaves

The limit is allotted file by file: each file keeps as many of its first findings as the files before it have left
room for. Taken together, these are the first findings of all files (`flatMap_findings_capFindings`), however the
room runs out. Main statement: the analysis of several files gives a result for each of them, with a beginning of
what was found in it, and all results together hold the first findings that the limit has room for
(`analyzeFiles_keeps_first`).
-/

namespace IdiomLint

theorem Datum.roomAfter_of_integer? {limit : Datum} {m : Int} (h : limit.integer? = some m) (kept : Nat) :
    limit.roomAfter kept = .ok (m - kept).toNat := by
  rcases exists_of_integer? h with rfl | ⟨b, rfl⟩
  · rfl
  · rw [roomAfter, h]
    simp

namespace Analyzer

variable {a : Analyzer} {d : Disk} {limit : Datum} {m : Int}

/-- A limit that is a number can be applied. -/
theorem exists_capFindings (hlimit : limit.integer? = some m) (rs : List FileResult) :
    ∀ kept : Nat, ∃ capped, capFindings limit kept rs = .ok capped := by
  induction rs with
  | nil => exact fun _ => ⟨[], rfl⟩
  | cons r rs ih =>
      intro kept
      obtain ⟨rest, hrest⟩ := ih (kept + (r.findings.take (m - kept).toNat).length)
      rw [capFindings, Datum.roomAfter_of_integer? hlimit]
      exact ⟨_, bind_eq_ok.mpr ⟨_, rfl, bind_eq_ok.mpr ⟨rest, hrest, rfl⟩⟩⟩

/-- Of the findings of all files the first ones are kept, as many as there is room for. -/
theorem flatMap_findings_capFindings (hlimit : limit.integer? = some m) {rs : List FileResult} :
    ∀ {kept : Nat} {capped : List FileResult}, capFindings limit kept rs = .ok capped →
      capped.flatMap (·.findings) = (rs.flatMap (·.findings)).take (m - kept).toNat := by
  induction rs with
  | nil =>
      intro kept capped h
      cases h
      exact List.take_nil.symm
  | cons r rs ih =>
      intro kept capped h
      rw [capFindings] at h
      obtain ⟨room, hroom, h⟩ := bind_eq_ok.mp h
      obtain ⟨rest, hrest, h⟩ := bind_eq_ok.mp h
      cases h
      rw [Datum.roomAfter_of_integer? hlimit, Except.ok.injEq] at hroom
      -- The files after the first one have the room that it does not take up.
      have hleft : (m - (kept + (r.findings.take room).length : Nat)).toNat = room - r.findings.length := by
        rw [List.length_take]
        omega
      rw [List.flatMap_cons, List.flatMap_cons, ih hrest, hleft, hroom, List.take_append]

/-- Where every file is analyzed, the analysis of several files gives one result for each, in order. A result keeps
a beginning of what was found in its file, and all results together keep the first findings of all files, as many as
the limit has room for. Where a file is not analyzed, they are not. -/
theorem analyzeFiles_keeps_first (hlimit : a.config.inAll.integer? = some m) (paths : List String) :
    (∀ all, List.Forall₂ (fun path r => (a.analyzeFile d path).result = .ok r) paths all →
      ∃ kept, (a.analyzeFiles d paths).result = .ok kept ∧ kept.map (·.path) = paths ∧
        kept.flatMap (·.findings) = (all.flatMap (·.findings)).take (max 0 m).toNat ∧
        List.Forall₂ (fun r c => c.path = r.path ∧ c.text = r.text ∧ c.findings <+: r.findings) all kept) ∧
    ∀ kept, (a.analyzeFiles d paths).result = .ok kept →
      ∃ all, List.Forall₂ (fun path r => (a.analyzeFile d path).result = .ok r) paths all := by
  constructor
  · intro all hall
    obtain ⟨kept, hkept⟩ := exists_capFindings hlimit all 0
    have hfirst := flatMap_findings_capFindings hlimit hkept
    have hroom : (m - (0 : Nat)).toNat = (max 0 m).toNat := by omega
    have hcut := forall₂_of_capFindings hkept
    have hpaths : paths.map id = all.map FileResult.path :=
      map_eq_of_forall₂ (hall.imp fun _ _ hr => (result_analyzeFile hr).1.symm)
    have hsame : all.map FileResult.path = kept.map FileResult.path :=
      map_eq_of_forall₂ (hcut.imp fun _ _ ⟨_, hc⟩ => by rw [hc])
    refine ⟨kept, Outcome.result_bind_eq_ok.mpr ⟨all, Outcome.result_mapM_of_forall₂ hall, mapError_eq_ok.mpr hkept⟩,
      ?_, hroom ▸ hfirst, ?_⟩
    · rw [← hsame, ← hpaths, List.map_id]
    · refine hcut.imp fun r c ⟨room, hc⟩ => ?_
      rw [hc]
      exact ⟨rfl, rfl, List.take_prefix room r.findings⟩
  · intro kept h
    obtain ⟨all, hall, _⟩ := Outcome.result_bind_eq_ok.mp h
    exact ⟨all, Outcome.forall₂_of_result_mapM hall⟩

end Analyzer

/-! ## Room that runs out inside a file -/

/-- An analyzer that finds two spots in every text and keeps three findings in all. -/
def pairAnalyzer : Analyzer := ⟨some letterGrammar, [spotRule "early" [0, 0]], { inAll := .int 3 }⟩

/-- Four files, of which the second one is no text. -/
def pairDisk : Disk :=
  ⟨.directory [("a.rb", .file (Utf8.encode "a")), ("b.rb", .file [255]), ("c.rb", .file (Utf8.encode "c")),
    ("d.rb", .file (Utf8.encode "d"))], []⟩

/-- What it finds in a text. -/
def pairResult (path text : String) : FileResult :=
  ⟨path, text, [spot "early" (.text "warn") 0, spot "early" (.text "warn") 0]⟩

theorem analyzeFile_pairAnalyzer {path text : String} (hpossible : Path.isPossible path = true)
    (hread : pairDisk.readText path = .ok text) (hshown : Suppression.isSuppressed text "early" 0 = false) :
    (pairAnalyzer.analyzeFile pairDisk path).result = .ok (pairResult path text) := by
  have hfound : (pairAnalyzer.findingsFrom ⟨path, text, some (Ruby.nameNode (Utf8.encode text)
      (Ruby.leaf "identifier" 0 1 none))⟩ [] pairAnalyzer.rules).result = .ok (pairResult path text).findings := rfl
  have hkeep : Suppression.keep text (pairResult path text).findings = (pairResult path text).findings := by
    simp [Suppression.keep, pairResult, spot, hshown]
  have hrun := Analyzer.result_runRules_of_parse (result_parse_letterGrammar text) hfound
  rw [hkeep] at hrun
  exact Analyzer.result_analyzeFile_of_runRules hpossible hread hrun

namespace Analyzer

/-- The first file keeps both findings, the second one has none, the third one keeps one and the last one none. -/
theorem analyzeFiles_keeps_first_pairs : ∃ all kept, pairAnalyzer.config.inAll.integer? = some 3 ∧
    all = [pairResult "/a.rb" "a", ⟨"/b.rb", "", []⟩, pairResult "/c.rb" "c", pairResult "/d.rb" "d"] ∧
    List.Forall₂ (fun path r => (pairAnalyzer.analyzeFile pairDisk path).result = .ok r)
      ["/a.rb", "/b.rb", "/c.rb", "/d.rb"] all ∧
    (pairAnalyzer.analyzeFiles pairDisk ["/a.rb", "/b.rb", "/c.rb", "/d.rb"]).result = .ok kept ∧
    kept.map (·.path) = ["/a.rb", "/b.rb", "/c.rb", "/d.rb"] ∧
    kept.flatMap (·.findings) = List.replicate 3 (spot "early" (.text "warn") 0) ∧
    List.Forall₂ (fun r c => c.path = r.path ∧ c.text = r.text ∧ c.findings <+: r.findings) all kept := by
  have hbroken : (pairAnalyzer.analyzeFile pairDisk "/b.rb").result = .ok ⟨"/b.rb", "", []⟩ := by
    rw [analyzeFile, show Path.isPossible "/b.rb" = true from by decide]
    rfl
  have hall : List.Forall₂ (fun path r => (pairAnalyzer.analyzeFile pairDisk path).result = .ok r)
      ["/a.rb", "/b.rb", "/c.rb", "/d.rb"]
      [pairResult "/a.rb" "a", ⟨"/b.rb", "", []⟩, pairResult "/c.rb" "c", pairResult "/d.rb" "d"] :=
    .cons (analyzeFile_pairAnalyzer (by decide) (by decide) (by decide)) <| .cons hbroken <|
      .cons (analyzeFile_pairAnalyzer (by decide) (by decide) (by decide)) <|
      .cons (analyzeFile_pairAnalyzer (by decide) (by decide) (by decide)) .nil
  obtain ⟨kept, hkept, hpaths, hfindings, hcut⟩ :=
    (@analyzeFiles_keeps_first pairAnalyzer pairDisk 3 rfl ["/a.rb", "/b.rb", "/c.rb", "/d.rb"]).1 _ hall
  exact ⟨_, kept, rfl, rfl, hall, hkept, hpaths, hfindings, hcut⟩

end Analyzer

end IdiomLint
