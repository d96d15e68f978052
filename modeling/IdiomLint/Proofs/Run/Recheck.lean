import IdiomLint.Proofs.Correction.Reinspection
import IdiomLint.Proofs.Report.Form
import IdiomLint.Proofs.Run.Preservation
import IdiomLint.Proofs.Run.Stages

/-!
# Running again after a correction

A run that corrects and ends without findings leaves files in which a second run, one that only reports, finds
nothing either (`run_again_clean`). The limit for all findings can be in the way of that: it is applied before the
correction, so that a file of which no finding is kept is passed over, and there is room for what was found in it
when the files before it are mended.
-/

namespace IdiomLint.CommandLine.Options

open Disk (SameOutline)
open Ruby (blockText replacedText)

variable {o : Options} {g : Grammar} {d d' : Disk} {a : Analyzer} {files : List String} {rules : List Rule}

/-- The same run, but one that only reports. -/
def reporting (o : Options) : Options := { o with mode := .report }

/-- A run writes to files that exist. -/
theorem overwrites_run (o : Options) (g : Grammar) (d : Disk) : d.Overwrites (o.run g d).writes := by
  intro w hw
  obtain ⟨a, path, text, last, remaining, _, hread, _, rfl⟩ := mem_writes_run hw
  obtain ⟨before, hbefore, _⟩ := Disk.exists_of_readText hread
  exact ⟨_, Disk.get?_of_read hbefore⟩

/-! ## Preparing again -/

theorem configPath_of_sameOutline (h : SameOutline d d') : o.reporting.configPath d' = o.configPath d := by
  have hfind : Config.findFile d' = Config.findFile d := funext (Disk.findFile_of_sameOutline h)
  rw [configPath.eq_def, configPath.eq_def, hfind]
  rfl

/-- The configuration is the same where the same is read from its file. -/
theorem loadConfig_of_read_eq {path : Option String} (h : SameOutline d d')
    (hread : ∀ p ∈ path, d'.read p = d.read p) : loadConfig d' path = loadConfig d path := by
  have hload : Config.load d' (path.getD "") = Config.load d (path.getD "") := by
    cases path with
    | none => rfl
    | some p => rw [Option.getD_some, Config.load, Config.load, h.has, hread p rfl]
  rw [loadConfig, loadConfig, hload]

theorem Inspects.again (ha : o.Inspects g d a files) (h : SameOutline d d')
    (hread : ∀ p, o.configPath d = .ok (some p) → d'.read p = d.read p) :
    o.reporting.Inspects g d' a files := by
  obtain ⟨path, c, r, rules, hpath, hloaded, hrules, hcollected, rfl⟩ := ha
  refine ⟨path, c, r, rules, (configPath_of_sameOutline h).trans hpath, ?_, hrules, ?_, rfl⟩
  · rw [loadConfig_of_read_eq h, hloaded]
    rintro p rfl
    exact hread p hpath
  · exact (congrArg Outcome.result (Disk.collectFiles_of_sameOutline h _ _ _)).trans hcollected

/-- After a run that did not correct its configuration file, the same files are inspected again. -/
theorem Inspects.after (ha : o.Inspects g d a files) (hdisk : d.root.Distinct)
    (hconfig : ∀ path, o.configPath d = .ok (some path) →
      ∀ w ∈ (o.run g d).writes, d.follow path ≠ .ok (d.place w.1)) :
    o.reporting.Inspects g (d.writeAll (o.run g d).writes) a files := by
  have hover := overwrites_run o g d
  refine ha.again (Disk.sameOutline_writeAll hdisk hover) fun path hpath => ?_
  rcases Disk.read_writeAll hdisk hover path with ⟨_, hread⟩ | ⟨w, hw, hfollow, _⟩
  · exact hread
  · exact absurd hfollow (hconfig path hpath w hw)

theorem Inspects.plain (ha : o.Inspects g d a files) (hg : g.Plain) : a.Plain := by
  obtain ⟨path, c, r, rules, _, _, hrules, _, rfl⟩ := ha
  refine ⟨?_, eq_of_mem_chooseRules hrules⟩
  rintro _ ⟨⟩
  exact hg

theorem Inspects.absolute (ha : o.Inspects g d a files) : ∀ file ∈ files, ∃ p, file = d.absolute p := by
  obtain ⟨path, c, r, rules, _, _, _, hcollected, rfl⟩ := ha
  exact absolute_of_collectFiles hcollected

/-! ## Reporting again -/

/-- If a run with corrections ends without findings, so does one that reports on as many files and finds
nothing. -/
theorem result_conclude_again {i i' : Inspection} (hmode : o.mode = .correct)
    (h : (o.conclude d rules i).result = .ok .clean) (hfindings : i'.findings = [])
    (hcorrections : i'.corrections = []) (hlength : i'.results.length = i.results.length) :
    (o.reporting.conclude d' rules i').result = .ok .clean := by
  obtain ⟨_, text, hwrite, hfaults⟩ := (result_conclude_eq_clean (by rw [hmode]; decide)).mp h
  obtain ⟨format, hformat, hreport⟩ := write_eq_ok.mp hwrite
  have hregular := Report.isRegular_report (i := i') (hfindings ▸ List.forall_mem_nil _) d' rules
  obtain ⟨text', hreport'⟩ : ∃ text', (i'.report d' rules).write format = .ok text' := by
    cases format with
    | text => exact Report.exists_write_text hfindings rfl
    | json =>
        -- The counts were told by the first report, and the second one has the same.
        have hcounts := Report.counts_lt_of_write hreport
        have hsame : (i'.report d' rules).files = (i.report d rules).files := congrArg Int.ofNat hlength
        have hcorrected : (i'.report d' rules).corrected = [] := by rw [Inspection.report, hcorrections, List.map_nil]
        rw [← hsame] at hcounts
        exact Report.exists_write_json hfindings rfl (hcorrected ▸ List.forall_mem_nil _) hcounts
  have hwrite' : o.reporting.write (i'.report d' rules) = .ok text' :=
    write_eq_ok.mpr ⟨format, hformat, hreport'⟩
  exact (@result_conclude_eq_clean o.reporting _ _ _ nofun).mpr
    ⟨hfindings, text', hwrite', faults_of_write hregular hwrite'⟩

/-- After a run that corrected and ended without findings, a run that only reports ends without findings too. -/
theorem run_again_clean (hmode : o.mode = .correct) (hdisk : d.root.Distinct) (hkinds : g.Plain)
    (hconfig : ∀ path, o.configPath d = .ok (some path) →
      ∀ w ∈ (o.run g d).writes, d.follow path ≠ .ok (d.place w.1))
    (hkept : (o.run g d).writes = [] ∨ ∀ a files all, o.Inspects g d a files →
      (files.mapM (a.analyzeFile d)).result = .ok all → a.KeepsSome all)
    (hclean : (o.run g d).result = .ok .clean) :
    (o.reporting.run g (d.writeAll (o.run g d).writes)).result = .ok .clean := by
  obtain ⟨a, files, i, hg, ha, hne, hjobs, hinspect, hconclude⟩ := result_run_eq_clean.mp hclean
  have hfindings := ((result_conclude_eq_clean (by rw [hmode]; decide)).mp hconclude).1
  have hover := overwrites_run o g d
  have hagain := ha.after hdisk hconfig
  have hwrites := writes_run hg ha hne hjobs
  rw [hmode] at hinspect hwrites
  have hsome : (o.run g d).writes = [] ∨
      ∀ all, (files.mapM (a.analyzeFile d)).result = .ok all → a.KeepsSome all :=
    hkept.imp_right fun h all => h a files all ha
  rw [hwrites] at hover hsome hagain ⊢
  obtain ⟨results, hresults, hlength, hnil⟩ :=
    Analyzer.result_inspect_again (ha.plain hkinds) hdisk ha.absolute hinspect hfindings hover hsome
  refine result_run_eq_clean.mpr ⟨a, files, ⟨results, []⟩, hg, hagain, hne, hjobs, hresults, ?_⟩
  exact result_conclude_again hmode hconclude (List.flatMap_eq_nil_iff.mpr hnil) rfl hlength

/-! ## A limit of one finding, and two files -/

/-- A configuration file with a limit for all findings, and two files with an offence each. -/
def limitedDisk : Disk :=
  ⟨.directory [(".factorylint.yml", .file (Utf8.encode "max_total_findings: 1\n")),
    ("a.rb", .file (Utf8.encode blockText)), ("b.rb", .file (Utf8.encode blockText))], []⟩

/-- A run that corrects the files. -/
def limitedOptions (paths : List String) : Options := { paths, mode := .correct }

/-- The analyzer of these runs, in which one finding is kept of all. -/
def limitedAnalyzer : Analyzer := ⟨some carriageGrammar, [createListRule], { inAll := .int 1 }⟩

/-- What the file says, and nothing else. -/
def isLimited : Config → Bool
  | ⟨.list [.text "*"], .int 50, .int 1, .table [], .list []⟩ => true
  | _ => false

theorem eq_of_isLimited {c : Config} (h : isLimited c = true) : c = { inAll := .int 1 } := by
  unfold isLimited at h
  split at h
  · rfl
  · cases h

theorem result_loadConfig_limitedDisk :
    (loadConfig limitedDisk (some "/.factorylint.yml")).result = .ok (some { inAll := .int 1 }) := by
  have hloaded : ((Config.load limitedDisk "/.factorylint.yml").result.toOption.map isLimited) = some true := by
    decide +kernel
  obtain ⟨c, hc, hlimited⟩ := Option.map_eq_some_iff.mp hloaded
  rw [eq_of_isLimited hlimited] at hc
  have hload := toOption_eq_some.mp hc
  rw [loadConfig, Option.getD_some, hload]
  show (some <$> (Config.load limitedDisk "/.factorylint.yml").mapError RunError.config).result = _
  rw [← bind_pure_comp]
  exact Outcome.result_bind_eq_ok.mpr ⟨_, Outcome.result_mapError_eq_ok.mpr hload, rfl⟩

/-- The files under the paths of one of the files or of both. -/
theorem result_collectFiles_limitedDisk {paths : List String}
    (hpaths : paths = ["/a.rb"] ∨ paths = ["/a.rb", "/b.rb"]) :
    (collectFiles (some rubyAdapter) limitedDisk { inAll := .int 1 } paths).result = .ok paths := by
  have hfound : ∃ found, (paths.mapM (collectUnder rubyAdapter limitedDisk { inAll := .int 1 })).result = .ok found ∧
      found.flatten = paths := by
    rcases hpaths with rfl | rfl
    · exact ⟨[["/a.rb"]], toOption_eq_some.mp (by decide), rfl⟩
    · exact ⟨[["/a.rb"], ["/b.rb"]], toOption_eq_some.mp (by decide), rfl⟩
  have hsorted : sortDistinct paths = paths := by
    rcases hpaths with rfl | rfl
    · rw [sortDistinct, sortTexts, List.mergeSort_of_pairwise (by decide)]
      rfl
    · rw [sortDistinct, sortTexts, List.mergeSort_of_pairwise (by decide)]
      rfl
  obtain ⟨found, hfound, hflat⟩ := hfound
  refine Outcome.result_bind_eq_ok.mpr ⟨found, hfound, ?_⟩
  rw [hflat, hsorted]
  rfl

theorem configPath_limitedOptions {paths : List String} (hpaths : paths = ["/a.rb"] ∨ paths = ["/a.rb", "/b.rb"]) :
    (limitedOptions paths).configPath limitedDisk = .ok (some "/.factorylint.yml") := by
  have hfind : Config.findFile limitedDisk "/a.rb" = some "/.factorylint.yml" := by decide
  rw [← hfind]
  rcases hpaths with rfl | rfl <;> rfl

theorem inspects_limitedOptions {paths : List String} (hpaths : paths = ["/a.rb"] ∨ paths = ["/a.rb", "/b.rb"]) :
    (limitedOptions paths).Inspects carriageGrammar limitedDisk limitedAnalyzer paths :=
  ⟨_, _, ⟨[createListRule], [(createListRule.id, createListRule)], [(rubyLanguage, rubyAdapter)]⟩,
    [createListRule], configPath_limitedOptions hpaths, result_loadConfig_limitedDisk, rfl,
    result_collectFiles_limitedDisk hpaths, rfl⟩

theorem runRules_limitedAnalyzer : limitedAnalyzer.runRules = carriageAnalyzer.runRules :=
  Analyzer.runRules_withLimit carriageAnalyzer (.int 1)

/-- What is found in the files, each of them read under its own path. -/
theorem exists_analyzeFile_limitedAnalyzer : ∃ f : Finding, f.edits = [carriageEdit] ∧
    (limitedAnalyzer.analyzeFile limitedDisk "/a.rb").result = .ok ⟨"/a.rb", blockText, [f]⟩ ∧
    ∀ d : Disk, d.readText "/b.rb" = .ok blockText →
      (limitedAnalyzer.analyzeFile d "/b.rb").result = .ok ⟨"/b.rb", blockText, [f.under "/b.rb"]⟩ := by
  obtain ⟨f, hedits, hrun⟩ := runRules_blockText
  rw [← runRules_limitedAnalyzer] at hrun
  have hother := @Analyzer.result_runRules_under _ _ "/b.rb" _ _ (fun rule => List.mem_singleton.mp) hrun
  refine ⟨f, hedits, ?_, fun d hread => ?_⟩
  · exact Analyzer.result_analyzeFile_of_runRules (by decide) (by decide) hrun
  · exact Analyzer.result_analyzeFile_of_runRules (by decide) hread hother

theorem correctText_limitedAnalyzer :
    (limitedAnalyzer.correctText "/a.rb" blockText).result = .ok (replacedText, []) := by
  rw [Analyzer.correctText_congr runRules_limitedAnalyzer]
  obtain ⟨result, remaining, hresult, hcorrects⟩ := correctsText_blockText
  have hlast : (carriageAnalyzer.correctText "/a.rb" blockText).result = .ok (replacedText, remaining) :=
    Outcome.result_bind_eq_ok.mpr ⟨result, hresult, hcorrects.result_correctFrom⟩
  cases (Analyzer.result_of_correctText hlast).symm.trans runRules_replacedText
  exact hlast

/-- The first file is corrected, whatever the others are of which no finding is kept. -/
theorem correctFiles_limitedAnalyzer {f : Finding} (hedits : f.edits = [carriageEdit]) {others : List FileResult}
    (hothers : ∀ r ∈ others, r.findings = []) : ∃ difference,
    (limitedAnalyzer.correctFiles limitedDisk true (⟨"/a.rb", blockText, [f]⟩ :: others)).result =
      .ok ((⟨"/a.rb", replacedText, []⟩, some difference) :: others.map (·, none)) ∧
    (limitedAnalyzer.correctFiles limitedDisk true (⟨"/a.rb", blockText, [f]⟩ :: others)).writes =
      [("/a.rb", Utf8.encode replacedText)] := by
  have hfixable : [f].any Finding.fixable = true := by
    rw [List.any_cons, Finding.fixable, hedits]
    rfl
  have hne : replacedText ≠ blockText := by decide
  have hfirst := @Analyzer.result_correctFile_of_written limitedAnalyzer limitedDisk ⟨"/a.rb", blockText, [f]⟩ _ _
    hfixable correctText_limitedAnalyzer hne
  have hrest : others.mapM (limitedAnalyzer.correctFile limitedDisk true) = pure (others.map (·, none)) :=
    Analyzer.correctFiles_of_nil hothers
  rw [Analyzer.correctFiles, List.mapM_cons, hrest]
  refine ⟨_, Outcome.result_bind_eq_ok.mpr ⟨_, hfirst, rfl⟩, ?_⟩
  rw [Outcome.writes_bind_of_readOnly]
  · exact @Analyzer.writes_correctFile _ _ ⟨"/a.rb", blockText, [f]⟩ _ _ hfixable correctText_limitedAnalyzer hne
  · intro s
    rw [pure_bind]
    exact Outcome.readOnly_pure _

/-- The analysis of the files, and what the limit leaves of it. -/
theorem exists_kept_limitedAnalyzer {paths : List String} (hpaths : paths = ["/a.rb"] ∨ paths = ["/a.rb", "/b.rb"]) :
    ∃ all f others, (paths.mapM (limitedAnalyzer.analyzeFile limitedDisk)).result = .ok all ∧
      Analyzer.capFindings limitedAnalyzer.config.inAll 0 all = .ok (⟨"/a.rb", blockText, [f]⟩ :: others) ∧
      f.edits = [carriageEdit] ∧ (∀ r ∈ others, r.findings = []) ∧ others.length ≤ 1 := by
  obtain ⟨f, hedits, hfirst, hsecond⟩ := exists_analyzeFile_limitedAnalyzer
  rcases hpaths with rfl | rfl
  · refine ⟨[⟨"/a.rb", blockText, [f]⟩], f, [], ?_, rfl, hedits, List.forall_mem_nil _, Nat.zero_le 1⟩
    exact Outcome.result_mapM_of_forall₂ (.cons hfirst .nil)
  · refine ⟨[⟨"/a.rb", blockText, [f]⟩, ⟨"/b.rb", blockText, [f.under "/b.rb"]⟩], f, [⟨"/b.rb", blockText, []⟩],
      ?_, rfl, hedits, List.forall_mem_singleton.mpr rfl, Nat.le_refl 1⟩
    exact Outcome.result_mapM_of_forall₂
      (.cons hfirst (.cons (hsecond limitedDisk (by decide)) .nil))

/-- The report that the first file is corrected and nothing is left can be written. -/
theorem exists_write_ofCorrected (difference : String) {others : List FileResult}
    (hothers : ∀ r ∈ others, r.findings = []) (hfew : others.length ≤ 1) (d : Disk) : ∃ text,
    ((Inspection.ofCorrected ((⟨"/a.rb", replacedText, []⟩, some difference) ::
      others.map (·, none))).report d limitedAnalyzer.rules).write .json = .ok text := by
  refine Report.exists_write_json ?_ rfl ?_ ?_
  · simpa [Inspection.report, Inspection.findings, Inspection.ofCorrected] using hothers
  · intro file hfile
    obtain rfl : file = "/a.rb" := by simpa [Inspection.report, Inspection.ofCorrected] using hfile
    decide
  · have hten : ∀ {n : Int}, n.natAbs < 10 → n.natAbs < 10 ^ Integer.digitLimit := Integer.lt_limit_of_lt_ten
    have hone : (1 : Int).natAbs < 10 := by decide
    refine ⟨hten ?_, hten hone⟩
    show (((⟨"/a.rb", replacedText, []⟩, some difference) :: others.map (·, none)).map Prod.fst).length < 10
    rw [List.length_map, List.length_cons, List.length_map]
    omega

/-- The run on one of the files or on both corrects the first one and ends without findings. -/
theorem run_limitedOptions {paths : List String} (hpaths : paths = ["/a.rb"] ∨ paths = ["/a.rb", "/b.rb"]) :
    ((limitedOptions paths).run carriageGrammar limitedDisk).result = .ok .clean ∧
    ((limitedOptions paths).run carriageGrammar limitedDisk).writes = [("/a.rb", Utf8.encode replacedText)] := by
  obtain ⟨all, f, others, hall, hcap, hedits, hothers, hfew⟩ := exists_kept_limitedAnalyzer hpaths
  obtain ⟨difference, hcorrected, hwrites⟩ := correctFiles_limitedAnalyzer hedits hothers
  have hinspect := Analyzer.result_inspect_correct hall hcap hcorrected
  have ha := inspects_limitedOptions hpaths
  have hgrammar : ∃ parse, carriageGrammar = .ok parse := ⟨_, rfl⟩
  have hmode : (limitedOptions paths).mode ≠ .preview := (by decide : Mode.correct ≠ .preview)
  have hne : paths ≠ [] := by
    rcases hpaths with rfl | rfl <;> simp
  have hfindings : (Inspection.ofCorrected ((⟨"/a.rb", replacedText, []⟩, some difference) ::
      others.map (·, none))).findings = [] := by
    simpa [Inspection.findings, Inspection.ofCorrected] using hothers
  obtain ⟨text, htext⟩ := exists_write_ofCorrected difference hothers hfew limitedDisk
  constructor
  · refine result_run_eq_clean.mpr ⟨limitedAnalyzer, paths, _, hgrammar, ha, hne, rfl, hinspect, ?_⟩
    exact (result_conclude_eq_clean hmode).mpr
      ⟨hfindings, text, write_eq_ok.mpr ⟨.json, rfl, htext⟩, rfl⟩
  · obtain ⟨all', kept, _, hall', hcap', _, _, hinspected⟩ := Analyzer.of_result_inspect_correct hinspect
    cases hall.symm.trans hall'
    cases hcap.symm.trans hcap'
    rw [writes_run hgrammar ha hne rfl]
    exact hinspected.trans hwrites

theorem plain_carriageGrammar : carriageGrammar.Plain := by
  rintro _ ⟨⟩ text
  show (if text = blockText then Ruby.blockProgram else Ruby.replacedProgram).Plain
  split <;> decide

theorem distinct_limitedDisk : limitedDisk.root.Distinct := by
  simp [limitedDisk, FileTree.Distinct, FileTree.DistinctAll]

/-- The run does not correct its configuration file. -/
theorem follow_ne_limitedOptions {paths : List String} (hpaths : paths = ["/a.rb"] ∨ paths = ["/a.rb", "/b.rb"]) :
    ∀ path, (limitedOptions paths).configPath limitedDisk = .ok (some path) →
      ∀ w ∈ ((limitedOptions paths).run carriageGrammar limitedDisk).writes,
        limitedDisk.follow path ≠ .ok (limitedDisk.place w.1) := by
  intro path hpath w hw hfollow
  cases (configPath_limitedOptions hpaths).symm.trans hpath
  rw [(run_limitedOptions hpaths).2] at hw
  cases List.mem_singleton.mp hw
  exact absurd (toOption_eq_some.mpr hfollow) (by decide)

/-- With one file the finding is kept, and nothing is found again. -/
theorem run_again_clean_limited :
    ((limitedOptions ["/a.rb"]).run carriageGrammar limitedDisk).result = .ok .clean ∧
    ((limitedOptions ["/a.rb"]).run carriageGrammar limitedDisk).writes = [("/a.rb", Utf8.encode replacedText)] ∧
    ((limitedOptions ["/a.rb"]).reporting.run carriageGrammar (limitedDisk.writeAll
      ((limitedOptions ["/a.rb"]).run carriageGrammar limitedDisk).writes)).result = .ok .clean := by
  have hpaths : (["/a.rb"] : List String) = ["/a.rb"] ∨ ["/a.rb"] = ["/a.rb", "/b.rb"] := Or.inl rfl
  obtain ⟨hclean, hwrites⟩ := run_limitedOptions hpaths
  refine ⟨hclean, hwrites, run_again_clean rfl distinct_limitedDisk plain_carriageGrammar
    (follow_ne_limitedOptions hpaths) (Or.inr fun a files all ha hall => ?_) hclean⟩
  obtain ⟨rfl, rfl⟩ := ha.unique (inspects_limitedOptions hpaths)
  obtain ⟨f, _, hfirst, _⟩ := exists_analyzeFile_limitedAnalyzer
  cases hall.symm.trans (Outcome.result_mapM_of_forall₂ (.cons hfirst .nil))
  intro kept hcap r hr hne
  have hkept : Analyzer.capFindings limitedAnalyzer.config.inAll 0 [⟨"/a.rb", blockText, [f]⟩] =
      .ok [⟨"/a.rb", blockText, [f]⟩] := rfl
  cases hcap.symm.trans hkept
  exact ⟨r, hr, rfl, hne⟩

/-- With both files the second one is passed over, and what is in it is found when the first one is mended. -/
theorem run_again_finds_more :
    ((limitedOptions ["/a.rb", "/b.rb"]).run carriageGrammar limitedDisk).result = .ok .clean ∧
    ((limitedOptions ["/a.rb", "/b.rb"]).reporting.run carriageGrammar (limitedDisk.writeAll
      ((limitedOptions ["/a.rb", "/b.rb"]).run carriageGrammar limitedDisk).writes)).result ≠ .ok .clean := by
  have hpaths : ["/a.rb", "/b.rb"] = ["/a.rb"] ∨ ["/a.rb", "/b.rb"] = ["/a.rb", "/b.rb"] := Or.inr rfl
  obtain ⟨hclean, hwrites⟩ := run_limitedOptions hpaths
  refine ⟨hclean, fun hagain => ?_⟩
  have hafter := (inspects_limitedOptions hpaths).after distinct_limitedDisk (follow_ne_limitedOptions hpaths)
  rw [hwrites] at hagain hafter
  obtain ⟨a, files, i, _, ha, _, _, hinspect, hconclude⟩ := result_run_eq_clean.mp hagain
  obtain ⟨rfl, rfl⟩ := ha.unique hafter
  obtain ⟨f, _, _, hsecond⟩ := exists_analyzeFile_limitedAnalyzer
  have hfirst := @Analyzer.result_analyzeFile_of_runRules limitedAnalyzer
    (limitedDisk.writeAll [("/a.rb", Utf8.encode replacedText)]) "/a.rb" replacedText _ (by decide)
    (by decide) (runRules_limitedAnalyzer ▸ runRules_replacedText)
  have hsecond := hsecond (limitedDisk.writeAll [("/a.rb", Utf8.encode replacedText)]) (by decide)
  have hfound := Outcome.result_mapM_of_forall₂ (.cons hfirst (.cons hsecond .nil))
  cases (Analyzer.result_inspect_report hfound rfl).symm.trans hinspect
  -- There is room for the finding of the second file now.
  have hnone := ((@result_conclude_eq_clean (reporting _) _ _ _ nofun).mp hconclude).1
  exact absurd hnone (List.cons_ne_nil _ _)

end IdiomLint.CommandLine.Options
