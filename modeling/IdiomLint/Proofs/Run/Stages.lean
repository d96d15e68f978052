import IdiomLint.Proofs.Run.Writes

/-!
# The stages of a run

A run ends without findings exactly when each of its stages gets through: it finds its configuration, rules and
files (`Options.Inspects`), the inspection succeeds, and the report of it is written, has its form and tells of
nothing (`result_run_eq_clean`). All that such a run writes is written by the inspection (`writes_run`).
-/

namespace IdiomLint.CommandLine.Options

variable {o : Options} {g : Grammar} {d : Disk} {c : Config} {a : Analyzer} {files : List String}
  {rules : List Rule} {i : Inspection}

/-! ## Preparing -/

/-- The files that a run inspects, and the analyzer that it inspects them with. -/
def Inspects (o : Options) (g : Grammar) (d : Disk) (a : Analyzer) (files : List String) : Prop :=
  ∃ path c r rules, o.configPath d = .ok path ∧ (loadConfig d path).result = .ok (some c) ∧
    (o.chooseRules c).result = .ok (r, rules) ∧
    (collectFiles (r.adapter? rubyLanguage) d c o.paths).result = .ok files ∧ a = ⟨some g, rules, c⟩

/-- A run inspects certain files, and with one analyzer. -/
theorem Inspects.unique {a' : Analyzer} {files' : List String} (h : o.Inspects g d a files)
    (h' : o.Inspects g d a' files') : a = a' ∧ files = files' := by
  obtain ⟨path, c, r, rules, hpath, hloaded, hrules, hfiles, rfl⟩ := h
  obtain ⟨path', c', r', rules', hpath', hloaded', hrules', hfiles', rfl⟩ := h'
  cases hpath.symm.trans hpath'
  cases hloaded.symm.trans hloaded'
  cases hrules.symm.trans hrules'
  cases hfiles.symm.trans hfiles'
  exact ⟨rfl, rfl⟩

/-- The only rule there is to choose is the one of the language. -/
theorem eq_of_mem_chooseRules {r : Registry} (h : (o.chooseRules c).result = .ok (r, rules)) :
    ∀ rule ∈ rules, rule = createListRule := by
  have hdiscover : ((({} : Registry).addAdapter rubyLanguage rubyAdapter).discover
      ["factorylint.rules"]).result =
        .ok (⟨[createListRule], [(createListRule.id, createListRule)], [(rubyLanguage, rubyAdapter)]⟩, 1) := rfl
  obtain ⟨⟨found, count⟩, hfound, h⟩ := Outcome.result_bind_eq_ok.mp h
  cases hdiscover.symm.trans (Outcome.result_mapError_eq_ok.mp hfound)
  obtain ⟨_, _, h⟩ := Outcome.result_bind_eq_ok.mp h
  obtain ⟨chosen, hchosen, h⟩ := Outcome.result_bind_eq_ok.mp h
  obtain ⟨_, _, h⟩ := Outcome.result_bind_eq_ok.mp h
  cases h
  have hall : ∀ rule ∈ Registry.rulesFor
      ⟨[createListRule], [(createListRule.id, createListRule)], [(rubyLanguage, rubyAdapter)]⟩ rubyLanguage,
      rule = createListRule := by
    intro rule hrule
    exact List.mem_singleton.mp (List.mem_filter.mp hrule).1
  have hchosen := mapError_eq_ok.mp hchosen
  unfold Registry.enabledRules at hchosen
  split at hchosen
  · cases hchosen
    exact List.forall_mem_nil _
  · split at hchosen
    · cases hchosen
      exact hall
    · exact fun rule hrule => hall rule (mem_of_filterM hchosen rule hrule)

/-! ## Concluding -/

theorem ofFindings_eq_clean {findings : List Finding} : Status.ofFindings findings = .clean ↔ findings = [] := by
  cases findings with
  | nil => exact ⟨fun _ => rfl, fun _ => rfl⟩
  | cons f fs => exact ⟨nofun, nofun⟩

/-- A run that reports ends without findings when there are none and its report is written and has its form. -/
theorem result_conclude_eq_clean (hmode : o.mode ≠ .preview) :
    (o.conclude d rules i).result = .ok .clean ↔
      i.findings = [] ∧ ∃ text, o.write (i.report d rules) = .ok text ∧ o.faults text = [] := by
  rw [conclude, if_neg hmode]
  constructor
  · intro h
    obtain ⟨text, htext, h⟩ := Outcome.result_bind_eq_ok.mp h
    change (if (!(o.faults text).isEmpty) = true then _ else _ : Outcome RunError Status).result = _ at h
    split at h
    · obtain ⟨_, _, h⟩ := Outcome.result_bind_eq_ok.mp h
      cases h
    · next hfaults =>
        obtain ⟨_, _, h⟩ := Outcome.result_bind_eq_ok.mp h
        refine ⟨ofFindings_eq_clean.mp (Except.ok.inj h), text, htext, ?_⟩
        simpa using hfaults
  · rintro ⟨hfindings, text, htext, hfaults⟩
    refine Outcome.result_bind_eq_ok.mpr ⟨text, htext, ?_⟩
    show (if (!(o.faults text).isEmpty) = true then _ else _ : Outcome RunError Status).result = _
    rw [hfaults, if_neg (by simp)]
    refine Outcome.result_bind_eq_ok.mpr ⟨(), rfl, ?_⟩
    rw [hfindings]
    rfl

/-! ## The whole run -/

theorem result_runWith_eq_clean : (o.runWith g d c).result = .ok .clean ↔ ∃ r rules files i,
    (o.chooseRules c).result = .ok (r, rules) ∧
    (collectFiles (r.adapter? rubyLanguage) d c o.paths).result = .ok files ∧ files ≠ [] ∧
    o.checkJobs = .ok () ∧ (Analyzer.inspect ⟨some g, rules, c⟩ d o.mode files).result = .ok i ∧
    (o.conclude d rules i).result = .ok .clean := by
  rw [runWith]
  constructor
  · intro h
    obtain ⟨⟨r, rules⟩, hrules, h⟩ := Outcome.result_bind_eq_ok.mp h
    obtain ⟨files, hfiles, h⟩ := Outcome.result_bind_eq_ok.mp h
    split at h
    · obtain ⟨_, _, h⟩ := Outcome.result_bind_eq_ok.mp h
      cases h
    · next hne =>
        obtain ⟨_, _, h⟩ := Outcome.result_bind_eq_ok.mp h
        obtain ⟨_, hjobs, h⟩ := Outcome.result_bind_eq_ok.mp h
        obtain ⟨i, hi, h⟩ := Outcome.result_bind_eq_ok.mp h
        exact ⟨r, rules, files, i, hrules, Outcome.result_mapError_eq_ok.mp hfiles, by simpa using hne, hjobs,
          Outcome.result_mapError_eq_ok.mp hi, h⟩
  · rintro ⟨r, rules, files, i, hrules, hfiles, hne, hjobs, hi, h⟩
    refine Outcome.result_bind_eq_ok.mpr ⟨(r, rules), hrules, ?_⟩
    refine Outcome.result_bind_eq_ok.mpr ⟨files, Outcome.result_mapError_eq_ok.mpr hfiles, ?_⟩
    rw [if_neg (by simpa using hne)]
    refine Outcome.result_bind_eq_ok.mpr ⟨(), rfl, ?_⟩
    refine Outcome.result_bind_eq_ok.mpr ⟨(), hjobs, ?_⟩
    exact Outcome.result_bind_eq_ok.mpr ⟨i, Outcome.result_mapError_eq_ok.mpr hi, h⟩

/-- A run ends without findings exactly when all of its stages get through and find nothing. -/
theorem result_run_eq_clean : (o.run g d).result = .ok .clean ↔ ∃ a files i, (∃ parse, g = .ok parse) ∧
    o.Inspects g d a files ∧ files ≠ [] ∧ o.checkJobs = .ok () ∧ (a.inspect d o.mode files).result = .ok i ∧
    (o.conclude d a.rules i).result = .ok .clean := by
  cases g with
  | error e =>
      constructor
      · intro h
        obtain ⟨_, _, h⟩ := Outcome.result_bind_eq_ok.mp h
        cases h
      · rintro ⟨_, _, _, ⟨_, hg⟩, _⟩
        cases hg
  | ok parse =>
      rw [run]
      constructor
      · intro h
        obtain ⟨path, hpath, h⟩ := Outcome.result_bind_eq_ok.mp h
        obtain ⟨loaded, hloaded, h⟩ := Outcome.result_bind_eq_ok.mp h
        cases loaded with
        | none => cases h
        | some c =>
            obtain ⟨_, _, h⟩ := Outcome.result_bind_eq_ok.mp h
            obtain ⟨r, rules, files, i, hrules, hfiles, h⟩ := result_runWith_eq_clean.mp h
            exact ⟨_, files, i, ⟨parse, rfl⟩, ⟨path, c, r, rules, hpath, hloaded, hrules, hfiles, rfl⟩, h⟩
      · rintro ⟨_, files, i, _, ⟨path, c, r, rules, hpath, hloaded, hrules, hfiles, rfl⟩, h⟩
        refine Outcome.result_bind_eq_ok.mpr ⟨path, hpath, ?_⟩
        refine Outcome.result_bind_eq_ok.mpr ⟨some c, hloaded, ?_⟩
        refine Outcome.result_bind_eq_ok.mpr ⟨(), rfl, ?_⟩
        exact result_runWith_eq_clean.mpr ⟨r, rules, files, i, hrules, hfiles, h⟩

/-- What a run writes is written by its inspection. -/
theorem writes_run (hg : ∃ parse, g = .ok parse) (ha : o.Inspects g d a files) (hfiles : files ≠ [])
    (hjobs : o.checkJobs = .ok ()) : (o.run g d).writes = (a.inspect d o.mode files).writes := by
  obtain ⟨path, c, r, rules, hpath, hloaded, hrules, hcollected, rfl⟩ := ha
  obtain ⟨parse, rfl⟩ := hg
  have hpath : (Outcome.ofExcept (o.configPath d)).result = .ok path := hpath
  have hjobs : (Outcome.ofExcept o.checkJobs).result = .ok () := hjobs
  have hcollect : Outcome.ReadOnly ((collectFiles (r.adapter? rubyLanguage) d c o.paths).mapError
      (RunError.analysis ∘ AnalysisError.setting)) := readOnly_collectFiles _ _ _ _
  have hwith : (o.runWith (.ok parse) d c).writes =
      (Analyzer.inspect ⟨some (.ok parse), rules, c⟩ d o.mode files).writes := by
    rw [runWith, (readOnly_chooseRules o c).writes_bind hrules]
    show ((collectFiles (r.adapter? rubyLanguage) d c o.paths).mapError _ >>= _).writes = _
    rw [hcollect.writes_bind (Outcome.result_mapError_eq_ok.mpr hcollected), if_neg (by simpa using hfiles),
      (Outcome.readOnly_notify _).writes_bind rfl, (Outcome.readOnly_ofExcept _).writes_bind hjobs,
      Outcome.writes_bind_of_readOnly fun _ => readOnly_conclude _ _ _ _, Outcome.writes_mapError]
  rw [run, (Outcome.readOnly_ofExcept _).writes_bind hpath, (readOnly_loadConfig d path).writes_bind hloaded]
  exact ((Outcome.readOnly_notify _).writes_bind rfl _).trans hwith

end IdiomLint.CommandLine.Options
