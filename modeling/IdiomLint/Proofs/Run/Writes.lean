import IdiomLint.Proofs.Correction.Writes
import IdiomLint.Proofs.File.Collection

/-!
# What a run writes

Nothing but the corrections of a run writes files: preparing and reporting are free of writes. Main
statement: whatever a run writes is the corrected text of a file that was read (`mem_writes_run`).
-/

namespace IdiomLint

open Outcome (ReadOnly)

namespace Registry

theorem readOnly_addPackage (r : Registry) (name : String) : (r.addPackage name).ReadOnly := by
  unfold addPackage
  split
  · rfl
  · rfl
  · exact (Outcome.readOnly_notify _).bind fun _ => Outcome.readOnly_pure _

theorem readOnly_foldlM_addPackage (names : List String) : ∀ r : Registry,
    (names.foldlM addPackage r).ReadOnly := by
  induction names with
  | nil => exact fun r => Outcome.readOnly_pure _
  | cons name names ih =>
      intro r
      rw [List.foldlM_cons]
      exact (readOnly_addPackage r name).bind ih

end Registry

namespace CommandLine

theorem readOnly_loadConfig (d : Disk) (path : Option String) : (loadConfig d path).ReadOnly := by
  have hload : (Config.load d (path.getD "")).ReadOnly := by
    unfold Config.load
    split
    · exact Outcome.readOnly_pure _
    · split
      · rfl
      · refine (Outcome.readOnly_ofExcept _).bind fun config => ?_
        exact (Outcome.readOnly_notify _).bind fun _ => Outcome.readOnly_pure _
  rw [loadConfig]
  split
  · rw [ReadOnly, Outcome.writes, List.filterMap_append]
    rw [ReadOnly, Outcome.writes] at hload
    rw [hload]
    rfl
  · rw [← bind_pure_comp]
    exact Outcome.ReadOnly.bind hload fun _ => Outcome.readOnly_pure _

theorem Options.readOnly_chooseRules (o : Options) (c : Config) : (o.chooseRules c).ReadOnly := by
  unfold chooseRules
  refine Outcome.ReadOnly.bind ?_ fun found => ?_
  · exact (Registry.readOnly_foldlM_addPackage _ _).bind fun _ => Outcome.readOnly_pure _
  · refine (Outcome.readOnly_notify _).bind fun _ => ?_
    refine (Outcome.readOnly_ofExcept _).bind fun rules => ?_
    exact (Outcome.readOnly_notify _).bind fun _ => Outcome.readOnly_pure _

theorem Options.readOnly_conclude (o : Options) (d : Disk) (rules : List Rule) (i : Inspection) :
    (o.conclude d rules i).ReadOnly := by
  have hprint : ∀ text, (Outcome.emit (.print text) : Outcome RunError Unit).ReadOnly := fun _ => rfl
  unfold conclude
  split
  · exact (hprint _).bind fun _ => Outcome.readOnly_pure _
  · refine (Outcome.readOnly_ofExcept _).bind fun text => ?_
    show ReadOnly (if (!(o.faults text).isEmpty) = true then _ else _)
    split
    · exact (Outcome.readOnly_notifyAll _).bind fun _ => Outcome.readOnly_pure _
    · exact (hprint _).bind fun _ => Outcome.readOnly_pure _

/-- The analyzer that a run uses. -/
def Options.Analyzes (o : Options) (g : Grammar) (d : Disk) (a : Analyzer) : Prop :=
  ∃ path c r rules, o.configPath d = .ok path ∧ (loadConfig d path).result = .ok (some c) ∧
    (o.chooseRules c).result = .ok (r, rules) ∧ a = ⟨some g, rules, c⟩

theorem Options.mem_writes_runWith {o : Options} {g : Grammar} {d : Disk} {c : Config}
    {w : String × List UInt8} (h : w ∈ (o.runWith g d c).writes) :
    ∃ r rules files, (o.chooseRules c).result = .ok (r, rules) ∧
      (collectFiles (r.adapter? rubyLanguage) d c o.paths).result = .ok files ∧
      w ∈ (Analyzer.inspect ⟨some g, rules, c⟩ d o.mode files).writes := by
  rw [runWith] at h
  obtain ⟨⟨r, rules⟩, hrules, h⟩ := (readOnly_chooseRules o c).of_mem_writes_bind h
  have hcollect : ReadOnly ((collectFiles (r.adapter? rubyLanguage) d c o.paths).mapError
      (RunError.analysis ∘ AnalysisError.setting)) := readOnly_collectFiles _ _ _ _
  obtain ⟨files, hfiles, h⟩ := hcollect.of_mem_writes_bind h
  refine ⟨r, rules, files, hrules, Outcome.result_mapError_eq_ok.mp hfiles, ?_⟩
  split at h
  · exact absurd h List.not_mem_nil
  · obtain ⟨_, _, h⟩ := (Outcome.readOnly_notify _).of_mem_writes_bind h
    obtain ⟨_, _, h⟩ := (Outcome.readOnly_ofExcept _).of_mem_writes_bind h
    rw [Outcome.writes_bind_of_readOnly fun i => readOnly_conclude o d rules i] at h
    exact h

/-- What a run writes are corrections of files that were read. -/
theorem Options.mem_writes_run {o : Options} {g : Grammar} {d : Disk} {w : String × List UInt8}
    (h : w ∈ (o.run g d).writes) :
    ∃ a path text last remaining, o.Analyzes g d a ∧ d.readText (d.absolute path) = .ok text ∧
      (a.correctText (d.absolute path) text).result = .ok (last, remaining) ∧
      w = (d.absolute path, Utf8.encode last) := by
  rw [run.eq_def] at h
  split at h
  · exact absurd h List.not_mem_nil
  · obtain ⟨path, hpath, h⟩ := (Outcome.readOnly_ofExcept _).of_mem_writes_bind h
    obtain ⟨loaded, hloaded, h⟩ := (readOnly_loadConfig d path).of_mem_writes_bind h
    cases loaded with
    | none => exact absurd h List.not_mem_nil
    | some c =>
        obtain ⟨_, _, h⟩ := (Outcome.readOnly_notify _).of_mem_writes_bind h
        obtain ⟨r, rules, files, hrules, hfiles, h⟩ := mem_writes_runWith h
        obtain ⟨file, hfile, text, last, remaining, hread, hlast, rfl⟩ := Analyzer.mem_writes_inspect h
        -- Collected paths are absolute, so the file is found where it was read.
        obtain ⟨p, rfl⟩ := absolute_of_collectFiles hfiles file hfile
        exact ⟨⟨some _, rules, c⟩, p, text, last, remaining,
          ⟨path, c, r, rules, hpath, hloaded, hrules, rfl⟩, hread, hlast, rfl⟩

end CommandLine

end IdiomLint
