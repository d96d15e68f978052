import IdiomLint.Proofs.Fallible
import IdiomLint.Run

/-!
# Written reports

All paths are resolved before a report is written, and a report that is a JSON value is written unless it holds an
integer that cannot be told in decimal text (`write_json_of_toJson`). Without findings there is nothing but the counts
and the paths of the corrected files that could stand in the way (`exists_write_json`).
-/

namespace IdiomLint.Report

variable {r : Report} {text : String}

/-! ## Reports as JSON -/

theorem resolve_eq_ok {directory file path : String} :
    resolve directory file = .ok path ↔ Path.isPossible file = true ∧ Path.resolved directory file = path := by
  rw [resolve]
  split
  · next h => simp [h]
  · next h => simp [h]

theorem mapM_resolve {directory : String} {files : List String} (h : ∀ file ∈ files, Path.isPossible file = true) :
    files.mapM (resolve directory) = .ok (files.map (Path.resolved directory)) :=
  mapM_eq_ok fun file hfile => resolve_eq_ok.mpr ⟨h file hfile, rfl⟩

/-- A finding as JSON has a path that can be. -/
theorem isPossible_of_findingJson {directory : String} {texts : List (String × String)} {f : Finding} {j : Json}
    (h : findingJson directory texts f = .ok j) : Path.isPossible f.file = true := by
  obtain ⟨path, hpath, _⟩ := bind_eq_ok.mp h
  exact (resolve_eq_ok.mp hpath).1

/-- A report as JSON: what is known of every run, and the corrected files if there are any. -/
theorem toJson_eq_ok {j : Json} : r.toJson = .ok j ↔ ∃ findings corrected,
    r.findings.mapM (findingJson r.directory r.texts) = .ok findings ∧
      r.corrected.mapM (resolve r.directory) = .ok corrected ∧
      .obj ([("factorylint.protocol", .str protocolVersion), ("engine_version", .str engineVersion),
        ("files_scanned", .int r.files), ("rules_run", .int r.rules), ("findings", .arr findings),
        ("metrics", .obj r.metrics)] ++
          if corrected.isEmpty then [] else [("corrected_files", Json.ofStrings corrected)]) = j := by
  constructor
  · intro h
    obtain ⟨findings, hfindings, h⟩ := bind_eq_ok.mp h
    obtain ⟨corrected, hcorrected, h⟩ := bind_eq_ok.mp h
    exact ⟨findings, corrected, hfindings, hcorrected, Except.ok.inj h⟩
  · rintro ⟨findings, corrected, hfindings, hcorrected, rfl⟩
    exact bind_eq_ok.mpr ⟨findings, hfindings, bind_eq_ok.mpr ⟨corrected, hcorrected, rfl⟩⟩

theorem isPossible_of_toJson {j : Json} (h : r.toJson = .ok j) :
    ∀ file ∈ r.findings.map (·.file) ++ r.corrected, Path.isPossible file = true := by
  obtain ⟨findings, corrected, hfindings, hcorrected, _⟩ := toJson_eq_ok.mp h
  intro file hfile
  rcases List.mem_append.mp hfile with hfile | hfile
  · obtain ⟨f, hf, rfl⟩ := List.mem_map.mp hfile
    obtain ⟨_, _, hf⟩ := exists_mem_of_forall₂ (forall₂_of_mapM hfindings).flip f hf
    exact isPossible_of_findingJson hf
  · obtain ⟨_, _, hfile⟩ := exists_mem_of_forall₂ (forall₂_of_mapM hcorrected).flip file hfile
    exact (resolve_eq_ok.mp hfile).1

/-- What is written as JSON: the report as a value, if the integers in it can be told. -/
theorem write_json_of_toJson {j : Json} (h : r.toJson = .ok j) :
    r.write .json = if j.integersFit then .ok j.render else .error .integerTooLong := by
  rw [write, toJsonText, mapM_resolve (isPossible_of_toJson h), h]
  dsimp only [bind, Except.bind]
  cases hfit : j.integersFit with
  | true => rw [Json.text?, if_pos hfit, if_pos rfl]; rfl
  | false => rw [Json.text?, hfit]; rfl

theorem write_json_eq_ok : r.write .json = .ok text ↔
    ∃ j, r.toJson = .ok j ∧ j.integersFit = true ∧ j.render = text := by
  constructor
  · intro h
    obtain ⟨_, _, hj⟩ := bind_eq_ok.mp h
    obtain ⟨j, hj, _⟩ := bind_eq_ok.mp hj
    rw [write_json_of_toJson hj] at h
    split at h
    · next hfit => exact ⟨j, hj, hfit, Except.ok.inj h⟩
    · cases h
  · rintro ⟨j, hj, hfit, rfl⟩
    rw [write_json_of_toJson hj, if_pos hfit]

/-- A report without findings is written as text for people, whatever was corrected. -/
theorem exists_write_text (hfindings : r.findings = []) (hmetrics : r.metrics = noTimes) :
    ∃ text, r.write .text = .ok text := by
  obtain ⟨findings, files, rules, metrics, texts, corrected, directory, placed⟩ := r
  obtain rfl := hfindings
  obtain rfl := hmetrics
  have hlines : ((filesWithFindings ⟨[], files, rules, noTimes, texts, corrected, directory, placed⟩).flatMap
      fun file => [].filter fun f : Finding => f.file == file) = [] := by simp
  rw [write, toText, hlines]
  exact ⟨_, rfl⟩

/-- A report without findings is written as JSON, if there can be the corrected files and the counts can be
told. -/
theorem exists_write_json (hfindings : r.findings = []) (hmetrics : r.metrics = noTimes)
    (hcorrected : ∀ file ∈ r.corrected, Path.isPossible file = true)
    (hcounts : r.files.natAbs < 10 ^ Integer.digitLimit ∧ r.rules.natAbs < 10 ^ Integer.digitLimit) :
    ∃ text, r.write .json = .ok text := by
  obtain ⟨findings, files, rules, metrics, texts, corrected, directory, placed⟩ := r
  obtain rfl := hfindings
  obtain rfl := hmetrics
  have htexts : ∀ files : List String, Json.allIntegersFit (files.map .str) = true := by
    intro files
    induction files with
    | nil => rfl
    | cons file files ih => exact ih
  refine ⟨_, write_json_eq_ok.mpr ⟨_, toJson_eq_ok.mpr ⟨[], _, rfl, mapM_resolve hcorrected, rfl⟩, ?_, rfl⟩⟩
  have hrest : ∀ more, Json.memberIntegersFit more = true → Json.integersFit (.obj ([
      ("factorylint.protocol", .str protocolVersion), ("engine_version", .str engineVersion),
      ("files_scanned", .int files), ("rules_run", .int rules), ("findings", .arr []), ("metrics", .obj noTimes)] ++
        more)) = true := by
    intro more hmore
    simp only [List.cons_append, List.nil_append, Json.integersFit, Json.memberIntegersFit, Json.allIntegersFit,
      hcounts.1, hcounts.2, decide_true, hmore, Bool.true_and, Bool.and_true]
    rfl
  apply hrest
  split
  · rfl
  · rw [Json.memberIntegersFit, Json.ofStrings, Json.integersFit, htexts]
    rfl

/-- A report that is written tells its counts in decimal text. -/
theorem counts_lt_of_write (h : r.write .json = .ok text) :
    r.files.natAbs < 10 ^ Integer.digitLimit ∧ r.rules.natAbs < 10 ^ Integer.digitLimit := by
  obtain ⟨j, hj, hfit, _⟩ := write_json_eq_ok.mp h
  obtain ⟨findings, corrected, _, _, rfl⟩ := toJson_eq_ok.mp hj
  simp only [List.cons_append, Json.integersFit, Json.memberIntegersFit, Bool.and_eq_true, decide_eq_true_eq] at hfit
  exact ⟨hfit.2.2.1, hfit.2.2.2.1⟩

end IdiomLint.Report
