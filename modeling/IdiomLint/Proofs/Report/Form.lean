import IdiomLint.Proofs.Json.Acceptance
import IdiomLint.Proofs.Report.Writing

/-!
# The form of written reports

A report is regular if its offsets, counts and times are not below zero and its severities are the usual ones
(`Report.IsRegular`). The form of reports admits the text of every regular report (`admitsText_toJson`), so that nothing
is found wrong with what is read back from it, neither as a whole nor finding by finding (`accepted_of_toJson`). A
regular report is a JSON value if what findings say beyond that is plain data and there can be files of all its paths
(`exists_toJson`).
-/

namespace IdiomLint

/-- A finding whose offsets are not below zero, with one of the usual severities. -/
structure Finding.IsRegular (f : Finding) : Prop where
  start : 0 ≤ f.start
  stop : 0 ≤ f.stop
  edits : ∀ e ∈ f.edits, 0 ≤ e.start ∧ 0 ≤ e.stop
  severity : ∃ s ∈ Report.severities, f.severity = .text s

/-- The names of the times taken. -/
def Report.metricNames : List String := ["parse_ms", "rules_ms", "total_ms"]

/-- A report of regular findings whose counts and times are not below zero. -/
structure Report.IsRegular (r : Report) : Prop where
  findings : ∀ f ∈ r.findings, f.IsRegular
  files : 0 ≤ r.files
  rules : 0 ≤ r.rules
  names : (r.metrics.map (·.1)).Perm metricNames
  times : ∀ m ∈ r.metrics, Schema.isNumber m.2 = true ∧ Schema.isBelow 0 m.2 = false

namespace Report

open Schema

variable {r : Report} {f : Finding} {j : Json} {directory : String} {texts : List (String × String)}

/-! ## Parts of a report -/

theorem admitsText_rangeIn (text : String) (start stop : Int) : rangeForm.AdmitsText (rangeIn text start stop) := by
  have hline : ∀ offset, ((1 : Nat) : Int) ≤ (Position.inBytes (Utf8.encode text) offset).line := by
    intro offset
    exact Int.ofNat_le.mpr (Nat.le_add_left 1 _)
  have hcolumn : ∀ p : Position, ((0 : Nat) : Int) ≤ p.column := fun p => Int.natCast_nonneg _
  refine admitsText_object (by decide) (by simp) ?_ (by simp)
  simp only [List.forall_mem_cons]
  exact ⟨⟨.integer 1, by simp, admitsText_integer (hline start)⟩, ⟨.integer 0, by simp, admitsText_integer (hcolumn _)⟩,
    ⟨.integer 1, by simp, admitsText_integer (hline stop)⟩, ⟨.integer 0, by simp, admitsText_integer (hcolumn _)⟩,
    List.forall_mem_nil _⟩

theorem admitsText_editJson (text : String) {e : Edit} (h : 0 ≤ e.start ∧ 0 ≤ e.stop) :
    editForm.AdmitsText (editJson text e) := by
  refine admitsText_object (by decide) (by simp) ?_ (by simp)
  simp only [List.forall_mem_cons]
  exact ⟨⟨.integer 0, by simp, admitsText_integer h.1⟩, ⟨.integer 0, by simp, admitsText_integer h.2⟩,
    ⟨.string, by simp, admitsText_string _⟩, ⟨rangeForm, by simp, admitsText_rangeIn _ _ _⟩, List.forall_mem_nil _⟩

/-- What a finding has only if there is something to say. -/
structure IsOptional (name : String) (s : Schema) (members : List (String × Json)) : Prop where
  names : members.map (·.1) = [] ∨ members.map (·.1) = [name]
  admits : ∀ m ∈ members, m.1 = name ∧ s.AdmitsText m.2

/-- A finding as JSON: what is known of every finding, its edits and its additional information. -/
theorem findingJson_eq_ok (h : findingJson directory texts f = .ok j) (hf : f.IsRegular) :
    ∃ path severity text autofix extra, severity ∈ severities ∧ IsOptional "autofix" (.array editForm) autofix ∧
      IsOptional "meta" .anyObject extra ∧
      j = .obj ([("rule_id", .str f.rule), ("message", .str f.message), ("file_path", .str path),
        ("uri", .str (Path.address path)), ("start_byte", .int f.start), ("end_byte", .int f.stop),
        ("range", rangeIn text f.start f.stop), ("severity", .str severity),
        ("suppression_hint", .str (suppressionHint f.rule))] ++ autofix ++ extra) := by
  obtain ⟨path, _, h⟩ := bind_eq_ok.mp h
  obtain ⟨details, _, h⟩ := bind_eq_ok.mp h
  obtain ⟨severity, hseverity, h⟩ := bind_eq_ok.mp h
  obtain ⟨s, hs, hdatum⟩ := hf.severity
  rw [hdatum] at hseverity
  cases hseverity
  cases h
  refine ⟨path, s, _, _, _, hs, ?_, ?_, rfl⟩
  · split
    · refine ⟨Or.inr rfl, List.forall_mem_singleton.mpr ⟨rfl, admitsText_array fun e he => ?_⟩⟩
      obtain ⟨edit, hedit, rfl⟩ := List.mem_map.mp he
      exact admitsText_editJson _ (hf.edits edit hedit)
    · exact ⟨Or.inl rfl, List.forall_mem_nil _⟩
  · split
    · exact ⟨Or.inl rfl, List.forall_mem_nil _⟩
    · exact ⟨Or.inr rfl, List.forall_mem_singleton.mpr ⟨rfl, admitsText_anyObject _⟩⟩

theorem admitsText_findingJson (hf : f.IsRegular) (h : findingJson directory texts f = .ok j) :
    findingForm.AdmitsText j := by
  obtain ⟨path, severity, text, autofix, extra, hseverity, hautofix, hextra, rfl⟩ := findingJson_eq_ok h hf
  refine admitsText_object (by decide) ?_ ?_ (by simp)
  · rw [List.map_append, List.map_append]
    rcases hautofix.names with hnames | hnames <;> rcases hextra.names with hnames' | hnames' <;>
      simp [hnames, hnames']
  · simp only [List.forall_mem_append, List.forall_mem_cons]
    refine ⟨⟨⟨⟨.string, by simp, admitsText_string _⟩, ⟨.string, by simp, admitsText_string _⟩,
      ⟨.string, by simp, admitsText_string _⟩, ⟨.string, by simp, admitsText_string _⟩,
      ⟨.integer 0, by simp, admitsText_integer hf.start⟩, ⟨.integer 0, by simp, admitsText_integer hf.stop⟩,
      ⟨rangeForm, by simp, admitsText_rangeIn _ _ _⟩, ⟨.choice severities, by simp, admitsText_choice hseverity⟩,
      ⟨.string, by simp, admitsText_string _⟩, List.forall_mem_nil _⟩, fun m hm => ?_⟩, fun m hm => ?_⟩
    · obtain ⟨hname, hadmits⟩ := hautofix.admits m hm
      exact ⟨_, by rw [hname]; simp, hadmits⟩
    · obtain ⟨hname, hadmits⟩ := hextra.admits m hm
      exact ⟨_, by rw [hname]; simp, hadmits⟩

theorem admitsText_metrics {metrics : Metrics} (hnames : (metrics.map (·.1)).Perm metricNames)
    (htimes : ∀ m ∈ metrics, isNumber m.2 = true ∧ isBelow 0 m.2 = false) : metricsForm.AdmitsText (.obj metrics) := by
  refine admitsText_object (by decide) (hnames.nodup_iff.mpr (by decide)) (fun m hm => ?_) fun name hname =>
    hnames.mem_iff.mpr hname
  have hname : m.1 ∈ metricNames := hnames.mem_iff.mp (List.mem_map_of_mem hm)
  refine ⟨.number 0, ?_, admitsText_number (htimes m hm).1 (htimes m hm).2⟩
  simp only [metricNames, List.mem_cons, List.not_mem_nil, or_false] at hname
  rcases hname with hname | hname | hname <;> simp [hname]

/-- The form of reports admits the text of every regular report. -/
theorem admitsText_toJson (hr : r.IsRegular) (h : r.toJson = .ok j) : form.AdmitsText j := by
  obtain ⟨findings, corrected, hfindings, _, rfl⟩ := toJson_eq_ok.mp h
  have hall : (Schema.array findingForm).AdmitsText (.arr findings) := by
    refine admitsText_array fun j hj => ?_
    obtain ⟨f, hf, hj⟩ := exists_mem_of_forall₂ (forall₂_of_mapM hfindings) j hj
    exact admitsText_findingJson (hr.findings f hf) hj
  have hfiles : IsOptional "corrected_files" (.array .string)
      (if corrected.isEmpty then [] else [("corrected_files", Json.ofStrings corrected)]) := by
    split
    · exact ⟨Or.inl rfl, List.forall_mem_nil _⟩
    · refine ⟨Or.inr rfl, List.forall_mem_singleton.mpr ⟨rfl, admitsText_array fun j hj => ?_⟩⟩
      obtain ⟨file, _, rfl⟩ := List.mem_map.mp hj
      exact admitsText_string file
  generalize (if corrected.isEmpty then [] else _) = corrected at hfiles
  refine admitsText_object (by decide) ?_ ?_ (by simp)
  · rw [List.map_append]
    rcases hfiles.names with hnames | hnames <;> simp [hnames]
  · simp only [List.forall_mem_append, List.forall_mem_cons]
    refine ⟨⟨⟨.string, by simp, admitsText_string _⟩, ⟨.string, by simp, admitsText_string _⟩,
      ⟨.integer 0, by simp, admitsText_integer hr.files⟩, ⟨.integer 0, by simp, admitsText_integer hr.rules⟩,
      ⟨.array findingForm, by simp, hall⟩, ⟨metricsForm, by simp, admitsText_metrics hr.names hr.times⟩,
      List.forall_mem_nil _⟩, fun m hm => ?_⟩
    obtain ⟨hname, hadmits⟩ := hfiles.admits m hm
    exact ⟨_, by rw [hname]; simp, hadmits⟩

/-! ## What is read back -/

/-- What has the form of a report has findings that have their form. -/
theorem findingFaults_of_form (h : form.violations j = []) :
    ∃ findings, j.get? "findings" = some (.arr findings) ∧ findingFaults findings = [] := by
  obtain ⟨member, hmember, hviolations⟩ := @exists_member _ _ _ h "findings" (.array findingForm) (by simp) (by simp)
  obtain ⟨findings, rfl, hall⟩ := exists_items hviolations
  refine ⟨findings, hmember, List.filterMap_eq_nil_iff.mpr fun finding hfinding => ?_⟩
  obtain ⟨j, n⟩ := finding
  simp only [hall j (List.fst_mem_of_mem_zipIdx hfinding)]
  rfl

/-- Nothing is found wrong with what is read back from the text of a regular report. -/
theorem accepted_of_toJson (hr : r.IsRegular) (h : r.toJson = .ok j) (hfit : j.integersFit = true) :
    ∃ back findings, Json.parse? j.render = some back ∧ faults back = [] ∧
      back.get? "findings" = some (.arr findings) ∧ findingFaults findings = [] := by
  obtain ⟨back, hback⟩ := Json.exists_reread? j hfit
  have hform := admitsText_toJson hr h back hback
  obtain ⟨findings, hfindings, hfaults⟩ := findingFaults_of_form hform
  refine ⟨back, findings, (Json.parse?_render j).trans hback, ?_, hfindings, hfaults⟩
  rw [faults, hform, inPathOrder, List.mergeSort_nil, List.map_nil]

theorem faultsOfText_of_write {text : String} (hr : r.IsRegular) (h : r.write .json = .ok text) :
    faultsOfText text = [] := by
  obtain ⟨j, hj, hfit, rfl⟩ := write_json_eq_ok.mp h
  obtain ⟨back, _, hback, hfaults, _⟩ := accepted_of_toJson hr hj hfit
  rw [faultsOfText, hback]
  exact hfaults

theorem times_noTimes : ∀ m ∈ noTimes, isNumber m.2 = true ∧ isBelow 0 m.2 = false := by
  intro m hm
  obtain ⟨name, _, rfl⟩ := List.mem_map.mp hm
  exact ⟨rfl, Json.isBelow_zero_float.mpr fun h => absurd h.2.1 (by decide)⟩

/-- The report on an inspection is regular if its findings are. -/
theorem isRegular_report {i : Inspection} (h : ∀ f ∈ i.findings, f.IsRegular) (d : Disk) (rules : List Rule) :
    (i.report d rules).IsRegular :=
  ⟨h, Int.natCast_nonneg _, Int.natCast_nonneg _, .refl _, times_noTimes⟩

end Report

namespace CommandLine.Options

variable {o : Options} {r : Report} {text : String}

theorem write_eq_ok : o.write r = .ok text ↔ ∃ format, o.format = some format ∧ r.write format = .ok text := by
  rw [write]
  split
  · next format hformat => simp [hformat, mapError_eq_ok]
  · next hformat => simp [hformat]

/-- Nothing is found wrong with a regular report, checked or not. -/
theorem faults_of_write (hr : r.IsRegular) (h : o.write r = .ok text) : o.faults text = [] := by
  obtain ⟨format, hformat, hwrite⟩ := write_eq_ok.mp h
  rw [faults]
  split
  · next hchecked =>
      rw [hformat, Bool.and_eq_true, decide_eq_true_eq, Option.some.injEq] at hchecked
      obtain ⟨_, rfl⟩ := hchecked
      exact Report.faultsOfText_of_write hr hwrite
  · rfl

end CommandLine.Options

end IdiomLint
