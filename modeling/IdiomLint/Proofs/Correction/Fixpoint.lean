import IdiomLint.Proofs.Analysis.Listing
import IdiomLint.Proofs.Correction.Location
import IdiomLint.Proofs.Correction.Sparing

/-!
# Where a correction ends

A pass accepts the first edit that it is offered, so a text is left as it is only if no finding in it has an
edit. Main statement: a correction that does not make all its passes ends in such a text, and correcting that
text again changes nothing; its findings are those of the text that it ends with, and what it edits on the way
belongs to findings reported in the text at hand (`correctText_settles`).
-/

namespace IdiomLint

namespace Corrector

/-! ## The first edit is accepted -/

theorem mem_accepted_offerAll_of_mem {e : Edit} (es : List Edit) : ∀ {c : Corrector}, e ∈ c.accepted →
    e ∈ (c.offerAll es).1.accepted := by
  induction es with
  | nil => exact fun h => h
  | cons offered es ih =>
      intro c h
      refine ih (c := (c.offer offered).1) ?_
      unfold offer
      split
      · exact h
      · exact List.mem_append_left _ h

/-- Nothing is accepted only if nothing is offered. -/
theorem accepted_offerFindings_eq_nil_iff {text : String} {findings : List Finding} :
    (offerFindings { text } findings).1.accepted = [] ↔ ∀ f ∈ findings, f.edits = [] := by
  rw [← List.flatMap_eq_nil_iff, offerFindings]
  cases findings.flatMap Finding.edits with
  | nil => exact iff_of_true rfl rfl
  | cons e es =>
      have he : e ∈ ({ text : Corrector }.offer e).1.accepted := List.mem_singleton_self e
      exact iff_of_false (List.ne_nil_of_mem (mem_accepted_offerAll_of_mem es he)) (List.cons_ne_nil e es)

end Corrector

/-! ## What is reported -/

/-- Does a limit leave room for what stands at a place in a list of a certain length? A number says how many fit
in at the front, or, if it is negative, how many are left out at the end. Another limit leaves room for
everything or for nothing. -/
def Datum.HasRoom (limit : Datum) (place length : Nat) : Prop :=
  match limit.integer? with
  | some n => if 0 ≤ n then (place : Int) < n else place + n.natAbs < length
  | none => limit.isReachedBy length = .ok false

theorem Datum.hasRoom_of_not_reached {limit : Datum} {place length : Nat} (hplace : place < length)
    (h : limit.isReachedBy length = .ok false) : limit.HasRoom place length := by
  rw [HasRoom]
  split
  · next n hn =>
      rw [isReachedBy_of_integer? hn, Except.ok.injEq, decide_eq_false_iff_not] at h
      rw [if_pos (by omega)]
      omega
  · exact h

/-- What is left of a list stood in it at a place that the limit has room for. -/
theorem Datum.exists_of_mem_cut {α : Type} {limit : Datum} {xs kept : List α} (h : limit.cut xs = .ok kept)
    {x : α} (hx : x ∈ kept) : ∃ place, xs[place]? = some x ∧
      ∀ length, xs.length ≤ length → limit.HasRoom place length := by
  rw [cut] at h
  split at h
  · next n hn =>
      obtain rfl := Except.ok.inj h
      rw [firstItems] at hx
      simp only [HasRoom, hn]
      split at hx
      · next hsign =>
          obtain ⟨place, hlt, hplace⟩ := List.mem_take_iff_getElem.mp hx
          refine ⟨place, List.getElem?_eq_some_iff.mpr ⟨_, hplace⟩, fun length _ => ?_⟩
          rw [if_pos hsign]
          omega
      · next hsign =>
          obtain ⟨place, hlt, hplace⟩ := List.mem_take_iff_getElem.mp hx
          refine ⟨place, List.getElem?_eq_some_iff.mpr ⟨_, hplace⟩, fun length hlength => ?_⟩
          rw [if_neg hsign]
          omega
  · cases h

namespace Analyzer

variable {a : Analyzer} {path text next last : String}

/-- A finding is reported in a text: nothing suppresses it, and the limit for a file leaves room for it among all
that the rules find. -/
structure Reports (a : Analyzer) (path text : String) (f : Finding) : Prop where
  reported : ∃ findings, (a.runRules path text).result = .ok ⟨path, text, findings⟩ ∧ f ∈ findings
  unsuppressed : Suppression.isSuppressed text f.rule f.start = false
  withinLimit : ∃ parse tree place found, a.grammar = some (.ok parse) ∧
    Ruby.convert (Utf8.encode text) (parse text).tree = .ok tree ∧
    (RuleContext.listing ⟨path, text, some tree⟩ a.rules)[place]? = some found ∧ a.withSeverity found = .ok f ∧
    a.config.perFile.HasRoom place (RuleContext.listing ⟨path, text, some tree⟩ a.rules).length

/-- What the loop over the rules keeps stands in the listing at a place that the limit has room for. -/
theorem Collects.exists_place {context : RuleContext} {rules : List Rule} {kept : List Finding}
    (h : a.Collects context [] rules kept) {f : Finding} (hf : f ∈ kept) : ∃ place found,
      (context.listing rules)[place]? = some found ∧ a.withSeverity found = .ok f ∧
        a.config.perFile.HasRoom place (context.listing rules).length := by
  obtain ⟨front, back, graded, hlisting, hgraded, hkept⟩ := h.of_listing
  rw [List.nil_append] at hkept
  have hlength := hgraded.length_eq
  have hplace : ∃ place, graded[place]? = some f ∧
      a.config.perFile.HasRoom place (context.listing rules).length := by
    rw [hlisting, List.length_append, hlength]
    rcases hkept with hcut | ⟨rfl, rfl, hroom⟩
    · obtain ⟨place, hplace, hroom⟩ := Datum.exists_of_mem_cut hcut hf
      exact ⟨place, hplace, hroom _ (Nat.le_add_right _ _)⟩
    · obtain ⟨place, hplace⟩ := List.mem_iff_getElem?.mp hf
      have hroom := hroom.resolve_left (List.ne_nil_of_mem hf)
      have hlt := (List.getElem?_eq_some_iff.mp hplace).1
      exact ⟨place, hplace, Datum.hasRoom_of_not_reached hlt hroom⟩
  obtain ⟨place, hf, hroom⟩ := hplace
  obtain ⟨hlt, hf⟩ := List.getElem?_eq_some_iff.mp hf
  refine ⟨place, front[place], ?_, ?_, hroom⟩
  · rw [hlisting, List.getElem?_append_left (hlength ▸ hlt), List.getElem?_eq_getElem]
  · exact hf ▸ hgraded.get (hlength ▸ hlt) hlt

theorem reports_of_mem {findings : List Finding} (h : (a.runRules path text).result = .ok ⟨path, text, findings⟩)
    {f : Finding} (hf : f ∈ findings) : a.Reports path text f := by
  rcases of_result_runRules h with ⟨_, hnone⟩ | ⟨parse, tree, found, hparse, htree, hfound, hkeep⟩
  · obtain rfl : findings = [] := congrArg FileResult.findings hnone
    exact absurd hf List.not_mem_nil
  · obtain rfl : findings = Suppression.keep text found := congrArg FileResult.findings hkeep
    obtain ⟨hmem, hkept⟩ := List.mem_filter.mp hf
    obtain ⟨place, f₀, hplace⟩ := (collects_of_findingsFrom hfound).exists_place hmem
    exact ⟨⟨_, h, hf⟩, by simpa using hkept, parse, tree, place, f₀, hparse, htree, hplace⟩

/-- What a pass accepts belongs to findings that are reported. -/
theorem Accepts.reports {accepted : List Edit} (h : a.Accepts path text accepted) :
    ∀ e ∈ accepted, ∃ f, a.Reports path text f ∧ e ∈ f.edits := by
  obtain ⟨findings, rfl, hrun⟩ := h
  intro e he
  obtain ⟨f, hf, hedit⟩ := Corrector.mem_accepted_offerFindings he
  exact ⟨f, reports_of_mem hrun hf, hedit⟩

/-! ## The passes that are made -/

theorem Step.exists_accepts (h : a.Step path text next) :
    ∃ accepted, a.Accepts path text accepted ∧ accepted ≠ [] := by
  obtain ⟨result, hresult, hsome, _⟩ := h
  obtain ⟨findings, rfl⟩ := exists_of_result_runRules hresult
  exact ⟨_, ⟨findings, rfl, hresult⟩, hsome⟩

theorem Accepts.unique {accepted accepted' : List Edit} (h : a.Accepts path text accepted)
    (h' : a.Accepts path text accepted') : accepted = accepted' := by
  obtain ⟨findings, rfl, hrun⟩ := h
  obtain ⟨findings', rfl, hrun'⟩ := h'
  cases hrun.symm.trans hrun'
  rfl

/-- There is only one text that a pass makes of a text. -/
theorem Step.unique {next' : String} (h : a.Step path text next) (h' : a.Step path text next') : next = next' := by
  obtain ⟨result, hresult, _, hnext⟩ := h
  obtain ⟨result', hresult', _, hnext'⟩ := h'
  cases hresult.symm.trans hresult'
  exact Except.ok.inj (hnext.symm.trans hnext')

theorem Steps.eq_of_zero (h : a.Steps path 0 text last) : text = last := by
  cases h
  rfl

/-- The text after some of the passes is the one that the next pass is made over. -/
theorem Steps.exists_step {k : Nat} (h : a.Steps path k text last) : ∀ m < k, ∀ t, a.Steps path m text t →
    ∃ next, a.Step path t next := by
  induction h with
  | none => exact fun m hm => absurd hm (Nat.not_lt_zero m)
  | @more k text next last hstep _ ih =>
      intro m hm t hbefore
      cases hbefore with
      | none => exact ⟨next, hstep⟩
      | @more m _ _ _ hfirst hbefore =>
          obtain rfl := hstep.unique hfirst
          exact ih m (Nat.lt_of_succ_lt_succ hm) t hbefore

/-- A text in which no finding has an edit is left as it is. -/
theorem result_correctText_of_edits_nil {findings : List Finding}
    (hrun : (a.runRules path text).result = .ok ⟨path, text, findings⟩) (h : ∀ f ∈ findings, f.edits = []) :
    (a.correctText path text).result = .ok (text, findings) := by
  have hcorrects : a.Corrects path correctionPasses text findings [] text findings :=
    .stable (Corrector.accepted_offerFindings_eq_nil_iff.mpr h)
  exact Outcome.result_bind_eq_ok.mpr ⟨_, hrun, hcorrects.result_correctFrom⟩

/-- A correction gives the findings of the text that it ends with. If none of them has an edit, correcting that
text again changes nothing. The text is another one only if a finding in the first text has an edit. Either all
passes are made or no finding is left that has an edit; each pass accepts an edit, and the edits that it accepts
belong to findings that are reported in the text before it. -/
theorem correctText_settles {findings : List Finding}
    (h : (a.correctText path text).result = .ok (last, findings)) :
    (a.runRules path last).result = .ok ⟨path, last, findings⟩ ∧
    ((∀ f ∈ findings, f.edits = []) → (a.correctText path last).result = .ok (last, findings)) ∧
    (last ≠ text → ∃ first, (a.runRules path text).result = .ok ⟨path, text, first⟩ ∧ ∃ f ∈ first, f.edits ≠ []) ∧
    ∃ k, a.Steps path k text last ∧
      (k = correctionPasses ∨ k < correctionPasses ∧ ∀ f ∈ findings, f.edits = []) ∧
      ∀ m < k, ∀ t, a.Steps path m text t → ∃ accepted, a.Accepts path t accepted ∧ accepted ≠ [] ∧
        ∀ e ∈ accepted, ∃ f, a.Reports path t f ∧ e ∈ f.edits := by
  have hrun := result_of_correctText h
  obtain ⟨k, hk, hsteps, hnone⟩ := steps_of_correctText h
  refine ⟨hrun, result_correctText_of_edits_nil hrun, fun hother => ?_, k, hsteps, ?_, fun m hm t hbefore => ?_⟩
  · cases hsteps with
    | none => exact absurd rfl hother
    | more hstep _ =>
        obtain ⟨_, ⟨first, rfl, hfirst⟩, hsome⟩ := hstep.exists_accepts
        refine ⟨first, hfirst, ?_⟩
        by_contra hedits
        push Not at hedits
        exact hsome (Corrector.accepted_offerFindings_eq_nil_iff.mpr hedits)
  · rcases Nat.lt_or_eq_of_le hk with hlt | heq
    · exact Or.inr ⟨hlt, Corrector.accepted_offerFindings_eq_nil_iff.mp (hnone hlt)⟩
    · exact Or.inl heq
  · obtain ⟨next, hstep⟩ := hsteps.exists_step m hm t hbefore
    obtain ⟨accepted, haccepts, hsome⟩ := hstep.exists_accepts
    exact ⟨accepted, haccepts, hsome, haccepts.reports⟩

/-- Two blocks around a suppressed one are replaced, the outer one first, and then nothing is left to edit. -/
theorem correctText_settles_inside : ∃ findings f,
    ((builtIn insideTrees).correctText "/a.rb" insideText).result = .ok (insideLast, findings) ∧
    ((builtIn insideTrees).runRules "/a.rb" insideLast).result = .ok ⟨"/a.rb", insideLast, findings⟩ ∧
    ((builtIn insideTrees).correctText "/a.rb" insideLast).result = .ok (insideLast, findings) ∧
    (builtIn insideTrees).Reports "/a.rb" insideText f ∧ insideEdit ∈ f.edits := by
  have hpasses : (builtIn insideTrees).Steps "/a.rb" 2 insideText insideLast :=
    .more (step_insideText.mpr rfl) (.more (step_insideNext.mpr rfl) .none)
  obtain ⟨findings, hresult⟩ := exists_result_correctText hpasses accepts_insideLast (by decide)
  obtain ⟨hrun, hagain, _, k, hsteps, _, hmade⟩ := correctText_settles hresult
  have hnone : (Corrector.offerFindings { text := insideLast } findings).1.accepted = [] :=
    Accepts.unique ⟨findings, rfl, hrun⟩ accepts_insideLast
  have hk : 0 < k := by
    rcases Nat.eq_zero_or_pos k with rfl | hk
    · have hother : insideText ≠ insideLast := by decide +kernel
      exact absurd hsteps.eq_of_zero hother
    · exact hk
  obtain ⟨accepted, haccepts, _, hreports⟩ := hmade 0 hk insideText .none
  obtain ⟨_, hconvert, _, _, _, hedits, _⟩ := reads_insideText
  obtain rfl := haccepts.unique (accepts_of_passEdits hconvert hedits)
  obtain ⟨f, hf, hedit⟩ := hreports insideEdit (List.mem_singleton_self _)
  exact ⟨findings, f, hresult, hrun, hagain (Corrector.accepted_offerFindings_eq_nil_iff.mp hnone), hf, hedit⟩

end Analyzer

end IdiomLint
