import IdiomLint.Pattern.Basic

/-!
# Patterns that the checked constructors accept

`Accepted p` holds when every layer of `p` came out of its checked constructor, and `Built p` when that is
so of the patterns it refers to as well, about which no constructor asks. The first section says what each
constructor demands. What is accepted can be taken apart again into accepted patterns, and it captures no
name twice (`Accepted.nodup_captureNames`).
-/

namespace IdiomLint.Pattern

/-! ## What the checked constructors demand -/

theorem mkCapture_eq_ok {name : String} {inner p : Pattern} :
    mkCapture name inner = .ok p ↔ name ∉ inner.captureNames ∧ p = .capture name inner := by
  unfold mkCapture
  by_cases h : name ∈ inner.captureNames
  · simp [h]
  · simp [h, eq_comm]

/-- No name stands a second time exactly when the names are all different and none was seen before. -/
theorem firstRepeated?_eq_none {seen names : List String} :
    firstRepeated? seen names = none ↔ names.Nodup ∧ ∀ n ∈ names, n ∉ seen := by
  induction names generalizing seen with
  | nil => simp [firstRepeated?]
  | cons name names ih =>
      rw [firstRepeated?]
      by_cases h : name ∈ seen
      · simp [h]
      · simp only [List.contains_iff_mem, h, if_false, ih, List.nodup_cons, List.mem_cons, not_or,
          forall_eq_or_imp]
        constructor
        · rintro ⟨hnodup, hfresh⟩
          exact ⟨⟨fun hmem => (hfresh name hmem).1 rfl, hnodup⟩, id, fun n hn => (hfresh n hn).2⟩
        · rintro ⟨⟨hname, hnodup⟩, -, hfresh⟩
          exact ⟨hnodup, fun n hn => ⟨fun heq => hname (heq ▸ hn), hfresh n hn⟩⟩

theorem mkNode_eq_ok {kind : String} {children : List Pattern} {p : Pattern} :
    mkNode kind children = .ok p ↔
      restBeforeLast children = false ∧ (captureNamesAll children).Nodup ∧
        p = .node kind children := by
  unfold mkNode
  by_cases hrest : restBeforeLast children = true
  · simp [hrest]
  · have hrepeated := @firstRepeated?_eq_none [] (captureNamesAll children)
    cases hfirst : firstRepeated? [] (captureNamesAll children) with
    | none =>
        have hnodup := (hrepeated.mp hfirst).1
        simp [hrest, hnodup, eq_comm]
    | some name =>
        have hnodup : ¬ (captureNamesAll children).Nodup := by
          intro h
          rw [hrepeated.mpr ⟨h, by simp⟩] at hfirst
          exact absurd hfirst (by simp)
        simp [hrest, hnodup]

theorem sameNames_iff {a b : List String} : sameNames a b = true ↔ ∀ n, n ∈ a ↔ n ∈ b := by
  simp only [sameNames, Bool.and_eq_true, List.all_eq_true, List.contains_iff_mem]
  exact ⟨fun h n => ⟨h.1 n, h.2 n⟩, fun h => ⟨fun n => (h n).mp, fun n => (h n).mpr⟩⟩

theorem checkAlternatives_eq_ok {expected : List String} {ps : List Pattern} :
    checkAlternatives expected ps = .ok () ↔
      ∀ p ∈ ps, p.isRest = false ∧ ∀ n, n ∈ p.captureNames ↔ n ∈ expected := by
  induction ps with
  | nil => simp [checkAlternatives]
  | cons p ps ih =>
      rw [checkAlternatives, List.forall_mem_cons, ← sameNames_iff, ← ih]
      by_cases hrest : p.isRest = true
      · simp [hrest]
      · by_cases hsame : sameNames p.captureNames expected = true
        · simp [hrest, hsame]
        · simp [hrest, hsame]

theorem mkOneOf_eq_ok {alternatives : List Pattern} {p : Pattern} :
    mkOneOf alternatives = .ok p ↔
      ∃ first others, alternatives = first :: others ∧ p = .oneOf alternatives ∧
        ∀ a ∈ alternatives, a.isRest = false ∧ ∀ n, n ∈ a.captureNames ↔ n ∈ first.captureNames := by
  cases alternatives with
  | nil => simp [mkOneOf]
  | cons first others =>
      -- The first alternative is compared with itself too, so the check covers all of them.
      have hcheck := @checkAlternatives_eq_ok first.captureNames (first :: others)
      constructor
      · intro h
        cases hc : checkAlternatives first.captureNames (first :: others) with
        | error e =>
            rw [mkOneOf, hc] at h
            exact absurd h (by simp [bind, Except.bind])
        | ok u =>
            rw [mkOneOf, hc] at h
            refine ⟨first, others, rfl, ?_, hcheck.mp hc⟩
            simpa [bind, Except.bind, eq_comm] using h
      · rintro ⟨f, o, heq, rfl, hall⟩
        obtain ⟨rfl, rfl⟩ := List.cons.inj heq
        rw [mkOneOf, hcheck.mpr hall]
        rfl

/-! ## Built patterns -/

/-- Every layer of the pattern was accepted by its checked constructor. -/
inductive Built : Pattern → Prop
  | any : Built .any
  | rest : Built .rest
  | value (v : Value) : Built (.value v)
  | ref (name : String) {target : Pattern} : Built target → Built (.ref name target)
  | capture {name : String} {inner p : Pattern} :
      Built inner → mkCapture name inner = .ok p → Built p
  | node {kind : String} {children : List Pattern} {p : Pattern} :
      (∀ c ∈ children, Built c) → mkNode kind children = .ok p → Built p
  | oneOf {alternatives : List Pattern} {p : Pattern} :
      (∀ a ∈ alternatives, Built a) → mkOneOf alternatives = .ok p → Built p

/-- A capture under a name that is not captured inside. -/
theorem Built.captured {name : String} {inner : Pattern} (h : Built inner)
    (hname : name ∉ inner.captureNames) : Built (.capture name inner) :=
  .capture h (mkCapture_eq_ok.mpr ⟨hname, rfl⟩)

/-- A node whose children capture different names. -/
theorem Built.ofChildren {kind : String} {children : List Pattern} (h : ∀ c ∈ children, Built c)
    (hrest : restBeforeLast children = false) (hnodup : (captureNamesAll children).Nodup) :
    Built (.node kind children) :=
  .node h (mkNode_eq_ok.mpr ⟨hrest, hnodup, rfl⟩)

/-! ## Accepted patterns -/

/-- Every layer of the pattern was accepted by its checked constructor. A reference accepts whatever it
is to refer to, and a thing that is no pattern is accepted as well. -/
inductive Accepted : Pattern → Prop
  | any : Accepted .any
  | rest : Accepted .rest
  | value (v : Value) : Accepted (.value v)
  | never : Accepted .never
  | ref (name : String) (target : Pattern) : Accepted (.ref name target)
  | capture {name : String} {inner p : Pattern} :
      Accepted inner → mkCapture name inner = .ok p → Accepted p
  | node {kind : String} {children : List Pattern} {p : Pattern} :
      (∀ c ∈ children, Accepted c) → mkNode kind children = .ok p → Accepted p
  | oneOf {alternatives : List Pattern} {p : Pattern} :
      (∀ a ∈ alternatives, Accepted a) → mkOneOf alternatives = .ok p → Accepted p

theorem Built.accepted {p : Pattern} (hp : Built p) : Accepted p := by
  induction hp with
  | any => exact .any
  | rest => exact .rest
  | value v => exact .value v
  | ref name _ _ => exact .ref name _
  | capture _ hmk ih => exact .capture ih hmk
  | node _ hmk ih => exact .node ih hmk
  | oneOf _ hmk ih => exact .oneOf ih hmk

theorem Accepted.of_capture {name : String} {inner : Pattern} (h : Accepted (.capture name inner)) :
    Accepted inner ∧ mkCapture name inner = .ok (.capture name inner) := by
  cases h with
  | capture hinner hmk =>
      obtain ⟨_, heq⟩ := mkCapture_eq_ok.mp hmk
      cases heq
      exact ⟨hinner, hmk⟩
  | node _ hmk => exact absurd (mkNode_eq_ok.mp hmk).2.2 (by simp)
  | oneOf _ hmk =>
      obtain ⟨_, _, _, heq, _⟩ := mkOneOf_eq_ok.mp hmk
      exact absurd heq (by simp)

theorem Accepted.of_node {kind : String} {children : List Pattern}
    (h : Accepted (.node kind children)) :
    (∀ c ∈ children, Accepted c) ∧ mkNode kind children = .ok (.node kind children) := by
  cases h with
  | capture _ hmk => exact absurd (mkCapture_eq_ok.mp hmk).2 (by simp)
  | node hchildren hmk =>
      obtain ⟨_, _, heq⟩ := mkNode_eq_ok.mp hmk
      cases heq
      exact ⟨hchildren, hmk⟩
  | oneOf _ hmk =>
      obtain ⟨_, _, _, heq, _⟩ := mkOneOf_eq_ok.mp hmk
      exact absurd heq (by simp)

theorem Accepted.of_oneOf {alternatives : List Pattern} (h : Accepted (.oneOf alternatives)) :
    (∀ a ∈ alternatives, Accepted a) ∧ mkOneOf alternatives = .ok (.oneOf alternatives) := by
  cases h with
  | capture _ hmk => exact absurd (mkCapture_eq_ok.mp hmk).2 (by simp)
  | node _ hmk => exact absurd (mkNode_eq_ok.mp hmk).2.2 (by simp)
  | oneOf hall hmk =>
      obtain ⟨_, _, _, heq, _⟩ := mkOneOf_eq_ok.mp hmk
      cases heq
      exact ⟨hall, hmk⟩

/-- An accepted pattern captures no name twice. -/
theorem Accepted.nodup_captureNames {p : Pattern} (hp : Accepted p) : p.captureNames.Nodup := by
  induction hp with
  | any => simp [captureNames]
  | rest => simp [captureNames]
  | value v => simp [captureNames]
  | never => simp [captureNames]
  | ref name target => simp [captureNames]
  | capture _ hmk ih =>
      obtain ⟨hname, rfl⟩ := mkCapture_eq_ok.mp hmk
      rw [captureNames]
      exact List.nodup_cons.mpr ⟨hname, ih⟩
  | node _ hmk _ =>
      obtain ⟨_, hnodup, rfl⟩ := mkNode_eq_ok.mp hmk
      rw [captureNames]
      exact hnodup
  | oneOf _ hmk ih =>
      obtain ⟨first, others, rfl, rfl, _⟩ := mkOneOf_eq_ok.mp hmk
      rw [captureNames]
      exact ih first (by simp)

end IdiomLint.Pattern
