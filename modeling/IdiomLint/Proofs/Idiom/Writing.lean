import IdiomLint.Proofs.Idiom.Nesting

/-!
# Replacements that can be written

Writing a replacement fails when an integer has too many digits or an argument has no text in the source.
Neither happens in a value that fits (`Value.Fits`): all detected blocks in it have an edit. What has been
written is read apart again by `Idiom.of_replacement` and `Idiom.of_argumentTexts`.
-/

namespace IdiomLint

namespace Value

mutual

/-- All integers in the value can be written in decimal, and the arguments of all calls are nodes. -/
def Fits : Value → Prop
  | .int n => n.natAbs < 10 ^ Integer.digitLimit
  | .tuple items => FitsAll items
  | .node kind children _ =>
    (kind = "send" → ∀ argument ∈ children.drop 2, argument.isNode = true) ∧ FitsAll children
  | _ => True

/-- All values of a list fit. -/
def FitsAll : List Value → Prop
  | [] => True
  | v :: vs => Fits v ∧ FitsAll vs

end

theorem fitsAll_iff {vs : List Value} : FitsAll vs ↔ ∀ v ∈ vs, v.Fits := by
  induction vs with
  | nil => simp [FitsAll]
  | cons v vs ih => rw [FitsAll, ih, List.forall_mem_cons]

theorem decimal?_of_fits {n : Int} (h : Fits (.int n)) : Integer.decimal? n = some (Integer.decimal n) :=
  if_pos h

mutual

/-- A value that fits has a literal. -/
theorem exists_literal : ∀ {v : Value}, v.Fits → ∃ s, v.literal? = some s
  | .nil, _ => ⟨_, rfl⟩
  | .bool _, _ => ⟨_, rfl⟩
  | .int _, h => ⟨_, decimal?_of_fits h⟩
  | .float _, _ => ⟨_, rfl⟩
  | .text _, _ => ⟨_, rfl⟩
  | .tuple items, h => by
    obtain ⟨texts, htexts⟩ := @exists_literals items h
    rw [literal?, htexts]
    exact ⟨_, rfl⟩
  | .node kind children _, h => by
    obtain ⟨texts, htexts⟩ := @exists_expressions children h.2
    rw [literal?, htexts]
    exact ⟨_, rfl⟩

theorem exists_literals : ∀ {vs : List Value}, FitsAll vs → ∃ texts, literals? vs = some texts
  | [], _ => ⟨[], rfl⟩
  | v :: vs, h => by
    obtain ⟨head, hhead⟩ := exists_literal h.1
    obtain ⟨tail, htail⟩ := exists_literals h.2
    rw [literals?, hhead, htail]
    exact ⟨_, rfl⟩

theorem exists_expressions : ∀ {vs : List Value}, FitsAll vs → ∃ texts, expressions? vs = some texts
  | [], _ => ⟨[], rfl⟩
  | v :: vs, h => by
    obtain ⟨head, hhead⟩ := exists_literal h.1
    obtain ⟨tail, htail⟩ := exists_expressions h.2
    cases v with
    | nil | text _ =>
      rw [expressions?, htail]
      exact ⟨_, rfl⟩
    | bool _ | int _ | float _ | tuple _ | node _ _ _ =>
      rw [expressions?, hhead, htail]
      · exact ⟨_, rfl⟩
      all_goals simp

end

theorem exists_plain {v : Value} (h : v.Fits) : ∃ s, v.plain? = some s := by
  cases v with
  | text s => exact ⟨s, rfl⟩
  | nil | bool _ | int _ | float _ | tuple _ | node _ _ _ => exact exists_literal h

end Value

/-- A written replacement is a call with the receiver before it and the arguments after it. -/
theorem Idiom.of_replacement {i : Idiom} {text : String} (h : i.replacement = .ok text) :
    ∃ arguments, i.argumentTexts = .ok arguments ∧
      text = if i.createCall.parenthesized then i.receiverText ++ "create_list" ++ "(" ++ arguments ++ ")"
        else i.receiverText ++ "create_list" ++ " " ++ arguments := by
  obtain ⟨arguments, harguments, h⟩ := bind_eq_ok.mp h
  exact ⟨arguments, harguments, (Except.ok.inj h).symm⟩

/-- Written arguments are the factory, the count and the options. -/
theorem Idiom.of_argumentTexts {i : Idiom} {text : String} (h : i.argumentTexts = .ok text) :
    ∃ factory count options, i.factory.plain? = some factory ∧ Integer.decimal? i.count = some count ∧
      optionTexts i.options = .ok options ∧ text = ":" ++ factory ++ ", " ++ count ++ options := by
  unfold argumentTexts at h
  cases hfactory : i.factory.plain? with
  | none => simp [hfactory, bind, Except.bind] at h
  | some factory =>
      cases hcount : Integer.decimal? i.count with
      | none => simp [hfactory, hcount, bind, Except.bind] at h
      | some count =>
          rw [hfactory, hcount] at h
          change (optionTexts i.options >>= fun tail => .ok (":" ++ factory ++ ", " ++ count ++ tail)) = _ at h
          obtain ⟨options, hoptions, h⟩ := bind_eq_ok.mp h
          exact ⟨factory, count, options, rfl, rfl, hoptions, (Except.ok.inj h).symm⟩

/-- The finding of a block offers the edit of the block, and it begins where the repeating call does. -/
theorem CreateListRule.of_finding {path : String} {i : Idiom} {f : Finding} (h : finding path i = .ok f) :
    ∃ e, i.edit = .ok e ∧ f.edits = [e] ∧ f.rule = id ∧ f.start = i.repeatCall.start := by
  obtain ⟨e, he, h⟩ := bind_eq_ok.mp h
  cases h
  exact ⟨e, mapError_eq_ok.mp he, rfl, rfl, rfl⟩

theorem exists_optionTexts {options : List Value} (h : ∀ v ∈ options, v.isNode = true) :
    ∃ s, Idiom.optionTexts options = .ok s := by
  induction options with
  | nil => exact ⟨"", rfl⟩
  | cons v options ih =>
      rw [List.forall_mem_cons] at h
      obtain ⟨tail, htail⟩ := ih h.2
      cases v with
      | node kind children layout =>
          rw [Idiom.optionTexts, htail]
          exact ⟨_, rfl⟩
      | nil | bool _ | int _ | float _ | text _ | tuple _ => exact absurd h.1 (by simp [Value.isNode, Value.node?])

/-- A block in a value that fits has an edit, which takes the place of the block. -/
theorem Detected.exists_edit {v : Value} {i : Idiom} (h : Detected v i) (hv : v.Fits) :
    ∃ e, i.edit = .ok e ∧ e.start = i.start ∧ e.stop = i.stop := by
  obtain ⟨rfl, hblock⟩ := h
  rw [hblock] at hv
  -- The count and the factory stand in the block, the options among the arguments of its call.
  obtain ⟨_, ⟨_, ⟨_, hcount, _⟩, _⟩, _, ⟨hnodes, _, _, ⟨_, hfactory, _⟩, _⟩, _⟩ := hv
  obtain ⟨name, hname⟩ := Value.exists_plain hfactory
  have hnode : ∀ argument ∈ i.options, argument.isNode = true :=
    fun argument hmem => hnodes rfl argument (List.mem_cons_of_mem _ hmem)
  obtain ⟨options, hoptions⟩ := exists_optionTexts hnode
  have harguments : ∃ s, i.argumentTexts = .ok s := by
    rw [Idiom.argumentTexts, hname, Value.decimal?_of_fits hcount, hoptions]
    exact ⟨_, rfl⟩
  obtain ⟨arguments, harguments⟩ := harguments
  have hreplacement : ∃ s, i.replacement = .ok s := by
    rw [Idiom.replacement, harguments]
    exact ⟨_, rfl⟩
  obtain ⟨replacement, hreplacement⟩ := hreplacement
  refine ⟨⟨i.start, i.stop, replacement⟩, ?_, rfl, rfl⟩
  rw [Idiom.edit, hreplacement]
  rfl

namespace Value

mutual

/-- All nodes of a value that fits do. -/
theorem Fits.of_mem_preorder : ∀ {v : Value}, v.Fits → ∀ n ∈ v.preorder, n.toValue.Fits
  | .node kind children layout, h, n, hn => by
    rcases List.mem_cons.mp hn with rfl | hn
    · exact h
    · exact FitsAll.of_mem_preorderAll h.2 n hn
  | .nil, _, _, hn | .bool _, _, _, hn | .int _, _, _, hn | .float _, _, _, hn | .text _, _, _, hn
  | .tuple _, _, _, hn => absurd hn List.not_mem_nil

theorem FitsAll.of_mem_preorderAll : ∀ {vs : List Value}, FitsAll vs →
    ∀ n ∈ preorderAll vs, n.toValue.Fits
  | [], _, _, hn => absurd hn List.not_mem_nil
  | v :: vs, h, n, hn => by
    rcases List.mem_append.mp hn with hn | hn
    · exact Fits.of_mem_preorder h.1 n hn
    · exact FitsAll.of_mem_preorderAll h.2 n hn

end

/-- Every detected block in a value that fits has an edit, which takes the place of the block. -/
theorem Fits.exists_edit {v : Value} (h : v.Fits) :
    ∀ i ∈ Nest.idiomsAll v.nests, ∃ e, i.edit = .ok e ∧ e.start = i.start ∧ e.stop = i.stop := by
  intro i hi
  rw [idiomsAll_nests, List.mem_filterMap] at hi
  obtain ⟨n, hn, hdetect⟩ := hi
  exact (detected_of_detect hdetect).exists_edit (h.of_mem_preorder n hn)

end Value

end IdiomLint
