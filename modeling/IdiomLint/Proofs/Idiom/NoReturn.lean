import IdiomLint.Proofs.Idiom.Writing
import IdiomLint.Proofs.Text.NoReturn

/-!
# Replacements without carriage returns

A replacement is put together from texts of the syntax tree. If none of these has a carriage return in it
(`Value.Clear`), the replacement has none either (`noReturn_of_edit`).
-/

namespace IdiomLint

namespace Value

mutual

/-- No text in the value has a carriage return in it: no kind, no source text and no literal. -/
def Clear : Value → Prop
  | .text s => NoReturn s
  | .tuple items => ClearAll items
  | .node kind children layout =>
    NoReturn kind ∧ (∀ span ∈ layout.extent, NoReturn span.text) ∧ ClearAll children
  | _ => True

/-- No text in the values of a list has a carriage return in it. -/
def ClearAll : List Value → Prop
  | [] => True
  | v :: vs => Clear v ∧ ClearAll vs

end

theorem clearAll_iff {vs : List Value} : ClearAll vs ↔ ∀ v ∈ vs, v.Clear := by
  induction vs with
  | nil => simp [ClearAll]
  | cons v vs ih => rw [ClearAll, ih, List.forall_mem_cons]

mutual

theorem noReturn_of_literal? : ∀ {v : Value}, v.Clear → ∀ s ∈ v.literal?, NoReturn s
  | .nil, _ => by
    intro s h
    cases h
    decide
  | .bool b, _ => by
    intro s h
    cases h
    cases b <;> decide
  | .int n, _ => by
    intro s h
    rw [literal?] at h
    exact Integer.noReturn_of_decimal? h
  | .float x, _ => by
    intro s h
    cases h
    exact Binary64.noReturn_text x
  | .text t, _ => by
    intro s h
    cases h
    exact Quoted.noReturn_quoted t
  | .tuple items, hv => by
    intro s h
    rw [literal?, Option.mem_def, Option.map_eq_some_iff] at h
    obtain ⟨texts, htexts, h⟩ := h
    have hall := noReturn_of_literals? hv texts htexts
    split at h
    · next one =>
      rw [← h]
      exact (NoReturn.append (by decide) (hall one List.mem_cons_self)).append (by decide)
    · rw [← h]
      exact (NoReturn.append (by decide) (noReturn_intercalate (by decide) hall)).append (by decide)
  | .node kind children layout, ⟨hkind, _, hchildren⟩ => by
    intro s h
    rw [literal?, Option.mem_def, Option.map_eq_some_iff] at h
    obtain ⟨parts, hparts, h⟩ := h
    have hall : ∀ t ∈ kind :: parts, NoReturn t :=
      List.forall_mem_cons.mpr ⟨hkind, noReturn_of_expressions? hchildren parts hparts⟩
    rw [← h]
    exact (NoReturn.append (by decide) (noReturn_intercalate (by decide) hall)).append (by decide)

theorem noReturn_of_literals? : ∀ {vs : List Value}, ClearAll vs →
    ∀ texts ∈ literals? vs, ∀ s ∈ texts, NoReturn s
  | [], _ => by
    intro texts h
    cases h
    simp
  | v :: vs, ⟨hv, hvs⟩ => by
    intro texts h
    simp only [literals?, Option.bind_eq_bind, Option.mem_def, Option.bind_eq_some_iff] at h
    obtain ⟨head, hhead, tail, htail, h⟩ := h
    cases h
    exact List.forall_mem_cons.mpr ⟨noReturn_of_literal? hv head hhead, noReturn_of_literals? hvs tail htail⟩

theorem noReturn_of_expressions? : ∀ {vs : List Value}, ClearAll vs →
    ∀ texts ∈ expressions? vs, ∀ s ∈ texts, NoReturn s
  | [], _ => by
    intro texts h
    cases h
    simp
  | .nil :: vs, ⟨_, hvs⟩ => by
    intro texts h
    rw [expressions?, Option.mem_def, Option.map_eq_some_iff] at h
    obtain ⟨tail, htail, rfl⟩ := h
    exact List.forall_mem_cons.mpr ⟨by decide, noReturn_of_expressions? hvs tail htail⟩
  | .text t :: vs, ⟨ht, hvs⟩ => by
    intro texts h
    rw [expressions?, Option.mem_def, Option.map_eq_some_iff] at h
    obtain ⟨tail, htail, rfl⟩ := h
    exact List.forall_mem_cons.mpr ⟨NoReturn.append (by decide) ht, noReturn_of_expressions? hvs tail htail⟩
  | .bool _ :: vs, ⟨hv, hvs⟩ | .int _ :: vs, ⟨hv, hvs⟩ | .float _ :: vs, ⟨hv, hvs⟩
  | .tuple _ :: vs, ⟨hv, hvs⟩ | .node _ _ _ :: vs, ⟨hv, hvs⟩ => by
    intro texts h
    simp only [expressions?, Option.bind_eq_bind, Option.mem_def, Option.bind_eq_some_iff] at h
    obtain ⟨head, hhead, tail, htail, h⟩ := h
    cases h
    exact List.forall_mem_cons.mpr
      ⟨noReturn_of_literal? hv head hhead, noReturn_of_expressions? hvs tail htail⟩

end

theorem noReturn_of_plain? {v : Value} (hv : v.Clear) : ∀ s ∈ v.plain?, NoReturn s := by
  cases v with
  | text t =>
      intro s h
      cases h
      exact hv
  | nil | bool _ | int _ | float _ | tuple _ | node _ _ _ => exact noReturn_of_literal? hv

mutual

/-- All nodes of a clear value are clear. -/
theorem Clear.of_mem_preorder : ∀ {v : Value}, v.Clear → ∀ n ∈ v.preorder, n.toValue.Clear
  | .node kind children layout, h, n, hn => by
    rcases List.mem_cons.mp hn with rfl | hn
    · exact h
    · exact ClearAll.of_mem_preorderAll h.2.2 n hn
  | .nil, _, _, hn | .bool _, _, _, hn | .int _, _, _, hn | .float _, _, _, hn | .text _, _, _, hn
  | .tuple _, _, _, hn => absurd hn List.not_mem_nil

theorem ClearAll.of_mem_preorderAll : ∀ {vs : List Value}, ClearAll vs →
    ∀ n ∈ preorderAll vs, n.toValue.Clear
  | [], _, _, hn => absurd hn List.not_mem_nil
  | v :: vs, h, n, hn => by
    rcases List.mem_append.mp hn with hn | hn
    · exact Clear.of_mem_preorder h.1 n hn
    · exact ClearAll.of_mem_preorderAll h.2 n hn

end

end Value

theorem Node.noReturn_source {n : Node} (h : n.toValue.Clear) : NoReturn n.source := by
  obtain ⟨_, hextent, _⟩ := h
  rw [Node.source]
  cases hlayout : n.layout.extent with
  | none => exact (by decide : NoReturn "")
  | some span => exact hextent span hlayout

namespace Idiom

theorem noReturn_of_optionTexts {options : List Value} : ∀ {s : String}, Value.ClearAll options →
    optionTexts options = .ok s → NoReturn s := by
  induction options with
  | nil =>
      intro s _ h
      cases h
      decide
  | cons v options ih =>
      intro s ⟨hv, hoptions⟩ h
      cases v with
      | node kind children layout =>
          obtain ⟨tail, htail, h⟩ := bind_eq_ok.mp h
          cases h
          exact (NoReturn.append (by decide) (@Node.noReturn_source ⟨kind, children, layout⟩ hv)).append
            (ih hoptions htail)
      | nil | bool _ | int _ | float _ | text _ | tuple _ => exact absurd h (by simp [optionTexts])

theorem noReturn_of_argumentTexts {i : Idiom} {s : String} (hfactory : i.factory.Clear)
    (hoptions : Value.ClearAll i.options) (h : i.argumentTexts = .ok s) : NoReturn s := by
  obtain ⟨factory, count, options, hname, hcount, htexts, rfl⟩ := of_argumentTexts h
  have hname := Value.noReturn_of_plain? hfactory factory hname
  have hcount := Integer.noReturn_of_decimal? hcount
  have hfront := (NoReturn.append (by decide : NoReturn ":") hname).append (by decide : NoReturn ", ")
  exact (hfront.append hcount).append (noReturn_of_optionTexts hoptions htexts)

theorem noReturn_receiverText {i : Idiom} (h : i.receiver.Clear) : NoReturn i.receiverText := by
  rw [receiverText]
  cases hreceiver : i.receiver with
  | node kind children layout =>
      rw [hreceiver] at h
      exact (@Node.noReturn_source ⟨kind, children, layout⟩ h).append (by decide)
  | nil | bool _ | int _ | float _ | text _ | tuple _ => exact (by decide : NoReturn "")

/-- The replacement of a block that is detected in a clear value has no carriage return in it. -/
theorem noReturn_of_edit {v : Value} {i : Idiom} {e : Edit} (hv : v.Clear) (hi : detect v = some i)
    (h : i.edit = .ok e) : NoReturn e.replacement := by
  obtain ⟨_, _, _, _, _, _, rfl, hblock⟩ := block_of_detect hi
  rw [hblock] at hv
  -- The receiver, the factory and the options stand in the call of the body.
  obtain ⟨_, _, _, _, ⟨_, _, hreceiver, _, ⟨_, _, hfactory, _⟩, hoptions⟩, _⟩ := hv
  obtain ⟨text, htext, h⟩ := bind_eq_ok.mp h
  cases h
  obtain ⟨arguments, harguments, rfl⟩ := of_replacement htext
  have hcall : NoReturn (i.receiverText ++ "create_list") :=
    (noReturn_receiverText hreceiver).append (by decide)
  have harguments := noReturn_of_argumentTexts hfactory hoptions harguments
  split
  · exact ((hcall.append (by decide : NoReturn "(")).append harguments).append (by decide)
  · exact (hcall.append (by decide : NoReturn " ")).append harguments

end Idiom

namespace CreateListRule

/-- The edits that the rule offers in a clear tree have no carriage return in them. -/
theorem noReturn_of_visit {path text : String} {tree : Node} {findings : List Finding}
    (htree : tree.toValue.Clear) (h : visit ⟨path, text, some tree⟩ = .ok findings) :
    ∀ f ∈ findings, ∀ e ∈ f.edits, NoReturn e.replacement := by
  intro f hf e he
  obtain ⟨i, hi, hwritten⟩ := exists_mem_of_forall₂ (forall₂_of_mapM h) f hf
  obtain ⟨edit, hedit, hedits, _⟩ := of_finding hwritten
  rw [hedits, List.mem_singleton] at he
  subst he
  rw [idioms, Node.walk_eq_preorder, List.mem_filterMap] at hi
  obtain ⟨n, hn, hdetect⟩ := hi
  exact Idiom.noReturn_of_edit (htree.of_mem_preorder n (List.mem_filter.mp hn).1) hdetect hedit

end CreateListRule

end IdiomLint
