import IdiomLint.Proofs.Idiom.Writing

/-!
# What a replacement copies

A replacement takes the place of a whole block. Of what stands in the block only the receiver and the
options are copied, each with its source text (`Idiom.infix_of_mem_copied`); whatever stands between
them, such as a comment, is gone. The blocks inside a detected one are in the parts that are copied, unless
they are in the name of the factory (`Idiom.nestsAll_of_detect`).
-/

namespace IdiomLint.Idiom

/-- The parts of a block that the replacement copies. -/
def copied (i : Idiom) : List Value := i.receiver :: i.options

theorem infix_receiverText {i : Idiom} {w : Node} (hw : i.receiver = w.toValue) :
    w.source.toList <:+: i.receiverText.toList := by
  rw [receiverText, hw, Node.node?_toValue]
  exact ⟨[], _, by rw [List.nil_append, String.toList_append]⟩

theorem infix_of_mem_options {options : List Value} {w : Node} (hw : w.toValue ∈ options) :
    ∀ {text : String}, optionTexts options = .ok text → w.source.toList <:+: text.toList := by
  induction options with
  | nil => exact absurd hw List.not_mem_nil
  | cons v options ih =>
      intro text h
      cases v with
      | node kind children layout =>
          obtain ⟨tail, htail, h⟩ := bind_eq_ok.mp h
          cases h
          rw [String.toList_append, String.toList_append]
          rcases List.mem_cons.mp hw with hw | hw
          · cases hw
            exact ⟨_, _, rfl⟩
          · exact (ih hw htail).trans (List.suffix_append _ _).isInfix
      | nil | bool _ | int _ | float _ | text _ | tuple _ => exact nomatch h

/-- The source text of a copied part is in the replacement. -/
theorem infix_of_mem_copied {i : Idiom} {text : String} (h : i.replacement = .ok text) {w : Node}
    (hw : w.toValue ∈ i.copied) : w.source.toList <:+: text.toList := by
  obtain ⟨arguments, harguments, htext⟩ := of_replacement h
  have hparts : i.receiverText.toList <:+: text.toList ∧ arguments.toList <:+: text.toList := by
    rw [htext]
    split <;> simp only [String.toList_append, List.append_assoc]
    · exact ⟨(List.prefix_append _ _).isInfix, ⟨i.receiverText.toList ++ "create_list(".toList, ")".toList, by simp⟩⟩
    · exact ⟨(List.prefix_append _ _).isInfix, ⟨i.receiverText.toList ++ "create_list ".toList, [], by simp⟩⟩
  rcases List.mem_cons.mp hw with hreceiver | hoption
  · exact (infix_receiverText hreceiver.symm).trans hparts.1
  · obtain ⟨factory, count, options, _, _, hoptions, rfl⟩ := of_argumentTexts harguments
    refine ((infix_of_mem_options hoption hoptions).trans ?_).trans hparts.2
    rw [String.toList_append]
    exact (List.suffix_append _ _).isInfix

/-- What is detected inside a detected block is detected in the receiver, in the name of the factory or in the
options. -/
theorem nestsAll_of_detect {v : Value} {i : Idiom} (h : detect v = some i) :
    Value.nestsAll i.block.children = i.receiver.nests ++ (i.factory.nests ++ Value.nestsAll i.options) := by
  obtain ⟨countPlace, callLayout, argsPlace, factoryPlace, bodyLayout, layout, _, hblock⟩ := block_of_detect h
  have hnests : ∀ kind children layout, kind ≠ "block" →
      (Value.node kind children layout).nests = Value.nestsAll children := by
    intro kind children layout hkind
    exact Value.nests_of_detect_eq_none (@detect_eq_none ⟨kind, children, layout⟩ hkind)
  rw [hblock]
  simp only [Value.nestsAll]
  rw [hnests "send" _ _ (by decide), hnests "args" _ _ (by decide), hnests "send" _ _ (by decide)]
  simp only [Value.nestsAll]
  rw [hnests "int" _ _ (by decide), hnests "sym" _ _ (by decide)]
  simp [Value.nestsAll, Value.nests]

end IdiomLint.Idiom
