import IdiomLint.Idiom.CreateList
import IdiomLint.Pattern.Matcher
import IdiomLint.Proofs.Pattern.Matching

/-!
# What a detected block looks like

A `RepeatForm` is a block without parameters on `n.times`, around a call of `create`, given by its parts.
`detect` finds something in a value exactly when the value is such a block, and the idiom it gives has the
parts of that block (`detect_eq_some_iff`).
-/

namespace IdiomLint

namespace Pattern

/-! ## What has a meaning -/

variable {kind : String} {p : Pattern} {ps : List Pattern} {v : Value} {vs : List Value} {found : Bindings}

theorem meaning_node_eq_some : meaning (.node kind ps) v = some found ↔
    ∃ vs layout, v = .node kind vs layout ∧ layout.fixed = true ∧ meaningChildren ps vs = some found := by
  cases v with
  | node k vs layout =>
      rw [meaning, Option.ite_none_right_eq_some, Bool.and_eq_true, beq_iff_eq]
      constructor
      · rintro ⟨⟨rfl, hfixed⟩, h⟩
        exact ⟨vs, layout, rfl, hfixed, h⟩
      · rintro ⟨_, _, heq, hfixed, h⟩
        cases heq
        exact ⟨⟨rfl, hfixed⟩, h⟩
  | nil | bool _ | int _ | float _ | text _ | tuple _ => simp [meaning]

theorem meaning_text_eq_some {s : String} :
    meaning (.value (.text s)) v = some found ↔ v = .text s ∧ found = [] := by
  rw [meaning, Option.ite_none_right_eq_some, Bool.and_eq_true, Option.some.injEq, @eq_comm _ found]
  refine and_congr_left fun _ => ?_
  cases v with
  | text t => simp [Value.sameSort, Value.same, Value.sameLiteral]
  | nil | bool _ | int _ | float _ | tuple _ | node _ _ _ => simp [Value.sameSort]

theorem meaning_nil_eq_some : meaning (.value .nil) v = some found ↔ v = .nil ∧ found = [] := by
  rw [meaning, Option.ite_none_right_eq_some, Bool.and_eq_true, Option.some.injEq, @eq_comm _ found]
  refine and_congr_left fun _ => ?_
  cases v with
  | nil => simp [Value.sameSort, Value.same, Value.sameLiteral]
  | text _ | bool _ | int _ | float _ | tuple _ | node _ _ _ => simp [Value.sameSort]

theorem meaning_any_eq_some : meaning .any v = some found ↔ found = [] := by
  rw [meaning, Option.some.injEq, eq_comm]

theorem meaning_capture_eq_some {name : String} : meaning (.capture name p) v = some found ↔
    ∃ inner, meaning p v = some inner ∧ found = inner ++ [(name, v)] := by
  rw [meaning, Option.map_eq_some_iff]
  simp only [eq_comm]

theorem meaning_ref_eq_some {name : String} : meaning (.ref name p) v = some found ↔
    (∃ inner, meaning p v = some inner) ∧ found = [] := by
  rw [meaning, Option.map_eq_some_iff]
  constructor
  · rintro ⟨inner, hinner, rfl⟩
    exact ⟨⟨inner, hinner⟩, rfl⟩
  · rintro ⟨⟨inner, hinner⟩, rfl⟩
    exact ⟨inner, hinner, rfl⟩

theorem meaningChildren_nil_eq_some : meaningChildren [] vs = some found ↔ vs = [] ∧ found = [] := by
  cases vs with
  | nil => rw [meaningChildren, Option.some.injEq, eq_comm, and_iff_right rfl]
  | cons v vs => simp [meaningChildren]

theorem meaningChildren_rest_eq_some : meaningChildren [.rest] vs = some found ↔ found = [] := by
  rw [meaningChildren_rest, Option.some.injEq, eq_comm]

theorem meaningChildren_captured_rest_eq_some {name : String} :
    meaningChildren [.capture name .rest] vs = some found ↔ found = [(name, .tuple vs)] := by
  rw [meaningChildren_captured_rest, Option.some.injEq, eq_comm]

/-- A pattern that is no rest takes the first child, and the others take the rest of them. -/
theorem meaningChildren_cons_eq_some (hp : p.isRest = false) : meaningChildren (p :: ps) vs = some found ↔
    ∃ v vs' head tail, vs = v :: vs' ∧ meaning p v = some head ∧ meaningChildren ps vs' = some tail ∧
      found = head ++ tail := by
  have hends : ¬ EndsInRest p ps := fun hend => by
    rw [EndsInRest, hp] at hend
    exact Bool.false_ne_true hend.1
  cases vs with
  | nil => simp [meaningChildren_cons_nil hends]
  | cons v vs =>
      rw [meaningChildren_cons_cons hends, Option.bind_eq_some_iff]
      constructor
      · rintro ⟨head, hhead, h⟩
        obtain ⟨tail, htail, rfl⟩ := Option.map_eq_some_iff.mp h
        exact ⟨v, vs, head, tail, rfl, hhead, htail, rfl⟩
      · rintro ⟨_, _, head, tail, heq, hhead, htail, rfl⟩
        cases heq
        exact ⟨head, hhead, Option.map_eq_some_iff.mpr ⟨tail, htail, rfl⟩⟩

end Pattern

open Pattern

/-! ## The patterns of the idiom -/

/-- The matcher of the calls `n.times`. -/
def repeatMatcher : Matcher := ⟨"n_times", "(send $count_node=(int $count=_) :times)", repeatPattern⟩

/-- The matcher of the blocks without parameters on such a call. -/
def blockMatcher : Matcher := ⟨"times_block_without_args", "(block #n_times (args) ...)", blockPattern⟩

/-- The matcher of the calls of `create`. -/
def createMatcher : Matcher :=
  ⟨"factory_call", "(send $receiver=\x7b(const nil _) nil\x7d :create (sym $factory=_) $options=...)", createPattern⟩

/-- The patterns of the idiom are what their notation reads as. -/
theorem ofText_matchers : Matcher.ofText repeatMatcher.name repeatMatcher.source [] = .ok repeatMatcher ∧
    Matcher.ofText blockMatcher.name blockMatcher.source [("n_times", .matcher repeatMatcher)] = .ok blockMatcher ∧
    Matcher.ofText createMatcher.name createMatcher.source [] = .ok createMatcher := by
  with_unfolding_all exact ⟨rfl, rfl, rfl⟩

theorem built_repeatPattern : Built repeatPattern := by
  have hcount : Built (.capture "count" .any) := Built.any.captured (by simp [captureNames])
  have hint : Built (.node "int" [.capture "count" .any]) :=
    .ofChildren (by simp [hcount]) rfl (by simp [captureNamesAll, captureNames])
  have hnode : Built (.capture "count_node" (.node "int" [.capture "count" .any])) :=
    hint.captured (by simp [captureNamesAll, captureNames])
  exact .ofChildren (by simp [hnode, Built.value]) rfl (by simp [captureNamesAll, captureNames])

theorem built_blockPattern : Built blockPattern := by
  have hargs : Built (.node "args" []) := .ofChildren (by simp) rfl (by simp [captureNamesAll])
  have hcall : Built (.ref "n_times" repeatPattern) := .ref _ built_repeatPattern
  exact .ofChildren (by simp [hargs, hcall, Built.rest]) rfl (by simp [captureNamesAll, captureNames])

/-- What the receiver of the call may be. -/
theorem built_receivers : Built (.oneOf [.node "const" [.value .nil, .any], .value .nil]) := by
  have hconst : Built (.node "const" [.value .nil, .any]) :=
    .ofChildren (by simp [Built.value, Built.any]) rfl (by simp [captureNamesAll, captureNames])
  refine .oneOf (by simp [hconst, Built.value]) (mkOneOf_eq_ok.mpr ⟨_, _, rfl, rfl, ?_⟩)
  simp [isRest, captureNames, captureNamesAll]

theorem built_createPattern : Built createPattern := by
  have hreceiver : Built (.capture "receiver"
      (.oneOf [.node "const" [.value .nil, .any], .value .nil])) :=
    built_receivers.captured (by simp [captureNames, captureNamesAll])
  have hfactory : Built (.capture "factory" .any) := Built.any.captured (by simp [captureNames])
  have hsym : Built (.node "sym" [.capture "factory" .any]) :=
    .ofChildren (by simp [hfactory]) rfl (by simp [captureNamesAll, captureNames])
  have hoptions : Built (.capture "options" .rest) := Built.rest.captured (by simp [captureNames])
  exact .ofChildren (by simp [hreceiver, hsym, hoptions, Built.value]) rfl
    (by simp [captureNamesAll, captureNames])

theorem match?_repeatPattern_eq_some {v : Value} {found : Bindings} : repeatPattern.match? v = some found ↔
    ∃ count place layout, place.fixed = true ∧ layout.fixed = true ∧
      v = .node "send" [.node "int" [count] place, .text "times"] layout ∧
      found = [("count", count), ("count_node", .node "int" [count] place)] := by
  rw [built_repeatPattern.accepted.match?_eq]
  constructor
  · intro h
    obtain ⟨vs, layout, rfl, hlayout, hchildren⟩ := meaning_node_eq_some.mp h
    obtain ⟨number, vs, _, _, rfl, hnumber, hmethod, rfl⟩ := (meaningChildren_cons_eq_some rfl).mp hchildren
    obtain ⟨_, hint, rfl⟩ := meaning_capture_eq_some.mp hnumber
    obtain ⟨ws, place, rfl, hplace, hliteral⟩ := meaning_node_eq_some.mp hint
    obtain ⟨count, ws, _, _, rfl, hcount, hnoLiteral, rfl⟩ := (meaningChildren_cons_eq_some rfl).mp hliteral
    obtain ⟨_, hany, rfl⟩ := meaning_capture_eq_some.mp hcount
    obtain ⟨rfl, rfl⟩ := meaningChildren_nil_eq_some.mp hnoLiteral
    obtain ⟨method, vs, _, _, rfl, htimes, hnoArgument, rfl⟩ := (meaningChildren_cons_eq_some rfl).mp hmethod
    obtain ⟨rfl, rfl⟩ := meaning_text_eq_some.mp htimes
    obtain ⟨rfl, rfl⟩ := meaningChildren_nil_eq_some.mp hnoArgument
    exact ⟨count, place, layout, hplace, hlayout, rfl, by rw [meaning_any_eq_some.mp hany]; rfl⟩
  · rintro ⟨count, place, layout, hplace, hlayout, rfl, rfl⟩
    simp [repeatPattern, meaning, meaningChildren, isRest, hplace, hlayout, Value.sameSort, Value.same,
      Value.sameLiteral]

theorem match?_blockPattern_eq_some {v : Value} {found : Bindings} : blockPattern.match? v = some found ↔
    ∃ call place rest layout, (∃ inner, repeatPattern.match? call = some inner) ∧ place.fixed = true ∧
      layout.fixed = true ∧ v = .node "block" (call :: .node "args" [] place :: rest) layout ∧ found = [] := by
  rw [built_blockPattern.accepted.match?_eq]
  simp only [built_repeatPattern.accepted.match?_eq]
  constructor
  · intro h
    obtain ⟨vs, layout, rfl, hlayout, hchildren⟩ := meaning_node_eq_some.mp h
    obtain ⟨call, vs, _, _, rfl, hcall, hrest, rfl⟩ := (meaningChildren_cons_eq_some rfl).mp hchildren
    obtain ⟨hinner, rfl⟩ := meaning_ref_eq_some.mp hcall
    obtain ⟨args, vs, _, _, rfl, hargs, hothers, rfl⟩ := (meaningChildren_cons_eq_some rfl).mp hrest
    obtain ⟨ws, place, rfl, hplace, hnone⟩ := meaning_node_eq_some.mp hargs
    obtain ⟨rfl, rfl⟩ := meaningChildren_nil_eq_some.mp hnone
    exact ⟨call, place, vs, layout, hinner, hplace, hlayout, rfl, meaningChildren_rest_eq_some.mp hothers⟩
  · rintro ⟨call, place, rest, layout, ⟨inner, hinner⟩, hplace, hlayout, rfl, rfl⟩
    simp [blockPattern, meaning, meaningChildren, isRest, hplace, hlayout, hinner]

/-- What the call of `create` may be made on: nothing, or a constant that stands in no other one. -/
def IsReceiver (v : Value) : Prop :=
  v = .nil ∨ ∃ name layout, layout.fixed = true ∧ v = .node "const" [.nil, name] layout

/-- The receiver of the call is looked at, but nothing inside it is captured. -/
theorem meaning_receivers_eq_some {v : Value} {found : Bindings} :
    meaning (.oneOf [.node "const" [.value .nil, .any], .value .nil]) v = some found ↔
      IsReceiver v ∧ found = [] := by
  rw [meaning, meaningFirst, meaningFirst, meaningFirst, Option.or_none, Option.or_eq_some_iff]
  constructor
  · rintro (h | ⟨_, h⟩)
    · obtain ⟨vs, layout, rfl, hlayout, hchildren⟩ := meaning_node_eq_some.mp h
      obtain ⟨scope, vs, _, _, rfl, hscope, hname, rfl⟩ := (meaningChildren_cons_eq_some rfl).mp hchildren
      obtain ⟨rfl, rfl⟩ := meaning_nil_eq_some.mp hscope
      obtain ⟨name, vs, _, _, rfl, hany, hnone, rfl⟩ := (meaningChildren_cons_eq_some rfl).mp hname
      obtain ⟨rfl, rfl⟩ := meaningChildren_nil_eq_some.mp hnone
      exact ⟨.inr ⟨name, layout, hlayout, rfl⟩, by rw [meaning_any_eq_some.mp hany]; rfl⟩
    · obtain ⟨rfl, rfl⟩ := meaning_nil_eq_some.mp h
      exact ⟨.inl rfl, rfl⟩
  · rintro ⟨rfl | ⟨name, layout, hlayout, rfl⟩, rfl⟩
    · right
      simp [meaning, Value.sameSort, Value.same, Value.sameLiteral]
    · left
      simp [meaning, meaningChildren, isRest, hlayout, Value.sameSort, Value.same, Value.sameLiteral]

theorem match?_createPattern_eq_some {v : Value} {found : Bindings} : createPattern.match? v = some found ↔
    ∃ receiver factory place options layout, IsReceiver receiver ∧ place.fixed = true ∧ layout.fixed = true ∧
      v = .node "send" (receiver :: .text "create" :: .node "sym" [factory] place :: options) layout ∧
      found = [("receiver", receiver), ("factory", factory), ("options", .tuple options)] := by
  rw [built_createPattern.accepted.match?_eq]
  constructor
  · intro h
    obtain ⟨vs, layout, rfl, hlayout, hchildren⟩ := meaning_node_eq_some.mp h
    obtain ⟨receiver, vs, _, _, rfl, hcapture, hmethod, rfl⟩ := (meaningChildren_cons_eq_some rfl).mp hchildren
    obtain ⟨_, hinner, rfl⟩ := meaning_capture_eq_some.mp hcapture
    obtain ⟨hreceiver, rfl⟩ := meaning_receivers_eq_some.mp hinner
    obtain ⟨method, vs, _, _, rfl, hcreate, harguments, rfl⟩ := (meaningChildren_cons_eq_some rfl).mp hmethod
    obtain ⟨rfl, rfl⟩ := meaning_text_eq_some.mp hcreate
    obtain ⟨sym, options, _, _, rfl, hsym, hoptions, rfl⟩ := (meaningChildren_cons_eq_some rfl).mp harguments
    obtain ⟨ws, place, rfl, hplace, hname⟩ := meaning_node_eq_some.mp hsym
    obtain ⟨factory, ws, _, _, rfl, hfactory, hnone, rfl⟩ := (meaningChildren_cons_eq_some rfl).mp hname
    obtain ⟨_, hany, rfl⟩ := meaning_capture_eq_some.mp hfactory
    obtain ⟨rfl, rfl⟩ := meaningChildren_nil_eq_some.mp hnone
    refine ⟨receiver, factory, place, options, layout, hreceiver, hplace, hlayout, rfl, ?_⟩
    rw [meaning_any_eq_some.mp hany, meaningChildren_captured_rest_eq_some.mp hoptions]
    rfl
  · rintro ⟨receiver, factory, place, options, layout, hreceiver, hplace, hlayout, rfl, rfl⟩
    have hinner := meaning_receivers_eq_some.mpr ⟨hreceiver, rfl⟩
    refine meaning_node_eq_some.mpr ⟨_, layout, rfl, hlayout, ?_⟩
    refine (meaningChildren_cons_eq_some rfl).mpr ⟨receiver, _, _,
      [("factory", factory), ("options", .tuple options)], rfl, meaning_capture_eq_some.mpr ⟨_, hinner, rfl⟩, ?_, rfl⟩
    simp [meaning, meaningChildren, isRest, hplace, Value.sameSort, Value.same, Value.sameLiteral]

/-! ## Detected blocks -/

/-- A block without parameters on `n.times`, around a call of `create`, by its parts. -/
structure RepeatForm where
  count : Int
  receiver : Value
  factory : Value
  /-- The arguments after the name of the factory. -/
  options : List Value
  countLayout : Layout
  callLayout : Layout
  argsLayout : Layout
  factoryLayout : Layout
  createLayout : Layout
  blockLayout : Layout

namespace RepeatForm

/-- The integer literal. -/
def countNode (f : RepeatForm) : Node := ⟨"int", [.int f.count], f.countLayout⟩

/-- The call `n.times`. -/
def repeatCall (f : RepeatForm) : Node := ⟨"send", [f.countNode.toValue, .text "times"], f.callLayout⟩

/-- The call of `create`. -/
def createCall (f : RepeatForm) : Node :=
  ⟨"send", f.receiver :: .text "create" :: .node "sym" [f.factory] f.factoryLayout :: f.options, f.createLayout⟩

/-- The whole block. -/
def block (f : RepeatForm) : Node :=
  ⟨"block", [f.repeatCall.toValue, .node "args" [] f.argsLayout, f.createCall.toValue], f.blockLayout⟩

/-- The idiom with these parts. -/
def idiom (f : RepeatForm) : Idiom where
  block := f.block
  repeatCall := f.repeatCall
  countNode := f.countNode
  count := f.count
  createCall := f.createCall
  receiver := f.receiver
  factory := f.factory
  options := f.options

/-- The call is made on nothing or on a plain constant, and the children of every node are fixed. -/
structure Proper (f : RepeatForm) : Prop where
  receiver : IsReceiver f.receiver
  count : f.countLayout.fixed = true
  call : f.callLayout.fixed = true
  args : f.argsLayout.fixed = true
  factory : f.factoryLayout.fixed = true
  create : f.createLayout.fixed = true
  block : f.blockLayout.fixed = true

/-- A block of the form is detected, with its parts. -/
theorem Proper.detect {f : RepeatForm} (h : f.Proper) : detect f.block.toValue = some f.idiom := by
  have hrepeat := match?_repeatPattern_eq_some.mpr
    ⟨.int f.count, f.countLayout, f.callLayout, h.count, h.call, rfl, rfl⟩
  have hblock := match?_blockPattern_eq_some.mpr
    ⟨f.repeatCall.toValue, f.argsLayout, [f.createCall.toValue], f.blockLayout, ⟨_, hrepeat⟩, h.args, h.block, rfl, rfl⟩
  have hcreate := match?_createPattern_eq_some.mpr
    ⟨f.receiver, f.factory, f.factoryLayout, f.options, f.createLayout, h.receiver, h.factory, h.create, rfl, rfl⟩
  refine Option.bind_eq_some_iff.mpr ⟨_, hblock, ?_⟩
  refine Option.bind_eq_some_iff.mpr ⟨f.block, rfl, ?_⟩
  refine Option.bind_eq_some_iff.mpr ⟨(f.repeatCall.toValue, _, f.createCall.toValue), rfl, ?_⟩
  refine Option.bind_eq_some_iff.mpr ⟨_, hrepeat, ?_⟩
  exact Option.bind_eq_some_iff.mpr ⟨_, hcreate, rfl⟩

/-- A value in which something is detected is a block of the form, and the idiom has its parts. -/
theorem exists_of_detect {v : Value} {i : Idiom} (h : IdiomLint.detect v = some i) :
    ∃ f : RepeatForm, f.Proper ∧ v = f.block.toValue ∧ i = f.idiom := by
  -- The parts are bound one after the other, in the order in which `detect` asks for them.
  replace ⟨_, hblock, h⟩ := Option.bind_eq_some_iff.mp h
  replace ⟨block, hnode, h⟩ := Option.bind_eq_some_iff.mp h
  replace ⟨⟨repeatCall, parameters, body⟩, hparts, h⟩ := Option.bind_eq_some_iff.mp h
  replace ⟨repeated, hrepeat, h⟩ := Option.bind_eq_some_iff.mp h
  replace ⟨created, hcreate, h⟩ := Option.bind_eq_some_iff.mp h
  obtain ⟨call, argsLayout, rest, blockLayout, _, hargs, hlayout, rfl, _⟩ := match?_blockPattern_eq_some.mp hblock
  obtain ⟨count, countLayout, callLayout, hcount, hcall, hcallForm, rfl⟩ := match?_repeatPattern_eq_some.mp hrepeat
  obtain ⟨receiver, factory, factoryLayout, options, createLayout, hreceiver, hfactory, hcreateLayout, hbodyForm,
    rfl⟩ := match?_createPattern_eq_some.mp hcreate
  cases hnode
  -- A block has three parts, so nothing but the body comes after the parameters.
  obtain ⟨rfl, rfl, rfl⟩ : call = repeatCall ∧ Value.node "args" [] argsLayout = parameters ∧ rest = [body] := by
    match rest, hparts with
    | [last], hparts =>
        cases hparts
        exact ⟨rfl, rfl, rfl⟩
  subst hcallForm hbodyForm
  cases count with
  | int n =>
      cases h
      exact ⟨⟨n, receiver, factory, options, countLayout, callLayout, argsLayout, factoryLayout, createLayout,
        blockLayout⟩, ⟨hreceiver, hcount, hcall, hargs, hfactory, hcreateLayout, hlayout⟩, rfl, rfl⟩
  | nil | bool _ | float _ | text _ | tuple _ | node _ _ _ => exact absurd h (by simp [Bindings.get?, integer?])

end RepeatForm

/-- **Exactly the blocks of the form are detected**, and the idiom has the parts of the block. -/
theorem detect_eq_some_iff (v : Value) :
    (detect v ≠ none ↔ ∃ f : RepeatForm, f.Proper ∧ v = f.block.toValue) ∧
    ∀ i, detect v = some i ↔ ∃ f : RepeatForm, f.Proper ∧ v = f.block.toValue ∧ i = f.idiom := by
  have hiff : ∀ i, detect v = some i ↔ ∃ f : RepeatForm, f.Proper ∧ v = f.block.toValue ∧ i = f.idiom := by
    refine fun i => ⟨RepeatForm.exists_of_detect, ?_⟩
    rintro ⟨f, hf, rfl, rfl⟩
    exact hf.detect
  refine ⟨?_, hiff⟩
  rw [Option.ne_none_iff_exists']
  constructor
  · rintro ⟨i, hi⟩
    obtain ⟨f, hf, hv, _⟩ := (hiff i).mp hi
    exact ⟨f, hf, hv⟩
  · rintro ⟨f, hf, hv⟩
    exact ⟨f.idiom, (hiff _).mpr ⟨f, hf, hv, rfl⟩⟩

/-- The value is a block without parameters that repeats a call of `create`, and the idiom has its
parts. -/
inductive Detected : Value → Idiom → Prop
  | mk {v : Value} {i : Idiom} {receiver : Value}
      {countPlace callLayout argsPlace factoryPlace bodyLayout layout : Layout} :
      v = i.block.toValue →
      i.block = ⟨"block", [
        .node "send" [.node "int" [.int i.count] countPlace, .text "times"] callLayout,
        .node "args" [] argsPlace,
        .node "send" (receiver :: .text "create" :: .node "sym" [i.factory] factoryPlace :: i.options)
          bodyLayout], layout⟩ →
      Detected v i

/-- What a detected block is made of, the receiver of the call included. -/
theorem block_of_detect {v : Value} {i : Idiom} (h : detect v = some i) :
    ∃ countPlace callLayout argsPlace factoryPlace bodyLayout layout, v = i.block.toValue ∧
      i.block = ⟨"block", [
        .node "send" [.node "int" [.int i.count] countPlace, .text "times"] callLayout,
        .node "args" [] argsPlace,
        .node "send" (i.receiver :: .text "create" :: .node "sym" [i.factory] factoryPlace :: i.options)
          bodyLayout], layout⟩ := by
  obtain ⟨f, _, rfl, rfl⟩ := RepeatForm.exists_of_detect h
  exact ⟨f.countLayout, f.callLayout, f.argsLayout, f.factoryLayout, f.createLayout, f.blockLayout, rfl, rfl⟩

theorem detected_of_detect {v : Value} {i : Idiom} (h : detect v = some i) : Detected v i := by
  obtain ⟨_, _, _, _, _, _, hvalue, hblock⟩ := block_of_detect h
  exact .mk hvalue hblock

end IdiomLint
