import Mathlib.Data.List.Nodup
import IdiomLint.Proofs.Correction.Pass
import IdiomLint.Proofs.Ruby.Expressions

/-!
# Every offence is found once

A call that is a block of the idiom by itself is found wherever it stands in an expression position, and
nothing else is found. Main statement: of each such call there is exactly one finding that edits the
place of the call, and every finding edits the place of such a call (`visit_finds_standing`).

The places of two findings differ although a block may take up all of its parent: around a block that is
detected there is always an integer literal beside everything else that is detected in it
(`pairwise_place_ne`).
-/

namespace IdiomLint

namespace Ruby

open ConcreteNode (Beside Within WellFormed IntegersFit)

variable {cs : List Char} {source : List UInt8}

/-! ## Trees without characters -/

namespace ConcreteNode

/-- The children of a node lie inside it, one after the other. -/
structure Laid (n : ConcreteNode) : Prop where
  ordered : n.start ≤ n.stop
  children : ∀ c ∈ n.children, Within c n
  siblings : n.children.Pairwise fun a b => a.stop ≤ b.start

instance : DecidablePred Laid := fun n =>
  decidable_of_iff (n.start ≤ n.stop ∧ (∀ c ∈ n.children, n.start ≤ c.start ∧ c.stop ≤ n.stop) ∧
      n.children.Pairwise fun a b => a.stop ≤ b.start)
    ⟨fun ⟨h₁, h₂, h₃⟩ => ⟨h₁, h₂, h₃⟩, fun ⟨h₁, h₂, h₃⟩ => ⟨h₁, h₂, h₃⟩⟩

/-- The nodes of a tree lie inside their parents, siblings one after the other. -/
def LaidOut (n : ConcreteNode) : Prop := n.Everywhere Laid

instance (n : ConcreteNode) : Decidable n.LaidOut :=
  inferInstanceAs (Decidable (n.Everywhere Laid))

end ConcreteNode

theorem boundary_replicate {j k : Nat} (h : j ≤ k) : Utf8.Boundary (List.replicate k 'a') j := by
  have hwidth : ∀ i, Utf8.width (List.replicate i 'a') = i := by
    intro i
    induction i with
    | zero => rfl
    | succ i ih =>
        show Utf8.width (['a'] ++ List.replicate i 'a') = i + 1
        rw [Utf8.width_append, ih, Nat.add_comm]
        rfl
  refine ⟨List.replicate j 'a', List.replicate (k - j) 'a', ?_, hwidth j⟩
  rw [List.replicate_append_replicate, Nat.add_sub_cancel' h]

/-- What a tree is made of depends on no character, so every place may count as one between characters. -/
theorem ConcreteNode.LaidOut.wellFormed {n : ConcreteNode} (h : n.LaidOut) {k : Nat} (hk : n.stop ≤ k) :
    n.WellFormed (List.replicate k 'a') := by
  induction h with
  | mk hn hchildren ih =>
      refine .mk ⟨hn.ordered, boundary_replicate (Nat.le_trans hn.ordered hk), boundary_replicate hk,
        hn.children, hn.siblings⟩ ?_
      intro c hc
      exact ih c hc (Nat.le_trans (hn.children c hc).2 hk)

/-! ## Different places -/

theorem place_ne_of_apart {i j : Idiom} (hj : j.start < j.stop) (h : i.Apart j) : i.place ≠ j.place := by
  intro hplace
  obtain ⟨hstart, hstop⟩ := Prod.mk.inj hplace
  unfold Idiom.Apart at h
  omega

theorem nests_of_integer {u : Node} {k : Int} (hkind : u.kind = "int") (hchildren : u.children = [.int k]) :
    u.toValue.nests = [] := by
  have hnone : detect u.toValue = none := detect_eq_none (by rw [hkind]; decide)
  rw [Node.toValue, Value.nests_of_detect_eq_none hnone, hchildren]
  rfl

/-- A block inside a detected one lies beside the integer literal, so it does not take up all of it. -/
theorem place_ne_of_detect {n : ConcreteNode} (hn : n.WellFormed cs) (hfit : n.IntegersFit source)
    {v : Node} (h : convert source n = .ok v) {i j : Idiom} (hi : detect v.toValue = some i)
    (hj : j ∈ Nest.idiomsAll (Value.nestsAll v.children)) : i.place ≠ j.place := by
  obtain ⟨⟨vs, hvs, hbelow⟩, hhere⟩ := complete_of_convert h
  obtain ⟨_, hplace, c, rest, u, k, hc, hu, hkind, hint⟩ := hhere i hi
  have hsound : ∀ e ∈ c :: rest, ∀ u, convert source e = .ok u → Sound cs e u := by
    rw [← hc]
    exact fun e he u hu => sound_expression hn hfit he hu
  have hbeside := @beside_expressions cs source n hn
  have hinside := within_of_inner hn (inner_expressions (hc ▸ List.mem_cons_self))
  rw [hc] at hvs hbeside
  rw [← hbelow] at hj
  obtain ⟨hfirst, hbeside⟩ := List.pairwise_cons.mp hbeside
  cases forall₂_of_convertAll hvs with
  | @cons _ w _ ws hw hws =>
      obtain rfl := Except.ok.inj (hu.symm.trans hw)
      -- Nothing is detected in the literal.
      rw [List.map_cons, Value.nestsAll, nests_of_integer hkind hint, List.nil_append] at hj
      have hrest := soundAll_of_forall₂ hws
        (fun e he u hu => hsound e (List.mem_cons_of_mem c he) u hu) hbeside
      obtain ⟨e, he, hj⟩ := hrest.spread.inside j hj
      have hlt := (hsound c List.mem_cons_self u hu).integer k hkind hint
      have hce := hfirst e he
      obtain ⟨hj₁, _, hj₂, _⟩ := hj
      rw [hplace]
      intro heq
      obtain ⟨hstart, hstop⟩ := Prod.mk.inj heq
      unfold Beside at hce
      unfold Within at hinside
      omega

/-- No two blocks that are detected in a converted tree have the same place. -/
theorem pairwise_place_ne {n : ConcreteNode} (hn : n.WellFormed cs) (hfit : n.IntegersFit source) {v : Node}
    (h : convert source n = .ok v) :
    (Nest.idiomsAll v.toValue.nests).Pairwise fun i j => i.place ≠ j.place := by
  refine pairwise_of_convert place_ne_of_apart n hn hfit (fun m hm u i j hu hi hj => ?_) h
  exact place_ne_of_detect (hn.of_standing hm) (hfit.of_standing hm) hu hi hj

theorem kind_place_of_idiomAt? {m : ConcreteNode} {i : Idiom} (h : idiomAt? source m = some i) :
    m.kind = "call" ∧ i.place = m.place := by
  obtain ⟨v, hv, hi⟩ := Option.bind_eq_some_iff.mp h
  obtain ⟨hform, hplace, _⟩ := (complete_of_convert (toOption_eq_some.mp hv)).here i hi
  exact ⟨kind_of_form_call hform, hplace⟩

end Ruby

/-! ## The findings -/

/-- The places that the edits of a finding take. -/
def Finding.places (f : Finding) : List (Int × Int) := f.edits.map fun e => (e.start, e.stop)

open Ruby (standing idiomAt?)

/-- Each call in an expression position that is a block of the idiom by itself has exactly one finding
that edits its place, and every finding edits the place of such a call. -/
theorem visit_finds_standing {source : List UInt8} {root : Ruby.ConcreteNode} {tree : Node}
    {path text : String} (hroot : root.LaidOut) (hintegers : root.IntegersFit source)
    (hconvert : Ruby.convert source root = .ok tree) :
    ∃ findings, CreateListRule.visit ⟨path, text, some tree⟩ = .ok findings ∧
      (∀ m ∈ standing source root, (idiomAt? source m).isSome = true →
        (findings.map Finding.places).count [m.place] = 1) ∧
      ∀ f ∈ findings, ∃ m ∈ standing source root, m.kind = "call" ∧
        (idiomAt? source m).isSome = true ∧ f.places = [m.place] := by
  have hwf := hroot.wellFormed (Nat.le_refl root.stop)
  have hsound := Ruby.sound_of_convert hwf hintegers hconvert
  have hidioms := Ruby.idiomsAll_of_convert root hconvert
  have hdistinct := Ruby.pairwise_place_ne hwf hintegers hconvert
  have hedit : ∀ i ∈ Nest.idiomsAll tree.toValue.nests, i.edit = .ok i.written := by
    intro i hi
    obtain ⟨e, he, _⟩ := hsound.fits.exists_edit i hi
    exact Idiom.edit_eq_written ⟨e, he⟩
  obtain ⟨findings, hvisit, hedits⟩ := CreateListRule.exists_findings_map path hedit
  rw [← CreateListRule.idioms_eq] at hvisit
  have hplaces : findings.map Finding.places =
      (Nest.idiomsAll tree.toValue.nests).map fun i => [i.place] := by
    show findings.map ((List.map fun e => (e.start, e.stop)) ∘ Finding.edits) = _
    rw [← List.map_map, hedits, List.map_map]
    rfl
  have hnodup : ((Nest.idiomsAll tree.toValue.nests).map fun i => [i.place]).Nodup := by
    refine List.pairwise_map.mpr (hdistinct.imp ?_)
    intro i j hij heq
    exact hij (List.singleton_inj.mp heq)
  refine ⟨findings, hvisit, ?_, ?_⟩
  · intro m hm hdetect
    obtain ⟨i, hi⟩ := Option.isSome_iff_exists.mp hdetect
    obtain ⟨_, hplace⟩ := Ruby.kind_place_of_idiomAt? hi
    rw [hplaces]
    apply List.count_eq_one_of_mem hnodup
    rw [List.mem_map, hidioms]
    exact ⟨i, List.mem_filterMap.mpr ⟨m, hm, hi⟩, by rw [hplace]⟩
  · intro f hf
    have hmem : f.places ∈ findings.map Finding.places := List.mem_map.mpr ⟨f, hf, rfl⟩
    rw [hplaces, hidioms] at hmem
    obtain ⟨i, hi, hplaces⟩ := List.mem_map.mp hmem
    obtain ⟨m, hm, hi⟩ := List.mem_filterMap.mp hi
    obtain ⟨hkind, hplace⟩ := Ruby.kind_place_of_idiomAt? hi
    refine ⟨m, hm, hkind, ?_, ?_⟩
    · rw [hi]
      rfl
    · rw [← hplaces, hplace]

open Ruby (outerRepeat nestedText)

/-- The calls of a source with a block in the arguments of another one. -/
theorem visit_finds_standing_nested : ∃ tree,
    outerRepeat.LaidOut ∧ outerRepeat.IntegersFit (Utf8.encode nestedText) ∧
    Ruby.convert (Utf8.encode nestedText) outerRepeat = .ok tree ∧
    ∃ findings, CreateListRule.visit ⟨"a.rb", nestedText, some tree⟩ = .ok findings ∧
      (∀ m ∈ standing (Utf8.encode nestedText) outerRepeat,
        (idiomAt? (Utf8.encode nestedText) m).isSome = true →
          (findings.map Finding.places).count [m.place] = 1) ∧
      ∀ f ∈ findings, ∃ m ∈ standing (Utf8.encode nestedText) outerRepeat, m.kind = "call" ∧
        (idiomAt? (Utf8.encode nestedText) m).isSome = true ∧ f.places = [m.place] := by
  have hroot : outerRepeat.LaidOut := by decide +kernel
  have hintegers : outerRepeat.IntegersFit (Utf8.encode nestedText) := by decide +kernel
  obtain ⟨tree, htree⟩ := Ruby.exists_convert_outerRepeat (Utf8.encode nestedText)
  exact ⟨tree, hroot, hintegers, htree, visit_finds_standing hroot hintegers htree⟩

namespace Ruby

/-! ## A call in the default value of a parameter -/

/-- The default values of the parameters of a block. -/
def defaultValues (block : ConcreteNode) : List ConcreteNode :=
  match blockParameters? block with
  | some written => written.parts.filterMap (·.childFor? "value")
  | none => []

def defaultText : String := "each \x7b |x = 3.times \x7b create :user \x7d| x \x7d\n"

def defaultCreate : ConcreteNode :=
  ⟨"call", true, 22, 34, none, [leaf "identifier" 22 28 (some "method"),
    ⟨"argument_list", true, 29, 34, some "arguments", [leaf "simple_symbol" 29 34 none]⟩]⟩

def defaultRepeat : ConcreteNode :=
  ⟨"call", true, 12, 36, some "value", [leaf "integer" 12 13 (some "receiver"),
    token "." 13 (some "operator"), leaf "identifier" 14 19 (some "method"),
    ⟨"block", true, 20, 36, some "block", [token "\x7b" 20 none,
      ⟨"block_body", true, 22, 34, some "body", [defaultCreate]⟩, token "\x7d" 35 none]⟩]⟩

/-- A parameter with a call as its default value. -/
def defaultParameter : ConcreteNode :=
  ⟨"optional_parameter", true, 8, 36, none, [leaf "identifier" 8 9 (some "name"), token "=" 10 none,
    defaultRepeat]⟩

def defaultParameters : ConcreteNode :=
  ⟨"block_parameters", true, 7, 37, some "parameters",
    [token "|" 7 none, defaultParameter, token "|" 36 none]⟩

def defaultBlock : ConcreteNode :=
  ⟨"block", true, 5, 41, some "block", [token "\x7b" 5 none, defaultParameters,
    ⟨"block_body", true, 38, 39, some "body", [leaf "identifier" 38 39 none]⟩, token "\x7d" 40 none]⟩

def defaultCall : ConcreteNode :=
  ⟨"call", true, 0, 41, none, [leaf "identifier" 0 4 (some "method"), defaultBlock]⟩

def defaultProgram : ConcreteNode := ⟨"program", true, 0, 42, none, [defaultCall]⟩

theorem convert_defaultRepeat (source : List UInt8) : convert source defaultRepeat =
    .ok (repeatNode source defaultRepeat (leaf "integer" 12 13 (some "receiver"))
      (callNode source defaultCreate none [symbolNode source (leaf "simple_symbol" 29 34 none)])) := by
  refine @convert_repeat source defaultRepeat (leaf "integer" 12 13 (some "receiver"))
    defaultCreate _ _ (by decide) rfl (by decide) rfl rfl rfl rfl
    (convert_createSymbol (by decide) rfl rfl rfl (by decide)) ?_
  exact quiet_of_below rfl rfl rfl (List.forall_mem_singleton.mpr (quiet_symbolNode _ _))

/-- What the call with the parameter becomes: of the parameter there is the name. -/
def defaultNode (source : List UInt8) : Node :=
  defaultCall.build source "block" [(callNode source defaultCall none []).toValue,
    (defaultParameters.build source "args"
      [(defaultParameter.build source "optarg" [.text (textBetween source 8 9)]).toValue]).toValue,
    (nameNode source (leaf "identifier" 38 39 none)).toValue]

theorem convert_defaultCall (source : List UInt8) :
    convert source defaultCall = .ok (defaultNode source) := by
  have hparameters : convertParameterList source (blockParameters? defaultBlock) =
      .ok (some (defaultParameters,
        [defaultParameter.build source "optarg" [.text (textBetween source 8 9)]])) := by
    show (convertParameters source [defaultParameter]).map _ = _
    rw [convertParameters, convertParameters]
    rfl
  have hstatements : convertAll source (blockStatements defaultBlock) =
      .ok [nameNode source (leaf "identifier" 38 39 none)] := by
    show convertAll source [leaf "identifier" 38 39 none] = _
    rw [convertAll, convert_name (by decide), convertAll_nil]
    rfl
  rw [convert_call (by decide)]
  show (convertAll source [] >>= fun arguments =>
    convertParameterList source (blockParameters? defaultBlock) >>= fun parameters =>
      convertAll source (blockStatements defaultBlock) >>= fun statements =>
        blockNode source defaultCall (callNode source defaultCall none arguments) parameters
          (joinStatements source statements)) = _
  rw [convertAll_nil, hparameters, hstatements]
  rfl

end Ruby

open Ruby (defaultBlock defaultCall defaultNode defaultProgram defaultRepeat defaultText defaultValues)

/-- A call is missed in the default value of a parameter, although the call with the parameter stands in an
expression position. -/
theorem visit_misses_default : ∃ tree,
    defaultProgram.LaidOut ∧ defaultProgram.IntegersFit (Utf8.encode defaultText) ∧
    Ruby.convert (Utf8.encode defaultText) defaultProgram = .ok tree ∧
    defaultCall ∈ standing (Utf8.encode defaultText) defaultProgram ∧
    defaultCall.childFor? "block" = some defaultBlock ∧ defaultRepeat ∈ defaultValues defaultBlock ∧
    (idiomAt? (Utf8.encode defaultText) defaultRepeat).isSome = true ∧
    CreateListRule.visit ⟨"a.rb", defaultText, some tree⟩ = .ok [] := by
  have hconvert : Ruby.convert (Utf8.encode defaultText) defaultProgram =
      .ok (defaultProgram.build (Utf8.encode defaultText) "begin"
        [(defaultNode (Utf8.encode defaultText)).toValue]) := by
    rw [Ruby.convert]
    show (Ruby.convertAll _ [defaultCall] >>= _) = _
    rw [Ruby.convertAll, Ruby.convert_defaultCall, Ruby.convertAll_nil]
    rfl
  refine ⟨_, by decide +kernel, by decide +kernel, hconvert, ?_, rfl, ?_, ?_, ?_⟩
  · have hmem : defaultCall ∈ Ruby.expressions (Utf8.encode defaultText) defaultProgram :=
      List.mem_singleton_self defaultCall
    rw [Ruby.standing_eq]
    refine List.mem_cons_of_mem _ (List.mem_flatMap.mpr ⟨defaultCall, hmem, ?_⟩)
    rw [Ruby.standing_eq]
    exact List.mem_cons_self
  · show defaultRepeat ∈ [defaultRepeat]
    exact List.mem_singleton_self defaultRepeat
  · rw [Ruby.idiomAt?_of_convert (Ruby.convert_defaultRepeat _)]
    decide +kernel
  · have hnone : (CreateListRule.visit ⟨"a.rb", defaultText, some (defaultProgram.build
        (Utf8.encode defaultText) "begin" [(defaultNode (Utf8.encode defaultText)).toValue])⟩).toOption.map
          List.length = some 0 := by
      decide +kernel
    obtain ⟨findings, hfindings, hlength⟩ := Option.map_eq_some_iff.mp hnone
    rw [List.length_eq_zero_iff.mp hlength] at hfindings
    exact toOption_eq_some.mp hfindings

end IdiomLint
