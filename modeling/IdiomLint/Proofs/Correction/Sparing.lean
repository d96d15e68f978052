import IdiomLint.Proofs.Correction.Origin
import IdiomLint.Proofs.Correction.Steps
import IdiomLint.Proofs.Edit.Frame
import IdiomLint.Proofs.Ruby.Framing
import IdiomLint.Proofs.Ruby.Repeats

/-!
# What corrections leave of suppressed blocks

A block whose finding is suppressed is not edited, but the block around it may be replaced. The replacement
copies the text of its options, so a suppressed block with no other block in it keeps its text in every pass
(`infix_of_other_edits`). What the replacement does not copy is what stands between the options. If the
comment stands there, the next pass finds a block that nothing suppresses any more, and replaces it
(`correctText_drops_suppressed`). As long as the block is suppressed in each text that a pass corrects, its
text is in the corrected text (`infix_of_correctText`).
-/

namespace IdiomLint

open Ruby (TakesAlong slice)

variable {text next : String} {tree : Node} {i j : Idiom}

/-! ## One pass -/

/-- The bytes of a block in the source. -/
def Idiom.bytes (text : String) (i : Idiom) : List UInt8 :=
  slice (Utf8.encode text) i.start.toNat i.stop.toNat

/-- A detected block that corrections have to leave alone: its finding is suppressed and no other block is
detected in it. -/
structure Spared (text : String) (tree : Node) (i : Idiom) : Prop where
  detected : i ∈ CreateListRule.idioms tree
  suppressed : Suppression.isSuppressed text CreateListRule.id i.repeatCall.start = true
  innermost : ∀ j ∈ CreateListRule.idioms tree, j ≠ i → ¬ i.Holds j

/-- The tree of a text is as a grammar promises: its nodes lie where they should, its integers are not too
long, and no node of the grammar is taken for a symbol of the syntax tree. -/
structure Regular (text : String) (root : Ruby.ConcreteNode) : Prop where
  wellFormed : root.WellFormed text.toList
  integersFit : root.IntegersFit (Utf8.encode text)
  ordinary : root.Ordinary

instance (text : String) (root : Ruby.ConcreteNode) : Decidable (Regular text root) :=
  decidable_of_iff (root.WellFormed text.toList ∧ root.IntegersFit (Utf8.encode text) ∧ root.Ordinary)
    ⟨fun ⟨hplaces, hfit, hkinds⟩ => ⟨hplaces, hfit, hkinds⟩, fun h => ⟨h.wellFormed, h.integersFit, h.ordinary⟩⟩

/-- A block inside a text has as many bytes there as its place says. -/
theorem exists_eq_append_bytes (hfirst : 0 ≤ i.start) (hle : i.start ≤ i.stop)
    (hlast : i.stop.toNat ≤ (Utf8.encode text).length) : ∃ front back,
      Utf8.encode text = front ++ (i.bytes text ++ back) ∧ (front.length : Int) = i.start ∧
        (front.length : Int) + (i.bytes text).length = i.stop := by
  refine ⟨(Utf8.encode text).take i.start.toNat, (Utf8.encode text).drop i.stop.toNat, ?_, ?_, ?_⟩
  · have hdrop : (Utf8.encode text).drop i.stop.toNat =
        ((Utf8.encode text).drop i.start.toNat).drop (i.stop.toNat - i.start.toNat) := by
      rw [List.drop_drop, Nat.add_sub_cancel' (by omega)]
    rw [Idiom.bytes, slice, hdrop, List.take_append_drop, List.take_append_drop]
  · rw [List.length_take]
    omega
  · rw [Idiom.bytes, slice, List.length_take, List.length_take, List.length_drop]
    omega

/-- Of two detected blocks, one that does not hold the other lies apart from it or is taken along by it. -/
theorem apart_or_takesAlong {root : Ruby.ConcreteNode} (hroot : Regular text root)
    (hconvert : Ruby.convert (Utf8.encode text) root = .ok tree) (hi : i ∈ CreateListRule.idioms tree)
    (hj : j ∈ CreateListRule.idioms tree) (hne : i ≠ j) (hout : ¬ i.Holds j) :
    i.Apart j ∨ TakesAlong text.toList (Utf8.encode text) j i := by
  have hpairs := Ruby.pairwise_apart_or_takesAlong hroot.wellFormed hroot.integersFit hroot.ordinary hconvert
  rw [CreateListRule.idioms_eq] at hi hj
  let related := fun i j : Idiom => i.Apart j ∨ TakesAlong text.toList (Utf8.encode text) i j
  -- The walk meets one of the two first, and which one is not known.
  have : Std.Symm fun i j => related i j ∨ related j i := ⟨fun _ _ => Or.symm⟩
  rcases (hpairs.imp fun h => Or.inl h : List.Pairwise (fun i j => related i j ∨ related j i) _).forall hi hj hne
    with (hapart | htaken) | (hapart | htaken)
  · exact Or.inl hapart
  · exact absurd htaken.holds hout
  · exact Or.inl hapart.symm
  · exact Or.inr htaken

/-- The text of a block that is taken along is in the replacement. -/
theorem infix_of_takesAlong (h : TakesAlong text.toList (Utf8.encode text) j i) (hi : 0 ≤ i.start) {e : Edit}
    (he : j.edit = .ok e) : i.bytes text <:+: Utf8.encode e.replacement := by
  obtain ⟨w, hw, hframed, hfirst, hlast⟩ := h.copied
  obtain ⟨replacement, hreplacement, he⟩ := bind_eq_ok.mp he
  cases he
  have hordered := hframed.ordered
  have hsource : Utf8.encode w.source = slice (Utf8.encode text) w.start.toNat w.stop.toNat := by
    rw [hframed.source_eq]
    exact Ruby.encode_textBetween (by omega) hframed.boundaries.1 hframed.boundaries.2
  have hinside : i.bytes text <:+: Utf8.encode w.source := by
    rw [hsource]
    exact Ruby.infix_slice (by omega) (by omega)
  exact hinside.trans (Utf8.infix_encodeChars (Idiom.infix_of_mem_copied hreplacement hw))

/-- Edits of other blocks keep the text of a block that holds none. -/
theorem infix_of_other_edits {root : Ruby.ConcreteNode} (hroot : Regular text root)
    (hconvert : Ruby.convert (Utf8.encode text) root = .ok tree) (hi : i ∈ CreateListRule.idioms tree)
    (hinnermost : ∀ j ∈ CreateListRule.idioms tree, j ≠ i → ¬ i.Holds j) {edits : List Edit}
    (hedits : ∀ e ∈ edits, ∃ j ∈ CreateListRule.idioms tree, j ≠ i ∧ j.edit = .ok e)
    (h : applyEdits text edits = .ok next) : i.bytes text <:+: Utf8.encode next := by
  have hsettled := (Ruby.sound_of_convert hroot.wellFormed hroot.integersFit hconvert).settled
  obtain ⟨hfirst, hnonempty, _, _, hboundary⟩ := hsettled.inside i (CreateListRule.idioms_eq tree ▸ hi)
  have hend : i.stop.toNat ≤ (Utf8.encode text).length := hboundary.le
  by_cases houtside : ∀ e ∈ edits, e.Outside i.start i.stop
  · -- No edit touches the block.
    obtain ⟨front, back, htext, hfront, hback⟩ := @exists_eq_append_bytes text i (by omega) (by omega) hend
    have hsome : i.bytes text ≠ [] := List.length_pos_iff.mp (by omega)
    obtain ⟨front', back', hnext, _⟩ := Edit.keeps_of_applyEdits h htext hsome fun e he => by
      rw [hback, hfront]
      exact houtside e he
    exact ⟨front', back', by rw [hnext, List.append_assoc]⟩
  · -- An edit of the block around it does, and copies its text.
    push Not at houtside
    obtain ⟨e, he, hinside⟩ := houtside
    obtain ⟨j, hj, hne, hedit⟩ := hedits e he
    have htaken : TakesAlong text.toList (Utf8.encode text) j i := by
      rcases apart_or_takesAlong hroot hconvert hi hj hne.symm (hinnermost j hj hne) with hapart | htaken
      · obtain ⟨_, _, hplace⟩ := bind_eq_ok.mp hedit
        cases hplace
        exact absurd hapart.symm hinside
      · exact htaken
    exact (infix_of_takesAlong htaken (by omega) hedit).trans (Edit.infix_of_applyEdits h he)

namespace Analyzer

variable {a : Analyzer} {path last : String} {block : List UInt8}

/-! ## What a pass edits -/

/-- What the rule finds are detected blocks, each with its edit. -/
def FindsBlock (tree : Node) (f : Finding) : Prop :=
  ∃ j ∈ CreateListRule.idioms tree, ∃ e, j.edit = .ok e ∧ f.edits = [e] ∧ f.rule = CreateListRule.id ∧
    f.start = j.repeatCall.start

theorem findsBlock_of_findingsFrom (hrules : ∀ rule ∈ a.rules, rule = createListRule) {found : List Finding}
    (h : (a.findingsFrom ⟨path, text, some tree⟩ [] a.rules).result = .ok found) :
    ∀ f ∈ found, FindsBlock tree f := by
  refine forall_of_findingsFrom (fun rule hrule new hnew f hf severity => ?_) (List.forall_mem_nil _) h
  rw [hrules rule hrule] at hnew
  obtain ⟨j, hj, hfinding⟩ := exists_mem_of_forall₂ (forall₂_of_mapM hnew) f hf
  obtain ⟨e, he, hedits, hrule, hstart⟩ := CreateListRule.of_finding hfinding
  exact ⟨j, hj, e, he, hedits, hrule, hstart⟩

/-- The text has a block of the given bytes that corrections have to leave alone. -/
def Spares (a : Analyzer) (text : String) (block : List UInt8) : Prop :=
  ∃ parse tree i, a.grammar = some (.ok parse) ∧
    Ruby.convert (Utf8.encode text) (parse text).tree = .ok tree ∧ Spared text tree i ∧ i.bytes text = block

/-- If the text has a tree, the tree is as a grammar promises. -/
def ReadsWell (a : Analyzer) (text : String) : Prop :=
  ∀ parse, a.grammar = some (.ok parse) → Regular text (parse text).tree

/-- A pass keeps the text of a block that is to be left alone. -/
theorem infix_of_step (hrules : ∀ rule ∈ a.rules, rule = createListRule) (h : a.Step path text next)
    (hreads : a.ReadsWell text) (hspares : a.Spares text block) : block <:+: Utf8.encode next := by
  obtain ⟨parse, tree, i, hgrammar, hconvert, hi, rfl⟩ := hspares
  obtain ⟨result, hresult, _, hnext⟩ := h
  rw [corrected_offerFindings rfl] at hnext
  refine infix_of_other_edits (hreads parse hgrammar) hconvert hi.detected hi.innermost ?_ hnext
  intro e he
  rcases of_result_runRules hresult with ⟨hnone, _⟩ | ⟨parse', tree', found, hparse, htree, hfound, rfl⟩
  · exact absurd (hnone.symm.trans hgrammar) (by simp)
  · cases hgrammar.symm.trans hparse
    cases hconvert.symm.trans htree
    obtain ⟨f, hf, hef⟩ := Corrector.mem_accepted_offerFindings he
    obtain ⟨hf, hkept⟩ := List.mem_filter.mp hf
    obtain ⟨j, hj, e', hedit, hedits, hrule, hstart⟩ := findsBlock_of_findingsFrom hrules hfound f hf
    obtain rfl : e = e' := by simpa [hedits] using hef
    refine ⟨j, hj, ?_, hedit⟩
    -- The finding of the block itself has been taken out.
    rintro rfl
    rw [hrule, hstart, hi.suppressed] at hkept
    exact absurd hkept (by decide)

/-! ## All passes -/

/-- Passes keep a block if each of them that finds its text has to leave it alone. -/
theorem Steps.keeps {k : Nat} (hrules : ∀ rule ∈ a.rules, rule = createListRule)
    (h : a.Steps path k text last) :
    block <:+: Utf8.encode text →
      (∀ m < k, ∀ t next, a.Steps path m text t → a.Step path t next →
        a.ReadsWell t ∧ (block <:+: Utf8.encode t → a.Spares t block)) →
        block <:+: Utf8.encode last := by
  induction h with
  | none => exact fun hblock _ => hblock
  | @more k text next last hstep _ ih =>
      intro hblock hall
      obtain ⟨hreads, hspares⟩ := hall 0 (Nat.succ_pos k) text next .none hstep
      apply ih (infix_of_step hrules hstep hreads (hspares hblock))
      intro m hm t next' hsteps
      exact hall (m + 1) (Nat.succ_lt_succ hm) t next' (.more hstep hsteps)

theorem Spares.isInfix (h : a.Spares text block) : block <:+: Utf8.encode text := by
  obtain ⟨_, _, i, _, _, _, rfl⟩ := h
  exact (List.take_prefix _ _).isInfix.trans (List.drop_suffix _ _).isInfix

/-- The text of a suppressed block with no other block in it is in the corrected text, if each later pass
that finds this text in what it corrects finds such a block there. -/
theorem infix_of_correctText {remaining : List Finding} (hrules : ∀ rule ∈ a.rules, rule = createListRule)
    (h : (a.correctText path text).result = .ok (last, remaining)) (hfirst : a.Spares text block)
    (hreads : ∀ k < correctionPasses, ∀ t next, a.Steps path k text t → a.Step path t next → a.ReadsWell t)
    (hlater : ∀ k < correctionPasses, 0 < k → ∀ t next, a.Steps path k text t → a.Step path t next →
      block <:+: Utf8.encode t → a.Spares t block) : block <:+: Utf8.encode last := by
  obtain ⟨k, hk, hsteps, _⟩ := steps_of_correctText h
  apply hsteps.keeps hrules hfirst.isInfix
  intro m hm t next hbefore hstep
  have hm := Nat.lt_of_lt_of_le hm hk
  refine ⟨hreads m hm t next hbefore hstep, ?_⟩
  cases hbefore with
  | none => exact fun _ => hfirst
  | more hfront hrest => exact hlater _ hm (Nat.succ_pos _) t next (.more hfront hrest) hstep

/-! ## A comment in the block -/

/-- The analyzer of the built-in rule, for a grammar that gives certain trees. -/
def builtIn (trees : String → Ruby.ConcreteNode) : Analyzer :=
  ⟨some (.ok fun text => ⟨trees text, false⟩), [createListRule], {}⟩

/-- The detected blocks of a tree: their places, and whether their lines suppress them. -/
def survey (text : String) (tree : Node) : List (Int × Int × Bool) :=
  (CreateListRule.idioms tree).map fun i =>
    (i.start, i.stop, Suppression.isSuppressed text CreateListRule.id i.repeatCall.start)

/-- The edits that a pass over a text with this tree accepts. -/
def passEdits (trees : String → Ruby.ConcreteNode) (text : String) (tree : Node) : Option (List Edit) :=
  ((builtIn trees).findingsFrom ⟨"/a.rb", text, some tree⟩ [] [createListRule]).result.toOption.map
    fun found => (Corrector.offerFindings { text } (Suppression.keep text found)).1.accepted

/-- A suppressed block is spared, if the blocks before it begin before it and there are none after it. -/
theorem exists_spared {start stop : Int} {others : List (Int × Int × Bool)}
    (h : survey text tree = others ++ [(start, stop, true)]) (hothers : ∀ p ∈ others, p.1 < start) :
    ∃ i, Spared text tree i ∧ i.start = start ∧ i.stop = stop := by
  obtain ⟨front, back, hidioms, hfront, hback⟩ := List.map_eq_append_iff.mp h
  obtain ⟨i, rfl, hi⟩ := List.map_eq_singleton_iff.mp hback
  obtain ⟨rfl, rfl, hsuppressed⟩ : i.start = start ∧ i.stop = stop ∧ _ := by simpa using hi
  refine ⟨i, ⟨?_, hsuppressed, ?_⟩, rfl, rfl⟩
  · rw [hidioms]
    exact List.mem_append_right _ (List.mem_singleton_self i)
  · intro j hj hne hholds
    rw [hidioms] at hj
    rcases List.mem_append.mp hj with hj | hj
    · have hbefore := hothers _ (hfront ▸ List.mem_map_of_mem hj)
      exact absurd hholds.1 (Int.not_le.mpr hbefore)
    · exact hne (List.mem_singleton.mp hj)

theorem spares_of_survey {trees : String → Ruby.ConcreteNode} {start stop : Int}
    {others : List (Int × Int × Bool)} (hconvert : Ruby.convert (Utf8.encode text) (trees text) = .ok tree)
    (hsurvey : survey text tree = others ++ [(start, stop, true)]) (hothers : ∀ p ∈ others, p.1 < start)
    (hblock : slice (Utf8.encode text) start.toNat stop.toNat = block) : (builtIn trees).Spares text block := by
  obtain ⟨i, hi, rfl, rfl⟩ := exists_spared hsurvey hothers
  exact ⟨_, tree, i, rfl, hconvert, hi, hblock⟩

theorem accepts_of_passEdits {trees : String → Ruby.ConcreteNode} {accepted : List Edit}
    (hconvert : Ruby.convert (Utf8.encode text) (trees text) = .ok tree)
    (h : passEdits trees text tree = some accepted) : (builtIn trees).Accepts "/a.rb" text accepted :=
  @exists_result_runRules _ _ (fun text => ⟨trees text, false⟩) _ _ _ _
    (fun findings => (Corrector.offerFindings { text } findings).1.accepted) _ hconvert h

/-- A block with a comment in it, in two other blocks. -/
def insideText : String :=
  "2.times \x7b create(:user, 2.times \x7b\n  create(:team, 3.times \x7b # factorylint: ignore[*]\n    create(:post) \x7d) \x7d) \x7d\n"

/-- The text after one pass. -/
def insideNext : String :=
  "create_list(:user, 2, 2.times \x7b\n  create(:team, 3.times \x7b # factorylint: ignore[*]\n    create(:post) \x7d) \x7d)\n"

/-- The text after all passes. -/
def insideLast : String :=
  "create_list(:user, 2, create_list(:team, 2, 3.times \x7b # factorylint: ignore[*]\n    create(:post) \x7d))\n"

/-- The innermost block. -/
def insideBlock : List UInt8 := Utf8.encode "3.times \x7b # factorylint: ignore[*]\n    create(:post) \x7d"

def insideCall : Ruby.ConcreteNode :=
  Ruby.ownerRepeat 0 110 10 108
    (Ruby.ownerRepeat 24 107 36 105 (Ruby.postRepeat 50 104 (some (60, 84)) 89) none) none

def insideNextCall : Ruby.ConcreteNode :=
  Ruby.listCall 0 106 [Ruby.token "," 20 none,
    Ruby.ownerRepeat 22 105 34 103 (Ruby.postRepeat 48 102 (some (58, 82)) 87) none]

def insideLastCall : Ruby.ConcreteNode :=
  Ruby.listCall 0 100 [Ruby.token "," 20 none, Ruby.listCall 22 99 [Ruby.token "," 42 none,
    Ruby.postRepeat 44 98 (some (54, 78)) 83]]

/-- The trees of the texts. -/
def insideTrees (text : String) : Ruby.ConcreteNode :=
  Ruby.callProgram (if text = insideText then insideCall else if text = insideNext then insideNextCall
    else insideLastCall)

/-- What the first pass replaces. -/
def insideEdit : Edit :=
  ⟨0, 110, "create_list(:user, 2, 2.times \x7b\n  create(:team, 3.times \x7b # factorylint: ignore[*]\n    create(:post) \x7d) \x7d)"⟩

/-- What the second pass replaces. -/
def insideNextEdit : Edit :=
  ⟨22, 105, "create_list(:team, 2, 3.times \x7b # factorylint: ignore[*]\n    create(:post) \x7d)"⟩

theorem reads_insideText : ∃ tree, Ruby.convert (Utf8.encode insideText) (insideTrees insideText) = .ok tree ∧
    Regular insideText (insideTrees insideText) ∧
    survey insideText tree = [(0, 110, false), (24, 107, false)] ++ [(50, 104, true)] ∧
    slice (Utf8.encode insideText) 50 104 = insideBlock ∧
    passEdits insideTrees insideText tree = some [insideEdit] ∧
    applyEdits insideText [insideEdit] = .ok insideNext := by
  have hposts := Ruby.convert_postRepeat (Utf8.encode insideText) 50 104 (some (60, 84)) 89
  have hteams := @Ruby.convert_ownerRepeat _ 24 107 36 105 _ none _ hposts (Ruby.quiet_repeatNode _ _ _ _) rfl rfl
  have husers := @Ruby.convert_ownerRepeat _ 0 110 10 108 _ none _ hteams (Ruby.quiet_repeatNode _ _ _ _) rfl rfl
  rw [insideTrees, if_pos rfl]
  -- The conversion says what the tree is; the rest is evaluated in it.
  exact ⟨_, Ruby.convert_callProgram rfl husers, by decide +kernel⟩

theorem reads_insideNext : ∃ tree, Ruby.convert (Utf8.encode insideNext) (insideTrees insideNext) = .ok tree ∧
    Regular insideNext (insideTrees insideNext) ∧
    survey insideNext tree = [(22, 105, false)] ++ [(48, 102, true)] ∧
    slice (Utf8.encode insideNext) 48 102 = insideBlock ∧
    passEdits insideTrees insideNext tree = some [insideNextEdit] ∧
    applyEdits insideNext [insideNextEdit] = .ok insideLast := by
  have hposts := Ruby.convert_postRepeat (Utf8.encode insideNext) 48 102 (some (58, 82)) 87
  have hteams := @Ruby.convert_ownerRepeat _ 22 105 34 103 _ none _ hposts (Ruby.quiet_repeatNode _ _ _ _) rfl rfl
  have husers : Ruby.convert (Utf8.encode insideNext) insideNextCall = .ok _ :=
    Ruby.convert_listCall (Ruby.convertAll_one hteams) rfl
  rw [insideTrees, if_neg (by decide +kernel), if_pos rfl]
  exact ⟨_, Ruby.convert_callProgram rfl husers, by decide +kernel⟩

theorem accepts_insideLast : (builtIn insideTrees).Accepts "/a.rb" insideLast [] := by
  have hposts := Ruby.convert_postRepeat (Utf8.encode insideLast) 44 98 (some (54, 78)) 83
  have hteams : Ruby.convert (Utf8.encode insideLast) (Ruby.listCall 22 99 [Ruby.token "," 42 none,
      Ruby.postRepeat 44 98 (some (54, 78)) 83]) = .ok _ :=
    Ruby.convert_listCall (Ruby.convertAll_one hposts) rfl
  have husers : Ruby.convert (Utf8.encode insideLast) insideLastCall = .ok _ :=
    Ruby.convert_listCall (Ruby.convertAll_one hteams) rfl
  have htrees : insideTrees insideLast = Ruby.callProgram insideLastCall := by
    rw [insideTrees, if_neg (by decide +kernel), if_neg (by decide +kernel)]
  exact accepts_of_passEdits (htrees ▸ Ruby.convert_callProgram rfl husers) (by decide +kernel)

theorem spares_insideText : (builtIn insideTrees).Spares insideText insideBlock := by
  obtain ⟨_, hconvert, _, hsurvey, hblock, _⟩ := reads_insideText
  exact spares_of_survey hconvert hsurvey (by decide) hblock

theorem spares_insideNext : (builtIn insideTrees).Spares insideNext insideBlock := by
  obtain ⟨_, hconvert, _, hsurvey, hblock, _⟩ := reads_insideNext
  exact spares_of_survey hconvert hsurvey (by decide) hblock

theorem step_insideText : (builtIn insideTrees).Step "/a.rb" insideText next ↔ next = insideNext := by
  obtain ⟨_, hconvert, _, _, _, hedits, hnext⟩ := reads_insideText
  exact (accepts_of_passEdits hconvert hedits).step_iff_eq (List.cons_ne_nil _ _) hnext

theorem step_insideNext : (builtIn insideTrees).Step "/a.rb" insideNext next ↔ next = insideLast := by
  obtain ⟨_, hconvert, _, _, _, hedits, hnext⟩ := reads_insideNext
  exact (accepts_of_passEdits hconvert hedits).step_iff_eq (List.cons_ne_nil _ _) hnext

theorem not_step_insideLast : ¬ (builtIn insideTrees).Step "/a.rb" insideLast next := by
  rw [accepts_insideLast.step_iff]
  exact fun h => h.1 rfl

/-- Two passes are made. -/
theorem of_steps_insideText {k : Nat} {t : String} (h : (builtIn insideTrees).Steps "/a.rb" k insideText t)
    (hstep : (builtIn insideTrees).Step "/a.rb" t next) : k = 0 ∧ t = insideText ∨ k = 1 ∧ t = insideNext := by
  cases h with
  | none => exact Or.inl ⟨rfl, rfl⟩
  | more hfirst hrest =>
      obtain rfl := step_insideText.mp hfirst
      cases hrest with
      | none => exact Or.inr ⟨rfl, rfl⟩
      | more hsecond hrest =>
          obtain rfl := step_insideNext.mp hsecond
          cases hrest with
          | none => exact absurd hstep not_step_insideLast
          | more hthird _ => exact absurd hthird not_step_insideLast

/-- A block with a comment in it keeps its text, though both blocks around it are replaced. -/
theorem infix_of_correctText_inside : ∃ remaining,
    (∀ rule ∈ (builtIn insideTrees).rules, rule = createListRule) ∧
    ((builtIn insideTrees).correctText "/a.rb" insideText).result = .ok (insideLast, remaining) ∧
    (builtIn insideTrees).Spares insideText insideBlock ∧
    (∀ k < correctionPasses, ∀ t next, (builtIn insideTrees).Steps "/a.rb" k insideText t →
      (builtIn insideTrees).Step "/a.rb" t next → (builtIn insideTrees).ReadsWell t) ∧
    (∀ k < correctionPasses, 0 < k → ∀ t next, (builtIn insideTrees).Steps "/a.rb" k insideText t →
      (builtIn insideTrees).Step "/a.rb" t next → insideBlock <:+: Utf8.encode t →
        (builtIn insideTrees).Spares t insideBlock) ∧
    insideBlock <:+: Utf8.encode insideLast := by
  have hrules : ∀ rule ∈ (builtIn insideTrees).rules, rule = createListRule :=
    fun rule hrule => List.mem_singleton.mp hrule
  have hreads : ∀ k < correctionPasses, ∀ t next, (builtIn insideTrees).Steps "/a.rb" k insideText t →
      (builtIn insideTrees).Step "/a.rb" t next → (builtIn insideTrees).ReadsWell t := by
    intro k _ t next hsteps hstep parse hparse
    cases hparse
    obtain ⟨_, rfl⟩ | ⟨_, rfl⟩ := of_steps_insideText hsteps hstep
    · obtain ⟨_, _, hregular, _⟩ := reads_insideText
      exact hregular
    · obtain ⟨_, _, hregular, _⟩ := reads_insideNext
      exact hregular
  have hlater : ∀ k < correctionPasses, 0 < k → ∀ t next, (builtIn insideTrees).Steps "/a.rb" k insideText t →
      (builtIn insideTrees).Step "/a.rb" t next → insideBlock <:+: Utf8.encode t →
        (builtIn insideTrees).Spares t insideBlock := by
    intro k _ hk t next hsteps hstep _
    obtain ⟨rfl, _⟩ | ⟨_, rfl⟩ := of_steps_insideText hsteps hstep
    · exact absurd hk (Nat.lt_irrefl 0)
    · exact spares_insideNext
  have hpasses : (builtIn insideTrees).Steps "/a.rb" 2 insideText insideLast :=
    .more (step_insideText.mpr rfl) (.more (step_insideNext.mpr rfl) .none)
  obtain ⟨remaining, hresult⟩ := exists_result_correctText hpasses accepts_insideLast (by decide)
  exact ⟨remaining, hrules, hresult, spares_insideText, hreads, hlater,
    infix_of_correctText hrules hresult spares_insideText hreads hlater⟩

/-! ## A comment after the block -/

/-- A block with a comment after it, in another block. -/
def afterText : String :=
  "2.times \x7b\n  create(:user, 3.times \x7b create(:post) \x7d # factorylint: ignore[factory.create_list]\n  )\n\x7d\n"

/-- The text after one pass, without the comment. -/
def afterNext : String := "create_list(:user, 2, 3.times \x7b create(:post) \x7d)\n"

/-- The text after all passes. -/
def afterLast : String := "create_list(:user, 2, create_list(:post, 3))\n"

/-- The block before the comment. -/
def afterBlock : List UInt8 := Utf8.encode "3.times \x7b create(:post) \x7d"

def afterCall : Ruby.ConcreteNode :=
  Ruby.ownerRepeat 0 100 12 98 (Ruby.postRepeat 26 51 none 36) (some (52, 94))

def afterNextCall : Ruby.ConcreteNode := Ruby.listCall 0 48 [Ruby.token "," 20 none, Ruby.postRepeat 22 47 none 32]

def afterLastCall : Ruby.ConcreteNode := Ruby.listCall 0 44 [Ruby.token "," 20 none, Ruby.listCall 22 43 []]

/-- The trees of the texts. -/
def afterTrees (text : String) : Ruby.ConcreteNode :=
  Ruby.callProgram (if text = afterText then afterCall else if text = afterNext then afterNextCall
    else afterLastCall)

/-- What the first pass replaces. -/
def afterEdit : Edit := ⟨0, 100, "create_list(:user, 2, 3.times \x7b create(:post) \x7d)"⟩

/-- What the finding of the block would replace in the first text, and what the second pass replaces. -/
def blockEdit (start : Nat) : Edit := ⟨start, start + 25, "create_list(:post, 3)"⟩

theorem reads_afterText : ∃ tree, Ruby.convert (Utf8.encode afterText) (afterTrees afterText) = .ok tree ∧
    survey afterText tree = [(0, 100, false)] ++ [(26, 51, true)] ∧
    slice (Utf8.encode afterText) 26 51 = afterBlock ∧
    (((builtIn afterTrees).findingsFrom ⟨"/a.rb", afterText, some tree⟩ [] [createListRule]).result.toOption.map
      fun found => found.map fun f => (f.edits, Suppression.isSuppressed afterText f.rule f.start)) =
        some [([afterEdit], false), ([blockEdit 26], true)] ∧
    passEdits afterTrees afterText tree = some [afterEdit] ∧
    applyEdits afterText [afterEdit] = .ok afterNext := by
  have hposts := Ruby.convert_postRepeat (Utf8.encode afterText) 26 51 none 36
  have husers := @Ruby.convert_ownerRepeat _ 0 100 12 98 _ (some (52, 94)) _ hposts (Ruby.quiet_repeatNode _ _ _ _)
    rfl rfl
  rw [afterTrees, if_pos rfl]
  exact ⟨_, Ruby.convert_callProgram rfl husers, by decide +kernel⟩

theorem reads_afterNext : ∃ tree, Ruby.convert (Utf8.encode afterNext) (afterTrees afterNext) = .ok tree ∧
    passEdits afterTrees afterNext tree = some [blockEdit 22] ∧
    applyEdits afterNext [blockEdit 22] = .ok afterLast := by
  have hposts := Ruby.convert_postRepeat (Utf8.encode afterNext) 22 47 none 32
  have husers : Ruby.convert (Utf8.encode afterNext) afterNextCall = .ok _ :=
    Ruby.convert_listCall (Ruby.convertAll_one hposts) rfl
  rw [afterTrees, if_neg (by decide +kernel), if_pos rfl]
  exact ⟨_, Ruby.convert_callProgram rfl husers, by decide +kernel⟩

theorem accepts_afterLast : (builtIn afterTrees).Accepts "/a.rb" afterLast [] := by
  have hposts : Ruby.convert (Utf8.encode afterLast) (Ruby.listCall 22 43 []) = .ok _ :=
    Ruby.convert_listCall Ruby.convertAll_nil rfl
  have husers : Ruby.convert (Utf8.encode afterLast) afterLastCall = .ok _ :=
    Ruby.convert_listCall (Ruby.convertAll_one hposts) rfl
  have htrees : afterTrees afterLast = Ruby.callProgram afterLastCall := by
    rw [afterTrees, if_neg (by decide +kernel), if_neg (by decide +kernel)]
  exact accepts_of_passEdits (htrees ▸ Ruby.convert_callProgram rfl husers) (by decide +kernel)

/-- The finding of the block is suppressed in the first text. The first pass replaces the block around it and
does not copy the comment, and the second one replaces the block. -/
theorem correctText_drops_suppressed : ∃ tree i found f remaining,
    Ruby.convert (Utf8.encode afterText) (afterTrees afterText) = .ok tree ∧ Spared afterText tree i ∧
    ((builtIn afterTrees).findingsFrom ⟨"/a.rb", afterText, some tree⟩ [] [createListRule]).result = .ok found ∧
    f ∈ found ∧ f.edits = [⟨i.start, i.stop, "create_list(:post, 3)"⟩] ∧
    Suppression.isSuppressed afterText f.rule f.start = true ∧
    ((builtIn afterTrees).correctText "/a.rb" afterText).result = .ok (afterLast, remaining) ∧
    ¬ i.bytes afterText <:+: Utf8.encode afterLast := by
  obtain ⟨tree, hconvert, hsurvey, hblock, hfound, hedits, hnext⟩ := reads_afterText
  obtain ⟨_, hconvertNext, heditsNext, hlast⟩ := reads_afterNext
  obtain ⟨i, hi, hstart, hstop⟩ := exists_spared hsurvey (by decide)
  obtain ⟨found, hfound, hjudged⟩ := Option.map_eq_some_iff.mp hfound
  obtain ⟨f, hf, hjudged⟩ : ∃ f ∈ found, (f.edits, Suppression.isSuppressed afterText f.rule f.start) =
      ([blockEdit 26], true) :=
    List.mem_map.mp (hjudged ▸ List.mem_cons_of_mem _ (List.mem_singleton_self _))
  obtain ⟨hfedits, hsuppressed⟩ := Prod.mk.inj hjudged
  have hpasses : (builtIn afterTrees).Steps "/a.rb" 2 afterText afterLast := by
    have hfirst := accepts_of_passEdits hconvert hedits
    have hsecond := accepts_of_passEdits hconvertNext heditsNext
    exact .more ((hfirst.step_iff_eq (List.cons_ne_nil _ _) hnext).mpr rfl)
      (.more ((hsecond.step_iff_eq (List.cons_ne_nil _ _) hlast).mpr rfl) .none)
  obtain ⟨remaining, hresult⟩ := exists_result_correctText hpasses accepts_afterLast (by decide)
  have hlost : ¬ afterBlock <:+: Utf8.encode afterLast := by decide +kernel
  refine ⟨tree, i, found, f, remaining, hconvert, hi, toOption_eq_some.mp hfound, hf, ?_, hsuppressed, hresult, ?_⟩
  · rw [hfedits, hstart, hstop]
    rfl
  · rwa [Idiom.bytes, hstart, hstop, show slice (Utf8.encode afterText) (Int.toNat 26) (Int.toNat 51) = _ from hblock]

end Analyzer

end IdiomLint
