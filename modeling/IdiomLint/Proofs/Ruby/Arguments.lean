import Mathlib.Data.List.Chain
import IdiomLint.Proofs.Ruby.Located
import IdiomLint.Proofs.Ruby.Repeats

/-!
# The arguments of a call

The arguments of a call are its converted parts, but pairs that follow one another become one hash. So each argument
stands for some of the parts: one that is no pair, or a run of pairs (`Argument`). How the parts are divided among
the arguments is said in `Divided`, whose fields determine the division.

Main statement: gathering loses no part and changes no order, every hash it makes is over a whole run of pairs, and
these are the arguments that the node of the call has (`convertArguments_divides`).
-/

namespace IdiomLint.Ruby

variable {source : List UInt8} {n : ConcreteNode}

/-! ## Parts and arguments -/

/-- An argument of a call, given by the parts that it stands for. -/
inductive Argument where
  /-- A part that stays as it is. -/
  | alone (part : Node)
  /-- Pairs that become one hash. -/
  | gathered (first : Node) (rest : List Node)

namespace Argument

/-- The parts that an argument stands for. -/
def parts : Argument → List Node
  | alone part => [part]
  | gathered first rest => first :: rest

/-- The node that an argument becomes. -/
def node (source : List UInt8) : Argument → Node
  | alone part => part
  | gathered first rest => nodeOver source "hash" first rest

/-- Is the argument a hash made by gathering? -/
def isGathered : Argument → Bool
  | alone _ => false
  | gathered _ _ => true

/-- Only pairs are gathered, and no pair stays as it is. -/
def Proper : Argument → Prop
  | alone part => part.kind ≠ "pair"
  | gathered first rest => ∀ part ∈ first :: rest, part.kind = "pair"

/-- Two arguments may stand side by side: they are not both hashes made by gathering. -/
def Beside (a b : Argument) : Prop := ¬(a.isGathered = true ∧ b.isGathered = true)

theorem beside_of_alone {a b : Argument} (h : a.isGathered = false ∨ b.isGathered = false) : a.Beside b := by
  rintro ⟨ha, hb⟩
  rcases h with h | h
  · exact absurd (h.symm.trans ha) (by decide)
  · exact absurd (h.symm.trans hb) (by decide)

end Argument

/-- The parts of a call are divided among its arguments. -/
structure Divided (parts : List Node) (arguments : List Argument) : Prop where
  /-- No part is lost, and none changes its place. -/
  parts_eq : arguments.flatMap Argument.parts = parts
  proper : ∀ a ∈ arguments, a.Proper
  beside : arguments.IsChain Argument.Beside

theorem divided_nil : Divided [] [] := ⟨rfl, List.forall_mem_nil _, .nil⟩

/-- An argument in front of others is one more. -/
theorem Divided.cons {parts : List Node} {a : Argument} {arguments : List Argument} (h : Divided parts arguments)
    (hproper : a.Proper) (hnext : ∀ b ∈ arguments.head?, a.Beside b) : Divided (a.parts ++ parts) (a :: arguments) where
  parts_eq := by rw [List.flatMap_cons, h.parts_eq]
  proper := List.forall_mem_cons.mpr ⟨hproper, h.proper⟩
  beside := List.isChain_cons.mpr ⟨hnext, h.beside⟩

/-- Gathering divides what it goes through. The induction is on the parts that are still to come; the run so far
consists of pairs only, and it has not been given away. -/
theorem gatherPairs_divides (parts : List Node) : ∀ {pairs : List Node}, (∀ part ∈ pairs, part.kind = "pair") →
    ∃ arguments : List Argument, gatherPairs source pairs parts = arguments.map (·.node source) ∧
      Divided (pairs.reverse ++ parts) arguments := by
  induction parts with
  | nil =>
      intro pairs hpairs
      rw [gatherPairs, List.append_nil]
      split
      · next hnone =>
          rw [hnone]
          exact ⟨[], rfl, divided_nil⟩
      · next first rest hrun =>
          have hproper : Argument.Proper (.gathered first rest) :=
            fun part hpart => hpairs part (List.mem_reverse.mp (hrun ▸ hpart))
          refine ⟨[.gathered first rest], rfl, ?_⟩
          rw [hrun, ← List.append_nil (first :: rest)]
          exact divided_nil.cons hproper (by simp)
  | cons part parts ih =>
      intro pairs hpairs
      rw [gatherPairs]
      split
      · next hkind =>
          obtain ⟨arguments, heq, hdivided⟩ := ih (List.forall_mem_cons.mpr ⟨beq_iff_eq.mp hkind, hpairs⟩)
          rw [List.reverse_cons, List.append_assoc, List.singleton_append] at hdivided
          exact ⟨arguments, heq, hdivided⟩
      · next hkind =>
          -- The part ends the run, if there is one, and a new run may begin behind it.
          have hproper : Argument.Proper (.alone part) := fun hpair => hkind (beq_iff_eq.mpr hpair)
          obtain ⟨arguments, heq, hdivided⟩ := ih (List.forall_mem_nil _)
          have hpart : Divided (part :: parts) (.alone part :: arguments) :=
            hdivided.cons hproper fun b _ => Argument.beside_of_alone (.inl rfl)
          rw [heq]
          split
          · next hnone =>
              rw [hnone]
              exact ⟨.alone part :: arguments, rfl, hpart⟩
          · next first rest hrun =>
              have hrunProper : Argument.Proper (.gathered first rest) :=
                fun p hp => hpairs p (List.mem_reverse.mp (hrun ▸ hp))
              rw [hrun]
              refine ⟨.gathered first rest :: .alone part :: arguments, rfl, hpart.cons hrunProper fun b hb => ?_⟩
              cases hb
              exact Argument.beside_of_alone (.inr rfl)

/-! ## What the hashes are -/

/-- Pairs that follow one another between other parts, with no pair right before or behind them. -/
structure IsRun (front run back : List Node) : Prop where
  nonempty : run ≠ []
  pairs : ∀ part ∈ run, part.kind = "pair"
  before : ∀ part ∈ front.getLast?, part.kind ≠ "pair"
  behind : ∀ part ∈ back.head?, part.kind ≠ "pair"

/-- A hash that has nothing but some nodes in it and reaches from the first to the last of them. -/
structure HashOver (source : List UInt8) (first : Node) (rest : List Node) (hash : Node) : Prop where
  kind : hash.kind = "hash"
  children : hash.children = (first :: rest).map Node.toValue
  start : hash.start = first.start
  stop : hash.stop = ((first :: rest).getLast (List.cons_ne_nil first rest)).stop
  text : hash.source = textBetween source hash.start.toNat hash.stop.toNat

/-- What stands beside a hash made by gathering stays as it is and is no pair. -/
theorem Argument.exists_part {b : Argument} (hproper : b.Proper) (h : b.isGathered ≠ true) :
    ∃ part, b.parts = [part] ∧ part.kind ≠ "pair" := by
  cases b with
  | alone part => exact ⟨part, rfl, hproper⟩
  | gathered first rest => exact absurd rfl h

/-- The parts of a hash made by gathering are a whole run of pairs. -/
theorem Divided.isRun {parts : List Node} {front back : List Argument} {first : Node} {rest : List Node}
    (h : Divided parts (front ++ .gathered first rest :: back)) :
    IsRun (front.flatMap Argument.parts) (first :: rest) (back.flatMap Argument.parts) := by
  obtain ⟨hfront, hproper⟩ := List.forall_mem_append.mp h.proper
  obtain ⟨hpairs, hback⟩ := List.forall_mem_cons.mp hproper
  obtain ⟨_, hchain, hlast⟩ := List.isChain_append.mp h.beside
  refine ⟨List.cons_ne_nil first rest, hpairs, fun p hp => ?_, fun p hp => ?_⟩
  · rcases List.eq_nil_or_concat front with rfl | ⟨others, b, rfl⟩
    · exact absurd hp (by simp)
    · obtain ⟨part, hparts, hkind⟩ := Argument.exists_part (hfront b (by simp))
        fun hb => hlast b (by simp) _ rfl ⟨hb, rfl⟩
      rw [List.concat_eq_append, List.flatMap_append, List.flatMap_singleton, hparts, List.getLast?_concat] at hp
      exact Option.some.inj hp ▸ hkind
  · cases back with
    | nil => exact absurd hp (by simp)
    | cons b back =>
        obtain ⟨part, hparts, hkind⟩ := Argument.exists_part (hback b List.mem_cons_self)
          fun hb => (List.isChain_cons_cons.mp hchain).1 ⟨rfl, hb⟩
        rw [List.flatMap_cons, hparts] at hp
        exact Option.some.inj hp ▸ hkind

theorem Located.toNat_start {v : Node} (h : Located source v.toValue) : (v.start.toNat : Int) = v.start :=
  Int.toNat_of_nonneg h.offsets.1

theorem Located.toNat_stop {v : Node} (h : Located source v.toValue) : (v.stop.toNat : Int) = v.stop :=
  Int.toNat_of_nonneg h.offsets.2

theorem hashOver_nodeOver {first : Node} {rest : List Node}
    (h : ∀ v ∈ first :: rest, Located source v.toValue) :
    HashOver source first rest (nodeOver source "hash" first rest) where
  kind := rfl
  children := rfl
  start := (h first List.mem_cons_self).toNat_start
  stop := (h _ (List.getLast_mem (List.cons_ne_nil first rest))).toNat_stop
  text := rfl

/-! ## The arguments in the node of a call -/

/-- Convert the arguments of a call. -/
def convertArguments (source : List UInt8) (written : ConcreteNode) : Except TreeError (List Node) :=
  (convertAll source written.parts).map (gatherPairs source [])

/-- The node of the call itself in what it becomes: the whole node, or the first child if the call has a block. -/
def IsCallIn (n : ConcreteNode) (v call : Node) : Prop :=
  if (n.childFor? "block").isSome then v.children.head? = some call.toValue else v = call

theorem convertAll_of_forall₂ {ns : List ConcreteNode} {vs : List Node}
    (h : List.Forall₂ (fun n v => convert source n = .ok v) ns vs) : convertAll source ns = .ok vs := by
  induction h with
  | nil => exact convertAll_nil
  | cons hhead _ ih =>
      rw [convertAll, hhead, ih]
      rfl

/-- The children of a call are its receiver, its name and its converted arguments. -/
theorem exists_call_of_convert {written : ConcreteNode} {v : Node} {arguments : List Node} (hform : n.form = .call)
    (hwritten : n.childFor? "arguments" = some written) (harguments : convertArguments source written = .ok arguments)
    (h : convert source n = .ok v) : ∃ call receiver method, IsCallIn n v call ∧
      call.children = valueOf receiver :: .text method :: arguments.map Node.toValue := by
  obtain ⟨parts, hparts, rfl⟩ := map_eq_ok.mp harguments
  have hall : argumentParts n = written.parts := by rw [argumentParts, hwritten]
  rw [convert_call hform, hall, hparts] at h
  obtain ⟨receiver, _, h⟩ := bind_eq_ok.mp h
  obtain ⟨_, heq, h⟩ := bind_eq_ok.mp h
  cases heq
  obtain ⟨method, hchildren⟩ := @callNode_children source n receiver parts
  refine ⟨callNode source n receiver parts, receiver, method, ?_, hchildren⟩
  rw [IsCallIn]
  cases hblock : n.childFor? "block" with
  | none =>
      rw [hblock] at h
      cases h
      exact rfl
  | some block =>
      rw [hblock] at h
      obtain ⟨parameters, _, h⟩ := bind_eq_ok.mp h
      obtain ⟨statements, _, h⟩ := bind_eq_ok.mp h
      obtain ⟨kind, second, rfl, _, _⟩ := of_blockNode h
      exact rfl

/-- The converted parts of the arguments of a call are divided among the arguments in the node of the call. No pair is
left among these, and each hash made by gathering is over a whole run of pairs. -/
theorem convertArguments_divides {written : ConcreteNode} {parts : List Node}
    (h : List.Forall₂ (fun n v => convert source n = .ok v) written.parts parts) :
    ∃ arguments : List Argument,
      convertArguments source written = .ok (arguments.map (·.node source)) ∧
      Divided parts arguments ∧
      (∀ v ∈ arguments.map (·.node source), v.kind ≠ "pair") ∧
      (∀ front first rest back, arguments = front ++ .gathered first rest :: back →
        IsRun (front.flatMap Argument.parts) (first :: rest) (back.flatMap Argument.parts) ∧
        HashOver source first rest (Argument.node source (.gathered first rest))) ∧
      ∀ n v, n.form = .call → n.childFor? "arguments" = some written → convert source n = .ok v →
        ∃ call receiver method, IsCallIn n v call ∧
          call.children = valueOf receiver :: .text method :: (arguments.map (·.node source)).map Node.toValue := by
  obtain ⟨arguments, hgathered, hdivided⟩ : ∃ arguments : List Argument,
      gatherPairs source [] parts = arguments.map (·.node source) ∧ Divided parts arguments :=
    gatherPairs_divides parts (List.forall_mem_nil _)
  have hconvert : convertArguments source written = .ok (arguments.map (·.node source)) := by
    rw [convertArguments, convertAll_of_forall₂ h, ← hgathered]
    rfl
  have hlocated : ∀ v ∈ parts, Located source v.toValue := fun v hv =>
    let ⟨_, _, hv⟩ := exists_mem_of_forall₂ h v hv
    located_of_convert hv
  refine ⟨arguments, hconvert, hdivided, List.forall_mem_map.mpr fun a ha => ?_, ?_, ?_⟩
  · have hproper := hdivided.proper a ha
    cases a with
    | alone part => exact hproper
    | gathered first rest => exact (by decide : "hash" ≠ "pair")
  · rintro front first rest back rfl
    refine ⟨hdivided.isRun, hashOver_nodeOver fun v hv => hlocated v ?_⟩
    rw [← hdivided.parts_eq]
    exact List.mem_flatMap.mpr ⟨.gathered first rest, by simp, hv⟩
  · intro n v hform hwritten hv
    exact exists_call_of_convert hform hwritten hconvert hv

/-- A source with options before and behind another argument. -/
def optionsText : String := "f(a: 1, b: 2, C, d: 3)"

/-- A key of one letter. -/
def keyAt (start : Nat) : ConcreteNode := leaf "hash_key_symbol" start (start + 1) (some "key")

/-- An integer of one digit behind a key and a colon. -/
def valueAt (start : Nat) : ConcreteNode := leaf "integer" (start + 3) (start + 4) (some "value")

def pairAt (start : Nat) : ConcreteNode :=
  ⟨"pair", true, start, start + 4, none, [keyAt start, token ":" (start + 1) none, valueAt start]⟩

def optionsList : ConcreteNode :=
  ⟨"argument_list", true, 1, 22, some "arguments", [token "(" 1 none, pairAt 2, token "," 6 none, pairAt 8,
    token "," 12 none, leaf "constant" 14 15 none, token "," 15 none, pairAt 17, token ")" 21 none]⟩

/-- What a pair becomes. -/
def pairNodeAt (source : List UInt8) (start : Nat) : Node :=
  (pairAt start).build source "pair" [((keyAt start).build source "sym" [.text ((keyAt start).text source)]).toValue,
    ((valueAt start).build source "int" [integerValue ((valueAt start).text source)]).toValue]

/-- What the constant between the pairs becomes. -/
def constantNode (source : List UInt8) : Node :=
  (leaf "constant" 14 15 none).build source "const" [.nil, .text ((leaf "constant" 14 15 none).text source)]

/-- What the parts of the list become. -/
def optionNodes (source : List UInt8) : List Node :=
  [pairNodeAt source 2, pairNodeAt source 8, constantNode source, pairNodeAt source 17]

theorem convert_pairAt (source : List UInt8) (start : Nat) :
    convert source (pairAt start) = .ok (pairNodeAt source start) := by
  have hkey : convert source (keyAt start) =
      .ok ((keyAt start).build source "sym" [.text ((keyAt start).text source)]) := by
    rw [convert]
    rfl
  have hvalue : convert source (valueAt start) =
      .ok ((valueAt start).build source "int" [integerValue ((valueAt start).text source)]) := by
    rw [convert]
    rfl
  rw [convert_pair rfl]
  show (do
    let key ← (convert source (keyAt start)).map some
    let value ← (convert source (valueAt start)).map some
    .ok ((pairAt start).build source "pair" [valueOf key, valueOf value])) = _
  rw [hkey, hvalue]
  rfl

theorem converted_optionsList (source : List UInt8) :
    List.Forall₂ (fun n v => convert source n = .ok v) optionsList.parts (optionNodes source) := by
  have hconstant : convert source (leaf "constant" 14 15 none) = .ok (constantNode source) := by
    rw [convert]
    rfl
  exact .cons (convert_pairAt source 2) (.cons (convert_pairAt source 8)
    (.cons hconstant (.cons (convert_pairAt source 17) .nil)))

theorem convertArguments_divides_options :
    List.Forall₂ (fun n v => convert (Utf8.encode optionsText) n = .ok v) optionsList.parts
      (optionNodes (Utf8.encode optionsText)) ∧
    ∃ arguments : List Argument,
      convertArguments (Utf8.encode optionsText) optionsList =
        .ok (arguments.map (·.node (Utf8.encode optionsText))) ∧
      (arguments.map (·.node (Utf8.encode optionsText))).map Node.kind = ["hash", "const", "hash"] ∧
      Divided (optionNodes (Utf8.encode optionsText)) arguments := by
  generalize Utf8.encode optionsText = source
  have hparts := converted_optionsList source
  obtain ⟨arguments, hconvert, hdivided, _⟩ := convertArguments_divides hparts
  refine ⟨hparts, arguments, hconvert, ?_, hdivided⟩
  have hgathered := hconvert
  rw [convertArguments, convertAll_of_forall₂ hparts] at hgathered
  rw [← Except.ok.inj hgathered]
  rfl

/-! ## Empty statements -/

/-- A semicolon between the parentheses of a call. -/
def strayText : String := "f(;)"

def strayList : ConcreteNode :=
  ⟨"argument_list", true, 1, 4, some "arguments", [token "(" 1 none, leaf "empty_statement" 2 3 none, token ")" 3 none]⟩

/-- An empty statement among the arguments is left out like a comment, though it is named and no comment. -/
theorem convertArguments_drops_empty :
    convertArguments (Utf8.encode strayText) strayList = .ok [] ∧
    ∃ v, List.Forall₂ (fun n v => convert (Utf8.encode strayText) n = .ok v)
        (strayList.namedChildren.filter (·.kind != "comment")) [v] ∧
      ¬∃ arguments : List Argument, arguments.map (·.node (Utf8.encode strayText)) = [] ∧
        arguments.flatMap Argument.parts = [v] := by
  generalize Utf8.encode strayText = source
  have hnone : convertArguments source strayList = .ok [] := by
    rw [convertArguments, show strayList.parts = [] from rfl, convertAll_nil]
    rfl
  obtain ⟨v, hv⟩ : ∃ v, convert source (leaf "empty_statement" 2 3 none) = .ok v := by
    rw [convert, show (leaf "empty_statement" 2 3 none).form = .other from rfl]
    simp only
    rw [convertOther]
    exact ⟨_, rfl⟩
  refine ⟨hnone, v, .cons hv .nil, ?_⟩
  rintro ⟨arguments, hempty, hparts⟩
  rw [List.map_eq_nil_iff.mp hempty] at hparts
  exact absurd hparts (List.cons_ne_nil v []).symm

end IdiomLint.Ruby
