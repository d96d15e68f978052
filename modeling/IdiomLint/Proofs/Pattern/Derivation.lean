import IdiomLint.Pattern.Parser
import IdiomLint.Proofs.Fallible
import IdiomLint.Proofs.Number.Decimal
import IdiomLint.Proofs.Pattern.Built

/-!
# The grammar of patterns

`Derives` is the grammar that pattern text follows, as a relation between tokens and the pattern that they
denote. The reader works through the tokens with a stack of open patterns instead, so both directions speak
of an arbitrary stack: tokens of a derivation put their pattern where the innermost open pattern expects it
(`Derives.reads`), and `Leaves` keeps, for the tokens that have been read, a derivation of every part that
is on the stack. Main statement: reading gives a pattern exactly if the grammar derives it and the checked
constructors accept it (`readTokens_eq_ok`).
-/

namespace IdiomLint.Pattern

/-! ## The grammar -/

mutual

/-- The tokens denote the pattern. Captures without a name are numbered from `first` on, and the next one
after these tokens has the number `next`. -/
inductive Derives (refs : List (String × Pattern)) : Nat → List Token → Pattern → Nat → Prop
  | any {first : Nat} : Derives refs first [.word "_"] .any first
  | nil {first : Nat} : Derives refs first [.word "nil"] (.value .nil) first
  | kind {first : Nat} {name : String} :
      name ≠ "_" → name ≠ "nil" → Derives refs first [.word name] (.ofKind name) first
  | rest {first : Nat} : Derives refs first [.ellipsis] .rest first
  | symbol {first : Nat} {name : String} :
      Derives refs first [.symbol name] (.value (.text name)) first
  | string {first : Nat} {content : String} :
      Derives refs first [.string content] (.value (.text content)) first
  | natural {first : Nat} {digits : List Nat} :
      digits.length ≤ Integer.digitLimit →
        Derives refs first [.integer false digits] (.value (.int (Integer.ofDigits 10 digits))) first
  | negative {first : Nat} {digits : List Nat} :
      digits.length ≤ Integer.digitLimit →
        Derives refs first [.integer true digits] (.value (.int (-Integer.ofDigits 10 digits))) first
  | ref {first : Nat} {name : String} {target : Pattern} :
      refs.lookup name = some target → Derives refs first [.ref name] (.ref name target) first
  | numbered {first next : Nat} {ts : List Token} {p : Pattern} :
      Derives refs (first + 1) ts p next →
        Derives refs first (.capture none :: ts) (.capture (Integer.decimal first) p) next
  | named {first next : Nat} {name : String} {ts : List Token} {p : Pattern} :
      Derives refs first ts p next →
        Derives refs first (.capture (some name) :: ts) (.capture name p) next
  | node {first next : Nat} {kind : String} {ts : List Token} {children : List Pattern} :
      DerivesAll refs first ts children next →
        Derives refs first (.openParen :: .word kind :: (ts ++ [.closeParen])) (.node kind children) next
  | oneOf {first next : Nat} {ts : List Token} {alternatives : List Pattern} :
      DerivesAll refs first ts alternatives next → alternatives ≠ [] →
        Derives refs first (.openBrace :: (ts ++ [.closeBrace])) (.oneOf alternatives) next

/-- The tokens denote the patterns, one after the other. -/
inductive DerivesAll (refs : List (String × Pattern)) :
    Nat → List Token → List Pattern → Nat → Prop
  | nil {first : Nat} : DerivesAll refs first [] [] first
  | cons {first middle next : Nat} {ts us : List Token} {p : Pattern} {ps : List Pattern} :
      Derives refs first ts p middle → DerivesAll refs middle us ps next →
        DerivesAll refs first (ts ++ us) (p :: ps) next

end

variable {source : String} {refs : List (String × Pattern)}

theorem DerivesAll.snoc {middle next : Nat} {us : List Token} {p : Pattern}
    (hp : Derives refs middle us p next) {ps : List Pattern} :
    ∀ {first : Nat} {ts : List Token}, DerivesAll refs first ts ps middle →
      DerivesAll refs first (ts ++ us) (ps ++ [p]) next := by
  induction ps with
  | nil =>
      intro first ts hps
      cases hps
      have hone := DerivesAll.cons hp .nil
      rw [List.append_nil] at hone
      exact hone
  | cons q ps ih =>
      intro first ts hps
      cases hps with
      | cons hq hps =>
          rw [List.append_assoc]
          exact .cons hq (ih hps)

/-! ## One token -/

/-- Go on after a complete pattern has been put in its place: with the frames that are still open, or to
the end of the text. -/
def resume (source : String) (refs : List (String × Pattern)) (count : Nat) (ts : List Token) :
    Pattern ⊕ List Frame → Except PatternError Pattern
  | .inl whole => if ts.isEmpty then .ok whole else .error (.trailingInput source)
  | .inr frames => readTokens source refs frames count ts

/-- The pattern that a token completes, and the frames that are open around it. -/
def complete (source : String) (refs : List (String × Pattern)) (t : Token) (frames : List Frame) :
    Except PatternError (Pattern × List Frame) :=
  match close? t frames with
  | some (closed, outer) => closed.map fun p => (p, outer)
  | none => (ofToken? refs t).bind fun
    | some p => .ok (p, frames)
    | none => .error (.unexpectedToken (spelling t) source)

/-- The tokens that open a frame. -/
def opens : Token → Bool
  | .capture _ => true
  | .openBrace => true
  | .openParen => true
  | _ => false

theorem readTokens_of_not_opens {t : Token} (h : opens t = false) (frames : List Frame) (count : Nat)
    (ts : List Token) :
    readTokens source refs frames count (t :: ts) =
      (complete source refs t frames).bind fun (p, outer) =>
        (deliver p outer).bind (resume source refs count ts) := by
  have hdeliver : ∀ p outer,
      (deliver p outer).bind (resume source refs count ts) = (do
        match ← deliver p outer with
        | .inl whole => if ts.isEmpty then .ok whole else .error (.trailingInput source)
        | .inr frames => readTokens source refs frames count ts) := by
    intro p outer
    rcases deliver p outer with e | whole | frames <;> rfl
  rw [readTokens, complete]
  · cases close? t frames with
    | some found =>
        obtain ⟨closed, outer⟩ := found
        cases closed with
        | error e => rfl
        | ok p => exact (hdeliver p outer).symm
    | none =>
        rcases ofToken? refs t with e | none | p
        · rfl
        · rfl
        · exact (hdeliver p frames).symm
  all_goals
    intros
    subst t
    exact absurd h (by simp [opens])

/-- A token that stands for a pattern of its own puts it in its place. -/
theorem readTokens_leaf {t : Token} {p : Pattern} (h : ofToken? refs t = .ok (some p))
    (frames : List Frame) (count : Nat) (ts : List Token) :
    readTokens source refs frames count (t :: ts) =
      (deliver p frames).bind (resume source refs count ts) := by
  have hopens : opens t = false := by
    cases t <;> first | rfl | simp [ofToken?] at h
  have hclose : close? t frames = none := by
    cases t <;> first | rfl | simp [ofToken?] at h
  rw [readTokens_of_not_opens hopens, complete, hclose, h]
  rfl

/-- A digit sequence that is not too long denotes its number, with the sign. -/
theorem integer_eq_ok {negative : Bool} {digits : List Nat} {n : Int} :
    integer negative digits = .ok n ↔ digits.length ≤ Integer.digitLimit ∧
      n = if negative then -(Integer.ofDigits 10 digits : Int) else Integer.ofDigits 10 digits := by
  rw [integer]
  split
  · next hlimit =>
      rw [Integer.overLimit_ten] at hlimit
      exact ⟨fun h => absurd h (by simp), fun h => absurd h.1 (Nat.not_le.mpr hlimit)⟩
  · next hlimit =>
      rw [Integer.overLimit_ten, Nat.not_lt] at hlimit
      simp [hlimit, eq_comm]

/-- The grammar derives the pattern that a single token stands for. -/
theorem derives_of_ofToken? {t : Token} {p : Pattern} (h : ofToken? refs t = .ok (some p))
    (first : Nat) : Derives refs first [t] p first := by
  cases t with
  | ellipsis => cases h; exact .rest
  | symbol name => cases h; exact .symbol
  | string content => cases h; exact .string
  | ref name =>
      rw [ofToken?] at h
      split at h
      · next hlookup =>
          cases h
          exact .ref hlookup
      · exact absurd h (by simp)
  | integer negative digits =>
      obtain ⟨n, hn, h⟩ := bind_eq_ok.mp h
      cases h
      obtain ⟨hlimit, rfl⟩ := integer_eq_ok.mp hn
      cases negative with
      | true => exact .negative hlimit
      | false => exact .natural hlimit
  | word name =>
      cases h
      by_cases hany : name = "_"
      · rw [if_pos hany, hany]
        exact .any
      · by_cases hnil : name = "nil"
        · rw [if_neg hany, if_pos hnil, hnil]
          exact .nil
        · rw [if_neg hany, if_neg hnil]
          exact .kind hany hnil
  | openParen | closeParen | openBrace | closeBrace | capture _ => exact absurd h (by simp [ofToken?])

theorem accepted_of_ofToken? {t : Token} {p : Pattern} (h : ofToken? refs t = .ok (some p)) :
    Accepted p := by
  cases t with
  | ellipsis => cases h; exact .rest
  | symbol name => cases h; exact .value _
  | string content => cases h; exact .value _
  | ref name =>
      rw [ofToken?] at h
      split at h
      · cases h
        exact .ref name _
      · exact absurd h (by simp)
  | integer negative digits =>
      obtain ⟨n, _, h⟩ := bind_eq_ok.mp h
      cases h
      exact .value _
  | word name =>
      cases h
      by_cases hany : name = "_"
      · rw [if_pos hany]
        exact .any
      · by_cases hnil : name = "nil"
        · rw [if_neg hany, if_pos hnil]
          exact .value _
        · rw [if_neg hany, if_neg hnil]
          exact .node (by simp [Accepted.rest]) (rfl : mkNode name [.rest] = .ok _)
  | openParen | closeParen | openBrace | closeBrace | capture _ => exact absurd h (by simp [ofToken?])

/-! ## What is derived is read -/

/-- Reading tokens from which the pattern is derived puts the pattern in its place. -/
def Reads (source : String) (refs : List (String × Pattern)) (p : Pattern) : Prop :=
  ∀ {first next : Nat} {ts : List Token}, Derives refs first ts p next →
    ∀ (frames : List Frame) (us : List Token),
      readTokens source refs frames first (ts ++ us) =
        (deliver p frames).bind (resume source refs next us)

/-- The tokens of a frame's parts put the parts into the frame one after the other. -/
theorem DerivesAll.reads {frame : List Pattern → Frame}
    (hframe : ∀ p parts frames,
      deliver p (frame parts :: frames) = .ok (.inr (frame (p :: parts) :: frames)))
    {ps : List Pattern} (hps : ∀ p ∈ ps, Reads source refs p) :
    ∀ {first next : Nat} {ts : List Token}, DerivesAll refs first ts ps next →
      ∀ (parts : List Pattern) (frames : List Frame) (us : List Token),
        readTokens source refs (frame parts :: frames) first (ts ++ us) =
          readTokens source refs (frame (ps.reverse ++ parts) :: frames) next us := by
  induction ps with
  | nil =>
      intro first next ts h parts frames us
      cases h
      rfl
  | cons p ps ih =>
      intro first next ts h parts frames us
      rw [List.forall_mem_cons] at hps
      cases h with
      | @cons _ middle _ ts ts' _ _ hp htail =>
          rw [List.append_assoc, hps.1 hp, hframe]
          show readTokens source refs (frame (p :: parts) :: frames) middle (ts' ++ us) = _
          rw [ih hps.2 htail, List.reverse_cons, List.append_assoc, List.singleton_append]

/-- What an accepted pattern is derived from is read as the pattern. -/
theorem Accepted.reads {p : Pattern} (hp : Accepted p) : Reads source refs p := by
  induction hp with
  | any =>
      intro first next ts h frames us
      cases h
      exact readTokens_leaf rfl frames first us
  | rest =>
      intro first next ts h frames us
      cases h
      exact readTokens_leaf rfl frames first us
  | value v =>
      intro first next ts h frames us
      cases h with
      | nil => exact readTokens_leaf rfl frames first us
      | symbol => exact readTokens_leaf rfl frames first us
      | string => exact readTokens_leaf rfl frames first us
      | natural hlimit =>
          apply readTokens_leaf
          rw [ofToken?, integer_eq_ok.mpr ⟨hlimit, rfl⟩]
          rfl
      | negative hlimit =>
          apply readTokens_leaf
          rw [ofToken?, integer_eq_ok.mpr ⟨hlimit, rfl⟩]
          rfl
  | never =>
      intro first next ts h
      cases h
  | ref name target =>
      intro first next ts h frames us
      cases h with
      | ref hlookup =>
          apply readTokens_leaf
          rw [ofToken?, hlookup]
  | @capture name inner p _ hmk ih =>
      obtain ⟨_, rfl⟩ := mkCapture_eq_ok.mp hmk
      intro first next ts h frames us
      have hdeliver : deliver inner (.capture name :: frames) = deliver (.capture name inner) frames := by
        rw [deliver, hmk]
        rfl
      cases h with
      | numbered hinner => rw [List.cons_append, readTokens, ih hinner, hdeliver]
      | named hinner => rw [List.cons_append, readTokens, ih hinner, hdeliver]
  | @node kind children p _ hmk ih =>
      obtain ⟨_, _, rfl⟩ := mkNode_eq_ok.mp hmk
      intro first next ts h frames us
      have hframe : ∀ p parts frames, deliver p (.node kind parts :: frames) =
          .ok (.inr (.node kind (p :: parts) :: frames)) := fun _ _ _ => rfl
      cases h with
      | kind hany hnil =>
          apply readTokens_leaf
          rw [ofToken?, if_neg hany, if_neg hnil]
          rfl
      | node hchildren =>
          rw [List.cons_append, List.cons_append, readTokens, List.append_assoc,
            List.singleton_append, hchildren.reads hframe ih, readTokens_of_not_opens rfl, complete,
            close?, List.append_nil, List.reverse_reverse, hmk]
          rfl
  | @oneOf alternatives p _ hmk ih =>
      obtain ⟨_, _, _, rfl, _⟩ := mkOneOf_eq_ok.mp hmk
      intro first next ts h frames us
      have hframe : ∀ p parts frames, deliver p (.oneOf parts :: frames) =
          .ok (.inr (.oneOf (p :: parts) :: frames)) := fun _ _ _ => rfl
      cases h with
      | oneOf hall _ =>
          rw [List.cons_append, readTokens, List.append_assoc, List.singleton_append,
            hall.reads hframe ih, readTokens_of_not_opens rfl, complete, close?, List.append_nil,
            List.reverse_reverse, hmk]
          rfl

/-! ## What is read is derived -/

/-- After these tokens, read from the beginning, the frames are open and so many captures numbered. Every
part that a frame holds is accepted and derived from its own tokens. -/
inductive Leaves (refs : List (String × Pattern)) : List Token → List Frame → Nat → Prop
  | start : Leaves refs [] [] 0
  | numbered {ts : List Token} {frames : List Frame} {count : Nat} :
      Leaves refs ts frames count →
        Leaves refs (ts ++ [.capture none]) (.capture (Integer.decimal count) :: frames) (count + 1)
  | named {ts : List Token} {frames : List Frame} {count : Nat} {name : String} :
      Leaves refs ts frames count →
        Leaves refs (ts ++ [.capture (some name)]) (.capture name :: frames) count
  | node {ts us : List Token} {frames : List Frame} {count next : Nat} {kind : String}
      {parts : List Pattern} :
      Leaves refs ts frames count → DerivesAll refs count us parts.reverse next →
        (∀ p ∈ parts, Accepted p) →
        Leaves refs (ts ++ .openParen :: .word kind :: us) (.node kind parts :: frames) next
  | oneOf {ts us : List Token} {frames : List Frame} {count next : Nat} {parts : List Pattern} :
      Leaves refs ts frames count → DerivesAll refs count us parts.reverse next →
        (∀ p ∈ parts, Accepted p) →
        Leaves refs (ts ++ .openBrace :: us) (.oneOf parts :: frames) next

/-- After these tokens the whole pattern has been read, or the frames are open. -/
def Reached (refs : List (String × Pattern)) (ts : List Token) (count : Nat) :
    Pattern ⊕ List Frame → Prop
  | .inl whole => Derives refs 0 ts whole count ∧ Accepted whole
  | .inr frames => Leaves refs ts frames count

/-- Putting a derived pattern into open frames is reading its tokens after theirs. -/
theorem Leaves.deliver {ts : List Token} {frames : List Frame} {count : Nat}
    (h : Leaves refs ts frames count) :
    ∀ {us : List Token} {p : Pattern} {next : Nat} {sum : Pattern ⊕ List Frame},
      Derives refs count us p next → Accepted p → deliver p frames = .ok sum →
        Reached refs (ts ++ us) next sum := by
  induction h with
  | start =>
      intro us p next sum hderives hp hdeliver
      cases hdeliver
      exact ⟨hderives, hp⟩
  | numbered _ ih =>
      intro us p next sum hderives hp hdeliver
      obtain ⟨captured, hmk, hdeliver⟩ := bind_eq_ok.mp hdeliver
      obtain ⟨_, rfl⟩ := mkCapture_eq_ok.mp hmk
      rw [List.append_assoc, List.singleton_append]
      exact ih (.numbered hderives) (.capture hp hmk) hdeliver
  | named _ ih =>
      intro us p next sum hderives hp hdeliver
      obtain ⟨captured, hmk, hdeliver⟩ := bind_eq_ok.mp hdeliver
      obtain ⟨_, rfl⟩ := mkCapture_eq_ok.mp hmk
      rw [List.append_assoc, List.singleton_append]
      exact ih (.named hderives) (.capture hp hmk) hdeliver
  | node houter hparts hall _ =>
      intro us p next sum hderives hp hdeliver
      cases hdeliver
      rw [List.append_assoc]
      refine .node houter ?_ (List.forall_mem_cons.mpr ⟨hp, hall⟩)
      rw [List.reverse_cons]
      exact .snoc hderives hparts
  | oneOf houter hparts hall _ =>
      intro us p next sum hderives hp hdeliver
      cases hdeliver
      rw [List.append_assoc]
      refine .oneOf houter ?_ (List.forall_mem_cons.mpr ⟨hp, hall⟩)
      rw [List.reverse_cons]
      exact .snoc hderives hparts

/-- A token that closes a frame or stands for a pattern of its own completes a derivation: that of the
pattern from the last tokens, with the frames around it open before them. -/
theorem Leaves.complete {ts : List Token} {frames outer : List Frame} {count : Nat} {t : Token}
    {p : Pattern} (h : Leaves refs ts frames count)
    (hcomplete : complete source refs t frames = .ok (p, outer)) :
    ∃ front back first, ts ++ [t] = front ++ back ∧ Leaves refs front outer first ∧
      Derives refs first back p count ∧ Accepted p := by
  rw [Pattern.complete] at hcomplete
  split at hcomplete
  · next closed outer' hclose =>
      obtain ⟨q, rfl, heq⟩ := map_eq_ok.mp hcomplete
      cases heq
      unfold close? at hclose
      split at hclose
      · next kind parts _ =>
          rw [Option.some.injEq, Prod.mk.injEq] at hclose
          obtain ⟨hmk, rfl⟩ := hclose
          cases h with
          | @node ts us _ first _ _ _ houter hparts hall =>
              obtain ⟨_, _, rfl⟩ := mkNode_eq_ok.mp hmk
              refine ⟨ts, .openParen :: .word kind :: (us ++ [.closeParen]), first, by simp, houter,
                .node hparts, .node (fun c hc => hall c (List.mem_reverse.mp hc)) hmk⟩
      · next parts _ =>
          rw [Option.some.injEq, Prod.mk.injEq] at hclose
          obtain ⟨hmk, rfl⟩ := hclose
          cases h with
          | @oneOf ts us _ first _ _ houter hparts hall =>
              obtain ⟨_, _, hparts', rfl, _⟩ := mkOneOf_eq_ok.mp hmk
              refine ⟨ts, .openBrace :: (us ++ [.closeBrace]), first, by simp, houter,
                .oneOf hparts (by simp [hparts']), .oneOf (fun a ha => hall a (List.mem_reverse.mp ha)) hmk⟩
      · exact absurd hclose (by simp)
  · obtain ⟨found, hfound, hcomplete⟩ := bind_eq_ok.mp hcomplete
    cases found with
    | none => exact absurd hcomplete (by simp)
    | some q =>
        cases hcomplete
        exact ⟨ts, [t], count, rfl, h, derives_of_ofToken? hfound count, accepted_of_ofToken? hfound⟩

theorem opens_of_close? {t : Token} {frames : List Frame} {found : Except PatternError Pattern × List Frame}
    (h : close? t frames = some found) : opens t = false := by
  cases t <;> first | rfl | simp [close?] at h

/-- The tokens that reading treats alike open nothing. -/
theorem opens_of_ne {t : Token} {ts : List Token} (hnamed : ∀ name, t ≠ .capture (some name))
    (hnumbered : t ≠ .capture none) (hbrace : t ≠ .openBrace) (hlast : t = .openParen → ts ≠ [])
    (hparen : ∀ u us, t = .openParen → ts ≠ u :: us) : opens t = false := by
  cases t with
  | capture name =>
      cases name with
      | none => exact absurd rfl hnumbered
      | some name => exact absurd rfl (hnamed name)
  | openBrace => exact absurd rfl hbrace
  | openParen =>
      cases ts with
      | nil => exact absurd rfl (hlast rfl)
      | cons u us => exact absurd rfl (hparen u us rfl)
  | _ => rfl

/-- A token that opens nothing either ends the whole pattern or leaves other frames open. -/
theorem Leaves.step {ts : List Token} {frames : List Frame} {count : Nat} {t : Token}
    (h : Leaves refs ts frames count) (hopens : opens t = false) {us : List Token} {p : Pattern}
    (hread : readTokens source refs frames count (t :: us) = .ok p) :
    (us = [] ∧ Derives refs 0 (ts ++ [t]) p count ∧ Accepted p) ∨
      ∃ outer, Leaves refs (ts ++ [t]) outer count ∧
        readTokens source refs outer count us = .ok p := by
  rw [readTokens_of_not_opens hopens] at hread
  obtain ⟨⟨q, outer⟩, hcomplete, hread⟩ := bind_eq_ok.mp hread
  obtain ⟨sum, hdeliver, hread⟩ := bind_eq_ok.mp hread
  obtain ⟨front, back, first, heq, houter, hderives, hq⟩ := h.complete hcomplete
  have hreached := houter.deliver hderives hq hdeliver
  rw [heq]
  cases sum with
  | inl whole =>
      rw [resume] at hread
      split at hread
      · next hempty =>
          cases hread
          exact Or.inl ⟨List.isEmpty_iff.mp hempty, hreached⟩
      · exact absurd hread (by simp)
  | inr frames => exact Or.inr ⟨frames, hreached, hread⟩

/-- Reading to the end gives a pattern that is derived from all tokens. -/
theorem Leaves.derives {frames : List Frame} {count : Nat} {us : List Token} {p : Pattern}
    (hread : readTokens source refs frames count us = .ok p) {ts : List Token}
    (h : Leaves refs ts frames count) :
    ∃ next, Derives refs 0 (ts ++ us) p next ∧ Accepted p := by
  induction frames, count, us using readTokens.induct source refs generalizing ts with
  | case1 frames count => exact absurd hread (by simp [readTokens])
  | case2 frames count name us ih =>
      rw [readTokens] at hread
      rw [List.append_cons]
      exact ih hread (.named h)
  | case3 frames count us ih =>
      rw [readTokens] at hread
      rw [List.append_cons]
      exact ih hread (.numbered h)
  | case4 frames count us ih =>
      rw [readTokens] at hread
      rw [List.append_cons]
      exact ih hread (.oneOf h .nil (by simp))
  | case5 frames count => exact absurd hread (by simp [readTokens])
  | case6 frames count kind us ih =>
      rw [readTokens] at hread
      rw [List.append_cons, List.append_cons, List.append_assoc ts [_] [_]]
      exact ih hread (.node h .nil (by simp))
  | case7 frames count t us _ => exact absurd hread (by simp [readTokens])
  -- Any other token completes a pattern.
  | case8 frames count t us _ _ _ _ _ _ closed outer hclose ih =>
      rw [List.append_cons]
      rcases h.step (opens_of_close? hclose) hread with ⟨rfl, hp⟩ | ⟨outer, houter, hread⟩
      · rw [List.append_nil]
        exact ⟨count, hp⟩
      · exact ih outer hread houter
  | case9 frames count t us hnamed hnumbered hbrace hlast _ hparen _ ih =>
      have hopens := opens_of_ne (fun name h => hnamed name h) hnumbered hbrace hlast hparen
      rw [List.append_cons]
      rcases h.step hopens hread with ⟨rfl, hp⟩ | ⟨outer, houter, hread⟩
      · rw [List.append_nil]
        exact ⟨count, hp⟩
      · exact ih outer hread houter

/-! ## Main statement -/

/-- Reading tokens gives a pattern exactly if the grammar derives it from them and the checked
constructors accept it. -/
theorem readTokens_eq_ok {ts : List Token} {p : Pattern} :
    readTokens source refs [] 0 ts = .ok p ↔ (∃ next, Derives refs 0 ts p next) ∧ Accepted p := by
  constructor
  · intro h
    obtain ⟨next, hderives, hp⟩ := Leaves.derives h .start
    exact ⟨⟨next, hderives⟩, hp⟩
  · rintro ⟨⟨next, hderives⟩, hp⟩
    have hreads : Reads source refs p := hp.reads
    have hread := hreads hderives [] []
    rw [List.append_nil] at hread
    exact hread

end IdiomLint.Pattern
