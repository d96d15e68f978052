import IdiomLint.Proofs.Pattern.Derivation
import IdiomLint.Proofs.Pattern.Splitting

/-!
# Which texts are pattern text

The checked constructors look at one layer of a pattern at a time; `Coherent` says of the whole pattern what
they make sure of together (`accepted_iff`). Reading is then described without the reader: the text splits
into tokens, the grammar derives the pattern from them, and the pattern is coherent. A text that is refused
is refused as wrong syntax, unless one of its integers is too long. Main statement: `read_iff_grammar`.
-/

namespace IdiomLint.Pattern

/-! ## What the constructors ensure together -/

/-- The first pattern is a part of the second one. The patterns that are referred to are no parts. -/
inductive Occurs : Pattern → Pattern → Prop
  | whole {p : Pattern} : Occurs p p
  | inside {p inner : Pattern} {name : String} : Occurs p inner → Occurs p (.capture name inner)
  | child {p c : Pattern} {kind : String} {children : List Pattern} :
      c ∈ children → Occurs p c → Occurs p (.node kind children)
  | alternative {p a : Pattern} {alternatives : List Pattern} :
      a ∈ alternatives → Occurs p a → Occurs p (.oneOf alternatives)

/-- What holds of every part of a pattern that may be used: a `rest` stands only at the end of a node's
children and is no alternative, no name is captured twice, an alternation counting once, and the
alternatives of an alternation capture the same names. -/
structure Coherent (p : Pattern) : Prop where
  restLast : ∀ kind children, Occurs (.node kind children) p →
    ∀ c ∈ children.dropLast, c.isRest = false
  restAlternative : ∀ alternatives, Occurs (.oneOf alternatives) p →
    ∀ a ∈ alternatives, a.isRest = false
  distinct : ∀ q, Occurs q p → q.captureNames.Nodup
  agree : ∀ alternatives, Occurs (.oneOf alternatives) p →
    ∀ a ∈ alternatives, ∀ b ∈ alternatives, ∀ n, n ∈ a.captureNames ↔ n ∈ b.captureNames

theorem restBeforeLast_eq_false {children : List Pattern} :
    restBeforeLast children = false ↔ ∀ c ∈ children.dropLast, c.isRest = false := by
  induction children with
  | nil => simp [restBeforeLast]
  | cons p ps ih =>
      cases ps with
      | nil => simp [restBeforeLast]
      | cons q qs =>
          rw [restBeforeLast, Bool.or_eq_false_iff, ih, List.dropLast_cons_cons, List.forall_mem_cons]
          simp

/-- Every part of an accepted pattern is accepted. -/
theorem Accepted.of_occurs {p q : Pattern} (h : Occurs q p) (hp : Accepted p) : Accepted q := by
  induction h with
  | whole => exact hp
  | inside _ ih => exact ih hp.of_capture.1
  | child hc _ ih => exact ih (hp.of_node.1 _ hc)
  | alternative ha _ ih => exact ih (hp.of_oneOf.1 _ ha)

theorem Accepted.coherent {p : Pattern} (hp : Accepted p) : Coherent p where
  restLast kind children h := by
    obtain ⟨hrest, _, _⟩ := mkNode_eq_ok.mp (hp.of_occurs h).of_node.2
    exact restBeforeLast_eq_false.mp hrest
  restAlternative alternatives h a ha := by
    obtain ⟨_, _, _, _, hall⟩ := mkOneOf_eq_ok.mp (hp.of_occurs h).of_oneOf.2
    exact (hall a ha).1
  distinct q h := (hp.of_occurs h).nodup_captureNames
  agree alternatives h a ha b hb n := by
    obtain ⟨_, _, _, _, hall⟩ := mkOneOf_eq_ok.mp (hp.of_occurs h).of_oneOf.2
    exact ((hall a ha).2 n).trans ((hall b hb).2 n).symm

/-- A part of a coherent pattern is coherent. -/
theorem Coherent.of_part {p q : Pattern} (hpart : ∀ r, Occurs r q → Occurs r p) (hp : Coherent p) :
    Coherent q where
  restLast kind children h := hp.restLast kind children (hpart _ h)
  restAlternative alternatives h := hp.restAlternative alternatives (hpart _ h)
  distinct r h := hp.distinct r (hpart _ h)
  agree alternatives h := hp.agree alternatives (hpart _ h)

mutual

theorem Coherent.accepted (p : Pattern) (hp : Coherent p) (hempty : ¬ Occurs (.oneOf []) p) :
    Accepted p := by
  match p with
  | .any => exact .any
  | .rest => exact .rest
  | .value v => exact .value v
  | .never => exact .never
  | .ref name target => exact .ref name target
  | .capture name inner =>
      have hinner := Coherent.accepted inner (hp.of_part fun _ => .inside) (fun h => hempty (.inside h))
      have hnames := hp.distinct _ .whole
      rw [captureNames, List.nodup_cons] at hnames
      exact .capture hinner (mkCapture_eq_ok.mpr ⟨hnames.1, rfl⟩)
  | .node kind children =>
      have hchildren := accepted_of_coherent children
        (fun c hc => ⟨hp.of_part fun _ => .child hc, fun h => hempty (.child hc h)⟩)
      have hnames := hp.distinct _ .whole
      rw [captureNames] at hnames
      have hrest := restBeforeLast_eq_false.mpr (hp.restLast kind children .whole)
      exact .node hchildren (mkNode_eq_ok.mpr ⟨hrest, hnames, rfl⟩)
  | .oneOf [] => exact absurd .whole hempty
  | .oneOf (first :: others) =>
      have hall := accepted_of_coherent (first :: others)
        (fun a ha => ⟨hp.of_part fun _ => .alternative ha, fun h => hempty (.alternative ha h)⟩)
      refine .oneOf hall (mkOneOf_eq_ok.mpr ⟨first, others, rfl, rfl, fun a ha => ⟨?_, ?_⟩⟩)
      · exact hp.restAlternative _ .whole a ha
      · exact hp.agree _ .whole a ha first List.mem_cons_self

theorem accepted_of_coherent (ps : List Pattern)
    (hps : ∀ p ∈ ps, Coherent p ∧ ¬ Occurs (.oneOf []) p) : ∀ p ∈ ps, Accepted p := by
  match ps with
  | [] => exact fun p hp => absurd hp List.not_mem_nil
  | p :: ps =>
      rw [List.forall_mem_cons] at hps ⊢
      exact ⟨Coherent.accepted p hps.1.1 hps.1.2, accepted_of_coherent ps hps.2⟩

end

/-- The constructors accept a pattern layer by layer exactly if it is coherent as a whole and none of its
alternations is empty. -/
theorem accepted_iff {p : Pattern} : Accepted p ↔ Coherent p ∧ ¬ Occurs (.oneOf []) p := by
  constructor
  · intro hp
    refine ⟨hp.coherent, fun h => ?_⟩
    obtain ⟨_, _, heq, _⟩ := mkOneOf_eq_ok.mp (hp.of_occurs h).of_oneOf.2
    exact absurd heq (by simp)
  · rintro ⟨hp, hempty⟩
    exact Coherent.accepted p hp hempty

/-! ## What is derived has no empty alternation -/

variable {source : String} {refs : List (String × Pattern)}

theorem DerivesAll.exists_of_mem {ps : List Pattern} {p : Pattern} (hp : p ∈ ps) :
    ∀ {first next : Nat} {ts : List Token}, DerivesAll refs first ts ps next →
      ∃ middle us last, Derives refs middle us p last := by
  induction ps with
  | nil => exact absurd hp List.not_mem_nil
  | cons q ps ih =>
      intro first next ts h
      cases h with
      | cons hq hps =>
          rcases List.mem_cons.mp hp with rfl | hp
          · exact ⟨_, _, _, hq⟩
          · exact ih hp hps

theorem Occurs.ne_oneOf_nil {p q : Pattern} (h : Occurs q p) :
    ∀ {first next : Nat} {ts : List Token}, Derives refs first ts p next → q ≠ .oneOf [] := by
  induction h with
  | whole =>
      rintro first next ts hderives rfl
      cases hderives with
      | oneOf _ hne => exact hne rfl
  | inside _ ih =>
      intro first next ts hderives
      cases hderives with
      | numbered hinner => exact ih hinner
      | named hinner => exact ih hinner
  | child hc hq ih =>
      intro first next ts hderives
      cases hderives with
      | kind _ _ =>
          rw [List.mem_singleton] at hc
          subst hc
          exact ih (Derives.rest : Derives refs 0 [.ellipsis] .rest 0)
      | node hchildren =>
          obtain ⟨_, _, _, hchild⟩ := hchildren.exists_of_mem hc
          exact ih hchild
  | alternative ha _ ih =>
      intro first next ts hderives
      cases hderives with
      | oneOf hall _ =>
          obtain ⟨_, _, _, halternative⟩ := hall.exists_of_mem ha
          exact ih halternative

/-- What is derived is accepted exactly if it is coherent. -/
theorem Derives.accepted_iff {first next : Nat} {ts : List Token} {p : Pattern}
    (h : Derives refs first ts p next) : Accepted p ↔ Coherent p := by
  rw [Pattern.accepted_iff]
  exact and_iff_left fun hempty => hempty.ne_oneOf_nil h rfl

/-! ## Errors -/

/-- The token is an integer of more digits than may be read. -/
def TooLong (t : Token) : Prop :=
  ∃ negative digits, t = .integer negative digits ∧ Integer.digitLimit < digits.length

theorem isSyntax_of_mkCapture {name : String} {inner : Pattern} {e : PatternError}
    (h : mkCapture name inner = .error e) : e.isSyntax = true := by
  rw [mkCapture] at h
  split at h
  · cases h
    rfl
  · exact absurd h (by simp)

theorem isSyntax_of_mkNode {kind : String} {children : List Pattern} {e : PatternError}
    (h : mkNode kind children = .error e) : e.isSyntax = true := by
  rw [mkNode] at h
  split at h
  · cases h
    rfl
  · split at h
    · cases h
      rfl
    · exact absurd h (by simp)

theorem isSyntax_of_checkAlternatives {expected : List String} {ps : List Pattern} {e : PatternError}
    (h : checkAlternatives expected ps = .error e) : e.isSyntax = true := by
  induction ps with
  | nil => exact absurd h (by simp [checkAlternatives])
  | cons p ps ih =>
      rw [checkAlternatives] at h
      split at h
      · cases h
        rfl
      · split at h
        · exact ih h
        · cases h
          rfl

theorem isSyntax_of_mkOneOf {alternatives : List Pattern} {e : PatternError}
    (h : mkOneOf alternatives = .error e) : e.isSyntax = true := by
  cases alternatives with
  | nil =>
      cases h
      rfl
  | cons first others =>
      rcases bind_eq_error.mp h with h | ⟨_, _, h⟩
      · exact isSyntax_of_checkAlternatives h
      · exact absurd h (by simp)

theorem isSyntax_of_deliver {frames : List Frame} {e : PatternError} :
    ∀ {p : Pattern}, deliver p frames = .error e → e.isSyntax = true := by
  induction frames with
  | nil => exact fun h => absurd h (by simp [deliver])
  | cons frame frames ih =>
      intro p h
      cases frame with
      | node kind children => exact absurd h (by simp [deliver])
      | oneOf alternatives => exact absurd h (by simp [deliver])
      | capture name =>
          rcases bind_eq_error.mp h with h | ⟨captured, _, h⟩
          · exact isSyntax_of_mkCapture h
          · exact ih h

theorem isSyntax_of_close? {t : Token} {frames outer : List Frame} {e : PatternError}
    (h : close? t frames = some (.error e, outer)) : e.isSyntax = true := by
  unfold close? at h
  split at h
  · rw [Option.some.injEq, Prod.mk.injEq] at h
    exact isSyntax_of_mkNode h.1
  · rw [Option.some.injEq, Prod.mk.injEq] at h
    exact isSyntax_of_mkOneOf h.1
  · exact absurd h (by simp)

theorem isSyntax_of_ofToken? {t : Token} {e : PatternError} (h : ofToken? refs t = .error e) :
    e.isSyntax = true ∨ TooLong t := by
  cases t with
  | ref name =>
      rw [ofToken?] at h
      split at h
      · exact absurd h (by simp)
      · cases h
        exact Or.inl rfl
  | integer negative digits =>
      rcases bind_eq_error.mp h with h | ⟨_, _, h⟩
      · rw [integer] at h
        split at h
        · next hlimit => exact Or.inr ⟨negative, digits, rfl, Integer.overLimit_ten.mp hlimit⟩
        · exact absurd h (by simp)
      · exact absurd h (by simp)
  | _ => exact absurd h (by simp [ofToken?])

theorem isSyntax_of_complete {t : Token} {frames : List Frame} {e : PatternError}
    (h : complete source refs t frames = .error e) : e.isSyntax = true ∨ TooLong t := by
  rw [complete] at h
  split at h
  · next closed outer hclose =>
      rw [map_eq_error] at h
      rw [h] at hclose
      exact Or.inl (isSyntax_of_close? hclose)
  · rcases bind_eq_error.mp h with h | ⟨found, _, h⟩
    · exact isSyntax_of_ofToken? h
    · cases found with
      | none =>
          cases h
          exact Or.inl rfl
      | some p => exact absurd h (by simp)

/-- A token that opens nothing fails as such, or what follows it fails. -/
theorem isSyntax_of_step {t : Token} (hopens : opens t = false) {frames : List Frame} {count : Nat}
    {ts : List Token} {e : PatternError}
    (h : readTokens source refs frames count (t :: ts) = .error e) :
    (e.isSyntax = true ∨ TooLong t) ∨
      ∃ outer, readTokens source refs outer count ts = .error e := by
  rw [readTokens_of_not_opens hopens] at h
  rcases bind_eq_error.mp h with h | ⟨⟨p, outer⟩, _, h⟩
  · exact Or.inl (isSyntax_of_complete h)
  · rcases bind_eq_error.mp h with h | ⟨sum, _, h⟩
    · exact Or.inl (Or.inl (isSyntax_of_deliver h))
    · cases sum with
      | inl whole =>
          rw [resume] at h
          split at h
          · exact absurd h (by simp)
          · cases h
            exact Or.inl (Or.inl rfl)
      | inr frames => exact Or.inr ⟨frames, h⟩

/-- Tokens that are refused are refused as wrong syntax, unless one of them is too long an integer. -/
theorem isSyntax_of_readTokens {frames : List Frame} {count : Nat} {ts : List Token} {e : PatternError}
    (h : readTokens source refs frames count ts = .error e) :
    e.isSyntax = true ∨ ∃ t ∈ ts, TooLong t := by
  induction frames, count, ts using readTokens.induct source refs with
  | case1 frames count =>
      cases h
      exact Or.inl rfl
  | case2 frames count name ts ih =>
      rw [readTokens] at h
      simpa [TooLong] using ih h
  | case3 frames count ts ih =>
      rw [readTokens] at h
      simpa [TooLong] using ih h
  | case4 frames count ts ih =>
      rw [readTokens] at h
      simpa [TooLong] using ih h
  | case5 frames count =>
      rw [readTokens] at h
      cases h
      exact Or.inl rfl
  | case6 frames count kind ts ih =>
      rw [readTokens] at h
      simpa [TooLong] using ih h
  | case7 frames count t ts _ =>
      rw [readTokens] at h
      · cases h
        exact Or.inl rfl
      · assumption
  | case8 frames count t ts _ _ _ _ _ _ closed outer hclose ih =>
      rw [List.exists_mem_cons_iff, ← or_assoc]
      rcases isSyntax_of_step (opens_of_close? hclose) h with h | ⟨outer, h⟩
      · exact Or.inl h
      · exact (ih outer h).imp_left Or.inl
  | case9 frames count t ts hnamed hnumbered hbrace hlast _ hparen _ ih =>
      have hopens := opens_of_ne (fun name h => hnamed name h) hnumbered hbrace hlast hparen
      rw [List.exists_mem_cons_iff, ← or_assoc]
      rcases isSyntax_of_step hopens h with h | ⟨outer, h⟩
      · exact Or.inl h
      · exact (ih outer h).imp_left Or.inl

/-- A text that does not split into tokens is wrong syntax. -/
theorem isSyntax_of_tokensFrom {offset : Nat} {cs : List Char} {e : PatternError}
    (h : Token.tokensFrom offset cs = .error e) : e.isSyntax = true := by
  fun_induction Token.tokensFrom offset cs with
  | case1 => exact absurd h (by simp)
  | case2 offset c rest _ ih => exact ih h
  | case3 offset c rest _ t tail _ _ ih => exact ih (map_eq_error.mp h)
  | case4 =>
      cases h
      rfl

/-! ## Main statement -/

theorem read_eq_ok {s : String} {p : Pattern} :
    read s refs = .ok p ↔
      ∃ ts, Token.Splits s.toList ts ∧ (∃ next, Derives refs 0 ts p next) ∧ Coherent p := by
  constructor
  · intro h
    obtain ⟨ts, htokens, h⟩ := bind_eq_ok.mp h
    obtain ⟨⟨next, hderives⟩, hp⟩ := readTokens_eq_ok.mp h
    exact ⟨ts, Token.tokens_eq_ok.mp htokens, ⟨next, hderives⟩, hderives.accepted_iff.mp hp⟩
  · rintro ⟨ts, hsplits, ⟨next, hderives⟩, hp⟩
    refine bind_eq_ok.mpr ⟨ts, Token.tokens_eq_ok.mpr hsplits, ?_⟩
    exact readTokens_eq_ok.mpr ⟨⟨next, hderives⟩, hderives.accepted_iff.mpr hp⟩

/-- What reading returns is accepted, whatever the patterns are that the text may refer to. -/
theorem accepted_of_read {s : String} {p : Pattern} (h : read s refs = .ok p) : Accepted p := by
  obtain ⟨ts, _, h⟩ := bind_eq_ok.mp h
  exact (readTokens_eq_ok.mp h).2

/-- Reading accepts exactly the pattern texts. It gives a pattern if and only if the text splits into
tokens from which the grammar derives the pattern and the pattern is coherent. Every other text is refused,
as wrong syntax or because an integer token in it has too many digits. -/
theorem read_iff_grammar (s : String) (refs : List (String × Pattern)) :
    (∀ p, read s refs = .ok p ↔
      ∃ ts, Token.Splits s.toList ts ∧ (∃ next, Derives refs 0 ts p next) ∧ Coherent p) ∧
    ∀ e, read s refs = .error e → e.isSyntax = true ∨
      ∃ ts negative digits, Token.Splits s.toList ts ∧ .integer negative digits ∈ ts ∧
        Integer.digitLimit < digits.length := by
  refine ⟨fun p => read_eq_ok, ?_⟩
  intro e h
  rcases bind_eq_error.mp h with h | ⟨ts, htokens, h⟩
  · exact Or.inl (isSyntax_of_tokensFrom h)
  · rcases isSyntax_of_readTokens h with hsyntax | ⟨t, ht, negative, digits, rfl, hlong⟩
    · exact Or.inl hsyntax
    · exact Or.inr ⟨ts, negative, digits, Token.tokens_eq_ok.mp htokens, ht, hlong⟩

/-- An alternation without alternatives is wrong syntax. -/
theorem read_iff_grammar_empty :
    read "\x7b\x7d" [] = .error .noAlternative ∧
      (PatternError.noAlternative.isSyntax = true ∨
        ∃ ts negative digits, Token.Splits "\x7b\x7d".toList ts ∧ .integer negative digits ∈ ts ∧
          Integer.digitLimit < digits.length) := by
  have htokens : Token.tokens "\x7b\x7d" = .ok [.openBrace, .closeBrace] := by
    apply Token.tokens_of_cuts
    exact .front (by decide) rfl (.front (by decide) rfl Token.cuts_nil)
  have hread : read "\x7b\x7d" [] = .error .noAlternative := by
    rw [read, htokens]
    rfl
  exact ⟨hread, (read_iff_grammar _ _).2 _ hread⟩

end IdiomLint.Pattern
