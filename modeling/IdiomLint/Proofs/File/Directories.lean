import Mathlib.Data.List.Infix
import IdiomLint.Proofs.File.Exclusion

/-!
# Excluded directories

The test for excluded directories goes through the text of a path. It finds just what looking at the names of the path
one by one would find: a name that is excluded, or two names in a row that are excluded together, case aside
(`NamesExcluded`). So a name that only resembles one of these excludes nothing.

Main statement: `isExcluded_by_names`.
-/

namespace IdiomLint

namespace Path

/-! ## Pieces in a row -/

theorem intercalate_splitSlash (cs : List Char) : ['/'].intercalate (splitSlash cs) = cs := by
  induction cs with
  | nil => rfl
  | cons c cs ih =>
      obtain ⟨piece, others, hsplit⟩ := List.exists_cons_of_ne_nil (splitSlash_ne_nil cs)
      rw [hsplit] at ih
      rw [splitSlash, hsplit]
      split
      · next hc => rw [List.intercalate_cons_cons, ih, hc, List.nil_append, List.singleton_append]
      · rw [List.intercalate_cons_cons_left, ih]

theorem splitSlash_injective {cs ds : List Char} (h : splitSlash cs = splitSlash ds) : cs = ds := by
  rw [← intercalate_splitSlash cs, h, intercalate_splitSlash]

theorem eq_of_splitSlash_singleton {cs p : List Char} (h : splitSlash cs = [p]) : cs = p := by
  rw [← intercalate_splitSlash cs, h, List.intercalate_singleton]

theorem eq_of_splitSlash_pair {cs p q : List Char} (h : splitSlash cs = [p, q]) : cs = p ++ '/' :: q := by
  rw [← intercalate_splitSlash cs, h, List.intercalate_cons_cons, List.intercalate_singleton, List.append_assoc,
    List.singleton_append]

theorem length_splitSlash (cs : List Char) : (splitSlash cs).length = cs.count '/' + 1 := by
  induction cs with
  | nil => rfl
  | cons c cs ih =>
      rw [splitSlash]
      split
      · next hc => rw [hc, List.length_cons, ih, List.count_cons_self]
      · next hc =>
          obtain ⟨piece, others, hsplit⟩ := List.exists_cons_of_ne_nil (splitSlash_ne_nil cs)
          rw [hsplit] at ih ⊢
          rw [List.count_cons_of_ne hc]
          exact ih

/-- Pieces without slashes are those of some text. -/
theorem exists_splitSlash {ps : List (List Char)} (hne : ps ≠ []) {cs : List Char} (h : ∀ p ∈ ps, p ∈ splitSlash cs) :
    ∃ ds, splitSlash ds = ps :=
  ⟨_, splitSlash_intercalate hne fun p hp => not_mem_of_mem_splitSlash p (h p hp)⟩

/-- The pieces of a text come first in another one if the text does, up to a slash or the end. -/
theorem splitSlash_prefix_iff {word cs : List Char} :
    splitSlash word <+: splitSlash cs ↔ ∃ rest, cs = word ++ rest ∧ (rest = [] ∨ ∃ more, rest = '/' :: more) := by
  constructor
  · rintro ⟨others, hsplit⟩
    by_cases hnil : others = []
    · rw [hnil, List.append_nil] at hsplit
      exact ⟨[], by rw [splitSlash_injective hsplit, List.append_nil], Or.inl rfl⟩
    · obtain ⟨more, hmore⟩ := exists_splitSlash hnil fun p hp => hsplit ▸ List.mem_append_right _ hp
      rw [← hmore, ← splitSlash_append] at hsplit
      exact ⟨'/' :: more, (splitSlash_injective hsplit).symm, Or.inr ⟨more, rfl⟩⟩
  · rintro ⟨rest, rfl, rfl | ⟨more, rfl⟩⟩
    · rw [List.append_nil]
    · rw [splitSlash_append]
      exact List.prefix_append _ _

/-- The pieces of a text come last in another one if the text does, from a slash or the start on. -/
theorem splitSlash_suffix_iff {ds cs : List Char} :
    splitSlash ds <:+ splitSlash cs ↔ ds = cs ∨ ∃ front, cs = front ++ '/' :: ds := by
  constructor
  · rintro ⟨others, hsplit⟩
    by_cases hnil : others = []
    · rw [hnil, List.nil_append] at hsplit
      exact Or.inl (splitSlash_injective hsplit)
    · obtain ⟨front, hfront⟩ := exists_splitSlash hnil fun p hp => hsplit ▸ List.mem_append_left _ hp
      rw [← hfront, ← splitSlash_append] at hsplit
      exact Or.inr ⟨front, (splitSlash_injective hsplit).symm⟩
  · rintro (rfl | ⟨front, rfl⟩)
    · exact List.suffix_refl _
    · rw [splitSlash_append]
      exact List.suffix_append _ _

end Path

namespace Exclusion

/-! ## Names -/

/-- The names of a path, whichever slashes are between them. -/
def components (path : String) : List String := Path.pieces (String.ofList (withSlashes path))

/-- Two texts are the same, case aside. -/
def SameLetters (a b : String) : Prop := a.toList.map CaseFold.fold = b.toList.map CaseFold.fold

instance (a b : String) : Decidable (SameLetters a b) :=
  inferInstanceAs (Decidable (a.toList.map CaseFold.fold = b.toList.map CaseFold.fold))

/-- Among some names, one is that of an excluded directory, or two in a row make up that of one. -/
def NamesExcluded (ns : List String) : Prop :=
  (∃ n ∈ ns, ∃ directory ∈ directories, SameLetters n directory) ∨
    ∃ a b, [a, b] <:+: ns ∧ ∃ directory ∈ directories, SameLetters (a ++ "/" ++ b) directory

/-- A name between others is not that of an excluded directory, and does not make up that of one with the name before
it or the name after it. -/
structure Harmless (front : List String) (name : String) (back : List String) : Prop where
  alone : ∀ directory ∈ directories, ¬ SameLetters name directory
  withLast : ∀ a, front.getLast? = some a → ∀ directory ∈ directories, ¬ SameLetters (a ++ "/" ++ name) directory
  withNext : ∀ b, back.head? = some b → ∀ directory ∈ directories, ¬ SameLetters (name ++ "/" ++ b) directory

/-! ## What the test looks at -/

theorem endsName_iff {rest : List Char} (h : rest ≠ ['\n']) :
    endsName rest = true ↔ rest = [] ∨ ∃ more, rest = '/' :: more := by
  unfold endsName
  split
  · simp
  · simp
  · exact absurd rfl h
  · next hnil hslash _ =>
      refine ⟨fun hends => absurd hends Bool.false_ne_true, ?_⟩
      rintro (hrest | ⟨more, hrest⟩)
      · exact absurd hrest hnil
      · exact absurd hrest (hslash more)

/-- A path ends in a line feed if it does so with slashes in the place of backslashes. -/
theorem feed_of_suffix_withSlashes {path : String} (h : ['\n'] <:+ withSlashes path) :
    path.toList.getLast? = some '\n' := by
  have hlast : (withSlashes path).getLast? = some '\n' := by
    obtain ⟨front, hfront⟩ := h
    rw [← hfront, List.getLast?_concat]
  rw [withSlashes, List.getLast?_map, Option.map_eq_some_iff] at hlast
  obtain ⟨c, hc, hfeed⟩ := hlast
  split at hfeed
  · exact absurd hfeed (by decide)
  · rw [hc, hfeed]

/-- A path is excluded if among its pieces there are, in a row, those of the name of an excluded directory. -/
theorem isExcluded_iff_run {path : String} (hline : path.toList.getLast? ≠ some '\n') :
    isExcluded path = true ↔ ∃ directory ∈ directories, ∃ word, word.map CaseFold.fold = directory.toList ∧
      Path.splitSlash word <:+: Path.splitSlash (withSlashes path) := by
  rw [isExcluded_iff]
  constructor
  · rintro ⟨ds, hds, directory, hdirectory, word, rest, rfl, hword, hends⟩
    have hsuffix := Path.splitSlash_suffix_iff.mpr (mem_ends.mp hds)
    have hfeed : rest ≠ ['\n'] := by
      rintro rfl
      refine hline (feed_of_suffix_withSlashes ?_)
      rcases mem_ends.mp hds with hall | ⟨front, hfront⟩
      · exact hall ▸ List.suffix_append word _
      · rw [hfront]
        exact ((List.suffix_append word _).trans (List.suffix_cons _ _)).trans (List.suffix_append front _)
    have hbegins : Path.splitSlash word <+: Path.splitSlash (word ++ rest) :=
      Path.splitSlash_prefix_iff.mpr ⟨rest, rfl, (endsName_iff hfeed).mp hends⟩
    exact ⟨directory, hdirectory, word, hword, hbegins.isInfix.trans hsuffix.isInfix⟩
  · rintro ⟨directory, hdirectory, word, hword, hrun⟩
    obtain ⟨ps, hbegins, hsuffix⟩ := List.infix_iff_prefix_suffix.mp hrun
    have hne : ps ≠ [] := by
      rintro rfl
      exact Path.splitSlash_ne_nil word (List.prefix_nil.mp hbegins)
    obtain ⟨ds, rfl⟩ := Path.exists_splitSlash hne fun p hp => hsuffix.subset hp
    obtain ⟨rest, hds, hrest⟩ := Path.splitSlash_prefix_iff.mp hbegins
    refine ⟨ds, mem_ends.mpr (Path.splitSlash_suffix_iff.mp hsuffix), directory, hdirectory, word, rest, hds, hword, ?_⟩
    rcases hrest with rfl | ⟨more, rfl⟩
    · rfl
    · rfl

/-! ## Looking at names -/

theorem sameLetters_directory {n directory : String} (h : directory ∈ directories) :
    SameLetters n directory ↔ n.toList.map CaseFold.fold = directory.toList := by
  have hlower : ∀ directory ∈ directories, directory.toList.map CaseFold.fold = directory.toList := by decide +kernel
  rw [SameLetters, hlower directory h]

/-- What has the letters of an excluded directory has at most two pieces. -/
theorem length_splitSlash_le {word : List Char} {directory : String} (h : directory ∈ directories)
    (hword : word.map CaseFold.fold = directory.toList) : (Path.splitSlash word).length ≤ 2 := by
  have hslashes : ∀ directory ∈ directories, directory.toList.count '/' ≤ 1 := by decide +kernel
  have hcount : word.count '/' ≤ (word.map CaseFold.fold).count (CaseFold.fold '/') := List.count_le_count_map
  rw [hword, show CaseFold.fold '/' = '/' by decide] at hcount
  have hdirectory := hslashes directory h
  rw [Path.length_splitSlash]
  omega

theorem components_eq (path : String) :
    components path = (Path.splitSlash (withSlashes path)).map String.ofList := by
  rw [components, Path.pieces, String.toList_ofList]

/-- What stands in a row among names stands in a row among the pieces they are made of. -/
theorem exists_pieces_of_pair {a b : String} {ps : List (List Char)} (h : [a, b] <:+: ps.map String.ofList) :
    ∃ p q, [p, q] <:+: ps ∧ a = String.ofList p ∧ b = String.ofList q := by
  obtain ⟨run, hrun, heq⟩ := List.infix_map_iff.mp h
  match run, heq with
  | [p, q], heq =>
      rw [List.map_cons, List.map_cons, List.map_nil, List.cons.injEq, List.cons.injEq] at heq
      exact ⟨p, q, hrun, heq.1, heq.2.1⟩

/-- Pieces in a row are those of the name of an excluded directory if the names are excluded. -/
theorem namesExcluded_components_iff (path : String) :
    NamesExcluded (components path) ↔ ∃ directory ∈ directories, ∃ word, word.map CaseFold.fold = directory.toList ∧
      Path.splitSlash word <:+: Path.splitSlash (withSlashes path) := by
  have hslash {p : List Char} (hp : p ∈ Path.splitSlash (withSlashes path)) : Path.splitSlash p = [p] :=
    Path.splitSlash_of_not_mem (Path.not_mem_of_mem_splitSlash p hp)
  rw [components_eq]
  constructor
  · rintro (⟨n, hn, directory, hdirectory, hsame⟩ | ⟨a, b, hpair, directory, hdirectory, hsame⟩)
    · obtain ⟨p, hp, rfl⟩ := List.mem_map.mp hn
      rw [sameLetters_directory hdirectory, String.toList_ofList] at hsame
      refine ⟨directory, hdirectory, p, hsame, ?_⟩
      rw [hslash hp]
      exact (List.singleton_infix_iff p _).mpr hp
    · obtain ⟨p, q, hrun, rfl, rfl⟩ := exists_pieces_of_pair hpair
      rw [sameLetters_directory hdirectory] at hsame
      refine ⟨directory, hdirectory, p ++ '/' :: q, by simpa using hsame, ?_⟩
      rw [Path.splitSlash_append, hslash (hrun.subset (by simp)), hslash (hrun.subset (by simp))]
      exact hrun
  · rintro ⟨directory, hdirectory, word, hword, hrun⟩
    have hlength := length_splitSlash_le hdirectory hword
    match hsplit : Path.splitSlash word, hlength with
    | [], _ => exact absurd hsplit (Path.splitSlash_ne_nil word)
    | [p], _ =>
        rw [hsplit, List.singleton_infix_iff] at hrun
        refine Or.inl ⟨String.ofList p, List.mem_map_of_mem hrun, directory, hdirectory, ?_⟩
        rw [sameLetters_directory hdirectory, String.toList_ofList, ← hword, Path.eq_of_splitSlash_singleton hsplit]
    | [p, q], _ =>
        rw [hsplit] at hrun
        refine Or.inr ⟨String.ofList p, String.ofList q, hrun.map String.ofList, directory, hdirectory, ?_⟩
        rw [sameLetters_directory hdirectory, ← hword, Path.eq_of_splitSlash_pair hsplit]
        simp

/-! ## Harmless names -/

theorem NamesExcluded.mono {ns more : List String} (h : NamesExcluded ns) (hrun : ns <:+: more) :
    NamesExcluded more := by
  rcases h with ⟨n, hn, hexcluded⟩ | ⟨a, b, hpair, hexcluded⟩
  · exact Or.inl ⟨n, hrun.subset hn, hexcluded⟩
  · exact Or.inr ⟨a, b, hpair.trans hrun, hexcluded⟩

/-- What stands in a row around a name is in front of it, behind it, or next to it. -/
theorem pair_infix_append_cons {a b name : String} {front back : List String}
    (h : [a, b] <:+: front ++ name :: back) :
    [a, b] <:+: front ∨ (front.getLast? = some a ∧ b = name) ∨ (a = name ∧ back.head? = some b) ∨
      [a, b] <:+: back := by
  have hnext (hbegins : [a, b] <+: name :: back) : a = name ∧ back.head? = some b := by
    obtain ⟨rest, hrest⟩ := hbegins
    obtain ⟨rfl, rfl⟩ := List.cons.inj hrest
    exact ⟨rfl, rfl⟩
  rcases List.infix_append_iff.mp h with hfront | hback | ⟨as, bs, heq, has, hbs⟩
  · exact Or.inl hfront
  · rcases List.infix_cons_iff.mp hback with hbegins | hback
    · exact Or.inr (Or.inr (Or.inl (hnext hbegins)))
    · exact Or.inr (Or.inr (Or.inr hback))
  · -- The two may also stand on both sides of the place where the name comes.
    match as, heq with
    | [], heq =>
        rw [List.nil_append] at heq
        exact Or.inr (Or.inr (Or.inl (hnext (heq ▸ hbs))))
    | [c], heq =>
        obtain ⟨rfl, rfl⟩ := List.cons.inj heq
        obtain ⟨rest, hrest⟩ := hbs
        obtain ⟨others, rfl⟩ := has
        exact Or.inr (Or.inl ⟨List.getLast?_concat, (List.cons.inj hrest).1⟩)
    | [c, d], heq =>
        rw [List.cons_append, List.cons.injEq, List.cons_append, List.cons.injEq] at heq
        rw [heq.1, heq.2.1]
        exact Or.inl has.isInfix

/-- A harmless name excludes nothing. -/
theorem Harmless.namesExcluded_iff {front back : List String} {name : String} (h : Harmless front name back) :
    NamesExcluded (front ++ name :: back) ↔ NamesExcluded front ∨ NamesExcluded back := by
  constructor
  · rintro (⟨n, hn, directory, hdirectory, hsame⟩ | ⟨a, b, hpair, directory, hdirectory, hsame⟩)
    · rcases List.mem_append.mp hn with hn | hn
      · exact Or.inl (Or.inl ⟨n, hn, directory, hdirectory, hsame⟩)
      · rcases List.mem_cons.mp hn with rfl | hn
        · exact absurd hsame (h.alone directory hdirectory)
        · exact Or.inr (Or.inl ⟨n, hn, directory, hdirectory, hsame⟩)
    · rcases pair_infix_append_cons hpair with hfront | ⟨hlast, rfl⟩ | ⟨rfl, hnext⟩ | hback
      · exact Or.inl (Or.inr ⟨a, b, hfront, directory, hdirectory, hsame⟩)
      · exact absurd hsame (h.withLast a hlast directory hdirectory)
      · exact absurd hsame (h.withNext b hnext directory hdirectory)
      · exact Or.inr (Or.inr ⟨a, b, hback, directory, hdirectory, hsame⟩)
  · rintro (hfront | hback)
    · exact hfront.mono (List.prefix_append front _).isInfix
    · exact hback.mono ((List.suffix_cons name back).trans (List.suffix_append front _)).isInfix

/-- **Excluded directories are recognised by their names.** A path that does not end in a line feed is excluded exactly
if one of its names, or two of its names in a row with a slash between them, are the name of an excluded directory, case
aside. So a name that is no such name, neither alone nor with a name next to it, excludes nothing: with it the path is
excluded just because of what is in front of the name or behind it. -/
theorem isExcluded_by_names {path : String} (hline : path.toList.getLast? ≠ some '\n') :
    (isExcluded path = true ↔
      (∃ n ∈ components path, ∃ directory ∈ directories, SameLetters n directory) ∨
        ∃ a b, [a, b] <:+: components path ∧ ∃ directory ∈ directories, SameLetters (a ++ "/" ++ b) directory) ∧
    ∀ front name back, components path = front ++ name :: back → Harmless front name back →
      (isExcluded path = true ↔ NamesExcluded front ∨ NamesExcluded back) := by
  have hnames : isExcluded path = true ↔ NamesExcluded (components path) :=
    (isExcluded_iff_run hline).trans (namesExcluded_components_iff path).symm
  refine ⟨hnames, ?_⟩
  intro front name back hcomponents hharmless
  rw [hnames, hcomponents]
  exact hharmless.namesExcluded_iff

/-- Names that contain, extend or abbreviate one of an excluded directory. -/
example : isExcluded "vendored/mytmp\\log.d/publicassets/public/a.rb" = false := by decide +kernel

/-- A name that resembles two excluded ones leaves a path excluded that is so because of the name before it. -/
theorem isExcluded_by_names_resembling : "app\\Vendor/publicassets/a.rb".toList.getLast? ≠ some '\n' ∧
    components "app\\Vendor/publicassets/a.rb" = ["app", "Vendor"] ++ "publicassets" :: ["a.rb"] ∧
    Harmless ["app", "Vendor"] "publicassets" ["a.rb"] ∧ isExcluded "app\\Vendor/publicassets/a.rb" = true := by
  have hline : "app\\Vendor/publicassets/a.rb".toList.getLast? ≠ some '\n' := by decide +kernel
  have hcomponents : components "app\\Vendor/publicassets/a.rb" = ["app", "Vendor"] ++ "publicassets" :: ["a.rb"] := by
    decide +kernel
  have hharmless : Harmless ["app", "Vendor"] "publicassets" ["a.rb"] := by
    constructor
    · decide +kernel
    · intro a ha
      obtain rfl : "Vendor" = a := Option.some.inj ha
      decide +kernel
    · intro b hb
      obtain rfl : "a.rb" = b := Option.some.inj hb
      decide +kernel
  refine ⟨hline, hcomponents, hharmless, ?_⟩
  refine ((isExcluded_by_names hline).2 _ _ _ hcomponents hharmless).mpr (Or.inl (Or.inl ?_))
  exact ⟨"Vendor", by simp, "vendor", by decide, by decide +kernel⟩

end Exclusion

end IdiomLint
