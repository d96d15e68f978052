import IdiomLint.Proofs.Fallible
import IdiomLint.Proofs.Path
import IdiomLint.Proofs.Text.Glob

/-!
# What is excluded

Whether a file below a root is excluded depends on the names below the root alone (`Spared`, `mem_keep`). Both tests
look at the path that these names make and at what follows its slashes, and with more names in front there is only more
to look at. So a file that is dropped seen from one root is dropped seen from every root above it, too.

Main statement: `keep_below`. When the globs of a configuration are texts, these are the files that it keeps
(`keepFiles_texts`).
-/

namespace IdiomLint

namespace Exclusion

/-! ## What follows the slashes -/

theorem mem_ends {cs ds : List Char} : ds ∈ ends cs ↔ ds = cs ∨ ∃ front, cs = front ++ '/' :: ds := by
  rw [ends, List.mem_cons, List.mem_filterMap]
  refine or_congr_right ⟨?_, ?_⟩
  · rintro ⟨tail, htail, hrest⟩
    obtain ⟨front, rfl⟩ := Glob.mem_suffixes.mp htail
    split at hrest
    · cases hrest
      exact ⟨front, rfl⟩
    · exact absurd hrest (by simp)
  · rintro ⟨front, rfl⟩
    exact ⟨'/' :: ds, Glob.mem_suffixes.mpr (List.suffix_append front _), rfl⟩

/-- What follows a slash keeps its ends with more in front of it. -/
theorem mem_ends_append {cs ds : List Char} (h : ds ∈ ends cs) (front : List Char) :
    ds ∈ ends (front ++ '/' :: cs) := by
  rw [mem_ends] at h ⊢
  rcases h with rfl | ⟨more, rfl⟩
  · exact Or.inr ⟨front, rfl⟩
  · exact Or.inr ⟨front ++ '/' :: more, by simp⟩

/-- The path that some names make, with slashes in the place of backslashes. -/
def slashed (ns : List String) : List Char := withSlashes ("/".intercalate ns)

/-- With more names in front, all ends stay ends. -/
theorem mem_ends_slashed {above below : List String} (hne : below ≠ []) {ds : List Char}
    (h : ds ∈ ends (slashed below)) : ds ∈ ends (slashed (above ++ below)) := by
  by_cases habove : above = []
  · rwa [habove]
  · have hslashed : slashed (above ++ below) = slashed above ++ '/' :: slashed below := by
      simp [slashed, withSlashes, String.intercalate_append_of_ne_nil habove hne]
    rw [hslashed]
    exact mem_ends_append h _

/-! ## The two tests -/

/-- A path is in an excluded directory if the name of one, case aside, begins the path or follows one of its slashes,
and ends there. -/
theorem isExcluded_iff {path : String} :
    isExcluded path = true ↔ ∃ ds ∈ ends (withSlashes path), ∃ directory ∈ directories, ∃ word rest,
      ds = word ++ rest ∧ word.map CaseFold.fold = directory.toList ∧ endsName rest = true := by
  simp only [isExcluded, beginsExcluded, List.any_eq_true]
  refine exists_congr fun ds => and_congr_right fun _ => exists_congr fun directory => and_congr_right fun _ => ?_
  constructor
  · intro h
    split at h
    · next rest hrest =>
        obtain ⟨word, hds, hword⟩ := CaseFold.after?_eq_some.mp hrest
        exact ⟨word, rest, hds, hword, h⟩
    · exact absurd h Bool.false_ne_true
  · rintro ⟨word, rest, hds, hword, hends⟩
    rw [CaseFold.after?_eq_some.mpr ⟨word, hds, hword⟩]
    exact hends

/-- A glob matches a path or what follows one of its slashes. -/
def Hits (glob : String) (path : List Char) : Prop :=
  Glob.matchesText glob (String.ofList path) = true ∨
    ∃ front rest, path = front ++ '/' :: rest ∧ Glob.matchesText glob (String.ofList rest) = true

theorem hits_iff {glob : String} {path : List Char} :
    Hits glob path ↔ ∃ ds ∈ ends path, Glob.matchesText glob (String.ofList ds) = true := by
  constructor
  · rintro (hmatch | ⟨front, rest, hpath, hmatch⟩)
    · exact ⟨path, mem_ends.mpr (Or.inl rfl), hmatch⟩
    · exact ⟨rest, mem_ends.mpr (Or.inr ⟨front, hpath⟩), hmatch⟩
  · rintro ⟨ds, hds, hmatch⟩
    rcases mem_ends.mp hds with rfl | ⟨front, hpath⟩
    · exact Or.inl hmatch
    · exact Or.inr ⟨front, ds, hpath, hmatch⟩

theorem matchesAny_iff {path : String} {globs : List String} :
    matchesAny path globs = true ↔ ∃ glob ∈ globs, Hits glob (withSlashes path) := by
  simp only [matchesAny, List.any_eq_true, Bool.or_eq_true, Glob.matchesText_behindSlash, String.toList_ofList, Hits]

theorem matchesAny_eq_false {path : String} {globs : List String} :
    matchesAny path globs = false ↔ ∀ glob ∈ globs, ¬ Hits glob (withSlashes path) := by
  rw [Bool.eq_false_iff, Ne, matchesAny_iff]
  simp only [not_exists, not_and]

/-! ## Files below a root -/

/-- Nothing excludes the path that some names make. -/
structure Spared (globs : List String) (ns : List String) : Prop where
  outside : isExcluded ("/".intercalate ns) = false
  unmatched : ∀ glob ∈ globs, ¬ Hits glob (slashed ns)

/-- What is spared stays so with fewer names in front. -/
theorem Spared.below {globs above below : List String} (hne : below ≠ []) (h : Spared globs (above ++ below)) :
    Spared globs below := by
  constructor
  · rw [isExcluded, List.any_eq_false]
    have houtside := h.outside
    rw [isExcluded, List.any_eq_false] at houtside
    exact fun ds hds => houtside ds (mem_ends_slashed hne hds)
  · intro glob hglob hhits
    obtain ⟨ds, hds, hmatch⟩ := hits_iff.mp hhits
    exact h.unmatched glob hglob (hits_iff.mpr ⟨ds, mem_ends_slashed hne hds, hmatch⟩)

variable {root file : String} {below : List String}

/-- A file below a root is kept if it is spared by the names below the root. -/
theorem mem_keep (hne : below ≠ []) (hbelow : Path.names file = Path.names root ++ below) {files globs : List String} :
    file ∈ keep files root globs ↔ file ∈ files ∧ Spared globs below := by
  rw [keep, List.mem_filter, Path.relative_of_below hne hbelow]
  rw [Bool.and_eq_true, Bool.not_eq_true', Bool.not_eq_true', matchesAny_eq_false]
  exact and_congr_right fun _ => ⟨fun h => ⟨h.1, h.2⟩, fun h => ⟨h.outside, h.unmatched⟩⟩

/-- **What is excluded depends on the path below the root, and stays excluded from higher up.** For a file below a root:
it is kept exactly when the names below the root are spared, so it is kept like any file that has these names below any
root; a glob matches exactly when it matches the path below the root, with slashes in the place of backslashes, or what
follows a slash in it; and a file that is dropped is dropped as well seen from a root further up. -/
theorem keep_below (hne : below ≠ []) (hbelow : Path.names file = Path.names root ++ below) (globs : List String) :
    (∀ files, file ∈ files → (file ∈ keep files root globs ↔ Spared globs below)) ∧
    (∀ root' file', Path.names file' = Path.names root' ++ below → ∀ files files', file ∈ files → file' ∈ files' →
      (file' ∈ keep files' root' globs ↔ file ∈ keep files root globs)) ∧
    (∀ glob, matchesAny (Path.relative file root) [glob] = true ↔
      Glob.matchesText glob (String.ofList (slashed below)) = true ∨
        ∃ front rest, slashed below = front ++ '/' :: rest ∧ Glob.matchesText glob (String.ofList rest) = true) ∧
    ∀ higher, Path.names higher <+: Path.names root → ∀ files,
      file ∉ keep files root globs → file ∉ keep files higher globs := by
  refine ⟨?_, ?_, ?_, ?_⟩
  · intro files hfile
    rw [mem_keep hne hbelow, and_iff_right hfile]
  · intro root' file' hbelow' files files' hfile hfile'
    rw [mem_keep hne hbelow, mem_keep hne hbelow', and_iff_right hfile, and_iff_right hfile']
  · intro glob
    rw [matchesAny_iff, Path.relative_of_below hne hbelow]
    simp only [List.mem_singleton, exists_eq_left]
    rfl
  · rintro higher ⟨between, hbetween⟩ files hdropped hkept
    -- From further up, the names between the two roots come first.
    have habove : Path.names file = Path.names higher ++ (between ++ below) := by
      rw [hbelow, ← hbetween, List.append_assoc]
    obtain ⟨hfile, hspared⟩ := (mem_keep (by simp [hne]) habove).mp hkept
    exact hdropped ((mem_keep hne hbelow).mpr ⟨hfile, hspared.below hne⟩)

/-- A directory whose own place is below `tmp` excludes nothing, and what a glob drops there is dropped from the root
of all files, too. -/
theorem keep_below_tmp : ["spec", "a.rb"] ≠ [] ∧
    Path.names "/tmp/app/spec/a.rb" = Path.names "/tmp/app" ++ ["spec", "a.rb"] ∧
    "/tmp/app/spec/a.rb" ∈ keep ["/tmp/app/spec/a.rb"] "/tmp/app" ["lib/*"] ∧
    "/tmp/app/spec/a.rb" ∉ keep ["/tmp/app/spec/a.rb"] "/" ["spec/*"] := by
  have hne : ["spec", "a.rb"] ≠ [] := by decide
  have hbelow : Path.names "/tmp/app/spec/a.rb" = Path.names "/tmp/app" ++ ["spec", "a.rb"] := by decide +kernel
  have hmoved : Path.names "/srv/spec/a.rb" = Path.names "/srv" ++ ["spec", "a.rb"] := by decide +kernel
  have hsrv : "/srv/spec/a.rb" ∈ keep ["/srv/spec/a.rb"] "/srv" ["lib/*"] := by decide +kernel
  have hdropped : "/tmp/app/spec/a.rb" ∉ keep ["/tmp/app/spec/a.rb"] "/tmp/app" ["spec/*"] := by decide +kernel
  refine ⟨hne, hbelow, ?_, ?_⟩
  · exact ((keep_below hne hbelow ["lib/*"]).2.1 "/srv" "/srv/spec/a.rb" hmoved _ _ List.mem_cons_self
      List.mem_cons_self).mp hsrv
  · exact (keep_below hne hbelow ["spec/*"]).2.2.2 "/" (by decide +kernel) _ hdropped

end Exclusion

/-- With globs that are texts, a configuration keeps the files that are not excluded. -/
theorem Config.keepFiles_texts {c : Config} {globs : List String} (h : c.exclude = .list (globs.map .text))
    (files : List String) (root : String) : c.keepFiles files root = .ok (Exclusion.keep files root globs) := by
  rw [keepFiles, h]
  refine filterM_eq_ok fun file _ => ?_
  have hglobs : Exclusion.matchesAny (Path.relative file root) globs =
      globs.any fun glob => Exclusion.matchesAny (Path.relative file root) [glob] := by
    simp [Exclusion.matchesAny]
  simp only [Datum.anyGlob_texts, hglobs]
  cases Exclusion.isExcluded (Path.relative file root) with
  | true => rfl
  | false => rfl

end IdiomLint
