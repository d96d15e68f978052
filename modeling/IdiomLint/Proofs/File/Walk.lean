import IdiomLint.Proofs.File.Outline

/-!
# Files below a directory

The files listed below a directory are those to which a way leads on which no directory is hidden (`Visible`,
`mem_filesBelow_iff`). Where a way leads is said by `get?`, so that a walk through the directories and the way that a
path takes meet in `visible_iff`.
-/

namespace IdiomLint.FileTree

/-! ## Tidy trees -/

mutual

/-- Every entry of a directory has a proper name. -/
def Tidy : FileTree → Prop
  | .file _ => True
  | .directory entries => TidyAll entries

/-- Every entry among the entries of a directory and below them has a proper name. -/
def TidyAll : List (String × FileTree) → Prop
  | [] => True
  | (name, t) :: rest => Path.Proper name ∧ Tidy t ∧ TidyAll rest

end

theorem tidyAll_iff {entries : List (String × FileTree)} :
    TidyAll entries ↔ ∀ e ∈ entries, Path.Proper e.1 ∧ e.2.Tidy := by
  induction entries with
  | nil => simp [TidyAll]
  | cons e entries ih => rw [TidyAll, ih, List.forall_mem_cons, and_assoc]

theorem Tidy.get? {t found : FileTree} {names : List String} (ht : t.Tidy) (h : t.get? names = some found) :
    found.Tidy := by
  induction names generalizing t with
  | nil => exact Option.some.inj h ▸ ht
  | cons name names ih =>
      obtain ⟨entries, inner, rfl, hinner, h⟩ := get?_cons_eq_some h
      exact ih (tidyAll_iff.mp ht _ (mem_of_lookup hinner)).2 h

theorem Distinct.get? {t found : FileTree} {names : List String} (ht : t.Distinct) (h : t.get? names = some found) :
    found.Distinct := by
  induction names generalizing t with
  | nil => exact Option.some.inj h ▸ ht
  | cons name names ih =>
      obtain ⟨entries, inner, rfl, hinner, h⟩ := get?_cons_eq_some h
      exact ih (distinctAll_iff.mp ht.2 _ (mem_of_lookup hinner)) h

/-! ## Ways -/

/-- Names of directories are hidden if they begin with a point. -/
def IsHidden (name : String) : Prop := name.toList.head? = some '.'

/-- From a directory, a way through directories that are not hidden leads to a file. -/
inductive Visible : FileTree → List String → String → Prop
  | here {entries : List (String × FileTree)} {name : String} {content : List UInt8}
    (h : entries.lookup name = some (.file content)) : Visible (.directory entries) [] name
  | inside {entries inner : List (String × FileTree)} {dir : String} {way : List String} {name : String}
    (h : entries.lookup dir = some (.directory inner)) (hdir : ¬ IsHidden dir)
    (hinner : Visible (.directory inner) way name) : Visible (.directory entries) (dir :: way) name

/-- In a tidy tree, a way is made of proper names. -/
theorem Visible.proper {t : FileTree} {way : List String} {name : String} (h : Visible t way name) (ht : t.Tidy) :
    ∀ n ∈ way ++ [name], Path.Proper n := by
  induction h with
  | here h =>
      rw [List.nil_append, List.forall_mem_singleton]
      exact (tidyAll_iff.mp ht _ (mem_of_lookup h)).1
  | inside h _ _ ih =>
      obtain ⟨hdir, hinner⟩ := tidyAll_iff.mp ht _ (mem_of_lookup h)
      exact List.forall_mem_cons.mpr ⟨hdir, ih hinner⟩

theorem get?_append (t : FileTree) (front rest : List String) :
    t.get? (front ++ rest) = (t.get? front).bind (·.get? rest) := by
  induction front generalizing t with
  | nil => rw [List.nil_append, get?]; rfl
  | cons name front ih =>
      cases t with
      | file content => rfl
      | directory entries =>
          rw [List.cons_append, get?, get?, Option.bind_assoc]
          exact congrArg _ (funext fun t => ih t)

/-- On the way to something there are directories. -/
theorem exists_directory_of_get? {t found : FileTree} {front rest : List String} (hne : rest ≠ [])
    (h : t.get? (front ++ rest) = some found) : ∃ entries, t.get? front = some (.directory entries) := by
  rw [get?_append] at h
  obtain ⟨between, hbetween, hrest⟩ := Option.bind_eq_some_iff.mp h
  cases between with
  | directory entries => exact ⟨entries, hbetween⟩
  | file content =>
      cases rest with
      | nil => exact absurd rfl hne
      | cons name rest => exact absurd hrest (by simp [get?])

/-- A file is visible if it is there and no directory on the way to it is hidden. -/
theorem visible_iff {t : FileTree} {way : List String} {name : String} :
    Visible t way name ↔
      (∃ content, t.get? (way ++ [name]) = some (.file content)) ∧ ∀ dir ∈ way, ¬ IsHidden dir := by
  induction way generalizing t with
  | nil =>
      constructor
      · rintro @⟨entries, _, content, h⟩
        refine ⟨⟨content, ?_⟩, by simp⟩
        rw [List.nil_append, get?, h]
        rfl
      · rintro ⟨⟨content, h⟩, _⟩
        obtain ⟨entries, found, rfl, hfound, h⟩ := get?_cons_eq_some h
        rw [get?, Option.some.injEq] at h
        exact .here (hfound.trans (congrArg some h))
  | cons dir way ih =>
      constructor
      · rintro (_ | @⟨entries, inner, _, _, _, hinner, hdir, hvisible⟩)
        obtain ⟨⟨content, h⟩, hhidden⟩ := ih.mp hvisible
        refine ⟨⟨content, ?_⟩, List.forall_mem_cons.mpr ⟨hdir, hhidden⟩⟩
        rw [List.cons_append, get?, hinner]
        exact h
      · rintro ⟨⟨content, h⟩, hhidden⟩
        obtain ⟨entries, found, rfl, hfound, h⟩ := get?_cons_eq_some h
        obtain ⟨hdir, hhidden⟩ := List.forall_mem_cons.mp hhidden
        cases found with
        | file content => exact absurd h (by cases way <;> simp [get?])
        | directory inner => exact .inside hfound hdir (ih.mpr ⟨⟨content, h⟩, hhidden⟩)

/-! ## Walks -/

/-- The paths listed for an entry of a directory. -/
def entryPaths (path : String) : String × FileTree → List String
  | (name, .file _) => [Path.join path name]
  | (name, .directory entries) =>
    if name.toList.head? == some '.' then [] else filesBelow (Path.join path name) (.directory entries)

theorem entryFiles_eq_flatMap (path : String) (entries : List (String × FileTree)) :
    entryFiles path entries = entries.flatMap (entryPaths path) := by
  induction entries with
  | nil => rfl
  | cons e entries ih =>
      obtain ⟨name, content | inner⟩ := e
      · rw [entryFiles, ih, List.flatMap_cons]
        rfl
      · rw [entryFiles, ih, List.flatMap_cons]
        rfl

/-- What is visible is listed. -/
theorem Visible.mem_filesBelow {t : FileTree} {way : List String} {name : String} (h : Visible t way name) :
    ∀ path, Path.join (way.foldl Path.join path) name ∈ t.filesBelow path := by
  induction h with
  | @here entries name content h =>
      intro path
      rw [filesBelow, entryFiles_eq_flatMap]
      exact List.mem_flatMap.mpr ⟨_, mem_of_lookup h, List.mem_singleton_self _⟩
  | @inside entries inner dir way name h hdir _ ih =>
      intro path
      rw [filesBelow, entryFiles_eq_flatMap]
      refine List.mem_flatMap.mpr ⟨_, mem_of_lookup h, ?_⟩
      rw [entryPaths, if_neg (by rwa [beq_iff_eq])]
      exact ih (Path.join path dir)

/-- What is listed is visible. The recursion is on the tree, as an entry may be listed that no way leads to if its name
stands twice. -/
theorem exists_visible {path f : String} : ∀ {t : FileTree}, t.Distinct → f ∈ t.filesBelow path →
    ∃ way name, Visible t way name ∧ f = Path.join (way.foldl Path.join path) name
  | .file _, _, hf => by
    rw [filesBelow] at hf
    exact absurd hf List.not_mem_nil
  | .directory entries, ⟨hnames, hall⟩, hf => by
    rw [filesBelow, entryFiles_eq_flatMap] at hf
    obtain ⟨⟨name, t⟩, he, hf⟩ := List.mem_flatMap.mp hf
    have hlookup : entries.lookup name = some t := lookup_of_mem hnames he
    have ht := distinctAll_iff.mp hall _ he
    cases t with
    | file content => exact ⟨[], name, .here hlookup, List.mem_singleton.mp hf⟩
    | directory inner =>
        rw [entryPaths] at hf
        split at hf
        · exact absurd hf List.not_mem_nil
        · next hdir =>
            have hsmaller : sizeOf inner < sizeOf entries := by
              have hentry := List.sizeOf_lt_of_mem he
              simp only [Prod.mk.sizeOf_spec, directory.sizeOf_spec] at hentry
              omega
            obtain ⟨way, last, hvisible, heq⟩ := exists_visible ht hf
            exact ⟨name :: way, last, .inside hlookup (by rwa [beq_iff_eq] at hdir) hvisible, heq⟩
termination_by t => sizeOf t

theorem mem_filesBelow_iff {t : FileTree} (ht : t.Distinct) {path f : String} :
    f ∈ t.filesBelow path ↔ ∃ way name, Visible t way name ∧ f = Path.join (way.foldl Path.join path) name := by
  constructor
  · exact exists_visible ht
  · rintro ⟨way, name, h, rfl⟩
    exact h.mem_filesBelow path

end IdiomLint.FileTree
