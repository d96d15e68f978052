import IdiomLint.Config.Search
import IdiomLint.Proofs.File.Collection
import IdiomLint.Proofs.File.Tree

/-!
# The outline of a file tree

The outline of a tree is the tree without the contents of its files. Where a path leads and which files are
below it depends on the outline only, and writing to files that exist keeps the outline
(`sameOutline_writeAll`). So the same files are collected after such writes (`collectFiles_of_sameOutline`),
and what is read under a path is what was there, or what was written to its place (`read_writeAll`).
-/

namespace IdiomLint

namespace FileTree

mutual

/-- The tree without the contents of its files. -/
def outline : FileTree → FileTree
  | .file _ => .file []
  | .directory entries => .directory (outlines entries)

/-- The entries of a directory without the contents of the files below it. -/
def outlines : List (String × FileTree) → List (String × FileTree)
  | [] => []
  | (name, t) :: rest => (name, outline t) :: outlines rest

end

mutual

/-- No directory has two entries of one name. -/
def Distinct : FileTree → Prop
  | .file _ => True
  | .directory entries => (entries.map (·.1)).Nodup ∧ DistinctAll entries

/-- No directory among the entries of a directory and below them has two entries of one name. -/
def DistinctAll : List (String × FileTree) → Prop
  | [] => True
  | (_, t) :: rest => Distinct t ∧ DistinctAll rest

end

theorem outlines_eq (entries : List (String × FileTree)) :
    outlines entries = entries.map fun e => (e.1, e.2.outline) := by
  induction entries with
  | nil => rfl
  | cons e entries ih => rw [outlines, ih, List.map_cons]

theorem distinctAll_iff {entries : List (String × FileTree)} :
    DistinctAll entries ↔ ∀ e ∈ entries, e.2.Distinct := by
  induction entries with
  | nil => simp [DistinctAll]
  | cons e entries ih => rw [DistinctAll, ih, List.forall_mem_cons]

/-! ## What the outline shows -/

theorem lookup_outlines (entries : List (String × FileTree)) (name : String) :
    (outlines entries).lookup name = (entries.lookup name).map outline := by
  induction entries with
  | nil => rfl
  | cons e entries ih =>
      rw [outlines, List.lookup_cons, List.lookup_cons]
      cases name == e.1 with
      | true => rfl
      | false => exact ih

/-- What is reached in the outline is the outline of what is reached. -/
theorem get?_outline {names : List String} : ∀ t : FileTree,
    t.outline.get? names = (t.get? names).map outline := by
  induction names with
  | nil => exact fun t => by rw [get?, get?]; rfl
  | cons name names ih =>
      intro t
      cases t with
      | file content => rw [outline, get?, get?]; rfl
      | directory entries =>
          rw [outline, get?, get?, lookup_outlines]
          cases entries.lookup name with
          | none => rfl
          | some t => exact ih t

mutual

theorem filesBelow_outline (path : String) : ∀ t : FileTree,
    t.outline.filesBelow path = t.filesBelow path
  | .file _ => by rw [outline, filesBelow, filesBelow]
  | .directory entries => by rw [outline, filesBelow, filesBelow, entryFiles_outlines path entries]

theorem entryFiles_outlines (path : String) : ∀ entries : List (String × FileTree),
    entryFiles path (outlines entries) = entryFiles path entries
  | [] => rfl
  | (name, .file _) :: rest => by
    rw [outlines, outline, entryFiles, entryFiles, entryFiles_outlines path rest]
  | (name, .directory entries) :: rest => by
    have hbelow := filesBelow_outline (Path.join path name) (.directory entries)
    rw [outline] at hbelow
    rw [outlines, outline, entryFiles, entryFiles, hbelow, entryFiles_outlines path rest]

end

mutual

theorem distinct_outline : ∀ t : FileTree, t.outline.Distinct ↔ t.Distinct
  | .file _ => by rw [outline, Distinct, Distinct]
  | .directory entries => by
    rw [outline, Distinct, Distinct, distinctAll_outlines entries, outlines_eq, List.map_map]
    rfl

theorem distinctAll_outlines : ∀ entries : List (String × FileTree),
    DistinctAll (outlines entries) ↔ DistinctAll entries
  | [] => Iff.rfl
  | (_, t) :: rest => by
    rw [outlines, DistinctAll, DistinctAll, distinct_outline t, distinctAll_outlines rest]

end

/-! ## Writing a file -/

/-- Setting an entry to something of the same outline keeps the outlines. -/
theorem outlines_setEntry {entries : List (String × FileTree)} {name : String} {old new : FileTree}
    (hnames : (entries.map (·.1)).Nodup) (hold : entries.lookup name = some old)
    (hnew : new.outline = old.outline) : outlines (setEntry entries name new) = outlines entries := by
  rw [outlines_eq, outlines_eq, setEntry, if_pos (any_of_lookup hold), List.map_map]
  refine List.map_congr_left fun e he => ?_
  rw [Function.comp_apply]
  split
  · next hname =>
      -- There is only one entry of the name.
      rw [beq_iff_eq] at hname
      have hsame := lookup_of_mem hnames he
      rw [hname, hold, Option.some.injEq] at hsame
      rw [hnew, hsame, hname]
  · rfl

/-- A file in the place of a file changes nothing in the outline. -/
theorem outline_put {names : List String} (content : List UInt8) : ∀ {t : FileTree} {old : List UInt8},
    t.Distinct → t.get? names = some (.file old) → (t.put names (.file content)).outline = t.outline := by
  induction names with
  | nil =>
      intro t old _ h
      cases h
      rw [put, outline, outline]
  | cons name rest ih =>
      intro t old hdistinct h
      obtain ⟨entries, before, rfl, hbefore, hrest⟩ := get?_cons_eq_some h
      obtain ⟨hnames, hall⟩ := hdistinct
      have hsame := ih (distinctAll_iff.mp hall _ (mem_of_lookup hbefore)) hrest
      rw [put, outline, outline, hbefore]
      exact congrArg FileTree.directory (outlines_setEntry hnames hbefore hsame)

end FileTree

namespace Disk

/-- Two disks differ in nothing but the contents of their files. -/
structure SameOutline (d d' : Disk) : Prop where
  root : d'.root.outline = d.root.outline
  directory : d'.directory = d.directory

variable {d d' : Disk}

theorem find_of_follow {path : String} {names : List String} (h : d.follow path = .ok names) :
    d.find path = match d.root.get? names with
      | some t => .ok t
      | none => .error .notFound := by
  rw [find, h]
  rfl

namespace SameOutline

theorem refl (d : Disk) : SameOutline d d := ⟨rfl, rfl⟩

theorem trans {d'' : Disk} (h : SameOutline d d') (h' : SameOutline d' d'') : SameOutline d d'' :=
  ⟨h'.root.trans h.root, h'.directory.trans h.directory⟩

theorem here (h : SameOutline d d') : d'.here = d.here := by
  rw [Disk.here, Disk.here, h.directory]

theorem absolute (h : SameOutline d d') (path : String) : d'.absolute path = d.absolute path := by
  rw [Disk.absolute, Disk.absolute, h.here]

theorem place (h : SameOutline d d') (path : String) : d'.place path = d.place path := by
  rw [Disk.place, Disk.place, h.absolute]

/-- In one place there is nothing on both disks, a file on both or a directory on both. -/
theorem get? (h : SameOutline d d') (names : List String) :
    (d.root.get? names = none ∧ d'.root.get? names = none) ∨
    (∃ content content', d.root.get? names = some (.file content) ∧
      d'.root.get? names = some (.file content')) ∨
    ∃ entries entries', d.root.get? names = some (.directory entries) ∧
      d'.root.get? names = some (.directory entries') ∧
      FileTree.outlines entries' = FileTree.outlines entries := by
  have hget : (d'.root.get? names).map FileTree.outline = (d.root.get? names).map FileTree.outline := by
    rw [← FileTree.get?_outline, ← FileTree.get?_outline, h.root]
  cases ht : d.root.get? names with
  | none =>
      rw [ht, Option.map_none, Option.map_eq_none_iff] at hget
      exact Or.inl ⟨rfl, hget⟩
  | some t =>
      rw [ht, Option.map_some, Option.map_eq_some_iff] at hget
      obtain ⟨t', ht', hsame⟩ := hget
      right
      cases t with
      | file content =>
          cases t' with
          | file content' => exact Or.inl ⟨content, content', rfl, ht'⟩
          | directory entries' => exact absurd hsame (by simp [FileTree.outline])
      | directory entries =>
          cases t' with
          | file content' => exact absurd hsame (by simp [FileTree.outline])
          | directory entries' =>
              rw [FileTree.outline, FileTree.outline, FileTree.directory.injEq] at hsame
              exact Or.inr ⟨entries, entries', rfl, ht', hsame⟩

theorem distinct (h : SameOutline d d') (hd : d.root.Distinct) : d'.root.Distinct := by
  rw [← FileTree.distinct_outline, h.root, FileTree.distinct_outline]
  exact hd

/-! ## Where paths lead -/

theorem step (h : SameOutline d d') (names : List String) (name : String) :
    d'.step names name = d.step names name := by
  rw [Disk.step, Disk.step]
  rcases h.get? names with ⟨hnone, hnone'⟩ | ⟨_, _, hfile, hfile'⟩ | ⟨_, _, hdirectory, hdirectory', _⟩
  · rw [hnone, hnone']
  · rw [hfile, hfile']
  · rw [hdirectory, hdirectory']

theorem follow (h : SameOutline d d') (path : String) : d'.follow path = d.follow path := by
  have hstep : d'.step = d.step := funext fun names => funext fun name => h.step names name
  rw [Disk.follow, Disk.follow, hstep, h.directory]

/-- Under one path there is nothing on both disks, a file on both or a directory on both. -/
theorem find (h : SameOutline d d') (path : String) :
    (∃ e, d.find path = .error e ∧ d'.find path = .error e) ∨
    (∃ content content', d.find path = .ok (.file content) ∧ d'.find path = .ok (.file content')) ∨
    ∃ entries entries', d.find path = .ok (.directory entries) ∧
      d'.find path = .ok (.directory entries') ∧
      FileTree.outlines entries' = FileTree.outlines entries := by
  cases hfollow : d.follow path with
  | error e =>
      refine Or.inl ⟨e, ?_, ?_⟩
      · rw [Disk.find, hfollow]
        rfl
      · rw [Disk.find, h.follow, hfollow]
        rfl
  | ok names =>
      rw [find_of_follow hfollow, find_of_follow ((h.follow path).trans hfollow)]
      rcases h.get? names with ⟨hnone, hnone'⟩ | ⟨content, content', hfile, hfile'⟩ |
        ⟨entries, entries', hdirectory, hdirectory', hsame⟩
      · rw [hnone, hnone']
        exact Or.inl ⟨_, rfl, rfl⟩
      · rw [hfile, hfile']
        exact Or.inr (Or.inl ⟨content, content', rfl, rfl⟩)
      · rw [hdirectory, hdirectory']
        exact Or.inr (Or.inr ⟨entries, entries', rfl, rfl, hsame⟩)

theorem has (h : SameOutline d d') (path : String) : d'.has path = d.has path := by
  rw [Disk.has, Disk.has]
  rcases h.find path with ⟨_, hnone, hnone'⟩ | ⟨_, _, hfile, hfile'⟩ | ⟨_, _, hdirectory, hdirectory', _⟩
  · rw [hnone, hnone']
  · rw [hfile, hfile']
  · rw [hdirectory, hdirectory']

theorem isFile (h : SameOutline d d') (path : String) : d'.isFile path = d.isFile path := by
  rw [Disk.isFile, Disk.isFile]
  rcases h.find path with ⟨_, hnone, hnone'⟩ | ⟨_, _, hfile, hfile'⟩ | ⟨_, _, hdirectory, hdirectory', _⟩
  · rw [hnone, hnone']
  · rw [hfile, hfile']
  · rw [hdirectory, hdirectory']

theorem isDirectory (h : SameOutline d d') (path : String) : d'.isDirectory path = d.isDirectory path := by
  rw [Disk.isDirectory, Disk.isDirectory]
  rcases h.find path with ⟨_, hnone, hnone'⟩ | ⟨_, _, hfile, hfile'⟩ | ⟨_, _, hdirectory, hdirectory', _⟩
  · rw [hnone, hnone']
  · rw [hfile, hfile']
  · rw [hdirectory, hdirectory']

/-! ## Which files there are -/

theorem filesUnder (h : SameOutline d d') (a : Adapter) (path : String) :
    a.filesUnder d' path = a.filesUnder d path := by
  rw [Adapter.filesUnder, Adapter.filesUnder]
  rcases h.find path with ⟨_, hnone, hnone'⟩ | ⟨_, _, hfile, hfile'⟩ |
    ⟨entries, entries', hdirectory, hdirectory', hsame⟩
  · rw [hnone, hnone']
  · rw [hfile, hfile']
  · have hbelow : FileTree.filesBelow path (.directory entries') =
        FileTree.filesBelow path (.directory entries) := by
      rw [← FileTree.filesBelow_outline, ← FileTree.filesBelow_outline path (.directory entries),
        FileTree.outline, FileTree.outline, hsame]
    rw [hdirectory, hdirectory']
    simp only
    rw [hbelow]

theorem collectUnder (h : SameOutline d d') (a : Adapter) (c : Config) (path : String) :
    collectUnder a d' c path = collectUnder a d c path := by
  have habsolute : d'.absolute = d.absolute := funext h.absolute
  rw [IdiomLint.collectUnder, IdiomLint.collectUnder, h.has, h.filesUnder, habsolute, scanRoot, scanRoot,
    h.isDirectory, habsolute]

theorem candidates (h : SameOutline d d') (start : String) :
    Config.candidates d' start = Config.candidates d start := by
  rw [Config.candidates, Config.candidates, Config.directoryNames, Config.directoryNames, h.absolute,
    h.isFile, h.here]

end SameOutline

/-- The same files are collected on disks of one outline. -/
theorem collectFiles_of_sameOutline (h : SameOutline d d') (adapter : Option Adapter) (c : Config)
    (paths : List String) : collectFiles adapter d' c paths = collectFiles adapter d c paths := by
  cases adapter with
  | none => rfl
  | some a =>
      have hunder : collectUnder a d' c = collectUnder a d c := funext (h.collectUnder a c)
      rw [collectFiles, collectFiles, hunder]

/-- The same configuration file is found on disks of one outline. -/
theorem findFile_of_sameOutline (h : SameOutline d d') (start : String) :
    Config.findFile d' start = Config.findFile d start := by
  have hhas : d'.has = d.has := funext h.has
  rw [Config.findFile, Config.findFile, h.candidates, hhas]

/-! ## Writing to files that exist -/

/-- Every write is to the place of a file. -/
def Overwrites (d : Disk) (ws : List (String × List UInt8)) : Prop :=
  ∀ w ∈ ws, ∃ content, d.root.get? (d.place w.1) = some (.file content)

theorem sameOutline_write {path : String} {old : List UInt8} (hd : d.root.Distinct)
    (h : d.root.get? (d.place path) = some (.file old)) (content : List UInt8) :
    SameOutline d (d.write path content) := by
  constructor
  · rw [root_write]
    exact FileTree.outline_put content hd h
  · rw [write]

/-- Writing to files that exist keeps the outline. -/
theorem sameOutline_writeAll {ws : List (String × List UInt8)} : ∀ {d : Disk}, d.root.Distinct →
    d.Overwrites ws → SameOutline d (d.writeAll ws) := by
  induction ws with
  | nil => exact fun {d} _ _ => .refl d
  | cons w ws ih =>
      intro d hd hws
      obtain ⟨⟨old, hold⟩, hws⟩ := List.forall_mem_cons.mp hws
      have hfirst := sameOutline_write hd hold w.2
      have hrest : d.writeAll (w :: ws) = (d.write w.1 w.2).writeAll ws := by
        rw [writeAll, List.foldl_cons, writeAll]
      rw [hrest]
      -- What was written does not matter any more.
      generalize d.write w.1 w.2 = d' at hfirst ⊢
      refine hfirst.trans (ih (hfirst.distinct hd) ?_)
      intro w' hw'
      obtain ⟨before, hbefore⟩ := hws w' hw'
      rw [hfirst.place]
      rcases hfirst.get? (d.place w'.1) with ⟨hnone, _⟩ | ⟨_, content, _, hcontent⟩ |
        ⟨_, _, hdirectory, _⟩
      · exact absurd (hnone.symm.trans hbefore) (by simp)
      · exact ⟨content, hcontent⟩
      · exact absurd (hdirectory.symm.trans hbefore) (by simp)

/-- What is read under a path after such writes is what was written to its place, or what was read there
before. -/
theorem read_writeAll {ws : List (String × List UInt8)} (hd : d.root.Distinct) (hws : d.Overwrites ws)
    (path : String) :
    ((∀ w ∈ ws, d.follow path ≠ .ok (d.place w.1)) ∧ (d.writeAll ws).read path = d.read path) ∨
    ∃ w ∈ ws, d.follow path = .ok (d.place w.1) ∧ (d.writeAll ws).read path = .ok w.2 := by
  have hsame := sameOutline_writeAll hd hws
  cases hfollow : d.follow path with
  | error e =>
      refine Or.inl ⟨by simp, ?_⟩
      rw [Disk.read, Disk.read, Disk.find, Disk.find, hsame.follow, hfollow]
      rfl
  | ok names =>
      rw [Disk.read, Disk.read, find_of_follow hfollow, find_of_follow ((hsame.follow path).trans hfollow)]
      rcases hsame.get? names with ⟨hnone, hnone'⟩ | ⟨old, _, hold, _⟩ | ⟨_, _, hdirectory, hdirectory', _⟩
      · rw [hnone, hnone']
        refine Or.inl ⟨?_, rfl⟩
        intro w hw hplace
        obtain ⟨content, hcontent⟩ := hws w hw
        rw [← Except.ok.inj hplace, hnone] at hcontent
        exact absurd hcontent (by simp)
      · rcases get?_writeAll hws hold with ⟨hother, hlast⟩ | ⟨w, hw, hplace, hlast⟩
        · rw [hold, hlast]
          exact Or.inl ⟨fun w hw hplace => hother w hw (Except.ok.inj hplace).symm, rfl⟩
        · rw [hlast]
          exact Or.inr ⟨w, hw, congrArg Except.ok hplace.symm, rfl⟩
      · rw [hdirectory, hdirectory']
        refine Or.inl ⟨?_, rfl⟩
        intro w hw hplace
        obtain ⟨content, hcontent⟩ := hws w hw
        rw [← Except.ok.inj hplace, hdirectory] at hcontent
        exact absurd hcontent (by simp)

end Disk
end IdiomLint
