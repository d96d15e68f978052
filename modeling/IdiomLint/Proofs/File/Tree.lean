import IdiomLint.File.Tree
import IdiomLint.Proofs.Fallible
import IdiomLint.Proofs.Path

/-!
# Files that are written

Writing to a file that exists gives it the new content and leaves all other files as they are
(`get?_put_same`, `get?_put_other`). Main statement: after several writes to files that existed before, a
file has its old content or that of a write to its place (`get?_writeAll`).
-/

namespace IdiomLint

/-- Where no name stands twice, an entry is found under its name. -/
theorem lookup_of_mem {β : Type} {entries : List (String × β)} (hnames : (entries.map (·.1)).Nodup)
    {e : String × β} (h : e ∈ entries) : entries.lookup e.1 = some e.2 := by
  induction entries with
  | nil => exact absurd h List.not_mem_nil
  | cons first entries ih =>
      rw [List.map_cons, List.nodup_cons] at hnames
      rw [List.lookup_cons]
      rcases List.mem_cons.mp h with rfl | h
      · rw [beq_self_eq_true]
      · have hne : e.1 ≠ first.1 := fun heq => hnames.1 (heq ▸ List.mem_map_of_mem h)
        rw [beq_eq_false_iff_ne.mpr hne]
        exact ih hnames.2 h

theorem mem_of_lookup {β : Type} {entries : List (String × β)} {name : String} {b : β}
    (h : entries.lookup name = some b) : (name, b) ∈ entries := by
  obtain ⟨front, back, heq, _⟩ := List.lookup_eq_some_iff.mp h
  rw [heq]
  simp

namespace FileTree

/-! ## One entry -/

theorem any_of_lookup {entries : List (String × FileTree)} {name : String} {t : FileTree}
    (h : entries.lookup name = some t) : entries.any (·.1 == name) = true := by
  induction entries with
  | nil => exact absurd h (by simp)
  | cons e entries ih =>
      obtain ⟨key, old⟩ := e
      by_cases hkey : name = key
      · rw [List.any_cons, hkey, beq_self_eq_true, Bool.true_or]
      · rw [List.lookup_cons, beq_eq_false_iff_ne.mpr hkey] at h
        rw [List.any_cons, ih h, Bool.or_true]

theorem lookup_setEntry_same {entries : List (String × FileTree)} {name : String} {old : FileTree}
    (h : entries.lookup name = some old) (t : FileTree) :
    (setEntry entries name t).lookup name = some t := by
  rw [setEntry, if_pos (any_of_lookup h)]
  induction entries with
  | nil => exact absurd h (by simp)
  | cons e entries ih =>
      obtain ⟨key, first⟩ := e
      by_cases hkey : key = name
      · rw [List.map_cons, if_pos (beq_iff_eq.mpr hkey), List.lookup_cons, beq_self_eq_true]
      · have hne : (name == key) = false := beq_eq_false_iff_ne.mpr (Ne.symm hkey)
        rw [List.lookup_cons, hne] at h
        rw [List.map_cons, if_neg (by simpa using hkey), List.lookup_cons, hne]
        exact ih h

theorem lookup_setEntry_other {entries : List (String × FileTree)} {name other : String}
    (hne : other ≠ name) (h : entries.any (·.1 == name) = true) (t : FileTree) :
    (setEntry entries name t).lookup other = entries.lookup other := by
  rw [setEntry, if_pos h]
  clear h
  induction entries with
  | nil => rfl
  | cons e entries ih =>
      obtain ⟨key, first⟩ := e
      by_cases hkey : key = name
      · have hother : (other == name) = false := beq_eq_false_iff_ne.mpr hne
        rw [List.map_cons, if_pos (beq_iff_eq.mpr hkey), List.lookup_cons, List.lookup_cons, hkey,
          hother]
        exact ih
      · rw [List.map_cons, if_neg (by simpa using hkey), List.lookup_cons, List.lookup_cons, ih]

/-! ## One file -/

theorem get?_cons_eq_some {t found : FileTree} {name : String} {rest : List String}
    (h : t.get? (name :: rest) = some found) :
    ∃ entries old, t = .directory entries ∧ entries.lookup name = some old ∧
      old.get? rest = some found := by
  cases t with
  | file content => exact absurd h (by simp [get?])
  | directory entries =>
      obtain ⟨old, hold, hrest⟩ := Option.bind_eq_some_iff.mp h
      exact ⟨entries, old, rfl, hold, hrest⟩

/-- What was put in the place of something that exists is there. -/
theorem get?_put_same {names : List String} (new : FileTree) : ∀ {t found : FileTree},
    t.get? names = some found → (t.put names new).get? names = some new := by
  induction names with
  | nil => exact fun _ => by rw [put, get?]
  | cons name rest ih =>
      intro t found h
      obtain ⟨entries, old, rfl, hold, hrest⟩ := get?_cons_eq_some h
      rw [put, get?, lookup_setEntry_same hold, hold]
      exact ih hrest

/-- A file in another place stays as it is when something is put in the place of a file. -/
theorem get?_put_other {names : List String} (new : FileTree) : ∀ {t : FileTree} {others : List String}
    {old content : List UInt8}, t.get? names = some (.file old) → t.get? others = some (.file content) →
      others ≠ names → (t.put names new).get? others = some (.file content) := by
  induction names with
  | nil =>
      intro t others old content h hother hne
      cases others with
      | nil => exact absurd rfl hne
      | cons name rest =>
          cases h
          exact absurd hother (by simp [get?])
  | cons name rest ih =>
      intro t others old content h hother hne
      obtain ⟨entries, tree, rfl, htree, hrest⟩ := get?_cons_eq_some h
      cases others with
      | nil => exact absurd hother (by simp [get?])
      | cons other more =>
          rw [put, get?]
          rw [get?] at hother
          -- The two places part here, or further down in the same entry.
          by_cases hname : other = name
          · subst hname
            rw [lookup_setEntry_same htree, htree]
            rw [htree] at hother
            exact ih hrest hother fun hmore => hne (by rw [hmore])
          · rw [lookup_setEntry_other hname (any_of_lookup htree)]
            exact hother

end FileTree

namespace Disk

/-! ## Reading -/

/-- Where a path leads by its text alone. -/
def place (d : Disk) (path : String) : List String := Path.names (d.absolute path)

theorem place_eq_names (d : Disk) (path : String) : d.place path = Path.names (Path.join d.here path) :=
  Path.names_absolute d.here path

theorem step_eq_ok {d : Disk} {names next : List String} {name : String}
    (h : d.step names name = .ok next) : next = (Path.step names.reverse name).reverse := by
  rw [step] at h
  split at h
  · exact absurd h (by simp)
  · exact absurd h (by simp)
  · split at h
    · exact absurd h (by simp)
    · rw [Except.ok.injEq] at h
      rw [← h, Path.step]
      split
      · rw [List.reverse_reverse]
      · split
        · rw [List.drop_one, List.tail_reverse, List.reverse_reverse]
        · rw [List.reverse_cons, List.reverse_reverse]

theorem foldlM_step_eq_ok {d : Disk} {pieces : List String} : ∀ {names found : List String},
    pieces.foldlM d.step names = .ok found →
      found = (pieces.foldl Path.step names.reverse).reverse := by
  induction pieces with
  | nil =>
      intro names found h
      cases h
      exact (List.reverse_reverse _).symm
  | cons piece pieces ih =>
      intro names found h
      rw [List.foldlM_cons] at h
      obtain ⟨next, hnext, h⟩ := bind_eq_ok.mp h
      rw [ih h, step_eq_ok hnext, List.reverse_reverse, List.foldl_cons]

/-- An absolute path leads to its place if it leads anywhere. -/
theorem follow_absolute {d : Disk} {path : String} {names : List String}
    (h : d.follow (d.absolute path) = .ok names) : names = d.place (d.absolute path) := by
  have habsolute : Path.isAbsolute (d.absolute path) = true := Path.isAbsolute_absolute _ _
  have hplace : d.place (d.absolute path) = Path.names (d.absolute path) := by
    rw [place_eq_names, Path.join_of_isAbsolute habsolute]
  rw [follow, habsolute, if_pos rfl] at h
  split at h
  · exact absurd h (by simp)
  · split at h
    · exact absurd h (by simp)
    · rw [hplace, foldlM_step_eq_ok h, List.reverse_nil, Path.names]

/-- The working directory is given by proper names. -/
def Proper (d : Disk) : Prop := ∀ name ∈ d.directory, Path.Proper name

/-- Seen from a directory of proper names, every path leads to its place if it leads anywhere. -/
theorem follow_eq_place {d : Disk} (hd : d.Proper) {path : String}
    {names : List String} (h : d.follow path = .ok names) : names = d.place path := by
  have hplace := place_eq_names d path
  rw [follow] at h
  split at h
  · exact absurd h (by simp)
  · split at h
    · exact absurd h (by simp)
    · rw [hplace, foldlM_step_eq_ok h]
      by_cases habsolute : Path.isAbsolute path = true
      · rw [if_pos habsolute, Path.join_of_isAbsolute habsolute]
        rfl
      · rw [if_neg habsolute, Path.names_join (Bool.eq_false_iff.mpr habsolute), here, Path.names_ofNames hd]

/-- What is found lies where the path leads. -/
theorem exists_of_find {d : Disk} {path : String} {t : FileTree} (h : d.find path = .ok t) :
    ∃ names, d.follow path = .ok names ∧ d.root.get? names = some t := by
  obtain ⟨names, hnames, h⟩ := bind_eq_ok.mp h
  refine ⟨names, hnames, ?_⟩
  split at h
  · next found hfound =>
      cases h
      exact hfound
  · exact absurd h (by simp)

/-- What is read lies where the path leads. -/
theorem exists_of_read {d : Disk} {path : String} {content : List UInt8} (h : d.read path = .ok content) :
    ∃ names, d.follow path = .ok names ∧ d.root.get? names = some (.file content) := by
  obtain ⟨t, ht, h⟩ := bind_eq_ok.mp h
  obtain ⟨names, hnames, hfound⟩ := exists_of_find ht
  refine ⟨names, hnames, ?_⟩
  split at h
  · cases h
    exact hfound
  · exact absurd h (by simp)

/-- What is read under an absolute path is the file in its place. -/
theorem get?_of_read {d : Disk} {path : String} {content : List UInt8}
    (h : d.read (d.absolute path) = .ok content) :
    d.root.get? (d.place (d.absolute path)) = some (.file content) := by
  obtain ⟨names, hnames, hfile⟩ := exists_of_read h
  rw [← follow_absolute hnames]
  exact hfile

/-- What is read is the file in the place of the path. -/
theorem get?_place_of_read {d : Disk} (hd : d.Proper) {path : String}
    {content : List UInt8} (h : d.read path = .ok content) :
    d.root.get? (d.place path) = some (.file content) := by
  obtain ⟨names, hnames, hfile⟩ := exists_of_read h
  rw [← follow_eq_place hd hnames]
  exact hfile

/-! ## Writing -/

theorem place_write (d : Disk) (path : String) (content : List UInt8) (other : String) :
    (d.write path content).place other = d.place other := by
  simp only [place, absolute, here, write]

theorem root_write (d : Disk) (path : String) (content : List UInt8) :
    (d.write path content).root = d.root.put (d.place path) (.file content) := by
  simp only [place, write]

/-- The disk after files were written, one after the other. -/
def writeAll (d : Disk) (ws : List (String × List UInt8)) : Disk :=
  ws.foldl (fun d w => d.write w.1 w.2) d

/-- After files were written that existed before, a file has the content of a write to its place, or its
old content if there is no such write. -/
theorem get?_writeAll {ws : List (String × List UInt8)} : ∀ {d : Disk} {names : List String}
    {old : List UInt8}, (∀ w ∈ ws, ∃ content, d.root.get? (d.place w.1) = some (.file content)) →
      d.root.get? names = some (.file old) →
      ((∀ w ∈ ws, d.place w.1 ≠ names) ∧ (d.writeAll ws).root.get? names = some (.file old)) ∨
        ∃ w ∈ ws, d.place w.1 = names ∧ (d.writeAll ws).root.get? names = some (.file w.2) := by
  induction ws with
  | nil => exact fun _ h => Or.inl ⟨by simp, h⟩
  | cons w ws ih =>
      intro d names old hws h
      rw [List.forall_mem_cons] at hws
      obtain ⟨⟨content, hcontent⟩, hws⟩ := hws
      -- Writing a file leaves every file a file.
      have hfile : ∀ {others : List String} {before : List UInt8},
          d.root.get? others = some (.file before) → others ≠ d.place w.1 →
            (d.write w.1 w.2).root.get? others = some (.file before) := by
        intro others before hbefore hne
        rw [root_write]
        exact FileTree.get?_put_other _ hcontent hbefore hne
      have hsame : (d.write w.1 w.2).root.get? (d.place w.1) = some (.file w.2) := by
        rw [root_write]
        exact FileTree.get?_put_same _ hcontent
      have hlater : ∀ w' ∈ ws, ∃ content,
          (d.write w.1 w.2).root.get? ((d.write w.1 w.2).place w'.1) = some (.file content) := by
        intro w' hw'
        rw [place_write]
        obtain ⟨before, hbefore⟩ := hws w' hw'
        by_cases hplace : d.place w'.1 = d.place w.1
        · rw [hplace]
          exact ⟨w.2, hsame⟩
        · exact ⟨before, hfile hbefore hplace⟩
      have hrest : d.writeAll (w :: ws) = (d.write w.1 w.2).writeAll ws := by
        rw [writeAll, List.foldl_cons, writeAll]
      rw [hrest]
      by_cases hplace : names = d.place w.1
      · rw [hplace]
        rcases ih hlater hsame with ⟨_, hlast⟩ | ⟨w', hw', hlater, hlast⟩
        · exact Or.inr ⟨w, List.mem_cons_self, rfl, hlast⟩
        · rw [place_write] at hlater
          exact Or.inr ⟨w', List.mem_cons_of_mem w hw', hlater, hlast⟩
      · rcases ih hlater (hfile h hplace) with ⟨hnone, hlast⟩ | ⟨w', hw', hlater, hlast⟩
        · simp only [place_write] at hnone
          exact Or.inl ⟨List.forall_mem_cons.mpr ⟨Ne.symm hplace, hnone⟩, hlast⟩
        · rw [place_write] at hlater
          exact Or.inr ⟨w', List.mem_cons_of_mem w hw', hlater, hlast⟩

end Disk

end IdiomLint
