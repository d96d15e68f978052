import IdiomLint.Path

/-!
# Names and paths

A path made of proper names is resolved to these names (`names_of_toList`), and names that come from a path
are proper. So a path that was made absolute names the same place as before (`names_absolute`), and the way down to
something below a directory is made of its names below the directory (`relative_of_below`).
-/

namespace IdiomLint.Path

/-! ## Cutting at slashes -/

theorem splitSlash_ne_nil (cs : List Char) : splitSlash cs ≠ [] := by
  cases cs with
  | nil => simp [splitSlash]
  | cons c cs =>
      rw [splitSlash]
      split
      · simp
      · split <;> simp

theorem not_mem_of_mem_splitSlash {cs : List Char} : ∀ piece ∈ splitSlash cs, '/' ∉ piece := by
  induction cs with
  | nil => simp [splitSlash]
  | cons c cs ih =>
      intro piece hpiece
      rw [splitSlash] at hpiece
      split at hpiece
      · rcases List.mem_cons.mp hpiece with rfl | hpiece
        · exact List.not_mem_nil
        · exact ih piece hpiece
      · next hc =>
          cases hsplit : splitSlash cs with
          | nil => exact absurd hsplit (splitSlash_ne_nil cs)
          | cons first others =>
              rw [hsplit] at hpiece ih
              rcases List.mem_cons.mp hpiece with rfl | hpiece
              · rw [List.mem_cons, not_or]
                exact ⟨Ne.symm hc, ih first List.mem_cons_self⟩
              · exact ih piece (List.mem_cons_of_mem first hpiece)

theorem splitSlash_of_not_mem {piece : List Char} (h : '/' ∉ piece) : splitSlash piece = [piece] := by
  induction piece with
  | nil => rfl
  | cons c piece ih =>
      rw [List.mem_cons, not_or] at h
      rw [splitSlash, if_neg (Ne.symm h.1), ih h.2]

/-- What a slash separates is cut separately. -/
theorem splitSlash_append (front rest : List Char) :
    splitSlash (front ++ '/' :: rest) = splitSlash front ++ splitSlash rest := by
  induction front with
  | nil => rfl
  | cons c front ih =>
      rw [List.cons_append, splitSlash, splitSlash, ih]
      split
      · rfl
      · cases hsplit : splitSlash front with
        | nil => exact absurd hsplit (splitSlash_ne_nil front)
        | cons piece others => rfl

theorem splitSlash_intercalate {ps : List (List Char)} (hne : ps ≠ []) (h : ∀ p ∈ ps, '/' ∉ p) :
    splitSlash (['/'].intercalate ps) = ps := by
  induction ps with
  | nil => exact absurd rfl hne
  | cons first others ih =>
      rw [List.forall_mem_cons] at h
      cases others with
      | nil =>
          rw [List.intercalate_singleton]
          exact splitSlash_of_not_mem h.1
      | cons second others =>
          rw [List.intercalate_cons_cons, List.append_assoc, List.singleton_append, splitSlash_append,
            splitSlash_of_not_mem h.1, ih (by simp) h.2, List.singleton_append]

/-! ## Proper names -/

/-- A name of something in a directory. -/
structure Proper (name : String) : Prop where
  noSlash : '/' ∉ name.toList
  nonempty : name ≠ ""
  notHere : name ≠ "."
  notParent : name ≠ ".."

instance (name : String) : Decidable (Proper name) :=
  decidable_of_iff ('/' ∉ name.toList ∧ name ≠ "" ∧ name ≠ "." ∧ name ≠ "..")
    ⟨fun h => ⟨h.1, h.2.1, h.2.2.1, h.2.2.2⟩, fun h => ⟨h.noSlash, h.nonempty, h.notHere, h.notParent⟩⟩

theorem step_of_proper {name : String} (h : Proper name) (ns : List String) :
    step ns name = name :: ns := by
  simp [step, h.nonempty, h.notHere, h.notParent]

theorem foldl_step_of_proper {ns : List String} (h : ∀ name ∈ ns, Proper name) :
    ∀ before, ns.foldl step before = ns.reverse ++ before := by
  induction ns with
  | nil => exact fun before => rfl
  | cons name ns ih =>
      intro before
      rw [List.forall_mem_cons] at h
      rw [List.foldl_cons, step_of_proper h.1, ih h.2]
      simp

theorem proper_of_foldl_step {pieces : List String} (hpieces : ∀ piece ∈ pieces, '/' ∉ piece.toList) :
    ∀ {before : List String}, (∀ name ∈ before, Proper name) →
      ∀ name ∈ pieces.foldl step before, Proper name := by
  induction pieces with
  | nil => exact fun h => h
  | cons piece pieces ih =>
      intro before h
      rw [List.forall_mem_cons] at hpieces
      apply ih hpieces.2
      unfold step
      split
      · exact h
      · next hhere =>
          split
          · exact fun name hname => h name (List.mem_of_mem_drop hname)
          · next hparent =>
              simp only [Bool.or_eq_true, beq_iff_eq, not_or] at hhere hparent
              exact List.forall_mem_cons.mpr ⟨⟨hpieces.1, hhere.1, hhere.2, hparent⟩, h⟩

/-- The names that a path is resolved to are proper. -/
theorem proper_of_mem_names {path : String} : ∀ name ∈ names path, Proper name := by
  intro name hname
  refine @proper_of_foldl_step (pieces path) ?_ [] (by simp) name (List.mem_reverse.mp hname)
  intro piece hpiece
  obtain ⟨cs, hcs, rfl⟩ := List.mem_map.mp hpiece
  rw [String.toList_ofList]
  exact not_mem_of_mem_splitSlash cs hcs

/-! ## Absolute paths -/

theorem toList_ofNames (ns : List String) :
    (ofNames ns).toList = '/' :: ['/'].intercalate (ns.map String.toList) := by
  rw [ofNames, String.toList_append, String.toList_intercalate]
  rfl

/-- There is an empty piece in front of the names of a path, and one in their place if there are none. -/
theorem pieces_ofNames {ns : List String} (h : ∀ name ∈ ns, Proper name) :
    pieces (ofNames ns) = "" :: (if ns = [] then [""] else ns) := by
  rw [pieces, toList_ofNames]
  cases ns with
  | nil => rfl
  | cons first others =>
      have hslash : ∀ piece ∈ (first :: others).map String.toList, '/' ∉ piece := by
        intro piece hpiece
        obtain ⟨name, hname, rfl⟩ := List.mem_map.mp hpiece
        exact (h name hname).noSlash
      rw [splitSlash, if_pos rfl, splitSlash_intercalate (by simp) hslash]
      simp [Function.comp_def]

/-- A path made of proper names leads to them, whatever is between the slashes in front. -/
theorem names_of_toList {path : String} {ns : List String} (h : ∀ name ∈ ns, Proper name)
    (hpath : path.toList = (ofNames ns).toList ∨ path.toList = '/' :: (ofNames ns).toList) :
    names path = ns := by
  have hsplit : (splitSlash (ofNames ns).toList).map String.ofList = "" :: (if ns = [] then [""] else ns) :=
    pieces_ofNames h
  have hnames : (splitSlash path.toList).map String.ofList = "" :: (if ns = [] then [""] else ns) ∨
      (splitSlash path.toList).map String.ofList = "" :: "" :: (if ns = [] then [""] else ns) := by
    rcases hpath with hpath | hpath
    · rw [hpath]
      exact Or.inl hsplit
    · rw [hpath, splitSlash, if_pos rfl, List.map_cons, hsplit]
      exact Or.inr rfl
  -- The empty pieces in front are passed over by the resolution.
  have hfold : ((if ns = [] then [""] else ns).foldl step []).reverse = ns := by
    split
    · next hnil =>
        rw [hnil]
        rfl
    · rw [foldl_step_of_proper h]
      simp
  rw [names, pieces]
  rcases hnames with hnames | hnames <;> (rw [hnames]; exact hfold)

theorem extraSlash_eq (path : String) : extraSlash path = "" ∨ extraSlash path = "/" := by
  unfold extraSlash
  split <;> simp

theorem isAbsolute_extraSlash (path : String) (ns : List String) :
    isAbsolute (extraSlash path ++ ofNames ns) = true := by
  rw [isAbsolute, String.toList_append, toList_ofNames]
  rcases extraSlash_eq path with h | h <;> (rw [h]; rfl)

theorem isAbsolute_absolute (directory path : String) : isAbsolute (absolute directory path) = true :=
  isAbsolute_extraSlash _ _

theorem names_extraSlash {ns : List String} (h : ∀ name ∈ ns, Proper name) (path : String) :
    names (extraSlash path ++ ofNames ns) = ns := by
  apply names_of_toList h
  rcases extraSlash_eq path with hslash | hslash
  · left
    simp [hslash]
  · right
    simp [hslash]

/-- A path that was made absolute leads to the same place. -/
theorem names_absolute (directory path : String) :
    names (absolute directory path) = names (join directory path) :=
  names_extraSlash proper_of_mem_names _

/-- A path made of proper names leads to them. -/
theorem names_ofNames {ns : List String} (h : ∀ name ∈ ns, Proper name) : names (ofNames ns) = ns :=
  names_of_toList h (Or.inl rfl)

/-! ## Appended paths -/

theorem pieces_append_slash (front rest : String) : pieces (front ++ "/" ++ rest) = pieces front ++ pieces rest := by
  have htoList : (front ++ "/" ++ rest).toList = front.toList ++ '/' :: rest.toList := by
    simp
  rw [pieces, htoList, splitSlash_append, List.map_append]
  rfl

/-- What follows a slash leads on from where the part before the slash leads. -/
theorem names_append_slash (front rest : String) :
    names (front ++ "/" ++ rest) = ((pieces rest).foldl step (names front).reverse).reverse := by
  rw [names, names, pieces_append_slash, List.foldl_append, List.reverse_reverse]

/-- A slash at the end leads nowhere. -/
theorem names_slash (front : String) : names (front ++ "/") = names front := by
  have h := names_append_slash front ""
  rw [String.append_empty] at h
  exact h.trans (List.reverse_reverse _)

theorem join_of_relative {path : String} (h : isAbsolute path = false) (directory : String) :
    join directory path =
      if directory.isEmpty || directory.toList.getLast? == some '/' then directory ++ path
      else directory ++ "/" ++ path := by
  rw [join, if_neg (by rw [h]; exact Bool.false_ne_true)]

/-- A path is appended as it is to nothing and after a slash, and behind a slash of its own to anything else. -/
theorem join_cases {path : String} (h : isAbsolute path = false) (directory : String) :
    (directory = "" ∧ join directory path = path) ∨
    (∃ front, directory = front ++ "/" ∧ join directory path = front ++ "/" ++ path) ∨
    (directory ≠ "" ∧ directory.toList.getLast? ≠ some '/' ∧ join directory path = directory ++ "/" ++ path) := by
  rw [join_of_relative h]
  split
  · next hend =>
      rw [Bool.or_eq_true, String.isEmpty_iff, beq_iff_eq] at hend
      rcases hend with rfl | hslash
      · exact Or.inl ⟨rfl, String.empty_append⟩
      · obtain ⟨front, hfront⟩ := List.getLast?_eq_some_iff.mp hslash
        have hdirectory : directory = String.ofList front ++ "/" := by
          rw [← String.toList_inj, hfront]
          simp
        exact Or.inr (Or.inl ⟨String.ofList front, hdirectory, by rw [hdirectory]⟩)
  · next hend =>
      rw [Bool.or_eq_true, String.isEmpty_iff, beq_iff_eq, not_or] at hend
      exact Or.inr (Or.inr ⟨hend.1, hend.2, rfl⟩)

/-- A path that does not begin at the root leads on from the directory. -/
theorem names_join {path : String} (h : isAbsolute path = false) (directory : String) :
    names (join directory path) = ((pieces path).foldl step (names directory).reverse).reverse := by
  rcases join_cases h directory with ⟨rfl, hjoin⟩ | ⟨front, rfl, hjoin⟩ | ⟨_, _, hjoin⟩
  · rw [hjoin]
    rfl
  · rw [hjoin, names_append_slash, names_slash]
  · rw [hjoin, names_append_slash]

theorem join_of_isAbsolute {path : String} (h : isAbsolute path = true) (directory : String) :
    join directory path = path := if_pos h

/-! ## Ways from one path to another -/

theorem dropCommon_append (front rest : List String) : dropCommon front (front ++ rest) = ([], rest) := by
  induction front with
  | nil => rfl
  | cons name front ih => rw [List.cons_append, dropCommon, beq_self_eq_true, if_pos rfl, ih]

/-- The way from a directory down to what is below it consists of the names below. -/
theorem relative_of_below {path start : String} {below : List String} (hne : below ≠ [])
    (h : names path = names start ++ below) : relative path start = "/".intercalate below := by
  rw [relative, h, dropCommon_append]
  simp only [List.map_nil, List.nil_append]
  rw [if_neg (by rwa [List.isEmpty_iff])]

end IdiomLint.Path
