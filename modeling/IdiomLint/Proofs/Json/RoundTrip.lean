import IdiomLint.Json.Parser
import IdiomLint.Proofs.Json.Fraction

/-!
# Reading printed JSON

`Json.reread?` says without any text what is read back from the text of a value, and `Json.parse?_render` that
the text does denote it. Strings, truth values and null come back as they are. An integer comes back unless it
has more digits than decimal text may have, and then the whole text is refused; a floating-point number comes
back as the number that its text denotes. Of several members of one key the last one stays, in the place of the
first.
-/

namespace IdiomLint.Json

open JsonToken

/-! ## What comes back -/

/-- What the text of a floating-point number denotes. -/
def rereadFloat? (x : Binary64) : Option Json :=
  if x.isNaN then some (.float .nan)
  else if x.isFinite then number? x.text.toList
  else some (.float (.infinity x.negative))

mutual

/-- What the text of a value denotes. -/
def reread? : Json → Option Json
  | .null => some .null
  | .bool b => some (.bool b)
  | .int n => if n.natAbs < 10 ^ Integer.digitLimit then some (.int n) else none
  | .float x => rereadFloat? x
  | .str s => some (.str s)
  | .arr items => (rereadItems? [] items).map .arr
  | .obj members => (rereadMembers? [] members).map .obj

/-- The items of an array behind others that have been read, which are in reverse. -/
def rereadItems? (before : List Json) : List Json → Option (List Json)
  | [] => some before.reverse
  | j :: rest => (reread? j).bind fun j => rereadItems? (j :: before) rest

/-- The members of an object behind others that have been read, which are in reverse. -/
def rereadMembers? (before : List (String × Json)) : List (String × Json) → Option (List (String × Json))
  | [] => some before.reverse
  | (key, j) :: rest => (reread? j).bind fun j => rereadMembers? (setMember before key j) rest

end

/-! ## Scalars -/

theorem tokens?_renderFloat (x : Binary64) {rest : List Char} (hrest : Stops rest) :
    tokens? ((renderFloat x).toList ++ rest) =
      (rereadFloat? x).bind fun j => (tokens? rest).map (.scalar j :: ·) := by
  rw [renderFloat, rereadFloat?]
  split
  · exact tokens?_of_front rfl rfl
  · split
    · next hfinite => exact tokens?_number (Binary64.isNumberText_text hfinite) hrest
    · cases x.negative
      · exact tokens?_of_front rfl rfl
      · exact tokens?_of_front rfl rfl

/-- Does a value consist of a single token that is no string? -/
def isScalar : Json → Bool
  | .str _ | .arr _ | .obj _ => false
  | _ => true

/-- A scalar is one token, if it is read back. -/
theorem tokens?_scalar {j : Json} (hj : isScalar j = true) (level : Nat) {rest : List Char} (hrest : Stops rest) :
    tokens? ((renderAt level j).toList ++ rest) =
      (reread? j).bind fun j' => (tokens? rest).map (.scalar j' :: ·) := by
  cases j with
  | null =>
      rw [renderAt]
      exact tokens?_of_front rfl rfl
  | bool b =>
      rw [renderAt]
      cases b
      · exact tokens?_of_front rfl rfl
      · exact tokens?_of_front rfl rfl
  | int n =>
      rw [renderAt, tokens?_decimal n hrest, reread?]
      split <;> rfl
  | float x => exact tokens?_renderFloat x hrest
  | str s => exact absurd hj nofun
  | arr items => exact absurd hj nofun
  | obj members => exact absurd hj nofun

/-! ## Values -/

theorem toList_renderAt_arr (level : Nat) (j : Json) (items : List Json) (rest : List Char) :
    (renderAt level (.arr (j :: items))).toList ++ rest =
      '[' :: ((newline (level + 1)).toList ++ ((renderAt (level + 1) j).toList ++
        ((renderItems (level + 1) items).toList ++ ((newline level).toList ++ ']' :: rest)))) := by
  simp [renderAt, String.toList_append]

theorem toList_renderAt_obj (level : Nat) (key : String) (j : Json) (members : List (String × Json))
    (rest : List Char) : (renderAt level (.obj ((key, j) :: members))).toList ++ rest =
      '\x7b' :: ((newline (level + 1)).toList ++ ((renderString key).toList ++ ':' :: ' ' ::
        ((renderAt (level + 1) j).toList ++ ((renderMembers (level + 1) members).toList ++
          ((newline level).toList ++ '\x7d' :: rest))))) := by
  simp [renderAt, String.toList_append]

theorem toList_renderItems_cons (level : Nat) (j : Json) (items : List Json) (rest : List Char) :
    (renderItems level (j :: items)).toList ++ rest =
      ',' :: ((newline level).toList ++ ((renderAt level j).toList ++ ((renderItems level items).toList ++ rest))) := by
  simp [renderItems, String.toList_append]

theorem toList_renderMembers_cons (level : Nat) (key : String) (j : Json) (members : List (String × Json))
    (rest : List Char) : (renderMembers level ((key, j) :: members)).toList ++ rest =
      ',' :: ((newline level).toList ++ ((renderString key).toList ++ ':' :: ' ' ::
        ((renderAt level j).toList ++ ((renderMembers level members).toList ++ rest)))) := by
  simp [renderMembers, String.toList_append]

theorem stops_newline (level : Nat) (rest : List Char) : Stops ((newline level).toList ++ rest) := by
  rw [newline, String.toList_ofList]
  exact stops_cons rfl _

theorem stops_renderItems (level : Nat) (items : List Json) {rest : List Char} (hrest : Stops rest) :
    Stops ((renderItems level items).toList ++ rest) := by
  cases items with
  | nil => exact hrest
  | cons j items =>
      rw [toList_renderItems_cons]
      exact stops_cons rfl _

theorem stops_renderMembers (level : Nat) (members : List (String × Json)) {rest : List Char} (hrest : Stops rest) :
    Stops ((renderMembers level members).toList ++ rest) := by
  cases members with
  | nil => exact hrest
  | cons member members =>
      rw [toList_renderMembers_cons]
      exact stops_cons rfl _

/-- No value begins with the end of an array. -/
theorem tokens?_renderAt_cons (j : Json) (level : Nat) {rest : List Char} (hrest : Stops rest) :
    ∃ t more, t ≠ .closeArray ∧ tokens? ((renderAt level j).toList ++ rest) = Option.map (t :: ·) more := by
  have hscalar : isScalar j = true → ∃ t more, t ≠ .closeArray ∧
      tokens? ((renderAt level j).toList ++ rest) = Option.map (t :: ·) more := by
    intro hj
    rw [tokens?_scalar hj level hrest]
    cases reread? j with
    | none => exact ⟨.comma, none, nofun, rfl⟩
    | some j' => exact ⟨.scalar j', _, nofun, rfl⟩
  cases j with
  | null => exact hscalar rfl
  | bool b => exact hscalar rfl
  | int n => exact hscalar rfl
  | float x => exact hscalar rfl
  | str s => exact ⟨.string s, _, nofun, tokens?_renderString s rest⟩
  | arr items =>
      cases items with
      | nil =>
          rw [renderAt]
          exact ⟨.openArray, _, nofun, tokens?_of_front rfl rfl⟩
      | cons j items =>
          rw [toList_renderAt_arr]
          exact ⟨.openArray, _, nofun, tokens?_of_front rfl rfl⟩
  | obj members =>
      cases members with
      | nil =>
          rw [renderAt]
          exact ⟨.openObject, _, nofun, tokens?_of_front rfl rfl⟩
      | cons member members =>
          rw [toList_renderAt_obj]
          exact ⟨.openObject, _, nofun, tokens?_of_front rfl rfl⟩

/-! ## Reading values -/

/-- What is done with the tokens of a text, when the first of them has been dealt with. -/
theorem bind_of_token {cs rest : List Char} {t : JsonToken} (h : tokens? cs = (tokens? rest).map (t :: ·))
    {f g : List JsonToken → Option Json} (hf : ∀ ts, f (t :: ts) = g ts) :
    (tokens? cs).bind f = (tokens? rest).bind g := by
  rw [h]
  cases tokens? rest with
  | none => rfl
  | some ts => exact hf ts

/-- A value that begins an array is read as its first item. -/
theorem parseValue_openArray (j : Json) (level : Nat) (frames : List Frame) {rest : List Char}
    (hrest : Stops rest) :
    (tokens? ((renderAt level j).toList ++ rest)).bind (fun ts => parseValue frames (.openArray :: ts)) =
      (tokens? ((renderAt level j).toList ++ rest)).bind (parseValue (.array [] :: frames)) := by
  obtain ⟨t, more, ht, htokens⟩ := tokens?_renderAt_cons j level hrest
  rw [htokens]
  cases more with
  | none => rfl
  | some ts =>
      show parseValue frames (.openArray :: t :: ts) = parseValue (.array [] :: frames) (t :: ts)
      rw [parseValue]
      simpa using ht

/-- The first member of an object is read behind its key. -/
theorem parseValue_openObject (key : String) (frames : List Frame) (level : Nat) (rest : List Char) :
    (tokens? ('\x7b' :: ((newline level).toList ++ ((renderString key).toList ++ ':' :: ' ' :: rest)))).bind
      (parseValue frames) = (tokens? rest).bind (parseValue (.object [] key :: frames)) := by
  calc
    _ = (tokens? ((newline level).toList ++ ((renderString key).toList ++ ':' :: ' ' :: rest))).bind
          (fun ts => parseValue frames (.openObject :: ts)) :=
        bind_of_token (tokens?_of_front rfl rfl) fun _ => rfl
    _ = (tokens? (':' :: ' ' :: rest)).bind (fun ts => parseValue frames (.openObject :: .string key :: ts)) := by
        rw [tokens?_newline]
        exact bind_of_token (tokens?_renderString _ _) fun _ => rfl
    _ = (tokens? (' ' :: rest)).bind (parseValue (.object [] key :: frames)) :=
        bind_of_token (tokens?_of_front rfl rfl) fun _ => by rw [parseValue]
    _ = _ := by rw [tokens?_blank rfl]

/-- Each further member of an object is read behind its key. -/
theorem parseAfter_comma (key : String) (j : Json) (before : List (String × Json)) (last : String)
    (frames : List Frame) (level : Nat) (rest : List Char) :
    (tokens? (',' :: ((newline level).toList ++ ((renderString key).toList ++ ':' :: ' ' :: rest)))).bind
      (parseAfter j (.object before last :: frames)) =
    (tokens? rest).bind (parseValue (.object (setMember before last j) key :: frames)) := by
  calc
    _ = (tokens? ((newline level).toList ++ ((renderString key).toList ++ ':' :: ' ' :: rest))).bind
          (fun ts => parseAfter j (.object before last :: frames) (.comma :: ts)) :=
        bind_of_token (tokens?_of_front rfl rfl) fun _ => rfl
    _ = (tokens? (':' :: ' ' :: rest)).bind
          (fun ts => parseAfter j (.object before last :: frames) (.comma :: .string key :: ts)) := by
        rw [tokens?_newline]
        exact bind_of_token (tokens?_renderString _ _) fun _ => rfl
    _ = (tokens? (' ' :: rest)).bind (parseValue (.object (setMember before last j) key :: frames)) :=
        bind_of_token (tokens?_of_front rfl rfl) fun _ => by rw [parseAfter]
    _ = _ := by rw [tokens?_blank rfl]

mutual

/-- The tokens of a value are read as what comes back from it, whatever is open and whatever follows. -/
theorem parseValue_renderAt (j : Json) (level : Nat) (frames : List Frame) {rest : List Char}
    (hrest : Stops rest) : (tokens? ((renderAt level j).toList ++ rest)).bind (parseValue frames) =
      (reread? j).bind fun j' => (tokens? rest).bind (parseAfter j' frames) := by
  have hscalar : isScalar j = true →
      (tokens? ((renderAt level j).toList ++ rest)).bind (parseValue frames) =
        (reread? j).bind fun j' => (tokens? rest).bind (parseAfter j' frames) := by
    intro hj
    have htokens := tokens?_scalar hj level hrest
    cases hread : reread? j with
    | none =>
        rw [htokens, hread]
        rfl
    | some j' =>
        rw [hread] at htokens
        exact bind_of_token htokens fun ts => by rw [parseValue]
  match j with
  | .null => exact hscalar rfl
  | .bool b => exact hscalar rfl
  | .int n => exact hscalar rfl
  | .float x => exact hscalar rfl
  | .str s =>
      rw [renderAt, reread?]
      exact bind_of_token (tokens?_renderString s rest) fun ts => by rw [parseValue]
  | .arr [] =>
      rw [renderAt]
      calc
        _ = (tokens? (']' :: rest)).bind (fun ts => parseValue frames (.openArray :: ts)) :=
            bind_of_token (tokens?_of_front rfl rfl) fun _ => rfl
        _ = (tokens? rest).bind (parseAfter (.arr []) frames) :=
            bind_of_token (tokens?_of_front rfl rfl) fun ts => by rw [parseValue]
  | .arr (j :: items) =>
      have hbehind : Stops ((renderItems (level + 1) items).toList ++ ((newline level).toList ++ ']' :: rest)) :=
        stops_renderItems _ _ (stops_newline _ _)
      rw [toList_renderAt_arr]
      calc
        _ = (tokens? ((newline (level + 1)).toList ++ ((renderAt (level + 1) j).toList ++
              ((renderItems (level + 1) items).toList ++ ((newline level).toList ++ ']' :: rest))))).bind
                (fun ts => parseValue frames (.openArray :: ts)) :=
            bind_of_token (tokens?_of_front rfl rfl) fun _ => rfl
        _ = (reread? j).bind fun j' => (tokens? ((renderItems (level + 1) items).toList ++
              ((newline level).toList ++ ']' :: rest))).bind (parseAfter j' (.array [] :: frames)) := by
            rw [tokens?_newline, parseValue_openArray _ _ _ hbehind, parseValue_renderAt j _ _ hbehind]
        _ = (reread? (.arr (j :: items))).bind fun j' => (tokens? rest).bind (parseAfter j' frames) := by
            rw [reread?, rereadItems?]
            cases reread? j with
            | none => rfl
            | some j' =>
                rw [Option.bind_some, parseAfter_renderItems items, Option.bind_some, Option.bind_map]
                rfl
  | .obj [] =>
      rw [renderAt]
      calc
        _ = (tokens? ('\x7d' :: rest)).bind (fun ts => parseValue frames (.openObject :: ts)) :=
            bind_of_token (tokens?_of_front rfl rfl) fun _ => rfl
        _ = (tokens? rest).bind (parseAfter (.obj []) frames) :=
            bind_of_token (tokens?_of_front rfl rfl) fun ts => by rw [parseValue]
  | .obj ((key, j) :: members) =>
      have hbehind : Stops ((renderMembers (level + 1) members).toList ++ ((newline level).toList ++ '\x7d' :: rest)) :=
        stops_renderMembers _ _ (stops_newline _ _)
      rw [toList_renderAt_obj, parseValue_openObject, parseValue_renderAt j _ _ hbehind, reread?, rereadMembers?]
      cases reread? j with
      | none => rfl
      | some j' =>
          rw [Option.bind_some, parseAfter_renderMembers members, Option.bind_some, Option.bind_map]
          rfl

/-- The items of an array behind one that has been read. -/
theorem parseAfter_renderItems (items : List Json) (j : Json) (before : List Json) (level outer : Nat)
    (frames : List Frame) (rest : List Char) :
    (tokens? ((renderItems level items).toList ++ ((newline outer).toList ++ ']' :: rest))).bind
        (parseAfter j (.array before :: frames)) =
      (rereadItems? (j :: before) items).bind fun items' =>
        (tokens? rest).bind (parseAfter (.arr items') frames) := by
  match items with
  | [] =>
      rw [renderItems, String.toList_empty, List.nil_append, tokens?_newline, rereadItems?]
      exact bind_of_token (tokens?_of_front rfl rfl) fun ts => by rw [parseAfter]
  | k :: items =>
      have hbehind : Stops ((renderItems level items).toList ++ ((newline outer).toList ++ ']' :: rest)) :=
        stops_renderItems _ _ (stops_newline _ _)
      rw [toList_renderItems_cons, rereadItems?]
      calc
        _ = (tokens? ((newline level).toList ++ ((renderAt level k).toList ++ ((renderItems level items).toList ++
              ((newline outer).toList ++ ']' :: rest))))).bind (parseValue (.array (j :: before) :: frames)) :=
            bind_of_token (tokens?_of_front rfl rfl) fun ts => by rw [parseAfter]
        _ = (reread? k).bind fun k' => (rereadItems? (k' :: j :: before) items).bind fun items' =>
              (tokens? rest).bind (parseAfter (.arr items') frames) := by
            rw [tokens?_newline, parseValue_renderAt k _ _ hbehind]
            congr 1
            funext k'
            exact parseAfter_renderItems items ..
        _ = _ := by rw [Option.bind_assoc]

/-- The members of an object behind one that has been read. -/
theorem parseAfter_renderMembers (members : List (String × Json)) (j : Json) (before : List (String × Json))
    (last : String) (level outer : Nat) (frames : List Frame) (rest : List Char) :
    (tokens? ((renderMembers level members).toList ++ ((newline outer).toList ++ '\x7d' :: rest))).bind
        (parseAfter j (.object before last :: frames)) =
      (rereadMembers? (setMember before last j) members).bind fun members' =>
        (tokens? rest).bind (parseAfter (.obj members') frames) := by
  match members with
  | [] =>
      rw [renderMembers, String.toList_empty, List.nil_append, tokens?_newline, rereadMembers?]
      exact bind_of_token (tokens?_of_front rfl rfl) fun ts => by rw [parseAfter]
  | (key, k) :: members =>
      have hbehind : Stops ((renderMembers level members).toList ++ ((newline outer).toList ++ '\x7d' :: rest)) :=
        stops_renderMembers _ _ (stops_newline _ _)
      rw [toList_renderMembers_cons, rereadMembers?, parseAfter_comma, parseValue_renderAt k _ _ hbehind,
        Option.bind_assoc]
      congr 1
      funext k'
      exact parseAfter_renderMembers members ..

end

/-- What a printed value denotes. -/
theorem parse?_render (j : Json) : parse? (render j) = reread? j := by
  have hread := parseValue_renderAt j 0 [] stops_nil
  rw [List.append_nil] at hread
  rw [parse?, render, hread]
  cases reread? j with
  | none => rfl
  | some j' =>
      show parseAfter j' [] [] = some j'
      rw [parseAfter]

end IdiomLint.Json
