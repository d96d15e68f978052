import IdiomLint.Proofs.Fallible
import IdiomLint.Text.Utf8

/-!
# Reading UTF-8 that was written

The bytes of a character lead the reader from its start through characters that are still open to that
very character (`piecesFrom_utf8EncodeChar`), so that a text is read back from its bytes
(`decode?_encode`); conversely bytes that are read without a fault are those of the text
(`encode_of_decode?`). The last part is about the places in a text that lie between two characters,
counted in bytes (`Boundary`).
-/

namespace IdiomLint.Utf8

/-! ## One byte -/

theorem toNat_ofNat {n : Nat} (h : n < 256) : (UInt8.ofNat n).toNat = n :=
  UInt8.toNat_ofNat_of_lt h

theorem start_one {n : Nat} (h : n < 0x80) :
    start (UInt8.ofNat n) = .inl (.char (Char.ofNat n)) := by
  have hn := toNat_ofNat (show n < 256 by omega)
  simp only [start, UInt8.lt_iff_toNat_lt, hn, UInt8.toNat_ofNat, Nat.reduceMod, Nat.reducePow]
  rw [if_pos h]

theorem start_two {n : Nat} (hlow : 0xC2 ≤ n) (hhigh : n < 0xE0) :
    start (UInt8.ofNat n) = .inr ⟨[UInt8.ofNat n], n - 0xC0, 1, 0x80, 0xBF⟩ := by
  have hn := toNat_ofNat (show n < 256 by omega)
  simp only [start, UInt8.lt_iff_toNat_lt, hn, UInt8.toNat_ofNat, Nat.reduceMod, Nat.reducePow]
  rw [if_neg (by omega), if_neg (by omega), if_pos (by omega)]

/-- The first of three bytes; it bounds the second one. -/
theorem start_three {n : Nat} (hlow : 0xE0 ≤ n) (hhigh : n < 0xF0) :
    start (UInt8.ofNat n) =
      .inr ⟨[UInt8.ofNat n], n - 0xE0, 2, if n = 0xE0 then 0xA0 else 0x80,
        if n = 0xED then 0x9F else 0xBF⟩ := by
  have hn := toNat_ofNat (show n < 256 by omega)
  simp only [start, UInt8.lt_iff_toNat_lt, ← UInt8.toNat_inj, hn, UInt8.toNat_ofNat, Nat.reduceMod,
    Nat.reducePow]
  rw [if_neg (by omega), if_neg (by omega), if_neg (by omega), if_pos (by omega)]

/-- The first of four bytes; it bounds the second one. -/
theorem start_four {n : Nat} (hlow : 0xF0 ≤ n) (hhigh : n < 0xF5) :
    start (UInt8.ofNat n) =
      .inr ⟨[UInt8.ofNat n], n - 0xF0, 3, if n = 0xF0 then 0x90 else 0x80,
        if n = 0xF4 then 0x8F else 0xBF⟩ := by
  have hn := toNat_ofNat (show n < 256 by omega)
  simp only [start, UInt8.lt_iff_toNat_lt, ← UInt8.toNat_inj, hn, UInt8.toNat_ofNat, Nat.reduceMod,
    Nat.reducePow]
  rw [if_neg (by omega), if_neg (by omega), if_neg (by omega), if_neg (by omega), if_pos (by omega)]

/-- A byte that begins no character makes a broken piece. -/
theorem start_bad {n : Nat} (hn : n < 256) (h : 0x80 ≤ n ∧ n < 0xC2 ∨ 0xF5 ≤ n) :
    start (UInt8.ofNat n) = .inl (.broken [UInt8.ofNat n] .badStart) := by
  simp only [start, UInt8.lt_iff_toNat_lt, toNat_ofNat hn, UInt8.toNat_ofNat, Nat.reduceMod,
    Nat.reducePow]
  rcases h with h | h
  · rw [if_neg (by omega), if_pos (by omega)]
  · rw [if_neg (by omega), if_neg (by omega), if_neg (by omega), if_neg (by omega), if_neg (by omega)]

theorem piecesFrom_start {b : UInt8} {p : Partial} (h : start b = .inr p) (rest : List UInt8) :
    piecesFrom none (b :: rest) = piecesFrom (some p) rest := by
  rw [piecesFrom, h]

/-- A byte within the bounds brings six bits to an open character. -/
theorem piecesFrom_more {seen : List UInt8} {bits k n : Nat} {low high : UInt8} (hbyte : n < 256)
    (hlow : low.toNat ≤ n) (hhigh : n ≤ high.toNat) (rest : List UInt8) :
    piecesFrom (some ⟨seen, bits, k + 2, low, high⟩) (UInt8.ofNat n :: rest) =
      piecesFrom (some ⟨UInt8.ofNat n :: seen, bits * 64 + (n - 0x80), k + 1, 0x80, 0xBF⟩) rest := by
  have hn := toNat_ofNat hbyte
  have hnext : Partial.next? ⟨seen, bits, k + 2, low, high⟩ (UInt8.ofNat n) =
      some (.inr ⟨UInt8.ofNat n :: seen, bits * 64 + (n - 0x80), k + 1, 0x80, 0xBF⟩) := by
    simp only [Partial.next?, UInt8.le_iff_toNat_le, hn]
    rw [if_pos ⟨hlow, hhigh⟩]
  rw [piecesFrom, hnext]

/-- The last byte of a character completes it. -/
theorem piecesFrom_last {seen : List UInt8} {bits n : Nat} {low high : UInt8} (hbyte : n < 256)
    (hlow : low.toNat ≤ n) (hhigh : n ≤ high.toNat) (rest : List UInt8) :
    piecesFrom (some ⟨seen, bits, 1, low, high⟩) (UInt8.ofNat n :: rest) =
      .char (Char.ofNat (bits * 64 + (n - 0x80))) :: piecesFrom none rest := by
  have hn := toNat_ofNat hbyte
  have hnext : Partial.next? ⟨seen, bits, 1, low, high⟩ (UInt8.ofNat n) =
      some (.inl (.char (Char.ofNat (bits * 64 + (n - 0x80))))) := by
    simp only [Partial.next?, UInt8.le_iff_toNat_le, hn]
    rw [if_pos ⟨hlow, hhigh⟩]
  rw [piecesFrom, hnext]

/-! ## One character -/

theorem toNat_valid (c : Char) : c.toNat < 0xD800 ∨ 0xDFFF < c.toNat ∧ c.toNat < 0x110000 :=
  c.valid

/-- The bytes of a character are read as the character. -/
theorem piecesFrom_utf8EncodeChar (c : Char) (rest : List UInt8) :
    piecesFrom none (String.utf8EncodeChar c ++ rest) = .char c :: piecesFrom none rest := by
  have hvalid := toNat_valid c
  have hc : Char.ofNat c.toNat = c := Char.ofNat_toNat c
  have hval : c.val.toNat = c.toNat := rfl
  simp only [String.utf8EncodeChar, hval]
  generalize c.toNat = k at hvalid hc
  by_cases h1 : k ≤ 0x7F
  · rw [if_pos h1, List.singleton_append, piecesFrom, start_one (by omega), hc]
  rw [if_neg h1]
  by_cases h2 : k ≤ 0x7FF
  · rw [if_pos h2, List.cons_append, List.singleton_append,
      piecesFrom_start (start_two (by omega) (by omega)),
      piecesFrom_last (by omega) (show 0x80 ≤ _ by omega) (show _ ≤ 0xBF by omega)]
    have hk : (k / 64 % 0x20 + 0xC0 - 0xC0) * 64 + (k % 0x40 + 0x80 - 0x80) = k := by omega
    rw [hk, hc]
  rw [if_neg h2]
  by_cases h3 : k ≤ 0xFFFF
  · have hlow : UInt8.toNat (if k / 4096 % 0x10 + 0xE0 = 0xE0 then 0xA0 else 0x80) ≤
        k / 64 % 0x40 + 0x80 := by
      split
      · show 0xA0 ≤ _
        omega
      · show 0x80 ≤ _
        omega
    have hhigh : k / 64 % 0x40 + 0x80 ≤
        UInt8.toNat (if k / 4096 % 0x10 + 0xE0 = 0xED then 0x9F else 0xBF) := by
      split
      · show _ ≤ 0x9F
        omega
      · show _ ≤ 0xBF
        omega
    rw [if_pos h3, List.cons_append, List.cons_append, List.singleton_append,
      piecesFrom_start (start_three (by omega) (by omega)), piecesFrom_more (by omega) hlow hhigh,
      piecesFrom_last (by omega) (show 0x80 ≤ _ by omega) (show _ ≤ 0xBF by omega)]
    have hk : ((k / 4096 % 0x10 + 0xE0 - 0xE0) * 64 + (k / 64 % 0x40 + 0x80 - 0x80)) * 64 +
        (k % 0x40 + 0x80 - 0x80) = k := by omega
    rw [hk, hc]
  have hlow : UInt8.toNat (if k / 262144 % 0x08 + 0xF0 = 0xF0 then 0x90 else 0x80) ≤
      k / 4096 % 0x40 + 0x80 := by
    split
    · show 0x90 ≤ _
      omega
    · show 0x80 ≤ _
      omega
  have hhigh : k / 4096 % 0x40 + 0x80 ≤
      UInt8.toNat (if k / 262144 % 0x08 + 0xF0 = 0xF4 then 0x8F else 0xBF) := by
    split
    · show _ ≤ 0x8F
      omega
    · show _ ≤ 0xBF
      omega
  rw [if_neg h3, List.cons_append, List.cons_append, List.cons_append, List.singleton_append,
    piecesFrom_start (start_four (by omega) (by omega)), piecesFrom_more (by omega) hlow hhigh,
    piecesFrom_more (by omega) (show 0x80 ≤ _ by omega) (show _ ≤ 0xBF by omega),
    piecesFrom_last (by omega) (show 0x80 ≤ _ by omega) (show _ ≤ 0xBF by omega)]
  have hk : (((k / 262144 % 0x08 + 0xF0 - 0xF0) * 64 + (k / 4096 % 0x40 + 0x80 - 0x80)) * 64 +
      (k / 64 % 0x40 + 0x80 - 0x80)) * 64 + (k % 0x40 + 0x80 - 0x80) = k := by omega
  rw [hk, hc]

/-! ## A text -/

theorem pieces_encodeChars (cs : List Char) : pieces (encodeChars cs) = cs.map .char := by
  induction cs with
  | nil => rfl
  | cons c cs ih =>
      rw [pieces] at ih ⊢
      rw [encodeChars_cons, piecesFrom_utf8EncodeChar, ih, List.map_cons]

theorem charsOf_map_char (cs : List Char) : ∀ offset, charsOf offset (cs.map .char) = .ok cs := by
  induction cs with
  | nil => intro offset; rfl
  | cons c cs ih =>
      intro offset
      rw [List.map_cons, charsOf, ih]
      rfl

/-- A text is read back from its bytes. -/
theorem decode?_encode (s : String) : decode? (encode s) = .ok s := by
  rw [decode?, encode, pieces_encodeChars, charsOf_map_char]
  show Except.ok (String.ofList s.toList) = .ok s
  rw [String.ofList_toList]

/-- Nothing is lost when characters are read back from their bytes. -/
theorem decodeLossy_encodeChars (cs : List Char) : decodeLossy (encodeChars cs) = String.ofList cs := by
  rw [decodeLossy, pieces_encodeChars, List.map_map]
  exact congrArg String.ofList (List.map_id cs)

/-! ## Bytes that are read without a fault -/

theorem toNat_charOfNat {n : Nat} (h : n < 0xD800 ∨ 0xDFFF < n ∧ n < 0x110000) :
    (Char.ofNat n).toNat = n := by
  rw [Char.ofNat, dif_pos h]
  rfl

theorem exists_ofNat (b : UInt8) : ∃ n, n < 256 ∧ b = UInt8.ofNat n :=
  ⟨b.toNat, b.toNat_lt, UInt8.ofNat_toNat.symm⟩

/-- The byte that completes an open character lies within its bounds. -/
theorem of_piecesFrom_last {seen : List UInt8} {bits : Nat} {low high : UInt8} {bytes : List UInt8}
    {c : Char} {ps : List Piece}
    (h : piecesFrom (some ⟨seen, bits, 1, low, high⟩) bytes = .char c :: ps) :
    ∃ n rest, bytes = UInt8.ofNat n :: rest ∧ low.toNat ≤ n ∧ n ≤ high.toNat ∧
      c = Char.ofNat (bits * 64 + (n - 0x80)) ∧ ps = piecesFrom none rest := by
  cases bytes with
  | nil => exact absurd h (by simp [piecesFrom])
  | cons b rest =>
      obtain ⟨n, hn, rfl⟩ := exists_ofNat b
      by_cases hb : low.toNat ≤ n ∧ n ≤ high.toNat
      · rw [piecesFrom_last hn hb.1 hb.2] at h
        obtain ⟨hc, hps⟩ := List.cons.inj h
        exact ⟨n, rest, rfl, hb.1, hb.2, (Piece.char.inj hc).symm, hps.symm⟩
      · have hnext : Partial.next? ⟨seen, bits, 1, low, high⟩ (UInt8.ofNat n) = none := by
          simp only [Partial.next?, UInt8.le_iff_toNat_le, toNat_ofNat hn]
          rw [if_neg hb]
        rw [piecesFrom, hnext] at h
        exact absurd (List.cons.inj h).1 (by simp)

/-- A byte in the middle of an open character lies within its bounds and leaves it open. -/
theorem of_piecesFrom_more {seen : List UInt8} {bits k : Nat} {low high : UInt8}
    {bytes : List UInt8} {c : Char} {ps : List Piece}
    (h : piecesFrom (some ⟨seen, bits, k + 2, low, high⟩) bytes = .char c :: ps) :
    ∃ n rest, bytes = UInt8.ofNat n :: rest ∧ low.toNat ≤ n ∧ n ≤ high.toNat ∧
      piecesFrom (some ⟨UInt8.ofNat n :: seen, bits * 64 + (n - 0x80), k + 1, 0x80, 0xBF⟩) rest =
        .char c :: ps := by
  cases bytes with
  | nil => exact absurd h (by simp [piecesFrom])
  | cons b rest =>
      obtain ⟨n, hn, rfl⟩ := exists_ofNat b
      by_cases hb : low.toNat ≤ n ∧ n ≤ high.toNat
      · rw [piecesFrom_more hn hb.1 hb.2] at h
        exact ⟨n, rest, rfl, hb.1, hb.2, h⟩
      · have hnext : Partial.next? ⟨seen, bits, k + 2, low, high⟩ (UInt8.ofNat n) = none := by
          simp only [Partial.next?, UInt8.le_iff_toNat_le, toNat_ofNat hn]
          rw [if_neg hb]
        rw [piecesFrom, hnext] at h
        exact absurd (List.cons.inj h).1 (by simp)

/-- The bytes of the character of a number, by the size of the number. -/
theorem utf8EncodeChar_ofNat {n : Nat} (h : n < 0xD800 ∨ 0xDFFF < n ∧ n < 0x110000) :
    String.utf8EncodeChar (Char.ofNat n) =
      if n ≤ 0x7F then [UInt8.ofNat n]
      else if n ≤ 0x7FF then [UInt8.ofNat (n / 64 % 0x20 + 0xC0), UInt8.ofNat (n % 0x40 + 0x80)]
      else if n ≤ 0xFFFF then
        [UInt8.ofNat (n / 4096 % 0x10 + 0xE0), UInt8.ofNat (n / 64 % 0x40 + 0x80),
          UInt8.ofNat (n % 0x40 + 0x80)]
      else
        [UInt8.ofNat (n / 262144 % 0x08 + 0xF0), UInt8.ofNat (n / 4096 % 0x40 + 0x80),
          UInt8.ofNat (n / 64 % 0x40 + 0x80), UInt8.ofNat (n % 0x40 + 0x80)] := by
  have hval : (Char.ofNat n).val.toNat = n := toNat_charOfNat h
  simp only [String.utf8EncodeChar, hval]

/-- The bytes begin with the UTF-8 form of the character, and the pieces are those of the other bytes. -/
def BeginsWith (c : Char) (ps : List Piece) (bytes : List UInt8) : Prop :=
  ∃ rest, bytes = String.utf8EncodeChar c ++ rest ∧ ps = piecesFrom none rest

theorem of_piecesFrom_two {n : Nat} (hlow : 0xC2 ≤ n) (hhigh : n < 0xE0) {bytes : List UInt8} {c : Char}
    {ps : List Piece} (h : piecesFrom none (UInt8.ofNat n :: bytes) = .char c :: ps) :
    BeginsWith c ps (UInt8.ofNat n :: bytes) := by
  rw [piecesFrom_start (start_two hlow hhigh)] at h
  obtain ⟨n1, rest, rfl, hlow1, hhigh1, hc, hps⟩ := of_piecesFrom_last h
  change 0x80 ≤ n1 at hlow1
  change n1 ≤ 0xBF at hhigh1
  refine ⟨rest, ?_, hps⟩
  obtain ⟨k, hk⟩ : ∃ k, k = (n - 0xC0) * 64 + (n1 - 0x80) := ⟨_, rfl⟩
  have hk0 : k / 64 % 0x20 + 0xC0 = n := by omega
  have hk1 : k % 0x40 + 0x80 = n1 := by omega
  rw [hc, ← hk, utf8EncodeChar_ofNat (by omega), if_neg (by omega), if_pos (by omega), hk0, hk1]
  rfl

theorem of_piecesFrom_three {n : Nat} (hlow : 0xE0 ≤ n) (hhigh : n < 0xF0) {bytes : List UInt8} {c : Char}
    {ps : List Piece} (h : piecesFrom none (UInt8.ofNat n :: bytes) = .char c :: ps) :
    BeginsWith c ps (UInt8.ofNat n :: bytes) := by
  rw [piecesFrom_start (start_three hlow hhigh)] at h
  obtain ⟨n1, rest, rfl, hlow1, hhigh1, h⟩ := of_piecesFrom_more h
  obtain ⟨n2, rest, rfl, hlow2, hhigh2, hc, hps⟩ := of_piecesFrom_last h
  change 0x80 ≤ n2 at hlow2
  change n2 ≤ 0xBF at hhigh2
  rw [apply_ite UInt8.toNat] at hlow1 hhigh1
  change (if n = 0xE0 then 0xA0 else 0x80) ≤ n1 at hlow1
  change n1 ≤ (if n = 0xED then 0x9F else 0xBF) at hhigh1
  -- The bounds of the second byte keep out what is too short and what is a surrogate.
  have hbounds : 0x80 ≤ n1 ∧ n1 ≤ 0xBF ∧ (n = 0xE0 → 0xA0 ≤ n1) ∧ (n = 0xED → n1 ≤ 0x9F) := by
    split at hlow1 <;> split at hhigh1 <;> omega
  refine ⟨rest, ?_, hps⟩
  obtain ⟨k, hk⟩ : ∃ k, k = ((n - 0xE0) * 64 + (n1 - 0x80)) * 64 + (n2 - 0x80) := ⟨_, rfl⟩
  have hk0 : k / 4096 % 0x10 + 0xE0 = n := by omega
  have hk1 : k / 64 % 0x40 + 0x80 = n1 := by omega
  have hk2 : k % 0x40 + 0x80 = n2 := by omega
  rw [hc, ← hk, utf8EncodeChar_ofNat (by omega), if_neg (by omega), if_neg (by omega),
    if_pos (by omega), hk0, hk1, hk2]
  rfl

theorem of_piecesFrom_four {n : Nat} (hlow : 0xF0 ≤ n) (hhigh : n < 0xF5) {bytes : List UInt8} {c : Char}
    {ps : List Piece} (h : piecesFrom none (UInt8.ofNat n :: bytes) = .char c :: ps) :
    BeginsWith c ps (UInt8.ofNat n :: bytes) := by
  rw [piecesFrom_start (start_four hlow hhigh)] at h
  obtain ⟨n1, rest, rfl, hlow1, hhigh1, h⟩ := of_piecesFrom_more h
  obtain ⟨n2, rest, rfl, hlow2, hhigh2, h⟩ := of_piecesFrom_more h
  obtain ⟨n3, rest, rfl, hlow3, hhigh3, hc, hps⟩ := of_piecesFrom_last h
  change 0x80 ≤ n2 at hlow2
  change n2 ≤ 0xBF at hhigh2
  change 0x80 ≤ n3 at hlow3
  change n3 ≤ 0xBF at hhigh3
  rw [apply_ite UInt8.toNat] at hlow1 hhigh1
  change (if n = 0xF0 then 0x90 else 0x80) ≤ n1 at hlow1
  change n1 ≤ (if n = 0xF4 then 0x8F else 0xBF) at hhigh1
  -- The bounds of the second byte keep out what is too short and what is above the last character.
  have hbounds : 0x80 ≤ n1 ∧ n1 ≤ 0xBF ∧ (n = 0xF0 → 0x90 ≤ n1) ∧ (n = 0xF4 → n1 ≤ 0x8F) := by
    split at hlow1 <;> split at hhigh1 <;> omega
  refine ⟨rest, ?_, hps⟩
  obtain ⟨k, hk⟩ : ∃ k, k = (((n - 0xF0) * 64 + (n1 - 0x80)) * 64 + (n2 - 0x80)) * 64 +
      (n3 - 0x80) := ⟨_, rfl⟩
  have hk0 : k / 262144 % 0x08 + 0xF0 = n := by omega
  have hk1 : k / 4096 % 0x40 + 0x80 = n1 := by omega
  have hk2 : k / 64 % 0x40 + 0x80 = n2 := by omega
  have hk3 : k % 0x40 + 0x80 = n3 := by omega
  rw [hc, ← hk, utf8EncodeChar_ofNat (by omega), if_neg (by omega), if_neg (by omega),
    if_neg (by omega), hk0, hk1, hk2, hk3]
  rfl

/-- An ASCII byte is in no character but its own: all bytes of a longer character are 128 or more. -/
theorem eq_of_ascii_mem {n : Nat} (hn : n < 0x80) {c : Char}
    (h : UInt8.ofNat n ∈ String.utf8EncodeChar c) : c = Char.ofNat n := by
  have hvalid := toNat_valid c
  rw [← Char.ofNat_toNat c, utf8EncodeChar_ofNat hvalid] at h
  have hsame : ∀ {k : Nat}, k < 256 → UInt8.ofNat n = UInt8.ofNat k → n = k := by
    intro k hk heq
    have hbyte := congrArg UInt8.toNat heq
    rwa [toNat_ofNat (by omega), toNat_ofNat hk] at hbyte
  have hlate : ∀ {k : Nat}, 0x80 ≤ k → k < 256 → UInt8.ofNat n ≠ UInt8.ofNat k := by
    intro k hlow hhigh heq
    have hk := hsame hhigh heq
    omega
  split at h
  · next hsmall => rw [hsame (by omega) (List.mem_singleton.mp h), Char.ofNat_toNat]
  · split at h
    · simp only [List.mem_cons, List.not_mem_nil, or_false] at h
      rcases h with h | h <;> exact absurd h (hlate (by omega) (by omega))
    · split at h
      · simp only [List.mem_cons, List.not_mem_nil, or_false] at h
        rcases h with h | h | h <;> exact absurd h (hlate (by omega) (by omega))
      · simp only [List.mem_cons, List.not_mem_nil, or_false] at h
        rcases h with h | h | h | h <;> exact absurd h (hlate (by omega) (by omega))

/-- What is read as a character is the UTF-8 form of the character. -/
theorem of_piecesFrom_char {bytes : List UInt8} {c : Char} {ps : List Piece}
    (h : piecesFrom none bytes = .char c :: ps) : BeginsWith c ps bytes := by
  cases bytes with
  | nil => exact absurd h (by simp [piecesFrom])
  | cons b bytes =>
      obtain ⟨n, hn, rfl⟩ := exists_ofNat b
      by_cases hone : n < 0x80
      · rw [piecesFrom, start_one hone] at h
        obtain ⟨hc, hps⟩ := List.cons.inj h
        rw [← Piece.char.inj hc, BeginsWith, utf8EncodeChar_ofNat (by omega), if_pos (by omega)]
        exact ⟨bytes, rfl, hps.symm⟩
      by_cases hbad : n < 0xC2 ∨ 0xF5 ≤ n
      · rw [piecesFrom, start_bad hn (by omega)] at h
        exact absurd (List.cons.inj h).1 (by simp)
      by_cases htwo : n < 0xE0
      · exact of_piecesFrom_two (by omega) htwo h
      by_cases hthree : n < 0xF0
      · exact of_piecesFrom_three (by omega) hthree h
      · exact of_piecesFrom_four (by omega) (by omega) h

/-- An open character makes a piece, whatever follows. -/
theorem piecesFrom_some_ne_nil {bytes : List UInt8} : ∀ p, piecesFrom (some p) bytes ≠ [] := by
  induction bytes with
  | nil => intro p; simp [piecesFrom]
  | cons b rest ih =>
      intro p
      rw [piecesFrom]
      split
      · exact List.cons_ne_nil _ _
      · exact ih _
      · exact List.cons_ne_nil _ _

theorem piecesFrom_none_eq_nil {bytes : List UInt8} (h : piecesFrom none bytes = []) : bytes = [] := by
  cases bytes with
  | nil => rfl
  | cons b rest =>
      rw [piecesFrom] at h
      split at h
      · exact absurd h (List.cons_ne_nil _ _)
      · exact absurd h (piecesFrom_some_ne_nil _)

theorem encodeChars_of_charsOf {cs : List Char} :
    ∀ {offset : Nat} {bytes : List UInt8}, charsOf offset (piecesFrom none bytes) = .ok cs →
      encodeChars cs = bytes := by
  induction cs with
  | nil =>
      intro offset bytes h
      match hp : piecesFrom none bytes with
      | [] => rw [piecesFrom_none_eq_nil hp, encodeChars_nil]
      | .char c :: ps =>
          rw [hp, charsOf, map_eq_ok] at h
          obtain ⟨ds, _, hcons⟩ := h
          exact absurd hcons (List.cons_ne_nil c ds)
      | .broken _ _ :: ps =>
          rw [hp] at h
          exact absurd h (by simp [charsOf])
  | cons c cs ih =>
      intro offset bytes h
      match hp : piecesFrom none bytes with
      | [] =>
          rw [hp] at h
          exact absurd h (by simp [charsOf])
      | .char d :: ps =>
          obtain ⟨rest, rfl, rfl⟩ := of_piecesFrom_char hp
          rw [hp, charsOf, map_eq_ok] at h
          obtain ⟨ds, hds, hcons⟩ := h
          obtain ⟨rfl, rfl⟩ := List.cons.inj hcons
          rw [encodeChars_cons, ih hds]
      | .broken _ _ :: ps =>
          rw [hp] at h
          exact absurd h (by simp [charsOf])

/-- Bytes that are read without a fault are the UTF-8 form of the text. -/
theorem encode_of_decode? {bytes : List UInt8} {s : String} (h : decode? bytes = .ok s) :
    encode s = bytes := by
  rw [decode?, pieces, map_eq_ok] at h
  obtain ⟨cs, hcs, rfl⟩ := h
  rw [encode, String.toList_ofList]
  exact encodeChars_of_charsOf hcs

/-- Different texts have different UTF-8 forms. -/
theorem encode_injective {s t : String} (h : encode s = encode t) : s = t := by
  have hs := decode?_encode s
  rw [h, decode?_encode t, Except.ok.injEq] at hs
  exact hs.symm

theorem encodeChars_injective {as bs : List Char} (h : encodeChars as = encodeChars bs) : as = bs := by
  have hofList : String.ofList as = String.ofList bs := by
    apply encode_injective
    rw [encode, encode, String.toList_ofList, String.toList_ofList, h]
  exact String.ofList_injective hofList

/-! ## Places between characters -/

theorem infix_encodeChars {as bs : List Char} (h : as <:+: bs) : encodeChars as <:+: encodeChars bs := by
  obtain ⟨front, back, rfl⟩ := h
  exact ⟨encodeChars front, encodeChars back, by rw [encodeChars_append, encodeChars_append]⟩

/-- The number of bytes in the UTF-8 form of some characters. -/
def width (cs : List Char) : Nat := (encodeChars cs).length

@[simp] theorem width_nil : width [] = 0 := rfl

@[simp] theorem width_append (a b : List Char) : width (a ++ b) = width a + width b := by
  simp [width]

theorem width_pos {cs : List Char} (h : cs ≠ []) : 0 < width cs := by
  cases cs with
  | nil => exact absurd rfl h
  | cons c cs =>
      have hc : 0 < (String.utf8EncodeChar c).length :=
        List.length_pos_iff.mpr String.utf8EncodeChar_ne_nil
      rw [width, encodeChars_cons, List.length_append]
      omega

/-- The place after so many bytes lies between two characters. -/
def Boundary (cs : List Char) (offset : Nat) : Prop :=
  ∃ before after, cs = before ++ after ∧ width before = offset

theorem Boundary.le {cs : List Char} {offset : Nat} (h : Boundary cs offset) :
    offset ≤ width cs := by
  obtain ⟨before, after, rfl, rfl⟩ := h
  rw [width_append]
  omega

/-- A boundary that does not lie before the end of a prefix is one in what follows the prefix. -/
theorem Boundary.drop {front back : List Char} {offset : Nat} (h : Boundary (front ++ back) offset)
    (hoffset : width front ≤ offset) : Boundary back (offset - width front) := by
  obtain ⟨before, after, heq, rfl⟩ := h
  rcases List.append_eq_append_iff.mp heq with ⟨middle, rfl, rfl⟩ | ⟨middle, rfl, rfl⟩
  · exact ⟨middle, after, rfl, by rw [width_append]; omega⟩
  · cases middle with
    | nil => exact ⟨[], back, rfl, by rw [List.append_nil]; simp⟩
    | cons c middle =>
        have hpos := width_pos (List.cons_ne_nil c middle)
        rw [width_append] at hoffset
        omega

theorem boundary_nil {offset : Nat} : Boundary [] offset ↔ offset = 0 := by
  constructor
  · intro h
    have hle := h.le
    rw [width_nil] at hle
    omega
  · rintro rfl
    exact ⟨[], [], rfl, rfl⟩

theorem boundary_cons {c : Char} {cs : List Char} {offset : Nat} :
    Boundary (c :: cs) offset ↔ offset = 0 ∨ width [c] ≤ offset ∧ Boundary cs (offset - width [c]) := by
  constructor
  · rintro ⟨before, after, heq, rfl⟩
    cases before with
    | nil => exact Or.inl rfl
    | cons d before =>
        obtain ⟨rfl, rfl⟩ := List.cons.inj heq
        have hwidth : width (c :: before) = width [c] + width before := width_append [c] before
        exact Or.inr ⟨by omega, before, after, rfl, by omega⟩
  · rintro (rfl | ⟨hle, before, after, rfl, hwidth⟩)
    · exact ⟨[], c :: cs, rfl, rfl⟩
    · have happend : width (c :: before) = width [c] + width before := width_append [c] before
      exact ⟨c :: before, after, rfl, by omega⟩

/-- Look for the place from the beginning of the text. -/
def decideBoundary : (cs : List Char) → (offset : Nat) → Decidable (Boundary cs offset)
  | [], offset => decidable_of_iff (offset = 0) boundary_nil.symm
  | c :: cs, offset =>
    have := decideBoundary cs (offset - width [c])
    decidable_of_iff (offset = 0 ∨ width [c] ≤ offset ∧ Boundary cs (offset - width [c]))
      boundary_cons.symm

instance (cs : List Char) (offset : Nat) : Decidable (Boundary cs offset) := decideBoundary cs offset

/-- Two boundaries cut a text into three parts. -/
theorem Boundary.split {cs : List Char} {first last : Nat} (hfirst : Boundary cs first)
    (hlast : Boundary cs last) (h : first ≤ last) :
    ∃ before middle after, cs = before ++ middle ++ after ∧ width before = first ∧
      width before + width middle = last := by
  obtain ⟨before, rest, rfl, rfl⟩ := hfirst
  obtain ⟨middle, after, rfl, hmiddle⟩ := hlast.drop h
  exact ⟨before, middle, after, (List.append_assoc ..).symm, rfl, by omega⟩

end IdiomLint.Utf8
