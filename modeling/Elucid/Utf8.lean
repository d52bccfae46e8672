import Elucid.Json

/-!
# UTF-8

`isUtf8` reads a text character by character. Here a text is the concatenation of its
characters instead (`isUtf8_iff`) : the first byte of a character is not a continuation byte,
and the others are. Texts are valid together (`isUtf8_append`), and the characters are the
encodings of the Unicode scalar values (`firstCharacter_encodeChar`, `exists_encodeChar`).
-/

namespace Elucid

open BigEndian List

variable {bytes rest : Bytes} {count : Nat} {n : Nat} {character : Bytes} {low high : UInt8}
  {tail : Bytes} {byte : UInt8}
variable {first : UInt8}

/-- A continuation byte. -/
def isContinuation (byte : UInt8) : Bool := 0x80 ≤ byte && byte ≤ 0xBF

/-! ## Characters -/

theorem continuation_append (h : continuation low high count bytes = some rest) (more : Bytes) :
    continuation low high count (bytes ++ more) = some (rest ++ more) := by
  induction count generalizing low high bytes with
  | zero =>
    obtain rfl := Option.some.inj h
    rfl
  | succ count ih =>
    cases bytes with
    | nil => cases h
    | cons byte bytes =>
      rw [continuation] at h
      rw [cons_append, continuation]
      split at h
      · rw [if_pos ‹_›]
        exact ih h
      · cases h

theorem continuation_eq_some (hlow : 0x80 ≤ low) (hhigh : high ≤ 0xBF)
    (h : continuation low high count bytes = some rest) :
    ∃ front, bytes = front ++ rest ∧ continuation low high count front = some [] ∧
      front.length = count ∧ ∀ byte ∈ front, isContinuation byte := by
  induction count generalizing low high bytes with
  | zero =>
    obtain rfl := Option.some.inj h
    exact ⟨[], rfl, rfl, rfl, by simp⟩
  | succ count ih =>
    cases bytes with
    | nil => cases h
    | cons byte bytes =>
      rw [continuation] at h
      split at h
      · rename_i hbyte
        obtain ⟨front, rfl, hfront, hlength, hall⟩ := ih (by decide) (by decide) h
        refine ⟨byte :: front, rfl, ?_, by rw [length_cons, hlength],
          forall_mem_cons.mpr ⟨?_, hall⟩⟩
        · rw [continuation, if_pos hbyte]
          exact hfront
        · simp [isContinuation, UInt8.le_trans hlow hbyte.1, UInt8.le_trans hbyte.2 hhigh]
      · cases h

/-- A first byte is alone, is followed by a continuation, or is none. -/
theorem firstCharacter_cons (byte : UInt8) :
    (byte.toNat ≤ 0x7F ∧ ∀ rest, firstCharacter (byte :: rest) = some rest) ∨
    (0xC2 ≤ byte.toNat ∧ ∃ low high count, 0x80 ≤ low ∧ high ≤ 0xBF ∧ count ≤ 3 ∧
      ∀ rest, firstCharacter (byte :: rest) = continuation low high count rest) ∨
    ∀ rest, firstCharacter (byte :: rest) = none := by
  -- the bytes of a longer character, with the range of the second
  have hmulti (low high : UInt8) (count : Nat) (hbyte : 0xC2 ≤ byte)
      (hrange : 0x80 ≤ low ∧ high ≤ 0xBF ∧ count ≤ 3)
      (h : ∀ rest, firstCharacter (byte :: rest) = continuation low high count rest) :
      0xC2 ≤ byte.toNat ∧ ∃ low high count, 0x80 ≤ low ∧ high ≤ 0xBF ∧ count ≤ 3 ∧
        ∀ rest, firstCharacter (byte :: rest) = continuation low high count rest :=
    ⟨UInt8.le_iff_toNat_le.mp hbyte, low, high, count, hrange.1, hrange.2.1, hrange.2.2, h⟩
  by_cases hascii : byte ≤ 0x7F
  · exact .inl ⟨UInt8.le_iff_toNat_le.mp hascii, fun rest => by rw [firstCharacter, if_pos hascii]⟩
  by_cases htwo : 0xC2 ≤ byte ∧ byte ≤ 0xDF
  · exact .inr (.inl (hmulti 0x80 0xBF 1 htwo.1 (by decide) fun rest => by
      rw [firstCharacter, if_neg hascii, if_pos htwo]))
  by_cases hE0 : byte = 0xE0
  · exact .inr (.inl (hmulti 0xA0 0xBF 2 (hE0 ▸ by decide) (by decide) fun rest => by
      rw [firstCharacter, if_neg hascii, if_neg htwo, if_pos hE0]))
  by_cases hED : byte = 0xED
  · exact .inr (.inl (hmulti 0x80 0x9F 2 (hED ▸ by decide) (by decide) fun rest => by
      rw [firstCharacter, if_neg hascii, if_neg htwo, if_neg hE0, if_pos hED]))
  by_cases hthree : 0xE1 ≤ byte ∧ byte ≤ 0xEF
  · exact .inr (.inl (hmulti 0x80 0xBF 2 (UInt8.le_trans (by decide) hthree.1) (by decide)
      fun rest => by
        rw [firstCharacter, if_neg hascii, if_neg htwo, if_neg hE0, if_neg hED, if_pos hthree]))
  by_cases hF0 : byte = 0xF0
  · exact .inr (.inl (hmulti 0x90 0xBF 3 (hF0 ▸ by decide) (by decide) fun rest => by
      rw [firstCharacter, if_neg hascii, if_neg htwo, if_neg hE0, if_neg hED, if_neg hthree,
        if_pos hF0]))
  by_cases hfour : 0xF1 ≤ byte ∧ byte ≤ 0xF3
  · exact .inr (.inl (hmulti 0x80 0xBF 3 (UInt8.le_trans (by decide) hfour.1) (by decide)
      fun rest => by
        rw [firstCharacter, if_neg hascii, if_neg htwo, if_neg hE0, if_neg hED, if_neg hthree,
          if_neg hF0, if_pos hfour]))
  by_cases hF4 : byte = 0xF4
  · exact .inr (.inl (hmulti 0x80 0x8F 3 (hF4 ▸ by decide) (by decide) fun rest => by
      rw [firstCharacter, if_neg hascii, if_neg htwo, if_neg hE0, if_neg hED, if_neg hthree,
        if_neg hF0, if_neg hfour, if_pos hF4]))
  · exact .inr (.inr fun rest => by
      rw [firstCharacter, if_neg hascii, if_neg htwo, if_neg hE0, if_neg hED, if_neg hthree,
        if_neg hF0, if_neg hfour, if_neg hF4])

theorem isContinuation_eq_false_iff :
    isContinuation byte = false ↔ byte.toNat < 0x80 ∨ 0xBF < byte.toNat := by
  simp only [isContinuation, Bool.and_eq_false_iff, decide_eq_false_iff_not,
    UInt8.le_iff_toNat_le, not_le]
  exact Iff.rfl

/-- A character : a byte that is not one of a continuation, and then those that are. -/
structure IsCharacter (character : Bytes) : Prop where
  valid : firstCharacter character = some []
  length_le : character.length ≤ 4
  shape : ∃ first rest, character = first :: rest ∧ isContinuation first = false ∧
    ∀ byte ∈ rest, isContinuation byte

theorem firstCharacter_append (h : firstCharacter bytes = some rest) (more : Bytes) :
    firstCharacter (bytes ++ more) = some (rest ++ more) := by
  cases bytes with
  | nil => cases h
  | cons byte bytes =>
    rw [cons_append]
    rcases firstCharacter_cons byte with ⟨-, hsame⟩ | ⟨-, _, _, _, -, -, -, hsame⟩ | hnone
    · rw [hsame] at h ⊢
      rw [Option.some.inj h]
    · rw [hsame] at h ⊢
      exact continuation_append h more
    · rw [hnone] at h
      cases h

/-- What is read first is a character. -/
theorem firstCharacter_eq_some (h : firstCharacter bytes = some rest) :
    ∃ character, bytes = character ++ rest ∧ IsCharacter character := by
  cases bytes with
  | nil => cases h
  | cons byte bytes =>
    rcases firstCharacter_cons byte with
      ⟨hbyte, hsame⟩ | ⟨hbyte, low, high, count, hlow, hhigh, hcount, hsame⟩ | hnone
    · rw [hsame] at h
      obtain rfl := Option.some.inj h
      exact ⟨[byte], rfl, hsame [], by simp, byte, [], rfl,
        isContinuation_eq_false_iff.mpr (by omega), by simp⟩
    · rw [hsame] at h
      obtain ⟨front, rfl, hfront, hlength, hall⟩ := continuation_eq_some hlow hhigh h
      refine ⟨byte :: front, rfl, (hsame front).trans hfront, ?_, byte, front, rfl,
        isContinuation_eq_false_iff.mpr (by omega), hall⟩
      rw [length_cons, hlength]
      omega
    · rw [hnone] at h
      cases h

theorem IsCharacter.ne_nil (h : IsCharacter character) : character ≠ [] := by
  obtain ⟨_, _, rfl, -⟩ := h.shape
  exact cons_ne_nil _ _

theorem isCharacter_of_valid (h : firstCharacter character = some []) :
    IsCharacter character := by
  obtain ⟨_, heq, hcharacter⟩ := firstCharacter_eq_some h
  rw [append_nil] at heq
  exact heq ▸ hcharacter

/-! ## Texts -/

theorem isUtf8Within_succ (count : Nat) (byte : UInt8) (bytes : Bytes) :
    isUtf8Within (count + 1) (byte :: bytes) =
      (firstCharacter (byte :: bytes)).any (isUtf8Within count) := by
  cases h : firstCharacter (byte :: bytes) <;> simp [isUtf8Within, h]

theorem isUtf8Within_flatten {characters : List Bytes} (h : ∀ c ∈ characters, IsCharacter c)
    (hcount : characters.flatten.length ≤ count) :
    isUtf8Within count characters.flatten = true := by
  induction characters generalizing count with
  | nil =>
    rw [flatten_nil, isUtf8Within]
  | cons character characters ih =>
    obtain ⟨hcharacter, hrest⟩ := forall_mem_cons.mp h
    rw [flatten_cons] at hcount ⊢
    have hpos := length_pos_iff.mpr hcharacter.ne_nil
    rw [length_append] at hcount
    cases count with
    | zero => omega
    | succ count =>
      have hfirst := firstCharacter_append hcharacter.valid characters.flatten
      obtain ⟨first, rest, hshape, -⟩ := hcharacter.shape
      rw [hshape, cons_append] at hfirst ⊢
      rw [isUtf8Within_succ, hfirst]
      exact ih hrest (by omega)

theorem exists_of_isUtf8Within (h : isUtf8Within count bytes = true) :
    ∃ characters : List Bytes, bytes = characters.flatten ∧ ∀ c ∈ characters, IsCharacter c := by
  induction count generalizing bytes with
  | zero =>
    cases bytes with
    | nil => exact ⟨[], rfl, by simp⟩
    | cons byte bytes => cases h
  | succ count ih =>
    cases bytes with
    | nil => exact ⟨[], rfl, by simp⟩
    | cons byte bytes =>
      rw [isUtf8Within_succ] at h
      obtain ⟨rest, hfirst, h⟩ := (Option.any_eq_true _ _).mp h
      obtain ⟨character, heq, hcharacter⟩ := firstCharacter_eq_some hfirst
      obtain ⟨characters, rfl, hall⟩ := ih h
      exact ⟨character :: characters, heq, forall_mem_cons.mpr ⟨hcharacter, hall⟩⟩

/-- A text is valid exactly if it is a concatenation of characters. -/
theorem isUtf8_iff :
    isUtf8 bytes = true ↔
      ∃ characters : List Bytes, bytes = characters.flatten ∧ ∀ c ∈ characters, IsCharacter c := by
  constructor
  · exact exists_of_isUtf8Within
  · rintro ⟨characters, rfl, h⟩
    exact isUtf8Within_flatten h le_rfl

theorem isUtf8_append {front back : Bytes} (hfront : isUtf8 front = true)
    (hback : isUtf8 back = true) : isUtf8 (front ++ back) = true := by
  obtain ⟨first, rfl, hfirst⟩ := isUtf8_iff.mp hfront
  obtain ⟨later, rfl, hlater⟩ := isUtf8_iff.mp hback
  refine isUtf8_iff.mpr ⟨first ++ later, flatten_append.symm, fun c hc => ?_⟩
  rcases mem_append.mp hc with hc | hc
  · exact hfirst c hc
  · exact hlater c hc

theorem isUtf8_of_ascii (h : ∀ byte ∈ bytes, byte ≤ 0x7F) :
    isUtf8 bytes = true := by
  refine isUtf8_iff.mpr ⟨bytes.map fun byte => [byte], ?_, fun c hc => ?_⟩
  · rw [← flatMap_def, flatMap_singleton']
  · obtain ⟨byte, hbyte, rfl⟩ := mem_map.mp hc
    exact isCharacter_of_valid (by rw [firstCharacter, if_pos (h byte hbyte)])

theorem isUtf8_cons (hbyte : byte ≤ 0x7F) (hrest : isUtf8 rest = true) :
    isUtf8 (byte :: rest) = true := by
  have hfront : isUtf8 [byte] = true := isUtf8_of_ascii (by simpa using hbyte)
  exact (isUtf8_append hfront hrest : isUtf8 ([byte] ++ rest) = true)

/-! ## Scalar values -/

/-- The UTF-8 encoding of a Unicode scalar value. -/
def encodeChar (c : Char) : Bytes :=
  let n := c.toNat
  if n < 0x80 then [UInt8.ofNat n]
  else if n < 0x800 then [UInt8.ofNat (0xC0 + n / 64), UInt8.ofNat (0x80 + n % 64)]
  else if n < 0x10000 then
    [UInt8.ofNat (0xE0 + n / 4096), UInt8.ofNat (0x80 + n / 64 % 64), UInt8.ofNat (0x80 + n % 64)]
  else
    [UInt8.ofNat (0xF0 + n / 262144), UInt8.ofNat (0x80 + n / 4096 % 64),
      UInt8.ofNat (0x80 + n / 64 % 64), UInt8.ofNat (0x80 + n % 64)]

theorem toNat_ofNat_of_lt (h : n < 256) : (UInt8.ofNat n).toNat = n :=
  UInt8.toNat_ofNat_of_lt' h

/-- The bytes of an encoding are ASCII only for an ASCII character, which is its own byte. -/
theorem mem_encodeChar {c : Char} (h : byte ∈ encodeChar c) :
    byte.toNat = c.toNat ∨ 0x80 ≤ byte.toNat := by
  have hvalid : c.toNat < 0xD800 ∨ 0xDFFF < c.toNat ∧ c.toNat < 0x110000 := c.valid
  unfold encodeChar at h
  dsimp only at h
  split_ifs at h
  · obtain rfl := mem_singleton.mp h
    exact .inl (toNat_ofNat_of_lt (by omega))
  all_goals
    refine .inr ?_
    simp only [mem_cons, not_mem_nil, or_false] at h
  · rcases h with rfl | rfl <;> rw [toNat_ofNat_of_lt (by omega)] <;> omega
  · rcases h with rfl | rfl | rfl <;> rw [toNat_ofNat_of_lt (by omega)] <;> omega
  · rcases h with rfl | rfl | rfl | rfl <;> rw [toNat_ofNat_of_lt (by omega)] <;> omega

theorem continuation_ofNat (low high : Nat) (hlow : low ≤ n) (hhigh : n ≤ high) (hlt : high < 256)
    (count : Nat) (rest : Bytes) :
    continuation (UInt8.ofNat low) (UInt8.ofNat high) (count + 1) (UInt8.ofNat n :: rest) =
      continuation 0x80 0xBF count rest := by
  rw [continuation, if_pos]
  rw [UInt8.le_iff_toNat_le, UInt8.le_iff_toNat_le, toNat_ofNat_of_lt (by omega),
    toNat_ofNat_of_lt (by omega), toNat_ofNat_of_lt hlt]
  exact ⟨hlow, hhigh⟩

/-- Six bits, as a byte of a continuation. -/
theorem continuation_mod (n count : Nat) (rest : Bytes) :
    continuation 0x80 0xBF (count + 1) (UInt8.ofNat (0x80 + n % 64) :: rest) =
      continuation 0x80 0xBF count rest :=
  continuation_ofNat 0x80 0xBF (by omega) (by omega) (by decide) count rest

/-- The conditions on the first byte of a character, by its number. -/
theorem firstCharacter_ofNat (hn : n < 256) (rest : Bytes) :
    firstCharacter (UInt8.ofNat n :: rest) =
      if n ≤ 0x7F then some rest
      else if 0xC2 ≤ n ∧ n ≤ 0xDF then continuation 0x80 0xBF 1 rest
      else if n = 0xE0 then continuation 0xA0 0xBF 2 rest
      else if n = 0xED then continuation 0x80 0x9F 2 rest
      else if 0xE1 ≤ n ∧ n ≤ 0xEF then continuation 0x80 0xBF 2 rest
      else if n = 0xF0 then continuation 0x90 0xBF 3 rest
      else if 0xF1 ≤ n ∧ n ≤ 0xF3 then continuation 0x80 0xBF 3 rest
      else if n = 0xF4 then continuation 0x80 0x8F 3 rest
      else none := by
  have hle (bound : Nat) (hbound : bound < 256) :
      UInt8.ofNat n ≤ UInt8.ofNat bound ↔ n ≤ bound := by
    rw [UInt8.le_iff_toNat_le, toNat_ofNat_of_lt hn, toNat_ofNat_of_lt hbound]
  have hge (bound : Nat) (hbound : bound < 256) :
      UInt8.ofNat bound ≤ UInt8.ofNat n ↔ bound ≤ n := by
    rw [UInt8.le_iff_toNat_le, toNat_ofNat_of_lt hn, toNat_ofNat_of_lt hbound]
  have heq (bound : Nat) (hbound : bound < 256) :
      UInt8.ofNat n = UInt8.ofNat bound ↔ n = bound := by
    rw [← UInt8.toNat_inj, toNat_ofNat_of_lt hn, toNat_ofNat_of_lt hbound]
  rw [firstCharacter]
  exact if_congr (hle 0x7F (by decide)) rfl
    (if_congr (and_congr (hge 0xC2 (by decide)) (hle 0xDF (by decide))) rfl
    (if_congr (heq 0xE0 (by decide)) rfl
    (if_congr (heq 0xED (by decide)) rfl
    (if_congr (and_congr (hge 0xE1 (by decide)) (hle 0xEF (by decide))) rfl
    (if_congr (heq 0xF0 (by decide)) rfl
    (if_congr (and_congr (hge 0xF1 (by decide)) (hle 0xF3 (by decide))) rfl
    (if_congr (heq 0xF4 (by decide)) rfl rfl)))))))

/-- The encoding of a scalar value is a character. -/
theorem firstCharacter_encodeChar (c : Char) : firstCharacter (encodeChar c) = some [] := by
  have hvalid : c.toNat < 0xD800 ∨ 0xDFFF < c.toNat ∧ c.toNat < 0x110000 := c.valid
  unfold encodeChar
  dsimp only
  split
  · rw [firstCharacter_ofNat (by omega), if_pos (by omega)]
  split
  · rw [firstCharacter_ofNat (by omega), if_neg (by omega), if_pos (by omega), continuation_mod,
      continuation]
  -- behind 0xE0, 0xED, 0xF0 and 0xF4 the range of the second byte is smaller
  split
  · rw [firstCharacter_ofNat (by omega), if_neg (by omega), if_neg (by omega)]
    split
    · exact (continuation_ofNat 0xA0 0xBF (by omega) (by omega) (by decide) 1 _).trans
        (continuation_mod _ 0 [])
    split
    · exact (continuation_ofNat 0x80 0x9F (by omega) (by omega) (by decide) 1 _).trans
        (continuation_mod _ 0 [])
    · rw [if_pos (by omega), continuation_mod, continuation_mod, continuation]
  · have hlast (rest : Bytes) : continuation 0x80 0xBF 2 (UInt8.ofNat (0x80 + c.toNat / 64 % 64) ::
        UInt8.ofNat (0x80 + c.toNat % 64) :: rest) = some rest := by
      rw [continuation_mod, continuation_mod, continuation]
    rw [firstCharacter_ofNat (by omega), if_neg (by omega), if_neg (by omega), if_neg (by omega),
      if_neg (by omega), if_neg (by omega)]
    split
    · exact (continuation_ofNat 0x90 0xBF (by omega) (by omega) (by decide) 2 _).trans (hlast [])
    split
    · rw [continuation_mod, hlast]
    · rw [if_pos (by omega)]
      exact (continuation_ofNat 0x80 0x8F (by omega) (by omega) (by decide) 2 _).trans (hlast [])

/-- The scalar value that the first bytes encode, if they are an encoding. -/
def leadingScalar (bytes : Bytes) : Nat :=
  let first := (bytes.getD 0 0).toNat
  let second := (bytes.getD 1 0).toNat - 0x80
  let third := (bytes.getD 2 0).toNat - 0x80
  let fourth := (bytes.getD 3 0).toNat - 0x80
  if first < 0x80 then first
  else if first < 0xE0 then (first - 0xC0) * 64 + second
  else if first < 0xF0 then ((first - 0xE0) * 64 + second) * 64 + third
  else (((first - 0xF0) * 64 + second) * 64 + third) * 64 + fourth

theorem leadingScalar_encodeChar (c : Char) (rest : Bytes) :
    leadingScalar (encodeChar c ++ rest) = c.toNat := by
  have hvalid : c.toNat < 0xD800 ∨ 0xDFFF < c.toNat ∧ c.toNat < 0x110000 := c.valid
  unfold encodeChar
  dsimp only
  split
  · simp only [leadingScalar, singleton_append, getD_cons_zero]
    rw [toNat_ofNat_of_lt (by omega), if_pos (by omega)]
  split
  · simp only [leadingScalar, cons_append, nil_append, getD_cons_zero,
      getD_cons_succ]
    rw [toNat_ofNat_of_lt (by omega), toNat_ofNat_of_lt (by omega), if_neg (by omega),
      if_pos (by omega)]
    omega
  split
  · simp only [leadingScalar, cons_append, nil_append, getD_cons_zero,
      getD_cons_succ]
    rw [toNat_ofNat_of_lt (by omega), toNat_ofNat_of_lt (by omega), toNat_ofNat_of_lt (by omega),
      if_neg (by omega), if_neg (by omega), if_pos (by omega)]
    omega
  · simp only [leadingScalar, cons_append, nil_append, getD_cons_zero,
      getD_cons_succ]
    rw [toNat_ofNat_of_lt (by omega), toNat_ofNat_of_lt (by omega), toNat_ofNat_of_lt (by omega),
      toNat_ofNat_of_lt (by omega), if_neg (by omega), if_neg (by omega), if_neg (by omega)]
    omega

/-- A text starts with the encoding of one scalar value. -/
theorem encodeChar_unique {first later : Char} {rest' : Bytes}
    (h : encodeChar first ++ rest = encodeChar later ++ rest') : first = later := by
  have hscalar := congrArg leadingScalar h
  rw [leadingScalar_encodeChar, leadingScalar_encodeChar] at hscalar
  exact Char.toNat_inj.mp hscalar

theorem encodeChar_ne_nil (c : Char) : encodeChar c ≠ [] :=
  (isCharacter_of_valid (firstCharacter_encodeChar c)).ne_nil

/-! ## Every character is an encoding -/

theorem continuation_succ_eq_some (h : continuation low high (count + 1) bytes = some rest) :
    ∃ byte tail, bytes = byte :: tail ∧ (low.toNat ≤ byte.toNat ∧ byte.toNat ≤ high.toNat) ∧
      continuation 0x80 0xBF count tail = some rest := by
  cases bytes with
  | nil => cases h
  | cons byte tail =>
    rw [continuation] at h
    split at h
    · rename_i hbyte
      exact ⟨byte, tail, rfl,
        ⟨UInt8.le_iff_toNat_le.mp hbyte.1, UInt8.le_iff_toNat_le.mp hbyte.2⟩, h⟩
    · cases h

theorem ofNat_eq_of_toNat (byte : UInt8) (h : byte.toNat = n) : UInt8.ofNat n = byte := by
  rw [← h, UInt8.ofNat_toNat]

theorem exists_toNat_eq (h : n < 0xD800 ∨ 0xDFFF < n ∧ n < 0x110000) :
    ∃ c : Char, c.toNat = n :=
  ⟨⟨UInt32.ofNatLT n (by simp only [UInt32.size]; omega), h⟩, rfl⟩

theorem exists_encodeChar_one (h : first.toNat ≤ 0x7F) :
    ∃ c, encodeChar c = [first] := by
  obtain ⟨c, hc⟩ := exists_toNat_eq (n := first.toNat) (by omega)
  refine ⟨c, ?_⟩
  unfold encodeChar
  dsimp only
  rw [if_pos (by omega), ofNat_eq_of_toNat first (by omega)]

theorem exists_encodeChar_two (hfirst : 0xC2 ≤ first.toNat ∧ first.toNat ≤ 0xDF)
    (h : continuation 0x80 0xBF 1 tail = some []) : ∃ c, encodeChar c = first :: tail := by
  obtain ⟨second, _, rfl, hsecond, h⟩ := continuation_succ_eq_some h
  obtain rfl := Option.some.inj h
  have hvalues : (0x80 : UInt8).toNat = 128 ∧ (0xBF : UInt8).toNat = 191 := by decide
  obtain ⟨c, hc⟩ := exists_toNat_eq
    (n := (first.toNat - 0xC0) * 64 + (second.toNat - 0x80)) (by omega)
  refine ⟨c, ?_⟩
  unfold encodeChar
  dsimp only
  rw [if_neg (by omega), if_pos (by omega), ofNat_eq_of_toNat first (by omega),
    ofNat_eq_of_toNat second (by omega)]

/-- Three bytes, the second in the range that the first gives it. -/
theorem exists_encodeChar_three (hfirst : 0xE0 ≤ first.toNat ∧ first.toNat ≤ 0xEF)
    (hlow : 0x80 ≤ low.toNat ∧ (first.toNat = 0xE0 → 0xA0 ≤ low.toNat))
    (hhigh : high.toNat ≤ 0xBF ∧ (first.toNat = 0xED → high.toNat ≤ 0x9F))
    (h : continuation low high 2 tail = some []) : ∃ c, encodeChar c = first :: tail := by
  obtain ⟨second, _, rfl, hsecond, h⟩ := continuation_succ_eq_some h
  obtain ⟨third, _, rfl, hthird, h⟩ := continuation_succ_eq_some h
  obtain rfl := Option.some.inj h
  have hvalues : (0x80 : UInt8).toNat = 128 ∧ (0xBF : UInt8).toNat = 191 := by decide
  obtain ⟨c, hc⟩ := exists_toNat_eq
    (n := ((first.toNat - 0xE0) * 64 + (second.toNat - 0x80)) * 64 + (third.toNat - 0x80))
    (by omega)
  refine ⟨c, ?_⟩
  unfold encodeChar
  dsimp only
  rw [if_neg (by omega), if_neg (by omega), if_pos (by omega),
    ofNat_eq_of_toNat first (by omega), ofNat_eq_of_toNat second (by omega),
    ofNat_eq_of_toNat third (by omega)]

/-- Four bytes, the second in the range that the first gives it. -/
theorem exists_encodeChar_four (hfirst : 0xF0 ≤ first.toNat ∧ first.toNat ≤ 0xF4)
    (hlow : 0x80 ≤ low.toNat ∧ (first.toNat = 0xF0 → 0x90 ≤ low.toNat))
    (hhigh : high.toNat ≤ 0xBF ∧ (first.toNat = 0xF4 → high.toNat ≤ 0x8F))
    (h : continuation low high 3 tail = some []) : ∃ c, encodeChar c = first :: tail := by
  obtain ⟨second, _, rfl, hsecond, h⟩ := continuation_succ_eq_some h
  obtain ⟨third, _, rfl, hthird, h⟩ := continuation_succ_eq_some h
  obtain ⟨fourth, _, rfl, hfourth, h⟩ := continuation_succ_eq_some h
  obtain rfl := Option.some.inj h
  have hvalues : (0x80 : UInt8).toNat = 128 ∧ (0xBF : UInt8).toNat = 191 := by decide
  obtain ⟨c, hc⟩ := exists_toNat_eq
    (n := (((first.toNat - 0xF0) * 64 + (second.toNat - 0x80)) * 64 + (third.toNat - 0x80)) * 64 +
      (fourth.toNat - 0x80)) (by omega)
  refine ⟨c, ?_⟩
  unfold encodeChar
  dsimp only
  rw [if_neg (by omega), if_neg (by omega), if_neg (by omega),
    ofNat_eq_of_toNat first (by omega), ofNat_eq_of_toNat second (by omega),
    ofNat_eq_of_toNat third (by omega), ofNat_eq_of_toNat fourth (by omega)]

/-- A character is the encoding of a scalar value. -/
theorem exists_encodeChar (h : IsCharacter character) :
    ∃ c, encodeChar c = character := by
  obtain ⟨first, tail, rfl, -⟩ := h.shape
  have h := h.valid
  rw [← UInt8.ofNat_toNat (x := first), firstCharacter_ofNat (UInt8.toNat_lt first)] at h
  have hvalues : (0x80 : UInt8).toNat = 128 ∧ (0xBF : UInt8).toNat = 191 ∧
    (0xA0 : UInt8).toNat = 160 ∧ (0x9F : UInt8).toNat = 159 ∧ (0x90 : UInt8).toNat = 144 ∧
    (0x8F : UInt8).toNat = 143 := by decide
  split at h
  · obtain rfl := Option.some.inj h
    exact exists_encodeChar_one ‹_›
  split at h
  · exact exists_encodeChar_two ‹_› h
  split at h
  · exact exists_encodeChar_three (by omega) (by omega) (by omega) h
  split at h
  · exact exists_encodeChar_three (by omega) (by omega) (by omega) h
  split at h
  · exact exists_encodeChar_three (by omega) (by omega) (by omega) h
  split at h
  · exact exists_encodeChar_four (by omega) (by omega) (by omega) h
  split at h
  · exact exists_encodeChar_four (by omega) (by omega) (by omega) h
  split at h
  · exact exists_encodeChar_four (by omega) (by omega) (by omega) h
  · cases h

/-- A valid text is the text of some scalar values. -/
theorem exists_chars_of_isUtf8 {text : Bytes} (h : isUtf8 text = true) :
    ∃ chars : List Char, text = chars.flatMap encodeChar := by
  obtain ⟨characters, rfl, hall⟩ := isUtf8_iff.mp h
  clear h
  induction characters with
  | nil => exact ⟨[], rfl⟩
  | cons character characters ih =>
    obtain ⟨hcharacter, hrest⟩ := forall_mem_cons.mp hall
    obtain ⟨c, rfl⟩ := exists_encodeChar hcharacter
    obtain ⟨chars, hchars⟩ := ih hrest
    exact ⟨c :: chars, by rw [flatten_cons, hchars, flatMap_cons]⟩

end Elucid
