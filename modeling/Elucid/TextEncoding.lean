import Elucid.Json

/-!
# Text encodings

The texts that the Rust crates write : hexadecimal digits, the hyphenated form of a UUID, the
decimal form of an integer, and the JSON object that `serde_json` writes for a structure, with
its length (`length_encodeStruct`). `uuidText_injective` : the text of an identity picks it.
-/

namespace Elucid

open BigEndian List

/-- A lower case hexadecimal digit. -/
def hexDigit (value : Nat) : UInt8 :=
  UInt8.ofNat (if value < 10 then 0x30 + value else 0x61 + (value - 10))

/-- The lower case hexadecimal text of some bytes. -/
def hexText (bytes : Bytes) : Text :=
  bytes.flatMap fun byte => [hexDigit (byte.toNat / 16), hexDigit (byte.toNat % 16)]

/-- `Display` of a `Uuid` : its bytes in five groups. -/
def uuidText (bytes : Bytes) : Text :=
  hexText (bytes.take 4) ++ [0x2D] ++ hexText ((bytes.drop 4).take 2) ++ [0x2D] ++
    hexText ((bytes.drop 6).take 2) ++ [0x2D] ++ hexText ((bytes.drop 8).take 2) ++ [0x2D] ++
    hexText (bytes.drop 10)

/-- The decimal text of an integer. -/
def decimalText (value : Nat) : Text :=
  (Nat.toDigits 10 value).map fun digit => UInt8.ofNat digit.toNat

/-! ## Texts of identities -/

theorem hexDigit_injective {value other : Nat} (hvalue : value < 16) (hother : other < 16)
    (h : hexDigit value = hexDigit other) : value = other := by
  have hdigits : ∀ i j : Fin 16, hexDigit i.val = hexDigit j.val → i = j := by decide
  exact congrArg Fin.val (hdigits ⟨value, hvalue⟩ ⟨other, hother⟩ h)

theorem hexText_injective {bytes other : Bytes} (h : hexText bytes = hexText other) :
    bytes = other := by
  induction bytes generalizing other with
  | nil =>
    cases other with
    | nil => rfl
    | cons byte rest => cases h
  | cons byte rest ih =>
    cases other with
    | nil => cases h
    | cons otherByte otherRest =>
      simp only [hexText, flatMap_cons, cons_append, nil_append,
        List.cons.injEq] at h
      obtain ⟨hhigh, hlow, hrest⟩ := h
      have hlt := byte.toNat_lt
      have hotherLt := otherByte.toNat_lt
      have hhigh := hexDigit_injective (by omega) (by omega) hhigh
      have hlow := hexDigit_injective (by omega) (by omega) hlow
      rw [ih hrest, UInt8.toNat_inj.mp (by omega : byte.toNat = otherByte.toNat)]

theorem mem_hexText {bytes : Bytes} {digit : UInt8} (h : digit ∈ hexText bytes) :
    ∃ value : Fin 16, digit = hexDigit value := by
  obtain ⟨byte, -, hdigit⟩ := mem_flatMap.mp h
  have hlt := byte.toNat_lt
  simp only [mem_cons, not_mem_nil, or_false] at hdigit
  rcases hdigit with rfl | rfl
  · exact ⟨⟨byte.toNat / 16, by omega⟩, rfl⟩
  · exact ⟨⟨byte.toNat % 16, by omega⟩, rfl⟩

/-- The text of some bytes has no hyphen. -/
theorem filter_hexText (bytes : Bytes) :
    (hexText bytes).filter (fun byte => byte ≠ 0x2D) = hexText bytes := by
  have hdigits : ∀ i : Fin 16, hexDigit i.val ≠ 0x2D := by decide
  refine filter_eq_self.mpr fun digit hdigit => ?_
  obtain ⟨value, rfl⟩ := mem_hexText hdigit
  exact decide_eq_true (hdigits value)

theorem length_hexText (bytes : Bytes) : (hexText bytes).length = 2 * bytes.length := by
  simp [hexText, length_flatMap, Nat.mul_comm]

/-- The groups of a text of an identity, without the hyphens. -/
theorem filter_uuidText (bytes : Bytes) :
    (uuidText bytes).filter (fun byte => byte ≠ 0x2D) = hexText bytes := by
  have hhyphen : [0x2D].filter (fun byte : UInt8 => byte ≠ 0x2D) = [] := by decide
  have hgroup : ∀ i, (bytes.drop i).take 2 ++ bytes.drop (i + 2) = bytes.drop i := fun i => by
    rw [← drop_drop, take_append_drop]
  have happend : ∀ left right : Bytes, hexText left ++ hexText right = hexText (left ++ right) :=
    fun left right => flatMap_append.symm
  simp only [uuidText, filter_append, filter_hexText, hhyphen, nil_append,
    append_assoc, happend]
  rw [hgroup 8, hgroup 6, hgroup 4, take_append_drop]

/-- The text of an identity has all its bytes. -/
theorem uuidText_injective : Function.Injective uuidText := by
  intro bytes other h
  apply hexText_injective
  rw [← filter_uuidText, h, filter_uuidText]

theorem length_uuidText {bytes : Bytes} (h : bytes.length = 16) :
    (uuidText bytes).length = 36 := by
  simp [uuidText, length_hexText, h]

theorem mem_uuidText {bytes : Bytes} {byte : UInt8} (h : byte ∈ uuidText bytes) :
    byte = 0x2D ∨ ∃ value : Fin 16, byte = hexDigit value := by
  have hgroup {bytes : Bytes} (h : byte ∈ hexText bytes) :
      byte = 0x2D ∨ ∃ value : Fin 16, byte = hexDigit value := .inr (mem_hexText h)
  simp only [uuidText, mem_append, mem_singleton] at h
  rcases h with (((((((h | h) | h) | h) | h) | h) | h) | h) | h
  all_goals first | exact .inl h | exact hgroup h

theorem Uuid.eq_of_uuidText_eq {id other : Uuid} (h : uuidText id.bytes = uuidText other.bytes) :
    id = other := by
  obtain ⟨bytes, _⟩ := id
  exact (Uuid.mk.injEq ..).mpr (uuidText_injective h)

theorem UuidV7.eq_of_uuidText_eq {id other : UuidV7}
    (h : uuidText id.uuid.bytes = uuidText other.uuid.bytes) : id = other := by
  obtain ⟨uuid, _⟩ := id
  exact (UuidV7.mk.injEq ..).mpr (Uuid.eq_of_uuidText_eq h)

/-- `Uuid::parse_str`. -/
class UuidCrate where
  parseStr : Text → Option Uuid

/-- The text of a UUID is parsed to it. -/
def UuidCrate.ParsesTexts [UuidCrate] : Prop :=
  ∀ uuid : Uuid, UuidCrate.parseStr (uuidText uuid.bytes) = some uuid

open Classical in
/-- The parser of the texts of UUIDs. -/
@[reducible] noncomputable def UuidCrate.hyphenated : UuidCrate where
  parseStr text := if h : ∃ uuid : Uuid, uuidText uuid.bytes = text then some h.choose else none

theorem UuidCrate.parsesTexts_hyphenated : @UuidCrate.ParsesTexts UuidCrate.hyphenated := by
  intro uuid
  have hexists : ∃ other : Uuid, uuidText other.bytes = uuidText uuid.bytes := ⟨uuid, rfl⟩
  exact (dif_pos hexists).trans (congrArg some (Uuid.eq_of_uuidText_eq hexists.choose_spec))

/-! ## Structures -/

/-- The members of a JSON object, from their names and encoded values. -/
def encodeMembers : List (String × Bytes) → Bytes
  | [] => []
  | [(name, value)] => [0x22] ++ Text.ofString name ++ [0x22, 0x3A] ++ value
  | (name, value) :: rest =>
    [0x22] ++ Text.ofString name ++ [0x22, 0x3A] ++ value ++ [0x2C] ++ encodeMembers rest

/-- What `serde_json` writes for a structure with plain field names. -/
def encodeStruct (fields : List (String × Bytes)) : Bytes :=
  [0x7B] ++ encodeMembers fields ++ [0x7D]

/-- The characters of some names. -/
def nameBytes (names : List String) : Nat :=
  (names.map fun name => (Text.ofString name).length).sum

theorem length_encodeStruct {fields : List (String × Bytes)} (h : fields ≠ []) :
    (encodeStruct fields).length = 1 + 4 * fields.length + nameBytes (fields.map (·.1)) +
      (fields.map (·.2.length)).sum := by
  have hmembers : (encodeMembers fields).length + 1 = 4 * fields.length +
      nameBytes (fields.map (·.1)) + (fields.map (·.2.length)).sum := by
    fun_induction encodeMembers fields with
    | case1 => exact absurd rfl h
    | case2 name value => simp [nameBytes]; omega
    | case3 name value rest hrest ih =>
      have := ih fun hnil => hrest hnil
      simp [nameBytes] at this ⊢
      omega
  simp only [encodeStruct, length_append, length_singleton]
  omega

end Elucid
