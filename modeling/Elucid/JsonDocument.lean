import Elucid.DecimalText
import Elucid.RecordParser

/-!
# JSON documents

`serde_json` writes a Rust structure as the object of its fields, and a derived `Deserialize`
reads it from one. What is written is a text of the grammar : `stringLiteral` is the literal of a
string (`isString_stringLiteral`), `encodeStruct` the object of the fields
(`exists_isValue_encodeStruct`), and none of them has a line feed. `Deserialize.fields` are the
values that a structure is read from.

The crate itself is a parameter : `SerdeJson.WritesStrings` and `SerdeDocument.Reads` are what is
assumed of it.
-/

namespace Elucid

open BigEndian Rfc8259 List

variable {values : List Value} {names : List String} {entries : List (Text × Value)}
variable {members : List (Text × Value)} {nesting : Nat} {byte : UInt8} {text : Text}

/-! ## Objects -/

/-- In the order of its keys an object has one value for a key. -/
theorem lookupEntry_eq_some_iff (h : KeysIncrease entries) {key : Text} {value : Value} :
    lookupEntry key entries = some value ↔ (key, value) ∈ entries := by
  unfold KeysIncrease at h
  induction entries with
  | nil => simp [lookupEntry]
  | cons entry entries ih =>
    obtain ⟨hfirst, hrest⟩ := pairwise_cons.mp h
    obtain ⟨other, first⟩ := entry
    rw [lookupEntry, mem_cons]
    split
    · rename_i heq
      subst heq
      have hnot : (other, value) ∉ entries := fun hmem => List.lt_irrefl other (hfirst _ hmem)
      simp [hnot, eq_comm]
    · rename_i hne
      rw [ih hrest]
      simp [Ne.symm hne]

/-- An object has the members of its text. -/
theorem mem_objectOf {entry : Text × Value} :
    entry ∈ objectOf members ↔ entry ∈ members := by
  unfold objectOf
  induction members using List.reverseRecOn with
  | nil => simp
  | append_singleton members member ih =>
    simp only [foldl_append, foldl_cons, foldl_nil, mem_insertEntry, ih,
      mem_append, mem_singleton]
    tauto

theorem keysIncrease_objectOf (h : (members.map Prod.fst).Nodup) :
    KeysIncrease (objectOf members) := by
  induction members using List.reverseRecOn with
  | nil => exact List.Pairwise.nil
  | append_singleton members member ih =>
    rw [map_append, nodup_append] at h
    obtain ⟨hmembers, -, hdisjoint⟩ := h
    have hnew : lookupEntry member.1 (objectOf members) = none :=
      lookupEntry_eq_none_iff.mpr fun entry hentry =>
        hdisjoint _ (mem_map_of_mem (mem_objectOf.mp hentry)) _ (by simp)
    have hinserted : KeysIncrease (insertEntry member.1 member.2 (objectOf members)) :=
      keysIncrease_insertEntry (ih hmembers) hnew
    simpa [objectOf] using hinserted

/-! ## Strings -/

/-- What `serde_json` writes for a byte of a string. -/
def escapeByte (byte : UInt8) : Bytes :=
  if byte = 0x22 ∨ byte = 0x5C then [0x5C, byte]
  else if byte = 0x08 then [0x5C, 0x62]
  else if byte = 0x09 then [0x5C, 0x74]
  else if byte = 0x0A then [0x5C, 0x6E]
  else if byte = 0x0C then [0x5C, 0x66]
  else if byte = 0x0D then [0x5C, 0x72]
  else if byte < 0x20 then
    [0x5C, 0x75, 0x30, 0x30, hexDigit (byte.toNat / 16), hexDigit (byte.toNat % 16)]
  else [byte]

/-- The literal that `serde_json` writes for a string. -/
def stringLiteral (text : Text) : Bytes := 0x22 :: (text.flatMap escapeByte ++ [0x22])

/-- A byte that is written as it is. -/
def isPlain (byte : UInt8) : Bool := 0x20 ≤ byte && byte ≠ 0x22 && byte ≠ 0x5C

theorem isPlain_iff :
    isPlain byte = true ↔ 0x20 ≤ byte.toNat ∧ byte.toNat ≠ 0x22 ∧ byte.toNat ≠ 0x5C := by
  simp only [isPlain, Bool.and_eq_true, decide_eq_true_eq, UInt8.le_iff_toNat_le,
    ne_eq, ← UInt8.toNat_inj, and_assoc]
  exact Iff.rfl

theorem escapeByte_of_isPlain (h : isPlain byte = true) :
    escapeByte byte = [byte] := by
  have hne (other : UInt8) (hother : isPlain other = false) : byte ≠ other := by
    rintro rfl
    rw [h] at hother
    cases hother
  have hle : ¬ byte < 0x20 := by
    rw [UInt8.lt_iff_toNat_lt]
    exact Nat.not_lt.mpr (isPlain_iff.mp h).1
  unfold escapeByte
  rw [if_neg (not_or.mpr ⟨hne _ (by decide), hne _ (by decide)⟩), if_neg (hne _ (by decide)),
    if_neg (hne _ (by decide)), if_neg (hne _ (by decide)), if_neg (hne _ (by decide)),
    if_neg (hne _ (by decide)), if_neg hle]

/-- A text without special bytes is quoted as it is. -/
theorem stringLiteral_of_isPlain (h : ∀ byte ∈ text, isPlain byte = true) :
    stringLiteral text = 0x22 :: (text ++ [0x22]) := by
  have hbody : text.flatMap escapeByte = text := by
    rw [flatMap_congr fun byte hbyte => escapeByte_of_isPlain (h byte hbyte),
      flatMap_singleton']
  rw [stringLiteral, hbody]

/-- A control character below the first blank, as the escape of its code unit. -/
theorem codeUnit_control : ∀ n : Fin 32,
    codeUnit [0x30, 0x30, hexDigit (n / 16), hexDigit (n % 16)] = some n.val := by
  decide

/-- What is written for a scalar value below 0x80 denotes it. -/
theorem isChar_escapeByte {c : Char} (h : c.toNat < 0x80) :
    IsChar (escapeByte (UInt8.ofNat c.toNat)) c := by
  have hbyte : (UInt8.ofNat c.toNat).toNat = c.toNat := toNat_ofNat_of_lt (by omega)
  have hc (byte : UInt8) (heq : UInt8.ofNat c.toNat = byte) : c = Char.ofNat byte.toNat := by
    rw [← heq, hbyte, Char.ofNat_toNat]
  have hescape {byte second : UInt8} (heq : UInt8.ofNat c.toNat = byte)
      (hshort : shortEscape second = some (Char.ofNat byte.toNat)) : IsChar [0x5C, second] c :=
    .escape (hc byte heq ▸ hshort)
  unfold escapeByte
  split
  · rename_i heq
    rcases heq with heq | heq <;> rw [heq] <;> exact hescape heq (by decide)
  split
  · exact hescape ‹_› (by decide)
  split
  · exact hescape ‹_› (by decide)
  split
  · exact hescape ‹_› (by decide)
  split
  · exact hescape ‹_› (by decide)
  split
  · exact hescape ‹_› (by decide)
  split
  · rename_i hlt
    rw [UInt8.lt_iff_toNat_lt, hbyte] at hlt
    rw [hbyte]
    exact .unicode (codeUnit_control ⟨c.toNat, hlt⟩)
  · rename_i hquote _ _ _ _ _ hlow
    rw [UInt8.lt_iff_toNat_lt, hbyte] at hlow
    obtain ⟨hquote, hslash⟩ := not_or.mp hquote
    rw [← UInt8.toNat_inj, hbyte] at hquote hslash
    have hencode : encodeChar c = [UInt8.ofNat c.toNat] := by
      unfold encodeChar
      dsimp only
      rw [if_pos h]
    exact hencode ▸ .unescaped (Nat.not_lt.mp hlow) hquote hslash

/-- What is written for a scalar value denotes it. -/
theorem isChar_flatMap_escapeByte (c : Char) : IsChar ((encodeChar c).flatMap escapeByte) c := by
  by_cases h : c.toNat < 0x80
  · have hencode : encodeChar c = [UInt8.ofNat c.toNat] := by
      unfold encodeChar
      dsimp only
      rw [if_pos h]
    rw [hencode, flatMap_singleton]
    exact isChar_escapeByte h
  · have hplain : ∀ byte ∈ encodeChar c, escapeByte byte = [byte] := fun byte hbyte => by
      refine escapeByte_of_isPlain (isPlain_iff.mpr ?_)
      have hle := mem_encodeChar hbyte
      omega
    rw [flatMap_congr hplain, flatMap_singleton']
    exact .unescaped (by omega) (by omega) (by omega)

/-- The literal of a text denotes it. -/
theorem isString_stringLiteral (h : isUtf8 text = true) :
    IsString (stringLiteral text) text := by
  obtain ⟨chars, rfl⟩ := exists_chars_of_isUtf8 h
  refine ⟨_, chars, rfl, ?_, rfl⟩
  rw [flatMap_assoc]
  clear h
  induction chars with
  | nil => exact .nil
  | cons c chars ih => exact .cons (isChar_flatMap_escapeByte c) ih

/-- A line feed is escaped. -/
theorem not_mem_escapeByte (byte : UInt8) : (0x0A : UInt8) ∉ escapeByte byte := by
  have hdigits : ∀ i : Fin 16, (0x0A : UInt8) ≠ hexDigit i.val := by decide
  have hlt := byte.toNat_lt
  have hhigh := hdigits ⟨byte.toNat / 16, by omega⟩
  have hlow := hdigits ⟨byte.toNat % 16, by omega⟩
  unfold escapeByte
  split
  · rename_i heq
    rcases heq with rfl | rfl <;> decide
  split_ifs with h1 h2 h3 h4 h5 h6
  · decide
  · decide
  · decide
  · decide
  · decide
  · simp only [mem_cons, not_mem_nil, or_false, not_or]
    exact ⟨by decide, by decide, by decide, by decide, hhigh, hlow⟩
  · simpa [eq_comm] using h3

/-- A line feed is escaped. -/
theorem not_mem_stringLiteral (text : Text) : (0x0A : UInt8) ∉ stringLiteral text := by
  simp only [stringLiteral, mem_cons, mem_append, mem_flatMap, not_mem_nil,
    or_false, not_or]
  exact ⟨by decide, fun ⟨byte, _, hbyte⟩ => not_mem_escapeByte byte hbyte, by decide⟩

theorem hexDigit_le : ∀ value : Fin 16, hexDigit value ≤ 0x7F := by decide

theorem isUtf8_hexText (bytes : Bytes) : isUtf8 (hexText bytes) = true :=
  isUtf8_of_ascii fun byte hbyte => by
    obtain ⟨value, rfl⟩ := mem_hexText hbyte
    exact hexDigit_le value

theorem isUtf8_uuidText (bytes : Bytes) : isUtf8 (uuidText bytes) = true :=
  isUtf8_of_ascii fun byte hbyte => by
    rcases mem_uuidText hbyte with rfl | ⟨value, rfl⟩
    · decide
    · exact hexDigit_le value

/-! ## Values -/

theorem isWhitespace_nil : IsWhitespace [] := by simp [IsWhitespace]

section Values

variable {name : String} {value : Value} {text : Bytes}

theorem isElement_of_isValue (h : IsValue nesting text value) :
    IsElement nesting text value := by
  have helement := IsElement.mk isWhitespace_nil h isWhitespace_nil
  rwa [nil_append, append_nil] at helement

/-- A natural number, as a JSON number. -/
def JsonNumber.ofNat (value : Nat) : JsonNumber where
  negative := false
  integer := decimalText value
  fraction := []
  exponent := none
  integer_ne_nil := (isDecimal_decimalText value).1
  integer_all := (isDecimal_decimalText value).2.1
  integer_head := (isDecimal_decimalText value).2.2
  fraction_all := all_isDigit_nil

theorem isValue_decimalText (value : Nat) :
    IsValue nesting (decimalText value) (.number (decimalText value)) := by
  have htext : (JsonNumber.ofNat value).text = decimalText value := by
    simp [JsonNumber.text, JsonNumber.ofNat, JsonNumber.fractionText, JsonNumber.exponentText]
  exact htext ▸ .number (JsonNumber.ofNat value)

/-- An integer, as a JSON number. -/
def JsonNumber.ofInt (value : Int) : JsonNumber :=
  { JsonNumber.ofNat value.natAbs with negative := value < 0 }

theorem JsonNumber.text_ofInt (value : Int) : (JsonNumber.ofInt value).text = integerText value := by
  by_cases h : value < 0 <;>
    simp [JsonNumber.text, JsonNumber.ofInt, JsonNumber.ofNat, JsonNumber.fractionText,
      JsonNumber.exponentText, integerText, h]

/-- The text of an integer is a number of the grammar. -/
theorem isValue_integerText (value : Int) :
    IsValue nesting (integerText value) (.number (integerText value)) :=
  JsonNumber.text_ofInt value ▸ .number (JsonNumber.ofInt value)

/-- A field name that is written as it is. -/
def isFieldName (name : String) : Bool :=
  (Text.ofString name).all fun byte => isPlain byte && byte ≤ 0x7F

theorem isFieldName_iff :
    isFieldName name = true ↔ ∀ byte ∈ Text.ofString name, isPlain byte = true ∧ byte ≤ 0x7F := by
  simp [isFieldName]

/-- The names of the fields of a structure. -/
structure FieldNames (names : List String) : Prop where
  ne_nil : names ≠ []
  all_isFieldName : names.all isFieldName = true
  nodup : (names.map Text.ofString).Nodup

instance (names : List String) : Decidable (FieldNames names) :=
  decidable_of_iff (names ≠ [] ∧ names.all isFieldName = true ∧
    (names.map Text.ofString).Nodup) ⟨fun h => ⟨h.1, h.2.1, h.2.2⟩, fun h => ⟨h.1, h.2, h.3⟩⟩

theorem FieldNames.isFieldName_of_mem (h : FieldNames names) (hname : name ∈ names) :
    isFieldName name = true :=
  all_eq_true.mp h.all_isFieldName name hname

theorem isMember_of_isFieldName (hname : isFieldName name = true) (h : IsValue nesting text value) :
    IsMember nesting ([0x22] ++ Text.ofString name ++ [0x22, 0x3A] ++ text)
      (Text.ofString name, value) := by
  have hbytes := isFieldName_iff.mp hname
  have hliteral : IsString (0x22 :: (Text.ofString name ++ [0x22])) (Text.ofString name) := by
    rw [← stringLiteral_of_isPlain fun byte hbyte => (hbytes byte hbyte).1]
    exact isString_stringLiteral (isUtf8_of_ascii fun byte hbyte => (hbytes byte hbyte).2)
  have hmember := IsMember.mk isWhitespace_nil hliteral isWhitespace_nil (isElement_of_isValue h)
  simpa using hmember

/-- Encoded fields are members of the grammar. -/
theorem isMembers_encodeMembers {fields : List (String × Bytes)}
    (hnames : ∀ field ∈ fields, isFieldName field.1 = true)
    (h : List.Forall₂ (fun field value => IsValue nesting field.2 value) fields values)
    (hne : fields ≠ []) :
    IsMembers nesting (encodeMembers fields)
      ((fields.map fun field => Text.ofString field.1).zip values) := by
  induction h with
  | nil => exact absurd rfl hne
  | @cons field value fields values hfield hrest ih =>
    obtain ⟨hname, hnames⟩ := forall_mem_cons.mp hnames
    have hmember := isMember_of_isFieldName hname hfield
    cases hrest with
    | nil => exact .last hmember
    | cons hnext hrest =>
      have hmembers := ih hnames (cons_ne_nil _ _)
      rw [encodeMembers, append_assoc _ [0x2C]]
      · exact .cons hmember hmembers
      · simp

end Values

/-! ## Structures -/

/-- What a derived `Deserialize` reads the fields of a structure from : a map with just these
names, or the sequence of the values. -/
def Deserialize.fields (names : List String) : Value → Option (List Value)
  | .object entries =>
    if entries.all fun entry => entry.1 ∈ names.map Text.ofString then
      names.mapM fun name => lookupEntry (Text.ofString name) entries
    else none
  | .array values => if values.length = names.length then some values else none
  | _ => none

/-- Every field is found under its name. -/
theorem mapM_lookupEntry (hlength : names.length = values.length)
    (h : ∀ entry ∈ (names.map Text.ofString).zip values,
      lookupEntry entry.1 entries = some entry.2) :
    (names.mapM fun name => lookupEntry (Text.ofString name) entries) = some values := by
  induction names generalizing values with
  | nil =>
    rw [eq_nil_of_length_eq_zero hlength.symm]
    rfl
  | cons name names ih =>
    cases values with
    | nil => cases hlength
    | cons value values =>
      rw [map_cons, zip_cons_cons, forall_mem_cons] at h
      rw [mapM_cons, h.1, ih (Nat.succ.inj hlength) h.2]
      rfl

/-- An object with just some fields is read as their values. -/
theorem Deserialize.fields_of_mem_iff (hlength : names.length = values.length)
    (hkeys : KeysIncrease entries)
    (hmem : ∀ entry, entry ∈ entries ↔ entry ∈ (names.map Text.ofString).zip values) :
    Deserialize.fields names (.object entries) = some values := by
  rw [Deserialize.fields, if_pos]
  · exact mapM_lookupEntry hlength fun entry hentry =>
      (lookupEntry_eq_some_iff hkeys).mpr ((hmem entry).mpr hentry)
  · refine all_eq_true.mpr fun entry hentry => decide_eq_true ?_
    exact (of_mem_zip ((hmem entry).mp hentry)).1

theorem keysIncrease_objectOf_zip {names : List Text} (hnodup : names.Nodup)
    (hlength : names.length = values.length) : KeysIncrease (objectOf (names.zip values)) := by
  refine keysIncrease_objectOf ?_
  rw [map_fst_zip hlength.le]
  exact hnodup

/-- The object of some fields is read back. -/
theorem Deserialize.fields_objectOf (hnodup : (names.map Text.ofString).Nodup)
    (hlength : names.length = values.length) :
    Deserialize.fields names (.object (objectOf ((names.map Text.ofString).zip values))) =
      some values :=
  Deserialize.fields_of_mem_iff hlength
    (keysIncrease_objectOf_zip hnodup (by rw [length_map, hlength])) fun _ => mem_objectOf

/-- What is written for a structure is the object of its fields. -/
theorem isValue_encodeStruct (hnames : FieldNames names) {fields : List (String × Bytes)}
    (hfields : fields.map (·.1) = names)
    (h : List.Forall₂ (fun field value => IsValue nesting field.2 value) fields values) :
    IsValue (nesting + 1) (encodeStruct fields)
      (.object (objectOf ((names.map Text.ofString).zip values))) := by
  subst hfields
  have hlength : (fields.map (·.1)).length = values.length := by
    rw [length_map, h.length_eq]
  have hne : fields ≠ [] := fun hnil => hnames.ne_nil (by rw [hnil, map_nil])
  have hmembers := isMembers_encodeMembers
    (fun field hfield => hnames.isFieldName_of_mem (mem_map_of_mem hfield)) h hne
  have hmap : (fields.map fun field => Text.ofString field.1) =
      (fields.map (·.1)).map Text.ofString := by
    rw [map_map]
    rfl
  rw [hmap] at hmembers
  refine .object hmembers ?_
  rw [map_fst_zip (by rw [length_map, hlength])]
  exact hnames.nodup

/-- What is written for a structure is an object that its fields are read from. -/
theorem exists_isValue_encodeStruct (hnames : FieldNames names) {fields : List (String × Bytes)}
    (hfields : fields.map (·.1) = names)
    (h : List.Forall₂ (fun field value => IsValue nesting field.2 value) fields values) :
    ∃ entries, IsValue (nesting + 1) (encodeStruct fields) (.object entries) ∧
      Deserialize.fields names (.object entries) = some values := by
  have hlength : names.length = values.length := by
    rw [← hfields, length_map, h.length_eq]
  exact ⟨_, isValue_encodeStruct hnames hfields h,
    Deserialize.fields_objectOf hnames.nodup hlength⟩

/-- A struct is one line. -/
theorem not_mem_encodeStruct (hnames : FieldNames names) {fields : List (String × Bytes)}
    (hfields : fields.map (·.1) = names) (h : ∀ field ∈ fields, (0x0A : UInt8) ∉ field.2) :
    (0x0A : UInt8) ∉ encodeStruct fields := by
  subst hfields
  have hplain : ∀ field ∈ fields, (0x0A : UInt8) ∉ Text.ofString field.1 := fun field hfield hmem =>
    have hname := hnames.isFieldName_of_mem (mem_map_of_mem hfield)
    absurd (isFieldName_iff.mp hname _ hmem).1 (by decide)
  have hmembers : (0x0A : UInt8) ∉ encodeMembers fields := by
    clear hnames
    fun_induction encodeMembers fields with
    | case1 => exact not_mem_nil
    | case2 name value =>
      have hvalue : (0x0A : UInt8) ∉ value := by simpa using h
      have hname : (0x0A : UInt8) ∉ Text.ofString name := by simpa using hplain
      simp [hvalue, hname]
    | case3 name value rest hrest ih =>
      obtain ⟨hvalue, h⟩ := forall_mem_cons.mp h
      obtain ⟨hname, hplain⟩ := forall_mem_cons.mp hplain
      simp [hvalue, hname, ih h hplain]
  simp [encodeStruct, hmembers]

/-! ## Readers -/

/-- A string field. -/
def Deserialize.string : Value → Option Text
  | .string text => some text
  | _ => none

/-- An integer field of type `u64`. -/
def Deserialize.u64 : Value → Option Nat
  | .number text => if text.all isDigit then parseU64 text else none
  | _ => none

/-- A variant without data : its name, or a map from it to null. -/
def Deserialize.variantName : Value → Option Text
  | .string name => some name
  | .object [(name, .null)] => some name
  | _ => none

/-- A field that is one of some variants. -/
def Deserialize.variant {α : Type} (variants : List α) (name : α → String) (value : Value) :
    Option α :=
  (Deserialize.variantName value).bind fun text =>
    variants.find? fun variant => Text.ofString (name variant) = text

/-- A `u64` is read back. -/
theorem Deserialize.u64_decimalText {value : Nat} (h : value < 2 ^ 64) :
    Deserialize.u64 (.number (decimalText value)) = some value := by
  rw [Deserialize.u64, if_pos (all_isDigit_decimalText value), parseU64_decimalText h]

theorem JsonNumber.integerValue_ofInt (value : Int) :
    (JsonNumber.ofInt value).integerValue = value := by
  simp only [JsonNumber.integerValue, JsonNumber.sign, JsonNumber.ofInt, JsonNumber.ofNat,
    digitsNat_decimalText, decide_eq_true_eq]
  split <;> omega

/-! ## The crate -/

/-- `serde_json::from_slice`, up to the value that the type is read from. -/
class SerdeDocument where
  fromSlice : Bytes → Option Value

/-- The literals of strings are those that `serde_json` writes. -/
def SerdeJson.WritesStrings [SerdeJson] : Prop :=
  ∀ text, isUtf8 text = true → SerdeJson.encodeString text = stringLiteral text

section Strings

variable [SerdeJson] (h : SerdeJson.WritesStrings) (htext : isUtf8 text = true)

include h htext

theorem SerdeJson.WritesStrings.isValue :
    IsValue nesting (SerdeJson.encodeString text) (.string text) := by
  rw [h text htext]
  exact .string (isString_stringLiteral htext)

theorem SerdeJson.WritesStrings.not_mem : (0x0A : UInt8) ∉ SerdeJson.encodeString text := by
  rw [h text htext]
  exact not_mem_stringLiteral text

end Strings

/-- The text of an object is read as that object, if its containers are not nested deeper than
the recursion limit. -/
def SerdeDocument.Reads [SerdeDocument] : Prop :=
  ∀ text entries, IsObjectText 127 text entries →
    SerdeDocument.fromSlice text = some (.object entries)

section Sample

/-- `serde_json`, with the literals that it writes. -/
@[reducible] noncomputable def SerdeJson.escaping : SerdeJson :=
  { SerdeJson.strict with encodeString := stringLiteral }

/-- An encoder that escapes as `serde_json` does. -/
theorem SerdeJson.writesStrings_escaping : @SerdeJson.WritesStrings SerdeJson.escaping :=
  fun _ _ => rfl

/-- The reader of the grammar, for objects. -/
@[reducible] noncomputable def SerdeDocument.strict : SerdeDocument where
  fromSlice text := (@JsonParser.parseObject SerdeJson.strict text).map .object

/-- A reader of the grammar. -/
theorem SerdeDocument.reads_strict : @SerdeDocument.Reads SerdeDocument.strict := by
  intro text entries h
  have hread := @JsonParser.parseObject_complete SerdeJson.strict SerdeJson.faithful_strict _ _
    (IsElement.mono (by decide) h)
  exact congrArg (Option.map Value.object) hread

end Sample

end Elucid
