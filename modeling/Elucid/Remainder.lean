import Elucid.EngineRuntime
import Elucid.RowEstimate

/-!
# The remainder of a record

What no field takes of a record is its remainder. It is written as JSON text into the
segment, and read back by the engine.

The record parser admits 128 nested containers, the record itself among them, and gives
objects in the order of their keys (`JsonParser.admits_parseObject`). `JsonText.Faithful` is
what is assumed of `serde_json` for a value : its text is written and read back as that
value, but not if it has 128 nested containers or more, or an object that starts with one of the
keys that the crate has for its own numbers and raw texts (`Value.Plain`).
-/

namespace Elucid

open BigEndian List

variable {entries : List (Text × Value)} {key : Text}

/-! ## Nesting -/

mutual

/-- The number of containers that are inside of one another. -/
def Value.nesting : Value → Nat
  | .null => 0
  | .bool _ => 0
  | .number _ => 0
  | .string _ => 0
  | .array values => nestingValues values + 1
  | .object entries => nestingEntries entries + 1

/-- The deepest nesting of some values. -/
def nestingValues : List Value → Nat
  | [] => 0
  | value :: values => max value.nesting (nestingValues values)

/-- The deepest nesting of the values of some entries. -/
def nestingEntries : List (Text × Value) → Nat
  | [] => 0
  | (_, value) :: entries => max value.nesting (nestingEntries entries)

end

theorem nestingEntries_le_iff {bound : Nat} :
    nestingEntries entries ≤ bound ↔ ∀ entry ∈ entries, entry.2.nesting ≤ bound := by
  induction entries with
  | nil => simp [nestingEntries]
  | cons entry entries ih => simp [nestingEntries, ih]

/-! ## Private keys -/

/-- The keys of `serde_json` for a number with `arbitrary_precision`, and for a text with
`raw_value`. An object that has one of them first is read as what its string stands for, or not
at all. -/
def privateKeys : List Text :=
  [Text.ofString "$serde_json::private::Number", Text.ofString "$serde_json::private::RawValue"]

mutual

/-- No object has a private key first. -/
def Value.Plain : Value → Prop
  | .null => True
  | .bool _ => True
  | .number _ => True
  | .string _ => True
  | .array values => PlainValues values
  | .object entries => (∀ entry ∈ entries.head?, entry.1 ∉ privateKeys) ∧ PlainEntries entries

/-- `Value.Plain` of all values. -/
def PlainValues : List Value → Prop
  | [] => True
  | value :: values => value.Plain ∧ PlainValues values

/-- `Value.Plain` of the values of all entries. -/
def PlainEntries : List (Text × Value) → Prop
  | [] => True
  | (_, value) :: entries => value.Plain ∧ PlainEntries entries

end

/-! ## The order of keys -/

/-- The keys are in increasing order. -/
def KeysIncrease (entries : List (Text × Value)) : Prop :=
  entries.Pairwise fun entry other => entry.1 < other.1

mutual

/-- Every object has its keys in increasing order. -/
def Value.Sorted : Value → Prop
  | .null => True
  | .bool _ => True
  | .number _ => True
  | .string _ => True
  | .array values => SortedValues values
  | .object entries => KeysIncrease entries ∧ SortedEntries entries

/-- `Value.Sorted` of all values. -/
def SortedValues : List Value → Prop
  | [] => True
  | value :: values => value.Sorted ∧ SortedValues values

/-- `Value.Sorted` of the values of all entries. -/
def SortedEntries : List (Text × Value) → Prop
  | [] => True
  | (_, value) :: entries => value.Sorted ∧ SortedEntries entries

end

theorem sortedValues_iff {values : List Value} :
    SortedValues values ↔ ∀ value ∈ values, value.Sorted := by
  induction values with
  | nil => simp [SortedValues]
  | cons value values ih => simp [SortedValues, ih]

theorem sortedEntries_iff :
    SortedEntries entries ↔ ∀ entry ∈ entries, entry.2.Sorted := by
  induction entries with
  | nil => simp [SortedEntries]
  | cons entry entries ih => simp [SortedEntries, ih]

theorem lookupEntry_eq_none_iff :
    lookupEntry key entries = none ↔ ∀ entry ∈ entries, entry.1 ≠ key := by
  induction entries with
  | nil => simp [lookupEntry]
  | cons entry entries ih =>
    rw [lookupEntry]
    split <;> simp_all

theorem mem_insertEntry {value : Value} {entry : Text × Value} :
    entry ∈ insertEntry key value entries ↔ entry = (key, value) ∨ entry ∈ entries := by
  induction entries with
  | nil => simp [insertEntry]
  | cons other entries ih =>
    rw [insertEntry]
    split
    · simp
    · simp only [mem_cons, ih]
      tauto

/-- Inserting a new key keeps the order. -/
theorem keysIncrease_insertEntry {value : Value} (h : KeysIncrease entries)
    (hnone : lookupEntry key entries = none) :
    KeysIncrease (insertEntry key value entries) := by
  rw [lookupEntry_eq_none_iff] at hnone
  unfold KeysIncrease at *
  induction entries with
  | nil => simp [insertEntry]
  | cons other entries ih =>
    obtain ⟨hother, hrest⟩ := pairwise_cons.mp h
    obtain ⟨hne, hnone⟩ := forall_mem_cons.mp hnone
    rw [insertEntry]
    split
    · next hlt =>
      have hlt := (textLt_iff_lt _ _).mp hlt
      refine pairwise_cons.mpr ⟨?_, h⟩
      intro entry hentry
      rcases mem_cons.mp hentry with rfl | hentry
      · exact hlt
      · exact List.lt_trans hlt (hother entry hentry)
    · next hle =>
      have hle := (textLt_eq_false_iff _ _).mp (Bool.eq_false_iff.mpr hle)
      refine pairwise_cons.mpr ⟨?_, ih hrest hnone⟩
      intro entry hentry
      rcases mem_insertEntry.mp hentry with rfl | hentry
      · exact (List.le_iff_lt_or_eq.mp hle).resolve_right hne
      · exact hother entry hentry

/-- The order of entries by their keys. -/
def entryLe (entry other : Text × Value) : Bool := !textLt other.1 entry.1

mutual

/-- The value with the entries of all objects sorted by their keys. -/
def Value.sortKeys : Value → Value
  | .null => .null
  | .bool value => .bool value
  | .number text => .number text
  | .string value => .string value
  | .array values => .array (sortKeysValues values)
  | .object entries => .object ((sortKeysEntries entries).mergeSort entryLe)

/-- `Value.sortKeys` of all values. -/
def sortKeysValues : List Value → List Value
  | [] => []
  | value :: values => value.sortKeys :: sortKeysValues values

/-- `Value.sortKeys` of the values of all entries. -/
def sortKeysEntries : List (Text × Value) → List (Text × Value)
  | [] => []
  | (key, value) :: entries => (key, value.sortKeys) :: sortKeysEntries entries

end

theorem mergeSort_of_keysIncrease (h : KeysIncrease entries) :
    entries.mergeSort entryLe = entries := by
  refine mergeSort_of_pairwise (h.imp fun {entry other} hlt => ?_)
  rw [entryLe, Bool.not_eq_true', textLt_eq_false_iff]
  exact List.le_of_lt hlt

mutual

/-- Sorting leaves a value in the order of its keys as it is. -/
theorem Value.sortKeys_of_sorted :
    ∀ {value : Value}, value.Sorted → value.sortKeys = value
  | .null, _ => rfl
  | .bool _, _ => rfl
  | .number _, _ => rfl
  | .string _, _ => rfl
  | .array _, h => congrArg Value.array (sortKeysValues_of_sorted h)
  | .object _, h => by
    rw [Value.sortKeys, sortKeysEntries_of_sorted h.2, mergeSort_of_keysIncrease h.1]

theorem sortKeysValues_of_sorted :
    ∀ {values : List Value}, SortedValues values → sortKeysValues values = values
  | [], _ => rfl
  | _ :: _, h => by
    rw [sortKeysValues, Value.sortKeys_of_sorted h.1, sortKeysValues_of_sorted h.2]

theorem sortKeysEntries_of_sorted :
    ∀ {entries : List (Text × Value)}, SortedEntries entries →
      sortKeysEntries entries = entries
  | [], _ => rfl
  | _ :: _, h => by
    rw [sortKeysEntries, Value.sortKeys_of_sorted h.1, sortKeysEntries_of_sorted h.2]

end

/-! ## What the parser admits -/

namespace JsonParser

/-- A value at some depth, in the order of its keys. -/
def Admits (depth : Nat) (value : Value) : Prop :=
  value.nesting + depth ≤ maximumJsonContainerDepth ∧ value.Sorted

theorem admits_of_nesting_eq_zero {depth : Nat} {value : Value}
    (hdepth : depth ≤ maximumJsonContainerDepth) (hnesting : value.nesting = 0)
    (hsorted : value.Sorted) : Admits depth value :=
  ⟨by omega, hsorted⟩

theorem nextDepth_eq_some {depth childDepth : Nat} (h : nextDepth depth = some childDepth) :
    childDepth = depth + 1 ∧ childDepth ≤ maximumJsonContainerDepth := by
  unfold nextDepth at h
  split at h
  · obtain rfl := Option.some.inj h
    exact ⟨rfl, ‹_›⟩
  · cases h

theorem admits_array {depth : Nat} {values : List Value}
    (hdepth : depth + 1 ≤ maximumJsonContainerDepth)
    (h : ∀ value ∈ values, Admits (depth + 1) value) : Admits depth (.array values) := by
  have hnesting : nestingValues values + (depth + 1) ≤ maximumJsonContainerDepth := by
    induction values with
    | nil => simpa [nestingValues] using hdepth
    | cons value values ih =>
      obtain ⟨hvalue, hvalues⟩ := forall_mem_cons.mp h
      have := ih hvalues
      have := hvalue.1
      rw [nestingValues]
      omega
  refine ⟨?_, sortedValues_iff.mpr fun value hvalue => (h value hvalue).2⟩
  rw [Value.nesting]
  omega

theorem admits_object {depth : Nat} (hdepth : depth + 1 ≤ maximumJsonContainerDepth)
    (hkeys : KeysIncrease entries) (h : ∀ entry ∈ entries, Admits (depth + 1) entry.2) :
    Admits depth (.object entries) := by
  have hnesting : nestingEntries entries ≤ maximumJsonContainerDepth - (depth + 1) :=
    nestingEntries_le_iff.mpr fun entry hentry => by
      have := (h entry hentry).1
      omega
  refine ⟨?_, hkeys, sortedEntries_iff.mpr fun entry hentry => (h entry hentry).2⟩
  rw [Value.nesting]
  omega

section Rule

variable [SerdeJson] {P : Nat → Value → Prop} {bound : Nat}
  (hscalar : ∀ depth value, depth ≤ maximumJsonContainerDepth → (∀ values, value ≠ .array values) →
    (∀ entries, value ≠ .object entries) → P depth value)
  (harray : ∀ depth values, depth + 1 ≤ maximumJsonContainerDepth → values.length ≤ bound →
    (∀ value ∈ values, P (depth + 1) value) → P depth (.array values))
  (hobject : ∀ depth entries, depth + 1 ≤ maximumJsonContainerDepth → KeysIncrease entries →
    (∀ entry ∈ entries, P (depth + 1) entry.2) → P depth (.object entries))

include hscalar harray hobject

/-- What the constructors keep holds of what the three functions of the parser give, by
induction on the fuel they share. Every element of an array takes some of it. -/
theorem parse_rule (fuel : Nat) (hfuel : fuel ≤ bound) :
    (∀ depth bytes value rest, depth ≤ maximumJsonContainerDepth →
      parseValue fuel depth bytes = some (value, rest) → P depth value) ∧
    (∀ depth values bytes value rest, depth + 1 ≤ maximumJsonContainerDepth →
      values.length + fuel ≤ bound → (∀ value ∈ values, P (depth + 1) value) →
      parseElements fuel (depth + 1) values bytes = some (value, rest) → P depth value) ∧
    (∀ depth entries bytes value rest, depth + 1 ≤ maximumJsonContainerDepth →
      KeysIncrease entries → (∀ entry ∈ entries, P (depth + 1) entry.2) →
      parseEntries fuel (depth + 1) entries bytes = some (value, rest) → P depth value) := by
  induction fuel with
  | zero => simp [parseValue, parseElements, parseEntries]
  | succ fuel ih =>
    obtain ⟨ihValue, ihElements, ihEntries⟩ := ih (by omega)
    refine ⟨?_, ?_, ?_⟩
    · intro depth bytes value rest hdepth h
      rw [parseValue] at h
      dsimp only at h
      split at h
      · cases h
      next byte behind heq =>
      split at h
      · obtain ⟨_, -, h⟩ := Option.map_eq_some_iff.mp h
        cases h
        exact hscalar _ _ hdepth (by simp) (by simp)
      split at h
      · obtain ⟨_, -, h⟩ := Option.map_eq_some_iff.mp h
        cases h
        exact hscalar _ _ hdepth (by simp) (by simp)
      split at h
      · obtain ⟨_, -, h⟩ := Option.map_eq_some_iff.mp h
        cases h
        exact hscalar _ _ hdepth (by simp) (by simp)
      split at h
      · obtain ⟨_, -, h⟩ := Option.map_eq_some_iff.mp h
        cases h
        exact hscalar _ _ hdepth (by simp) (by simp)
      split at h
      · obtain ⟨childDepth, hchild, h⟩ := Option.bind_eq_some_iff.mp h
        obtain ⟨rfl, hchild⟩ := nextDepth_eq_some hchild
        split at h
        · cases h
          exact harray depth [] hchild (Nat.zero_le _) (by simp)
        · exact ihElements depth [] _ value rest hchild (by simpa using by omega) (by simp) h
      split at h
      · obtain ⟨childDepth, hchild, h⟩ := Option.bind_eq_some_iff.mp h
        obtain ⟨rfl, hchild⟩ := nextDepth_eq_some hchild
        split at h
        · cases h
          exact hobject depth [] hchild List.Pairwise.nil (by simp)
        · exact ihEntries depth [] _ value rest hchild List.Pairwise.nil (by simp) h
      split at h
      · obtain ⟨_, -, h⟩ := Option.map_eq_some_iff.mp h
        cases h
        exact hscalar _ _ hdepth (by simp) (by simp)
      · cases h
    · intro depth values bytes value rest hdepth hlength hvalues h
      rw [parseElements] at h
      obtain ⟨⟨element, behind⟩, helement, h⟩ := Option.bind_eq_some_iff.mp h
      have helements : ∀ value ∈ values ++ [element], P (depth + 1) value := by
        intro other hother
        rcases mem_append.mp hother with hother | hother
        · exact hvalues other hother
        · exact mem_singleton.mp hother ▸ ihValue _ _ _ _ hdepth helement
      have hlonger : (values ++ [element]).length + fuel ≤ bound := by
        rw [length_append, length_singleton]
        omega
      dsimp only at h
      split at h
      · cases h
        exact harray depth _ hdepth (Nat.le_of_add_right_le hlonger) helements
      · obtain ⟨_, -, h⟩ := Option.bind_eq_some_iff.mp h
        exact ihElements depth _ _ value rest hdepth hlonger helements h
    · intro depth entries bytes value rest hdepth hkeys hentries h
      rw [parseEntries] at h
      obtain ⟨⟨key, behindKey⟩, -, h⟩ := Option.bind_eq_some_iff.mp h
      dsimp only at h
      split at h
      · cases h
      next hlookup =>
      obtain ⟨_, -, h⟩ := Option.bind_eq_some_iff.mp h
      obtain ⟨⟨element, behind⟩, helement, h⟩ := Option.bind_eq_some_iff.mp h
      have hinserted : KeysIncrease (insertEntry key element entries) :=
        keysIncrease_insertEntry hkeys (Option.not_isSome_iff_eq_none.mp hlookup)
      have hall : ∀ entry ∈ insertEntry key element entries, P (depth + 1) entry.2 := by
        intro entry hentry
        rcases mem_insertEntry.mp hentry with rfl | hentry
        · exact ihValue _ _ _ _ hdepth helement
        · exact hentries entry hentry
      dsimp only at h
      split at h
      · cases h
        exact hobject depth _ hdepth hinserted hall
      · obtain ⟨_, -, h⟩ := Option.bind_eq_some_iff.mp h
        exact ihEntries depth _ _ value rest hdepth hinserted hall h

/-- The rule for the object of a record. -/
theorem parseObject_rule {bytes : Bytes} (hbound : 2 * bytes.length + 1 ≤ bound)
    (h : parseObject bytes = some entries) :
    P 0 (.object entries) := by
  obtain ⟨⟨value, rest⟩, hvalue, h⟩ := Option.bind_eq_some_iff.mp h
  dsimp only at h
  split at h
  · split at h
    · obtain rfl := Option.some.inj h
      exact (parse_rule hscalar harray hobject _ hbound).1 0 _ _ _ (Nat.zero_le _) hvalue
    · cases h
  · cases h

end Rule

theorem admits_parseObject [SerdeJson] {bytes : Bytes} (h : parseObject bytes = some entries) :
    Admits 0 (.object entries) := by
  refine parseObject_rule ?_ (fun _ _ hdepth _ => admits_array hdepth)
    (fun _ _ hdepth => admits_object hdepth) le_rfl h
  intro depth value hdepth harray hobject
  cases value with
  | array values => exact absurd rfl (harray values)
  | object entries => exact absurd rfl (hobject entries)
  | _ => exact admits_of_nesting_eq_zero hdepth rfl trivial

end JsonParser

/-! ## The text of a remainder -/

/-- What is assumed of `serde_json` for a value : it is written, and what is written is read
back, but for 128 nested containers or more, which are refused, and for private keys, with which
something else is read, if anything. -/
structure JsonText.Faithful [JsonText] (value : Value) : Prop where
  written : ∃ text, JsonText.toText value = some text
  read : ∀ text, JsonText.toText value = some text → value.nesting < 128 → value.Plain →
    JsonText.fromStr text = some value
  deep : ∀ text, JsonText.toText value = some text → 128 ≤ value.nesting →
    JsonText.fromStr text = none
  masked : ∀ text, JsonText.toText value = some text → ¬value.Plain →
    JsonText.fromStr text ≠ some value

/-- `SegmentMaterializationError`, without the errors of the crates behind it. -/
inductive SegmentMaterializationError
  | storedSchemaSourceMismatch (segmentSourceId schemaSourceId : SourceId)
  | storedSchemaIdentityMismatch (segmentSchemaId storedSchemaId : SchemaId)
  | normalizedFieldCountMismatch (expectedFields actualFields : Nat)
  | normalizedFieldIdentityMismatch (expectedFieldId actualFieldId : FieldId)
  | unsupportedDataFieldType (fieldId : FieldId) (logicalType : LogicalType)
  | normalizedFieldTypeMismatch (fieldId : FieldId) (logicalType : LogicalType)
  | nonNullFieldContainsNull (fieldId : FieldId)
  | normalizedFloatNotFinite (fieldId : FieldId)
  | eventIdentityInvalid
  | remainderSerializationFailed
  | recordBatchInvalid
  deriving DecidableEq

/-- What `materialize_segment_record_batch` appends to the column of the remainders. -/
def materializeRemainder [JsonText] :
    Option (List (Text × Value)) → Except SegmentMaterializationError (Option Text)
  | some remainder =>
    (okOr (JsonText.toText (.object remainder)) .remainderSerializationFailed).map some
  | none => .ok none

theorem materializeRemainder_eq_ok [JsonText] {remainder : List (Text × Value)}
    {column : Option Text} (h : materializeRemainder (some remainder) = .ok column) :
    ∃ text, JsonText.toText (.object remainder) = some text ∧ column = some text := by
  obtain ⟨text, htext, rfl⟩ := map_eq_ok.mp h
  exact ⟨text, okOr_eq_ok htext, rfl⟩

section Rows

variable [Chrono] [SerdeJson]

/-- A record whose properties outside of the removed ones nest at most 126 containers. -/
def ShallowRecord (plan : NormalizationPlan) (record : Bytes) : Prop :=
  ∀ object, JsonParser.parseObject record = some object → ∀ entry ∈ object,
    entry.1 ∉ plan.removedTopLevelProperties → entry.2.nesting < 127

/-- No object of what a record keeps has a private key first. -/
def PlainRecord (plan : NormalizationPlan) (record : Bytes) : Prop :=
  ∀ object, JsonParser.parseObject record = some object →
    (Value.object (removeProperties plan.removedTopLevelProperties object)).Plain

theorem plain_remainder_iff {plan : NormalizationPlan} {record : Bytes}
    {object : List (Text × Value)} (hobject : JsonParser.parseObject record = some object) :
    (Value.object (removeProperties plan.removedTopLevelProperties object)).Plain ↔
      PlainRecord plan record := by
  simp [PlainRecord, hobject]

theorem nesting_remainder_iff {plan : NormalizationPlan} {record : Bytes}
    {object : List (Text × Value)} (hobject : JsonParser.parseObject record = some object) :
    (Value.object (removeProperties plan.removedTopLevelProperties object)).nesting < 128 ↔
      ShallowRecord plan record := by
  have hentries := @nestingEntries_le_iff
    (removeProperties plan.removedTopLevelProperties object) 126
  simp only [removeProperties, mem_filter, decide_eq_true_eq] at hentries
  rw [Value.nesting, removeProperties]
  constructor
  · intro h other hother entry hentry hkept
    obtain rfl := Option.some.inj (hobject.symm.trans hother)
    exact Nat.lt_succ_of_le (hentries.mp (by omega) entry ⟨hentry, hkept⟩)
  · intro h
    have := hentries.mpr fun entry hentry =>
      Nat.le_of_lt_succ (h object hobject entry hentry.1 hentry.2)
    omega

variable [ChronoText] [FloatText] [Blake3]

/-- What a row keeps of its record : the properties that are not removed. -/
theorem remainder_of_normalizeRecord {plan : NormalizationPlan} {record : Bytes}
    {location : RecordLocation} {row : AcceptedRow}
    (h : normalizeRecord plan record location = .ok row) :
    ∃ object, JsonParser.parseObject record = some object ∧
      row.remainder = if removeProperties plan.removedTopLevelProperties object = [] then none
        else some (removeProperties plan.removedTopLevelProperties object) := by
  obtain ⟨object, _, _, hobject, -, -, rfl⟩ := normalizeRecord_eq_ok h
  exact ⟨object, hobject, rfl⟩

end Rows

/-! ## Concrete values -/

/-- `serde_json` on strings without escapes : it starts one container deeper than the parser
of records. -/
@[reducible] def JsonText.bounded : JsonText where
  fromStr text :=
    letI := SerdeJson.plain
    match JsonParser.parseValue (2 * text.length + 1) 1 text with
    | some (value, []) => some value
    | _ => none
  numberFromStr := some
  toText value := letI := SerdeJson.plain; some (encodeValue value)
  stringText text := letI := SerdeJson.plain; some (SerdeJson.encodeString text)
  f32Text _ := none
  f64Text _ := none

end Elucid
