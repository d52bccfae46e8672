import Elucid.Remainder

/-!
# Historical conversion

A field that a stored schema does not have is read from the remainder, at a pointer that the
field names. The engine has its own copy of the routines of ingestion for that. They agree,
but for times : the engine takes RFC 3339 only, whatever the profile of the record says
(`convert_eq`).

`storedValue` is what ingestion stores for a field, and null for a record it does not accept.
`historicalArray_eq_storedValue_iff` : from a remainder without private keys of `serde_json` the
engine reads that value, unless the remainder is too deep to be read and the value converts, or the
field is a time, the profile has Unix milliseconds, and the value is a time in one of the two
formats.
-/

namespace Elucid

open BigEndian List

/-! ## Metrics -/

/-- `logical_type_index`, below `LOGICAL_TYPE_COUNT`. -/
def logicalTypeIndex : LogicalType → Option (Fin 9)
  | .bool => some 0
  | .int32 => some 1
  | .int64 => some 2
  | .uint32 => some 3
  | .uint64 => some 4
  | .float32 => some 5
  | .float64 => some 6
  | .utf8 => some 7
  | .datetime => some 8
  | .eid | .json => none

structure HistoricalConversionMetrics where
  failures : Fin 9 → UInt64

/-- `HistoricalConversionMetrics::increment`. -/
def HistoricalConversionMetrics.increment (metrics : HistoricalConversionMetrics)
    (logicalType : LogicalType) : HistoricalConversionMetrics :=
  match logicalTypeIndex logicalType with
  | some index => ⟨Function.update metrics.failures index (metrics.failures index + 1)⟩
  | none => metrics

namespace Historical

/-! ## The routines of the engine -/

def parseArrayIndex (token : Text) : Option Nat :=
  if token.head? = some 0x2B ∨ 1 < token.length ∧ token.head? = some 0x30 then none
  else parseU64 token

/-- One turn of the loop of `resolve_pointer`. -/
def child (current : Value) (token : Text) : Option Value :=
  match current with
  | .object entries => lookupEntry token entries
  | .array values => (parseArrayIndex token).bind fun index => values[index]?
  | _ => none

def resolvePointer (document : Value) (pointer : JsonPointer) : Option Value :=
  pointer.tokens.foldlM child document

def integerI64 : Value → Option Int
  | .number text =>
    (parseI64 text).or ((parseU64 text).bind fun value =>
      if value < 2 ^ 63 then some (value : Int) else none)
  | _ => none

def integerU64 : Value → Option Nat
  | .number text =>
    (parseU64 text).or ((parseI64 text).bind fun value =>
      if 0 ≤ value then some value.toNat else none)
  | _ => none

def parseDatetime [Chrono] [ChronoText] : Value → Option Int
  | .string text => do
    let parsed ← ChronoText.parseFromRfc3339 text
    if 1000000 ∣ parsed.nanosecond then representable parsed.timestampMillis else none
  | _ => none

section Rows

/-- What `historical_array` does with a value, for the types that have a conversion. -/
def convert [Chrono] [ChronoText] [FloatText] : LogicalType → Option (Value → Option NormalizedValue)
  | .bool => some fun value =>
    match value with
    | .bool value => some (.bool value)
    | _ => none
  | .int32 => some fun value => (integerI64 value).bind fun value =>
    if -2 ^ 31 ≤ value ∧ value < 2 ^ 31 then some (.int32 value) else none
  | .int64 => some fun value => (integerI64 value).map .int64
  | .uint32 => some fun value => (integerU64 value).bind fun value =>
    if value < 2 ^ 32 then some (.uint32 value) else none
  | .uint64 => some fun value => (integerU64 value).map .uint64
  | .float32 => some fun value =>
    match value with
    | .number text => (FloatText.parseF32 text).bind fun bits =>
      if isFiniteF32 bits then some (.float32 bits) else none
    | _ => none
  | .float64 => some fun value =>
    match value with
    | .number text => (FloatText.parseF64 text).bind fun bits =>
      if isFiniteF64 bits then some (.float64 bits) else none
    | _ => none
  | .utf8 => some fun value =>
    match value with
    | .string value => some (.utf8 value)
    | _ => none
  | .datetime => some fun value => (parseDatetime value).map .datetime
  | .eid | .json => none

variable [JsonText]

/-- What `convert_rows` does with a document : its value, and if a failure is counted. -/
def convertDocument {α : Type} (pointer : JsonPointer) (convert : Value → Option α)
    (document : Value) : Option α × Bool :=
  match resolvePointer document pointer with
  | none => (none, false)
  | some .null => (none, false)
  | some value => (convert value, (convert value).isNone)

/-- One row of `convert_rows`. -/
def convertRow {α : Type} (pointer : JsonPointer) (convert : Value → Option α) :
    Option Text → Option α × Bool
  | none => (none, false)
  | some remainder =>
    match JsonText.fromStr remainder with
    | none => (none, true)
    | some document => convertDocument pointer convert document

/-- `convert_rows`. -/
def convertRows {α : Type} (pointer : JsonPointer) (logicalType : LogicalType)
    (convert : Value → Option α) :
    List (Option Text) → HistoricalConversionMetrics → List (Option α) × HistoricalConversionMetrics
  | [], metrics => ([], metrics)
  | remainder :: remainders, metrics =>
    let (value, failed) := convertRow pointer convert remainder
    let (values, metrics) := convertRows pointer logicalType convert remainders
      (if failed then metrics.increment logicalType else metrics)
    (value :: values, metrics)

/-- Each row is converted by itself. -/
theorem convertRows_fst {α : Type} (pointer : JsonPointer) (logicalType : LogicalType)
    (convert : Value → Option α) (remainders : List (Option Text))
    (metrics : HistoricalConversionMetrics) :
    (convertRows pointer logicalType convert remainders metrics).1 =
      remainders.map fun remainder => (convertRow pointer convert remainder).1 := by
  induction remainders generalizing metrics with
  | nil => rfl
  | cons remainder remainders ih => simp only [convertRows, map_cons, ih]

variable [Chrono] [ChronoText] [FloatText]

/-- `historical_array`, with null for a row without a value. -/
def historicalArray (remainders : List (Option Text)) (pointer : JsonPointer)
    (logicalType : LogicalType) (metrics : HistoricalConversionMetrics) :
    List NormalizedValue × HistoricalConversionMetrics :=
  match convert logicalType with
  | some convert =>
    let (values, metrics) := convertRows pointer logicalType convert remainders metrics
    (values.map (·.getD .null), metrics)
  | none => (List.replicate remainders.length .null, metrics)

end Rows

/-! ## Agreement with ingestion -/

/-- The engine finds what ingestion finds. -/
theorem resolvePointer_eq (document : Value) (pointer : JsonPointer) :
    resolvePointer document pointer = Elucid.resolvePointer document pointer.tokens := by
  unfold resolvePointer
  induction pointer.tokens generalizing document with
  | nil => cases document <;> rfl
  | cons token tokens ih =>
    rw [foldlM_cons]
    simp only [ih]
    cases document with
    | object entries => rfl
    | array values => rfl
    | null | bool | number | string => rfl

section Agreement

variable [Chrono] [ChronoText]

/-- Times are read as ingestion reads RFC 3339. -/
theorem parseDatetime_eq (value : Value) :
    parseDatetime value = Elucid.parseDatetime value .rfc3339 := by
  cases value with
  | string text => simp only [parseDatetime, Elucid.parseDatetime, Nat.dvd_iff_mod_eq_zero, ne_eq,
      ite_not]
  | null | bool | number | array | object => rfl

variable [FloatText]

/-- The engine converts as ingestion does under a profile with RFC 3339. -/
theorem convert_eq {logicalType : LogicalType} {conversion : Conversion}
    (h : logicalType.conversion = some conversion) :
    convert logicalType = some fun value => convertValue value conversion .rfc3339 := by
  cases logicalType with
  | eid | json => cases h
  | datetime =>
    cases h
    simp only [convert, convertValue, parseDatetime_eq]
  | float32 | float64 =>
    cases h
    refine congrArg some (funext fun value => ?_)
    cases value <;> rfl
  | bool | int32 | int64 | uint32 | uint64 | utf8 =>
    cases h
    rfl

end Agreement

end Historical

/-! ## What ingestion stores -/

section Values

variable [Chrono] [ChronoText] {value : Value} {conversion : Conversion}

/-- No value is a time in both formats. -/
theorem parseDatetime_eq_iff (value : Value) :
    parseDatetime value .rfc3339 = parseDatetime value .unixMilliseconds ↔
      ∀ format, parseDatetime value format = none := by
  constructor
  · intro h format
    have hnone : parseDatetime value .unixMilliseconds = none := by
      cases value with
      | number text => exact h.symm
      | null | bool | string | array | object => rfl
    cases format with
    | rfc3339 => exact h.trans hnone
    | unixMilliseconds => exact hnone
  · intro h
    rw [h, h]

variable [FloatText]

/-- A conversion never gives null. -/
theorem convertValue_ne_null (value : Value) (conversion : Conversion) (format : EventTimeFormat) :
    convertValue value conversion format ≠ some .null := by
  cases conversion with
  | bool | utf8 => cases value <;> simp [convertValue]
  | int64 | uint64 | datetime => simp [convertValue]
  | int32 | uint32 | float32 | float64 =>
    intro h
    obtain ⟨_, -, h⟩ := Option.bind_eq_some_iff.mp h
    split at h <;> cases h

/-- Null and objects are not values of any type. -/
theorem convertValue_of_not_scalar (h : value = .null ∨ ∃ entries, value = .object entries)
    (conversion : Conversion) (format : EventTimeFormat) :
    convertValue value conversion format = none := by
  rcases h with rfl | ⟨entries, rfl⟩ <;> cases conversion <;> cases format <;> rfl

/-- Two conversions of a value store the same exactly if they agree. -/
theorem getD_convertValue_eq_iff {format other : EventTimeFormat} :
    (convertValue value conversion format).getD .null =
        (convertValue value conversion other).getD .null ↔
      convertValue value conversion format = convertValue value conversion other := by
  have hformat := convertValue_ne_null value conversion format
  have hother := convertValue_ne_null value conversion other
  cases hf : convertValue value conversion format <;>
    cases ho : convertValue value conversion other <;> simp_all [eq_comm]

theorem null_eq_getD_convertValue_iff {format : EventTimeFormat} :
    .null = (convertValue value conversion format).getD .null ↔
      convertValue value conversion format = none := by
  have hformat := convertValue_ne_null value conversion format
  cases hf : convertValue value conversion format <;> simp_all [eq_comm]

/-- The format of the profile matters for times only. -/
theorem convertValue_rfc3339_eq_iff (value : Value) (conversion : Conversion)
    (format : EventTimeFormat) :
    convertValue value conversion .rfc3339 = convertValue value conversion format ↔
      (conversion = .datetime → format = .unixMilliseconds →
        ∀ format, parseDatetime value format = none) := by
  cases format with
  | rfc3339 => simp
  | unixMilliseconds =>
    cases conversion with
    | datetime =>
      rw [← parseDatetime_eq_iff]
      simp only [convertValue, forall_const]
      exact Option.map_inj_right fun _ _ h => NormalizedValue.datetime.inj h
    | bool | int32 | int64 | uint32 | uint64 | float32 | float64 | utf8 =>
      simp [convertValue]

end Values

section Stored

variable [Chrono] [ChronoText] [FloatText]
variable {location : RecordLocation} {plan : NormalizationPlan} {row : AcceptedRow} {record : Bytes}
variable {object : List (Text × Value)}

/-- A field that may be null takes the value at its pointer, unless that does not convert. -/
theorem normalizeField_nullable (root : Value) (format : EventTimeFormat) (fieldId : FieldId)
    (conversion : Conversion) (pointer : JsonPointer) :
    (∃ code, normalizeField root format ⟨fieldId, .nullable, conversion, some pointer⟩ =
        .error code ∧
      (resolvePointer root pointer.tokens).bind (convertValue · conversion format) = none) ∨
    normalizeField root format ⟨fieldId, .nullable, conversion, some pointer⟩ =
      .ok ⟨fieldId, ((resolvePointer root pointer.tokens).bind
        (convertValue · conversion format)).getD .null⟩ := by
  unfold normalizeField
  rw [Option.bind_some]
  cases hvalue : resolvePointer root pointer.tokens with
  | none => exact Or.inr rfl
  | some value =>
    rw [Option.bind_some]
    cases hconverted : convertValue value conversion format with
    | some converted =>
      have hnull : value ≠ .null := by
        rintro rfl
        rw [convertValue_of_not_scalar (Or.inl rfl)] at hconverted
        cases hconverted
      right
      split
      · cases ‹_›
      · cases ‹_›
        exact absurd rfl hnull
      · cases ‹_›
        rw [hconverted]
        rfl
    | none =>
      split
      · exact Or.inr rfl
      · exact Or.inr rfl
      · cases ‹_›
        rw [hconverted]
        exact Or.inl ⟨_, rfl, rfl⟩

variable [Blake3] [SerdeJson]

/-- The plan of a profile that maps one more field, which may be null. -/
def NormalizationPlan.mapping (plan : NormalizationPlan) (fieldId : FieldId)
    (conversion : Conversion) (pointer : JsonPointer) : NormalizationPlan :=
  { plan with
    fields := plan.fields ++ [⟨fieldId, .nullable, conversion, some pointer⟩]
    removedTopLevelProperties := addTopLevelProperty plan.removedTopLevelProperties pointer }

/-- What ingestion stores for a field of a record, and null if it stores nothing. -/
def storedValue (plan : NormalizationPlan) (record : Bytes) (location : RecordLocation)
    (fieldId : FieldId) : NormalizedValue :=
  match normalizeRecord plan record location with
  | .ok row =>
    ((row.fields.find? fun field => field.fieldId = fieldId).map (·.value)).getD .null
  | .error _ => .null

/-- One more field is converted behind the others. -/
theorem fields_normalizeRecord_mapping (h : normalizeRecord plan record location = .ok row)
    (hobject : JsonParser.parseObject record = some object) (fieldId : FieldId)
    (conversion : Conversion) (pointer : JsonPointer) :
    (normalizeRecord (plan.mapping fieldId conversion pointer) record location).map (·.fields) =
      (normalizeField (.object object) plan.profile.eventTime.format
        ⟨fieldId, .nullable, conversion, some pointer⟩).map (row.fields ++ [·]) := by
  obtain ⟨_, eventTime, fields, hparsed, heventTime, hfields, rfl⟩ := normalizeRecord_eq_ok h
  obtain rfl := Option.some.inj (hobject.symm.trans hparsed)
  unfold normalizeRecord NormalizationPlan.mapping
  rw [hparsed, okOr_some, ok_bind]
  dsimp only
  rw [heventTime, okOr_some, ok_bind, mapM_append, hfields, ok_bind, mapM_cons,
    mapM_nil]
  cases normalizeField (.object object) plan.profile.eventTime.format
    ⟨fieldId, .nullable, conversion, some pointer⟩ <;> rfl

/-- The fields of a row are those of the plan. -/
theorem fieldIds_of_normalizeRecord (h : normalizeRecord plan record location = .ok row) :
    row.fields.map (·.fieldId) = plan.fields.map (·.fieldId) := by
  obtain ⟨_, _, fields, -, -, hfields, rfl⟩ := normalizeRecord_eq_ok h
  rw [← List.forall₂_eq_eq_eq, List.forall₂_map_left_iff, List.forall₂_map_right_iff]
  refine (List.Forall₂.imp ?_ (forall₂_of_mapM_eq_ok hfields)).flip
  intro planned field hfield
  exact (normalizeField_eq_ok hfield).1

/-- What ingestion would store for a field that the plan does not have. -/
theorem storedValue_mapping (h : normalizeRecord plan record location = .ok row)
    (hobject : JsonParser.parseObject record = some object) {fieldId : FieldId}
    (hnew : ∀ field ∈ plan.fields, field.fieldId ≠ fieldId) (conversion : Conversion)
    (pointer : JsonPointer) :
    storedValue (plan.mapping fieldId conversion pointer) record location fieldId =
      ((resolvePointer (.object object) pointer.tokens).bind
        (convertValue · conversion plan.profile.eventTime.format)).getD .null := by
  have hmapping := fields_normalizeRecord_mapping h hobject fieldId conversion pointer
  have habsent : row.fields.find? (fun field => field.fieldId = fieldId) = none := by
    rw [find?_eq_none]
    intro field hfield
    have hmem := mem_map_of_mem (f := (·.fieldId)) hfield
    rw [fieldIds_of_normalizeRecord h] at hmem
    obtain ⟨planned, hplanned, heq⟩ := mem_map.mp hmem
    simpa [← heq] using hnew planned hplanned
  unfold storedValue
  rcases normalizeField_nullable (.object object) plan.profile.eventTime.format fieldId conversion
    pointer with ⟨code, hcode, hnone⟩ | hok
  · rw [hcode] at hmapping
    rw [map_eq_error.mp hmapping, hnone]
    rfl
  · rw [hok] at hmapping
    obtain ⟨mapped, hmapped, hfields⟩ := map_eq_ok.mp hmapping
    rw [hmapped]
    dsimp only
    rw [hfields, find?_append, habsent]
    simp

end Stored

/-! ## What the engine reads -/

/-- A property that is not removed keeps its value. -/
theorem lookupEntry_removeProperties {properties : List Text} {key : Text}
    (h : key ∉ properties) (entries : List (Text × Value)) :
    lookupEntry key (removeProperties properties entries) = lookupEntry key entries := by
  induction entries with
  | nil => rfl
  | cons entry entries ih =>
    obtain ⟨other, value⟩ := entry
    by_cases hkept : other ∈ properties
    · have hne : other ≠ key := fun heq => h (heq ▸ hkept)
      rw [lookupEntry, if_neg hne, ← ih]
      simp [removeProperties, hkept]
    · rw [removeProperties, filter_cons_of_pos (by simpa using hkept), lookupEntry,
        lookupEntry, ← removeProperties, ih]

/-- A row whose remainder is a document has what is at the pointer. -/
theorem convertRow_of_fromStr [JsonText] {α : Type} {text : Text} {document : Value}
    (h : JsonText.fromStr text = some document) (pointer : JsonPointer)
    {convert : Value → Option α} (hnull : convert .null = none) :
    (Historical.convertRow pointer convert (some text)).1 =
      (resolvePointer document pointer.tokens).bind convert := by
  simp only [Historical.convertRow, h, Historical.convertDocument, Historical.resolvePointer_eq]
  cases resolvePointer document pointer.tokens with
  | none => rfl
  | some value =>
    cases value with
    | null => exact hnull.symm
    | bool | number | string | array | object => rfl

section Reading

variable [Chrono] [SerdeJson]
variable {plan : NormalizationPlan}

/-- The remainder has at the pointer what the record has there. -/
def StayedAt (plan : NormalizationPlan) (record : Bytes) (pointer : JsonPointer) : Prop :=
  ∀ object, JsonParser.parseObject record = some object →
    resolvePointer (.object (removeProperties plan.removedTopLevelProperties object))
      pointer.tokens = resolvePointer (.object object) pointer.tokens

/-- What is below a property that is not removed stays. -/
theorem stayedAt_of_not_mem {token : Text} {tokens : List Text}
    (h : token ∉ plan.removedTopLevelProperties) (record : Bytes) :
    StayedAt plan record ⟨token :: tokens⟩ := by
  intro object _
  simp only [resolvePointer, lookupEntry_removeProperties h]

variable [ChronoText] [FloatText]

/-- The value at the pointer is no time in either format, where the formats matter, and
does not convert, where the remainder is too deep. -/
def ReadAlike (plan : NormalizationPlan) (record : Bytes) (pointer : JsonPointer)
    (conversion : Conversion) : Prop :=
  ∀ object value, JsonParser.parseObject record = some object →
    resolvePointer (.object object) pointer.tokens = some value →
    (ShallowRecord plan record → conversion = .datetime →
        plan.profile.eventTime.format = .unixMilliseconds →
          ∀ format, parseDatetime value format = none) ∧
      (¬ ShallowRecord plan record →
        convertValue value conversion plan.profile.eventTime.format = none)

variable [JsonText]

variable [Blake3]

/-- The engine converts the value at the pointer, or nothing if the remainder is too deep. -/
theorem convertRow_materializeRemainder {record : Bytes} {location : RecordLocation}
    {row : AcceptedRow} {object : List (Text × Value)}
    (h : normalizeRecord plan record location = .ok row)
    (hobject : JsonParser.parseObject record = some object) {column : Option Text}
    (hcolumn : materializeRemainder row.remainder = .ok column)
    (hfaithful : ∀ object, row.remainder = some object → JsonText.Faithful (.object object))
    {pointer : JsonPointer} (hstayed : StayedAt plan record pointer) (conversion : Conversion)
    (format : EventTimeFormat) :
    (ShallowRecord plan record → PlainRecord plan record →
      (Historical.convertRow pointer (convertValue · conversion format) column).1 =
        (resolvePointer (.object object) pointer.tokens).bind
          (convertValue · conversion format)) ∧
    (¬ ShallowRecord plan record →
      (Historical.convertRow pointer (convertValue · conversion format) column).1 = none) := by
  obtain ⟨_, hparsed, hremainder⟩ := remainder_of_normalizeRecord h
  obtain rfl := Option.some.inj (hobject.symm.trans hparsed)
  have hshallow : _ ↔ ShallowRecord plan record := nesting_remainder_iff hobject
  rw [← hstayed object hobject]
  split at hremainder
  · next hempty =>
    rw [hempty] at hshallow ⊢
    rw [hremainder] at hcolumn
    cases hcolumn
    refine ⟨fun _ _ => ?_, fun _ => rfl⟩
    cases htokens : pointer.tokens with
    | nil =>
      rw [resolvePointer, Option.bind_some, convertValue_of_not_scalar (Or.inr ⟨_, rfl⟩)]
      rfl
    | cons token tokens => rfl
  · rw [hremainder] at hcolumn
    obtain ⟨text, htext, rfl⟩ := materializeRemainder_eq_ok hcolumn
    have hread := hfaithful _ hremainder
    rw [← hshallow, ← plain_remainder_iff hobject]
    constructor
    · intro hlt hplain
      exact convertRow_of_fromStr (hread.read text htext hlt hplain) pointer
        (convertValue_of_not_scalar (Or.inl rfl) conversion format)
    · intro hdeep
      simp [Historical.convertRow, hread.deep text htext (not_lt.mp hdeep)]

/-- The engine reads from the remainder what ingestion would have stored, exactly if the
value at the pointer reads alike. A remainder that can be read has no private keys. -/
theorem historicalArray_eq_storedValue_iff {plan : NormalizationPlan} {record : Bytes}
    {location : RecordLocation} {row : AcceptedRow}
    (h : normalizeRecord plan record location = .ok row) {column : Option Text}
    (hcolumn : materializeRemainder row.remainder = .ok column)
    (hfaithful : ∀ object, row.remainder = some object → JsonText.Faithful (.object object))
    (hplain : ShallowRecord plan record → PlainRecord plan record) {logicalType : LogicalType}
    {conversion : Conversion} (hconversion : logicalType.conversion = some conversion) {fieldId : FieldId}
    (hnew : ∀ field ∈ plan.fields, field.fieldId ≠ fieldId) {pointer : JsonPointer}
    (hstayed : StayedAt plan record pointer) {remainders : List (Option Text)} {index : Nat}
    (hindex : remainders[index]? = some column) (metrics : HistoricalConversionMetrics) :
    (Historical.historicalArray remainders pointer logicalType metrics).1[index]? =
        some (storedValue (plan.mapping fieldId conversion pointer) record location fieldId) ↔
      ReadAlike plan record pointer conversion := by
  obtain ⟨object, hobject, -⟩ := remainder_of_normalizeRecord h
  obtain ⟨hshallow, hdeep⟩ := convertRow_materializeRemainder h hobject hcolumn hfaithful hstayed
    conversion .rfc3339
  rw [storedValue_mapping h hobject hnew]
  simp only [Historical.historicalArray, Historical.convert_eq hconversion,
    Historical.convertRows_fst, getElem?_map, hindex, Option.map_some, Option.some.injEq]
  have hread : ReadAlike plan record pointer conversion ↔ ∀ value,
      resolvePointer (.object object) pointer.tokens = some value → _ :=
    ⟨fun hread value => hread object value hobject, fun hread other value hother =>
      Option.some.inj (hobject.symm.trans hother) ▸ hread value⟩
  rw [hread]
  by_cases hrecord : ShallowRecord plan record
  · rw [hshallow hrecord (hplain hrecord)]
    cases resolvePointer (.object object) pointer.tokens with
    | none => simp
    | some value =>
      simp only [Option.bind_some, getD_convertValue_eq_iff, convertValue_rfc3339_eq_iff,
        Option.some.injEq, forall_eq', hrecord, not_true_eq_false, forall_const,
        IsEmpty.forall_iff, and_true]
  · rw [hdeep hrecord]
    cases resolvePointer (.object object) pointer.tokens with
    | none => simp
    | some value =>
      simp only [Option.bind_some, Option.getD_none, Option.some.injEq, forall_eq', hrecord,
        not_false_eq_true, forall_const, IsEmpty.forall_iff, true_and,
        null_eq_getD_convertValue_iff]

end Reading

section Sample

attribute [local instance] Chrono.unbounded ChronoText.silent FloatText.silent Blake3.constant
  SerdeJson.plain JsonText.bounded

/-- `{"s":5,"t":1}`, a record of `Source.sample`. -/
def numberRecord : Bytes :=
  [0x7B, 0x22, 0x73, 0x22, 0x3A, 0x35, 0x2C, 0x22, 0x74, 0x22, 0x3A, 0x31, 0x7D]

/-- The pointer to `s`. -/
def numberPointer : JsonPointer := ⟨[[0x73]]⟩

/-- `{"s":5}`. -/
def numberRemainder : Text := [0x7B, 0x22, 0x73, 0x22, 0x3A, 0x35, 0x7D]

theorem parseObject_numberRecord : JsonParser.parseObject numberRecord =
    some [([0x73], .number [0x35]), ([0x74], .number [0x31])] := rfl

theorem plain_numberRemainder : (Value.object [([0x73], .number [0x35])]).Plain := by
  simp only [Value.Plain, PlainEntries, head?_cons, Option.mem_some_iff, forall_eq']
  exact ⟨by decide, trivial, trivial⟩

theorem faithful_numberRemainder : JsonText.Faithful (.object [([0x73], .number [0x35])]) := by
  refine ⟨⟨_, rfl⟩, fun text htext _ _ => ?_, fun _ _ hdeep => absurd hdeep (by decide),
    fun _ _ hmasked => absurd plain_numberRemainder hmasked⟩
  obtain rfl := Option.some.inj htext
  rfl

theorem normalizeRecord_numberRecord :
    ∃ plan row, NormalizationPlan.resolve (BatchMetadata.sample 9) Source.sample = .ok plan ∧
      normalizeRecord plan numberRecord ⟨1, 0⟩ = .ok row ∧
      row.remainder = some [([0x73], .number [0x35])] ∧ plan.fields = [] ∧
      plan.removedTopLevelProperties = [[0x74]] ∧
      plan.profile.eventTime.format = .unixMilliseconds :=
  ⟨_, _, rfl, rfl, rfl, rfl, rfl, rfl⟩

/-- An integer is read as it would have been stored. -/
theorem historicalArray_numberRecord_int64 :
    ∃ plan row, NormalizationPlan.resolve (BatchMetadata.sample 9) Source.sample = .ok plan ∧
      normalizeRecord plan numberRecord ⟨1, 0⟩ = .ok row ∧
      materializeRemainder row.remainder = .ok (some numberRemainder) ∧
      (Historical.historicalArray [some numberRemainder] numberPointer .int64 ⟨fun _ => 0⟩).1[0]? =
        some (storedValue (plan.mapping (UuidV7.sample 7) .int64 numberPointer) numberRecord
          ⟨1, 0⟩ (UuidV7.sample 7)) := by
  obtain ⟨plan, row, hplan, hrow, hremainder, hfields, hremoved, -⟩ := normalizeRecord_numberRecord
  have hcolumn : materializeRemainder row.remainder = .ok (some numberRemainder) := by
    rw [hremainder]
    rfl
  have hshallow : ShallowRecord plan numberRecord := by
    rw [← nesting_remainder_iff parseObject_numberRecord, hremoved]
    decide
  refine ⟨plan, row, hplan, hrow, hcolumn,
    (historicalArray_eq_storedValue_iff hrow hcolumn ?_ ?_ rfl ?_ (stayedAt_of_not_mem ?_ _) rfl
      _).mpr ?_⟩
  · intro object hobject
    obtain rfl := Option.some.inj (hremainder.symm.trans hobject)
    exact faithful_numberRemainder
  · intro _
    rw [← plain_remainder_iff parseObject_numberRecord, hremoved]
    exact plain_numberRemainder
  · simp [hfields]
  · rw [hremoved]
    decide
  · exact fun _ _ _ _ => ⟨fun _ h => (by cases h), fun hdeep => absurd hshallow hdeep⟩

/-- A time in Unix milliseconds would have been stored, and the engine reads null. -/
theorem historicalArray_numberRecord_datetime :
    ∃ plan row, NormalizationPlan.resolve (BatchMetadata.sample 9) Source.sample = .ok plan ∧
      normalizeRecord plan numberRecord ⟨1, 0⟩ = .ok row ∧
      materializeRemainder row.remainder = .ok (some numberRemainder) ∧
      StayedAt plan numberRecord numberPointer ∧
      storedValue (plan.mapping (UuidV7.sample 7) .datetime numberPointer) numberRecord ⟨1, 0⟩
        (UuidV7.sample 7) = .datetime 5 ∧
      (Historical.historicalArray [some numberRemainder] numberPointer .datetime ⟨fun _ => 0⟩).1 =
        [.null] := by
  obtain ⟨plan, row, hplan, hrow, hremainder, hfields, hremoved, hformat⟩ :=
    normalizeRecord_numberRecord
  refine ⟨plan, row, hplan, hrow, ?_, stayedAt_of_not_mem ?_ _, ?_, ?_⟩
  · rw [hremainder]
    rfl
  · rw [hremoved]
    decide
  · rw [storedValue_mapping hrow parseObject_numberRecord (by simp [hfields]), hformat]
    rfl
  · rfl

end Sample

end Elucid
