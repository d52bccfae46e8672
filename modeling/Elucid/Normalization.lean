import Elucid.CatalogSchema
import Elucid.Lines

/-!
# Normalization

`normalize_records` cuts a batch body into lines and turns each line that is not blank
into a row of the pinned schema or into a dead letter. Each outcome carries the position
of the first byte of its line, which is the identity of the occurrence in its batch.

Number texts, string literals, RFC 3339 texts, floating point texts and base64 are those
of the crates and the standard library (`SerdeJson`, `ChronoText`, `FloatText`,
`Base64`).
-/

namespace Elucid

open BigEndian Lines List

/-- What `DateTime::parse_from_rfc3339` returns, as far as it is read. -/
structure ParsedDateTime where
  nanosecond : Nat
  timestampMillis : Int
  deriving DecidableEq, Repr

/-- The RFC 3339 parser of the `chrono` crate. -/
class ChronoText where
  parseFromRfc3339 : Text → Option ParsedDateTime

/-- `f32::from_str` and `f64::from_str`, by the bits of the value. -/
class FloatText where
  parseF32 : Text → Option UInt32
  parseF64 : Text → Option UInt64

/-- The standard engine of the `base64` crate. -/
class Base64 where
  encode : Bytes → Text

/-! ## Rows -/

structure RecordLocation where
  lineNumber : Nat
  inputPosition : Nat
  deriving DecidableEq, Repr

structure EventTime where
  unixMilliseconds : Int
  deriving DecidableEq, Repr

structure EventId where
  bytes : Bytes
  deriving DecidableEq

def eventIdForOccurrence [Blake3] (batchId : BatchId) (inputPosition : Nat) : EventId :=
  let digest := (((Hasher.new.update (Text.ofString "elucid:event" ++ [0])).update
    batchId.uuid.bytes).update (encode 8 inputPosition)).finalize
  ⟨digest.bytes.take 16⟩

/-- `NormalizedValue`. Floating point values are their bits. -/
inductive NormalizedValue
  | null
  | bool (value : Bool)
  | int32 (value : Int)
  | int64 (value : Int)
  | uint32 (value : Nat)
  | uint64 (value : Nat)
  | float32 (value : UInt32)
  | float64 (value : UInt64)
  | utf8 (value : Text)
  | datetime (value : Int)
  deriving DecidableEq

structure NormalizedField where
  fieldId : FieldId
  value : NormalizedValue
  deriving DecidableEq

structure AcceptedRow [Chrono] where
  location : RecordLocation
  eventTime : EventTime
  ingestionTime : IngestionTime
  eventId : EventId
  fields : List NormalizedField
  remainder : Option (List (Text × Value))

/-! ## Dead letters -/

inductive DeadLetterCode
  | invalidUtf8
  | tooLarge
  | parseFailed
  | fieldMissing
  | fieldNull
  | conversionFailed
  | eventTimeInvalid
  | eventDayLimitExceeded
  deriving DecidableEq, Repr

/-- `DeadLetterCode::message`. -/
def DeadLetterCode.message : DeadLetterCode → String
  | .invalidUtf8 => "record is not valid UTF-8"
  | .tooLarge => "record exceeds the pinned profile byte limit"
  | .parseFailed => "record is not exactly one JSON object with unique keys"
  | .fieldMissing => "a required mapped field is absent"
  | .fieldNull => "a required mapped field is null"
  | .conversionFailed => "a mapped field cannot be converted to its declared type"
  | .eventTimeInvalid => "event time is absent, null, or invalid"
  | .eventDayLimitExceeded => "record introduces too many distinct event days"

def deadLetterPayloadPrefixBytes : Nat := 4 * 1024

inductive PayloadEncoding
  | utf8
  | base64
  deriving DecidableEq, Repr

/-- `PayloadExtent` : the whole record, or its front. -/
inductive PayloadExtent
  | complete
  | front
  deriving DecidableEq, Repr

structure DeadLetterPayload where
  content : Text
  encoding : PayloadEncoding
  extent : PayloadExtent
  deriving DecidableEq

/-- `str::is_char_boundary`. -/
def isCharBoundary (text : Text) (index : Nat) : Bool :=
  index == 0 || index == text.length ||
    match text[index]? with
    | some byte => !(0x80 ≤ byte && byte ≤ 0xBF)
    | none => false

/-- The loop of `from_record` that moves the end back to a character boundary. -/
def charBoundaryBefore (text : Text) : Nat → Nat
  | 0 => 0
  | index + 1 =>
    if isCharBoundary text (index + 1) then index + 1 else charBoundaryBefore text index

/-- `DeadLetterPayload::from_record`. -/
def DeadLetterPayload.fromRecord [Base64] (record : Bytes) : DeadLetterPayload :=
  let extent :=
    if record.length ≤ deadLetterPayloadPrefixBytes then PayloadExtent.complete else .front
  let prefixBytes := min record.length deadLetterPayloadPrefixBytes
  if isUtf8 record then ⟨record.take (charBoundaryBefore record prefixBytes), .utf8, extent⟩
  else ⟨Base64.encode (record.take prefixBytes), .base64, extent⟩

structure DeadLetterEntry where
  batchId : BatchId
  location : RecordLocation
  code : DeadLetterCode
  payloadByteCount : Nat
  payloadDigest : Digest
  payload : DeadLetterPayload
  deriving DecidableEq

/-- `DeadLetterEntry::new`. -/
def DeadLetterEntry.new [Blake3] [Base64] (batchId : BatchId) (location : RecordLocation)
    (code : DeadLetterCode) (record : Bytes) (payloadByteCount : Nat) : DeadLetterEntry :=
  ⟨batchId, location, code, payloadByteCount, Blake3.hash record,
    DeadLetterPayload.fromRecord record⟩

inductive NormalizedRecord [Chrono]
  | accepted (row : AcceptedRow)
  | deadLetter (entry : DeadLetterEntry)

/-- The position of the line of a record. -/
def NormalizedRecord.inputPosition [Chrono] : NormalizedRecord → Nat
  | .accepted row => row.location.inputPosition
  | .deadLetter entry => entry.location.inputPosition

/-- Where a record is. -/
def NormalizedRecord.location [Chrono] : NormalizedRecord → RecordLocation
  | .accepted row => row.location
  | .deadLetter entry => entry.location

theorem NormalizedRecord.inputPosition_eq [Chrono] (record : NormalizedRecord) :
    record.inputPosition = record.location.inputPosition := by
  cases record <;> rfl

structure NormalizedBatch [Chrono] where
  metadata : BatchMetadata
  records : List NormalizedRecord
  ignoredRecords : Nat

/-- The row of an accepted record. -/
def NormalizedRecord.row? [Chrono] : NormalizedRecord → Option AcceptedRow
  | .accepted row => some row
  | .deadLetter _ => none

/-- The entry of a rejected record. -/
def NormalizedRecord.entry? [Chrono] : NormalizedRecord → Option DeadLetterEntry
  | .accepted _ => none
  | .deadLetter entry => some entry

/-- The rows of a batch. -/
def NormalizedBatch.acceptedRows [Chrono] (batch : NormalizedBatch) : List AcceptedRow :=
  batch.records.filterMap NormalizedRecord.row?

/-- The dead letters of a batch. -/
def NormalizedBatch.deadLetters [Chrono] (batch : NormalizedBatch) : List DeadLetterEntry :=
  batch.records.filterMap NormalizedRecord.entry?

/-- `NormalizedBatch::remove_covered_positions`. -/
def NormalizedBatch.removeCoveredPositions [Chrono] (batch : NormalizedBatch)
    (coveredPositions : List Nat) : NormalizedBatch :=
  { batch with
    records := batch.records.filter fun record => record.inputPosition ∉ coveredPositions }

/-! ## Values of a record -/

/-- The value of ASCII digits. -/
def digitsValue (digits : Text) : Option Nat :=
  if digits ≠ [] ∧ digits.all (fun byte => 0x30 ≤ byte && byte ≤ 0x39) then
    some (digits.foldl (fun value byte => value * 10 + (byte.toNat - 0x30)) 0)
  else none

/-- `i64::from_str`. -/
def parseI64 (text : Text) : Option Int := do
  let value ← match text with
    | 0x2D :: digits => (digitsValue digits).map fun value => -(value : Int)
    | 0x2B :: digits => (digitsValue digits).map fun value => (value : Int)
    | digits => (digitsValue digits).map fun value => (value : Int)
  if -2 ^ 63 ≤ value ∧ value < 2 ^ 63 then some value else none

/-- `u64::from_str`. -/
def parseU64 (text : Text) : Option Nat := do
  let value ← match text with
    | 0x2B :: digits => digitsValue digits
    | digits => digitsValue digits
  if value < 2 ^ 64 then some value else none

def parseArrayIndex (token : Text) : Option Nat :=
  if token.head? = some 0x2B ∨ 1 < token.length ∧ token.head? = some 0x30 then none
  else parseU64 token

/-- `resolve_pointer`, over the tokens. -/
def resolvePointer : Value → List Text → Option Value
  | value, [] => some value
  | .object entries, token :: tokens =>
    (lookupEntry token entries).bind fun value => resolvePointer value tokens
  | .array values, token :: tokens =>
    ((parseArrayIndex token).bind fun index => values[index]?).bind fun value =>
      resolvePointer value tokens
  | _, _ :: _ => none

def integerI64 : Value → Option Int
  | .number text =>
    (parseI64 text).or ((parseU64 text).bind fun value =>
      if value < 2 ^ 63 then some (value : Int) else none)
  | _ => none

def integerU64 : Value → Option Nat
  | .number text =>
    (parseU64 text).or ((parseI64 text).bind fun value =>
      if 0 ≤ value then some value.toNat else none)
  | _ => none

def numberText : Value → Option Text
  | .number text => some text
  | _ => none

/-- `f32::is_finite`. -/
def isFiniteF32 (bits : UInt32) : Bool := bits.toNat / 2 ^ 23 % 2 ^ 8 ≠ 2 ^ 8 - 1

/-- `f64::is_finite`. -/
def isFiniteF64 (bits : UInt64) : Bool := bits.toNat / 2 ^ 52 % 2 ^ 11 ≠ 2 ^ 11 - 1

/-- `DateTime::<Utc>::from_timestamp_millis(milliseconds).map(|_| milliseconds)`. -/
def representable [Chrono] (milliseconds : Int) : Option Int :=
  if Chrono.fromTimestampMillis milliseconds then some milliseconds else none

/-- `parse_datetime`. -/
def parseDatetime [Chrono] [ChronoText] (value : Value) : EventTimeFormat → Option Int
  | .rfc3339 =>
    match value with
    | .string text => do
      let parsed ← ChronoText.parseFromRfc3339 text
      if parsed.nanosecond % 1000000 ≠ 0 then none else representable parsed.timestampMillis
    | _ => none
  | .unixMilliseconds => (integerI64 value).bind representable

inductive Conversion
  | bool
  | int32
  | int64
  | uint32
  | uint64
  | float32
  | float64
  | utf8
  | datetime
  deriving DecidableEq, Repr

/-- `convert_value`. -/
def convertValue [Chrono] [ChronoText] [FloatText] (value : Value) (conversion : Conversion)
    (datetimeFormat : EventTimeFormat) : Option NormalizedValue :=
  match conversion with
  | .bool =>
    match value with
    | .bool value => some (.bool value)
    | _ => none
  | .int32 => do
    let value ← integerI64 value
    if -2 ^ 31 ≤ value ∧ value < 2 ^ 31 then some (.int32 value) else none
  | .int64 => (integerI64 value).map .int64
  | .uint32 => do
    let value ← integerU64 value
    if value < 2 ^ 32 then some (.uint32 value) else none
  | .uint64 => (integerU64 value).map .uint64
  | .float32 => do
    let bits ← (numberText value).bind FloatText.parseF32
    if isFiniteF32 bits then some (.float32 bits) else none
  | .float64 => do
    let bits ← (numberText value).bind FloatText.parseF64
    if isFiniteF64 bits then some (.float64 bits) else none
  | .utf8 =>
    match value with
    | .string value => some (.utf8 value)
    | _ => none
  | .datetime => (parseDatetime value datetimeFormat).map .datetime

/-! ## Plans -/

inductive NormalizationError
  | sourceMismatch (pinned supplied : SourceId)
  | inputNotFound (sourceId : SourceId) (inputId : InputId)
  | profileRevisionNotFound (inputId : InputId) (profileRevisionId : IngestionProfileRevisionId)
  | profileTargetMismatch (pinnedSchemaId profileSchemaId : SchemaId)
  | schemaNotFound (sourceId : SourceId) (schemaId : SchemaId)
  | unsupportedDataFieldType (fieldId : FieldId)
  | requiredFieldMappingMissing (fieldId : FieldId)
  | positionOverflow
  deriving DecidableEq

structure FieldPlan where
  fieldId : FieldId
  nullability : Nullability
  conversion : Conversion
  pointer : Option JsonPointer
  deriving DecidableEq

/-- The conversion to a logical type, for the types a data field may have. -/
def LogicalType.conversion : LogicalType → Option Conversion
  | .bool => some .bool
  | .int32 => some .int32
  | .int64 => some .int64
  | .uint32 => some .uint32
  | .uint64 => some .uint64
  | .float32 => some .float32
  | .float64 => some .float64
  | .utf8 => some .utf8
  | .datetime => some .datetime
  | .eid | .json => none

/-- The plan of one field. -/
def fieldPlan (profile : IngestionProfile) (field : Catalog.Field) :
    Except NormalizationError FieldPlan := do
  let conversion ← okOr field.logicalType.conversion (.unsupportedDataFieldType field.id)
  let pointer := (profile.mappings.find? fun mapping => mapping.targetFieldId = field.id).map
    (·.jsonPointer)
  ensure (¬ (pointer = none ∧ field.nullability = .nonNull))
    (.requiredFieldMappingMissing field.id)
  return ⟨field.id, field.nullability, conversion, pointer⟩

def fieldPlans (schema : Catalog.Schema) (profile : IngestionProfile) :
    Except NormalizationError (List FieldPlan) :=
  (schema.fields.filter fun field => field.role = .data).mapM (fieldPlan profile)

def addTopLevelProperty (properties : List Text) (pointer : JsonPointer) : List Text :=
  match pointer.tokens with
  | [token] => if token ∈ properties then properties else properties ++ [token]
  | _ => properties

structure NormalizationPlan [Chrono] where
  metadata : BatchMetadata
  profile : IngestionProfile
  fields : List FieldPlan
  removedTopLevelProperties : List Text

/-- `NormalizationPlan::resolve`. -/
def NormalizationPlan.resolve [Chrono] (metadata : BatchMetadata) (source : Source) :
    Except NormalizationError NormalizationPlan := do
  let pinned := metadata.catalog
  ensure (pinned.sourceId = source.id) (.sourceMismatch pinned.sourceId source.id)
  let input ← okOr (source.input pinned.inputId) (.inputNotFound source.id pinned.inputId)
  let revision ← okOr
    (input.profileRevisions.find? fun revision => revision.id = pinned.profileRevisionId)
    (.profileRevisionNotFound input.id pinned.profileRevisionId)
  ensure (revision.targetSchemaId = pinned.targetSchemaId)
    (.profileTargetMismatch pinned.targetSchemaId revision.targetSchemaId)
  let schema ← okOr (source.schema pinned.targetSchemaId)
    (.schemaNotFound source.id pinned.targetSchemaId)
  let profile := revision.profile
  let fields ← fieldPlans schema profile
  return ⟨metadata, profile, fields,
    (profile.mappings.map (·.jsonPointer)).foldl addTopLevelProperty
      (addTopLevelProperty [] profile.eventTime.jsonPointer)⟩

/-- What a plan is made of. -/
theorem NormalizationPlan.resolve_eq_ok [Chrono] {metadata : BatchMetadata} {source : Source}
    {plan : NormalizationPlan} (h : NormalizationPlan.resolve metadata source = .ok plan) :
    ∃ input revision schema fields, source.input metadata.catalog.inputId = some input ∧
      (input.profileRevisions.find? fun revision =>
        revision.id = metadata.catalog.profileRevisionId) = some revision ∧
      source.schema metadata.catalog.targetSchemaId = some schema ∧
      fieldPlans schema revision.profile = .ok fields ∧
      plan = ⟨metadata, revision.profile, fields,
        (revision.profile.mappings.map (·.jsonPointer)).foldl addTopLevelProperty
          (addTopLevelProperty [] revision.profile.eventTime.jsonPointer)⟩ := by
  obtain ⟨_, -, h⟩ := bind_eq_ok.mp h
  obtain ⟨input, hinput, h⟩ := bind_eq_ok.mp h
  obtain ⟨revision, hrevision, h⟩ := bind_eq_ok.mp h
  obtain ⟨_, -, h⟩ := bind_eq_ok.mp h
  obtain ⟨schema, hschema, h⟩ := bind_eq_ok.mp h
  obtain ⟨fields, hfields, h⟩ := bind_eq_ok.mp h
  exact ⟨input, revision, schema, fields, okOr_eq_ok hinput, okOr_eq_ok hrevision,
    okOr_eq_ok hschema, hfields, (Except.ok.inj h).symm⟩

/-! ## Lines -/

/-- `u8::is_ascii_whitespace`. -/
def isAsciiWhitespace (byte : UInt8) : Bool :=
  byte == 0x20 || byte == 0x09 || byte == 0x0A || byte == 0x0C || byte == 0x0D

/-- The record of a line, without the carriage return before its end. -/
def linePayload (line : Bytes) : Bytes :=
  if line.getLast? = some 0x0D then line.dropLast else line

/-- The lines of a body. -/
def bodyLines (body : Bytes) : List (Line UInt8) := lines 0x0A body

/-- The record of a line, without the carriage return before its line feed. -/
def lineRecord (line : Line UInt8) : Bytes :=
  if line.terminated then linePayload line.content else line.content

/-- Where a line is. -/
def lineLocation (line : Line UInt8) : RecordLocation := ⟨line.number, line.offset⟩

/-- The record of a line is ASCII whitespace only. -/
def isBlank (line : Line UInt8) : Bool := (lineRecord line).all isAsciiWhitespace

/-- The lines of a body that are not blank. -/
def recordLines (body : Bytes) : List (Line UInt8) := (bodyLines body).filter (!isBlank ·)

/-- The positions of the records of a body that are not blank. -/
def recordPositions (body : Bytes) : List Nat := (recordLines body).map Line.offset

/-- Positions increase strictly. -/
theorem pairwise_recordPositions (body : Bytes) : (recordPositions body).Pairwise (· < ·) :=
  pairwise_map.mpr
    (((pairwise_lines body).imp fun h => h.2).sublist filter_sublist)

/-- A blank line has no position. -/
theorem map_offset_filter_cons (line : Line UInt8) (lines : List (Line UInt8)) :
    ((line :: lines).filter (!isBlank ·)).map Line.offset =
      (if isBlank line then [] else [line.offset]) ++
        (lines.filter (!isBlank ·)).map Line.offset := by
  cases hblank : isBlank line <;> simp [hblank]

/-! ## Records -/

section Records

variable [Chrono] [ChronoText] [FloatText]
variable {plan : NormalizationPlan} {state next : NormalizationState} {row : AcceptedRow}
  {line rest : Bytes}
variable {inputPosition lineNumber : Nat} {record : NormalizedRecord} {location : RecordLocation}
  {metadata : BatchMetadata} {batch : NormalizedBatch} {source : Source} {body : Bytes}
variable {recordStart : Nat}

def nullableValue (nullability : Nullability) (nonNullError : DeadLetterCode) :
    Except DeadLetterCode NormalizedValue :=
  match nullability with
  | .nullable => .ok .null
  | .nonNull => .error nonNullError

/-- The value of one field, in the loop of `normalize_record`. -/
def normalizeField (root : Value) (format : EventTimeFormat) (field : FieldPlan) :
    Except DeadLetterCode NormalizedField := do
  let value ← match field.pointer.bind fun pointer => resolvePointer root pointer.tokens with
    | none => nullableValue field.nullability .fieldMissing
    | some .null => nullableValue field.nullability .fieldNull
    | some value => okOr (convertValue value field.conversion format) .conversionFailed
  return ⟨field.fieldId, value⟩

/-- A field takes null, if it may, or a value that converts. -/
theorem normalizeField_eq_ok {root : Value} {format : EventTimeFormat} {field : FieldPlan}
    {normalized : NormalizedField} (h : normalizeField root format field = .ok normalized) :
    normalized.fieldId = field.fieldId ∧
      (normalized.value = .null ∧ field.nullability = .nullable ∨
        ∃ value, convertValue value field.conversion format = some normalized.value) := by
  have hnullable {code : DeadLetterCode} {value : NormalizedValue}
      (h : nullableValue field.nullability code = .ok value) :
      value = .null ∧ field.nullability = .nullable := by
    cases hnullability : field.nullability with
    | nullable =>
      rw [hnullability] at h
      exact ⟨(Except.ok.inj h).symm, rfl⟩
    | nonNull =>
      rw [hnullability] at h
      cases h
  unfold normalizeField at h
  split at h
  · obtain ⟨value, hvalue, h⟩ := bind_eq_ok.mp h
    cases h
    exact ⟨rfl, Or.inl (hnullable hvalue)⟩
  · obtain ⟨value, hvalue, h⟩ := bind_eq_ok.mp h
    cases h
    exact ⟨rfl, Or.inl (hnullable hvalue)⟩
  · obtain ⟨converted, hconverted, h⟩ := bind_eq_ok.mp h
    cases h
    exact ⟨rfl, Or.inr ⟨_, okOr_eq_ok hconverted⟩⟩

variable [Blake3] [SerdeJson]

/-- The object without the given properties. -/
def removeProperties (properties : List Text) (entries : List (Text × Value)) :
    List (Text × Value) :=
  entries.filter fun entry => entry.1 ∉ properties

/-- The event time of a record. -/
def recordEventTime (root : Value) (mapping : EventTimeMapping) : Option Int :=
  (resolvePointer root mapping.jsonPointer.tokens).bind fun value =>
    parseDatetime value mapping.format

/-- `normalize_record`. -/
def normalizeRecord (plan : NormalizationPlan) (record : Bytes) (location : RecordLocation) :
    Except DeadLetterCode AcceptedRow := do
  let object ← okOr (JsonParser.parseObject record) .parseFailed
  let root := Value.object object
  let eventTime ← okOr (recordEventTime root plan.profile.eventTime) .eventTimeInvalid
  let fields ← plan.fields.mapM (normalizeField root plan.profile.eventTime.format)
  let object := removeProperties plan.removedTopLevelProperties object
  return {
    location
    eventTime := ⟨eventTime⟩
    ingestionTime := plan.metadata.ingestionTime
    eventId := eventIdForOccurrence plan.metadata.batchId location.inputPosition
    fields
    remainder := if object = [] then none else some object }

/-- An accepted record : its object, its event time and its fields. -/
theorem normalizeRecord_eq_ok {record : Bytes} (h : normalizeRecord plan record location = .ok row) :
    ∃ object eventTime fields, JsonParser.parseObject record = some object ∧
      recordEventTime (.object object) plan.profile.eventTime = some eventTime ∧
      plan.fields.mapM (normalizeField (.object object) plan.profile.eventTime.format) =
        .ok fields ∧
      row = {
        location
        eventTime := ⟨eventTime⟩
        ingestionTime := plan.metadata.ingestionTime
        eventId := eventIdForOccurrence plan.metadata.batchId location.inputPosition
        fields
        remainder := if removeProperties plan.removedTopLevelProperties object = [] then none
          else some (removeProperties plan.removedTopLevelProperties object) } := by
  obtain ⟨object, hobject, h⟩ := bind_eq_ok.mp h
  obtain ⟨eventTime, heventTime, h⟩ := bind_eq_ok.mp h
  obtain ⟨fields, hfields, h⟩ := bind_eq_ok.mp h
  exact ⟨object, eventTime, fields, okOr_eq_ok hobject, okOr_eq_ok heventTime, hfields,
    (Except.ok.inj h).symm⟩

variable [Base64]

def millisecondsPerDay : Int := 86400000

def maximumBatchEventDays : Nat := 32

/-- The accumulators of `normalize_records`. -/
structure NormalizationState where
  records : List NormalizedRecord
  ignoredRecords : Nat
  admittedEventDays : List Int

/-- The outcome of a line that is not blank, and the event days admitted behind it. -/
def normalizeLine (plan : NormalizationPlan) (record : Bytes) (location : RecordLocation)
    (admittedEventDays : List Int) : NormalizedRecord × List Int :=
  let reject := fun code => NormalizedRecord.deadLetter
    (DeadLetterEntry.new plan.metadata.batchId location code record record.length)
  if plan.profile.maximumRecordBytes < record.length then (reject .tooLarge, admittedEventDays)
  else if !isUtf8 record then (reject .invalidUtf8, admittedEventDays)
  else
    match normalizeRecord plan record location with
    | .ok row =>
      let eventDay := row.eventTime.unixMilliseconds / millisecondsPerDay
      if eventDay ∈ admittedEventDays then (.accepted row, admittedEventDays)
      else if admittedEventDays.length < maximumBatchEventDays then
        (.accepted row, admittedEventDays ++ [eventDay])
      else (reject .eventDayLimitExceeded, admittedEventDays)
    | .error code => (reject code, admittedEventDays)

/-- `normalize_occurrence`. -/
def normalizeOccurrence (plan : NormalizationPlan) (record : Bytes)
    (inputPosition lineNumber : Nat) (state : NormalizationState) :
    Except NormalizationError NormalizationState :=
  if record.all isAsciiWhitespace then do
    let ignoredRecords ← okOr (checkedAdd state.ignoredRecords 1) .positionOverflow
    return { state with ignoredRecords }
  else
    let outcome := normalizeLine plan record ⟨lineNumber, inputPosition⟩ state.admittedEventDays
    .ok ⟨state.records ++ [outcome.1], state.ignoredRecords, outcome.2⟩

/-- The loop of `normalize_records`, with the bytes of the line up to here. -/
def normalizeLines (plan : NormalizationPlan) (recordStart lineNumber : Nat) (line : Bytes)
    (state : NormalizationState) : Bytes → Except NormalizationError NormalizationState
  | [] =>
    if line = [] then .ok state else normalizeOccurrence plan line recordStart lineNumber state
  | byte :: rest =>
    if byte ≠ 0x0A then normalizeLines plan recordStart lineNumber (line ++ [byte]) state rest
    else do
      let state ← normalizeOccurrence plan (linePayload line) recordStart lineNumber state
      let nextLineNumber ← okOr (checkedAdd lineNumber 1) .positionOverflow
      normalizeLines plan (recordStart + line.length + 1) nextLineNumber [] state rest

def normalizeRecords (metadata : BatchMetadata) (body : Bytes) (source : Source) :
    Except NormalizationError NormalizedBatch := do
  let plan ← NormalizationPlan.resolve metadata source
  let state ← normalizeLines plan 0 1 [] ⟨[], 0, []⟩ body
  return ⟨metadata, state.records, state.ignoredRecords⟩

/-! ## Positions -/

/-- The outcome of a line is at the line. -/
theorem location_normalizeLine (plan : NormalizationPlan) (record : Bytes)
    (location : RecordLocation) (days : List Int) :
    (normalizeLine plan record location days).1.location = location := by
  unfold normalizeLine
  dsimp only
  split
  · rfl
  split
  · rfl
  split
  · rename_i row hrow
    have hlocation : row.location = location := by
      obtain ⟨_, _, _, -, -, -, rfl⟩ := normalizeRecord_eq_ok hrow
      rfl
    split
    · exact hlocation
    split
    · exact hlocation
    · rfl
  · rfl

/-- One line adds its position, unless it is blank. -/
theorem positions_normalizeOccurrence {record : Bytes}
    (h : normalizeOccurrence plan record inputPosition lineNumber state = .ok next) :
    next.records.map (·.inputPosition) = state.records.map (·.inputPosition) ++
      if record.all isAsciiWhitespace then [] else [inputPosition] := by
  unfold normalizeOccurrence at h
  split at h
  · obtain ⟨ignoredRecords, -, h⟩ := bind_eq_ok.mp h
    cases h
    rw [if_pos ‹_›, append_nil]
  · rename_i hblank
    obtain rfl := Except.ok.inj h
    rw [map_append, map_singleton, NormalizedRecord.inputPosition_eq,
      location_normalizeLine, if_neg hblank]

theorem positions_normalizeLines
    (h : normalizeLines plan recordStart lineNumber line state rest = .ok next) :
    next.records.map (·.inputPosition) = state.records.map (·.inputPosition) ++
      ((scan 0x0A lineNumber recordStart line rest).filter (!isBlank ·)).map Line.offset := by
  induction rest generalizing recordStart lineNumber line state with
  | nil =>
    rw [normalizeLines] at h
    rw [scan]
    split at h
    · obtain rfl := Except.ok.inj h
      rw [if_pos ‹_›, filter_nil, map_nil, append_nil]
    · rw [if_neg ‹_›, positions_normalizeOccurrence h, map_offset_filter_cons, filter_nil,
        map_nil, append_nil]
      rfl
  | cons byte rest ih =>
    rw [normalizeLines] at h
    rw [scan]
    split at h
    · rw [if_neg ‹_›]
      exact ih h
    · obtain ⟨mid, hmid, h⟩ := bind_eq_ok.mp h
      obtain ⟨nextLineNumber, hnext, h⟩ := bind_eq_ok.mp h
      obtain ⟨rfl, -⟩ := checkedAdd_eq_some (okOr_eq_ok hnext)
      rw [if_pos (not_not.mp ‹_›), ih h, positions_normalizeOccurrence hmid, append_assoc,
        map_offset_filter_cons]
      rfl

/-- A batch has one outcome for each record that is not blank, whatever its catalog says. -/
theorem positions_normalizeRecords (h : normalizeRecords metadata body source = .ok batch) :
    batch.metadata = metadata ∧
      batch.records.map (·.inputPosition) = recordPositions body := by
  obtain ⟨plan, -, h⟩ := bind_eq_ok.mp h
  obtain ⟨state, hstate, h⟩ := bind_eq_ok.mp h
  cases h
  refine ⟨rfl, ?_⟩
  rw [positions_normalizeLines hstate]
  rfl

/-! ## Where rows come from -/

/-- Every record is one of before, or the outcome of a line. -/
theorem mem_records_normalizeOccurrence
    (h : normalizeOccurrence plan line inputPosition lineNumber state = .ok next)
    (hmem : record ∈ next.records) :
    record ∈ state.records ∨
      ∃ line location days, record = (normalizeLine plan line location days).1 := by
  unfold normalizeOccurrence at h
  split at h
  · obtain ⟨ignoredRecords, -, h⟩ := bind_eq_ok.mp h
    cases h
    exact Or.inl hmem
  · obtain rfl := Except.ok.inj h
    rcases mem_append.mp hmem with hmem | hmem
    · exact Or.inl hmem
    · exact Or.inr ⟨_, _, _, mem_singleton.mp hmem⟩

theorem mem_records_normalizeLines
    (h : normalizeLines plan recordStart lineNumber line state rest = .ok next)
    (hmem : record ∈ next.records) :
    record ∈ state.records ∨
      ∃ line location days, record = (normalizeLine plan line location days).1 := by
  induction rest generalizing recordStart lineNumber line state with
  | nil =>
    simp only [normalizeLines] at h
    split at h
    · cases h
      exact Or.inl hmem
    · exact mem_records_normalizeOccurrence h hmem
  | cons byte rest ih =>
    simp only [normalizeLines] at h
    split at h
    · exact ih h
    · obtain ⟨mid, hmid, h⟩ := bind_eq_ok.mp h
      obtain ⟨nextLineNumber, -, h⟩ := bind_eq_ok.mp h
      rcases ih h with hmem | hline
      · exact mem_records_normalizeOccurrence hmid hmem
      · exact Or.inr hline

theorem normalizeRecord_of_normalizeLine {days : List Int}
    (h : .accepted row = (normalizeLine plan line location days).1) :
    normalizeRecord plan line location = .ok row := by
  unfold normalizeLine at h
  dsimp only at h
  split at h
  · cases h
  split at h
  · cases h
  split at h
  · rename_i row' hrow
    split at h
    · cases h
      exact hrow
    split at h
    · cases h
      exact hrow
    · cases h
  · cases h

/-- A row of a batch is what `normalize_record` makes of one of its lines. -/
theorem exists_of_mem_acceptedRows (h : normalizeRecords metadata body source = .ok batch)
    (hrow : row ∈ batch.acceptedRows) :
    ∃ plan line location, NormalizationPlan.resolve metadata source = .ok plan ∧
      normalizeRecord plan line location = .ok row := by
  obtain ⟨plan, hplan, h⟩ := bind_eq_ok.mp h
  obtain ⟨state, hstate, h⟩ := bind_eq_ok.mp h
  cases h
  obtain ⟨record, hmem, hrecord⟩ := mem_filterMap.mp hrow
  cases record with
  | deadLetter entry => cases hrecord
  | accepted row' =>
    obtain rfl : row' = row := Option.some.inj hrecord
    rcases mem_records_normalizeLines hstate hmem with hmem | ⟨line, location, days, hline⟩
    · cases hmem
    · exact ⟨plan, line, location, hplan, normalizeRecord_of_normalizeLine hline⟩

end Records

/-! ## Concrete values -/

/-- A reader of no date. -/
@[reducible] def ChronoText.silent : ChronoText := ⟨fun _ => none⟩

/-- A reader of no number. -/
@[reducible] def FloatText.silent : FloatText := ⟨fun _ => none, fun _ => none⟩

/-- The encoding of no bytes. -/
@[reducible] def Base64.empty : Base64 := ⟨fun _ => []⟩

end Elucid
