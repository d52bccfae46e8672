import Elucid.HistoricalConversion
import Elucid.JsonCast

/-!
# Reading remainders back

Three parts of the engine read the text of a remainder : the remainder functions
(`evaluateRemainder`), historical conversion (`Historical.convertRow`) and the encoder of
results (`QueryResult.encodeValue`). `ReadsBack` says that all of them see one object.

`remainders_readBack_iff` : the remainders of a batch are read back exactly if its accepted
records are shallow and have no private keys of `serde_json`. The parser of records admits one
container more than `serde_json`, so a record of 128 nested containers is stored and never read
(`nestedRecord_unreadable`).
-/

namespace Elucid

open BigEndian

/-! ## The encoder of results -/

def canonicalizeJson (value : Value) : Value := value.sortKeys

/-- `EngineError`, as far as the encoder has it. -/
inductive EncodeError
  | executionInvariant (message : String)
  | evaluationInvariant (message : String)
  | corruptObjectInvariant (message : String)
  | corruptObject
  deriving DecidableEq, Repr

section Encoder

variable [JsonText] [FloatArithmetic] [Chrono] [ChronoFormat]
variable {object : List (Text × Value)} {text : Text}

def QueryResult.encodeFloat (value : UInt64) : Except EncodeError Value :=
  okOr (if isFiniteF64 value then (JsonText.f64Text value).map .number else none)
    (.evaluationInvariant "query produced a non-finite float")

/-- The error of `downcast`. -/
def unexpectedPhysicalType : EncodeError :=
  .executionInvariant "query result array has an unexpected physical type"

/-- `encode_value`, on the cell of a row. -/
def QueryResult.encodeValue (cell : ScalarValue) (logicalType : LogicalType)
    (nullability : Nullability) : Except EncodeError Value :=
  if cell.isNull then
    if nullability = .nonNull then
      .error (.executionInvariant "query produced null for a non-null typed field")
    else .ok .null
  else
    match logicalType, cell with
    | .bool, .boolean (some value) => .ok (.bool value)
    | .int32, .int32 (some value) => .ok (.number (integerText value))
    | .int64, .int64 (some value) => .ok (.string (integerText value))
    | .uint32, .uint32 (some value) => .ok (.number (integerText value))
    | .uint64, .uint64 (some value) => .ok (.string (integerText value))
    | .float32, .float32 (some value) => QueryResult.encodeFloat (FloatArithmetic.widen value)
    | .float64, .float64 (some value) => QueryResult.encodeFloat value
    | .utf8, .utf8 (some value) => .ok (.string value)
    | .datetime, .timestampMillisecond (some value) _ =>
      if Chrono.fromTimestampMillis value then .ok (.string (ChronoFormat.toRfc3339 value))
      else .error (.corruptObjectInvariant
        "published datetime is outside the supported RFC 3339 range")
    | .eid, .fixedSizeBinary _ (some value) =>
      (okOr (EventId.tryFrom value) (.executionInvariant
        "query produced an event identity with invalid width")).map fun eventId =>
          .string (hexText eventId.bytes)
    | .json, .utf8 (some value) =>
      (okOr (JsonText.fromStr value) .corruptObject).map canonicalizeJson
    | _, _ => .error unexpectedPhysicalType

/-! ## Readers -/

/-- Every reader of the engine sees `object` in a text. -/
structure ReadsBack (text : Text) (object : List (Text × Value)) : Prop where
  contains : ∀ key, evaluateRemainder .exists key (.utf8 (some text)) =
    .ok (.boolean (some (lookupEntry key object).isSome))
  access : ∀ key, evaluateRemainder .value key (.utf8 (some text)) =
    match lookupEntry key object with
    | none => .ok (.utf8 none)
    | some value => (okOr (JsonText.toText value) .execution).map fun text => .utf8 (some text)
  historical : ∀ (α : Type) (pointer : JsonPointer) (convert : Value → Option α),
    Historical.convertRow pointer convert (some text) =
      Historical.convertDocument pointer convert (.object object)
  encoded : ∀ nullability, QueryResult.encodeValue (.utf8 (some text)) .json nullability =
    .ok (.object object)

theorem readsBack_of_fromStr (h : JsonText.fromStr text = some (.object object))
    (hsorted : (Value.object object).Sorted) :
    ReadsBack text object where
  contains key := by simp only [evaluateRemainder, h]
  access key := by
    cases hlookup : lookupEntry key object with
    | none => simp only [evaluateRemainder, h, hlookup]
    | some value => simp only [evaluateRemainder, h, hlookup]
  historical α pointer convert := by simp only [Historical.convertRow, h]
  encoded nullability := by
    simp only [QueryResult.encodeValue, ScalarValue.isNull, Option.isNone_some, h, okOr_some, Except.map,
      canonicalizeJson, Value.sortKeys_of_sorted hsorted]
    rfl

/-- A text in which the readers see an object is read as that object : historical conversion at the
root gives it whole. -/
theorem ReadsBack.fromStr_eq (h : ReadsBack text object) :
    JsonText.fromStr text = some (.object object) := by
  have hroot := congrArg Prod.fst (h.historical Value ⟨[]⟩ some)
  cases hread : JsonText.fromStr text with
  | none => simp [Historical.convertRow, hread, Historical.convertDocument,
      Historical.resolvePointer] at hroot
  | some document =>
    cases document <;> simp_all [Historical.convertRow, Historical.convertDocument,
      Historical.resolvePointer]

variable [SerdeJson] [ChronoText] [FloatText] [Blake3]

/-- The remainder of a record is written, and read back exactly if the record is shallow and has no
private keys. -/
theorem readsBack_materializeRemainder_iff {plan : NormalizationPlan} {record : Bytes}
    {location : RecordLocation} {row : AcceptedRow}
    (h : normalizeRecord plan record location = .ok row) (hremainder : row.remainder = some object)
    (hfaithful : JsonText.Faithful (.object object)) :
    ∃ text, materializeRemainder row.remainder = .ok (some text) ∧
      (ReadsBack text object ↔ ShallowRecord plan record ∧ PlainRecord plan record) := by
  obtain ⟨root, hroot, hkept⟩ := remainder_of_normalizeRecord h
  obtain ⟨text, htext⟩ := hfaithful.written
  have hobject : object = removeProperties plan.removedTopLevelProperties root := by
    rw [hremainder] at hkept
    split at hkept
    · cases hkept
    · exact Option.some.inj hkept
  have hsorted : (Value.object object).Sorted := by
    obtain ⟨hkeys, hvalues⟩ := (JsonParser.admits_parseObject hroot).2
    rw [sortedEntries_iff] at hvalues
    rw [hobject]
    exact ⟨hkeys.filter _, sortedEntries_iff.mpr fun entry hentry =>
      hvalues entry (List.mem_of_mem_filter hentry)⟩
  refine ⟨text, ?_, ?_⟩
  · rw [hremainder, materializeRemainder, htext]
    rfl
  · rw [← nesting_remainder_iff hroot, ← plain_remainder_iff hroot, ← hobject]
    constructor
    · intro hreads
      constructor
      · by_contra hdeep
        exact absurd (hfaithful.deep text htext (not_lt.mp hdeep)) (by simp [hreads.fromStr_eq])
      · by_contra hmasked
        exact hfaithful.masked text htext hmasked hreads.fromStr_eq
    · rintro ⟨hshallow, hplain⟩
      exact readsBack_of_fromStr (hfaithful.read text htext hshallow hplain) hsorted

variable [Base64]

/-- Every remainder of a batch is read back exactly if every record that is accepted is
shallow and has no private keys. -/
theorem remainders_readBack_iff {metadata : BatchMetadata} {body : Bytes} {source : Source}
    {batch : NormalizedBatch} (h : normalizeRecords metadata body source = .ok batch)
    (hfaithful : ∀ row ∈ batch.acceptedRows, ∀ object, row.remainder = some object →
      JsonText.Faithful (.object object)) :
    (∀ row ∈ batch.acceptedRows, ∀ object, row.remainder = some object →
        ∃ text, materializeRemainder row.remainder = .ok (some text) ∧ ReadsBack text object) ↔
      ∀ plan record location row, NormalizationPlan.resolve metadata source = .ok plan →
        normalizeRecord plan record location = .ok row → row ∈ batch.acceptedRows →
          ShallowRecord plan record ∧ PlainRecord plan record := by
  constructor
  · intro hreads plan record location row _ hrecord hrow
    cases hremainder : row.remainder with
    | some object =>
      obtain ⟨text, htext, hiff⟩ := readsBack_materializeRemainder_iff hrecord hremainder
        (hfaithful row hrow object hremainder)
      obtain ⟨other, hother, hread⟩ := hreads row hrow object hremainder
      obtain rfl := Option.some.inj (Except.ok.inj (htext.symm.trans hother))
      exact hiff.mp hread
    | none =>
      -- Nothing is kept of such a record, and the empty object is not deep.
      obtain ⟨root, hroot, hkept⟩ := remainder_of_normalizeRecord hrecord
      rw [hremainder] at hkept
      split at hkept
      · next hempty =>
        rw [← nesting_remainder_iff hroot, ← plain_remainder_iff hroot, hempty]
        exact ⟨by decide, by simp, trivial⟩
      · cases hkept
  · intro hshallow row hrow object hremainder
    obtain ⟨plan, record, location, hplan, hrecord⟩ := exists_of_mem_acceptedRows h hrow
    obtain ⟨text, htext, hiff⟩ := readsBack_materializeRemainder_iff hrecord hremainder
      (hfaithful row hrow object hremainder)
    exact ⟨text, htext, hiff.mpr (hshallow plan record location row hplan hrecord hrow)⟩

end Encoder

/-! ## Concrete records -/

section Sample

attribute [local instance] Chrono.unbounded ChronoText.silent FloatText.silent Blake3.constant
  SerdeJson.plain Base64.empty JsonText.bounded FloatArithmetic.zero ChronoFormat.silent

/-- A record of `Source.sample` with arrays under `a`, one inside of the other. -/
def nestedRecord (arrays : Nat) : Bytes :=
  [0x7B, 0x22, 0x61, 0x22, 0x3A] ++ List.replicate arrays 0x5B ++ List.replicate arrays 0x5D ++
    [0x2C, 0x22, 0x74, 0x22, 0x3A, 0x31, 0x7D]

/-- The remainder of the first row of a body. -/
def firstRemainder (body : Bytes) : Option (List (Text × Value)) := do
  let batch ← (normalizeRecords (BatchMetadata.sample 9) body Source.sample).toOption
  let row ← batch.acceptedRows.head?
  row.remainder

theorem firstRemainder_eq_some {body : Bytes} {object : List (Text × Value)}
    (h : firstRemainder body = some object) :
    ∃ batch row, normalizeRecords (BatchMetadata.sample 9) body Source.sample = .ok batch ∧
      row ∈ batch.acceptedRows ∧ row.remainder = some object := by
  obtain ⟨batch, hbatch, h⟩ := Option.bind_eq_some_iff.mp h
  obtain ⟨row, hrow, hremainder⟩ := Option.bind_eq_some_iff.mp h
  refine ⟨batch, row, ?_, List.mem_of_mem_head? hrow, hremainder⟩
  cases hnormalize : normalizeRecords (BatchMetadata.sample 9) body Source.sample with
  | ok other =>
    rw [hnormalize] at hbatch
    exact congrArg Except.ok (Option.some.inj hbatch)
  | error error =>
    rw [hnormalize] at hbatch
    cases hbatch

/-- How deep a remainder is, and if its text is read. -/
def readable (object : List (Text × Value)) : Nat × Option Bool :=
  ((Value.object object).nesting,
    (JsonText.toText (.object object)).map fun text => (JsonText.fromStr text).isSome)

theorem readable_nestedRecord :
    (firstRemainder (nestedRecord 127)).map readable = some (128, some false) ∧
      (firstRemainder (nestedRecord 126)).map readable = some (127, some true) := by
  decide +kernel

/-- 128 nested containers are accepted and written, and no reader takes them. -/
theorem nestedRecord_unreadable :
    ∃ batch row object text,
      normalizeRecords (BatchMetadata.sample 9) (nestedRecord 127) Source.sample = .ok batch ∧
        row ∈ batch.acceptedRows ∧ row.remainder = some object ∧
        JsonText.Faithful (.object object) ∧
        materializeRemainder row.remainder = .ok (some text) ∧
        (∀ key, evaluateRemainder .exists key (.utf8 (some text)) = .error .execution) ∧
        QueryResult.encodeValue (.utf8 (some text)) .json .nullable = .error .corruptObject := by
  obtain ⟨object, hobject, hreadable⟩ := Option.map_eq_some_iff.mp readable_nestedRecord.1
  obtain ⟨batch, row, hbatch, hrow, hremainder⟩ := firstRemainder_eq_some hobject
  obtain ⟨hnesting, hread⟩ := Prod.mk.inj hreadable
  obtain ⟨text, htext, hnone⟩ := Option.map_eq_some_iff.mp hread
  have hnone := Option.isSome_eq_false_iff.mp hnone
  rw [Option.isNone_iff_eq_none] at hnone
  have hread (other : Text) (hother : JsonText.toText (.object object) = some other) :
      JsonText.fromStr other = none := by
    obtain rfl := Option.some.inj (htext.symm.trans hother)
    exact hnone
  refine ⟨batch, row, object, text, hbatch, hrow, hremainder, ⟨⟨text, htext⟩, ?_, ?_, ?_⟩,
    ?_, ?_, ?_⟩
  · exact fun _ _ hlt => absurd hlt (by omega)
  · exact fun other hother _ => hread other hother
  · exact fun other hother _ => by simp [hread other hother]
  · rw [hremainder, materializeRemainder, htext]
    rfl
  · intro key
    simp only [evaluateRemainder, hnone]
  · simp only [QueryResult.encodeValue, hnone]
    rfl

/-- A remainder with a number is read back. -/
theorem remainders_readBack_numberRecord :
    ∃ batch, normalizeRecords (BatchMetadata.sample 9) numberRecord Source.sample = .ok batch ∧
      ∀ row ∈ batch.acceptedRows, ∀ object, row.remainder = some object →
        ∃ text, materializeRemainder row.remainder = .ok (some text) ∧ ReadsBack text object := by
  obtain ⟨batch, hbatch, hrows⟩ : ∃ batch,
      normalizeRecords (BatchMetadata.sample 9) numberRecord Source.sample = .ok batch ∧
        batch.acceptedRows.map (·.remainder) = [some [([0x73], .number [0x35])]] :=
    ⟨_, rfl, rfl⟩
  have hremainder {row : AcceptedRow} (hrow : row ∈ batch.acceptedRows) :
      row.remainder = some [([0x73], .number [0x35])] := by
    have hmem := List.mem_map_of_mem (f := (·.remainder)) hrow
    rwa [hrows, List.mem_singleton] at hmem
  refine ⟨batch, hbatch, (remainders_readBack_iff hbatch ?_).mpr ?_⟩
  · intro row hrow object hobject
    obtain rfl := Option.some.inj ((hremainder hrow).symm.trans hobject)
    exact faithful_numberRemainder
  · intro plan record location row _ hrecord hrow
    obtain ⟨root, hroot, hkept⟩ := remainder_of_normalizeRecord hrecord
    rw [hremainder hrow] at hkept
    split at hkept
    · cases hkept
    · rw [← nesting_remainder_iff hroot, ← plain_remainder_iff hroot, ← Option.some.inj hkept]
      exact ⟨by decide, plain_numberRemainder⟩

end Sample

end Elucid
