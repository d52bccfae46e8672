import Elucid.JsonDocument

/-!
# Dead-letter objects

The rejected records of one batch become one NDJSON object : a JSON document for each
entry and a line feed behind it. `encode_dead_letters` stops as soon as the object would
be longer than the limit it is given.

`encodeDeadLetters_eq` : the object is encoded exactly if the sizes of the documents,
which `documentBytes` counts field by field, fit the limit together.
-/

namespace Elucid

open BigEndian List

/-! ## Documents -/

inductive DeadLetterDocumentCode
  | invalidUtf8
  | tooLarge
  | parseFailed
  | fieldMissing
  | fieldNull
  | conversionFailed
  | eventTimeInvalid
  | eventDayLimitExceeded
  deriving DecidableEq, Repr

namespace DeadLetterDocumentCode

/-- The variants, in their order. -/
def variants : List DeadLetterDocumentCode :=
  [.invalidUtf8, .tooLarge, .parseFailed, .fieldMissing, .fieldNull, .conversionFailed,
    .eventTimeInvalid, .eventDayLimitExceeded]

/-- The names that the variants are renamed to. -/
def rename : DeadLetterDocumentCode → String
  | .invalidUtf8 => "RECORD_INVALID_UTF8"
  | .tooLarge => "RECORD_TOO_LARGE"
  | .parseFailed => "RECORD_PARSE_FAILED"
  | .fieldMissing => "RECORD_FIELD_MISSING"
  | .fieldNull => "RECORD_FIELD_NULL"
  | .conversionFailed => "RECORD_CONVERSION_FAILED"
  | .eventTimeInvalid => "RECORD_EVENT_TIME_INVALID"
  | .eventDayLimitExceeded => "RECORD_EVENT_DAY_LIMIT_EXCEEDED"

/-- `DeadLetterDocumentCode::message`. -/
def message : DeadLetterDocumentCode → String
  | .invalidUtf8 => "record is not valid UTF-8"
  | .tooLarge => "record exceeds the pinned profile byte limit"
  | .parseFailed => "record is not exactly one JSON object with unique keys"
  | .fieldMissing => "a required mapped field is absent"
  | .fieldNull => "a required mapped field is null"
  | .conversionFailed => "a mapped field cannot be converted to its declared type"
  | .eventTimeInvalid => "event time is absent, null, or invalid"
  | .eventDayLimitExceeded => "record introduces too many distinct event days"

/-- `DeadLetterDocumentCode::try_from`. -/
def tryFrom : DeadLetterCode → DeadLetterDocumentCode
  | .invalidUtf8 => .invalidUtf8
  | .tooLarge => .tooLarge
  | .parseFailed => .parseFailed
  | .fieldMissing => .fieldMissing
  | .fieldNull => .fieldNull
  | .conversionFailed => .conversionFailed
  | .eventTimeInvalid => .eventTimeInvalid
  | .eventDayLimitExceeded => .eventDayLimitExceeded

end DeadLetterDocumentCode

/-- The name of the code of an entry. -/
def documentCode (code : DeadLetterCode) : String := (DeadLetterDocumentCode.tryFrom code).rename

/-- The name of a `DeadLetterDocumentEncoding`. -/
def documentEncoding : PayloadEncoding → String
  | .utf8 => "UTF8"
  | .base64 => "BASE64"

/-- The name of a `DeadLetterDocumentExtent`. -/
def documentExtent : PayloadExtent → String
  | .complete => "COMPLETE"
  | .front => "PREFIX"

/-! ## Entries -/

/-- `DeadLetterDocumentPayload`. The encodings and the extents are those of the payload. -/
structure DeadLetterDocumentPayload where
  encoding : PayloadEncoding
  extent : PayloadExtent
  content : Text
  deriving DecidableEq

structure DeadLetterDocumentEntry where
  batchId : Text
  lineNumber : Nat
  inputPosition : Nat
  code : DeadLetterDocumentCode
  message : Text
  payloadByteCount : Nat
  payloadBlake3 : Text
  payload : DeadLetterDocumentPayload
  deriving DecidableEq

namespace DeadLetterDocumentEntry

/-- `DeadLetterDocumentEntry::from_entry`. -/
def fromEntry (entry : DeadLetterEntry) : DeadLetterDocumentEntry where
  batchId := uuidText entry.batchId.uuid.bytes
  lineNumber := entry.location.lineNumber
  inputPosition := entry.location.inputPosition
  code := .tryFrom entry.code
  message := .ofString entry.code.message
  payloadByteCount := entry.payloadByteCount
  payloadBlake3 := hexText entry.payloadDigest.bytes
  payload := ⟨entry.payload.encoding, entry.payload.extent, entry.payload.content⟩

/-- `DeadLetterDocumentEntry::validate`. -/
def validate [UuidCrate] (entry : DeadLetterDocumentEntry) : Bool :=
  entry.message = .ofString entry.code.message && (UuidCrate.parseStr entry.batchId).isSome &&
    entry.payloadBlake3.length == 64 &&
    entry.payloadBlake3.all fun byte => isDigit byte || (0x61 ≤ byte && byte ≤ 0x66)

end DeadLetterDocumentEntry

/-- The derived `Deserialize` of `DeadLetterDocumentPayload`. -/
def DeadLetterDocumentPayload.deserialize (value : Value) : Option DeadLetterDocumentPayload :=
  (Deserialize.fields ["encoding", "extent", "content"] value).bind fun
    | [encoding, extent, content] => do
      let encoding ← Deserialize.variant [.utf8, .base64] documentEncoding encoding
      let extent ← Deserialize.variant [.complete, .front] documentExtent extent
      let content ← Deserialize.string content
      return ⟨encoding, extent, content⟩
    | _ => none

/-- The derived `Deserialize` of `DeadLetterDocumentEntry`. -/
def DeadLetterDocumentEntry.deserialize (value : Value) : Option DeadLetterDocumentEntry :=
  (Deserialize.fields ["batch_id", "line_number", "input_position", "code", "message",
    "payload_byte_count", "payload_blake3", "payload"] value).bind fun
    | [batchId, lineNumber, inputPosition, code, message, payloadByteCount, payloadBlake3,
        payload] => do
      let batchId ← Deserialize.string batchId
      let lineNumber ← Deserialize.u64 lineNumber
      let inputPosition ← Deserialize.u64 inputPosition
      let code ← Deserialize.variant DeadLetterDocumentCode.variants
        DeadLetterDocumentCode.rename code
      let message ← Deserialize.string message
      let payloadByteCount ← Deserialize.u64 payloadByteCount
      let payloadBlake3 ← Deserialize.string payloadBlake3
      let payload ← DeadLetterDocumentPayload.deserialize payload
      return ⟨batchId, lineNumber, inputPosition, code, message, payloadByteCount, payloadBlake3,
        payload⟩
    | _ => none

inductive DeadLetterObjectError
  | empty
  | capacityExceeded
  | invalid
  | decode
  | io
  deriving DecidableEq, Repr

/-! ## Objects -/

section Decoding

variable [SerdeDocument] [UuidCrate]

/-- A line of `decode_dead_letters`. -/
def decodeLine (line : Bytes) : Except DeadLetterObjectError DeadLetterDocumentEntry := do
  ensure (line ≠ []) .invalid
  let entry ← okOr ((SerdeDocument.fromSlice line).bind DeadLetterDocumentEntry.deserialize)
    .decode
  ensure (entry.validate = true) .invalid
  return entry

/-- `decode_dead_letters`. -/
def decodeDeadLetters (bytes : Bytes) :
    Except DeadLetterObjectError (List DeadLetterDocumentEntry) := do
  ensure (bytes.getLast? = some 0x0A) .invalid
  let entries ← (bytes.dropLast.splitOn 0x0A).mapM decodeLine
  ensure (entries ≠ []) .empty
  return entries

end Decoding

section Encoding

variable [SerdeJson]

/-- `DeadLetterDocumentPayload`, as JSON. -/
def encodePayload (payload : DeadLetterPayload) : Bytes :=
  encodeStruct [
    ("encoding", SerdeJson.encodeString (.ofString (documentEncoding payload.encoding))),
    ("extent", SerdeJson.encodeString (.ofString (documentExtent payload.extent))),
    ("content", SerdeJson.encodeString payload.content)]

/-- `serde_json::to_vec` of `DeadLetterDocumentEntry::from_entry`. -/
def encodeDocument (entry : DeadLetterEntry) : Bytes :=
  encodeStruct [
    ("batch_id", SerdeJson.encodeString (uuidText entry.batchId.uuid.bytes)),
    ("line_number", decimalText entry.location.lineNumber),
    ("input_position", decimalText entry.location.inputPosition),
    ("code", SerdeJson.encodeString (.ofString (documentCode entry.code))),
    ("message", SerdeJson.encodeString (.ofString entry.code.message)),
    ("payload_byte_count", decimalText entry.payloadByteCount),
    ("payload_blake3", SerdeJson.encodeString (hexText entry.payloadDigest.bytes)),
    ("payload", encodePayload entry.payload)]

/-- The loop of `encode_dead_letters`. Reserving the memory is assumed to succeed. -/
def appendDocuments (maximumBytes : Nat) :
    Bytes → List DeadLetterEntry → Except DeadLetterObjectError Bytes
  | output, [] => .ok output
  | output, entry :: rest => do
    let encoded := encodeDocument entry
    let length ← okOr (checkedAdd output.length encoded.length) .capacityExceeded
    let projected ← okOr (checkedAdd length 1) .capacityExceeded
    ensure (projected ≤ maximumBytes) .capacityExceeded
    appendDocuments maximumBytes (output ++ encoded ++ [0x0A]) rest

def encodeDeadLetters (entries : List DeadLetterEntry) (maximumBytes : Nat) :
    Except DeadLetterObjectError Bytes := do
  ensure (entries ≠ []) .empty
  appendDocuments maximumBytes [] entries

/-! ## Sizes -/

/-- The size of a document and its line feed, field by field. -/
def documentBytes (entry : DeadLetterEntry) : Nat :=
  151 + (SerdeJson.encodeString (uuidText entry.batchId.uuid.bytes)).length +
    (decimalText entry.location.lineNumber).length +
    (decimalText entry.location.inputPosition).length +
    (SerdeJson.encodeString (.ofString (documentCode entry.code))).length +
    (SerdeJson.encodeString (.ofString entry.code.message)).length +
    (decimalText entry.payloadByteCount).length +
    (SerdeJson.encodeString (hexText entry.payloadDigest.bytes)).length +
    (SerdeJson.encodeString (.ofString (documentEncoding entry.payload.encoding))).length +
    (SerdeJson.encodeString (.ofString (documentExtent entry.payload.extent))).length +
    (SerdeJson.encodeString entry.payload.content).length

/-- The size of the object of some entries. -/
def documentsBytes (entries : List DeadLetterEntry) : Nat :=
  (entries.map documentBytes).sum

omit [SerdeJson] in
theorem nameBytes_document :
    nameBytes ["encoding", "extent", "content"] = 21 ∧
      nameBytes ["batch_id", "line_number", "input_position", "code", "message",
        "payload_byte_count", "payload_blake3", "payload"] = 83 := by
  decide +kernel

theorem length_encodeDocument (entry : DeadLetterEntry) :
    (encodeDocument entry).length + 1 = documentBytes entry := by
  have hpayload := length_encodeStruct (cons_ne_nil
    ("encoding", SerdeJson.encodeString (.ofString (documentEncoding entry.payload.encoding)))
    [("extent", SerdeJson.encodeString (.ofString (documentExtent entry.payload.extent))),
    ("content", SerdeJson.encodeString entry.payload.content)])
  rw [encodeDocument, length_encodeStruct (cons_ne_nil _ _)]
  simp only [encodePayload, hpayload, documentBytes, map_cons, map_nil, sum_cons,
    sum_nil, length_cons, length_nil, nameBytes_document.1, nameBytes_document.2]
  omega

theorem appendDocuments_eq {maximumBytes : Nat} (hmaximum : maximumBytes < 2 ^ 64)
    (entries : List DeadLetterEntry) {output : Bytes} (houtput : output.length ≤ maximumBytes) :
    appendDocuments maximumBytes output entries =
      if output.length + documentsBytes entries ≤ maximumBytes then
        .ok (output ++ entries.flatMap fun entry => encodeDocument entry ++ [0x0A])
      else .error .capacityExceeded := by
  induction entries generalizing output with
  | nil => simp [appendDocuments, documentsBytes, houtput]
  | cons entry rest ih =>
    have hlength := length_encodeDocument entry
    simp only [appendDocuments, documentsBytes, map_cons, sum_cons]
    by_cases hfits : output.length + documentBytes entry ≤ maximumBytes
    · rw [checkedAdd_of_lt (by omega), okOr_some, ok_bind, checkedAdd_of_lt (by omega), okOr_some,
        ok_bind, ensure_of (by omega), ok_bind, ih (by simp; omega)]
      simp only [documentsBytes, length_append, length_singleton, flatMap_cons,
        append_assoc, ← hlength, ← Nat.add_assoc]
    · -- whichever of the three checks fails, the error is the same
      refine .trans ?_ (if_neg (by omega)).symm
      cases hfirst : checkedAdd output.length (encodeDocument entry).length with
      | none => rfl
      | some length =>
        cases hsecond : checkedAdd length 1 with
        | none => simp only [okOr_some, ok_bind, hsecond, okOr_none, error_bind]
        | some projected =>
          have hlength' := (checkedAdd_eq_some hfirst).1
          have hprojected := (checkedAdd_eq_some hsecond).1
          rw [okOr_some, ok_bind, hsecond, okOr_some, ok_bind, ensure, if_neg (by omega)]
          rfl

/-- Some entries are encoded exactly if their documents fit the limit. -/
theorem encodeDeadLetters_eq {entries : List DeadLetterEntry} (hentries : entries ≠ [])
    {maximumBytes : Nat} (hmaximum : maximumBytes < 2 ^ 64) :
    encodeDeadLetters entries maximumBytes =
      if documentsBytes entries ≤ maximumBytes then
        .ok (entries.flatMap fun entry => encodeDocument entry ++ [0x0A])
      else .error .capacityExceeded := by
  rw [encodeDeadLetters, ensure_of hentries, ok_bind,
    appendDocuments_eq hmaximum entries (Nat.zero_le _)]
  simp only [length_nil, Nat.zero_add, nil_append]

end Encoding

end Elucid
