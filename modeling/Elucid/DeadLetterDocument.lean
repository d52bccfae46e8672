import Elucid.DeadLetterObject
import Elucid.Framing

/-!
# Dead-letter documents

A rejected record is kept as the front of it that a payload has room for, as text or in base64
(`DeadLetterPayload.Keeps`). The documents of the entries are the lines of an object, which
`decode_dead_letters` reads and validates. The read endpoint decodes the lines in the front of an
object that it transfers.

`deadLetters_readable` : the payload of every rejected record is a faithful front, the object of
some entries is decoded to their documents, and so is every front of it that has a line.
-/

namespace Elucid

open BigEndian Lines Rfc8259 List

variable {text : Text} {index : Nat}

/-! ## Payloads -/

/-- The decoder of the base64 crate. -/
class Base64Decoder where
  decode : Text → Option Bytes

/-- Base64 is ASCII and decoded to what was encoded. -/
structure Base64.Faithful [Base64] [Base64Decoder] : Prop where
  decode_encode : ∀ bytes, Base64Decoder.decode (Base64.encode bytes) = some bytes
  ascii : ∀ bytes, ∀ byte ∈ Base64.encode bytes, byte ≤ 0x7F

/-- The bytes that the content of a payload stands for. -/
def DeadLetterPayload.decode [Base64Decoder] (payload : DeadLetterPayload) : Option Bytes :=
  match payload.encoding with
  | .utf8 => some payload.content
  | .base64 => Base64Decoder.decode payload.content

/-- A payload is a front of the record, and as a text a front of its characters. -/
def DeadLetterPayload.Keeps [Base64Decoder] (payload : DeadLetterPayload) (record : Bytes) : Prop :=
  ∃ front rest, payload.decode = some front ∧ record = front ++ rest ∧
    front.length ≤ deadLetterPayloadPrefixBytes ∧
    (payload.extent = .complete ↔ front = record) ∧
    (payload.encoding = .utf8 → isUtf8 front = true ∧ isUtf8 rest = true)

theorem charBoundaryBefore_le (text : Text) (index : Nat) :
    charBoundaryBefore text index ≤ index := by
  induction index with
  | zero => exact le_rfl
  | succ index ih =>
    rw [charBoundaryBefore]
    split
    · exact le_rfl
    · omega

theorem isCharBoundary_charBoundaryBefore (text : Text) (index : Nat) :
    isCharBoundary text (charBoundaryBefore text index) = true := by
  induction index with
  | zero => rfl
  | succ index ih =>
    rw [charBoundaryBefore]
    split
    · assumption
    · exact ih

theorem charBoundaryBefore_length (text : Text) :
    charBoundaryBefore text text.length = text.length := by
  cases h : text.length with
  | zero => rfl
  | succ index => rw [charBoundaryBefore, if_pos (by simp [isCharBoundary, h])]

theorem isCharBoundary_iff :
    isCharBoundary text index = true ↔ index = 0 ∨ index = text.length ∨
      ∃ byte, text[index]? = some byte ∧ isContinuation byte = false := by
  unfold isCharBoundary
  cases h : text[index]? with
  | none => simp
  | some byte => simp [isContinuation, or_assoc, imp_iff_not_or]

/-- A cut at a boundary does not split a character. -/
theorem isUtf8_take_drop (h : isUtf8 text = true) (hindex : isCharBoundary text index = true) :
    isUtf8 (text.take index) = true ∧ isUtf8 (text.drop index) = true := by
  rcases isCharBoundary_iff.mp hindex with rfl | rfl | ⟨byte, hbyte, hfirst⟩
  · exact ⟨rfl, h⟩
  · rw [take_length, drop_length]
    exact ⟨h, rfl⟩
  obtain ⟨characters, rfl, hall⟩ := isUtf8_iff.mp h
  clear h hindex
  induction characters generalizing index with
  | nil => simp at hbyte
  | cons character characters ih =>
    obtain ⟨hcharacter, hrest⟩ := forall_mem_cons.mp hall
    rw [flatten_cons] at hbyte ⊢
    by_cases hlt : index < character.length
    · -- inside of a character only its first byte is no continuation
      rw [getElem?_append_left hlt] at hbyte
      obtain ⟨first, rest, rfl, -, hcontinuation⟩ := hcharacter.shape
      cases index with
      | zero => exact ⟨rfl, isUtf8_iff.mpr ⟨_ :: _, rfl, hall⟩⟩
      | succ index =>
        rw [getElem?_cons_succ] at hbyte
        rw [hcontinuation byte (mem_of_getElem? hbyte)] at hfirst
        cases hfirst
    · have hle := Nat.not_lt.mp hlt
      rw [getElem?_append_right hle] at hbyte
      obtain ⟨hfront, hback⟩ := ih hrest hbyte
      rw [take_append, drop_append, take_of_length_le hle,
        drop_eq_nil_of_le hle, nil_append]
      have hfirst : isUtf8 character = true :=
        isUtf8_iff.mpr ⟨[character], by simp, by simpa using hcharacter⟩
      exact ⟨isUtf8_append hfirst hfront, hback⟩

/-- The payload of a record keeps it. -/
theorem keeps_fromRecord [Base64] [Base64Decoder] (hbase64 : Base64.Faithful) (record : Bytes) :
    (DeadLetterPayload.fromRecord record).Keeps record ∧
      isUtf8 (DeadLetterPayload.fromRecord record).content = true := by
  have hextent {length : Nat} (hle : length ≤ deadLetterPayloadPrefixBytes)
      (hwhole : record.length ≤ deadLetterPayloadPrefixBytes → length = record.length) :
      (if record.length ≤ deadLetterPayloadPrefixBytes then PayloadExtent.complete
        else .front) = .complete ↔ record.take length = record := by
    rw [take_eq_self_iff]
    split
    · rename_i hshort
      simp [hwhole hshort]
    · simp
      omega
  have hmin : min record.length deadLetterPayloadPrefixBytes ≤ deadLetterPayloadPrefixBytes :=
    Nat.min_le_right _ _
  unfold DeadLetterPayload.fromRecord
  dsimp only
  split
  · rename_i hutf8
    have hboundary := isCharBoundary_charBoundaryBefore record
      (min record.length deadLetterPayloadPrefixBytes)
    obtain ⟨hfront, hback⟩ := isUtf8_take_drop hutf8 hboundary
    have hle := (charBoundaryBefore_le record _).trans hmin
    refine ⟨⟨_, _, rfl, (take_append_drop _ _).symm, ?_, hextent hle fun hshort => ?_,
      fun _ => ⟨hfront, hback⟩⟩, hfront⟩
    · exact (length_take_le _ _).trans hle
    · rw [Nat.min_eq_left hshort, charBoundaryBefore_length]
  · refine ⟨⟨_, _, hbase64.decode_encode _, (take_append_drop _ _).symm, ?_,
      hextent hmin fun hshort => Nat.min_eq_left hshort, fun heq => ?_⟩,
      isUtf8_of_ascii (hbase64.ascii _)⟩
    · exact (length_take_le _ _).trans hmin
    · cases heq

/-! ## Documents -/

namespace DeadLetterDocumentCode

/-- Both tables have one text for a code. -/
theorem message_tryFrom (code : DeadLetterCode) : (tryFrom code).message = code.message := by
  cases code <;> rfl

theorem tryFrom_injective : Function.Injective tryFrom := by
  intro code other h
  cases code <;> cases other <;> first | rfl | cases h

end DeadLetterDocumentCode

/-- The values that the types of an entry can hold. -/
structure DeadLetterEntry.Representable (entry : DeadLetterEntry) : Prop where
  lineNumber_lt : entry.location.lineNumber < 2 ^ 64
  inputPosition_lt : entry.location.inputPosition < 2 ^ 64
  payloadByteCount_lt : entry.payloadByteCount < 2 ^ 64
  isUtf8_content : isUtf8 entry.payload.content = true

/-! ## What is written is read back -/

/-- A hexadecimal digit is one of the digest that is validated. -/
theorem isHexDigit_hexDigit : ∀ value : Fin 16,
    (isDigit (hexDigit value) || (0x61 ≤ hexDigit value && hexDigit value ≤ 0x66)) = true := by
  decide

theorem isUtf8_documentTexts (code : DeadLetterCode) (encoding : PayloadEncoding)
    (extent : PayloadExtent) :
    isUtf8 (Text.ofString (documentCode code)) = true ∧
      isUtf8 (Text.ofString code.message) = true ∧
      isUtf8 (Text.ofString (documentEncoding encoding)) = true ∧
      isUtf8 (Text.ofString (documentExtent extent)) = true := by
  refine ⟨?_, ?_, ?_, ?_⟩
  · cases code <;> decide
  · cases code <;> decide
  · cases encoding <;> decide
  · cases extent <;> decide

theorem fieldNames_payload : FieldNames ["encoding", "extent", "content"] := by decide +kernel

theorem fieldNames_document : FieldNames ["batch_id", "line_number", "input_position", "code",
    "message", "payload_byte_count", "payload_blake3", "payload"] := by decide +kernel

theorem variant_documentEncoding (encoding : PayloadEncoding) :
    Deserialize.variant [.utf8, .base64] documentEncoding
      (.string (.ofString (documentEncoding encoding))) = some encoding := by
  cases encoding <;> decide

theorem variant_documentExtent (extent : PayloadExtent) :
    Deserialize.variant [.complete, .front] documentExtent
      (.string (.ofString (documentExtent extent))) = some extent := by
  cases extent <;> decide

theorem variant_documentCode (code : DeadLetterCode) :
    Deserialize.variant DeadLetterDocumentCode.variants DeadLetterDocumentCode.rename
      (.string (.ofString (documentCode code))) = some (.tryFrom code) := by
  cases code <;> decide

section Documents

variable [SerdeJson] (hstrings : SerdeJson.WritesStrings)
variable {nesting : Nat}

include hstrings

theorem exists_isValue_encodePayload {payload : DeadLetterPayload}
    (hcontent : isUtf8 payload.content = true) :
    ∃ entries, IsValue (nesting + 1) (encodePayload payload) (.object entries) ∧
      DeadLetterDocumentPayload.deserialize (.object entries) =
        some ⟨payload.encoding, payload.extent, payload.content⟩ := by
  obtain ⟨-, -, hencoding, hextent⟩ :=
    isUtf8_documentTexts .tooLarge payload.encoding payload.extent
  obtain ⟨entries, hvalue, hfields⟩ : ∃ entries,
      IsValue (nesting + 1) (encodePayload payload) (.object entries) ∧
      Deserialize.fields ["encoding", "extent", "content"] (.object entries) =
        some [.string (.ofString (documentEncoding payload.encoding)),
          .string (.ofString (documentExtent payload.extent)), .string payload.content] :=
    exists_isValue_encodeStruct fieldNames_payload rfl
      (.cons (hstrings.isValue hencoding) (.cons (hstrings.isValue hextent)
        (.cons (hstrings.isValue hcontent) .nil)))
  refine ⟨entries, hvalue, ?_⟩
  rw [DeadLetterDocumentPayload.deserialize, hfields]
  simp only [Option.bind_some, variant_documentEncoding, variant_documentExtent,
    Deserialize.string]
  rfl

/-- The document of an entry is read back. -/
theorem exists_isValue_encodeDocument {entry : DeadLetterEntry} (hentry : entry.Representable) :
    ∃ entries, IsValue (nesting + 2) (encodeDocument entry) (.object entries) ∧
      DeadLetterDocumentEntry.deserialize (.object entries) = some (.fromEntry entry) := by
  obtain ⟨hcode, hmessage, -, -⟩ :=
    isUtf8_documentTexts entry.code entry.payload.encoding entry.payload.extent
  obtain ⟨members, hpayload, hread⟩ :=
    @exists_isValue_encodePayload _ hstrings nesting _ hentry.isUtf8_content
  obtain ⟨entries, hvalue, hfields⟩ : ∃ entries,
      IsValue (nesting + 2) (encodeDocument entry) (.object entries) ∧
      Deserialize.fields ["batch_id", "line_number", "input_position", "code", "message",
        "payload_byte_count", "payload_blake3", "payload"] (.object entries) =
        some [.string (uuidText entry.batchId.uuid.bytes),
          .number (decimalText entry.location.lineNumber),
          .number (decimalText entry.location.inputPosition),
          .string (.ofString (documentCode entry.code)), .string (.ofString entry.code.message),
          .number (decimalText entry.payloadByteCount),
          .string (hexText entry.payloadDigest.bytes), .object members] :=
    exists_isValue_encodeStruct fieldNames_document rfl
      (.cons (hstrings.isValue (isUtf8_uuidText _)) (.cons (isValue_decimalText _)
        (.cons (isValue_decimalText _) (.cons (hstrings.isValue hcode)
          (.cons (hstrings.isValue hmessage) (.cons (isValue_decimalText _)
            (.cons (hstrings.isValue (isUtf8_hexText _)) (.cons hpayload .nil))))))))
  refine ⟨entries, hvalue, ?_⟩
  rw [DeadLetterDocumentEntry.deserialize, hfields]
  simp only [Option.bind_some, Deserialize.string, variant_documentCode, hread,
    Deserialize.u64_decimalText hentry.lineNumber_lt,
    Deserialize.u64_decimalText hentry.inputPosition_lt,
    Deserialize.u64_decimalText hentry.payloadByteCount_lt]
  rfl

/-- A document is one line. -/
theorem not_mem_encodeDocument {entry : DeadLetterEntry} (hentry : entry.Representable) :
    (0x0A : UInt8) ∉ encodeDocument entry := by
  obtain ⟨hcode, hmessage, hencoding, hextent⟩ :=
    isUtf8_documentTexts entry.code entry.payload.encoding entry.payload.extent
  have hdecimal (value : Nat) : (0x0A : UInt8) ∉ decimalText value := fun hmem =>
    absurd (all_eq_true.mp (all_isDigit_decimalText value) _ hmem) (by decide)
  have hpayload : (0x0A : UInt8) ∉ encodePayload entry.payload := by
    refine not_mem_encodeStruct fieldNames_payload rfl ?_
    simp only [forall_mem_cons]
    exact ⟨hstrings.not_mem hencoding, hstrings.not_mem hextent,
      hstrings.not_mem hentry.isUtf8_content, by simp⟩
  refine not_mem_encodeStruct fieldNames_document rfl ?_
  simp only [forall_mem_cons]
  exact ⟨hstrings.not_mem (isUtf8_uuidText _), hdecimal _, hdecimal _, hstrings.not_mem hcode,
    hstrings.not_mem hmessage, hdecimal _, hstrings.not_mem (isUtf8_hexText _), hpayload, by simp⟩

end Documents

/-! ## Objects -/

section Objects

variable [SerdeDocument] [UuidCrate]

theorem decodeLine_eq_ok_iff {line : Bytes} {entry : DeadLetterDocumentEntry} :
    decodeLine line = .ok entry ↔ line ≠ [] ∧
      (SerdeDocument.fromSlice line).bind DeadLetterDocumentEntry.deserialize = some entry ∧
      entry.validate = true := by
  unfold decodeLine
  constructor
  · intro h
    obtain ⟨_, hline, h⟩ := bind_eq_ok.mp h
    obtain ⟨read, hread, h⟩ := bind_eq_ok.mp h
    obtain ⟨_, hvalid, h⟩ := bind_eq_ok.mp h
    cases h
    exact ⟨ensure_eq_ok.mp hline, okOr_eq_ok hread, ensure_eq_ok.mp hvalid⟩
  · rintro ⟨hline, hread, hvalid⟩
    rw [ensure_of hline, ok_bind, hread, okOr_some, ok_bind, ensure_of hvalid, ok_bind]
    rfl

inductive ListCompletion
  | complete
  | truncated
  deriving DecidableEq, Repr

/-- What `read_dead_letter` makes of an object, if at most so many bytes of it are transferred. An
object that cannot be decoded is reported as damaged. -/
def readDeadLetter (maximumResponseBytes : Nat) (object : Bytes) :
    Option (List DeadLetterDocumentEntry × ListCompletion) :=
  if object.length ≤ maximumResponseBytes then
    (decodeDeadLetters object).toOption.map (·, .complete)
  else do
    let bytes ← cutBehindLast 0x0A (object.take maximumResponseBytes)
    (decodeDeadLetters bytes).toOption.map (·, .truncated)

omit [SerdeDocument] in
theorem validate_fromEntry (huuid : UuidCrate.ParsesTexts) (entry : DeadLetterEntry) :
    (DeadLetterDocumentEntry.fromEntry entry).validate = true := by
  have hdigest : (hexText entry.payloadDigest.bytes).all
      (fun byte => isDigit byte || (0x61 ≤ byte && byte ≤ 0x66)) = true := by
    refine all_eq_true.mpr fun byte hbyte => ?_
    obtain ⟨value, rfl⟩ := mem_hexText hbyte
    exact isHexDigit_hexDigit value
  have hbatch : (UuidCrate.parseStr (uuidText entry.batchId.uuid.bytes)).isSome = true := by
    rw [huuid entry.batchId.uuid, Option.isSome_some]
  simp only [DeadLetterDocumentEntry.validate, DeadLetterDocumentEntry.fromEntry,
    DeadLetterDocumentCode.message_tryFrom, hbatch, hdigest, length_hexText,
    entry.payloadDigest.length_bytes]
  rfl

end Objects

/-- A document has every field of its entry. -/
theorem DeadLetterDocumentEntry.fromEntry_injective : Function.Injective fromEntry := by
  rintro ⟨batchId, ⟨_, _⟩, code, _, ⟨bytes, _⟩, ⟨_, _, _⟩⟩
    ⟨otherId, ⟨_, _⟩, otherCode, _, ⟨otherBytes, _⟩, ⟨_, _, _⟩⟩ h
  simp only [fromEntry, DeadLetterDocumentEntry.mk.injEq,
    DeadLetterDocumentPayload.mk.injEq] at h
  obtain ⟨hbatch, rfl, rfl, hcode, -, rfl, hdigest, rfl, rfl, rfl⟩ := h
  obtain rfl := UuidV7.eq_of_uuidText_eq hbatch
  obtain rfl := DeadLetterDocumentCode.tryFrom_injective hcode
  obtain rfl := hexText_injective hdigest
  rfl

section RoundTrip

variable [SerdeJson] [SerdeDocument] [UuidCrate] (hstrings : SerdeJson.WritesStrings)
  (hreads : SerdeDocument.Reads) (huuid : UuidCrate.ParsesTexts)

include hstrings hreads huuid

theorem decodeLine_encodeDocument {entry : DeadLetterEntry} (hentry : entry.Representable) :
    decodeLine (encodeDocument entry) = .ok (.fromEntry entry) := by
  obtain ⟨entries, hvalue, hread⟩ := @exists_isValue_encodeDocument _ hstrings 125 _ hentry
  refine decodeLine_eq_ok_iff.mpr ⟨fun hnil => ?_, ?_, validate_fromEntry huuid entry⟩
  · simp [encodeDocument, encodeStruct] at hnil
  · rw [hreads _ _ (isElement_of_isValue hvalue), Option.bind_some, hread]

/-- The object of some entries is decoded to their documents. -/
theorem decodeDeadLetters_terminate {entries : List DeadLetterEntry} (hne : entries ≠ [])
    (hentries : ∀ entry ∈ entries, entry.Representable) :
    decodeDeadLetters (terminate 0x0A (entries.map encodeDocument)) =
      .ok (entries.map .fromEntry) := by
  have hdocuments : entries.map encodeDocument ≠ [] := by simpa using hne
  have hlines : ∀ document ∈ entries.map encodeDocument, (0x0A : UInt8) ∉ document := by
    intro document hdocument
    obtain ⟨entry, hentry, rfl⟩ := mem_map.mp hdocument
    exact not_mem_encodeDocument hstrings (hentries entry hentry)
  have hlast : (terminate 0x0A (entries.map encodeDocument)).getLast? = some (0x0A : UInt8) := by
    rw [terminate_eq_intercalate hdocuments, getLast?_concat]
  have hdecode : (entries.map encodeDocument).mapM decodeLine = .ok (entries.map .fromEntry) := by
    rw [mapM_map]
    exact mapM_eq_map fun entry hentry =>
      decodeLine_encodeDocument hstrings hreads huuid (hentries entry hentry)
  rw [decodeDeadLetters, ensure_of hlast, ok_bind, splitOn_terminate hdocuments hlines, hdecode,
    ok_bind, ensure_of (by simpa using hne), ok_bind]
  rfl

end RoundTrip

/-! ## Rejected records -/

/-- The entry of a line that is rejected. -/
theorem entry_of_normalizeLine [Chrono] [ChronoText] [FloatText] [Blake3] [Base64] [SerdeJson]
    {plan : NormalizationPlan} {record : Bytes} {location : RecordLocation} {days : List Int}
    {entry : DeadLetterEntry}
    (h : .deadLetter entry = (normalizeLine plan record location days).1) :
    ∃ code, entry =
      DeadLetterEntry.new plan.metadata.batchId location code record record.length := by
  unfold normalizeLine at h
  dsimp only at h
  split at h
  · exact ⟨_, NormalizedRecord.deadLetter.inj h⟩
  split at h
  · exact ⟨_, NormalizedRecord.deadLetter.inj h⟩
  split at h
  · split at h
    · cases h
    split at h
    · cases h
    · exact ⟨_, NormalizedRecord.deadLetter.inj h⟩
  · exact ⟨_, NormalizedRecord.deadLetter.inj h⟩

/-- The record of a line of a body fits it, and so does its place. -/
theorem le_of_mem_bodyLines {body : Bytes} {line : Line UInt8} (h : line ∈ bodyLines body) :
    line.number ≤ body.length ∧ line.offset < body.length ∧
      (lineRecord line).length ≤ body.length := by
  obtain ⟨offset, hlt, -, rfl⟩ := mem_lines.mp h
  have hnumber : (body.take offset).count 0x0A ≤ offset :=
    count_le_length.trans (length_take_le _ _)
  have hcontent : (lineAt 0x0A body offset).content.length ≤ body.length :=
    ((takeWhile_sublist _).trans (drop_sublist _ _)).length_le
  refine ⟨?_, hlt, ?_⟩
  · exact Nat.succ_le_of_lt (Nat.lt_of_le_of_lt hnumber hlt)
  · unfold lineRecord linePayload
    split_ifs
    · exact (dropLast_sublist _).length_le.trans hcontent
    · exact hcontent
    · exact hcontent

section Main

variable [Chrono] [ChronoText] [FloatText] [Blake3] [Base64] [Base64Decoder] [SerdeJson]
  [SerdeDocument] [UuidCrate]

omit [SerdeDocument] [UuidCrate] in
/-- The entry of a rejected record keeps it. -/
theorem keeps_of_mem_deadLetters (hbase64 : Base64.Faithful) {metadata : BatchMetadata}
    {body : Bytes} (hbody : body.length < 2 ^ 63) {source : Source} {batch : NormalizedBatch}
    (h : normalizeRecords metadata body source = .ok batch) {entry : DeadLetterEntry}
    (hentry : entry ∈ batch.deadLetters) :
    entry.Representable ∧ ∃ line ∈ recordLines body, entry.location = lineLocation line ∧
      entry.payload.Keeps (lineRecord line) := by
  obtain ⟨plan, hplan, -⟩ := bind_eq_ok.mp h
  rw [normalizeRecords_eq hplan hbody] at h
  obtain rfl := Except.ok.inj h
  obtain ⟨record, hrecord, hsome⟩ := mem_filterMap.mp hentry
  obtain ⟨line, hline, days, rfl⟩ := exists_of_mem_forall₂ (forall₂_lineOutcomes plan [] _) hrecord
  cases houtcome : (normalizeLine plan (lineRecord line) (lineLocation line) days).1 with
  | accepted row =>
    rw [houtcome] at hsome
    cases hsome
  | deadLetter other =>
    rw [houtcome] at hsome
    obtain rfl := Option.some.inj hsome
    obtain ⟨code, rfl⟩ := entry_of_normalizeLine houtcome.symm
    obtain ⟨hnumber, hoffset, hlength⟩ := le_of_mem_bodyLines (mem_filter.mp hline).1
    obtain ⟨hkeeps, hcontent⟩ := keeps_fromRecord hbase64 (lineRecord line)
    refine ⟨⟨?_, ?_, ?_, hcontent⟩, line, hline, rfl, hkeeps⟩
    · exact hnumber.trans_lt (by omega)
    · exact hoffset.trans (by omega)
    · exact hlength.trans_lt (by omega)

/-- For every body : the payload of each rejected record stands for a front of that record, of at
most the payload limit, complete exactly if it is the record, and as a text a front of its
characters. Every list of entries that fits the limit is encoded, decoded to the documents of the
entries, which have all their fields, and valid. A front of the object with a line feed in it, cut
behind the last one, is decoded to the first documents, and that is what the endpoint reads. -/
theorem deadLetters_readable (hbase64 : Base64.Faithful) (hstrings : SerdeJson.WritesStrings)
    (hreads : SerdeDocument.Reads) (huuid : UuidCrate.ParsesTexts) :
    (∀ (metadata : BatchMetadata) (body : Bytes) (source : Source) (batch : NormalizedBatch),
      body.length < 2 ^ 63 → normalizeRecords metadata body source = .ok batch →
      ∀ entry ∈ batch.deadLetters, entry.Representable ∧
        ∃ line ∈ recordLines body, entry.location = lineLocation line ∧
          entry.payload.Keeps (lineRecord line)) ∧
    Function.Injective DeadLetterDocumentEntry.fromEntry ∧
    ∀ (entries : List DeadLetterEntry) (maximumBytes : Nat), entries ≠ [] →
      (∀ entry ∈ entries, entry.Representable) → maximumBytes < 2 ^ 64 →
      documentsBytes entries ≤ maximumBytes →
      ∃ object, encodeDeadLetters entries maximumBytes = .ok object ∧
        decodeDeadLetters object = .ok (entries.map .fromEntry) ∧
        (∀ entry ∈ entries, (DeadLetterDocumentEntry.fromEntry entry).validate = true) ∧
        (∀ length ≥ object.length,
          readDeadLetter length object = some (entries.map .fromEntry, .complete)) ∧
        ∀ length, 0x0A ∈ object.take length → ∃ count bytes, 0 < count ∧
          count ≤ entries.length ∧ cutBehindLast 0x0A (object.take length) = some bytes ∧
          decodeDeadLetters bytes = .ok ((entries.take count).map .fromEntry) ∧
          (length < object.length →
            readDeadLetter length object =
              some ((entries.take count).map .fromEntry, .truncated)) := by
  refine ⟨fun _ _ _ _ hbody h _ hentry => keeps_of_mem_deadLetters hbase64 hbody h hentry,
    DeadLetterDocumentEntry.fromEntry_injective,
    fun entries maximumBytes hne hentries hmaximum hfits => ?_⟩
  have hobject : (entries.flatMap fun entry => encodeDocument entry ++ [0x0A]) =
      terminate 0x0A (entries.map encodeDocument) := by
    rw [terminate, flatMap_map]
  have hwhole := decodeDeadLetters_terminate hstrings hreads huuid hne hentries
  refine ⟨terminate 0x0A (entries.map encodeDocument), ?_, hwhole,
    fun entry _ => validate_fromEntry huuid entry, fun length hlength => ?_, fun length hmem => ?_⟩
  · rw [encodeDeadLetters_eq hne hmaximum, if_pos hfits, hobject]
  · rw [readDeadLetter, if_pos hlength, hwhole]
    rfl
  have hlines : ∀ document ∈ entries.map encodeDocument, (0x0A : UInt8) ∉ document := by
    intro document hdocument
    obtain ⟨entry, hentry, rfl⟩ := mem_map.mp hdocument
    exact not_mem_encodeDocument hstrings (hentries entry hentry)
  obtain ⟨count, rest, hpos, hle, hrest, htake⟩ := exists_take_terminate hlines hmem
  rw [length_map] at hle
  have hfirst : entries.take count ≠ [] := by
    rw [ne_eq, take_eq_nil_iff, not_or]
    exact ⟨Nat.ne_of_gt hpos, hne⟩
  have hcut : cutBehindLast 0x0A ((terminate 0x0A (entries.map encodeDocument)).take length) =
      some (terminate 0x0A ((entries.take count).map encodeDocument)) := by
    have hdocuments : (entries.take count).map encodeDocument ≠ [] := by simpa using hfirst
    rw [htake, ← map_take, terminate_eq_intercalate hdocuments, append_assoc,
      singleton_append, cutBehindLast_append hrest]
  have hdecode := decodeDeadLetters_terminate hstrings hreads huuid hfirst fun entry hentry =>
    hentries entry (mem_of_mem_take hentry)
  refine ⟨count, _, hpos, hle, hcut, hdecode, fun hlength => ?_⟩
  rw [readDeadLetter, if_neg (Nat.not_le.mpr hlength), hcut]
  simp only [Option.bind_eq_bind, Option.bind_some, hdecode]
  rfl

end Main

/-! ## A record that is rejected -/

section Sample

/-- An encoding with two characters for each byte. -/
@[reducible] def Base64.hexadecimal : Base64 := ⟨hexText⟩

open Classical in
/-- The decoder of the texts that are encodings. -/
@[reducible] noncomputable def Base64Decoder.hexadecimal : Base64Decoder where
  decode text := if h : ∃ bytes, hexText bytes = text then some h.choose else none

attribute [local instance] Chrono.unbounded ChronoText.silent FloatText.silent Blake3.constant
  Base64.hexadecimal Base64Decoder.hexadecimal SerdeJson.escaping SerdeDocument.strict
  UuidCrate.hyphenated

theorem Base64.faithful_hexadecimal : Base64.Faithful where
  decode_encode bytes := by
    have hexists : ∃ other, hexText other = hexText bytes := ⟨bytes, rfl⟩
    exact (dif_pos hexists).trans (congrArg some (hexText_injective hexists.choose_spec))
  ascii bytes byte hbyte := by
    obtain ⟨value, rfl⟩ := mem_hexText hbyte
    exact hexDigit_le value

/-- The entry of a line that is no object. -/
def rejectedLine : DeadLetterEntry :=
  .new (BatchMetadata.sample 9).batchId ⟨1, 0⟩ .parseFailed [0x78] 1

theorem documentsBytes_rejectedLine :
    documentsBytes [rejectedLine, rejectedLine] ≤ 1000 ∧
      (0x0A : UInt8) ∈ ([rejectedLine, rejectedLine].flatMap fun entry =>
        encodeDocument entry ++ [0x0A]).take 500 ∧
      500 < ([rejectedLine, rejectedLine].flatMap fun entry =>
        encodeDocument entry ++ [0x0A]).length := by
  decide +kernel

/-- The line is kept, and two entries are read back from their object. Half of it has the first. -/
theorem deadLetters_readable_rejectedLine :
    ∃ batch, normalizeRecords (BatchMetadata.sample 9) [0x78] Source.sample = .ok batch ∧
      batch.deadLetters = [rejectedLine] ∧ rejectedLine.payload.Keeps [0x78] ∧
      ∃ object, encodeDeadLetters [rejectedLine, rejectedLine] 1000 = .ok object ∧
        decodeDeadLetters object = .ok [.fromEntry rejectedLine, .fromEntry rejectedLine] ∧
        ∃ count, 0 < count ∧ readDeadLetter 500 object =
          some (([rejectedLine, rejectedLine].take count).map .fromEntry, .truncated) := by
  obtain ⟨hrecords, -, hobjects⟩ := deadLetters_readable Base64.faithful_hexadecimal
    SerdeJson.writesStrings_escaping SerdeDocument.reads_strict UuidCrate.parsesTexts_hyphenated
  obtain ⟨hbytes, hfeed, hlong⟩ := documentsBytes_rejectedLine
  obtain ⟨hentry, line, hline, -, hkeeps⟩ := hrecords (BatchMetadata.sample 9) [0x78]
    Source.sample _ (by decide) rfl rejectedLine mem_cons_self
  obtain rfl : line = ⟨1, 0, [0x78], false⟩ := mem_singleton.mp hline
  obtain ⟨object, hencode, hdecode, -, -, hcut⟩ := hobjects [rejectedLine, rejectedLine] 1000
    (cons_ne_nil _ _) (by simpa using hentry) (by decide) hbytes
  have hobject : object = [rejectedLine, rejectedLine].flatMap fun entry =>
      encodeDocument entry ++ [0x0A] := by
    rw [encodeDeadLetters_eq (cons_ne_nil _ _) (by decide), if_pos hbytes] at hencode
    exact (Except.ok.inj hencode).symm
  obtain ⟨count, _, hpos, -, -, -, hread⟩ := hcut 500 (hobject ▸ hfeed)
  exact ⟨_, rfl, rfl, hkeeps, object, hencode, hdecode, count, hpos, hread (hobject ▸ hlong)⟩

end Sample

end Elucid
