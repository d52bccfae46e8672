import Elucid.SpoolModel

/-!
# Spool frames

One appended batch is one frame of the data file : a header of 148 bytes, the body and
a footer of 48 bytes. `PreparedFrame.new` lays the header and the footer out,
`decodeHeader` reads a whole header, `validateIncompleteHeader` checks what is left of
one at the end of the file, and `validateDigestsAndFooter` compares the digests and the
commit mark.

`decodeHeader_frameHeader` reads back what was written, `validateIncompleteHeader_take`
accepts a header cut at any byte, and `validateDigestsAndFooter_frame` accepts the
footer that belongs to the header and the body.
-/

namespace Elucid

open BigEndian

variable {bodyLimit : AppendBodyLimit}

/-! ## Reading fields -/

def readArray (size : Nat) (bytes : Bytes) (offset : Nat) : Except SpoolError Bytes := do
  let _ ← okOr (checkedAdd offset size) (.invariant "fixed-size spool field offset overflow")
  okOr (slice bytes offset size) (.invariant "fixed-size spool field is truncated")

def readU16 (bytes : Bytes) (offset : Nat) : Except SpoolError Nat := do
  return decode (← readArray 2 bytes offset)

def readU64 (bytes : Bytes) (offset : Nat) : Except SpoolError Nat := do
  return decode (← readArray 8 bytes offset)

def readI64 (bytes : Bytes) (offset : Nat) : Except SpoolError Int := do
  return decodeInt (← readArray 8 bytes offset)

theorem length_of_readArray {size offset : Nat} {bytes field : Bytes}
    (h : readArray size bytes offset = .ok field) : field.length = size := by
  obtain ⟨_, -, h⟩ := bind_eq_ok.mp h
  exact length_of_slice (okOr_eq_ok h)

def readUuid (bytes : Bytes) (offset : Nat) : Except SpoolError Uuid :=
  match h : readArray 16 bytes offset with
  | .ok field => .ok ⟨field, length_of_readArray h⟩
  | .error e => .error e

/-- `BodyDigest::from_bytes(read_array(..)?)`. -/
def readDigest (bytes : Bytes) (offset : Nat) : Except SpoolError Digest :=
  match h : readArray 32 bytes offset with
  | .ok field => .ok ⟨field, length_of_readArray h⟩
  | .error e => .error e

section ReadLemmas

variable {bytes field : Bytes} {offset size : Nat}

/-- A field is read where its bytes are. -/
theorem readArray_of_slice (hoff : offset + size < 2 ^ 64)
    (h : slice bytes offset size = some field) : readArray size bytes offset = .ok field := by
  rw [readArray, checkedAdd_of_lt hoff, okOr_some, ok_bind, h, okOr_some]

theorem readU16_of_slice {n : Nat} (hoff : offset + 2 < 2 ^ 64) (hn : n < 2 ^ 16)
    (h : slice bytes offset 2 = some (encode 2 n)) : readU16 bytes offset = .ok n := by
  rw [readU16, readArray_of_slice hoff h, ok_bind, decode_encode (by omega)]
  rfl

theorem readU64_of_slice {n : Nat} (hoff : offset + 8 < 2 ^ 64) (hn : n < 2 ^ 64)
    (h : slice bytes offset 8 = some (encode 8 n)) : readU64 bytes offset = .ok n := by
  rw [readU64, readArray_of_slice hoff h, ok_bind, decode_encode (by omega)]
  rfl

theorem readI64_of_slice {i : Int} (hoff : offset + 8 < 2 ^ 64) (hi : -2 ^ 63 ≤ i ∧ i < 2 ^ 63)
    (h : slice bytes offset 8 = some (encodeInt 8 i)) : readI64 bytes offset = .ok i := by
  rw [readI64, readArray_of_slice hoff h, ok_bind, decodeInt_encodeInt (by omega) (by omega)]
  rfl

theorem readUuid_of_slice {uuid : Uuid} (hoff : offset + 16 < 2 ^ 64)
    (h : slice bytes offset 16 = some uuid.bytes) : readUuid bytes offset = .ok uuid := by
  have hread := readArray_of_slice hoff h
  unfold readUuid
  split
  · rename_i field' h'
    obtain rfl : uuid.bytes = field' := Except.ok.inj (hread.symm.trans h')
    rfl
  · rename_i h'
    rw [hread] at h'
    cases h'

theorem readDigest_of_slice {digest : Digest} (hoff : offset + 32 < 2 ^ 64)
    (h : slice bytes offset 32 = some digest.bytes) : readDigest bytes offset = .ok digest := by
  have hread := readArray_of_slice hoff h
  unfold readDigest
  split
  · rename_i field' h'
    obtain rfl : digest.bytes = field' := Except.ok.inj (hread.symm.trans h')
    rfl
  · rename_i h'
    rw [hread] at h'
    cases h'

end ReadLemmas

variable [Chrono]

/-! ## Layout -/

/-- `FRAME_MAGIC`, the text `ELUCSP01`. -/
def frameMagic : Bytes := [0x45, 0x4c, 0x55, 0x43, 0x53, 0x50, 0x30, 0x31]

/-- `COMMIT_MAGIC`, the text `ELUCCM01`. -/
def commitMagic : Bytes := [0x45, 0x4c, 0x55, 0x43, 0x43, 0x4d, 0x30, 0x31]

def formatVersion : Nat := 1

def headerBytes : Nat := 148

def footerBytes : Nat := 48

def frameOverheadBytes : Nat := headerBytes + footerBytes

/-- The fields of a header, in the order they are written. -/
def headerFields (metadata : BatchMetadata) (storedLength bodyLength : Nat)
    (bodyDigest : Digest) : List Bytes :=
  [frameMagic,
    encode 2 formatVersion,
    encode 2 headerBytes,
    encode 8 storedLength,
    encode 8 bodyLength,
    metadata.batchId.uuid.bytes,
    metadata.catalog.sourceId.uuid.bytes,
    metadata.catalog.inputId.uuid.bytes,
    metadata.catalog.profileRevisionId.uuid.bytes,
    metadata.catalog.targetSchemaId.uuid.bytes,
    encodeInt 8 metadata.ingestionTime.unixMilliseconds,
    bodyDigest.bytes]

/-- The header as it is written. -/
def encodeHeader (metadata : BatchMetadata) (storedLength bodyLength : Nat) (bodyDigest : Digest) :
    Bytes :=
  (headerFields metadata storedLength bodyLength bodyDigest).flatten

/-- The widths of the header's fields. -/
def headerWidths : List Nat := [8, 2, 2, 8, 8, 16, 16, 16, 16, 16, 8, 32]

/-- The fields of a footer, in the order they are written. -/
def footerFields (frameDigest : Digest) (storedLength : Nat) : List Bytes :=
  [frameDigest.bytes, commitMagic, encode 8 storedLength]

/-- The footer as it is written. -/
def encodeFooter (frameDigest : Digest) (storedLength : Nat) : Bytes :=
  (footerFields frameDigest storedLength).flatten

structure PreparedFrame where
  header : Bytes
  footer : Bytes
  bodyBytes : Nat
  bodyDigest : Digest
  storedBytes : Nat

/-- `PreparedFrame::new`. -/
def PreparedFrame.new [Blake3] (metadata : BatchMetadata) (body : Bytes) :
    Except SpoolError PreparedFrame := do
  ensure (body.length < 2 ^ 64) (.invariant "batch body length exceeds u64")
  let storedLength ← okOr (checkedAdd body.length frameOverheadBytes)
    (.invariant "spool frame length overflow")
  let bodyDigest := Blake3.hash body
  let header := encodeHeader metadata storedLength body.length bodyDigest
  ensure (header.length = headerBytes) (.invariant "spool frame header size mismatch")
  let frameDigest := ((Hasher.new.update header).update body).finalize
  let footer := encodeFooter frameDigest storedLength
  ensure (footer.length = footerBytes) (.invariant "spool frame footer size mismatch")
  return { header, footer, bodyBytes := body.length, bodyDigest, storedBytes := storedLength }

section Layout

variable (metadata : BatchMetadata) (storedLength bodyLength : Nat) (bodyDigest : Digest)

/-- The widths of the fields. -/
theorem length_headerFields :
    (headerFields metadata storedLength bodyLength bodyDigest).map List.length = headerWidths := by
  simp [headerFields, headerWidths, frameMagic, Uuid.length_bytes, Digest.length_bytes]

/-- The fields of a header are 148 bytes. -/
theorem length_encodeHeader : (encodeHeader metadata storedLength bodyLength bodyDigest).length = 148 := by
  rw [encodeHeader, List.length_flatten, length_headerFields]
  rfl

/-- The `i`-th field of a header is read at the sum of the widths before it. -/
theorem slice_encodeHeader (i : Nat) {w : Nat} {field : Bytes}
    (hf : (headerFields metadata storedLength bodyLength bodyDigest)[i]? = some field)
    (hw : headerWidths[i]? = some w) :
    slice (encodeHeader metadata storedLength bodyLength bodyDigest) (headerWidths.take i).sum w =
      some field :=
  slice_flatten (length_headerFields metadata storedLength bodyLength bodyDigest) hf hw

end Layout

omit [Chrono] in
/-- The fields of a footer are 48 bytes. -/
theorem length_encodeFooter (frameDigest : Digest) (storedLength : Nat) :
    (encodeFooter frameDigest storedLength).length = 48 := by
  simp [encodeFooter, footerFields, commitMagic, Digest.length_bytes]

/-! ## Decoding -/

structure DecodedHeader where
  raw : Bytes
  metadata : BatchMetadata
  bodyBytes : Nat
  bodyDigest : Digest
  storedBytes : Nat

/-- `validate_lengths`. -/
def validateLengths (storedBytes bodyBytes : Nat) (bodyLimit : AppendBodyLimit) :
    Except SpoolError Unit := do
  ensure (bodyBytes ≤ bodyLimit.get)
    (.corrupt "spool frame body exceeds the configured recovery bound")
  let expectedStoredBytes ← okOr (checkedAdd bodyBytes frameOverheadBytes)
    (.corrupt "spool frame length overflows u64")
  ensure (storedBytes = expectedStoredBytes) (.corrupt "spool frame lengths are inconsistent")

/-- `decode_header`, on the `HEADER_BYTES` bytes of `raw`. -/
def decodeHeader (raw : Bytes) (bodyLimit : AppendBodyLimit) :
    Except SpoolError DecodedHeader := do
  ensure (raw.take 8 = frameMagic) (.corrupt "spool frame magic is invalid")
  ensure ((← readU16 raw 8) = formatVersion) (.corrupt "spool frame version is unsupported")
  ensure ((← readU16 raw 10) = headerBytes) (.corrupt "spool frame header length is invalid")
  let storedBytes ← readU64 raw 12
  let bodyLength ← readU64 raw 20
  validateLengths storedBytes bodyLength bodyLimit
  let batchId ← okOr (UuidV7.tryFrom (← readUuid raw 28))
    (.corrupt "spool batch identity is not UUIDv7")
  let sourceId ← okOr (UuidV7.tryFrom (← readUuid raw 44))
    (.corrupt "spool source identity is not UUIDv7")
  let inputId ← okOr (UuidV7.tryFrom (← readUuid raw 60))
    (.corrupt "spool input identity is not UUIDv7")
  let profileRevisionId ← okOr (UuidV7.tryFrom (← readUuid raw 76))
    (.corrupt "spool profile identity is not UUIDv7")
  let targetSchemaId ← okOr (UuidV7.tryFrom (← readUuid raw 92))
    (.corrupt "spool schema identity is not UUIDv7")
  let ingestionTime ← okOr (IngestionTime.fromUnixMilliseconds (← readI64 raw 108))
    (.corrupt "spool ingestion time is outside the UTC range")
  let bodyDigest ← readDigest raw 116
  return {
    raw
    metadata := {
      batchId
      catalog := { sourceId, inputId, profileRevisionId, targetSchemaId }
      ingestionTime }
    bodyBytes := bodyLength
    bodyDigest
    storedBytes }

/-- The check of one identity of an incomplete header : `offset` and the message are its own. -/
def validateIncompleteIdentity (incomplete : Bytes) (offset : Nat) (message : String) :
    Except SpoolError Unit :=
  whenever (offset + 16 ≤ incomplete.length) do
    let _ ← okOr (UuidV7.tryFrom (← readUuid incomplete offset)) (SpoolError.corrupt message)

/-- `validate_incomplete_header`, on what the file has of a header. -/
def validateIncompleteHeader (incomplete : Bytes) (bodyLimit : AppendBodyLimit) :
    Except SpoolError Unit := do
  let magicBytes := min incomplete.length frameMagic.length
  ensure (incomplete.take magicBytes = frameMagic.take magicBytes)
    (.corrupt "incomplete spool tail is not a frame prefix")
  whenever (10 ≤ incomplete.length) do
    ensure ((← readU16 incomplete 8) = formatVersion)
      (SpoolError.corrupt "incomplete spool tail has an unsupported version")
  whenever (12 ≤ incomplete.length) do
    ensure ((← readU16 incomplete 10) = headerBytes)
      (SpoolError.corrupt "incomplete spool tail has invalid framing")
  whenever (28 ≤ incomplete.length) do
    validateLengths (← readU64 incomplete 12) (← readU64 incomplete 20) bodyLimit
  validateIncompleteIdentity incomplete 28 "incomplete tail batch identity is not UUIDv7"
  validateIncompleteIdentity incomplete 44 "incomplete tail source identity is not UUIDv7"
  validateIncompleteIdentity incomplete 60 "incomplete tail input identity is not UUIDv7"
  validateIncompleteIdentity incomplete 76 "incomplete tail profile identity is not UUIDv7"
  validateIncompleteIdentity incomplete 92 "incomplete tail schema identity is not UUIDv7"
  whenever (116 ≤ incomplete.length) do
    let _ ← okOr (IngestionTime.fromUnixMilliseconds (← readI64 incomplete 108))
      (SpoolError.corrupt "incomplete tail ingestion time is outside the UTC range")

/-- `validate_digests_and_footer`, on the `FOOTER_BYTES` bytes of `footer`. -/
def validateDigestsAndFooter (header : DecodedHeader)
    (calculatedBodyDigest calculatedFrameDigest : Digest) (footer : Bytes) :
    Except SpoolError Unit := do
  ensure (header.bodyDigest.bytes = calculatedBodyDigest.bytes)
    (.corrupt "spool body digest does not match")
  ensure (footer.take 32 = calculatedFrameDigest.bytes)
    (.corrupt "spool frame digest does not match")
  ensure ((footer.drop 32).take 8 = commitMagic) (.corrupt "spool commit footer is invalid")
  ensure ((← readU64 footer 40) = header.storedBytes)
    (.corrupt "spool footer length does not match")

def reservedFrameBytes (limit : AppendBodyLimit) : Except SpoolError Nat :=
  okOr (checkedAdd limit.get frameOverheadBytes) (.invariant "spool reservation size overflow")

/-! ## Reading back a written header -/

section ReadBack

variable (metadata : BatchMetadata) {storedLength bodyLength : Nat} (bodyDigest : Digest) {k : Nat}

theorem take_encodeHeader :
    (encodeHeader metadata storedLength bodyLength bodyDigest).take 148 =
      encodeHeader metadata storedLength bodyLength bodyDigest :=
  List.take_of_length_le (length_encodeHeader ..).le

/-- A field inside the first `k` bytes of a header is read from those bytes. -/
theorem slice_take_encodeHeader (i : Nat) {off w : Nat} {field : Bytes}
    (hf : (headerFields metadata storedLength bodyLength bodyDigest)[i]? = some field)
    (hw : headerWidths[i]? = some w) (hoff : (headerWidths.take i).sum = off) (hk : off + w ≤ k) :
    slice ((encodeHeader metadata storedLength bodyLength bodyDigest).take k) off w =
      some field := by
  rw [slice_take _ hk, ← hoff]
  exact slice_encodeHeader metadata storedLength bodyLength bodyDigest i hf hw

theorem take_magic_encodeHeader :
    (encodeHeader metadata storedLength bodyLength bodyDigest).take 8 = frameMagic := rfl

theorem readU16_version (hk : 10 ≤ k) :
    readU16 ((encodeHeader metadata storedLength bodyLength bodyDigest).take k) 8 =
      .ok formatVersion :=
  readU16_of_slice (by decide) (by decide)
    (slice_take_encodeHeader metadata bodyDigest 1 rfl rfl rfl hk)

theorem readU16_headerBytes (hk : 12 ≤ k) :
    readU16 ((encodeHeader metadata storedLength bodyLength bodyDigest).take k) 10 =
      .ok headerBytes :=
  readU16_of_slice (by decide) (by decide)
    (slice_take_encodeHeader metadata bodyDigest 2 rfl rfl rfl hk)

theorem readU64_storedLength (hs : storedLength < 2 ^ 64) (hk : 20 ≤ k) :
    readU64 ((encodeHeader metadata storedLength bodyLength bodyDigest).take k) 12 =
      .ok storedLength :=
  readU64_of_slice (by decide) hs
    (slice_take_encodeHeader metadata bodyDigest 3 rfl rfl rfl hk)

theorem readU64_bodyLength (hb : bodyLength < 2 ^ 64) (hk : 28 ≤ k) :
    readU64 ((encodeHeader metadata storedLength bodyLength bodyDigest).take k) 20 =
      .ok bodyLength :=
  readU64_of_slice (by decide) hb
    (slice_take_encodeHeader metadata bodyDigest 4 rfl rfl rfl hk)

/-- The identities are the fields five to nine. -/
theorem readUuid_identity (i off : Nat) (id : UuidV7)
    (hf : (headerFields metadata storedLength bodyLength bodyDigest)[i]? = some id.uuid.bytes)
    (hw : headerWidths[i]? = some 16) (hoff : (headerWidths.take i).sum = off)
    (hlt : off < 148) (hk : off + 16 ≤ k) :
    readUuid ((encodeHeader metadata storedLength bodyLength bodyDigest).take k) off =
      .ok id.uuid :=
  readUuid_of_slice (by omega) (slice_take_encodeHeader metadata bodyDigest i hf hw hoff hk)

theorem readI64_ingestionTime (hk : 116 ≤ k) :
    readI64 ((encodeHeader metadata storedLength bodyLength bodyDigest).take k) 108 =
      .ok metadata.ingestionTime.unixMilliseconds :=
  readI64_of_slice (by decide) metadata.ingestionTime.inI64
    (slice_take_encodeHeader metadata bodyDigest 10 rfl rfl rfl hk)

theorem readDigest_bodyDigest (hk : 148 ≤ k) :
    readDigest ((encodeHeader metadata storedLength bodyLength bodyDigest).take k) 116 =
      .ok bodyDigest :=
  readDigest_of_slice (by decide)
    (slice_take_encodeHeader metadata bodyDigest 11 rfl rfl rfl hk)

omit [Chrono] in
/-- Lengths that agree are accepted. -/
theorem validateLengths_of (hs : storedLength = bodyLength + 196) (hlt : storedLength < 2 ^ 64)
    (hb : bodyLength ≤ bodyLimit.get) :
    validateLengths storedLength bodyLength bodyLimit = .ok () := by
  have hadd : checkedAdd bodyLength frameOverheadBytes = some storedLength := by
    rw [hs] at hlt ⊢
    exact checkedAdd_of_lt hlt
  rw [validateLengths, ensure_of hb, ok_bind, hadd, okOr_some, ok_bind, ensure_of rfl]

/-- A written header decodes to what it was written from. -/
theorem decodeHeader_encodeHeader (hs : storedLength = bodyLength + 196)
    (hlt : storedLength < 2 ^ 64) (hb : bodyLength ≤ bodyLimit.get) :
    decodeHeader (encodeHeader metadata storedLength bodyLength bodyDigest) bodyLimit =
      .ok ⟨encodeHeader metadata storedLength bodyLength bodyDigest, metadata, bodyLength,
        bodyDigest, storedLength⟩ := by
  have hlengths := validateLengths_of hs hlt hb
  rw [← take_encodeHeader metadata bodyDigest]
  have hmagic : ((encodeHeader metadata storedLength bodyLength bodyDigest).take 148).take 8 =
    frameMagic := rfl
  rw [decodeHeader, ensure_of hmagic, ok_bind,
    readU16_version metadata bodyDigest (by decide), ok_bind, ensure_of rfl, ok_bind,
    readU16_headerBytes metadata bodyDigest (by decide), ok_bind, ensure_of rfl, ok_bind,
    readU64_storedLength metadata bodyDigest hlt (by decide), ok_bind,
    readU64_bodyLength metadata bodyDigest (by omega) (by decide), ok_bind, hlengths, ok_bind]
  rw [readUuid_identity metadata bodyDigest 5 28 metadata.batchId rfl rfl rfl
      (by decide) (by decide),
    readUuid_identity metadata bodyDigest 6 44 metadata.catalog.sourceId rfl rfl rfl
      (by decide) (by decide),
    readUuid_identity metadata bodyDigest 7 60 metadata.catalog.inputId rfl rfl rfl
      (by decide) (by decide),
    readUuid_identity metadata bodyDigest 8 76 metadata.catalog.profileRevisionId rfl rfl rfl
      (by decide) (by decide),
    readUuid_identity metadata bodyDigest 9 92 metadata.catalog.targetSchemaId rfl rfl rfl
      (by decide) (by decide),
    readI64_ingestionTime metadata bodyDigest (by decide),
    readDigest_bodyDigest metadata bodyDigest (by decide)]
  simp only [ok_bind, UuidV7.tryFrom_uuid, IngestionTime.fromUnixMilliseconds_self, okOr_some]
  rfl

/-- What is there of an identity passes its check. -/
theorem validateIncompleteIdentity_take (i off : Nat) (id : UuidV7) (message : String)
    (hf : (headerFields metadata storedLength bodyLength bodyDigest)[i]? = some id.uuid.bytes)
    (hw : headerWidths[i]? = some 16) (hoff : (headerWidths.take i).sum = off) (hlt : off < 148) :
    validateIncompleteIdentity
      ((encodeHeader metadata storedLength bodyLength bodyDigest).take k) off message = .ok () := by
  refine whenever_ok fun h => ?_
  have hk : off + 16 ≤ k := h.trans (List.length_take_le k _)
  rw [readUuid_identity metadata bodyDigest i off id hf hw hoff hlt hk, ok_bind,
    UuidV7.tryFrom_uuid, okOr_some]
  rfl

/-- What is left of a written header cut at any byte is accepted. -/
theorem validateIncompleteHeader_take (hs : storedLength = bodyLength + 196)
    (hlt : storedLength < 2 ^ 64) (hb : bodyLength ≤ bodyLimit.get) (k : Nat) :
    validateIncompleteHeader ((encodeHeader metadata storedLength bodyLength bodyDigest).take k)
      bodyLimit = .ok () := by
  have hlen : ∀ {n}, n ≤ ((encodeHeader metadata storedLength bodyLength bodyDigest).take
      k).length → n ≤ k := fun h => h.trans (List.length_take_le k _)
  unfold validateIncompleteHeader
  refine then_ok (ensure_of ?_) <| then_ok (whenever_ok fun h => ?_) <|
    then_ok (whenever_ok fun h => ?_) <| then_ok (whenever_ok fun h => ?_) <|
    then_ok (validateIncompleteIdentity_take metadata bodyDigest 5 28 metadata.batchId _
      rfl rfl rfl (by decide)) <|
    then_ok (validateIncompleteIdentity_take metadata bodyDigest 6 44 metadata.catalog.sourceId _
      rfl rfl rfl (by decide)) <|
    then_ok (validateIncompleteIdentity_take metadata bodyDigest 7 60 metadata.catalog.inputId _
      rfl rfl rfl (by decide)) <|
    then_ok (validateIncompleteIdentity_take metadata bodyDigest 8 76
      metadata.catalog.profileRevisionId _ rfl rfl rfl (by decide)) <|
    then_ok (validateIncompleteIdentity_take metadata bodyDigest 9 92
      metadata.catalog.targetSchemaId _ rfl rfl rfl (by decide)) (whenever_ok fun h => ?_)
  · rw [List.take_take, ← take_magic_encodeHeader metadata bodyDigest, List.take_take]
    congr 1
    simp only [List.length_take, length_encodeHeader]
    omega
  · rw [readU16_version metadata bodyDigest (hlen h), ok_bind, ensure_of rfl]
  · rw [readU16_headerBytes metadata bodyDigest (hlen h), ok_bind, ensure_of rfl]
  · rw [readU64_storedLength metadata bodyDigest hlt ((by decide : 20 ≤ 28).trans (hlen h)),
      ok_bind, readU64_bodyLength metadata bodyDigest (by omega) (hlen h), ok_bind,
      validateLengths_of hs hlt hb]
  · rw [readI64_ingestionTime metadata bodyDigest (hlen h), ok_bind,
      IngestionTime.fromUnixMilliseconds_self, okOr_some]
    rfl

end ReadBack

/-! ## Whole frames -/

omit [Chrono] in
/-- Only lengths that agree are accepted. -/
theorem validateLengths_eq_ok {storedBytes bodyBytes : Nat} {u : Unit}
    (h : validateLengths storedBytes bodyBytes bodyLimit = .ok u) :
    storedBytes = bodyBytes + 196 ∧ storedBytes < 2 ^ 64 ∧ bodyBytes ≤ bodyLimit.get := by
  obtain ⟨_, hb, h⟩ := bind_eq_ok.mp h
  obtain ⟨expected, hadd, h⟩ := bind_eq_ok.mp h
  obtain ⟨rfl, hlt⟩ := checkedAdd_eq_some (okOr_eq_ok hadd)
  have hs : storedBytes = bodyBytes + 196 := ensure_eq_ok.mp h
  exact ⟨hs, hs ▸ hlt, ensure_eq_ok.mp hb⟩

/-- The lengths of a decoded header agree. -/
theorem lengths_of_decodeHeader {raw : Bytes} {header : DecodedHeader}
    (h : decodeHeader raw bodyLimit = .ok header) :
    header.storedBytes = header.bodyBytes + 196 := by
  iterate 5 obtain ⟨_, -, h⟩ := bind_eq_ok.mp h
  obtain ⟨storedBytes, -, h⟩ := bind_eq_ok.mp h
  obtain ⟨bodyLength, -, h⟩ := bind_eq_ok.mp h
  obtain ⟨_, hlengths, h⟩ := bind_eq_ok.mp h
  iterate 13 obtain ⟨_, -, h⟩ := bind_eq_ok.mp h
  cases h
  exact (validateLengths_eq_ok hlengths).1

variable [Blake3] (metadata : BatchMetadata) (body : Bytes)

/-- The length of a stored frame. -/
def storedLength (body : Bytes) : Nat := body.length + frameOverheadBytes

/-- The header written before `body`. -/
def frameHeader : Bytes :=
  encodeHeader metadata (storedLength body) body.length (Blake3.hash body)

/-- The footer written behind `body`. -/
def frameFooter : Bytes :=
  encodeFooter (Blake3.hash (frameHeader metadata body ++ body)) (storedLength body)

/-- The bytes one append writes. -/
def frame : Bytes := frameHeader metadata body ++ (body ++ frameFooter metadata body)

omit [Chrono] [Blake3] in
theorem storedLength_eq : storedLength body = body.length + 196 := rfl

theorem length_frameHeader : (frameHeader metadata body).length = headerBytes :=
  length_encodeHeader ..

theorem length_frameFooter : (frameFooter metadata body).length = footerBytes :=
  length_encodeFooter ..

/-- A frame is as long as its header says. -/
theorem length_frame : (frame metadata body).length = storedLength body := by
  simp only [frame, List.length_append, length_frameHeader, length_frameFooter, storedLength,
    frameOverheadBytes]
  omega

/-- `PreparedFrame::new` fails only if the length of the frame overflows `u64`. -/
theorem PreparedFrame.new_eq_ok {prepared : PreparedFrame} :
    PreparedFrame.new metadata body = .ok prepared ↔
      storedLength body < 2 ^ 64 ∧
        prepared = ⟨frameHeader metadata body, frameFooter metadata body, body.length,
          Blake3.hash body, storedLength body⟩ := by
  constructor
  · intro h
    obtain ⟨_, -, h⟩ := bind_eq_ok.mp h
    obtain ⟨stored, hadd, h⟩ := bind_eq_ok.mp h
    obtain ⟨rfl, hlt⟩ := checkedAdd_eq_some (okOr_eq_ok hadd)
    obtain ⟨_, -, h⟩ := bind_eq_ok.mp h
    obtain ⟨_, -, h⟩ := bind_eq_ok.mp h
    exact ⟨hlt, (Except.ok.inj h).symm⟩
  · rintro ⟨hlt, rfl⟩
    have hbody : body.length < 2 ^ 64 := by
      rw [storedLength_eq] at hlt
      omega
    have hadd : checkedAdd body.length frameOverheadBytes = some (storedLength body) :=
      checkedAdd_of_lt hlt
    have hheader : (encodeHeader metadata (storedLength body) body.length
        (Blake3.hash body)).length = headerBytes := length_encodeHeader ..
    rw [PreparedFrame.new, ensure_of hbody, ok_bind, hadd, okOr_some, ok_bind]
    simp only [ensure_of hheader, ok_bind]
    rw [ensure_of (show _ = footerBytes from length_encodeFooter ..), ok_bind]
    rfl

/-- A header cut at any byte is accepted as an incomplete tail. -/
theorem validateIncompleteHeader_frameHeader (hlt : storedLength body < 2 ^ 64)
    (hb : body.length ≤ bodyLimit.get) (k : Nat) :
    validateIncompleteHeader ((frameHeader metadata body).take k) bodyLimit = .ok () :=
  validateIncompleteHeader_take metadata _ rfl hlt hb k

/-- What `decodeHeader` returns on the header of a frame. -/
def frameDecoded : DecodedHeader :=
  ⟨frameHeader metadata body, metadata, body.length, Blake3.hash body, storedLength body⟩

@[simp] theorem raw_frameDecoded :
    (frameDecoded metadata body).raw = frameHeader metadata body := rfl

@[simp] theorem metadata_frameDecoded : (frameDecoded metadata body).metadata = metadata := rfl

@[simp] theorem bodyBytes_frameDecoded :
    (frameDecoded metadata body).bodyBytes = body.length := rfl

@[simp] theorem bodyDigest_frameDecoded :
    (frameDecoded metadata body).bodyDigest = Blake3.hash body := rfl

@[simp] theorem storedBytes_frameDecoded :
    (frameDecoded metadata body).storedBytes = storedLength body := rfl

/-- The header of a frame is read back. -/
theorem decodeHeader_frameHeader (hlt : storedLength body < 2 ^ 64)
    (hb : body.length ≤ bodyLimit.get) :
    decodeHeader (frameHeader metadata body) bodyLimit = .ok (frameDecoded metadata body) :=
  decodeHeader_encodeHeader metadata _ rfl hlt hb

/-- The digests and the footer of a written frame are accepted. -/
theorem validateDigestsAndFooter_frame (hlt : storedLength body < 2 ^ 64) :
    validateDigestsAndFooter (frameDecoded metadata body) (Blake3.hash body)
      (Blake3.hash (frameHeader metadata body ++ body)) (frameFooter metadata body) = .ok () := by
  have hdigest := (Blake3.hash (frameHeader metadata body ++ body)).length_bytes
  have hfields : (footerFields (Blake3.hash (frameHeader metadata body ++ body))
      (storedLength body)).map List.length = [32, 8, 8] := by
    simp [footerFields, hdigest, commitMagic]
  have hlength : readU64 (frameFooter metadata body) 40 = .ok (storedLength body) :=
    readU64_of_slice (by decide) hlt (slice_flatten hfields (i := 2) rfl rfl)
  refine then_ok (ensure_of rfl) <| then_ok (ensure_of ?_) <| then_ok (ensure_of ?_) ?_
  · simp [frameFooter, encodeFooter, footerFields, hdigest]
  · simp [frameFooter, encodeFooter, footerFields, hdigest, commitMagic]
  · rw [hlength, ok_bind]
    exact ensure_of rfl

end Elucid
