import Elucid.CutRecovery

/-!
# Frames are canonical

The reader accepts no bytes but those that a writer lays out. Every field of a header is
read by its offset, so the header is the concatenation of what was read
(`eq_encodeHeader_of_decodeHeader`), the footer that passes is the one of the header and
the body (`eq_encodeFooter_of_validate`), and a batch that is read back stands in the file
as its own frame (`readRecoveredBatch_eq_ok`). With `readRecoveredBatch_whole` the format
is a bijection between the batches inside the limit and the frames that are accepted.
-/

namespace Elucid

open BigEndian

/-! ## Fields that were read -/

section Fields

variable {bytes field : Bytes} {offset size : Nat}
variable {uuid : Uuid} {id : UuidV7} {n : Nat}

theorem slice_of_readArray (h : readArray size bytes offset = .ok field) :
    slice bytes offset size = some field := by
  obtain ⟨_, -, h⟩ := bind_eq_ok.mp h
  exact okOr_eq_ok h

theorem slice_of_readU16 (h : readU16 bytes offset = .ok n) :
    slice bytes offset 2 = some (encode 2 n) := by
  obtain ⟨field, hfield, h⟩ := bind_eq_ok.mp h
  cases h
  rw [slice_of_readArray hfield, ← length_of_readArray hfield, encode_decode]

theorem slice_of_readU64 (h : readU64 bytes offset = .ok n) :
    slice bytes offset 8 = some (encode 8 n) := by
  obtain ⟨field, hfield, h⟩ := bind_eq_ok.mp h
  cases h
  rw [slice_of_readArray hfield, ← length_of_readArray hfield, encode_decode]

theorem slice_of_readI64 {i : Int} (h : readI64 bytes offset = .ok i) :
    slice bytes offset 8 = some (encodeInt 8 i) := by
  obtain ⟨field, hfield, h⟩ := bind_eq_ok.mp h
  cases h
  rw [slice_of_readArray hfield, ← length_of_readArray hfield, encodeInt_decodeInt]

theorem slice_of_readUuid (h : readUuid bytes offset = .ok uuid) :
    slice bytes offset 16 = some uuid.bytes := by
  unfold readUuid at h
  split at h
  · rename_i field hfield
    cases h
    exact slice_of_readArray hfield
  · cases h

theorem slice_of_readDigest {digest : Digest} (h : readDigest bytes offset = .ok digest) :
    slice bytes offset 32 = some digest.bytes := by
  unfold readDigest at h
  split at h
  · rename_i field hfield
    cases h
    exact slice_of_readArray hfield
  · cases h

theorem UuidV7.uuid_of_tryFrom (h : UuidV7.tryFrom uuid = some id) :
    id.uuid = uuid := by
  unfold UuidV7.tryFrom at h
  split at h
  · cases h
    rfl
  · cases h

/-- An identity that was read is written back to the same bytes. -/
theorem slice_of_identity {error : SpoolError} (huuid : readUuid bytes offset = .ok uuid)
    (hid : okOr (UuidV7.tryFrom uuid) error = .ok id) :
    slice bytes offset 16 = some id.uuid.bytes := by
  rw [UuidV7.uuid_of_tryFrom (okOr_eq_ok hid)]
  exact slice_of_readUuid huuid

end Fields

section Codec

variable [Chrono]
variable {bodyLimit : AppendBodyLimit} {header : DecodedHeader}
variable {batch : RecoveredBatch} {file : Bytes} {u : Unit}

theorem IngestionTime.unixMilliseconds_of_fromUnixMilliseconds {value : Int} {time : IngestionTime}
    (h : IngestionTime.fromUnixMilliseconds value = some time) : time.unixMilliseconds = value := by
  unfold IngestionTime.fromUnixMilliseconds at h
  split at h
  · cases h
    rfl
  · cases h

/-! ## Headers and footers that were accepted -/

/-- A header that decodes is the one that is written from what it decodes to. -/
theorem eq_encodeHeader_of_decodeHeader {raw : Bytes} (hlength : raw.length = headerBytes)
    (h : decodeHeader raw bodyLimit = .ok header) :
    header.raw = raw ∧
      raw = encodeHeader header.metadata header.storedBytes header.bodyBytes header.bodyDigest ∧
      header.storedBytes = header.bodyBytes + 196 ∧ header.storedBytes < 2 ^ 64 ∧
      header.bodyBytes ≤ bodyLimit.get := by
  obtain ⟨_, hmagic, h⟩ := bind_eq_ok.mp h
  obtain ⟨version, hversion, h⟩ := bind_eq_ok.mp h
  obtain ⟨_, hversionEq, h⟩ := bind_eq_ok.mp h
  obtain ⟨width, hwidth, h⟩ := bind_eq_ok.mp h
  obtain ⟨_, hwidthEq, h⟩ := bind_eq_ok.mp h
  obtain ⟨storedBytes, hstored, h⟩ := bind_eq_ok.mp h
  obtain ⟨bodyLength, hbody, h⟩ := bind_eq_ok.mp h
  obtain ⟨_, hlengths, h⟩ := bind_eq_ok.mp h
  obtain ⟨_, hbatchUuid, h⟩ := bind_eq_ok.mp h
  obtain ⟨batchId, hbatchId, h⟩ := bind_eq_ok.mp h
  obtain ⟨_, hsourceUuid, h⟩ := bind_eq_ok.mp h
  obtain ⟨sourceId, hsourceId, h⟩ := bind_eq_ok.mp h
  obtain ⟨_, hinputUuid, h⟩ := bind_eq_ok.mp h
  obtain ⟨inputId, hinputId, h⟩ := bind_eq_ok.mp h
  obtain ⟨_, hprofileUuid, h⟩ := bind_eq_ok.mp h
  obtain ⟨profileId, hprofileId, h⟩ := bind_eq_ok.mp h
  obtain ⟨_, hschemaUuid, h⟩ := bind_eq_ok.mp h
  obtain ⟨schemaId, hschemaId, h⟩ := bind_eq_ok.mp h
  obtain ⟨_, hmilliseconds, h⟩ := bind_eq_ok.mp h
  obtain ⟨time, htime, h⟩ := bind_eq_ok.mp h
  obtain ⟨digest, hdigest, h⟩ := bind_eq_ok.mp h
  cases h
  obtain rfl := ensure_eq_ok.mp hversionEq
  obtain rfl := ensure_eq_ok.mp hwidthEq
  rw [← IngestionTime.unixMilliseconds_of_fromUnixMilliseconds (okOr_eq_ok htime)]
    at hmilliseconds
  have hend : raw.drop 148 = [] := List.drop_of_length_le hlength.le
  -- every byte of the header belongs to a field that was read
  have hraw : raw = encodeHeader ⟨batchId, ⟨sourceId, inputId, profileId, schemaId⟩, time⟩
      storedBytes bodyLength digest := by
    calc raw = raw.take 8 ++ raw.drop 8 := (List.take_append_drop 8 raw).symm
      _ = _ := by
        rw [ensure_eq_ok.mp hmagic, drop_of_slice (slice_of_readU16 hversion),
          drop_of_slice (slice_of_readU16 hwidth),
          drop_of_slice (slice_of_readU64 hstored),
          drop_of_slice (slice_of_readU64 hbody),
          drop_of_slice (slice_of_identity hbatchUuid hbatchId),
          drop_of_slice (slice_of_identity hsourceUuid hsourceId),
          drop_of_slice (slice_of_identity hinputUuid hinputId),
          drop_of_slice (slice_of_identity hprofileUuid hprofileId),
          drop_of_slice (slice_of_identity hschemaUuid hschemaId),
          drop_of_slice (slice_of_readI64 hmilliseconds),
          drop_of_slice (slice_of_readDigest hdigest),
          hend]
        rfl
  exact ⟨rfl, hraw, validateLengths_eq_ok hlengths⟩

omit [Chrono] in
theorem Digest.eq_of_bytes {a b : Digest} (h : a.bytes = b.bytes) : a = b := by
  cases a
  cases b
  cases h
  rfl

/-- A footer that is accepted is the one that is written from the calculated digest. -/
theorem eq_encodeFooter_of_validate {bodyDigest frameDigest : Digest} {footer : Bytes}
    (hlength : footer.length = footerBytes)
    (h : validateDigestsAndFooter header bodyDigest frameDigest footer = .ok u) :
    header.bodyDigest = bodyDigest ∧ footer = encodeFooter frameDigest header.storedBytes := by
  obtain ⟨_, hbody, h⟩ := bind_eq_ok.mp h
  obtain ⟨_, hframe, h⟩ := bind_eq_ok.mp h
  obtain ⟨_, hcommit, h⟩ := bind_eq_ok.mp h
  obtain ⟨stored, hstored, h⟩ := bind_eq_ok.mp h
  obtain rfl := ensure_eq_ok.mp h
  have hend : footer.drop 48 = [] := List.drop_of_length_le hlength.le
  refine ⟨Digest.eq_of_bytes (ensure_eq_ok.mp hbody), ?_⟩
  calc footer = footer.take 32 ++ ((footer.drop 32).take 8 ++ (footer.drop 32).drop 8) := by
        rw [List.take_append_drop, List.take_append_drop]
    _ = _ := by
        rw [ensure_eq_ok.mp hframe, ensure_eq_ok.mp hcommit, List.drop_drop,
          drop_of_slice (slice_of_readU64 hstored), hend]
        rfl

/-! ## Frames that were accepted -/

variable [Blake3]

/-- The bytes that a frame is written as. -/
theorem PreparedFrame.bytes_of_new {metadata : BatchMetadata} {body : Bytes}
    {prepared : PreparedFrame} (h : PreparedFrame.new metadata body = .ok prepared) :
    prepared.header ++ (body ++ prepared.footer) = frame metadata body := by
  obtain ⟨-, rfl⟩ := (PreparedFrame.new_eq_ok metadata body).mp h
  rfl

/-- A header, a body and a footer that belong together are a frame. -/
theorem frame_of_parts {raw body footer : Bytes} {position : Nat}
    (hraw : slice file position headerBytes = some raw)
    (hheader : decodeHeader raw bodyLimit = .ok header)
    (hbody : slice file (position + headerBytes) header.bodyBytes = some body)
    (hfooter : slice file (position + headerBytes + header.bodyBytes) footerBytes = some footer)
    (hdigests : validateDigestsAndFooter header (Blake3.hash body)
      (Blake3.hash (header.raw ++ body)) footer = .ok u) :
    slice file position (storedLength body) = some (frame header.metadata body) ∧
      header.bodyDigest = Blake3.hash body ∧ header.storedBytes = storedLength body ∧
      storedLength body < 2 ^ 64 ∧ body.length ≤ bodyLimit.get := by
  have hbodyLength := length_of_slice hbody
  obtain ⟨hrawEq, hencoded, hstored, hlt, hlimit⟩ :=
    eq_encodeHeader_of_decodeHeader (length_of_slice hraw) hheader
  obtain ⟨hbodyDigest, hfooterEq⟩ := eq_encodeFooter_of_validate (length_of_slice hfooter) hdigests
  have hstoredLength : header.storedBytes = storedLength body := by
    rw [hstored, storedLength_eq, hbodyLength]
  rw [hstoredLength, ← hbodyLength, hbodyDigest] at hencoded
  rw [hrawEq, hstoredLength, hencoded] at hfooterEq
  have hframe := slice_add hraw (slice_add hbody hfooter)
  have hwidth : headerBytes + (header.bodyBytes + footerBytes) = storedLength body := by
    rw [storedLength, frameOverheadBytes, hbodyLength]
    omega
  rw [hwidth, hencoded, hfooterEq] at hframe
  exact ⟨hframe, hbodyDigest, hstoredLength, hstoredLength ▸ hlt, hbodyLength ▸ hlimit⟩

/-- A batch that is read stands in the file as its own frame. -/
theorem readRecoveredBatch_eq_ok {position stop next : Nat}
    (h : readRecoveredBatch file position stop bodyLimit = .ok (batch, next)) :
    slice file position (storedLength batch.body) = some (frame batch.metadata batch.body) ∧
      batch = batchAt position batch.metadata batch.body ∧
      next = position + storedLength batch.body ∧ storedLength batch.body < 2 ^ 64 ∧
      batch.body.length ≤ bodyLimit.get := by
  obtain ⟨raw, hraw, h⟩ := bind_eq_ok.mp h
  obtain ⟨header, hheader, h⟩ := bind_eq_ok.mp h
  obtain ⟨nextPosition, hnext, h⟩ := bind_eq_ok.mp h
  obtain ⟨_, -, h⟩ := bind_eq_ok.mp h
  obtain ⟨body, hbody, h⟩ := bind_eq_ok.mp h
  obtain ⟨footer, hfooter, h⟩ := bind_eq_ok.mp h
  obtain ⟨_, hdigests, h⟩ := bind_eq_ok.mp h
  obtain ⟨range, hrange, h⟩ := bind_eq_ok.mp h
  cases h
  obtain ⟨hframe, hdigest, hstored, hlt, hlimit⟩ := frame_of_parts (okOr_eq_ok hraw) hheader
    (okOr_eq_ok hbody) (okOr_eq_ok hfooter) hdigests
  obtain ⟨rfl, -⟩ := checkedAdd_eq_some (okOr_eq_ok hnext)
  rw [hstored, SpoolBatchRange.new_of_lt (by rw [storedLength_eq]; omega)] at hrange
  cases hrange
  refine ⟨hframe, ?_, by rw [hstored], hlt, hlimit⟩
  rw [batchAt, hdigest]

/-- A frame that the scan counts is one that is written for some batch. -/
theorem scanFrame_eq_some {position frameEnd : Nat}
    (h : scanFrame file position bodyLimit = .ok (some frameEnd)) :
    ∃ metadata body, slice file position (storedLength body) = some (frame metadata body) ∧
      frameEnd = position + storedLength body ∧ storedLength body < 2 ^ 64 ∧
      body.length ≤ bodyLimit.get := by
  unfold scanFrame at h
  dsimp only at h
  split_ifs at h
  · obtain ⟨_, -, h⟩ := bind_eq_ok.mp h
    obtain ⟨_, -, h⟩ := bind_eq_ok.mp h
    cases h
  · obtain ⟨raw, hraw, h⟩ := bind_eq_ok.mp h
    obtain ⟨header, hheader, h⟩ := bind_eq_ok.mp h
    obtain ⟨stop, hstop, h⟩ := bind_eq_ok.mp h
    obtain ⟨rfl, -⟩ := checkedAdd_eq_some (okOr_eq_ok hstop)
    split_ifs at h
    · cases h
    · obtain ⟨⟨bodyHasher, frameHasher⟩, hhash, h⟩ := bind_eq_ok.mp h
      obtain ⟨footer, hfooter, h⟩ := bind_eq_ok.mp h
      obtain ⟨_, hdigests, h⟩ := bind_eq_ok.mp h
      cases h
      have hfooter := okOr_eq_ok hfooter
      obtain ⟨body, hbody⟩ := exists_slice_of_slice hfooter
      rw [hashBody_of_slice hbody] at hhash
      cases hhash
      obtain ⟨hframe, -, hstored, hlt, hlimit⟩ := frame_of_parts (okOr_eq_ok hraw) hheader
        hbody hfooter hdigests
      exact ⟨header.metadata, body, hframe, by rw [hstored], hlt, hlimit⟩

/-! ## The codec -/

/-- The bytes `bytes` are read as one whole frame that holds `batch`. -/
def DecodesTo (bodyLimit : AppendBodyLimit) (bytes : Bytes) (batch : RecoveredBatch) : Prop :=
  readRecoveredBatch bytes 0 bytes.length bodyLimit = .ok (batch, bytes.length)

theorem DecodesTo.eq_frame {bytes : Bytes} (h : DecodesTo bodyLimit bytes batch) :
    bytes = frame batch.metadata batch.body := by
  obtain ⟨hframe, -, hnext, -, -⟩ := readRecoveredBatch_eq_ok h
  rw [Nat.zero_add] at hnext
  rw [← hnext, slice_all] at hframe
  exact Option.some.inj hframe

/-- The frame format is canonical. A written frame is read back, wherever it stands in a
file. What is read as a frame, and what the scan counts as one, are the bytes that the
writer lays out for the batch that they hold. So a batch has one frame. -/
theorem frame_canonical (bodyLimit : AppendBodyLimit) :
    (∀ (metadata : BatchMetadata) (body : Bytes) (prepared : PreparedFrame) (before after : Bytes),
        PreparedFrame.new metadata body = .ok prepared → body.length ≤ bodyLimit.get →
        before.length + prepared.storedBytes < 2 ^ 64 →
        ∃ batch, readRecoveredBatch
            (before ++ (prepared.header ++ (body ++ prepared.footer) ++ after)) before.length
            (before.length + prepared.storedBytes) bodyLimit =
              .ok (batch, before.length + prepared.storedBytes) ∧
          batch.metadata = metadata ∧ batch.body = body ∧ batch.bodyDigest = prepared.bodyDigest ∧
          batch.range.start = before.length ∧
          batch.range.stop = before.length + prepared.storedBytes) ∧
      (∀ (file : Bytes) (position stop next : Nat) (batch : RecoveredBatch),
        readRecoveredBatch file position stop bodyLimit = .ok (batch, next) →
        ∃ prepared, PreparedFrame.new batch.metadata batch.body = .ok prepared ∧
          next = position + prepared.storedBytes ∧
          slice file position prepared.storedBytes =
            some (prepared.header ++ (batch.body ++ prepared.footer))) ∧
      (∀ (file : Bytes) (position frameEnd : Nat),
        scanFrame file position bodyLimit = .ok (some frameEnd) →
        ∃ metadata body prepared, PreparedFrame.new metadata body = .ok prepared ∧
          frameEnd = position + prepared.storedBytes ∧
          slice file position prepared.storedBytes =
            some (prepared.header ++ (body ++ prepared.footer))) ∧
      ∀ (bytes other : Bytes) (batch same : RecoveredBatch),
        DecodesTo bodyLimit bytes batch → DecodesTo bodyLimit other same →
        batch.metadata = same.metadata → batch.body = same.body → bytes = other := by
  refine ⟨?_, ?_, ?_, ?_⟩
  · intro metadata body prepared before after hnew hlimit hfits
    rw [PreparedFrame.bytes_of_new hnew]
    obtain ⟨-, rfl⟩ := (PreparedFrame.new_eq_ok metadata body).mp hnew
    exact ⟨_, readRecoveredBatch_whole hfits hlimit le_rfl, rfl, rfl, rfl, rfl, rfl⟩
  · intro file position stop next batch hread
    obtain ⟨hframe, -, hnext, hlt, -⟩ := readRecoveredBatch_eq_ok hread
    exact ⟨_, (PreparedFrame.new_eq_ok _ _).mpr ⟨hlt, rfl⟩, hnext, hframe⟩
  · intro file position frameEnd hscan
    obtain ⟨metadata, body, hframe, hend, hlt, -⟩ := scanFrame_eq_some hscan
    exact ⟨metadata, body, _, (PreparedFrame.new_eq_ok _ _).mpr ⟨hlt, rfl⟩, hend, hframe⟩
  · intro bytes other batch same hbatch hsame hmetadata hbody
    rw [hbatch.eq_frame, hsame.eq_frame, hmetadata, hbody]

end Codec

section Sample

attribute [local instance] Chrono.unbounded Blake3.constant

/-- A frame with a body of three bytes, read and scanned. -/
theorem frame_canonical_three :
    ∃ batch prepared scanned,
      DecodesTo ⟨1024, kibibyte_pos, kibibyte_lt⟩ (frame (BatchMetadata.sample 9) [7, 8, 9]) batch ∧
      PreparedFrame.new batch.metadata batch.body = .ok prepared ∧
      (199 : Nat) = 0 + PreparedFrame.storedBytes scanned := by
  have hcanonical := frame_canonical ⟨1024, kibibyte_pos, kibibyte_lt⟩
  obtain ⟨batch, hread, -⟩ := hcanonical.1 (BatchMetadata.sample 9) [7, 8, 9] _ [] []
    ((PreparedFrame.new_eq_ok _ _).mpr ⟨by decide, rfl⟩) (by decide) (by decide)
  rw [List.append_nil, List.nil_append] at hread
  have hdecodes : DecodesTo ⟨1024, kibibyte_pos, kibibyte_lt⟩
      (frame (BatchMetadata.sample 9) [7, 8, 9]) batch := by
    rw [DecodesTo, length_frame]
    exact hread
  obtain ⟨prepared, hprepared, -⟩ := hcanonical.2.1 _ _ _ _ batch hdecodes
  have hscan : scanFrame ([] ++ (frame (BatchMetadata.sample 9) [7, 8, 9] ++ [])) 0
      ⟨1024, kibibyte_pos, kibibyte_lt⟩ = .ok (some (0 + storedLength [7, 8, 9])) :=
    scanFrame_whole (by decide) (by decide)
  obtain ⟨-, -, scanned, -, hend, -⟩ := hcanonical.2.2.1 _ _ _ hscan
  exact ⟨batch, prepared, scanned, hdecodes, hprepared, hend⟩

end Sample

end Elucid
