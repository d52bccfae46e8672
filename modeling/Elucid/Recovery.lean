import Elucid.Frame

/-!
# Recovering the spool

The data file is a sequence of frames, the last of which a crash may have cut.
`scanCommittedFrames` walks the file from its start, checks every whole frame and drops
the rest of a cut one. `RecoveredBatches` then reads the frames behind the checkpoint
one by one, up to the end the scan found.

A file cut at any byte is scanned up to the end of its last whole frame, and what is read
from it are the batches of the whole frames and nothing else.
-/

namespace Elucid

open BigEndian List

/-! ## Appending -/

structure DurableAppend [Chrono] where
  metadata : BatchMetadata
  bodyBytes : Nat
  bodyDigest : Digest
  range : SpoolBatchRange
  deriving DecidableEq

section Append

variable [Chrono] [Blake3]

/-- `SpoolInner::write_frame` : the data file behind the write, and the result. The bytes
are written before the end position is computed. -/
def writeFrame (file : Bytes) (metadata : BatchMetadata) (body : Bytes) :
    Bytes × Except SpoolError (PreparedFrame × SpoolBatchRange) :=
  match PreparedFrame.new metadata body with
  | .error e => (file, .error e)
  | .ok prepared =>
    (file ++ (prepared.header ++ (body ++ prepared.footer)), do
      let stop ← okOr (checkedAdd file.length prepared.storedBytes)
        (.invariant "spool append position overflow")
      let range ← SpoolBatchRange.new file.length stop
      return (prepared, range))

/-- `SpoolReservation::append`, for appends that do not overlap. -/
def append (bodyLimit : AppendBodyLimit) (file : Bytes) (metadata : BatchMetadata)
    (body : Bytes) : Except SpoolError (Bytes × DurableAppend) := do
  ensure (body.length ≤ bodyLimit.get) (.batchLimit body.length bodyLimit.get)
  let (written, result) := writeFrame file metadata body
  let (prepared, range) ← result
  return (written, ⟨metadata, prepared.bodyBytes, prepared.bodyDigest, range⟩)

/-- Appending batches one after another : the data file and what each append returned. -/
def appendAll (bodyLimit : AppendBodyLimit) (file : Bytes) :
    List (BatchMetadata × Bytes) → Except SpoolError (Bytes × List DurableAppend)
  | [] => .ok (file, [])
  | (metadata, body) :: rest => do
    let (written, first) ← append bodyLimit file metadata body
    let (all, others) ← appendAll bodyLimit written rest
    return (all, first :: others)

end Append

/-! ## Scanning -/

def scanBufferBytes : Nat := 64 * 1024

/-- `File::read_exact` behind a seek to `position`. -/
def readExact (file : Bytes) (position count : Nat) (operation : String) :
    Except SpoolError Bytes :=
  okOr (slice file position count) (.io operation)

/-- The loop of `scan_committed_frames` that hashes a body through its buffer. -/
def hashBody (file : Bytes) (position unreadBodyBytes : Nat) (bodyHasher frameHasher : Hasher) :
    Except SpoolError (Hasher × Hasher) :=
  if 0 < unreadBodyBytes then do
    let chunkBytes := min unreadBodyBytes scanBufferBytes
    let chunk ← readExact file position chunkBytes "read a spool frame body"
    hashBody file (position + chunkBytes) (unreadBodyBytes - chunkBytes)
      (bodyHasher.update chunk) (frameHasher.update chunk)
  else .ok (bodyHasher, frameHasher)
termination_by unreadBodyBytes
decreasing_by
  have : 0 < scanBufferBytes := by decide
  omega

section Scan

variable [Chrono] [Blake3]

/-- One iteration of `scan_committed_frames` : the end of the frame at `position`, or
`none` if the file ends before it. -/
def scanFrame (file : Bytes) (position : Nat) (bodyLimit : AppendBodyLimit) :
    Except SpoolError (Option Nat) :=
  let remainingBytes := file.length - position
  if remainingBytes < headerBytes then do
    let incomplete ← readExact file position remainingBytes "read the incomplete spool header"
    validateIncompleteHeader incomplete bodyLimit
    return none
  else do
    let raw ← readExact file position headerBytes "read a spool frame header"
    let header ← decodeHeader raw bodyLimit
    let frameEnd ← okOr (checkedAdd position header.storedBytes)
      (.corrupt "spool frame position overflows u64")
    if file.length < frameEnd then
      return none
    else
      let (bodyHasher, frameHasher) ← hashBody file (position + headerBytes) header.bodyBytes
        Hasher.new (Hasher.new.update header.raw)
      let footer ← readExact file (position + headerBytes + header.bodyBytes) footerBytes
        "read a spool frame footer"
      validateDigestsAndFooter header bodyHasher.finalize frameHasher.finalize footer
      return some frameEnd

/-- The local variables of `scan_committed_frames`. -/
structure ScanState where
  position : Nat
  committedBatches : Nat
  pendingBatches : Nat
  checkpointIsBoundary : Bool
  deriving DecidableEq

/-- The variables before the first iteration. -/
def ScanState.initial (checkpoint : SpoolCheckpoint) : ScanState :=
  ⟨0, 0, 0, checkpoint.position == 0⟩

/-- The pending batches once the frame at `position` is counted. -/
def ScanState.nextPending (state : ScanState) (checkpoint : SpoolCheckpoint) :
    Except SpoolError Nat :=
  if checkpoint.position ≤ state.position then
    okOr (checkedAdd state.pendingBatches 1) (.corrupt "pending spool batch count overflows u64")
  else .ok state.pendingBatches

/-- Counting a frame that ends at `frameEnd`. -/
def ScanState.commit (state : ScanState) (checkpoint : SpoolCheckpoint) (frameEnd : Nat) :
    Except SpoolError ScanState := do
  let committedBatches ← okOr (checkedAdd state.committedBatches 1)
    (.corrupt "spool batch count overflows u64")
  let pendingBatches ← state.nextPending checkpoint
  return ⟨frameEnd, committedBatches, pendingBatches,
    state.checkpointIsBoundary || frameEnd == checkpoint.position⟩

omit [Chrono] [Blake3] in
theorem ScanState.position_of_commit {state next : ScanState} {checkpoint : SpoolCheckpoint}
    {frameEnd : Nat} (h : state.commit checkpoint frameEnd = .ok next) :
    next.position = frameEnd := by
  obtain ⟨_, -, h⟩ := bind_eq_ok.mp h
  obtain ⟨_, -, h⟩ := bind_eq_ok.mp h
  cases h
  rfl

/-- A whole frame is longer than nothing. -/
theorem lt_of_scanFrame {file : Bytes} {position frameEnd : Nat} {bodyLimit : AppendBodyLimit}
    (h : scanFrame file position bodyLimit = .ok (some frameEnd)) : position < frameEnd := by
  simp only [scanFrame] at h
  split at h
  · obtain ⟨_, -, h⟩ := bind_eq_ok.mp h
    obtain ⟨_, -, h⟩ := bind_eq_ok.mp h
    cases h
  · obtain ⟨raw, -, h⟩ := bind_eq_ok.mp h
    obtain ⟨header, hheader, h⟩ := bind_eq_ok.mp h
    obtain ⟨stop, hadd, h⟩ := bind_eq_ok.mp h
    have hstop := checkedAdd_eq_some (okOr_eq_ok hadd)
    have hlengths := lengths_of_decodeHeader hheader
    split at h
    · cases h
    · obtain ⟨_, -, h⟩ := bind_eq_ok.mp h
      obtain ⟨_, -, h⟩ := bind_eq_ok.mp h
      obtain ⟨_, -, h⟩ := bind_eq_ok.mp h
      cases h
      omega

/-- The loop of `scan_committed_frames` : the variables behind it, and the length of the
tail it discards. -/
def scanLoop (file : Bytes) (checkpoint : SpoolCheckpoint) (bodyLimit : AppendBodyLimit)
    (state : ScanState) : Except SpoolError (ScanState × Nat) :=
  if state.position < file.length then
    match _hscan : scanFrame file state.position bodyLimit with
    | .error e => .error e
    | .ok none => .ok (state, file.length - state.position)
    | .ok (some frameEnd) =>
      match _hcommit : state.commit checkpoint frameEnd with
      | .error e => .error e
      | .ok next => scanLoop file checkpoint bodyLimit next
  else .ok (state, 0)
termination_by file.length - state.position
decreasing_by
  have := lt_of_scanFrame _hscan
  have := ScanState.position_of_commit _hcommit
  omega

structure FrameScan where
  committedBatches : Nat
  pendingBatches : Nat
  committedBytes : Nat
  discardedTailBytes : Nat
  deriving DecidableEq, Repr

/-- `scan_committed_frames`. -/
def scanCommittedFrames (file : Bytes) (checkpoint : SpoolCheckpoint)
    (bodyLimit : AppendBodyLimit) : Except SpoolError FrameScan := do
  let (state, discardedTailBytes) ←
    scanLoop file checkpoint bodyLimit (ScanState.initial checkpoint)
  ensure (checkpoint.position ≤ state.position ∧ state.checkpointIsBoundary = true)
    (.corrupt "spool checkpoint is not a committed frame boundary")
  return ⟨state.committedBatches, state.pendingBatches, state.position, discardedTailBytes⟩

end Scan

/-! ## Reading -/

section Read

variable [Chrono] [Blake3]

def readExactCommitted (file : Bytes) (position count : Nat) : Except SpoolError Bytes :=
  okOr (slice file position count) (.corrupt "committed spool data changed after recovery")

/-- `read_recovered_batch` : the batch at `position` and the position behind it. -/
def readRecoveredBatch (file : Bytes) (position stop : Nat) (bodyLimit : AppendBodyLimit) :
    Except SpoolError (RecoveredBatch × Nat) := do
  let raw ← readExactCommitted file position headerBytes
  let header ← decodeHeader raw bodyLimit
  let nextPosition ← okOr (checkedAdd position header.storedBytes)
    (.corrupt "recovered spool frame position overflows u64")
  ensure (nextPosition ≤ stop) (.corrupt "recovered spool frame exceeds its committed range")
  let body ← readExactCommitted file (position + headerBytes) header.bodyBytes
  let footer ← readExactCommitted file (position + headerBytes + header.bodyBytes) footerBytes
  let frameDigest := ((Hasher.new.update header.raw).update body).finalize
  validateDigestsAndFooter header (Blake3.hash body) frameDigest footer
  let range ← SpoolBatchRange.new position nextPosition
  return (⟨header.metadata, body, header.bodyDigest, range⟩, nextPosition)

end Read

inductive RecoveredBatchState
  | readingRecovery
  | recoveryComplete
  | following
  | failed
  deriving DecidableEq, Repr

structure SpoolExtent where
  generation : Nat
  stop : Nat
  deriving DecidableEq, Repr

/-- `RecoveredBatches`, without the file it reads and the channel it watches. -/
structure RecoveredBatches where
  position : Nat
  recoveredEnd : Nat
  generation : Nat
  bodyLimit : AppendBodyLimit
  state : RecoveredBatchState
  deriving DecidableEq

/-- What `next_batch` does before it touches the file : it returns, or reads from
`position` up to `stop`. -/
inductive NextPlan [Chrono]
  | done (result : Except SpoolError (Option RecoveredBatch))
  | read (position stop : Nat)

namespace RecoveredBatches

variable [Chrono] [Blake3]

/-- The end of the range `next_batch` reads in, from the extent it borrows, or the error
it fails with. -/
def readableEnd (extent : SpoolExtent) (batches : RecoveredBatches) :
    RecoveredBatches × Except SpoolError Nat :=
  match batches.state with
  | .readingRecovery => (batches, .ok batches.recoveredEnd)
  | .following =>
    let batches :=
      if extent.generation ≠ batches.generation then
        { batches with generation := extent.generation, position := 0 }
      else batches
    if extent.stop < batches.position then
      ({ batches with state := .failed },
        .error (.corrupt "live spool extent moved behind the reader without reclamation"))
    else (batches, .ok extent.stop)
  | .recoveryComplete | .failed =>
    (batches, .error (.invariant "recovered spool reader changed state unexpectedly"))

/-- `next_batch` up to the read of the file. -/
def beginNext (extent : SpoolExtent) (batches : RecoveredBatches) :
    RecoveredBatches × NextPlan :=
  match batches.state with
  | .recoveryComplete => (batches, .done (.ok none))
  | .failed =>
    (batches, .done (.error
      (.invariant "recovered spool reader is unavailable after a previous failure")))
  | .readingRecovery | .following =>
    match batches.readableEnd extent with
    | (batches, .error e) => (batches, .done (.error e))
    | (batches, .ok stop) =>
      if batches.position = stop then
        if batches.state = .readingRecovery then
          ({ batches with state := .recoveryComplete }, .done (.ok none))
        else (batches, .done (.ok none))
      else (batches, .read batches.position stop)

/-- `next_batch` behind the read of the file. -/
def finishNext (batches : RecoveredBatches) :
    Except SpoolError (RecoveredBatch × Nat) →
      RecoveredBatches × Except SpoolError (Option RecoveredBatch)
  | .ok (batch, nextPosition) => ({ batches with position := nextPosition }, .ok (some batch))
  | .error e => ({ batches with state := .failed }, .error e)

/-- `RecoveredBatches::next_batch`, with the data file and the borrowed extent. -/
def nextBatch (file : Bytes) (extent : SpoolExtent) (batches : RecoveredBatches) :
    RecoveredBatches × Except SpoolError (Option RecoveredBatch) :=
  match batches.beginNext extent with
  | (batches, .done result) => (batches, result)
  | (batches, .read position stop) =>
    batches.finishNext (readRecoveredBatch file position stop batches.bodyLimit)

/-- `n` calls of `next_batch` in a row, with the results in order. -/
def nextBatches (file : Bytes) (extent : SpoolExtent) :
    Nat → RecoveredBatches → List (Except SpoolError (Option RecoveredBatch))
  | 0, _ => []
  | n + 1, batches =>
    (batches.nextBatch file extent).2 ::
      nextBatches file extent n (batches.nextBatch file extent).1

end RecoveredBatches

/-! ## The frames of a file -/

section Frames

variable [Chrono] [Blake3]
variable {batches : List (BatchMetadata × Bytes)} {bodyLimit : AppendBodyLimit} {file file' : Bytes}

/-- The data file that holds `batches`. -/
def framesOf (batches : List (BatchMetadata × Bytes)) : Bytes :=
  (batches.map fun batch => frame batch.1 batch.2).flatten

/-- A batch whose frame starts at `start`. -/
def batchAt (start : Nat) (metadata : BatchMetadata) (body : Bytes) : RecoveredBatch :=
  ⟨metadata, body, Blake3.hash body,
    ⟨start, start + storedLength body, by rw [storedLength_eq]; omega⟩⟩

/-- The batches of `framesOf batches` as they lie in a file where they start at `start`. -/
def batchesAt (start : Nat) : List (BatchMetadata × Bytes) → List RecoveredBatch
  | [] => []
  | (metadata, body) :: rest =>
    batchAt start metadata body :: batchesAt (start + storedLength body) rest

@[simp] theorem start_batchAt (start : Nat) (metadata : BatchMetadata) (body : Bytes) :
    (batchAt start metadata body).range.start = start := rfl

@[simp] theorem stop_batchAt (start : Nat) (metadata : BatchMetadata) (body : Bytes) :
    (batchAt start metadata body).range.stop = start + storedLength body := rfl

/-- What `append` returned for a batch. -/
def RecoveredBatch.durableAppend (batch : RecoveredBatch) : DurableAppend :=
  ⟨batch.metadata, batch.body.length, batch.bodyDigest, batch.range⟩

@[simp] theorem framesOf_nil : framesOf [] = [] := rfl

@[simp] theorem framesOf_cons (metadata : BatchMetadata) (body : Bytes)
    (rest : List (BatchMetadata × Bytes)) :
    framesOf ((metadata, body) :: rest) = frame metadata body ++ framesOf rest := by
  simp [framesOf]

theorem le_start_of_mem_batchesAt {start : Nat} {batch : RecoveredBatch}
    (h : batch ∈ batchesAt start batches) :
    start ≤ batch.range.start := by
  induction batches generalizing start with
  | nil => cases h
  | cons head rest ih =>
    obtain ⟨metadata, body⟩ := head
    rcases mem_cons.mp h with rfl | h
    · exact le_rfl
    · exact (Nat.le_add_right _ _).trans (ih h)

theorem writeFrame_eq (file : Bytes) (metadata : BatchMetadata) (body : Bytes)
    (hlt : storedLength body < 2 ^ 64) :
    writeFrame file metadata body =
      (file ++ frame metadata body, do
        let stop ← okOr (checkedAdd file.length (storedLength body))
          (.invariant "spool append position overflow")
        let range ← SpoolBatchRange.new file.length stop
        return (⟨frameHeader metadata body, frameFooter metadata body, body.length,
          Blake3.hash body, storedLength body⟩, range)) := by
  have hprepared := (PreparedFrame.new_eq_ok metadata body).mpr ⟨hlt, rfl⟩
  rw [writeFrame, hprepared]
  rfl

/-- What a successful append did. -/
theorem append_eq_ok {metadata : BatchMetadata} {body : Bytes} {result : DurableAppend}
    (h : append bodyLimit file metadata body = .ok (file', result)) :
    file' = file ++ frame metadata body ∧ file.length + storedLength body < 2 ^ 64 ∧
      body.length ≤ bodyLimit.get ∧
      [result] = (batchesAt file.length [(metadata, body)]).map RecoveredBatch.durableAppend := by
  obtain ⟨_, hlimit, h⟩ := bind_eq_ok.mp h
  cases hprepared : PreparedFrame.new metadata body with
  | error e =>
    rw [writeFrame, hprepared] at h
    cases h
  | ok prepared =>
    obtain ⟨hlt, -⟩ := (PreparedFrame.new_eq_ok metadata body).mp hprepared
    rw [writeFrame_eq file metadata body hlt] at h
    obtain ⟨_, hwrite, h⟩ := bind_eq_ok.mp h
    obtain ⟨stop, hadd, hwrite⟩ := bind_eq_ok.mp hwrite
    obtain ⟨rfl, hfits⟩ := checkedAdd_eq_some (okOr_eq_ok hadd)
    rw [SpoolBatchRange.new_of_lt (by rw [storedLength_eq]; omega)] at hwrite
    cases hwrite
    cases h
    exact ⟨rfl, hfits, ensure_eq_ok.mp hlimit, rfl⟩

/-- What successful appends did : the file grew by the frames, inside `u64`. -/
theorem appendAll_eq_ok {results : List DurableAppend} (hfile : file.length < 2 ^ 64)
    (h : appendAll bodyLimit file batches = .ok (file', results)) :
    file' = file ++ framesOf batches ∧ file'.length < 2 ^ 64 ∧
      (∀ batch ∈ batches, batch.2.length ≤ bodyLimit.get) ∧
      results = (batchesAt file.length batches).map RecoveredBatch.durableAppend := by
  induction batches generalizing file file' results with
  | nil =>
    cases h
    exact ⟨by simp, hfile, by simp, rfl⟩
  | cons head rest ih =>
    obtain ⟨metadata, body⟩ := head
    obtain ⟨⟨written, first⟩, hfirst, h⟩ := bind_eq_ok.mp h
    obtain ⟨⟨all, others⟩, hrest, h⟩ := bind_eq_ok.mp h
    cases h
    obtain ⟨rfl, hfits, hlimit, hresult⟩ := append_eq_ok hfirst
    have hlen : (file ++ frame metadata body).length = file.length + storedLength body := by
      rw [length_append, length_frame]
    obtain ⟨rfl, hlt, hlimits, rfl⟩ := ih (by rwa [hlen]) hrest
    refine ⟨by simp, hlt, ?_, ?_⟩
    · intro batch hbatch
      rcases mem_cons.mp hbatch with rfl | hbatch
      · exact hlimit
      · exact hlimits batch hbatch
    · rw [hlen]
      simpa [batchesAt] using hresult

/-- Appends inside the limit succeed as long as the file stays inside `u64`. -/
theorem appendAll_of_fits (bodyLimit : AppendBodyLimit) (file : Bytes)
    (batches : List (BatchMetadata × Bytes))
    (hfits : file.length + (framesOf batches).length < 2 ^ 64)
    (hlimit : ∀ batch ∈ batches, batch.2.length ≤ bodyLimit.get) :
    appendAll bodyLimit file batches = .ok (file ++ framesOf batches,
      (batchesAt file.length batches).map RecoveredBatch.durableAppend) := by
  induction batches generalizing file with
  | nil => simp [appendAll, batchesAt]
  | cons head rest ih =>
    obtain ⟨metadata, body⟩ := head
    have hlen : (file ++ frame metadata body).length = file.length + storedLength body := by
      rw [length_append, length_frame]
    rw [framesOf_cons, length_append, length_frame] at hfits
    have hfirst : append bodyLimit file metadata body = .ok (file ++ frame metadata body,
        (batchAt file.length metadata body).durableAppend) := by
      rw [append, ensure_of (hlimit _ (mem_cons_self ..)), ok_bind,
        writeFrame_eq file metadata body (by omega)]
      simp only
      rw [checkedAdd_of_lt (by omega), okOr_some, ok_bind,
        SpoolBatchRange.new_of_lt (by rw [storedLength_eq]; omega), ok_bind]
      rfl
    have hrest := ih (file ++ frame metadata body) (by rw [hlen]; omega)
      fun batch hbatch => hlimit batch (mem_cons_of_mem _ hbatch)
    rw [appendAll, hfirst, ok_bind]
    simp only
    rw [hrest, ok_bind, hlen, framesOf_cons, append_assoc, batchesAt, map_cons]
    rfl

/-! ## Scanning one frame -/

omit [Chrono] [Blake3] in
/-- Hashing through the buffer hashes the body. -/
theorem hashBody_of_slice {body : Bytes} {position unread : Nat} {a b : Hasher}
    (h : slice file position unread = some body) :
    hashBody file position unread a b = .ok (a.update body, b.update body) := by
  fun_induction hashBody file position unread a b generalizing body with
  | case1 position unread a b hpos chunkBytes =>
    rename_i ih
    have hchunk : unread = chunkBytes + (unread - chunkBytes) := by omega
    rw [hchunk] at h
    obtain ⟨hfirst, hrest⟩ := slice_split h
    rw [readExact, hfirst, okOr_some, ok_bind, ih _ hrest]
    simp
  | case2 position unread a b hpos =>
    obtain rfl : unread = 0 := by omega
    obtain rfl : body = [] := length_eq_zero_iff.mp (length_of_slice h)
    simp [Hasher.update]

section Slices

variable (before : Bytes) (metadata : BatchMetadata) (body after : Bytes)

theorem slice_frame_header :
    slice (before ++ (frame metadata body ++ after)) before.length headerBytes =
      some (frameHeader metadata body) := by
  have h := slice_field before (frameHeader metadata body)
    (body ++ (frameFooter metadata body ++ after))
  rw [length_frameHeader] at h
  simpa [frame] using h

theorem slice_frame_body :
    slice (before ++ (frame metadata body ++ after)) (before.length + headerBytes) body.length =
      some body := by
  have h := slice_field (before ++ frameHeader metadata body) body
    (frameFooter metadata body ++ after)
  rw [length_append, length_frameHeader] at h
  simpa [frame] using h

theorem slice_frame_footer :
    slice (before ++ (frame metadata body ++ after))
        (before.length + headerBytes + body.length) footerBytes =
      some (frameFooter metadata body) := by
  have h := slice_field (before ++ frameHeader metadata body ++ body)
    (frameFooter metadata body) after
  rw [length_append, length_append, length_frameHeader, length_frameFooter] at h
  simpa [frame] using h

end Slices

variable {before body after : Bytes} {metadata : BatchMetadata}

/-- The scan accepts a whole frame. -/
theorem scanFrame_whole (hfits : before.length + storedLength body < 2 ^ 64)
    (hlimit : body.length ≤ bodyLimit.get) :
    scanFrame (before ++ (frame metadata body ++ after)) before.length bodyLimit =
      .ok (some (before.length + storedLength body)) := by
  have hlen : (before ++ (frame metadata body ++ after)).length =
      before.length + (storedLength body + after.length) := by
    rw [length_append, length_append, length_frame]
  have hstored := storedLength_eq body
  rw [scanFrame]
  simp only [hlen]
  rw [if_neg (by unfold headerBytes; omega), readExact, slice_frame_header, okOr_some, ok_bind,
    decodeHeader_frameHeader metadata body (by omega) hlimit, ok_bind]
  simp only [storedBytes_frameDecoded, bodyBytes_frameDecoded, raw_frameDecoded]
  rw [checkedAdd_of_lt hfits, okOr_some, ok_bind, if_neg (by omega),
    hashBody_of_slice (slice_frame_body before metadata body after), ok_bind, readExact,
    slice_frame_footer, okOr_some, ok_bind]
  simp only [Hasher.finalize, Hasher.absorbed_update, Hasher.absorbed_new, nil_append]
  rw [validateDigestsAndFooter_frame metadata body (by omega), ok_bind]
  rfl

/-- The scan drops a frame the file does not hold to its end. -/
theorem scanFrame_cut (metadata : BatchMetadata) (hfits : before.length + storedLength body < 2 ^ 64)
    (hlimit : body.length ≤ bodyLimit.get) {k : Nat} (hk : k < storedLength body) :
    scanFrame (before ++ (frame metadata body).take k) before.length bodyLimit = .ok none := by
  have hstored := storedLength_eq body
  have hlen : (before ++ (frame metadata body).take k).length = before.length + k := by
    rw [length_append, length_take, length_frame]
    omega
  rw [scanFrame]
  simp only [hlen, Nat.add_sub_cancel_left]
  by_cases hheader : k < headerBytes
  · have htake : (frame metadata body).take k = (frameHeader metadata body).take k := by
      rw [frame, take_append_of_le_length (by rw [length_frameHeader]; omega)]
    have hslice := slice_field before ((frameHeader metadata body).take k) []
    rw [append_nil, length_take, length_frameHeader, Nat.min_eq_left (by omega)]
      at hslice
    rw [if_pos hheader, htake, readExact, hslice, okOr_some, ok_bind,
      validateIncompleteHeader_frameHeader metadata body (by omega) hlimit k, ok_bind]
    rfl
  · have hslice : slice (before ++ (frame metadata body).take k) before.length headerBytes =
        some (frameHeader metadata body) := by
      have h := slice_take (before ++ frame metadata body)
        (show before.length + headerBytes ≤ before.length + k by omega)
      rw [take_length_add_append] at h
      rw [h, ← append_nil (frame metadata body), slice_frame_header]
    rw [if_neg hheader, readExact, hslice, okOr_some, ok_bind,
      decodeHeader_frameHeader metadata body (by omega) hlimit, ok_bind]
    simp only [storedBytes_frameDecoded]
    rw [checkedAdd_of_lt hfits, okOr_some, ok_bind, if_pos (by omega)]
    rfl

end Frames

end Elucid
