import Elucid.Recovery

/-!
# Recovery is exact at every cut

A crash leaves some first bytes of the data file. They are the frames that end inside
the cut and then a tail, which is nothing or a strict part of one more frame
(`exists_cut`). The scan counts the frames (`scanLoop_frames`) and stops at the tail
(`scanLoop_tail`), and the reader returns the frames behind the checkpoint and then
nothing more (`nextBatches_frames`).

`scanCommittedFrames_cut` puts them together, for every list of appended batches, every
cut and every checkpoint at a frame boundary.
-/

namespace Elucid

open BigEndian List

variable [Chrono]
variable {batches : List (BatchMetadata × Bytes)} {bodyLimit : AppendBodyLimit}
  {batch : RecoveredBatch}

/-! ## Parts of a list of batches -/

/-- The batches whose frames end inside the first `cut` bytes. -/
def wholeBatches (cut : Nat) (batches : List RecoveredBatch) : List RecoveredBatch :=
  batches.filter fun batch => batch.range.stop ≤ cut

/-- The batches whose frames start at the checkpoint or behind it. -/
def pendingBatches (checkpoint : SpoolCheckpoint) (batches : List RecoveredBatch) :
    List RecoveredBatch :=
  batches.filter fun batch => checkpoint.position ≤ batch.range.start

theorem wholeBatches_cons_of_le {cut : Nat} (h : batch.range.stop ≤ cut)
    (rest : List RecoveredBatch) :
    wholeBatches cut (batch :: rest) = batch :: wholeBatches cut rest :=
  filter_cons_of_pos (decide_eq_true h)

/-- The end of the last frame, or `start` if there is none. -/
def lastEnd (start : Nat) (batches : List RecoveredBatch) : Nat :=
  (batches.getLast?.map fun batch => batch.range.stop).getD start

@[simp] theorem lastEnd_nil (start : Nat) : lastEnd start [] = start := rfl

@[simp] theorem lastEnd_cons (start : Nat) (batch : RecoveredBatch) (rest : List RecoveredBatch) :
    lastEnd start (batch :: rest) = lastEnd batch.range.stop rest := by
  unfold lastEnd
  rw [getLast?_cons]
  cases rest.getLast? <;> rfl

/-! ## Counting frames -/

/-- The variables once the frames of `batches` are counted. -/
def ScanState.count (state : ScanState) (checkpoint : SpoolCheckpoint)
    (batches : List RecoveredBatch) : ScanState :=
  ⟨lastEnd state.position batches, state.committedBatches + batches.length,
    state.pendingBatches + (Elucid.pendingBatches checkpoint batches).length,
    state.checkpointIsBoundary || batches.any fun batch => batch.range.stop == checkpoint.position⟩

theorem ScanState.count_cons (state : ScanState) (checkpoint : SpoolCheckpoint)
    (batch : RecoveredBatch) (rest : List RecoveredBatch) :
    state.count checkpoint (batch :: rest) =
      (state.count checkpoint [batch]).count checkpoint rest := by
  simp only [ScanState.count, ScanState.mk.injEq, lastEnd_cons, lastEnd_nil, length_cons,
    length_nil, any_cons, any_nil, Bool.or_false, Bool.or_assoc, and_true, true_and]
  refine ⟨by omega, ?_⟩
  unfold Elucid.pendingBatches
  by_cases h : checkpoint.position ≤ batch.range.start
  · rw [filter_cons_of_pos (by simpa), filter_cons_of_pos (by simpa)]
    simp
    omega
  · rw [filter_cons_of_neg (by simpa using h), filter_cons_of_neg (by simpa using h)]
    simp

theorem ScanState.commit_eq {state : ScanState} (checkpoint : SpoolCheckpoint)
    (batch : RecoveredBatch) (hstart : batch.range.start = state.position)
    (hcommitted : state.committedBatches + 1 < 2 ^ 64)
    (hpending : state.pendingBatches + 1 < 2 ^ 64) :
    state.commit checkpoint batch.range.stop = .ok (state.count checkpoint [batch]) := by
  rw [ScanState.commit, checkedAdd_of_lt hcommitted, okOr_some, ok_bind, ScanState.nextPending,
    checkedAdd_of_lt hpending, okOr_some]
  by_cases h : checkpoint.position ≤ state.position
  · simp [h, hstart, ScanState.count, Elucid.pendingBatches, pure, Except.pure]
  · simp [h, hstart, ScanState.count, Elucid.pendingBatches, pure, Except.pure]

variable [Blake3]

/-! ## Batches in a file -/

@[simp] theorem batchesAt_nil (start : Nat) : batchesAt start [] = [] := rfl

@[simp] theorem length_batchesAt (start : Nat) (batches : List (BatchMetadata × Bytes)) :
    (batchesAt start batches).length = batches.length := by
  induction batches generalizing start with
  | nil => rfl
  | cons head rest ih => simp [batchesAt, ih]

theorem length_framesOf_cons (metadata : BatchMetadata) (body : Bytes)
    (rest : List (BatchMetadata × Bytes)) :
    (framesOf ((metadata, body) :: rest)).length = storedLength body + (framesOf rest).length := by
  rw [framesOf_cons, length_append, length_frame]

@[simp] theorem framesOf_append (front back : List (BatchMetadata × Bytes)) :
    framesOf (front ++ back) = framesOf front ++ framesOf back := by
  simp [framesOf]

theorem batchesAt_append (start : Nat) (front back : List (BatchMetadata × Bytes)) :
    batchesAt start (front ++ back) =
      batchesAt start front ++ batchesAt (start + (framesOf front).length) back := by
  induction front generalizing start with
  | nil => rfl
  | cons head rest ih =>
    obtain ⟨metadata, body⟩ := head
    rw [cons_append, batchesAt, batchesAt, ih, length_framesOf_cons]
    simp [Nat.add_assoc]

theorem lastEnd_batchesAt (start : Nat) (batches : List (BatchMetadata × Bytes)) :
    lastEnd start (batchesAt start batches) = start + (framesOf batches).length := by
  induction batches generalizing start with
  | nil => rfl
  | cons head rest ih =>
    obtain ⟨metadata, body⟩ := head
    rw [batchesAt, lastEnd_cons, stop_batchAt, ih, length_framesOf_cons, Nat.add_assoc]

theorem stop_le_of_mem_batchesAt {start : Nat} (h : batch ∈ batchesAt start batches) :
    batch.range.stop ≤ start + (framesOf batches).length := by
  induction batches generalizing start with
  | nil => cases h
  | cons head rest ih =>
    obtain ⟨metadata, body⟩ := head
    rw [length_framesOf_cons]
    rcases mem_cons.mp h with rfl | h
    · exact Nat.add_le_add_left (Nat.le_add_right _ _) _
    · have := ih h
      omega

/-- A boundary of the frames splits the batches. -/
theorem exists_boundary {start position : Nat}
    (h : position = start ∨ ∃ batch ∈ batchesAt start batches, batch.range.stop = position) :
    ∃ front back, batches = front ++ back ∧ position = start + (framesOf front).length := by
  induction batches generalizing start with
  | nil =>
    rcases h with rfl | ⟨_, h, _⟩
    · exact ⟨[], [], rfl, rfl⟩
    · cases h
  | cons head rest ih =>
    obtain ⟨metadata, body⟩ := head
    rcases h with rfl | ⟨batch, hmem, hstop⟩
    · exact ⟨[], (metadata, body) :: rest, rfl, rfl⟩
    · have hrest : position = start + storedLength body ∨
          ∃ batch ∈ batchesAt (start + storedLength body) rest, batch.range.stop = position := by
        rcases mem_cons.mp hmem with rfl | hmem
        · exact Or.inl hstop.symm
        · exact Or.inr ⟨batch, hmem, hstop⟩
      obtain ⟨front, back, rfl, hposition⟩ := ih hrest
      refine ⟨(metadata, body) :: front, back, rfl, ?_⟩
      rw [length_framesOf_cons]
      omega

/-- The batches behind a boundary are those whose frames start at it or behind it. -/
theorem pendingBatches_boundary (start : Nat) (front back : List (BatchMetadata × Bytes)) :
    pendingBatches ⟨start + (framesOf front).length⟩ (batchesAt start (front ++ back)) =
      batchesAt (start + (framesOf front).length) back := by
  unfold pendingBatches
  rw [batchesAt_append, filter_append, filter_eq_nil_iff.mpr, nil_append,
    filter_eq_self.mpr]
  · intro batch hbatch
    exact decide_eq_true (le_start_of_mem_batchesAt hbatch)
  · intro batch hbatch
    have := stop_le_of_mem_batchesAt hbatch
    have := batch.range.start_lt_stop
    simp only [decide_eq_true_eq]
    omega

/-! ## The parts of a cut file -/

/-- What a cut leaves behind the last whole frame : nothing, or a strict part of the frame
at `position`. -/
def IsCutTail (bodyLimit : AppendBodyLimit) (position : Nat) (tail : Bytes) : Prop :=
  tail = [] ∨ ∃ metadata body k, position + storedLength body < 2 ^ 64 ∧
    body.length ≤ bodyLimit.get ∧ k < storedLength body ∧ tail = (frame metadata body).take k

/-- A cut of a file of frames : the frames that end inside it, and a tail. -/
theorem exists_cut {start cut : Nat} (hfits : start + (framesOf batches).length < 2 ^ 64)
    (hlimit : ∀ batch ∈ batches, batch.2.length ≤ bodyLimit.get) (hcut : start ≤ cut) :
    ∃ kept rest tail, batches = kept ++ rest ∧
      (framesOf batches).take (cut - start) = framesOf kept ++ tail ∧
      IsCutTail bodyLimit (start + (framesOf kept).length) tail ∧
      wholeBatches cut (batchesAt start batches) = batchesAt start kept := by
  induction batches generalizing start with
  | nil => exact ⟨[], [], [], rfl, by simp, Or.inl rfl, rfl⟩
  | cons head rest ih =>
    obtain ⟨metadata, body⟩ := head
    rw [length_framesOf_cons] at hfits
    by_cases hwhole : start + storedLength body ≤ cut
    · obtain ⟨kept, rest', tail, rfl, htake, htail, hkept⟩ := ih (by omega)
        (fun batch hbatch => hlimit batch (mem_cons_of_mem _ hbatch)) hwhole
      refine ⟨(metadata, body) :: kept, rest', tail, rfl, ?_, ?_, ?_⟩
      · rw [framesOf_cons, framesOf_cons, append_assoc, ← htake,
          take_append, length_frame, take_of_length_le (by rw [length_frame]; omega),
          Nat.sub_sub]
      · rwa [length_framesOf_cons, ← Nat.add_assoc]
      · rw [batchesAt, wholeBatches_cons_of_le (by simpa using hwhole), hkept, batchesAt]
    · refine ⟨[], (metadata, body) :: rest, (frame metadata body).take (cut - start), rfl, ?_,
        Or.inr ⟨metadata, body, cut - start, ?_, ?_, ?_, rfl⟩, ?_⟩
      · rw [framesOf_cons, take_append_of_le_length (by rw [length_frame]; omega)]
        rfl
      · simp only [framesOf_nil, length_nil]
        omega
      · exact hlimit _ (mem_cons_self ..)
      · omega
      · refine filter_eq_nil_iff.mpr fun batch hbatch => ?_
        have hstart : start + storedLength body ≤ batch.range.stop := by
          rcases mem_cons.mp hbatch with rfl | hbatch
          · exact le_rfl
          · exact (le_start_of_mem_batchesAt hbatch).trans batch.range.start_lt_stop.le
        simp only [decide_eq_true_eq]
        omega

/-! ## The scan -/

section Scan

variable {file : Bytes} {checkpoint : SpoolCheckpoint} {state : ScanState}

theorem scanLoop_done (h : file.length ≤ state.position) :
    scanLoop file checkpoint bodyLimit state = .ok (state, 0) := by
  rw [scanLoop, if_neg (by omega)]

theorem scanLoop_discard (h : state.position < file.length)
    (hscan : scanFrame file state.position bodyLimit = .ok none) :
    scanLoop file checkpoint bodyLimit state = .ok (state, file.length - state.position) := by
  rw [scanLoop, if_pos h]
  split <;> simp_all

theorem scanLoop_commit {frameEnd : Nat} {next : ScanState} (h : state.position < file.length)
    (hscan : scanFrame file state.position bodyLimit = .ok (some frameEnd))
    (hnext : state.commit checkpoint frameEnd = .ok next) :
    scanLoop file checkpoint bodyLimit state = scanLoop file checkpoint bodyLimit next := by
  rw [scanLoop, if_pos h]
  split
  · simp_all
  · simp_all
  · split <;> simp_all

/-- The counters stay below the position, so they never overflow. -/
structure ScanState.Bounded (state : ScanState) : Prop where
  pending_le : state.pendingBatches ≤ state.committedBatches
  committed_le : state.committedBatches ≤ state.position

/-- The scan counts whole frames, whatever follows them. -/
theorem scanLoop_frames {before tail : Bytes} {kept : List (BatchMetadata × Bytes)}
    (hposition : state.position = before.length) (hbounded : state.Bounded)
    (hfits : before.length + (framesOf kept).length < 2 ^ 64)
    (hlimit : ∀ batch ∈ kept, batch.2.length ≤ bodyLimit.get) :
    scanLoop (before ++ (framesOf kept ++ tail)) checkpoint bodyLimit state =
      scanLoop (before ++ (framesOf kept ++ tail)) checkpoint bodyLimit
        (state.count checkpoint (batchesAt before.length kept)) := by
  induction kept generalizing before state with
  | nil => simp [ScanState.count, Elucid.pendingBatches]
  | cons head rest ih =>
    obtain ⟨metadata, body⟩ := head
    obtain ⟨hpending, hcommitted⟩ := hbounded
    have hstored := storedLength_eq body
    rw [length_framesOf_cons] at hfits
    have hfile : before ++ (framesOf ((metadata, body) :: rest) ++ tail) =
        before ++ (frame metadata body ++ (framesOf rest ++ tail)) := by
      simp
    have hsplit : before ++ (framesOf ((metadata, body) :: rest) ++ tail) =
        (before ++ frame metadata body) ++ (framesOf rest ++ tail) := by
      simp
    have hlen : (before ++ frame metadata body).length = before.length + storedLength body := by
      rw [length_append, length_frame]
    have hscan : scanFrame (before ++ (framesOf ((metadata, body) :: rest) ++ tail))
        state.position bodyLimit = .ok (some (before.length + storedLength body)) := by
      rw [hfile, hposition]
      exact scanFrame_whole (by omega) (hlimit _ (mem_cons_self ..))
    rw [batchesAt, ScanState.count_cons]
    have hnext := ScanState.commit_eq checkpoint (batchAt before.length metadata body)
      hposition.symm (by omega) (by omega)
    rw [scanLoop_commit (by rw [hsplit, length_append, hlen]; omega) hscan hnext]
    rw [hsplit, ← hlen]
    refine ih (by simp [ScanState.count, length_frame]) ⟨?_, ?_⟩ (by rw [hlen]; omega)
      fun batch hbatch => hlimit batch (mem_cons_of_mem _ hbatch)
    · have := length_filter_le (fun batch : RecoveredBatch =>
        decide (checkpoint.position ≤ batch.range.start)) [batchAt before.length metadata body]
      simp only [ScanState.count, Elucid.pendingBatches, length_singleton] at this ⊢
      omega
    · simp only [ScanState.count, lastEnd_cons, lastEnd_nil, length_singleton, stop_batchAt]
      omega

/-- The scan discards a tail. -/
theorem scanLoop_tail {before tail : Bytes} (hposition : state.position = before.length)
    (htail : IsCutTail bodyLimit before.length tail) :
    scanLoop (before ++ tail) checkpoint bodyLimit state = .ok (state, tail.length) := by
  rcases Nat.eq_zero_or_pos tail.length with hempty | hpos
  · rw [scanLoop_done (by simp [hposition, hempty]), hempty]
  · rcases htail with rfl | ⟨metadata, body, k, hfits, hlimit, hk, rfl⟩
    · simp at hpos
    · have hscan := scanFrame_cut metadata hfits hlimit hk
      rw [← hposition] at hscan
      rw [scanLoop_discard (by rw [length_append]; omega) hscan, length_append]
      congr 2
      omega

end Scan

/-! ## The reader -/

/-- The reader that recovery hands out for the range from the checkpoint to `recoveredEnd`. -/
def RecoveredBatches.fromRecovery (checkpoint : SpoolCheckpoint) (recoveredEnd : Nat)
    (bodyLimit : AppendBodyLimit) : RecoveredBatches :=
  ⟨checkpoint.position, recoveredEnd, 0, bodyLimit, .readingRecovery⟩

section Reader

variable {before body after : Bytes} {metadata : BatchMetadata}

/-- A whole frame inside the range is read back. -/
theorem readRecoveredBatch_whole {stop : Nat} (hfits : before.length + storedLength body < 2 ^ 64)
    (hlimit : body.length ≤ bodyLimit.get) (hstop : before.length + storedLength body ≤ stop) :
    readRecoveredBatch (before ++ (frame metadata body ++ after)) before.length stop bodyLimit =
      .ok (batchAt before.length metadata body, before.length + storedLength body) := by
  have hstored := storedLength_eq body
  rw [readRecoveredBatch, readExactCommitted, slice_frame_header, okOr_some, ok_bind,
    decodeHeader_frameHeader metadata body (by omega) hlimit, ok_bind]
  simp only [storedBytes_frameDecoded, bodyBytes_frameDecoded, raw_frameDecoded,
    metadata_frameDecoded, bodyDigest_frameDecoded, readExactCommitted]
  rw [checkedAdd_of_lt hfits, okOr_some, ok_bind, ensure_of hstop, ok_bind, slice_frame_body,
    okOr_some, ok_bind, slice_frame_footer, okOr_some, ok_bind]
  simp only [Hasher.finalize, Hasher.absorbed_update, Hasher.absorbed_new, nil_append]
  rw [validateDigestsAndFooter_frame metadata body (by omega), ok_bind,
    SpoolBatchRange.new_of_lt (by omega), ok_bind]
  rfl

variable {extent : SpoolExtent}

theorem nextBatches_complete {file : Bytes} {batches : RecoveredBatches}
    (h : batches.state = .recoveryComplete) (n : Nat) :
    batches.nextBatches file extent n = List.replicate n (.ok none) := by
  induction n with
  | zero => rfl
  | succ n ih =>
    have hnext : batches.nextBatch file extent = (batches, .ok none) := by
      simp [RecoveredBatches.nextBatch, RecoveredBatches.beginNext, h]
    rw [RecoveredBatches.nextBatches, hnext, ih, replicate_succ]

theorem nextBatch_end {file : Bytes} {position : Nat} :
    (RecoveredBatches.fromRecovery ⟨position⟩ position bodyLimit).nextBatch file extent =
      ({ RecoveredBatches.fromRecovery ⟨position⟩ position bodyLimit with
          state := .recoveryComplete }, .ok none) := by
  simp [RecoveredBatches.nextBatch, RecoveredBatches.beginNext, RecoveredBatches.readableEnd,
    RecoveredBatches.fromRecovery]

theorem nextBatch_frame (before : Bytes) (metadata : BatchMetadata) (body after : Bytes)
    (extent : SpoolExtent) {stop : Nat} (hfits : before.length + storedLength body < 2 ^ 64)
    (hlimit : body.length ≤ bodyLimit.get) (hstop : before.length + storedLength body ≤ stop) :
    (RecoveredBatches.fromRecovery ⟨before.length⟩ stop bodyLimit).nextBatch
        (before ++ (frame metadata body ++ after)) extent =
      (RecoveredBatches.fromRecovery ⟨before.length + storedLength body⟩ stop bodyLimit,
        .ok (some (batchAt before.length metadata body))) := by
  have hstored := storedLength_eq body
  have hne : before.length ≠ stop := by omega
  simp only [RecoveredBatches.nextBatch, RecoveredBatches.beginNext, RecoveredBatches.readableEnd,
    RecoveredBatches.fromRecovery, hne, if_false]
  rw [readRecoveredBatch_whole hfits hlimit hstop]
  rfl

/-- The reader returns the frames of its range in order, and then nothing more. -/
theorem nextBatches_frames (before : Bytes) (batches : List (BatchMetadata × Bytes))
    (extent : SpoolExtent) (hfits : before.length + (framesOf batches).length < 2 ^ 64)
    (hlimit : ∀ batch ∈ batches, batch.2.length ≤ bodyLimit.get) (n : Nat) :
    (RecoveredBatches.fromRecovery ⟨before.length⟩ (before.length + (framesOf batches).length)
        bodyLimit).nextBatches (before ++ framesOf batches) extent (batches.length + (n + 1)) =
      (batchesAt before.length batches).map (fun batch => .ok (some batch)) ++
        List.replicate (n + 1) (.ok none) := by
  induction batches generalizing before with
  | nil =>
    rw [length_nil, Nat.zero_add, RecoveredBatches.nextBatches]
    simp only [framesOf_nil, length_nil, Nat.add_zero, nextBatch_end]
    rw [nextBatches_complete rfl]
    rfl
  | cons head rest ih =>
    obtain ⟨metadata, body⟩ := head
    rw [length_framesOf_cons] at hfits ⊢
    have hlen : (before ++ frame metadata body).length = before.length + storedLength body := by
      rw [length_append, length_frame]
    have hnext := nextBatch_frame before metadata body (framesOf rest) extent
      (show before.length + storedLength body < 2 ^ 64 by omega)
      (hlimit _ (mem_cons_self ..))
      (show _ ≤ before.length + (storedLength body + (framesOf rest).length) by omega)
    have hcount : ((metadata, body) :: rest).length + (n + 1) = rest.length + (n + 1) + 1 := by
      rw [length_cons]
      omega
    rw [hcount, RecoveredBatches.nextBatches, framesOf_cons, hnext, batchesAt, map_cons,
      cons_append]
    have hrest := ih (before ++ frame metadata body) (by rw [hlen]; omega)
      fun batch hbatch => hlimit batch (mem_cons_of_mem _ hbatch)
    rw [hlen, Nat.add_assoc, append_assoc] at hrest
    rw [hrest]

end Reader

/-! ## Recovery of a cut file -/

/-- The appended batches, with the digest and the range each append returned. -/
def appendedBatches (batches : List (BatchMetadata × Bytes)) (appends : List DurableAppend) :
    List RecoveredBatch :=
  List.zipWith (fun batch result => ⟨batch.1, batch.2, result.bodyDigest, result.range⟩)
    batches appends

theorem appendedBatches_durableAppend (start : Nat) (batches : List (BatchMetadata × Bytes)) :
    appendedBatches batches ((batchesAt start batches).map RecoveredBatch.durableAppend) =
      batchesAt start batches := by
  induction batches generalizing start with
  | nil => rfl
  | cons head rest ih =>
    obtain ⟨metadata, body⟩ := head
    rw [batchesAt, map_cons, appendedBatches, zipWith_cons_cons, ← appendedBatches, ih]
    rfl

/-- The scan of whole frames and a tail. -/
theorem scanCommittedFrames_of_parts {tail : Bytes} {checkpoint : SpoolCheckpoint}
    {kept : List (BatchMetadata × Bytes)} (hfits : (framesOf kept).length < 2 ^ 64)
    (hlimit : ∀ batch ∈ kept, batch.2.length ≤ bodyLimit.get)
    (htail : IsCutTail bodyLimit (framesOf kept).length tail) (hboundary : checkpoint.position = 0 ∨
      ∃ batch ∈ batchesAt 0 kept, batch.range.stop = checkpoint.position) :
    scanCommittedFrames (framesOf kept ++ tail) checkpoint bodyLimit =
      .ok ⟨kept.length, (pendingBatches checkpoint (batchesAt 0 kept)).length,
        (framesOf kept).length, tail.length⟩ := by
  have hend : lastEnd 0 (batchesAt 0 kept) = (framesOf kept).length := by
    rw [lastEnd_batchesAt, Nat.zero_add]
  have hscan : scanLoop (framesOf kept ++ tail) checkpoint bodyLimit
      (ScanState.initial checkpoint) =
        .ok ((ScanState.initial checkpoint).count checkpoint (batchesAt 0 kept), tail.length) := by
    have hframes : scanLoop ([] ++ (framesOf kept ++ tail)) checkpoint bodyLimit
        (ScanState.initial checkpoint) = _ :=
      scanLoop_frames rfl ⟨le_rfl, le_rfl⟩ (by simpa using hfits) hlimit
    rw [nil_append, length_nil] at hframes
    rw [hframes]
    exact scanLoop_tail hend htail
  have hle : checkpoint.position ≤ (framesOf kept).length := by
    rcases hboundary with h | ⟨batch, hbatch, h⟩
    · omega
    · have := stop_le_of_mem_batchesAt hbatch
      omega
  have hflag : ((ScanState.initial checkpoint).count checkpoint
      (batchesAt 0 kept)).checkpointIsBoundary = true := by
    simp only [ScanState.count, ScanState.initial, Bool.or_eq_true, beq_iff_eq, any_eq_true]
    exact hboundary
  rw [scanCommittedFrames, hscan, ok_bind]
  simp only
  rw [ensure_of ⟨hle.trans_eq hend.symm, hflag⟩, ok_bind]
  simp [ScanState.count, ScanState.initial, hend, pure, Except.pure]

/-- Recovery of a cut data file finds the frames that end inside the cut, drops the rest,
and hands out the frames behind the checkpoint exactly as they were appended. -/
theorem scanCommittedFrames_cut {bodyLimit : AppendBodyLimit}
    {batches : List (BatchMetadata × Bytes)} {file : Bytes} {appends : List DurableAppend}
    (happend : appendAll bodyLimit [] batches = .ok (file, appends))
    (cut : Nat) (hcut : cut ≤ file.length) (checkpoint : SpoolCheckpoint)
    (hboundary : checkpoint.position = 0 ∨
      ∃ result ∈ appends, result.range.stop = checkpoint.position)
    (hcheckpoint : checkpoint.position ≤ cut) :
    let whole := wholeBatches cut (appendedBatches batches appends)
    let pending := pendingBatches checkpoint whole
    let committedBytes := lastEnd 0 whole
    committedBytes ≤ cut ∧
    scanCommittedFrames (file.take cut) checkpoint bodyLimit =
      .ok ⟨whole.length, pending.length, committedBytes, cut - committedBytes⟩ ∧
    ∀ extent n, (RecoveredBatches.fromRecovery checkpoint committedBytes bodyLimit).nextBatches
        ((file.take cut).take committedBytes) extent (pending.length + (n + 1)) =
      pending.map (fun batch => .ok (some batch)) ++ List.replicate (n + 1) (.ok none) := by
  obtain ⟨rfl, hfits, hlimit, rfl⟩ := appendAll_eq_ok (by decide) happend
  rw [nil_append] at hcut hfits ⊢
  rw [length_nil, appendedBatches_durableAppend]
  obtain ⟨kept, rest, tail, rfl, htake, htail, hwhole⟩ :=
    exists_cut (by rwa [Nat.zero_add]) hlimit (Nat.zero_le cut)
  rw [Nat.zero_add] at htail
  have hend : lastEnd 0 (batchesAt 0 kept) = (framesOf kept).length := by
    rw [lastEnd_batchesAt, Nat.zero_add]
  have hlen : (framesOf kept).length + tail.length = cut := by
    rw [← length_append, ← htake, length_take, Nat.sub_zero, Nat.min_eq_left hcut]
  have hkept : ∀ batch ∈ kept, batch.2.length ≤ bodyLimit.get :=
    fun batch hbatch => hlimit batch (mem_append_left _ hbatch)
  have hboundary' : checkpoint.position = 0 ∨
      ∃ batch ∈ batchesAt 0 kept, batch.range.stop = checkpoint.position := by
    refine hboundary.imp_right ?_
    rintro ⟨result, hresult, hstop⟩
    obtain ⟨batch, hbatch, rfl⟩ := mem_map.mp hresult
    refine ⟨batch, ?_, hstop⟩
    rw [← hwhole]
    exact mem_filter.mpr ⟨hbatch, decide_eq_true (hstop.trans_le hcheckpoint)⟩
  obtain ⟨front, back, rfl, hposition⟩ := exists_boundary hboundary'
  obtain ⟨position⟩ := checkpoint
  subst hposition
  rw [Nat.sub_zero] at htake
  simp only [hwhole, hend, pendingBatches_boundary, length_batchesAt]
  refine ⟨by omega, ?_, fun extent n => ?_⟩
  · rw [htake, scanCommittedFrames_of_parts (by omega) hkept htail hboundary',
      pendingBatches_boundary, length_batchesAt]
    congr 2
    omega
  · rw [htake, take_left]
    have hlength : (framesOf (front ++ back)).length < 2 ^ 64 := by omega
    have hreads := nextBatches_frames (framesOf front) back extent
      (by simpa using hlength) (fun batch hbatch => hkept batch (mem_append_right _ hbatch)) n
    simpa using hreads

omit [Chrono] [Blake3] in
/-- Two batches, cut four bytes into the second frame, with the checkpoint at the start. -/
theorem scanCommittedFrames_cut_sample :
    letI := Chrono.unbounded
    letI := Blake3.constant
    scanCommittedFrames
        ((framesOf [(BatchMetadata.sample 5, [7]), (BatchMetadata.sample 6, [])]).take 201) ⟨0⟩
        ⟨16, by decide, by decide⟩ =
      .ok ⟨1, 1, 197, 4⟩ := by
  let _ := Chrono.unbounded
  let _ := Blake3.constant
  have happend := appendAll_of_fits ⟨16, by decide, by decide⟩ []
    [(BatchMetadata.sample 5, [7]), (BatchMetadata.sample 6, [])]
    (by simp [framesOf, length_frame, storedLength_eq]) (by simp)
  exact (scanCommittedFrames_cut happend 201
    (by simp [framesOf, length_frame, storedLength_eq]) ⟨0⟩ (Or.inl rfl) (by decide)).2.1

end Elucid
