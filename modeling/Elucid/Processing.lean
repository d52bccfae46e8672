import Elucid.Checkpoint
import Elucid.DeadLetterObject
import Elucid.Metastore
import Elucid.SegmentBuilders

/-!
# What the ingestion worker computes

The worker turns spooled batches into segments and dead-letter objects. Here are its
errors and the functions it calls between its operations on files and stores : the times
and the coverage of a sealed segment, the requirements of a batch, and the occurrences it
remembers of recovered outputs.

`segmentCoverage_eq_ok` says that the coverage of a segment names the occurrences of its
rows, and `mem_rememberOccurrences` what is known behind a recovered record.
-/

namespace Elucid

open List

/-! ## Errors -/

/-- `StorageErrorKind`, for the operations of the worker. -/
inductive StorageErrorKind
  | parquetBuildFailed
  | parquetInvalid
  | objectStoreUnavailable
  | objectUploadFailed
  | objectVerificationFailed
  | objectIntegrityError
  | localCapacityExhausted
  deriving DecidableEq, Repr

inductive StagedObjectReadError
  | capacityExceeded
  | sizeMismatch
  | digestMismatch
  | io
  deriving DecidableEq, Repr

inductive OutputRecoveryError
  | model (error : OutputRecoveryModelError)
  | corrupt (message : String)
  | io (operation : String)
  | conflict
  deriving DecidableEq, Repr

inductive IngestionProcessingError
  | cancelled
  | spool (error : SpoolError)
  | recovery (error : OutputRecoveryError)
  | recoveryModel (error : OutputRecoveryModelError)
  | normalization (error : NormalizationError)
  | segmentBuild (error : SegmentBuildError)
  | deadLetter (error : DeadLetterObjectError)
  | localStaging (operation : String)
  | storage (kind : StorageErrorKind)
  | stagedRead (error : StagedObjectReadError)
  | publication (error : PublicationError)
  | invariant (message : String)
  deriving DecidableEq

/-- `transient_storage`. -/
def StorageErrorKind.isTransient : StorageErrorKind → Bool
  | .objectStoreUnavailable | .objectUploadFailed | .objectVerificationFailed => true
  | _ => false

/-- `transient_publication` and `transient_storage`, on the error of the worker. -/
def IngestionProcessingError.isTransient : IngestionProcessingError → Bool
  | .publication error => error.kind = .unavailable
  | .storage kind => kind.isTransient
  | _ => false

/-! ## Times of a segment -/

/-- `SegmentTimes::new`, on microseconds. -/
def SegmentTimes.new (eventDay minimumEventTime maximumEventTime minimumIngestionTime
    maximumIngestionTime : Int) : Option SegmentTimes :=
  if h : minimumEventTime ≤ maximumEventTime ∧ minimumIngestionTime ≤ maximumIngestionTime ∧
      minimumEventTime / 86400000000 = eventDay ∧ maximumEventTime / 86400000000 = eventDay then
    some ⟨eventDay, minimumEventTime, maximumEventTime, minimumIngestionTime,
      maximumIngestionTime, h.1, h.2.1, h.2.2⟩
  else none

section Times

variable [Chrono]

/-- `timestamp`, in microseconds. -/
def timestamp (milliseconds : Int) : Except IngestionProcessingError Int := do
  ensure (Chrono.fromTimestampMillis milliseconds = true)
    (.invariant "normalized timestamp is outside the UTC range")
  return milliseconds * 1000

/-- The times of a sealed segment. -/
def segmentTimes (segment : SealedSegment) : Except IngestionProcessingError SegmentTimes := do
  let minimumEventTime ← timestamp segment.bounds.minimumEventTime.unixMilliseconds
  let maximumEventTime ← timestamp segment.bounds.maximumEventTime.unixMilliseconds
  let minimumIngestionTime ← timestamp segment.bounds.minimumIngestionTime.unixMilliseconds
  let maximumIngestionTime ← timestamp segment.bounds.maximumIngestionTime.unixMilliseconds
  okOr (SegmentTimes.new segment.key.eventDay.day minimumEventTime maximumEventTime
      minimumIngestionTime maximumIngestionTime)
    (.invariant "sealed segment time bounds are invalid")

theorem timestamp_eq_ok {milliseconds time : Int} (h : timestamp milliseconds = .ok time) :
    Chrono.fromTimestampMillis milliseconds = true ∧ time = milliseconds * 1000 := by
  obtain ⟨_, hrange, h⟩ := bind_eq_ok.mp h
  exact ⟨ensure_eq_ok.mp hrange, (Except.ok.inj h).symm⟩

/-- The times of a segment are its bounds, and `chrono` represents them. -/
theorem segmentTimes_eq_ok {segment : SealedSegment} {times : SegmentTimes}
    (h : segmentTimes segment = .ok times) :
    times.eventDay = segment.key.eventDay.day ∧
      times.minimumEventTime = segment.bounds.minimumEventTime.unixMilliseconds * 1000 ∧
      times.maximumEventTime = segment.bounds.maximumEventTime.unixMilliseconds * 1000 ∧
      Chrono.fromTimestampMillis segment.bounds.maximumEventTime.unixMilliseconds = true := by
  obtain ⟨minimum, hminimum, h⟩ := bind_eq_ok.mp h
  obtain ⟨maximum, hmaximum, h⟩ := bind_eq_ok.mp h
  obtain ⟨_, -, h⟩ := bind_eq_ok.mp h
  obtain ⟨_, -, h⟩ := bind_eq_ok.mp h
  have hnew := okOr_eq_ok h
  rw [SegmentTimes.new] at hnew
  split at hnew
  · cases hnew
    exact ⟨rfl, (timestamp_eq_ok hminimum).2, (timestamp_eq_ok hmaximum).2,
      (timestamp_eq_ok hmaximum).1⟩
  · cases hnew

end Times

/-! ## Coverage of a segment -/

/-- The results of a loop that did not fail, and where they come from. -/
theorem mapM_eq_ok {α β ε : Type} {f : α → Except ε β} {xs : List α} {ys : List β}
    (h : xs.mapM f = .ok ys) :
    (∀ y ∈ ys, ∃ x ∈ xs, f x = .ok y) ∧ ∀ x ∈ xs, ∃ y ∈ ys, f x = .ok y := by
  replace h := forall₂_of_mapM_eq_ok h
  induction h with
  | nil => simp
  | cons hfirst _ ih =>
    simp only [forall_mem_cons, exists_mem_cons_iff, hfirst, Except.ok.injEq]
    exact ⟨⟨.inl trivial, fun y hy => .inr (ih.1 y hy)⟩,
      .inl trivial, fun x hx => .inr (ih.2 x hx)⟩

/-- The spool ranges of the batches the worker has read. -/
abbrev BatchRanges := BatchId → Option SpoolBatchRange

section Coverage

variable [Chrono]
variable {rows : List SegmentRow} {batchId : BatchId}
variable {coverage : BatchPositionCoverage} {ranges : BatchRanges}

/-- The occurrence a row stands for. -/
def SegmentRow.occurrence (row : SegmentRow) : BatchId × Nat :=
  (row.batchId, row.row.location.inputPosition)

/-- The keys of the map of `segment_coverage`, in its order. -/
def coveredBatchIds (rows : List SegmentRow) : List BatchId :=
  (rows.map (·.batchId)).dedup.insertionSort fun a b => ¬ textLt b.uuid.bytes a.uuid.bytes

/-- The positions of a batch among the rows, in order. -/
def coveredPositions (rows : List SegmentRow) (batchId : BatchId) : List Nat :=
  ((rows.filter fun row => row.batchId = batchId).map fun row =>
    row.row.location.inputPosition).insertionSort (· ≤ ·)

/-- The coverage of one batch by a segment. -/
def batchCoverage (rows : List SegmentRow) (ranges : BatchRanges) (batchId : BatchId) :
    Except IngestionProcessingError BatchPositionCoverage := do
  let range ← okOr (ranges batchId) (.invariant "sealed segment row has no retained spool range")
  (BatchPositionCoverage.new batchId range (coveredPositions rows batchId)).mapError
    fun error => .recovery (.model error)

def segmentCoverage (rows : List SegmentRow) (ranges : BatchRanges) :
    Except IngestionProcessingError (List BatchPositionCoverage) :=
  (coveredBatchIds rows).mapM (batchCoverage rows ranges)

theorem mem_coveredBatchIds :
    batchId ∈ coveredBatchIds rows ↔ ∃ row ∈ rows, row.batchId = batchId := by
  simp [coveredBatchIds]

theorem mem_coveredPositions {position : Nat} :
    position ∈ coveredPositions rows batchId ↔ (batchId, position) ∈ rows.map (·.occurrence) := by
  simp [coveredPositions, SegmentRow.occurrence, and_assoc]

omit [Chrono] in
theorem BatchPositionCoverage.new_eq_ok {range : SpoolBatchRange} {positions : List Nat}
    (h : BatchPositionCoverage.new batchId range positions = .ok coverage) :
    coverage.batchId = batchId ∧ coverage.spoolRange = range ∧ coverage.positions = positions := by
  unfold BatchPositionCoverage.new at h
  split_ifs at h
  cases h
  exact ⟨rfl, rfl, rfl⟩

theorem batchCoverage_eq_ok (h : batchCoverage rows ranges batchId = .ok coverage) :
    coverage.batchId = batchId ∧ ranges batchId = some coverage.spoolRange ∧
      coverage.positions = coveredPositions rows batchId := by
  obtain ⟨range, hrange, h⟩ := bind_eq_ok.mp h
  cases hnew : BatchPositionCoverage.new batchId range (coveredPositions rows batchId) with
  | error error => rw [hnew] at h; cases h
  | ok other =>
    rw [hnew] at h
    obtain rfl : other = coverage := Except.ok.inj h
    obtain ⟨hid, hspool, hpositions⟩ := BatchPositionCoverage.new_eq_ok hnew
    exact ⟨hid, hspool ▸ okOr_eq_ok hrange, hpositions⟩

/-- The coverage of a segment names each of its batches once, with the retained range, and
the occurrences of its rows. -/
theorem segmentCoverage_eq_ok {coverage : List BatchPositionCoverage}
    (h : segmentCoverage rows ranges = .ok coverage) :
    (∀ item ∈ coverage, ranges item.batchId = some item.spoolRange) ∧
      ∀ occurrence, occurrence ∈ coverage.flatMap (·.occurrences) ↔
        occurrence ∈ rows.map (·.occurrence) := by
  obtain ⟨hitems, hbatches⟩ := mapM_eq_ok h
  constructor
  · intro item hitem
    obtain ⟨batchId, -, hbatch⟩ := hitems item hitem
    obtain ⟨hid, hrange, -⟩ := batchCoverage_eq_ok hbatch
    rw [hid, hrange]
  · rintro ⟨batchId, position⟩
    rw [mem_flatMap, ← mem_coveredPositions]
    constructor
    · rintro ⟨item, hitem, hoccurrence⟩
      obtain ⟨other, -, hbatch⟩ := hitems item hitem
      obtain ⟨hid, -, hpositions⟩ := batchCoverage_eq_ok hbatch
      obtain ⟨_, hposition, heq⟩ := mem_map.mp hoccurrence
      cases heq
      rwa [hid, ← hpositions]
    · intro hposition
      obtain ⟨row, hrow, heq⟩ := mem_map.mp (mem_coveredPositions.mp hposition)
      have hid : batchId ∈ coveredBatchIds rows :=
        mem_coveredBatchIds.mpr ⟨row, hrow, congrArg Prod.fst heq⟩
      obtain ⟨item, hitem, hbatch⟩ := hbatches batchId hid
      obtain ⟨rfl, -, hpositions⟩ := batchCoverage_eq_ok hbatch
      exact ⟨item, hitem, mem_map_of_mem (hpositions ▸ hposition)⟩

end Coverage

/-! ## Requirements and recovered coverage -/

section Requirements

variable [Chrono]

/-- `BatchOutputRequirements::from_normalized`. -/
def BatchOutputRequirements.fromNormalized (batch : NormalizedBatch)
    (spoolRange : SpoolBatchRange) :
    Except OutputRecoveryModelError BatchOutputRequirements :=
  BatchOutputRequirements.new batch.metadata.batchId spoolRange (batch.records.map (·.inputPosition))

theorem BatchOutputRequirements.fromNormalized_eq_ok {batch : NormalizedBatch}
    {range : SpoolBatchRange} {requirements : BatchOutputRequirements}
    (h : fromNormalized batch range = .ok requirements) :
    requirements.batchId = batch.metadata.batchId ∧ requirements.spoolRange = range ∧
      requirements.positions = batch.records.map (·.inputPosition) := by
  unfold fromNormalized BatchOutputRequirements.new at h
  split_ifs at h
  cases h
  exact ⟨rfl, rfl, rfl⟩

end Requirements

/-- The loop of `remember_coverage`, on the occurrences of a record. -/
def rememberOccurrences (known : List (BatchId × Nat)) :
    List (BatchId × Nat) → Except IngestionProcessingError (List (BatchId × Nat))
  | [] => .ok known
  | occurrence :: rest => do
    ensure (occurrence ∉ known) (.invariant "recovered output coverage overlaps")
    rememberOccurrences (occurrence :: known) rest

def rememberCoverage (known : List (BatchId × Nat)) (record : OutputRecoveryRecord) :
    Except IngestionProcessingError (List (BatchId × Nat)) :=
  rememberOccurrences known record.occurrences

theorem mem_rememberOccurrences {known remembered occurrences : List (BatchId × Nat)}
    (h : rememberOccurrences known occurrences = .ok remembered) (occurrence : BatchId × Nat) :
    occurrence ∈ remembered ↔ occurrence ∈ known ∨ occurrence ∈ occurrences := by
  induction occurrences generalizing known with
  | nil =>
    cases h
    simp
  | cons first rest ih =>
    obtain ⟨_, -, h⟩ := bind_eq_ok.mp h
    rw [ih h, mem_cons, mem_cons]
    tauto

/-- Coverage that does not overlap is remembered. -/
theorem exists_rememberOccurrences {known occurrences : List (BatchId × Nat)}
    (hnodup : occurrences.Nodup) (hdisjoint : ∀ occurrence ∈ occurrences, occurrence ∉ known) :
    ∃ remembered, rememberOccurrences known occurrences = .ok remembered := by
  induction occurrences generalizing known with
  | nil => exact ⟨known, rfl⟩
  | cons first rest ih =>
    obtain ⟨hfirst, hrest⟩ := nodup_cons.mp hnodup
    have hnew : ∀ occurrence ∈ rest, occurrence ∉ first :: known := by
      intro occurrence hoccurrence hin
      rcases mem_cons.mp hin with rfl | hin
      · exact hfirst hoccurrence
      · exact hdisjoint occurrence (mem_cons_of_mem _ hoccurrence) hin
    obtain ⟨remembered, hremembered⟩ := ih hrest hnew
    exact ⟨remembered, bind_eq_ok.mpr
      ⟨(), ensure_eq_ok.mpr (hdisjoint first mem_cons_self), hremembered⟩⟩

/-- The positions of a batch among the recovered ones. -/
def recoveredPositions (known : List (BatchId × Nat)) (batchId : BatchId) : List Nat :=
  (known.filter fun occurrence => occurrence.1 = batchId).map Prod.snd

theorem mem_recoveredPositions {known : List (BatchId × Nat)} {batchId : BatchId} {position : Nat} :
    position ∈ recoveredPositions known batchId ↔ (batchId, position) ∈ known := by
  simp [recoveredPositions]

end Elucid
