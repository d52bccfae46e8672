import Elucid.SpoolModel
import Mathlib.Data.List.Sort

/-!
# Output recovery records

An output of the ingestion worker is a Parquet segment or a dead-letter object. Before
it is registered anywhere, the worker writes a recovery record with the metadata of the
output and the occurrences it covers, as positions of spooled batches. The types here
are those of the storage descriptors and of the records, each with what its constructor
checks.

`recoveryAction` is the table by which a restart decides what to do with a record.
-/

namespace Elucid

open BigEndian

/-! ## Storage descriptors -/

abbrev SegmentId := Uuid
abbrev StoredObjectId := Uuid
abbrev OutputRecoveryId := UuidV7

structure ManagedRoot where
  path : String
  deriving DecidableEq

inductive ManagedObjectKind
  | parquetData
  | deadLetter
  deriving DecidableEq, Repr

inductive ObjectOwner
  | segment (id : SegmentId)
  | deadLetterBatch (id : BatchId)
  deriving DecidableEq

/-- `ManagedObjectKey` : its path is made of these three. -/
structure ManagedObjectKey where
  root : ManagedRoot
  owner : ObjectOwner
  objectId : StoredObjectId
  deriving DecidableEq

/-- `ManagedObjectKey::kind`. -/
def ManagedObjectKey.kind (key : ManagedObjectKey) : ManagedObjectKind :=
  match key.owner with
  | .segment _ => .parquetData
  | .deadLetterBatch _ => .deadLetter

/-- `ManagedObjectKey::parquet`. -/
def ManagedObjectKey.parquet (root : ManagedRoot) (segmentId : SegmentId)
    (objectId : StoredObjectId) : ManagedObjectKey :=
  ⟨root, .segment segmentId, objectId⟩

/-- `ManagedObjectKey::dead_letter`. -/
def ManagedObjectKey.deadLetter (root : ManagedRoot) (batchId : BatchId)
    (objectId : StoredObjectId) : ManagedObjectKey :=
  ⟨root, .deadLetterBatch batchId, objectId⟩

inductive ObjectMediaType
  | parquetData
  | deadLetter
  deriving DecidableEq, Repr

/-- The media type of the objects of a kind. -/
def ManagedObjectKind.mediaType : ManagedObjectKind → ObjectMediaType
  | .parquetData => .parquetData
  | .deadLetter => .deadLetter

@[ext] structure ObjectDescriptor where
  key : ManagedObjectKey
  expectedByteSize : Nat
  digest : Digest
  mediaType : ObjectMediaType
  formatVersion : Nat
  mediaType_eq : mediaType = key.kind.mediaType
  formatVersion_pos : 0 < formatVersion

instance : DecidableEq ObjectDescriptor := fun _ _ => decidable_of_iff' _ ObjectDescriptor.ext_iff

/-- `SegmentTimes`, in microseconds, with the event day as a number of days. -/
structure SegmentTimes where
  eventDay : Int
  minimumEventTime : Int
  maximumEventTime : Int
  minimumIngestionTime : Int
  maximumIngestionTime : Int
  eventTimes_le : minimumEventTime ≤ maximumEventTime
  ingestionTimes_le : minimumIngestionTime ≤ maximumIngestionTime
  eventDay_eq : minimumEventTime / 86400000000 = eventDay ∧
    maximumEventTime / 86400000000 = eventDay
  deriving DecidableEq

@[ext] structure SegmentDescriptor where
  segmentId : SegmentId
  sourceId : SourceId
  schemaId : SchemaId
  times : SegmentTimes
  rowCount : Nat
  uncompressedBytes : Nat
  object : ObjectDescriptor
  rowCount_pos : 0 < rowCount
  uncompressedBytes_pos : 0 < uncompressedBytes
  owner_eq : object.key.owner = .segment segmentId

instance : DecidableEq SegmentDescriptor := fun _ _ => decidable_of_iff' _ SegmentDescriptor.ext_iff

structure DeadLetterDescriptor where
  inputId : InputId
  batchId : BatchId
  object : ObjectDescriptor
  owner_eq : object.key.owner = .deadLetterBatch batchId
  deriving DecidableEq

/-! ## Coverage -/

inductive OutputRecoveryModelError
  | metadataOutOfRange
  | coveredPositionsMustNotBeEmpty
  | positionsMustIncrease
  | coveredBatchLimitExceeded
  | coveredPositionLimitExceeded
  | coveredBatchesOverlap
  | segmentRowCoverageMismatch
  | deadLetterBatchMismatch
  | outputIsNotPublished
  | retainedSpoolBytesMissing
  | duplicateBatchRequirements
  | batchRequirementsAreNotContiguous
  | publishedCoverageIsUnknown
  | publishedCoverageRangeMismatch
  | publishedCoverageOverlaps
  deriving DecidableEq, Repr

def maximumCoveredBatches : Nat := 50000

def maximumCoveredPositions : Nat := 100000

/-- `BatchPositionCoverage` : some positions of one batch. -/
structure BatchPositionCoverage where
  batchId : BatchId
  spoolRange : SpoolBatchRange
  positions : List Nat
  positions_ne : positions ≠ []
  positions_le : positions.length ≤ maximumCoveredPositions
  positions_lt : positions.IsChain (· < ·)
  deriving DecidableEq

/-- `BatchPositionCoverage::new`. -/
def BatchPositionCoverage.new (batchId : BatchId) (spoolRange : SpoolBatchRange)
    (positions : List Nat) : Except OutputRecoveryModelError BatchPositionCoverage :=
  if hne : positions ≠ [] then
    if hle : positions.length ≤ maximumCoveredPositions then
      if hlt : positions.IsChain (· < ·) then
        .ok ⟨batchId, spoolRange, positions, hne, hle, hlt⟩
      else .error .positionsMustIncrease
    else .error .coveredPositionLimitExceeded
  else .error .coveredPositionsMustNotBeEmpty

theorem BatchPositionCoverage.nodup_positions (coverage : BatchPositionCoverage) :
    coverage.positions.Nodup :=
  (List.isChain_iff_pairwise.mp coverage.positions_lt).imp ne_of_lt

/-- The occurrences a coverage names. -/
def BatchPositionCoverage.occurrences (coverage : BatchPositionCoverage) :
    List (BatchId × Nat) :=
  coverage.positions.map fun position => (coverage.batchId, position)

inductive RecoveryOutput
  | segment (registration : SegmentDescriptor)
  | deadLetter (registration : DeadLetterDescriptor)
  deriving DecidableEq

/-- `RecoveryOutput::object`. -/
def RecoveryOutput.object : RecoveryOutput → ObjectDescriptor
  | .segment registration => registration.object
  | .deadLetter registration => registration.object

/-- What the coverage of a record has to do with its output : a segment has one row for
each position and no batch twice, a dead-letter object is about its one batch. -/
def RecoveryOutput.Covers (output : RecoveryOutput) (coverage : List BatchPositionCoverage) :
    Prop :=
  match output with
  | .segment registration => coverage ≠ [] ∧ (coverage.map (·.batchId)).Nodup ∧
      (coverage.map fun item => item.positions.length).sum = registration.rowCount
  | .deadLetter registration => coverage.map (·.batchId) = [registration.batchId]

instance (output : RecoveryOutput) (coverage : List BatchPositionCoverage) :
    Decidable (output.Covers coverage) :=
  match output with
  | .segment _ => inferInstanceAs (Decidable (_ ∧ _))
  | .deadLetter _ => inferInstanceAs (Decidable (_ = _))

structure OutputRecoveryRecord where
  id : OutputRecoveryId
  revision : Nat
  output : RecoveryOutput
  coverage : List BatchPositionCoverage
  covers : output.Covers coverage
  deriving DecidableEq

/-- The occurrences a record covers. -/
def OutputRecoveryRecord.occurrences (record : OutputRecoveryRecord) : List (BatchId × Nat) :=
  record.coverage.flatMap BatchPositionCoverage.occurrences

/-- `OutputRecoveryRecord::object_identity`. -/
def OutputRecoveryRecord.objectIdentity (record : OutputRecoveryRecord) : StoredObjectId :=
  record.output.object.key.objectId

/-- The loop of `validate_coverage` over the items, with the batches and the number of
positions seen. -/
def validateItems (seen : List BatchId) (positions : Nat) :
    List BatchPositionCoverage → Except OutputRecoveryModelError Unit
  | [] => .ok ()
  | item :: rest => do
    ensure (positions + item.positions.length ≤ maximumCoveredPositions ∧ item.batchId ∉ seen)
      .coveredBatchesOverlap
    validateItems (item.batchId :: seen) (positions + item.positions.length) rest

/-- `validate_coverage`. The positions of each item are checked where the item is made. -/
def validateCoverage (coverage : List BatchPositionCoverage) :
    Except OutputRecoveryModelError Unit := do
  ensure (coverage ≠ []) .coveredPositionsMustNotBeEmpty
  ensure (coverage.length ≤ maximumCoveredBatches) .coveredBatchLimitExceeded
  validateItems [] 0 coverage
  ensure (coverage.IsChain fun a b => a.spoolRange.stop ≤ b.spoolRange.start)
    .coveredBatchesOverlap

/-- `validate_output_metadata` : what is stored as `i64` fits it. -/
def validateOutputMetadata (output : RecoveryOutput) : Except OutputRecoveryModelError Unit := do
  ensure (output.object.expectedByteSize < 2 ^ 63) .metadataOutOfRange
  ensure (output.object.formatVersion < 2 ^ 63) .metadataOutOfRange
  match output with
  | .segment registration =>
    ensure (registration.rowCount < 2 ^ 63) .metadataOutOfRange
    ensure (registration.uncompressedBytes < 2 ^ 63) .metadataOutOfRange
  | .deadLetter _ => .ok ()

/-- The order of the items of a segment's coverage. -/
def SpoolBatchRange.le (a b : SpoolBatchRange) : Prop :=
  a.start < b.start ∨ a.start = b.start ∧ a.stop ≤ b.stop

instance (a b : SpoolBatchRange) : Decidable (a.le b) :=
  inferInstanceAs (Decidable (_ ∨ _))

/-- `OutputRecoveryRecord::segment`. Past `validateCoverage`, only the number of rows can
differ. -/
def OutputRecoveryRecord.segment (id : OutputRecoveryId) (registration : SegmentDescriptor)
    (coverage : List BatchPositionCoverage) :
    Except OutputRecoveryModelError OutputRecoveryRecord := do
  let coverage := coverage.insertionSort fun a b => a.spoolRange.le b.spoolRange
  validateCoverage coverage
  if h : (RecoveryOutput.segment registration).Covers coverage then
    validateOutputMetadata (.segment registration)
    return ⟨id, 1, .segment registration, coverage, h⟩
  else .error .segmentRowCoverageMismatch

/-- `OutputRecoveryRecord::dead_letter`. -/
def OutputRecoveryRecord.deadLetter (id : OutputRecoveryId) (registration : DeadLetterDescriptor)
    (coverage : BatchPositionCoverage) :
    Except OutputRecoveryModelError OutputRecoveryRecord :=
  if h : registration.batchId = coverage.batchId then do
    validateOutputMetadata (.deadLetter registration)
    return ⟨id, 1, .deadLetter registration, [coverage], by simp [RecoveryOutput.Covers, h]⟩
  else .error .deadLetterBatchMismatch

/-! ## Recovery actions -/

inductive UnregisteredOutputBytes
  | available
  | missing
  deriving DecidableEq, Repr

inductive PlannedOutputBytes
  | available
  | missingUnverified
  | missingVerified
  | missingAbsent
  deriving DecidableEq, Repr

inductive OutputRecoveryObservation
  | unregistered (bytes : UnregisteredOutputBytes)
  | planned (bytes : PlannedOutputBytes)
  | uploaded
  | published
  | abandoned
  deriving DecidableEq, Repr

inductive OutputRecoveryAction
  | register
  | rebuild
  | upload
  | verifyExactObject
  | recordVerifiedUpload
  | publish
  | complete
  | abandonAndRebuild
  deriving DecidableEq, Repr

inductive RetainedSpoolBytes
  | available
  | missing
  deriving DecidableEq, Repr

/-- The action for an observation, as long as the spool is retained. -/
def OutputRecoveryObservation.action : OutputRecoveryObservation → OutputRecoveryAction
  | .unregistered .available => .register
  | .unregistered .missing => .rebuild
  | .planned .available => .upload
  | .planned .missingUnverified => .verifyExactObject
  | .planned .missingVerified => .recordVerifiedUpload
  | .planned .missingAbsent => .abandonAndRebuild
  | .uploaded => .publish
  | .published => .complete
  | .abandoned => .rebuild

/-- `OutputRecoveryRecord::recovery_action`. It does not read the record. -/
def recoveryAction (observation : OutputRecoveryObservation)
    (retainedSpool : RetainedSpoolBytes) :
    Except OutputRecoveryModelError OutputRecoveryAction :=
  match observation.action, retainedSpool with
  | .rebuild, .missing | .abandonAndRebuild, .missing => .error .retainedSpoolBytesMissing
  | action, _ => .ok action

@[simp] theorem recoveryAction_available (observation : OutputRecoveryObservation) :
    recoveryAction observation .available = .ok observation.action := by
  unfold recoveryAction
  split <;> simp_all

/-- `PublishedOutput` : a record that was seen published. -/
structure PublishedOutput where
  record : OutputRecoveryRecord
  deriving DecidableEq

/-- `PublishedOutput::resolve`. -/
def PublishedOutput.resolve (record : OutputRecoveryRecord)
    (observation : OutputRecoveryObservation) :
    Except OutputRecoveryModelError PublishedOutput := do
  ensure (observation = .published) .outputIsNotPublished
  return ⟨record⟩

/-- `PublishedOutput::coverage`. -/
def PublishedOutput.coverage (output : PublishedOutput) : List BatchPositionCoverage :=
  output.record.coverage

/-! ## Concrete values -/

/-- The times of a segment with events at the epoch. -/
def SegmentTimes.epoch : SegmentTimes := ⟨0, 0, 0, 0, 0, le_rfl, le_rfl, rfl, rfl⟩

/-- A dead-letter object `n` of `batchId`. -/
def DeadLetterDescriptor.sample (n : UInt8) (batchId : BatchId) : DeadLetterDescriptor :=
  ⟨UuidV7.sample 2, batchId,
    ⟨.deadLetter ⟨"root"⟩ batchId (UuidV7.sample n).uuid, 0, .zero,
      .deadLetter, 1, rfl, Nat.one_pos⟩, rfl⟩

/-- The record of a dead-letter object that covers the first position of a batch. -/
def OutputRecoveryRecord.sample (n : UInt8) (batchId : BatchId) (range : SpoolBatchRange) :
    OutputRecoveryRecord :=
  ⟨UuidV7.sample n, 1, .deadLetter (DeadLetterDescriptor.sample n batchId),
    [⟨batchId, range, [1], by decide, by decide, by decide⟩], rfl⟩

end Elucid
