import Elucid.Effect
import Elucid.OutputLifecycle
import Elucid.Processing
import Elucid.LiveSpool
import Mathlib.Data.Stream.Init

/-!
# The world of the ingestion worker

What outlives a crash of the worker, and what else can change it. `World` has the spool, the
recovery log, the staged files, the metastore and the object store. A `Move` is a change by
another part of the service : an append, a job of retention, compaction or reclamation, or a
new catalog. Each operation of the worker takes a `Choice` from the surroundings : the moves
that come before it, whether it fails before or behind its effect, the time, and a fresh
identity. Where there are no more choices, the process has stopped. A run under all
sequences of choices is a run under all interleavings, all failures of the stores and all
crashes.

An operation takes effect as a whole or not at all, as a transaction of PostgreSQL, a create
of an object, a renamed log or a synchronized frame do. An append is one move : its frame is
accounted and its extent is sent in turn (`LiveSpool` has the steps in between). Identities
are version 7 and do not repeat.

The lists `retired`, `history` and `published` are not in the program. They remember the
truncated frames, the records that were made durable, and the records whose publication was
committed.
-/

namespace Elucid

open BigEndian Effect

/-! ## State -/

/-- An object and the attributes it was created with. -/
structure ObjectContent where
  bytes : Bytes
  mediaType : ObjectMediaType
  digest : Digest
  deriving DecidableEq

/-- `verify_metadata`. -/
def ObjectContent.Matches (content : ObjectContent) (descriptor : ObjectDescriptor) : Prop :=
  content.bytes.length = descriptor.expectedByteSize ∧
    content.mediaType = descriptor.mediaType ∧ content.digest = descriptor.digest

instance (content : ObjectContent) (descriptor : ObjectDescriptor) :
    Decidable (content.Matches descriptor) :=
  inferInstanceAs (Decidable (_ ∧ _))

section Types

variable [Chrono]

/-- Parquet files, as the Arrow and Parquet crates write and read them. -/
class ParquetFile where
  /-- `materialize_segment_record_batch`, `ParquetSegmentInput::new` and `write_batch`. -/
  write : ManagedObjectKey → Catalog.Schema → SealedSegment → Except IngestionProcessingError Bytes
  /-- `validate_parquet_segment_metadata` on a file that can be opened. -/
  isValid : ManagedObjectKey → Catalog.Schema → Nat → Bytes → Bool

/-- A change that does not come from the worker. -/
inductive Move
  | append (metadata : BatchMetadata) (body : Bytes)
  | expireSegments (ids : List SegmentId) (now grace : Nat)
  | supersedeSegments (ids : List SegmentId) (now grace : Nat)
  | claim (ids : List StoredObjectId) (now : Nat)
  | deleteExact (objectId : StoredObjectId)
  | recordDeleted (objectId : StoredObjectId)
  | cleanTerminalMetadata (ids : List StoredObjectId)
  | replaceCatalog (sources : List Source)

/-- How an operation fails. -/
inductive Fault
  | none
  | before
  | behind
  deriving DecidableEq, Repr

/-- What ends a wait of the worker. -/
inductive Wakeup
  | batch
  | segmentExpiration
  | cancelled
  deriving DecidableEq, Repr

/-- What the surroundings decide about one operation. -/
structure Choice where
  moves : List Move
  fault : Fault
  identity : UuidV7
  now : Nat
  wakeup : Wakeup
  /-- Some append holds a reservation. -/
  reserved : Bool

/-- All that the worker works on. -/
structure World where
  choices : Stream' (Option Choice)
  catalog : List Source
  /-- `SpoolExtent::generation`, which starts again with the process. -/
  generation : Nat
  frames : List (BatchMetadata × Bytes)
  checkpoint : SpoolCheckpoint
  log : List OutputRecoveryRecord
  staged : StoredObjectId → Option Bytes
  database : Database
  objects : ManagedObjectKey → Option ObjectContent
  /-- The identities that were handed out. -/
  drawn : List Uuid
  /-- The frames of earlier generations. -/
  retired : List (BatchMetadata × Bytes)
  /-- Every record that was made durable. -/
  history : List OutputRecoveryRecord
  /-- Every record whose publication was committed. -/
  published : List OutputRecoveryRecord
  /-- The size and the frames of a truncation that the log has not followed. -/
  reclaiming : Option (Nat × List (BatchMetadata × Bytes))

/-- What the worker is started with, and which moves happen around it. -/
structure Deployment where
  root : ManagedRoot
  spool : SpoolConfig
  scratchBytes : SegmentStagingCapacity
  eventRetentionSeconds : Nat
  deadLetterRetentionSeconds : Nat
  allows : World → Move → Bool

/-- The batches that were ever spooled. -/
def World.spooled (w : World) : List (BatchMetadata × Bytes) := w.retired ++ w.frames

/-- The size of some frames. -/
def framesBytes (frames : List (BatchMetadata × Bytes)) : Nat :=
  (frames.map fun frame => storedLength frame.2).sum

def World.committedBytes (w : World) : Nat := framesBytes w.frames

/-- `Catalog::source_by_id` on the current snapshot. -/
def World.sourceById (w : World) (sourceId : SourceId) : Option Source :=
  w.catalog.find? fun source => source.id = sourceId

end Types

/-- How a program of the worker ends without a result. -/
inductive Stop
  | crashed
  | failed (error : IngestionProcessingError)
  deriving DecidableEq

/-- A program of the worker. -/
abbrev Program [Chrono] := EStateM Stop World

namespace Deployment

variable [Chrono] (deployment : Deployment)

/-! ## Moves -/

/-- The effect of a move. -/
def move (w : World) : Move → World
  | .append metadata body =>
    if body.length ≤ deployment.spool.bodyLimit.get ∧
        w.committedBytes + storedLength body ≤ deployment.spool.capacity.get ∧
        metadata.batchId ∉ w.spooled.map (·.1.batchId) then
      { w with frames := w.frames ++ [(metadata, body)] }
    else w
  | .expireSegments ids now grace => { w with database := w.database.expireSegments ids now grace }
  | .supersedeSegments ids now grace =>
    { w with database := w.database.supersedeSegments ids now grace }
  | .claim ids now => { w with database := w.database.claim ids now }
  -- the reclaimer deletes what it has claimed
  | .deleteExact objectId =>
    match w.database.object? objectId with
    | some row =>
      if row.state = .deletePending then
        { w with objects := Function.update w.objects row.objectKey none }
      else w
    | none => w
  | .recordDeleted objectId => { w with database := w.database.recordDeleted objectId }
  | .cleanTerminalMetadata ids => { w with database := w.database.cleanTerminalMetadata ids }
  | .replaceCatalog sources => { w with catalog := sources }

/-- The moves that happen, one after the other. -/
def moves (w : World) (moves : List Move) : World :=
  moves.foldl (fun w move => if deployment.allows w move then deployment.move w move else w) w

/-! ## Operations -/

/-- The next choice. -/
def nextChoice : Program Choice := fun w =>
  match w.choices.head with
  | none => .error .crashed w
  | some choice => .ok choice { w with choices := w.choices.tail }

/-- An effect, with the fault that was chosen for it. -/
def perform {α : Type} (unavailable : IngestionProcessingError)
    (effect : Choice → World → Except IngestionProcessingError (α × World)) (choice : Choice) :
    Program α := fun w =>
  if choice.fault = .before then .error (.failed unavailable) w
  else
    match effect choice w with
    | .error error => .error (.failed error) w
    | .ok (a, after) =>
      if choice.fault = .behind then .error (.failed unavailable) after else .ok a after

/-- An operation : the moves before it, and its effect. -/
def operate {α : Type} (unavailable : IngestionProcessingError)
    (effect : Choice → World → Except IngestionProcessingError (α × World)) : Program α := do
  let choice ← nextChoice
  modify (deployment.moves · choice.moves)
  perform unavailable effect choice

/-! ## The metastore -/

/-- What the worker sees when PostgreSQL does not answer. -/
def metastoreUnavailable : IngestionProcessingError := .publication (.write .other)

/-- A transaction. -/
def transact {α : Type}
    (transaction : Choice → Database → Except PublicationError (α × Database)) : Program α :=
  deployment.operate metastoreUnavailable fun choice w => do
    let (a, database) ← (transaction choice w.database).mapError .publication
    return (a, { w with database })

def outputState (record : OutputRecoveryRecord) : Program ObjectPublicationState :=
  deployment.transact fun _ database => do
    return (← database.outputState record.output, database)

def registerOutput (record : OutputRecoveryRecord) : Program RegistrationOutcome :=
  deployment.transact fun _ database => database.registerOutput record.output

/-- `PublicationStore::record_verified_upload`. -/
def recordUpload (record : OutputRecoveryRecord) : Program ObjectUploadRecordOutcome :=
  deployment.transact fun _ database => database.recordVerifiedUpload record.output.object

/-- `publish_output`. -/
def publishOutput (record : OutputRecoveryRecord) : Program PublicationOutcome :=
  deployment.operate metastoreUnavailable fun choice w => do
    let (outcome, database) ← (w.database.publishOutput choice.now
      deployment.eventRetentionSeconds deployment.deadLetterRetentionSeconds
      record.output).mapError .publication
    return (outcome, { w with database, published := w.published.insert record })

def orphanGraceSeconds : Nat := 300

def reconciliationItems : Nat := 1000

/-- `reconcile_unreferenced_outputs`. -/
def reconcile (segments : List SegmentId) (deadLetters : List StoredObjectId) :
    Program (List SegmentId × List StoredObjectId) :=
  deployment.transact fun choice database =>
    database.reconcileUnreferencedOutputs segments deadLetters choice.now orphanGraceSeconds
      reconciliationItems

/-! ## The object store -/

inductive ObjectVerificationOutcome
  | verified
  | absent
  deriving DecidableEq, Repr

/-- `probe`. -/
def probe (w : World) (descriptor : ObjectDescriptor) :
    Except IngestionProcessingError ObjectVerificationOutcome :=
  match w.objects descriptor.key with
  | none => .ok .absent
  | some content => do
    ensure (content.Matches descriptor) (.storage .objectIntegrityError)
    return .verified

def verify (descriptor : ObjectDescriptor) : Program ObjectVerificationOutcome :=
  deployment.operate (.storage .objectVerificationFailed) fun _ w => do
    return (← probe w descriptor, w)

/-- `upload`. -/
def upload [Blake3] (descriptor : ObjectDescriptor) (bytes : Bytes) : Program Unit :=
  deployment.operate (.storage .objectUploadFailed) fun _ w => do
    ensure (descriptor.expectedByteSize ≤ deployment.scratchBytes.get)
      (.storage .localCapacityExhausted)
    ensure (bytes.length = descriptor.expectedByteSize ∧ Blake3.hash bytes = descriptor.digest)
      (.storage .objectIntegrityError)
    match ← probe w descriptor with
    | .verified => return ((), w)
    | .absent =>
      let content := ⟨bytes, descriptor.mediaType, descriptor.digest⟩
      return ((), { w with objects := Function.update w.objects descriptor.key (some content) })

/-! ## Staged files -/

/-- The schema `staged_output_path` and `read_staged_output` expect of a segment. -/
def recoveredSchema (w : World) (registration : SegmentDescriptor) :
    Except IngestionProcessingError Catalog.Schema := do
  let source ← okOr (w.sourceById registration.sourceId)
    (.invariant "recovered segment source is absent from the catalog")
  let schema ← okOr (source.schema registration.schemaId)
    (.invariant "recovered segment schema is absent from the catalog")
  ensure (registration.rowCount < 2 ^ 63) (.invariant "recovered Parquet expectation is invalid")
  return schema

/-- `staged_output_path` : the identity of the object names the file. -/
def stagedOutputPath (w : World) : RecoveryOutput → Except IngestionProcessingError StoredObjectId
  | .segment registration => do
    let _ ← recoveredSchema w registration
    return registration.object.key.objectId
  | .deadLetter registration => return registration.object.key.objectId

def stagedOutputExists (record : OutputRecoveryRecord) : Program Bool :=
  deployment.operate (.deadLetter .io) fun _ w => do
    let path ← stagedOutputPath w record.output
    return ((w.staged path).isSome, w)

def removeStagedOutput (record : OutputRecoveryRecord) : Program Unit :=
  deployment.operate (.localStaging "removing a published output") fun _ w => do
    let path ← stagedOutputPath w record.output
    return ((), { w with staged := Function.update w.staged path none })

/-- `read_staged_object`. -/
def readStagedObject [Blake3] (w : World) (path : StoredObjectId) (descriptor : ObjectDescriptor) :
    Except StagedObjectReadError Bytes := do
  ensure (descriptor.expectedByteSize ≤ deployment.scratchBytes.get) .capacityExceeded
  let bytes ← okOr (w.staged path) .io
  ensure (bytes.length = descriptor.expectedByteSize) .sizeMismatch
  ensure (Blake3.hash bytes = descriptor.digest) .digestMismatch
  return bytes

def parquetFormatVersion : Nat := 1

/-- The bytes `read_staged_output` returns. -/
def stagedBytes [Blake3] [ParquetFile] [SerdeDocument] [UuidCrate] (w : World) :
    RecoveryOutput → Except IngestionProcessingError Bytes
  | .segment registration => do
    let object := registration.object
    let schema ← recoveredSchema w registration
    -- `validate_parquet_segment`
    let bytes ← okOr (w.staged object.key.objectId) (.storage .parquetInvalid)
    ensure (ParquetFile.isValid object.key schema registration.rowCount bytes = true)
      (.storage .parquetInvalid)
    ensure (bytes.length = object.expectedByteSize ∧ Blake3.hash bytes = object.digest ∧
        parquetFormatVersion = object.formatVersion)
      (.invariant "recovered Parquet bytes do not match durable output metadata")
    (deployment.readStagedObject w object.key.objectId object).mapError .stagedRead
  | .deadLetter registration => do
    let bytes ← (deployment.readStagedObject w registration.object.key.objectId
      registration.object).mapError .stagedRead
    let _ ← (decodeDeadLetters bytes).mapError .deadLetter
    return bytes

def readStagedOutput [Blake3] [ParquetFile] [SerdeDocument] [UuidCrate]
    (record : OutputRecoveryRecord) :
    Program Bytes :=
  deployment.operate (.stagedRead .io) fun _ w => do
    return (← deployment.stagedBytes w record.output, w)

/-- `ObjectDescriptor::for_bytes`, with the media type of the key. -/
def descriptorFor [Blake3] (key : ManagedObjectKey) (bytes : Bytes) : ObjectDescriptor :=
  ⟨key, bytes.length, Blake3.hash bytes, key.kind.mediaType, 1, rfl, Nat.one_pos⟩

/-- `stage_dead_letters`. -/
def stageDeadLetters [Blake3] [SerdeJson] (key : ManagedObjectKey)
    (entries : List DeadLetterEntry) : Program ObjectDescriptor :=
  deployment.operate (.deadLetter .io) fun _ w => do
    let bytes ← (encodeDeadLetters entries deployment.scratchBytes.get).mapError .deadLetter
    ensure (w.staged key.objectId = none) (.deadLetter .io)
    return (descriptorFor key bytes,
      { w with staged := Function.update w.staged key.objectId (some bytes) })

/-- `write_parquet_segment`, with the record batch it writes. An incomplete file is removed. -/
def writeParquetSegment [Blake3] [ParquetFile] (key : ManagedObjectKey) (schema : Catalog.Schema)
    (segment : SealedSegment) : Program ObjectDescriptor :=
  deployment.operate (.storage .parquetBuildFailed) fun _ w => do
    let bytes ← ParquetFile.write key schema segment
    ensure (w.staged key.objectId = none) (.storage .parquetBuildFailed)
    ensure (bytes.length ≤ deployment.scratchBytes.get) (.storage .localCapacityExhausted)
    ensure (ParquetFile.isValid key schema segment.rows.length bytes = true)
      (.storage .parquetInvalid)
    return (descriptorFor key bytes,
      { w with staged := Function.update w.staged key.objectId (some bytes) })

/-! ## The recovery log -/

/-- `validate_record_root`. -/
def validateRecordRoot (record : OutputRecoveryRecord) : Except OutputRecoveryError Unit :=
  let objectId := record.output.object.key.objectId
  ensure (record.output.object.key =
    match record.output with
    | .segment registration => .parquet deployment.root registration.segmentId objectId
    | .deadLetter registration => .deadLetter deployment.root registration.batchId objectId) .conflict

/-- `validate_transition`. -/
def validateTransition (next : OutputRecoveryRecord) :
    Option OutputRecoveryRecord → Except OutputRecoveryError Unit
  | none => ensure (next.revision = 1) .conflict
  | some current => ensure (current.coverage = next.coverage ∧
      current.output.object.key.kind = next.output.object.key.kind ∧
      checkedAdd current.revision 1 = some next.revision) .conflict

/-- The order of the records : that of their identities. -/
def recordLe (a b : OutputRecoveryRecord) : Prop :=
  textLt b.id.uuid.bytes a.id.uuid.bytes = false

instance : DecidableRel recordLe := fun _ _ => inferInstanceAs (Decidable (_ = _))

/-- `OutputRecoveryLogInner::record`. -/
def record (record : OutputRecoveryRecord) : Program Unit :=
  deployment.operate (.recovery (.io "append output recovery record")) fun _ w => do
    (deployment.validateRecordRoot record).mapError .recovery
    let current := w.log.find? fun other => other.id = record.id
    if current = some record then return ((), w)
    else
      (validateTransition record current).mapError .recovery
      ensure (∀ other ∈ w.log, other.id ≠ record.id →
        other.objectIdentity ≠ record.objectIdentity) (.recovery .conflict)
      return ((), { w with
        log := (w.log.filter fun other => other.id ≠ record.id).orderedInsert recordLe record
        history := w.history ++ [record] })

/-- The check of `OutputRecoveryLogInner::reclaim`. -/
def ReclaimsWithin (log : List OutputRecoveryRecord) (reclaimedBytes : Nat) : Prop :=
  ∀ record ∈ log, ∀ item ∈ record.coverage, item.spoolRange.stop ≤ reclaimedBytes

instance (log : List OutputRecoveryRecord) (reclaimedBytes : Nat) :
    Decidable (ReclaimsWithin log reclaimedBytes) :=
  inferInstanceAs (Decidable (∀ record ∈ log, _))

/-- `OutputRecoveryLogInner::reclaim` : the log behind it. -/
def reclaimedLog (log : List OutputRecoveryRecord) (reclaimedBytes : Nat) :
    Except OutputRecoveryError (List OutputRecoveryRecord) := do
  ensure (ReclaimsWithin log reclaimedBytes) .conflict
  return []

/-- `OutputRecoveryLog::reclaim`. -/
def reclaimLog (reclaimedBytes : Nat) : Program Unit :=
  deployment.operate (.recovery (.io "replace the output recovery log")) fun _ w => do
    let log ← (reclaimedLog w.log reclaimedBytes).mapError .recovery
    return ((), { w with log, reclaiming := none })

/-! ## The spool -/

/-- `SpoolInner::advance_checkpoint`. -/
def advanceSpool (plan : CheckpointPlan) : Program Unit :=
  deployment.operate (.spool (.io "store the spool checkpoint")) fun _ w => do
    ensure (plan.current = w.checkpoint) (.spool (.invariant "checkpoint plan is stale"))
    ensure (plan.target.position ≤ w.committedBytes)
      (.spool (.invariant "checkpoint plan exceeds committed spool data"))
    return ((), { w with checkpoint := plan.target })

/-- `SpoolInner::reclaim_checkpointed` up to the reset of the checkpoint. -/
def resetCheckpoint : Program (Option Nat) :=
  deployment.operate (.spool (.io "store the spool checkpoint")) fun choice w =>
    if choice.reserved ∨ w.checkpoint.position = 0 ∨
        w.checkpoint.position ≠ w.committedBytes then return (none, w)
    else return (some w.committedBytes, { w with checkpoint := .initial })

/-- `SpoolInner::reclaim_checkpointed` from the truncation on. The locks are still held, so no
move comes before it. -/
def truncate : Program Unit := do
  let choice ← nextChoice
  perform (.spool (.io "truncate checkpointed spool data")) (fun _ w => return ((), { w with
    frames := []
    generation := w.generation + 1
    retired := w.retired ++ w.frames
    reclaiming := some (w.committedBytes, w.frames) })) choice

/-- `SpoolInner::reclaim_checkpointed`. -/
def reclaimCheckpointed : Program (Option Nat) := do
  let reclaimed ← deployment.resetCheckpoint
  if reclaimed.isSome then truncate
  return reclaimed

/-- `RecoveredBatches::next_batch`. -/
def nextBatch [Blake3] (reader : RecoveredBatches) :
    Program (RecoveredBatches × Option RecoveredBatch) :=
  deployment.operate (.spool (.io "read a committed spool frame")) fun _ w => do
    let (reader, result) := reader.nextBatch (framesOf w.frames) ⟨w.generation, w.committedBytes⟩
    let batch ← result.mapError .spool
    return ((reader, batch), w)

/-! ## Identities and time -/

/-- `Uuid::now_v7`. A run in which an identity comes twice is not looked at. -/
def newIdentity : Program UuidV7 := do
  let choice ← nextChoice
  let w ← get
  if choice.identity.uuid ∈ w.drawn then throw .crashed
  set { w with drawn := choice.identity.uuid :: w.drawn }
  return choice.identity

/-- `Instant::now`. -/
def instant : Program Nat := do
  return (← nextChoice).now

end Deployment

end Elucid
