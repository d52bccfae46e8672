import Elucid.CutRecovery
import Elucid.World

/-!
# The ingestion worker

The worker recovers the outputs of its recovery log, and then turns batches of the spool into
segments and dead-letter objects, publishes them, and moves the checkpoint. Its programs are
those of `Processor`, in the order of their operations. What it keeps in memory is a `Worker`,
which is lost with the process.

A loop runs for at most so many `rounds`. Where they are used up the process has stopped, as
it has where there are no more choices, so nothing is known about the rounds of a run.
Metrics, the accounting of the backlog and the delay between two tries are left out.
-/

namespace Elucid

open BigEndian Effect

/-- The memory of `Processor`. -/
structure Worker [Chrono] where
  reader : RecoveredBatches
  builders : SegmentBuilders
  pending : List BatchOutputRequirements
  ranges : BatchRanges
  published : List PublishedOutput
  recoveredCoverage : List (BatchId × Nat)

/-- The batches the checkpoint has passed leave the memory. -/
def Worker.complete [Chrono] (worker : Worker) (target : SpoolCheckpoint) : Worker :=
  let passed := fun batch : BatchOutputRequirements =>
    decide (batch.spoolRange.stop ≤ target.position)
  { worker with
    pending := worker.pending.dropWhile passed
    ranges := fun batchId =>
      if batchId ∈ (worker.pending.takeWhile passed).map (·.batchId) then none
      else worker.ranges batchId }

/-- `transient_publication` and `transient_storage`. -/
def Stop.transient : Stop → Option Unit
  | .crashed => none
  | .failed error => if error.isTransient then some () else none

inductive RecoveryDisposition
  | resume
  | rebuild
  deriving DecidableEq, Repr

/-- `wait_next_batch` behind recovery. -/
def RecoveredBatches.follow (reader : RecoveredBatches) : RecoveredBatches :=
  if reader.state = .recoveryComplete then { reader with state := .following } else reader

namespace Deployment

variable [Chrono] (deployment : Deployment) (rounds : Nat)

/-- `?` on a result. -/
def raise {α : Type} : Except IngestionProcessingError α → Program α
  | .ok a => pure a
  | .error error => throw (.failed error)

/-- Try an operation again while its store is unavailable. -/
def untilAvailable {α : Type} (operation : Program α) : Program α :=
  loop .crashed (fun _ : Unit => do
    match ← attempt Stop.transient operation with
    | .ok a => return .inr a
    | .error () => return .inl ()) rounds ()

/-! ## Publication of a record -/

/-- `Processor::record_verified_upload`. -/
def recordVerifiedUpload (record : OutputRecoveryRecord) : Program Unit := do
  let _ ← untilAvailable rounds (deployment.recordUpload record)

section Publish

variable [Blake3] [ParquetFile] [SerdeDocument] [UuidCrate]

/-- The branch of `publish_record` for an unregistered output. -/
def publishUnregistered (record : OutputRecoveryRecord) : Program Unit := do
  if ← deployment.stagedOutputExists record then
    let _ ← attempt Stop.transient (deployment.registerOutput record)
  else throw (.failed (.invariant "unregistered recovery output has no staged bytes"))

/-- The branch of `publish_record` for a planned output. -/
def publishPlanned (record : OutputRecoveryRecord) : Program Unit := do
  if ← deployment.stagedOutputExists record then
    let bytes ← deployment.readStagedOutput record
    match ← attempt Stop.transient (deployment.upload record.output.object bytes) with
    | .ok () => deployment.recordVerifiedUpload rounds record
    | .error () => return
  else
    match ← attempt Stop.transient (deployment.verify record.output.object) with
    | .ok .verified => deployment.recordVerifiedUpload rounds record
    | .ok .absent => throw (.failed
        (.invariant "planned recovery output has neither staged nor uploaded bytes"))
    | .error () => return

/-- The body of the loop of `publish_record` : one step on from the state of the output. -/
def publishStep (record : OutputRecoveryRecord) : Program (Unit ⊕ PublishedOutput) := do
  match ← attempt Stop.transient (deployment.outputState record) with
  | .error () => return .inl ()
  | .ok .unregistered =>
    deployment.publishUnregistered record
    return .inl ()
  | .ok .planned =>
    deployment.publishPlanned rounds record
    return .inl ()
  | .ok .uploaded =>
    let _ ← attempt Stop.transient (deployment.publishOutput record)
    return .inl ()
  | .ok .published =>
    let published ← raise <| (PublishedOutput.resolve record .published).mapError
      fun error => .recovery (.model error)
    deployment.removeStagedOutput record
    return .inr published
  | .ok .abandoned =>
    throw (.failed (.invariant "retained output was abandoned before publication"))

def publishRecord (record : OutputRecoveryRecord) : Program PublishedOutput :=
  loop .crashed (fun _ : Unit => deployment.publishStep rounds record) rounds ()

end Publish

/-! ## Recovery -/

/-- What `recovery_disposition` observes of a record. -/
def recoveryObservation (record : OutputRecoveryRecord) : Program OutputRecoveryObservation := do
  match ← untilAvailable rounds (deployment.outputState record) with
  | .unregistered =>
    let staged ← deployment.stagedOutputExists record
    return .unregistered (if staged then .available else .missing)
  | .planned =>
    let staged ← deployment.stagedOutputExists record
    return .planned (if staged then .available else .missingUnverified)
  | .uploaded => return .uploaded
  | .published => return .published
  | .abandoned => return .abandoned

/-- The action for what a verification has shown has to be the expected one. -/
def expectAction (bytes : PlannedOutputBytes) (expected : OutputRecoveryAction)
    (message : String) : Except IngestionProcessingError Unit := do
  let action ← (recoveryAction (.planned bytes) .available).mapError .recoveryModel
  ensure (action = expected) (.invariant message)

/-- `recovery_disposition`. -/
def recoveryDisposition (record : OutputRecoveryRecord) : Program RecoveryDisposition := do
  let observation ← deployment.recoveryObservation rounds record
  match ← raise ((recoveryAction observation .available).mapError .recoveryModel) with
  | .register | .upload | .publish | .complete => return .resume
  | .rebuild | .abandonAndRebuild => return .rebuild
  | .verifyExactObject =>
    match ← untilAvailable rounds (deployment.verify record.output.object) with
    | .verified =>
      raise (expectAction .missingVerified .recordVerifiedUpload
        "verified output produced an invalid recovery action")
      deployment.recordVerifiedUpload rounds record
      return .resume
    | .absent =>
      raise (expectAction .missingAbsent .abandonAndRebuild
        "absent output produced an invalid recovery action")
      return .rebuild
  | .recordVerifiedUpload =>
    throw (.failed (.invariant "unverified output requested an upload-state transition"))

/-- The records of the loop over the dispositions that are to be resumed. -/
def resumableRecords (records : List OutputRecoveryRecord) : Program (List OutputRecoveryRecord) :=
  records.foldlM (fun resumable record => do
    match ← deployment.recoveryDisposition rounds record with
    | .resume => return resumable ++ [record]
    | .rebuild => return resumable) []

/-- The segments among the records. -/
def referencedSegments (records : List OutputRecoveryRecord) : List SegmentId :=
  records.filterMap fun record =>
    match record.output with
    | .segment registration => some registration.segmentId
    | .deadLetter _ => none

/-- The dead letters among the records. -/
def referencedDeadLetters (records : List OutputRecoveryRecord) : List StoredObjectId :=
  records.filterMap fun record =>
    match record.output with
    | .segment _ => none
    | .deadLetter registration => some registration.object.key.objectId

section Resume

variable [Blake3] [ParquetFile] [SerdeDocument] [UuidCrate]

/-- The loop over the resumable records. -/
def resumeRecords (worker : Worker) (resumable : List OutputRecoveryRecord) : Program Worker :=
  resumable.foldlM (fun worker record => do
    let published ← deployment.publishRecord rounds record
    let recoveredCoverage ← raise (rememberCoverage worker.recoveredCoverage record)
    return { worker with recoveredCoverage, published := worker.published ++ [published] }) worker

def recoverOutputs (records : List OutputRecoveryRecord) (worker : Worker) : Program Worker := do
  let resumable ← deployment.resumableRecords rounds records
  let _ ← untilAvailable rounds
    (deployment.reconcile (referencedSegments resumable) (referencedDeadLetters resumable))
  deployment.resumeRecords rounds worker resumable

end Resume

/-! ## Outputs of a batch -/

section Process

variable [Blake3] [SerdeJson] [ParquetFile] [SerdeDocument] [UuidCrate]

/-- The registration of a dead-letter object. -/
def deadLetterRegistration (metadata : BatchMetadata) (object : ObjectDescriptor) :
    Except IngestionProcessingError DeadLetterDescriptor :=
  if h : object.key.owner = .deadLetterBatch metadata.batchId then
    .ok ⟨metadata.catalog.inputId, metadata.batchId, object, h⟩
  else .error (.invariant "dead-letter registration is invalid")

/-- The end of `stage_dead_letter` and of `drain_sealed_segments` : a record is made durable
and published. -/
def publishNew (worker : Worker) (record : OutputRecoveryRecord) : Program Worker := do
  deployment.record record
  let published ← deployment.publishRecord rounds record
  return { worker with published := worker.published ++ [published] }

/-- `stage_dead_letter` up to the record that it makes. -/
def stagedDeadLetter (worker : Worker) (summary : SegmentBuildSummary) :
    Program OutputRecoveryRecord := do
  let metadata := summary.metadata
  let range ← raise (okOr (worker.ranges metadata.batchId)
    (.invariant "dead-letter batch has no retained spool range"))
  let positions := (summary.deadLetters.map (·.location.inputPosition)).insertionSort (· ≤ ·)
  let coverage ← raise ((BatchPositionCoverage.new metadata.batchId range positions).mapError
    .recoveryModel)
  let objectId ← newIdentity
  let object ← deployment.stageDeadLetters
    (.deadLetter deployment.root metadata.batchId objectId.uuid) summary.deadLetters
  let registration ← raise (deadLetterRegistration metadata object)
  let recoveryId ← newIdentity
  raise ((OutputRecoveryRecord.deadLetter recoveryId registration coverage).mapError .recoveryModel)

def stageDeadLetter (worker : Worker) (summary : SegmentBuildSummary) : Program Worker := do
  if summary.deadLetters = [] then return worker
  let record ← deployment.stagedDeadLetter worker summary
  deployment.publishNew rounds worker record

/-- The registration of a sealed segment. -/
def segmentRegistration (segment : SealedSegment) (segmentId : SegmentId) (times : SegmentTimes)
    (object : ObjectDescriptor) : Except IngestionProcessingError SegmentDescriptor :=
  if hrows : 0 < segment.rows.length then
    if hbytes : 0 < segment.estimatedUncompressedBytes then
      if howner : object.key.owner = .segment segmentId then
        .ok ⟨segmentId, segment.key.sourceId, segment.key.schemaId, times, segment.rows.length,
          segment.estimatedUncompressedBytes, object, hrows, hbytes, howner⟩
      else .error (.invariant "segment registration is invalid")
    else .error (.invariant "sealed segment has no estimated bytes")
  else .error (.invariant "sealed segment has no rows")

/-- The schema of a sealed segment. -/
def sealedSchema (w : World) (segment : SealedSegment) :
    Except IngestionProcessingError Catalog.Schema := do
  let source ← okOr (w.sourceById segment.key.sourceId)
    (.invariant "sealed segment source is absent from the retained catalog")
  okOr (source.schema segment.key.schemaId)
    (.invariant "sealed segment schema is absent from the retained catalog")

/-- The body of the loop of `drain_sealed_segments`. -/
def publishSegment (worker : Worker) (segment : SealedSegment) : Program Worker := do
  let schema ← raise (sealedSchema (← get) segment)
  let segmentId ← newIdentity
  let objectId ← newIdentity
  let object ← deployment.writeParquetSegment
    (.parquet deployment.root segmentId.uuid objectId.uuid) schema segment
  let times ← raise (segmentTimes segment)
  let registration ← raise (segmentRegistration segment segmentId.uuid times object)
  let coverage ← raise (segmentCoverage segment.rows worker.ranges)
  let recoveryId ← newIdentity
  let record ← raise ((OutputRecoveryRecord.segment recoveryId registration coverage).mapError
    .recoveryModel)
  deployment.publishNew rounds worker record

/-- `drain_sealed_segments`. -/
def drainSealedSegments (worker : Worker) : Program Worker :=
  loop .crashed (fun worker => do
    let (segment, builders) ← raise (worker.builders.takeNextSealed.mapError .segmentBuild)
    match segment with
    | none => return .inr { worker with builders }
    | some segment =>
      return .inl (← deployment.publishSegment rounds { worker with builders } segment)) rounds
    worker

variable [ChronoText] [FloatText] [Base64] [Layout]

/-- The loop of `process_batch` : a batch the builders have no room for waits until the sealed
segments are published. -/
def pushCandidate (worker : Worker) (candidate : NormalizedBatch) : Program Worker :=
  loop .crashed (fun (worker, candidate) => do
    let observedAt ← instant
    let (outcome, builders) ← raise
      ((worker.builders.pushBatch candidate observedAt).mapError .segmentBuild)
    match outcome with
    | .accepted summary =>
      return .inr (← deployment.stageDeadLetter rounds { worker with builders } summary)
    | .deferred candidate _ =>
      return .inl (← deployment.drainSealedSegments rounds { worker with builders }, candidate))
    rounds (worker, candidate)

/-- `process_batch`. -/
def processBatch (worker : Worker) (batch : RecoveredBatch) : Program Worker := do
  let metadata := batch.metadata
  let source ← raise (okOr ((← get).sourceById metadata.catalog.sourceId)
    (.invariant "pinned source is absent from the retained catalog"))
  let normalized ← raise ((normalizeRecords metadata batch.body source).mapError .normalization)
  let requirements ← raise ((BatchOutputRequirements.fromNormalized normalized batch.range).mapError
    .recoveryModel)
  let candidate := normalized.removeCoveredPositions
    (recoveredPositions worker.recoveredCoverage metadata.batchId)
  raise (ensure (worker.ranges metadata.batchId = none)
    (.invariant "spool contains a duplicate batch identity"))
  deployment.pushCandidate rounds { worker with
    ranges := Function.update worker.ranges metadata.batchId (some batch.range)
    pending := worker.pending ++ [requirements] } candidate

end Process

/-! ## The checkpoint -/

/-- `Processor::advance_checkpoint`. -/
def advanceCheckpoint (worker : Worker) : Program Worker := do
  let plan ← raise ((planCheckpoint (← get).checkpoint worker.pending worker.published).mapError
    .recoveryModel)
  match plan with
  | none => return worker
  | some plan =>
    deployment.advanceSpool plan
    let worker := worker.complete plan.target
    match ← deployment.reclaimCheckpointed with
    | none => return worker
    | some reclaimedBytes =>
      deployment.reclaimLog reclaimedBytes
      return { worker with published := [], recoveredCoverage := [], ranges := fun _ => none }

/-! ## The loop -/

section Run

variable [Blake3] [SerdeJson] [ParquetFile] [SerdeDocument] [UuidCrate] [ChronoText] [FloatText]
  [Base64] [Layout]

/-- The body of the loop of `wait_next_batch`. -/
def followStep (reader : RecoveredBatches) :
    Program (RecoveredBatches ⊕ RecoveredBatches × RecoveredBatch) := do
  match ← deployment.nextBatch reader with
  | (reader, some batch) => return .inr (reader, batch)
  | (reader, none) => return .inl reader

/-- `wait_next_batch`. -/
def waitNextBatch (reader : RecoveredBatches) : Program (RecoveredBatches × RecoveredBatch) := do
  let (reader, batch) ←
    if reader.state = .readingRecovery then deployment.nextBatch reader else pure (reader, none)
  match batch with
  | some batch => return (reader, batch)
  | none => loop .crashed deployment.followStep rounds reader.follow

/-- The inner loop of `run_loop`. -/
def processCommitted (worker : Worker) : Program Worker :=
  loop .crashed (fun worker => do
    match ← deployment.nextBatch worker.reader with
    | (reader, none) => return .inr { worker with reader }
    | (reader, some batch) =>
      let worker ← deployment.processBatch rounds { worker with reader } batch
      return .inl (← deployment.drainSealedSegments rounds worker)) rounds worker

/-- `wait_for_work`, and what `run_loop` does when it is woken. A segment expires only where one
is open. -/
def waitForWork (worker : Worker) : Program Worker := do
  let choice ← nextChoice
  modify (deployment.moves · choice.moves)
  match choice.wakeup with
  | .cancelled => throw (.failed .cancelled)
  | .batch =>
    let (reader, batch) ← deployment.waitNextBatch rounds worker.reader
    deployment.processBatch rounds { worker with reader } batch
  | .segmentExpiration =>
    if worker.builders.opened.isEmpty then throw .crashed
    let builders ← raise ((worker.builders.sealExpired choice.now).mapError .segmentBuild)
    return { worker with builders, reader := worker.reader.follow }

/-- `run_loop`. -/
def runLoop (worker : Worker) : Program Empty :=
  loop .crashed (fun worker => do
    let worker ← deployment.processCommitted rounds worker
    let worker ← deployment.advanceCheckpoint worker
    let worker ← deployment.waitForWork rounds worker
    return .inl (← deployment.drainSealedSegments rounds worker)) rounds worker

/-- `OutputRecoveryLog::open`. -/
def openLog : Program (List OutputRecoveryRecord) :=
  deployment.operate (.recovery (.io "open output recovery log")) fun _ w => return (w.log, w)

/-- The memory of a worker that starts. -/
def newWorker (w : World) : Worker where
  reader := .fromRecovery w.checkpoint w.committedBytes deployment.spool.bodyLimit
  builders := .new deployment.scratchBytes
  pending := []
  ranges := fun _ => none
  published := []
  recoveredCoverage := []

/-- `Processor::start`. -/
def start : Program Empty := do
  let worker := deployment.newWorker (← get)
  let records ← deployment.openLog
  deployment.runLoop rounds (← deployment.recoverOutputs rounds records worker)

end Run

end Deployment

/-! ## Sessions -/

/-- One life of the process : what the surroundings choose for its operations, and what the
crash before it has left of each staged file. -/
structure Session [Chrono] where
  choices : Stream' (Option Choice)
  rounds : Nat
  survives : StoredObjectId → Bytes → Option Bytes

/-- The world a process finds. -/
def World.restart [Chrono] (w : World) (session : Session) : World :=
  { w with
    choices := session.choices
    generation := 0
    staged := fun objectId => (w.staged objectId).bind (session.survives objectId)
    reclaiming := none }

/-- A world without data. -/
def World.initial [Chrono] (catalog : List Source) : World where
  choices := Stream'.const none
  catalog := catalog
  generation := 0
  frames := []
  checkpoint := .initial
  log := []
  staged := fun _ => none
  database := .empty
  objects := fun _ => none
  drawn := []
  retired := []
  history := []
  published := []
  reclaiming := none

namespace Deployment

variable [Chrono] (deployment : Deployment) [Blake3] [SerdeJson] [ParquetFile] [SerdeDocument]
  [UuidCrate] [ChronoText] [FloatText] [Base64] [Layout]

/-- The world a session leaves. -/
def session (w : World) (session : Session) : World :=
  match deployment.start session.rounds (w.restart session) with
  | .ok _ after => after
  | .error _ after => after

/-- How a process ends. -/
def stopOf (w : World) (session : Session) : Option Stop :=
  match deployment.start session.rounds (w.restart session) with
  | .ok _ _ => none
  | .error stop _ => some stop

/-- The world behind some sessions. Every state of a run is the end of a run, with the choices
cut off there. -/
def runSessions (catalog : List Source) (sessions : List Session) : World :=
  sessions.foldl deployment.session (.initial catalog)

end Deployment

end Elucid
