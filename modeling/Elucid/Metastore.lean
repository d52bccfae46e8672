import Elucid.OutputRecord
import Elucid.Table

/-!
# The metastore

PostgreSQL holds one row for every segment and one for every stored object. A row
carries the `CHECK` of its lifecycle columns, a table the uniqueness of its primary key.
The transactions of `PublicationStore` are functions from the database to a result and
the database they commit; a transaction that fails is rolled back. `CURRENT_TIMESTAMP` is
the argument `now`, in seconds.

An output is resolved by the rows under its identities alone (`outputState`). A
transaction about one output leaves the rows of the others as they are, and what it does
to its own row is stated once for each transaction.
-/

namespace Elucid

/-! ## Errors -/

/-- `PublicationModelError` : values that do not fit the `BIGINT` columns. -/
inductive PublicationModelError
  | objectByteSizeOutOfRange
  | objectFormatVersionOutOfRange
  | rowCountOutOfRange
  | uncompressedByteCountOutOfRange
  deriving DecidableEq, Repr

/-- The codes of `is_database_conflict`, and any other one. -/
inductive SqlState
  | integrityConstraintViolation
  | numericValueOutOfRange
  | datetimeFieldOverflow
  | intervalFieldOverflow
  | serializationFailure
  | deadlockDetected
  | other
  deriving DecidableEq, Repr

def SqlState.isDatabaseConflict : SqlState → Bool
  | .other => false
  | _ => true

inductive PublicationErrorKind
  | conflict
  | unavailable
  | corrupt
  deriving DecidableEq, Repr

inductive PublicationErrorSource
  | model (error : PublicationModelError)
  | database (state : SqlState)
  | invariant (message : String)
  deriving DecidableEq, Repr

structure PublicationError where
  kind : PublicationErrorKind
  source : PublicationErrorSource
  deriving DecidableEq, Repr

namespace PublicationError

/-- `PublicationError::from_model`. -/
def fromModel (error : PublicationModelError) : PublicationError := ⟨.conflict, .model error⟩

/-- `PublicationError::conflict`. -/
def conflict (message : String) : PublicationError := ⟨.conflict, .invariant message⟩

/-- `PublicationError::corrupt`. -/
def corrupt (message : String) : PublicationError := ⟨.corrupt, .invariant message⟩

/-- `PublicationError::write`. -/
def write (state : SqlState) : PublicationError :=
  ⟨if state.isDatabaseConflict then .conflict else .unavailable, .database state⟩

end PublicationError

/-! ## Rows -/

inductive SegmentState
  | prepared
  | active
  | superseded
  | expired
  | abandoned
  deriving DecidableEq, Repr

/-- The states behind publication. -/
def SegmentState.isPublished : SegmentState → Bool
  | .prepared | .abandoned => false
  | .active | .superseded | .expired => true

/-- The states from which an object may be reclaimed. -/
def SegmentState.isTerminal : SegmentState → Bool
  | .prepared | .active => false
  | .superseded | .expired | .abandoned => true

inductive StoredObjectState
  | planned
  | uploaded
  | published
  | deletePending
  | deleted
  deriving DecidableEq, Repr

/-- The column `origin`. -/
inductive SegmentOrigin
  | ingestion
  | compaction
  deriving DecidableEq, Repr

/-- A row of `segments`, with `segments_lifecycle_check` as far as it is about the
publication time and the reclamation time. -/
structure StoredSegment where
  segmentId : SegmentId
  sourceId : SourceId
  schemaId : SchemaId
  origin : SegmentOrigin
  times : SegmentTimes
  rowCount : Nat
  uncompressedBytes : Nat
  state : SegmentState
  publishedAt : Option Nat
  dataExpiresAt : Option Nat
  reclaimAfter : Option Nat
  published_iff : publishedAt.isSome = state.isPublished
  reclaim_iff : reclaimAfter.isSome = state.isTerminal
  deriving DecidableEq

/-- `ObjectDatabaseOwner` : the columns `kind`, `segment_id`, `input_id` and `batch_id`, as
`stored_objects_owner_check` allows them. -/
inductive ObjectDatabaseOwner
  | segment (segmentId : SegmentId)
  | deadLetter (inputId : InputId) (batchId : BatchId)
  deriving DecidableEq

/-- `stored_objects_lifecycle_check`, as far as it is about the publication time. -/
def StoredObjectState.Allows (state : StoredObjectState) (publishedAt : Option Nat) : Prop :=
  match state with
  | .planned | .uploaded => publishedAt = none
  | .published => publishedAt.isSome
  | .deletePending | .deleted => True

instance (state : StoredObjectState) (publishedAt : Option Nat) :
    Decidable (state.Allows publishedAt) :=
  match state with
  | .planned | .uploaded => inferInstanceAs (Decidable (publishedAt = none))
  | .published => inferInstanceAs (Decidable (publishedAt.isSome = true))
  | .deletePending | .deleted => inferInstanceAs (Decidable True)

/-- A row of `stored_objects`. -/
structure StoredObject where
  objectId : StoredObjectId
  owner : ObjectDatabaseOwner
  objectKey : ManagedObjectKey
  expectedByteSize : Nat
  digest : Digest
  mediaType : ObjectMediaType
  formatVersion : Nat
  state : StoredObjectState
  publishedAt : Option Nat
  retentionDeadline : Option Nat
  lifecycle : state.Allows publishedAt
  deriving DecidableEq

/-- The two tables, with their rows in the order of `created_at`. -/
structure Database where
  segments : Table StoredSegment.segmentId
  objects : Table StoredObject.objectId

/-- The tables after the migrations. -/
def Database.empty : Database := ⟨.empty, .empty⟩

/-- `load_segment`. -/
def Database.segment? (database : Database) (segmentId : SegmentId) : Option StoredSegment :=
  database.segments.find? segmentId

/-- `load_object`. -/
def Database.object? (database : Database) (objectId : StoredObjectId) : Option StoredObject :=
  database.objects.find? objectId

/-- `load_segment_object_for_update`. -/
def Database.segmentObject? (database : Database) (segmentId : SegmentId) : Option StoredObject :=
  database.objects.rows.find? fun row => row.owner = .segment segmentId

/-! ## Column ranges -/

/-- Days PostgreSQL stores as a `DATE`, counted from 1970 : from Julian day 0 on. -/
def DateInRange (day : Int) : Prop := -2440588 ≤ day ∧ day < 2145042906

instance (day : Int) : Decidable (DateInRange day) := inferInstanceAs (Decidable (_ ∧ _))

/-- Microseconds PostgreSQL stores as a `TIMESTAMPTZ`, counted from 1970 : from Julian day
0 to the end of the year 294276. -/
def TimestampInRange (time : Int) : Prop :=
  -210866803200000000 ≤ time ∧ time < 9224318016000000000

instance (time : Int) : Decidable (TimestampInRange time) := inferInstanceAs (Decidable (_ ∧ _))

/-- Every time of a segment can be bound to its column. -/
def SegmentTimes.InRange (times : SegmentTimes) : Prop :=
  DateInRange times.eventDay ∧ TimestampInRange times.minimumEventTime ∧
    TimestampInRange times.maximumEventTime ∧ TimestampInRange times.minimumIngestionTime ∧
    TimestampInRange times.maximumIngestionTime

instance (times : SegmentTimes) : Decidable times.InRange :=
  inferInstanceAs (Decidable (_ ∧ _))

def validateObjectDatabaseValues (descriptor : ObjectDescriptor) :
    Except PublicationError Unit := do
  ensure (descriptor.expectedByteSize < 2 ^ 63) (.fromModel .objectByteSizeOutOfRange)
  ensure (descriptor.formatVersion < 2 ^ 63) (.fromModel .objectFormatVersionOutOfRange)

def validateSegmentDatabaseValues (descriptor : SegmentDescriptor) :
    Except PublicationError Unit := do
  ensure (descriptor.rowCount < 2 ^ 63) (.fromModel .rowCountOutOfRange)
  ensure (descriptor.uncompressedBytes < 2 ^ 63) (.fromModel .uncompressedByteCountOutOfRange)
  validateObjectDatabaseValues descriptor.object

/-! ## Registration -/

inductive RegistrationOutcome
  | registered
  | alreadyRegistered
  deriving DecidableEq, Repr

/-- The row `register_ingestion_segment` inserts. -/
def StoredSegment.prepared (registration : SegmentDescriptor) : StoredSegment where
  segmentId := registration.segmentId
  sourceId := registration.sourceId
  schemaId := registration.schemaId
  origin := .ingestion
  times := registration.times
  rowCount := registration.rowCount
  uncompressedBytes := registration.uncompressedBytes
  state := .prepared
  publishedAt := none
  dataExpiresAt := none
  reclaimAfter := none
  published_iff := rfl
  reclaim_iff := rfl

/-- The row `insert_planned_object` inserts. -/
def StoredObject.planned (descriptor : ObjectDescriptor) (owner : ObjectDatabaseOwner) :
    StoredObject where
  objectId := descriptor.key.objectId
  owner := owner
  objectKey := descriptor.key
  expectedByteSize := descriptor.expectedByteSize
  digest := descriptor.digest
  mediaType := descriptor.mediaType
  formatVersion := descriptor.formatVersion
  state := .planned
  publishedAt := none
  retentionDeadline := none
  lifecycle := rfl

/-- `segment_matches_registration`. -/
def StoredSegment.Matches (row : StoredSegment) (registration : SegmentDescriptor) : Prop :=
  row.segmentId = registration.segmentId ∧ row.sourceId = registration.sourceId ∧
    row.schemaId = registration.schemaId ∧ row.origin = .ingestion ∧
    row.times = registration.times ∧ row.rowCount = registration.rowCount ∧
    row.uncompressedBytes = registration.uncompressedBytes

instance (row : StoredSegment) (registration : SegmentDescriptor) :
    Decidable (row.Matches registration) :=
  inferInstanceAs (Decidable (_ ∧ _))

/-- `object_matches_descriptor`. -/
def StoredObject.Matches (row : StoredObject) (descriptor : ObjectDescriptor)
    (owner : ObjectDatabaseOwner) : Prop :=
  row.objectId = descriptor.key.objectId ∧ row.owner = owner ∧ row.objectKey = descriptor.key ∧
    row.expectedByteSize = descriptor.expectedByteSize ∧ row.digest = descriptor.digest ∧
    row.mediaType = descriptor.mediaType ∧ row.formatVersion = descriptor.formatVersion

instance (row : StoredObject) (descriptor : ObjectDescriptor) (owner : ObjectDatabaseOwner) :
    Decidable (row.Matches descriptor owner) :=
  inferInstanceAs (Decidable (_ ∧ _))

def PublicationTimesMatch (segment : StoredSegment) (object : StoredObject) : Prop :=
  segment.publishedAt.isSome ∧ segment.publishedAt = object.publishedAt

instance (segment : StoredSegment) (object : StoredObject) :
    Decidable (PublicationTimesMatch segment object) :=
  inferInstanceAs (Decidable (_ ∧ _))

/-- `validate_registered_ingestion_states`. -/
def validateRegisteredIngestionStates (segment : StoredSegment) (object : StoredObject) :
    Except PublicationError Unit :=
  let inconsistent := ensure (PublicationTimesMatch segment object)
    (.corrupt "registered segment and object lifecycle states are inconsistent")
  match segment.state, object.state with
  | .prepared, .planned | .prepared, .uploaded => .ok ()
  | .active, .published => inconsistent
  | .superseded, .published | .superseded, .deletePending | .superseded, .deleted
  | .expired, .published | .expired, .deletePending | .expired, .deleted => inconsistent
  | .abandoned, _ => .error (.conflict "abandoned segment registration cannot be resumed")
  | _, _ => .error (.corrupt "registered segment and object lifecycle states are inconsistent")

/-- The `INSERT INTO segments` of `register_ingestion_segment`, and whether it inserted a
row. -/
def Database.insertSegment (database : Database) (registration : SegmentDescriptor) :
    Bool × Database :=
  if database.segment? registration.segmentId = none then
    (true, { database with segments := database.segments.insert (.prepared registration) })
  else (false, database)

/-- A row that a unique index sets against a new object : the primary key, `object_key`, and
for each kind of owner the partial index over the owner. No index looks at the state. -/
def StoredObject.ConflictsWith (row : StoredObject) (descriptor : ObjectDescriptor)
    (owner : ObjectDatabaseOwner) : Prop :=
  row.objectId = descriptor.key.objectId ∨ row.objectKey = descriptor.key ∨ row.owner = owner

instance (row : StoredObject) (descriptor : ObjectDescriptor) (owner : ObjectDatabaseOwner) :
    Decidable (row.ConflictsWith descriptor owner) :=
  inferInstanceAs (Decidable (_ ∨ _))

def Database.insertPlannedObject (database : Database) (descriptor : ObjectDescriptor)
    (owner : ObjectDatabaseOwner) : Bool × Database :=
  if ∃ row ∈ database.objects.rows, row.ConflictsWith descriptor owner then (false, database)
  else (true, { database with objects := database.objects.insert (.planned descriptor owner) })

/-- `register_ingestion_segment`. The times are bound before the insertion. -/
def Database.registerIngestionSegment (database : Database) (registration : SegmentDescriptor) :
    Except PublicationError (RegistrationOutcome × Database) := do
  validateSegmentDatabaseValues registration
  ensure registration.times.InRange (.write .datetimeFieldOverflow)
  let (segmentInserted, withSegment) := database.insertSegment registration
  let (objectInserted, withObject) :=
    withSegment.insertPlannedObject registration.object (.segment registration.segmentId)
  match segmentInserted, objectInserted with
  | true, true => return (.registered, withObject)
  | false, false =>
    let segment ← okOr (database.segment? registration.segmentId)
      (.conflict "segment identity or immutable object metadata conflicts")
    let object ← okOr (database.object? registration.object.key.objectId)
      (.conflict "segment identity or immutable object metadata conflicts")
    ensure (segment.Matches registration ∧
        object.Matches registration.object (.segment registration.segmentId))
      (.conflict "segment identity or immutable object metadata conflicts")
    validateRegisteredIngestionStates segment object
    return (.alreadyRegistered, database)
  | _, _ => .error (.conflict "segment and object registration did not resolve atomically")

/-- `register_dead_letter`. -/
def Database.registerDeadLetter (database : Database) (registration : DeadLetterDescriptor) :
    Except PublicationError (RegistrationOutcome × Database) := do
  validateObjectDatabaseValues registration.object
  let owner := ObjectDatabaseOwner.deadLetter registration.inputId registration.batchId
  let (inserted, withObject) := database.insertPlannedObject registration.object owner
  if inserted then return (.registered, withObject)
  else
    let object ← okOr (database.object? registration.object.key.objectId)
      (.conflict "dead-letter identity, owner, or immutable object metadata conflicts")
    ensure (object.Matches registration.object owner)
      (.conflict "dead-letter identity, owner, or immutable object metadata conflicts")
    return (.alreadyRegistered, database)

/-! ## Upload and publication -/

/-- The `UPDATE` of `record_verified_upload` on a row. -/
def StoredObject.recordUpload (row : StoredObject) : StoredObject :=
  if h : row.state = .planned then
    { row with
      state := .uploaded
      lifecycle := by simpa [StoredObjectState.Allows, h] using row.lifecycle }
  else row

/-- The `UPDATE` of a publication on a row of `stored_objects`. Only dead letters get a
deadline of their own. -/
def StoredObject.publish (row : StoredObject) (now : Nat) (retentionDeadline : Option Nat) :
    StoredObject :=
  if row.state = .uploaded then
    { row with
      state := .published, publishedAt := some now, retentionDeadline := retentionDeadline
      lifecycle := rfl }
  else row

/-- The `UPDATE` of a publication on a row of `segments`. -/
def StoredSegment.activate (row : StoredSegment) (now retention : Nat) : StoredSegment :=
  if h : row.origin = .ingestion ∧ row.state = .prepared then
    { row with
      state := .active, publishedAt := some now, dataExpiresAt := some (now + retention)
      published_iff := rfl
      reclaim_iff := by rw [row.reclaim_iff, h.2]; rfl }
  else row

@[simp] theorem StoredObject.objectId_recordUpload (row : StoredObject) :
    row.recordUpload.objectId = row.objectId := by
  unfold recordUpload
  split <;> rfl

@[simp] theorem StoredObject.objectId_publish (row : StoredObject) (now : Nat)
    (deadline : Option Nat) : (row.publish now deadline).objectId = row.objectId := by
  unfold publish
  split <;> rfl

@[simp] theorem StoredSegment.segmentId_activate (row : StoredSegment) (now retention : Nat) :
    (row.activate now retention).segmentId = row.segmentId := by
  unfold activate
  split <;> rfl

/-- `UPDATE stored_objects ... WHERE object_id = ANY(ids) AND ...`. -/
def Database.updateObjects (database : Database) (ids : List StoredObjectId)
    (f : StoredObject → StoredObject) (h : ∀ row, (f row).objectId = row.objectId) : Database :=
  { database with
    objects := database.objects.update (fun row => if row.objectId ∈ ids then f row else row)
      fun row => by split <;> simp [h] }

/-- `UPDATE segments ... WHERE segment_id = ANY(ids) AND ...`. -/
def Database.updateSegments (database : Database) (ids : List SegmentId)
    (f : StoredSegment → StoredSegment) (h : ∀ row, (f row).segmentId = row.segmentId) :
    Database :=
  { database with
    segments := database.segments.update (fun row => if row.segmentId ∈ ids then f row else row)
      fun row => by split <;> simp [h] }

inductive ObjectUploadRecordOutcome
  | recorded
  | alreadyRecorded
  deriving DecidableEq, Repr

/-- `object_matches_descriptor_owner_from_key`. The input of a dead letter is not in its key,
so the one of the row is taken. -/
def StoredObject.MatchesFromKey (row : StoredObject) (descriptor : ObjectDescriptor) : Prop :=
  match descriptor.key.owner, row.owner with
  | .segment segmentId, _ => row.Matches descriptor (.segment segmentId)
  | .deadLetterBatch batchId, .deadLetter inputId _ =>
    row.Matches descriptor (.deadLetter inputId batchId)
  | .deadLetterBatch _, .segment _ => False

instance (row : StoredObject) (descriptor : ObjectDescriptor) :
    Decidable (row.MatchesFromKey descriptor) :=
  decidable_of_iff
    (match descriptor.key.owner, row.owner with
      | .segment segmentId, _ => decide (row.Matches descriptor (.segment segmentId))
      | .deadLetterBatch batchId, .deadLetter inputId _ =>
        decide (row.Matches descriptor (.deadLetter inputId batchId))
      | .deadLetterBatch _, .segment _ => false : Bool) (by
    unfold StoredObject.MatchesFromKey
    split <;> simp)

/-- `record_verified_upload`. -/
def Database.recordVerifiedUpload (database : Database) (descriptor : ObjectDescriptor) :
    Except PublicationError (ObjectUploadRecordOutcome × Database) := do
  validateObjectDatabaseValues descriptor
  let object ← okOr (database.object? descriptor.key.objectId)
    (.conflict "verified object is not registered")
  ensure (object.MatchesFromKey descriptor)
    (.conflict "verified object does not match its registered immutable metadata")
  match object.state with
  | .planned => return (.recorded, database.updateObjects [object.objectId]
      StoredObject.recordUpload StoredObject.objectId_recordUpload)
  | .uploaded | .published => return (.alreadyRecorded, database)
  | .deletePending | .deleted =>
    .error (.conflict "object deletion has already advanced beyond upload recording")

inductive PublicationOutcome
  | published
  | alreadyPublished
  deriving DecidableEq, Repr

/-- `publish_ingestion_segment`. `validate_ingestion_object_owner` holds of a row that was
found by its owner. -/
def Database.publishIngestionSegment (database : Database) (segmentId : SegmentId)
    (now retention : Nat) : Except PublicationError (PublicationOutcome × Database) := do
  let segment ← okOr (database.segment? segmentId)
    (.conflict "ingestion segment is not registered")
  let object ← okOr (database.segmentObject? segmentId)
    (.corrupt "registered ingestion segment has no Parquet object")
  ensure (segment.origin = .ingestion)
    (.conflict "compaction segment cannot use ingestion publication")
  let alreadyPublished := do
    ensure (PublicationTimesMatch segment object)
      (.corrupt "segment and Parquet object lifecycle states are inconsistent")
    return (.alreadyPublished, database)
  match segment.state, object.state with
  | .prepared, .uploaded =>
    return (.published,
      (database.updateObjects [object.objectId] (StoredObject.publish · now none)
          fun row => row.objectId_publish now none).updateSegments [segmentId]
        (StoredSegment.activate · now retention) fun row => row.segmentId_activate now retention)
  | .active, .published => alreadyPublished
  | .superseded, .published | .superseded, .deletePending | .superseded, .deleted
  | .expired, .published | .expired, .deletePending | .expired, .deleted => alreadyPublished
  | .prepared, .planned =>
    .error (.conflict "Parquet object must be verified before segment publication")
  | .abandoned, _ => .error (.conflict "abandoned segment cannot be published")
  | _, _ => .error (.corrupt "segment and Parquet object lifecycle states are inconsistent")

/-- `publish_dead_letter`. -/
def Database.publishDeadLetter (database : Database) (objectId : StoredObjectId)
    (now retention : Nat) : Except PublicationError (PublicationOutcome × Database) := do
  let object ← okOr (database.object? objectId)
    (.conflict "dead-letter object is not registered")
  match object.owner, object.state with
  | .segment _, _ => .error (.conflict "stored object is not a dead-letter object")
  | .deadLetter _ _, .uploaded =>
    return (.published, database.updateObjects [objectId]
      (StoredObject.publish · now (some (now + retention))) fun row => row.objectId_publish now _)
  | .deadLetter _ _, .published => return (.alreadyPublished, database)
  | .deadLetter _ _, .planned =>
    .error (.conflict "dead-letter object must be verified before publication")
  | .deadLetter _ _, .deletePending | .deadLetter _ _, .deleted => do
    ensure object.publishedAt.isSome
      (.conflict "unpublished dead-letter object is already being deleted")
    return (.alreadyPublished, database)

/-! ## Resolving an output -/

inductive ObjectPublicationState
  | unregistered
  | planned
  | uploaded
  | published
  | abandoned
  deriving DecidableEq, Repr

/-- `resolved_ingestion_state`. -/
def resolvedIngestionState (segment : StoredSegment) (object : StoredObject) :
    Except PublicationError ObjectPublicationState :=
  let inconsistent : PublicationError :=
    .corrupt "ingestion segment and object lifecycle states are inconsistent"
  let published := do
    ensure (PublicationTimesMatch segment object) inconsistent
    return .published
  let abandoned := do
    ensure (segment.publishedAt = none ∧ object.publishedAt = none) inconsistent
    return .abandoned
  match segment.state, object.state with
  | .prepared, .planned => .ok .planned
  | .prepared, .uploaded => .ok .uploaded
  | .active, .published => published
  | .superseded, .published | .superseded, .deletePending | .superseded, .deleted
  | .expired, .published | .expired, .deletePending | .expired, .deleted => published
  | .abandoned, .planned | .abandoned, .uploaded | .abandoned, .deletePending
  | .abandoned, .deleted => abandoned
  | _, _ => .error inconsistent

/-- `resolved_dead_letter_state`. -/
def resolvedDeadLetterState (object : StoredObject) : ObjectPublicationState :=
  match object.state with
  | .planned => .planned
  | .uploaded => .uploaded
  | .published => .published
  | .deletePending | .deleted => if object.publishedAt.isSome then .published else .abandoned

/-- `ingestion_output_state`, from the two rows it loads. -/
def ingestionRowsState (registration : SegmentDescriptor) :
    Option StoredSegment → Option StoredObject → Except PublicationError ObjectPublicationState
  | none, none => .ok .unregistered
  | some segment, some object => do
    ensure (segment.Matches registration ∧
        object.Matches registration.object (.segment registration.segmentId))
      (.conflict "retained ingestion output metadata conflicts with PostgreSQL")
    resolvedIngestionState segment object
  | some _, none | none, some _ =>
    .error (.corrupt "retained ingestion segment and object are only partially registered")

def Database.ingestionOutputState (database : Database) (registration : SegmentDescriptor) :
    Except PublicationError ObjectPublicationState := do
  validateSegmentDatabaseValues registration
  ingestionRowsState registration (database.segment? registration.segmentId)
    (database.object? registration.object.key.objectId)

/-- `dead_letter_output_state`. -/
def Database.deadLetterOutputState (database : Database) (registration : DeadLetterDescriptor) :
    Except PublicationError ObjectPublicationState := do
  validateObjectDatabaseValues registration.object
  match database.object? registration.object.key.objectId with
  | none => return .unregistered
  | some object =>
    ensure (object.Matches registration.object
        (.deadLetter registration.inputId registration.batchId))
      (.conflict "retained dead-letter metadata conflicts with PostgreSQL")
    return resolvedDeadLetterState object

/-- The state of an output, by its kind. -/
def Database.outputState (database : Database) :
    RecoveryOutput → Except PublicationError ObjectPublicationState
  | .segment registration => database.ingestionOutputState registration
  | .deadLetter registration => database.deadLetterOutputState registration

/-- Registration of an output, by its kind. -/
def Database.registerOutput (database : Database) :
    RecoveryOutput → Except PublicationError (RegistrationOutcome × Database)
  | .segment registration => database.registerIngestionSegment registration
  | .deadLetter registration => database.registerDeadLetter registration

/-- Publication of an output, by its kind. -/
def Database.publishOutput (database : Database) (now eventRetention deadLetterRetention : Nat) :
    RecoveryOutput → Except PublicationError (PublicationOutcome × Database)
  | .segment registration =>
    database.publishIngestionSegment registration.segmentId now eventRetention
  | .deadLetter registration =>
    database.publishDeadLetter registration.object.key.objectId now deadLetterRetention

/-! ## Reconciliation -/

def maximumReconciliationReferences : Nat := 1000000

/-- The `UPDATE` that gives up a prepared segment. -/
def StoredSegment.abandon (row : StoredSegment) (reclaimAfter : Nat) : StoredSegment :=
  if h : row.origin = .ingestion ∧ row.state = .prepared then
    { row with
      state := .abandoned, reclaimAfter := some reclaimAfter
      published_iff := by rw [row.published_iff, h.2]; rfl
      reclaim_iff := rfl }
  else row

/-- A dead letter that is not published yet. -/
def StoredObject.isUnpublishedDeadLetter (row : StoredObject) : Bool :=
  match row.owner, row.state with
  | .deadLetter _ _, .planned | .deadLetter _ _, .uploaded => true
  | _, _ => false

/-- The change of a row whose object is to be deleted. -/
def StoredObject.requestDeletion (row : StoredObject) : StoredObject :=
  { row with state := .deletePending, lifecycle := trivial }

/-- The `UPDATE` that schedules an unpublished dead letter for deletion. -/
def StoredObject.discard (row : StoredObject) : StoredObject :=
  if row.isUnpublishedDeadLetter then row.requestDeletion else row

@[simp] theorem StoredSegment.segmentId_abandon (row : StoredSegment) (reclaimAfter : Nat) :
    (row.abandon reclaimAfter).segmentId = row.segmentId := by
  unfold abandon
  split <;> rfl

@[simp] theorem StoredObject.objectId_discard (row : StoredObject) :
    row.discard.objectId = row.objectId := by
  unfold discard
  split <;> rfl

/-- The segments reconciliation abandons : the oldest prepared ones without a reference. -/
def Database.unreferencedSegments (database : Database) (referenced : List SegmentId)
    (limit : Nat) : List SegmentId :=
  ((database.segments.rows.filter fun row =>
    row.origin = .ingestion ∧ row.state = .prepared ∧ row.segmentId ∉ referenced).take limit).map
      (·.segmentId)

/-- The dead letters reconciliation schedules : the oldest unpublished ones without a
reference. -/
def Database.unreferencedDeadLetters (database : Database) (referenced : List StoredObjectId)
    (limit : Nat) : List StoredObjectId :=
  ((database.objects.rows.filter fun row =>
    row.isUnpublishedDeadLetter ∧ row.objectId ∉ referenced).take limit).map (·.objectId)

/-- `reconcile_unreferenced_outputs`. -/
def Database.reconcileUnreferencedOutputs (database : Database)
    (referencedSegments : List SegmentId) (referencedDeadLetters : List StoredObjectId)
    (now grace limit : Nat) :
    Except PublicationError ((List SegmentId × List StoredObjectId) × Database) := do
  ensure (referencedSegments.length ≤ maximumReconciliationReferences ∧
      referencedDeadLetters.length ≤ maximumReconciliationReferences)
    (.conflict "output reconciliation reference set exceeds its bound")
  let segmentIds := database.unreferencedSegments referencedSegments limit
  let deadLetterIds := database.unreferencedDeadLetters referencedDeadLetters
    (limit - segmentIds.length)
  return ((segmentIds, deadLetterIds),
    (database.updateSegments segmentIds (StoredSegment.abandon · (now + grace))
        fun row => row.segmentId_abandon _).updateObjects deadLetterIds StoredObject.discard
      StoredObject.objectId_discard)

/-! ## Retention and reclamation

The transactions of the maintenance jobs select their rows by an order, a limit and
`SKIP LOCKED`. Here the selection is the argument `ids`, and what stays is the condition
each statement puts on a row. -/

/-- The change of a segment that leaves service. -/
def StoredSegment.retire (row : StoredSegment) (state : SegmentState) (reclaimAfter : Nat)
    (h : state.isPublished = row.state.isPublished ∧ state.isTerminal = true) : StoredSegment :=
  { row with
    state := state, reclaimAfter := some reclaimAfter
    published_iff := by rw [row.published_iff, h.1]
    reclaim_iff := h.2.symm }

/-- The `UPDATE` of `expire_segments`, with the condition of its selection. -/
def StoredSegment.expire (now grace : Nat) (row : StoredSegment) : StoredSegment :=
  if h : row.state = .active ∧ ∃ expiresAt ∈ row.dataExpiresAt, expiresAt ≤ now then
    row.retire .expired (now + grace) (by rw [h.1]; exact ⟨rfl, rfl⟩)
  else row

/-- The `UPDATE` by which a committed compaction replaces its inputs. -/
def StoredSegment.supersede (now grace : Nat) (row : StoredSegment) : StoredSegment :=
  if h : row.state = .active then
    row.retire .superseded (now + grace) (by rw [h]; exact ⟨rfl, rfl⟩)
  else row

/-- The condition of `load_initial_candidates` and `mark_initial_claims`. -/
def Database.isReclaimable (database : Database) (now : Nat) (row : StoredObject) : Bool :=
  match row.owner with
  | .deadLetter _ _ =>
    row.state = .published ∧ ∃ deadline ∈ row.retentionDeadline, deadline ≤ now
  | .segment segmentId =>
    (database.segment? segmentId).any fun segment =>
      segment.state.isTerminal ∧ (∃ reclaimAfter ∈ segment.reclaimAfter, reclaimAfter ≤ now) ∧
        (segment.state.isPublished ∧ row.state = .published ∨
          segment.state = .abandoned ∧ (row.state = .planned ∨ row.state = .uploaded))

/-- The `UPDATE` of `record_deleted`. -/
def StoredObject.recordDeleted (row : StoredObject) : StoredObject :=
  if row.state = .deletePending then { row with state := .deleted, lifecycle := trivial } else row

/-- The condition of `load_cleanup_object_candidates` and `lock_cleanup_segments`. -/
def Database.isCleanable (database : Database) (row : StoredObject) : Bool :=
  match row.owner with
  | .deadLetter _ _ => row.state = .deleted
  | .segment segmentId =>
    row.state = .deleted ∧ (database.segment? segmentId).any (·.state.isTerminal)

theorem StoredSegment.segmentId_expire (now grace : Nat) (row : StoredSegment) :
    (row.expire now grace).segmentId = row.segmentId := by
  unfold expire
  split <;> rfl

theorem StoredSegment.segmentId_supersede (now grace : Nat) (row : StoredSegment) :
    (row.supersede now grace).segmentId = row.segmentId := by
  unfold supersede
  split <;> rfl

theorem StoredObject.objectId_recordDeleted (row : StoredObject) :
    row.recordDeleted.objectId = row.objectId := by
  unfold recordDeleted
  split <;> rfl

def Database.expireSegments (database : Database) (ids : List SegmentId) (now grace : Nat) :
    Database :=
  database.updateSegments ids (StoredSegment.expire now grace)
    (StoredSegment.segmentId_expire now grace)

/-- The part of a compaction's commit that is about its inputs. -/
def Database.supersedeSegments (database : Database) (ids : List SegmentId) (now grace : Nat) :
    Database :=
  database.updateSegments ids (StoredSegment.supersede now grace)
    (StoredSegment.segmentId_supersede now grace)

/-- `claim` of the reclamation store. -/
def Database.claim (database : Database) (ids : List StoredObjectId) (now : Nat) : Database :=
  database.updateObjects ids
    (fun row => if database.isReclaimable now row then row.requestDeletion else row)
    fun row => by split <;> rfl

def Database.recordDeleted (database : Database) (objectId : StoredObjectId) : Database :=
  database.updateObjects [objectId] StoredObject.recordDeleted StoredObject.objectId_recordDeleted

/-- `clean_terminal_metadata`. -/
def Database.cleanTerminalMetadata (database : Database) (ids : List StoredObjectId) : Database :=
  let selected := database.objects.rows.filter fun row =>
    row.objectId ∈ ids ∧ database.isCleanable row
  { segments := database.segments.delete fun segment =>
      selected.any fun row => row.owner = .segment segment.segmentId
    objects := database.objects.delete fun row => row.objectId ∈ selected.map (·.objectId) }

end Elucid
