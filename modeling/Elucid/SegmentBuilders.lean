import Elucid.RowEstimate
import Mathlib.Data.List.MinMax
import Mathlib.Data.List.Sort

/-!
# Segment builders

The worker keeps one open builder for each source, schema and UTC day it has rows of, and
seals a builder when it is full, old, or in the way. `push_batch` takes a normalized batch
as a whole or gives it back when the sealed segments have to be drained first.
-/

namespace Elucid

open BigEndian List

/-! ## Data -/

/-- `EventDay` : a UTC day, counted from the epoch. -/
structure EventDay where
  day : Int
  deriving DecidableEq, Repr

/-- `EventDay::from_event_time`, on an event time `chrono` represents. -/
def EventDay.fromEventTime [Chrono] (eventTime : EventTime) : EventDay :=
  ⟨Chrono.dateNaive eventTime.unixMilliseconds⟩

structure SegmentKey where
  sourceId : SourceId
  schemaId : SchemaId
  eventDay : EventDay
  deriving DecidableEq

/-- The order of `SegmentKey`. -/
def SegmentKey.lt (a b : SegmentKey) : Bool :=
  textLt a.sourceId.uuid.bytes b.sourceId.uuid.bytes ||
    a.sourceId == b.sourceId && (textLt a.schemaId.uuid.bytes b.schemaId.uuid.bytes ||
      a.schemaId == b.schemaId && decide (a.eventDay.day < b.eventDay.day))

inductive SealingReason
  | rowTarget
  | byteTarget
  | maximumAge
  | builderLimit
  | capacityPressure (capacity : SegmentCapacity)
  | flush
  deriving DecidableEq, Repr

section Data

variable [Chrono]

structure SegmentRow where
  batchId : BatchId
  row : AcceptedRow
  estimatedUncompressedBytes : Nat
  estimatedResidentBytes : Nat

structure SegmentTimeBounds where
  minimumEventTime : EventTime
  maximumEventTime : EventTime
  minimumIngestionTime : IngestionTime
  maximumIngestionTime : IngestionTime
  deriving DecidableEq

structure SealedSegment where
  key : SegmentKey
  rows : List SegmentRow
  estimatedUncompressedBytes : Nat
  estimatedResidentBytes : Nat
  bounds : SegmentTimeBounds
  sealingReason : SealingReason

structure SegmentBuildSummary where
  metadata : BatchMetadata
  deadLetters : List DeadLetterEntry
  ignoredRecords : Nat

inductive SegmentBuildOutcome
  | accepted (summary : SegmentBuildSummary)
  | deferred (batch : NormalizedBatch) (capacity : SegmentCapacity)

/-- `SegmentBuildLimits`, with `is_valid`. Durations are in nanoseconds. -/
@[ext] structure SegmentBuildLimits where
  targetRows : Nat
  targetEstimatedBytes : Nat
  maximumOpenDuration : Nat
  maximumOpenBuilders : Nat
  maximumEstimatedResidentBytes : Nat
  maximumStagingBytes : Nat
  targetRows_pos : 0 < targetRows
  targetEstimatedBytes_pos : 0 < targetEstimatedBytes
  maximumOpenDuration_pos : 0 < maximumOpenDuration
  maximumOpenBuilders_pos : 0 < maximumOpenBuilders
  maximumEstimatedResidentBytes_pos : 0 < maximumEstimatedResidentBytes
  maximumStagingBytes_pos : 0 < maximumStagingBytes

instance : DecidableEq SegmentBuildLimits := fun _ _ => decidable_of_iff' _ SegmentBuildLimits.ext_iff

/-- `SegmentStagingCapacity` : a `NonZeroU64`. -/
@[ext] structure SegmentStagingCapacity where
  get : Nat
  pos : 0 < get
  lt : get < 2 ^ 64

instance : DecidableEq SegmentStagingCapacity := fun _ _ => decidable_of_iff' _ SegmentStagingCapacity.ext_iff

/-- `SegmentBuildLimits::standard`. -/
def SegmentBuildLimits.standard (stagingCapacity : SegmentStagingCapacity) : SegmentBuildLimits where
  targetRows := 50000
  targetEstimatedBytes := 64 * 1024 * 1024
  maximumOpenDuration := 10 * 10 ^ 9
  maximumOpenBuilders := 32
  maximumEstimatedResidentBytes := 256 * 1024 * 1024
  maximumStagingBytes := stagingCapacity.get
  targetRows_pos := by decide
  targetEstimatedBytes_pos := by decide
  maximumOpenDuration_pos := by decide
  maximumOpenBuilders_pos := by decide
  maximumEstimatedResidentBytes_pos := by decide
  maximumStagingBytes_pos := stagingCapacity.pos

/-- `OpenSegment`. Instants are in nanoseconds. -/
structure OpenSegment where
  rows : List SegmentRow
  estimatedUncompressedBytes : Nat
  estimatedResidentBytes : Nat
  openedAt : Nat
  lastTouchedSequence : Nat

/-- `SegmentBuilders`. The open builders are in the order of their keys. -/
structure SegmentBuilders where
  limits : SegmentBuildLimits
  opened : List (SegmentKey × OpenSegment)
  sealed : List SealedSegment
  estimatedResidentBytes : Nat
  estimatedStagingBytes : Nat
  accessSequence : Nat
  lastObservedAt : Option Nat

/-- `SegmentBuilders::new`. -/
def SegmentBuilders.new (stagingCapacity : SegmentStagingCapacity) : SegmentBuilders :=
  ⟨.standard stagingCapacity, [], [], 0, 0, 0, none⟩

end Data

/-! ## Open segments -/

namespace OpenSegment

variable [Chrono]

/-- `OpenSegment::new`. -/
def new (row : SegmentRow) (openedAt accessSequence : Nat) : OpenSegment :=
  ⟨[row], row.estimatedUncompressedBytes, row.estimatedResidentBytes, openedAt, accessSequence⟩

/-- `OpenSegment::push`. -/
def push (builder : OpenSegment) (row : SegmentRow) (accessSequence : Nat) :
    Except SegmentBuildError OpenSegment := do
  let estimatedUncompressedBytes ←
    addEstimate builder.estimatedUncompressedBytes row.estimatedUncompressedBytes
  let estimatedResidentBytes ←
    addEstimate builder.estimatedResidentBytes row.estimatedResidentBytes
  return { builder with
    rows := builder.rows ++ [row]
    estimatedUncompressedBytes
    estimatedResidentBytes
    lastTouchedSequence := accessSequence }

/-- The order of the rows of a sealed segment. -/
def rowLe (left right : SegmentRow) : Prop :=
  left.row.eventTime.unixMilliseconds < right.row.eventTime.unixMilliseconds ∨
    left.row.eventTime = right.row.eventTime ∧
      textLt right.row.eventId.bytes left.row.eventId.bytes = false

instance (left right : SegmentRow) : Decidable (rowLe left right) :=
  inferInstanceAs (Decidable (_ ∨ _))

instance : Std.Total rowLe where
  total a b := by
    simp only [rowLe, textLt_eq_false_iff]
    rcases lt_trichotomy a.row.eventTime.unixMilliseconds b.row.eventTime.unixMilliseconds
      with h | h | h
    · exact .inl (.inl h)
    · have heq : a.row.eventTime = b.row.eventTime := by
        cases h1 : a.row.eventTime; cases h2 : b.row.eventTime; simp_all
      rcases List.le_total a.row.eventId.bytes b.row.eventId.bytes with hle | hle
      · exact .inl (.inr ⟨heq, hle⟩)
      · exact .inr (.inr ⟨heq.symm, hle⟩)
    · exact .inr (.inl h)

instance : IsTrans SegmentRow rowLe where
  trans a b c := by
    simp only [rowLe, textLt_eq_false_iff]
    rintro (hab | ⟨hab, hid⟩) (hbc | ⟨hbc, hid'⟩)
    · exact .inl (by omega)
    · exact .inl (hbc ▸ hab)
    · exact .inl (hab ▸ hbc)
    · exact .inr ⟨hab.trans hbc, List.le_trans hid hid'⟩

theorem rowLe_time {a b : SegmentRow} (h : rowLe a b) :
    a.row.eventTime.unixMilliseconds ≤ b.row.eventTime.unixMilliseconds := by
  rcases h with h | ⟨h, -⟩
  · exact h.le
  · exact h ▸ le_rfl

/-- `Ord::min` of ingestion times. -/
def earlier (a b : IngestionTime) : IngestionTime :=
  if b.unixMilliseconds < a.unixMilliseconds then b else a

/-- `Ord::max` of ingestion times. -/
def later (a b : IngestionTime) : IngestionTime :=
  if b.unixMilliseconds < a.unixMilliseconds then a else b

/-- `OpenSegment::seal`. -/
def sealAs (builder : OpenSegment) (key : SegmentKey) (sealingReason : SealingReason) :
    Except SegmentBuildError SealedSegment :=
  let rows := builder.rows.insertionSort rowLe
  match rows, rows.getLast? with
  | first :: rest, some last =>
    .ok {
      key
      rows
      estimatedUncompressedBytes := builder.estimatedUncompressedBytes
      estimatedResidentBytes := builder.estimatedResidentBytes
      bounds := {
        minimumEventTime := first.row.eventTime
        maximumEventTime := last.row.eventTime
        minimumIngestionTime :=
          rest.foldl (fun time row => earlier time row.row.ingestionTime) first.row.ingestionTime
        maximumIngestionTime :=
          rest.foldl (fun time row => later time row.row.ingestionTime) first.row.ingestionTime }
      sealingReason }
  | _, _ => .error .stateInconsistent

end OpenSegment

/-! ## Builders -/

structure PlannedSegmentRow where
  eventDay : EventDay
  estimatedUncompressedBytes : Nat
  estimatedResidentBytes : Nat
  deriving DecidableEq, Repr

structure BatchRowPlan where
  totalEstimatedUncompressedBytes : Nat
  totalEstimatedResidentBytes : Nat
  rows : List PlannedSegmentRow
  deriving DecidableEq, Repr

/-- The loop of `plan_batch_rows`. -/
def planRows [SerdeJson] [Layout] [Chrono] (plan : BatchRowPlan) :
    List NormalizedRecord → Except SegmentBuildError BatchRowPlan
  | [] => .ok plan
  | .deadLetter _ :: rest => planRows plan rest
  | .accepted row :: rest => do
    let estimates ← estimateRow row
    let uncompressedBytes ←
      addEstimate plan.totalEstimatedUncompressedBytes estimates.uncompressedBytes
    let residentBytes ← addEstimate plan.totalEstimatedResidentBytes estimates.residentBytes
    planRows ⟨uncompressedBytes, residentBytes, plan.rows ++ [⟨.fromEventTime row.eventTime,
      estimates.uncompressedBytes, estimates.residentBytes⟩]⟩ rest

def planBatchRows [SerdeJson] [Layout] [Chrono] (batch : NormalizedBatch) :
    Except SegmentBuildError BatchRowPlan :=
  planRows ⟨0, 0, []⟩ batch.records

namespace SegmentBuilders

variable [Chrono] (builders : SegmentBuilders)

/-- `BTreeMap::get`. -/
def openAt (key : SegmentKey) : Option OpenSegment :=
  (builders.opened.find? fun entry => entry.1 = key).map (·.2)

/-- `SegmentBuilders::seal`. -/
def sealKey (key : SegmentKey) (reason : SealingReason) :
    Except SegmentBuildError SegmentBuilders := do
  let builder ← okOr (builders.openAt key) .stateInconsistent
  let segment ← builder.sealAs key reason
  return { builders with
    opened := builders.opened.filter fun entry => entry.1 ≠ key
    sealed := builders.sealed ++ [segment] }

/-- Sealing some builders in a row. -/
def sealKeys (reason : SealingReason) :
    SegmentBuilders → List SegmentKey → Except SegmentBuildError SegmentBuilders
  | builders, [] => .ok builders
  | builders, key :: rest => do
    let builders ← builders.sealKey key reason
    sealKeys reason builders rest

/-- `seal_all_with_reason`, without its count. -/
def sealAllWithReason (reason : SealingReason) : Except SegmentBuildError SegmentBuilders :=
  sealKeys reason builders (builders.opened.map (·.1))

/-- `observe_time`. -/
def observeTime (observedAt : Nat) : Except SegmentBuildError SegmentBuilders :=
  match builders.lastObservedAt with
  | some previous =>
    if observedAt < previous then .error .clockMovedBackwards
    else .ok { builders with lastObservedAt := some observedAt }
  | none => .ok { builders with lastObservedAt := some observedAt }

/-- The keys of the builders that are too old at an instant. -/
def expiredKeys (observedAt : Nat) : List SegmentKey :=
  (builders.opened.filter fun entry =>
    entry.2.openedAt ≤ observedAt ∧
      builders.limits.maximumOpenDuration ≤ observedAt - entry.2.openedAt).map (·.1)

/-- `seal_expired_at`, without its count. -/
def sealExpiredAt (observedAt : Nat) : Except SegmentBuildError SegmentBuilders :=
  sealKeys .maximumAge builders (builders.expiredKeys observedAt)

/-- `seal_expired`, without its count. -/
def sealExpired (observedAt : Nat) : Except SegmentBuildError SegmentBuilders := do
  let builders ← builders.observeTime observedAt
  builders.sealExpiredAt observedAt

/-- `flush_all`, without its count. -/
def flushAll : Except SegmentBuildError SegmentBuilders :=
  builders.sealAllWithReason .flush

/-- The builder touched longest ago, the first of them in the order of the keys. -/
def leastRecentlyUsed : Option SegmentKey :=
  (builders.opened.argmin (·.2.lastTouchedSequence)).map (·.1)

/-- The builder of the key is sealed if the row would make it too large. -/
def sealIfTooLarge (key : SegmentKey) (estimatedUncompressedBytes : Nat) :
    Except SegmentBuildError SegmentBuilders :=
  match builders.openAt key with
  | some builder => do
    let projectedBytes ← addEstimate builder.estimatedUncompressedBytes estimatedUncompressedBytes
    if builders.limits.targetEstimatedBytes < projectedBytes then
      builders.sealKey key .byteTarget
    else .ok builders
  | none => .ok builders

/-- One builder is sealed if the row needs another one than those that are open. -/
def makeRoom (key : SegmentKey) : Except SegmentBuildError SegmentBuilders :=
  if builders.openAt key = none ∧ builders.opened.length = builders.limits.maximumOpenBuilders then do
    let lruKey ← okOr builders.leastRecentlyUsed .stateInconsistent
    builders.sealKey lruKey .builderLimit
  else .ok builders

/-- The row is put into the builder of its key, through `BTreeMap::get_mut`, or into a new one
by `BTreeMap::insert`, which keeps the order of the keys. -/
def openedWith (key : SegmentKey) (row : SegmentRow) (observedAt accessSequence : Nat) :
    Except SegmentBuildError (List (SegmentKey × OpenSegment)) :=
  match builders.openAt key with
  | some builder => do
    let builder ← builder.push row accessSequence
    return builders.opened.map fun entry => if entry.1 = key then (key, builder) else entry
  | none => .ok (builders.opened.orderedInsert (fun a b => a.1.lt b.1)
      (key, OpenSegment.new row observedAt accessSequence))

/-- The row is put into the builder of its key and counted. -/
def addRow (key : SegmentKey) (row : SegmentRow) (observedAt : Nat) :
    Except SegmentBuildError SegmentBuilders := do
  let accessSequence ← okOr (checkedAdd builders.accessSequence 1) .accessSequenceExhausted
  let opened ← builders.openedWith key row observedAt accessSequence
  let estimatedResidentBytes ←
    addEstimate builders.estimatedResidentBytes row.estimatedResidentBytes
  let estimatedStagingBytes ←
    addEstimate builders.estimatedStagingBytes row.estimatedUncompressedBytes
  return { builders with opened, accessSequence, estimatedResidentBytes, estimatedStagingBytes }

/-- The builder of the key is sealed if it has reached a target. -/
def sealIfFull (key : SegmentKey) : Except SegmentBuildError SegmentBuilders := do
  let builder ← okOr (builders.openAt key) .stateInconsistent
  if builders.limits.targetRows ≤ builder.rows.length then builders.sealKey key .rowTarget
  else if builders.limits.targetEstimatedBytes ≤ builder.estimatedUncompressedBytes then
    builders.sealKey key .byteTarget
  else .ok builders

/-- `push_row`. -/
def pushRow (metadata : BatchMetadata) (row : AcceptedRow) (planned : PlannedSegmentRow)
    (observedAt : Nat) : Except SegmentBuildError SegmentBuilders := do
  let key : SegmentKey :=
    ⟨metadata.catalog.sourceId, metadata.catalog.targetSchemaId, planned.eventDay⟩
  let builders ← builders.sealIfTooLarge key planned.estimatedUncompressedBytes
  let builders ← builders.makeRoom key
  let builders ← builders.addRow key ⟨metadata.batchId, row, planned.estimatedUncompressedBytes,
    planned.estimatedResidentBytes⟩ observedAt
  builders.sealIfFull key

/-- The loop of `push_batch` over the records, with the planned rows that are left and the
dead letters so far. -/
def pushRecords (metadata : BatchMetadata) (observedAt : Nat) :
    SegmentBuilders → List PlannedSegmentRow → List DeadLetterEntry → List NormalizedRecord →
      Except SegmentBuildError (SegmentBuilders × List DeadLetterEntry)
  | builders, plannedRows, deadLetters, [] =>
    if plannedRows = [] then .ok (builders, deadLetters) else .error .stateInconsistent
  | builders, plannedRows, deadLetters, .deadLetter entry :: rest =>
    pushRecords metadata observedAt builders plannedRows (deadLetters ++ [entry]) rest
  | _, [], _, .accepted _ :: _ => .error .stateInconsistent
  | builders, planned :: plannedRows, deadLetters, .accepted row :: rest => do
    let builders ← builders.pushRow metadata row planned observedAt
    pushRecords metadata observedAt builders plannedRows deadLetters rest

/-- The capacity that `push_batch` would leave exceeded. -/
def capacityPressure (projectedResidentBytes projectedStagingBytes : Nat) :
    Option SegmentCapacity :=
  if builders.limits.maximumEstimatedResidentBytes < projectedResidentBytes then
    some .residentMemory
  else if builders.limits.maximumStagingBytes < projectedStagingBytes then some .staging
  else none

/-- What `push_batch` does once the rows are planned. -/
def pushPlanned (batch : NormalizedBatch) (rowPlan : BatchRowPlan) (observedAt : Nat) :
    Except SegmentBuildError (SegmentBuildOutcome × SegmentBuilders) := do
  ensure (rowPlan.totalEstimatedResidentBytes ≤ builders.limits.maximumEstimatedResidentBytes)
    (.batchExceedsCapacity .residentMemory rowPlan.totalEstimatedResidentBytes
      builders.limits.maximumEstimatedResidentBytes)
  ensure (rowPlan.totalEstimatedUncompressedBytes ≤ builders.limits.maximumStagingBytes)
    (.batchExceedsCapacity .staging rowPlan.totalEstimatedUncompressedBytes
      builders.limits.maximumStagingBytes)
  let projectedResidentBytes ←
    addEstimate builders.estimatedResidentBytes rowPlan.totalEstimatedResidentBytes
  let projectedStagingBytes ←
    addEstimate builders.estimatedStagingBytes rowPlan.totalEstimatedUncompressedBytes
  match builders.capacityPressure projectedResidentBytes projectedStagingBytes with
  | some capacity => do
    let builders ← builders.sealAllWithReason (.capacityPressure capacity)
    return (.deferred batch capacity, builders)
  | none => do
    ensure (builders.accessSequence + rowPlan.rows.length < 2 ^ 64) .accessSequenceExhausted
    let (builders, deadLetters) ←
      pushRecords batch.metadata observedAt builders rowPlan.rows [] batch.records
    return (.accepted ⟨batch.metadata, deadLetters, batch.ignoredRecords⟩, builders)

/-- `push_batch`. -/
def pushBatch [SerdeJson] [Layout] (batch : NormalizedBatch) (observedAt : Nat) :
    Except SegmentBuildError (SegmentBuildOutcome × SegmentBuilders) := do
  let builders ← builders.observeTime observedAt
  let builders ← builders.sealExpiredAt observedAt
  let rowPlan ← planBatchRows batch
  builders.pushPlanned batch rowPlan observedAt

/-- `take_next_sealed`. -/
def takeNextSealed : Except SegmentBuildError (Option SealedSegment × SegmentBuilders) :=
  match builders.sealed with
  | [] => .ok (none, builders)
  | segment :: rest => do
    ensure (segment.estimatedResidentBytes ≤ builders.estimatedResidentBytes) .stateInconsistent
    ensure (segment.estimatedUncompressedBytes ≤ builders.estimatedStagingBytes) .stateInconsistent
    return (some segment, { builders with
      sealed := rest
      estimatedResidentBytes := builders.estimatedResidentBytes - segment.estimatedResidentBytes
      estimatedStagingBytes :=
        builders.estimatedStagingBytes - segment.estimatedUncompressedBytes })

end SegmentBuilders

end Elucid
