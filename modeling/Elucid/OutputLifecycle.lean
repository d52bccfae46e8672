import Elucid.Metastore

/-!
# The lifecycle of a recorded output

The metastore is read through the rows of the outputs that the worker has recorded.
`Database.Records` says that there are no other rows, that the outputs share no identity,
and that the rows of every output are in states that belong together. Under it each
transaction is a transition of the states of the outputs :

* registration takes an unregistered output to `planned`, an upload record takes a planned one
  to `uploaded`, and publication an uploaded one to `published`;
* reconciliation may take a planned or uploaded output without a reference to `abandoned`;
* expiry, compaction, claims and deletions change no state;
* cleanup of terminal metadata may take a published or abandoned output to `unregistered`.

Every output a transaction is not about keeps its state.
-/

namespace Elucid

open List

variable {registration : SegmentDescriptor} {descriptor : ObjectDescriptor}
  {object row : StoredObject} {state : ObjectPublicationState}
variable {database after : Database} {owner : ObjectDatabaseOwner} {output : RecoveryOutput}
  {now retention : Nat} {reclaimAfter : Nat}
variable {record : OutputRecoveryRecord} {outputs : List RecoveryOutput}
  {outcome : RegistrationOutcome} {segment : StoredSegment} {segmentId : SegmentId}
  {id : OutputRecoveryId} {limit : Nat}

/-! ## Outputs and their rows -/

/-- The owner of the object of an output. -/
def RecoveryOutput.databaseOwner : RecoveryOutput → ObjectDatabaseOwner
  | .segment registration => .segment registration.segmentId
  | .deadLetter registration => .deadLetter registration.inputId registration.batchId

/-- The identity of the object of an output. -/
def RecoveryOutput.objectId (output : RecoveryOutput) : StoredObjectId :=
  output.object.key.objectId

/-- The identity of a segment, if the output is one. -/
def RecoveryOutput.segmentIds : RecoveryOutput → List SegmentId
  | .segment registration => [registration.segmentId]
  | .deadLetter _ => []

/-- The rows are those of the outputs, in consistent states. -/
structure Database.Records (database : Database) (outputs : List RecoveryOutput) : Prop where
  objectId_inj : ∀ a ∈ outputs, ∀ b ∈ outputs, a.objectId = b.objectId → a = b
  segmentId_inj : ∀ a b, .segment a ∈ outputs → .segment b ∈ outputs →
    a.segmentId = b.segmentId → a = b
  objects : ∀ objectId row, database.object? objectId = some row →
    ∃ output ∈ outputs, row.Matches output.object output.databaseOwner
  segments : ∀ segmentId row, database.segment? segmentId = some row →
    ∃ registration, .segment registration ∈ outputs ∧ row.Matches registration
  states : ∀ output ∈ outputs, ∃ state, database.outputState output = .ok state

/-- The values of an output fit the columns. -/
def RecoveryOutput.Fits : RecoveryOutput → Prop
  | .segment registration => validateSegmentDatabaseValues registration = .ok ()
  | .deadLetter registration => validateObjectDatabaseValues registration.object = .ok ()

/-- The check of a record is the check of the columns. -/
theorem fits_of_validateOutputMetadata (h : validateOutputMetadata output = .ok ()) :
    output.Fits := by
  obtain ⟨_, hsize, h⟩ := bind_eq_ok.mp h
  obtain ⟨_, hversion, h⟩ := bind_eq_ok.mp h
  rw [ensure_eq_ok] at hsize hversion
  cases output with
  | segment registration =>
    obtain ⟨_, hrows, hbytes⟩ := bind_eq_ok.mp h
    rw [ensure_eq_ok] at hrows hbytes
    have hobject : registration.object.expectedByteSize < 2 ^ 63 ∧
        registration.object.formatVersion < 2 ^ 63 := ⟨hsize, hversion⟩
    simp only [RecoveryOutput.Fits, validateSegmentDatabaseValues, validateObjectDatabaseValues,
      ensure, hrows, hbytes, hobject.1, hobject.2, if_true]
    rfl
  | deadLetter registration =>
    have hobject : registration.object.expectedByteSize < 2 ^ 63 ∧
        registration.object.formatVersion < 2 ^ 63 := ⟨hsize, hversion⟩
    simp only [RecoveryOutput.Fits, validateObjectDatabaseValues, ensure, hobject.1, hobject.2,
      if_true]
    rfl

/-- A record `OutputRecoveryRecord::segment` makes. -/
theorem OutputRecoveryRecord.segment_eq_ok {coverage : List BatchPositionCoverage}
    (h : OutputRecoveryRecord.segment id registration coverage = .ok record) :
    record.id = id ∧ record.output = .segment registration ∧ record.output.Fits ∧
      record.coverage.Perm coverage := by
  obtain ⟨_, -, h⟩ := bind_eq_ok.mp h
  split at h
  · obtain ⟨_, hmetadata, h⟩ := bind_eq_ok.mp h
    cases h
    exact ⟨rfl, rfl, fits_of_validateOutputMetadata hmetadata, perm_insertionSort _ _⟩
  · cases h

/-- A record `OutputRecoveryRecord::dead_letter` makes. -/
theorem OutputRecoveryRecord.deadLetter_eq_ok {registration : DeadLetterDescriptor}
    {coverage : BatchPositionCoverage}
    (h : OutputRecoveryRecord.deadLetter id registration coverage = .ok record) :
    record.id = id ∧ record.output = .deadLetter registration ∧ record.output.Fits ∧
      record.coverage = [coverage] := by
  unfold OutputRecoveryRecord.deadLetter at h
  split at h
  · obtain ⟨_, hmetadata, h⟩ := bind_eq_ok.mp h
    cases h
    exact ⟨rfl, rfl, fits_of_validateOutputMetadata hmetadata, rfl⟩
  · cases h

/-- The segment of an output, if it has one. -/
def Database.segmentOf (database : Database) : RecoveryOutput → Option StoredSegment
  | .segment registration => database.segment? registration.segmentId
  | .deadLetter _ => none

/-- The rows of a registered output resolve to a state. -/
def RecoveryOutput.Resolves (segment? : Option StoredSegment) (object : StoredObject)
    (state : ObjectPublicationState) : RecoveryOutput → Prop
  | .segment registration => ∃ segment, segment? = some segment ∧ segment.Matches registration ∧
      resolvedIngestionState segment object = .ok state
  | .deadLetter _ => resolvedDeadLetterState object = state

/-- What the two tables say about an output. -/
theorem Database.outputState_eq_ok :
    database.outputState output = .ok state ↔ output.Fits ∧
      (database.segmentOf output = none ∧ database.object? output.objectId = none ∧
          state = .unregistered ∨
        ∃ object, database.object? output.objectId = some object ∧
          object.Matches output.object output.databaseOwner ∧
          output.Resolves (database.segmentOf output) object state) := by
  cases output with
  | segment registration =>
    simp only [outputState, ingestionOutputState, bind_eq_ok, RecoveryOutput.Fits, segmentOf,
      RecoveryOutput.Resolves, RecoveryOutput.objectId, RecoveryOutput.object]
    cases database.segment? registration.segmentId <;>
      cases database.object? registration.object.key.objectId <;>
      simp [ingestionRowsState, bind_eq_ok, Unique.exists_iff, and_assoc, and_left_comm,
        RecoveryOutput.databaseOwner, @eq_comm _ ObjectPublicationState.unregistered]
  | deadLetter registration =>
    simp only [outputState, deadLetterOutputState, bind_eq_ok, RecoveryOutput.Fits, segmentOf,
      RecoveryOutput.Resolves, RecoveryOutput.objectId, RecoveryOutput.object]
    cases database.object? registration.object.key.objectId <;>
      simp [bind_eq_ok, Unique.exists_iff, pure, Except.pure, RecoveryOutput.databaseOwner,
        @eq_comm _ ObjectPublicationState.unregistered]

/-- The pairs of states that `resolved_ingestion_state` knows. -/
theorem resolvedIngestionState_eq_ok :
    resolvedIngestionState segment object = .ok state ↔
      match state with
      | .unregistered => False
      | .planned => segment.state = .prepared ∧ object.state = .planned
      | .uploaded => segment.state = .prepared ∧ object.state = .uploaded
      | .published => PublicationTimesMatch segment object ∧
          (segment.state = .active ∧ object.state = .published ∨
            (segment.state = .superseded ∨ segment.state = .expired) ∧
              (object.state = .published ∨ object.state = .deletePending ∨
                object.state = .deleted))
      | .abandoned => segment.state = .abandoned ∧ object.state ≠ .published ∧
          object.publishedAt = none := by
  have hpublished := segment.published_iff
  unfold resolvedIngestionState
  cases hsegment : segment.state <;> cases hobject : object.state <;> cases state <;>
    simp_all [bind_eq_ok, pure, Except.pure, SegmentState.isPublished]

/-- The states that `resolved_dead_letter_state` knows : the publication time alone tells a
published object from an abandoned one. -/
theorem resolvedDeadLetterState_eq :
    resolvedDeadLetterState object = state ↔
      match state with
      | .unregistered => False
      | .planned => object.state = .planned
      | .uploaded => object.state = .uploaded
      | .published => object.publishedAt.isSome
      | .abandoned => (object.state = .deletePending ∨ object.state = .deleted) ∧
          object.publishedAt = none := by
  have hlifecycle := object.lifecycle
  unfold resolvedDeadLetterState
  cases hobject : object.state <;> cases htime : object.publishedAt <;> cases state <;>
    simp_all [StoredObjectState.Allows]

/-- Registered rows resolve to no `unregistered`, and before publication the object is in the
state of the output. -/
theorem RecoveryOutput.Resolves.state_eq {segment? : Option StoredSegment}
    (h : output.Resolves segment? object state) :
    state ≠ .unregistered ∧ (state = .planned → object.state = .planned) ∧
      (state = .uploaded → object.state = .uploaded) := by
  cases output with
  | segment registration =>
    obtain ⟨segment, -, -, hresolved⟩ := h
    rw [resolvedIngestionState_eq_ok] at hresolved
    cases state <;> simp_all
  | deadLetter registration =>
    have hresolved := resolvedDeadLetterState_eq.mp h
    cases state <;> simp_all

/-- An output behind registration has an object, and one before publication has it in the same
state. -/
theorem Database.exists_object_of_outputState (h : database.outputState output = .ok state)
    (hstate : state ≠ .unregistered) :
    ∃ object, database.object? output.objectId = some object ∧
      object.Matches output.object output.databaseOwner ∧
      (state = .planned → object.state = .planned) ∧
      (state = .uploaded → object.state = .uploaded) := by
  obtain ⟨-, ⟨-, -, rfl⟩ | ⟨object, hobject, hmatch, hresolves⟩⟩ := outputState_eq_ok.mp h
  · exact absurd rfl hstate
  · exact ⟨object, hobject, hmatch, hresolves.state_eq.2⟩

/-- An output with new identities has no rows. -/
theorem Database.Records.concat (h : database.Records outputs) (hfits : output.Fits)
    (hobject : ∀ other ∈ outputs, other.objectId ≠ output.objectId)
    (hsegment : ∀ other ∈ outputs, ∀ id ∈ other.segmentIds, id ∉ output.segmentIds) :
    database.Records (outputs ++ [output]) ∧ database.outputState output = .ok .unregistered := by
  have hnoObject : database.object? output.objectId = none := by
    rw [Option.eq_none_iff_forall_ne_some]
    intro row hrow
    obtain ⟨other, hother, hid, -⟩ := h.objects _ _ hrow
    exact hobject other hother (hid.symm.trans (Table.find?_eq_some.mp hrow).2)
  have hnoSegment : database.segmentOf output = none := by
    cases output with
    | segment registration =>
      refine Option.eq_none_iff_forall_ne_some.mpr fun row hrow => ?_
      obtain ⟨other, hother, hid, -⟩ := h.segments _ _ hrow
      have hid' : other.segmentId = registration.segmentId :=
        hid.symm.trans (Table.find?_eq_some.mp hrow).2
      exact hsegment _ hother _ (mem_singleton_self _) (mem_singleton.mpr hid')
    | deadLetter registration => rfl
  have hstate : database.outputState output = .ok .unregistered :=
    outputState_eq_ok.mpr ⟨hfits, Or.inl ⟨hnoSegment, hnoObject, rfl⟩⟩
  refine ⟨⟨?_, ?_, ?_, ?_, ?_⟩, hstate⟩
  · simp only [mem_append, mem_singleton]
    rintro a (ha | rfl) b (hb | rfl) heq
    · exact h.objectId_inj a ha b hb heq
    · exact absurd heq (hobject a ha)
    · exact absurd heq.symm (hobject b hb)
    · rfl
  · simp only [mem_append, mem_singleton]
    rintro a b (ha | ha) (hb | hb) heq
    · exact h.segmentId_inj a b ha hb heq
    · subst hb
      exact absurd (mem_singleton.mpr heq) (hsegment _ ha _ (mem_singleton_self _))
    · subst ha
      exact absurd (mem_singleton.mpr heq.symm) (hsegment _ hb _ (mem_singleton_self _))
    · exact RecoveryOutput.segment.inj (ha.trans hb.symm)
  · intro objectId row hrow
    obtain ⟨other, hother, hmatch⟩ := h.objects objectId row hrow
    exact ⟨other, mem_append_left _ hother, hmatch⟩
  · intro segmentId row hrow
    obtain ⟨other, hother, hmatch⟩ := h.segments segmentId row hrow
    exact ⟨other, mem_append_left _ hother, hmatch⟩
  · intro other hother
    rcases mem_append.mp hother with hother | hother
    · exact h.states other hother
    · rw [mem_singleton.mp hother]
      exact ⟨_, hstate⟩

/-! ## Transitions -/

/-- The states of the outputs, and how they change. -/
abbrev StateChange := RecoveryOutput → ObjectPublicationState → ObjectPublicationState → Prop

/-- The database behind a step still records the outputs, and the state of each of them has
changed as allowed. -/
structure Database.Steps (database after : Database) (outputs : List RecoveryOutput)
    (change : StateChange) : Prop where
  records : after.Records outputs
  change : ∀ output ∈ outputs, ∀ state, database.outputState output = .ok state →
    ∃ state', after.outputState output = .ok state' ∧ change output state state'

/-- A step is given by the rows behind it and the change of the states. -/
theorem Database.Records.steps (h : database.Records outputs) {change : StateChange}
    (hobjects : ∀ id row, after.object? id = some row →
      ∃ output ∈ outputs, row.Matches output.object output.databaseOwner)
    (hsegments : ∀ id row, after.segment? id = some row →
      ∃ registration, .segment registration ∈ outputs ∧ row.Matches registration)
    (hchange : ∀ output ∈ outputs, ∀ state, database.outputState output = .ok state →
      ∃ state', after.outputState output = .ok state' ∧ change output state state') :
    database.Steps after outputs change := by
  refine ⟨{ h with objects := hobjects, segments := hsegments, states := ?_ }, hchange⟩
  intro output houtput
  obtain ⟨state, hstate⟩ := h.states output houtput
  exact (hchange output houtput state hstate).imp fun _ => And.left

/-- A step that changes or deletes single rows is given by what it does to the rows of each
output. -/
theorem Database.Records.rewrite (h : database.Records outputs)
    {f : StoredObject → Option StoredObject} {g : StoredSegment → Option StoredSegment}
    {change : StateChange}
    (hobjects : ∀ id, after.object? id = (database.object? id).bind f)
    (hsegments : ∀ id, after.segment? id = (database.segment? id).bind g)
    (hf : ∀ row row' descriptor owner, row.Matches descriptor owner → f row = some row' →
      row'.Matches descriptor owner)
    (hg : ∀ row row' registration, row.Matches registration → g row = some row' →
      row'.Matches registration)
    (hunregistered : ∀ output, change output .unregistered .unregistered)
    (hresolves : ∀ output ∈ outputs, ∀ object state,
      database.object? output.objectId = some object →
      object.Matches output.object output.databaseOwner →
      output.Resolves (database.segmentOf output) object state →
      (∃ object' state', f object = some object' ∧
        output.Resolves ((database.segmentOf output).bind g) object' state' ∧
        change output state state') ∨
      f object = none ∧ (database.segmentOf output).bind g = none ∧
        change output state .unregistered) :
    database.Steps after outputs change := by
  have hsegmentOf : ∀ output, after.segmentOf output = (database.segmentOf output).bind g
    | .segment registration => hsegments registration.segmentId
    | .deadLetter _ => rfl
  refine h.steps (fun id row hrow => ?_) (fun id row hrow => ?_)
    fun output houtput state hstate => ?_
  · obtain ⟨before, hbefore, hrow⟩ := Option.bind_eq_some_iff.mp ((hobjects id).symm.trans hrow)
    obtain ⟨output, houtput, hmatch⟩ := h.objects id before hbefore
    exact ⟨output, houtput, hf _ _ _ _ hmatch hrow⟩
  · obtain ⟨before, hbefore, hrow⟩ := Option.bind_eq_some_iff.mp ((hsegments id).symm.trans hrow)
    obtain ⟨registration, hregistration, hmatch⟩ := h.segments id before hbefore
    exact ⟨registration, hregistration, hg _ _ _ hmatch hrow⟩
  obtain ⟨hfits, ⟨hnone, hnone', rfl⟩ | ⟨object, hfind, hmatch, hresolved⟩⟩ :=
    outputState_eq_ok.mp hstate
  · refine ⟨.unregistered, outputState_eq_ok.mpr ⟨hfits, Or.inl ⟨?_, ?_, rfl⟩⟩, hunregistered _⟩
    · rw [hsegmentOf, hnone, Option.bind_none]
    · rw [hobjects, hnone', Option.bind_none]
  rcases hresolves output houtput object state hfind hmatch hresolved with
    ⟨object', state', hobject, hresolved', hchange⟩ | ⟨hobject, hsegment, hchange⟩
  · refine ⟨state', outputState_eq_ok.mpr ⟨hfits, Or.inr ⟨object', ?_, hf _ _ _ _ hmatch hobject,
      ?_⟩⟩, hchange⟩
    · rw [hobjects, hfind, Option.bind_some, hobject]
    · rwa [hsegmentOf]
  · refine ⟨.unregistered, outputState_eq_ok.mpr ⟨hfits, Or.inl ⟨?_, ?_, rfl⟩⟩, hchange⟩
    · rw [hsegmentOf, hsegment]
    · rw [hobjects, hfind, Option.bind_some, hobject]

/-- An `UPDATE` of the rows `s` and `t` that keeps what registration wrote is given by what it
does to the resolved states. -/
theorem Database.Records.update (h : database.Records outputs) {s : List StoredObjectId}
    {t : List SegmentId} {f : StoredObject → StoredObject} {g : StoredSegment → StoredSegment}
    {change : StateChange}
    (hobjects : ∀ id, after.object? id =
      (database.object? id).map fun row => if row.objectId ∈ s then f row else row)
    (hsegments : ∀ id, after.segment? id =
      (database.segment? id).map fun row => if row.segmentId ∈ t then g row else row)
    (hf : ∀ row descriptor owner, row.Matches descriptor owner →
      (f row).Matches descriptor owner)
    (hg : ∀ row registration, row.Matches registration → (g row).Matches registration)
    (hunregistered : ∀ output, change output .unregistered .unregistered)
    (hresolves : ∀ output ∈ outputs, ∀ object state,
      database.object? output.objectId = some object →
      object.Matches output.object output.databaseOwner →
      output.Resolves (database.segmentOf output) object state →
      ∃ state', output.Resolves ((database.segmentOf output).map fun row =>
          if row.segmentId ∈ t then g row else row) (if object.objectId ∈ s then f object else object)
        state' ∧ change output state state') :
    database.Steps after outputs change := by
  refine h.rewrite (fun id => (hobjects id).trans Option.map_eq_bind)
    (fun id => (hsegments id).trans Option.map_eq_bind) ?_ ?_ hunregistered ?_
  · rintro row _ descriptor owner hmatch ⟨⟩
    dsimp only
    split
    · exact hf _ _ _ hmatch
    · exact hmatch
  · rintro row _ registration hmatch ⟨⟩
    dsimp only
    split
    · exact hg _ _ hmatch
    · exact hmatch
  · intro output houtput object state hfind hmatch hresolved
    obtain ⟨state', hresolved', hchange⟩ := hresolves output houtput object state hfind hmatch hresolved
    exact Or.inl ⟨_, state', rfl, Option.map_eq_bind ▸ hresolved', hchange⟩

/-! ## Maintenance -/

/-- No state changes. -/
def StateChange.none : StateChange := fun _ state state' => state' = state

@[simp] theorem Database.object?_updateObjects (database : Database) (ids : List StoredObjectId)
    (f : StoredObject → StoredObject) (h : ∀ row, (f row).objectId = row.objectId)
    (id : StoredObjectId) :
    (database.updateObjects ids f h).object? id =
      (database.object? id).map fun row => if row.objectId ∈ ids then f row else row := by
  rw [updateObjects, object?, Table.find?_update, object?]

@[simp] theorem Database.segment?_updateObjects (database : Database) (ids : List StoredObjectId)
    (f : StoredObject → StoredObject) (h : ∀ row, (f row).objectId = row.objectId)
    (id : SegmentId) : (database.updateObjects ids f h).segment? id = database.segment? id := rfl

@[simp] theorem Database.segment?_updateSegments (database : Database) (ids : List SegmentId)
    (g : StoredSegment → StoredSegment) (h : ∀ row, (g row).segmentId = row.segmentId)
    (id : SegmentId) :
    (database.updateSegments ids g h).segment? id =
      (database.segment? id).map fun row => if row.segmentId ∈ ids then g row else row := by
  rw [updateSegments, segment?, Table.find?_update, segment?]

@[simp] theorem Database.object?_updateSegments (database : Database) (ids : List SegmentId)
    (g : StoredSegment → StoredSegment) (h : ∀ row, (g row).segmentId = row.segmentId)
    (id : StoredObjectId) : (database.updateSegments ids g h).object? id = database.object? id :=
  rfl

/-- A segment in service may leave it without a change of the output's state. -/
theorem StoredSegment.resolved_retire {row : StoredSegment} {retired : SegmentState} {hstate}
    (hactive : row.state = .active) (hretired : retired = .superseded ∨ retired = .expired)
    (h : resolvedIngestionState row object = .ok state) :
    resolvedIngestionState (row.retire retired reclaimAfter hstate) object = .ok state := by
  rw [resolvedIngestionState_eq_ok] at h ⊢
  cases state with
  | published => exact ⟨h.1, Or.inr ⟨hretired, Or.inl (by simp_all)⟩⟩
  | _ => simp_all

namespace Database.Records

/-- A change of segments that keeps what registration wrote and the resolved states. -/
theorem updateSegments (h : database.Records outputs) {ids : List SegmentId}
    {g : StoredSegment → StoredSegment} (hid : ∀ row, (g row).segmentId = row.segmentId)
    (hg : ∀ row registration, row.Matches registration → (g row).Matches registration)
    (hstate : ∀ row object state, resolvedIngestionState row object = .ok state →
      resolvedIngestionState (g row) object = .ok state) :
    database.Steps (database.updateSegments ids g hid) outputs .none := by
  refine h.update (s := []) (t := ids) (f := id) (by simp) (by simp) (fun _ _ _ => id) hg
    (fun _ => rfl) fun output _ object state _ _ hresolved => ⟨state, ?_, rfl⟩
  cases output with
  | segment registration =>
    obtain ⟨segment, hsegment, hmatch, hresolved⟩ := hresolved
    rw [hsegment, Option.map_some, if_neg not_mem_nil]
    split
    · exact ⟨_, rfl, hg _ _ hmatch, hstate _ _ _ hresolved⟩
    · exact ⟨_, rfl, hmatch, hresolved⟩
  | deadLetter registration => exact hresolved

/-- A move of the cleanup changes no state of an output. -/
theorem expireSegments (h : database.Records outputs) (ids : List SegmentId) (now grace : Nat) :
    database.Steps (database.expireSegments ids now grace) outputs .none := by
  refine h.updateSegments _ (fun row registration hmatch => ?_) fun row object state hstate => ?_
  · unfold StoredSegment.expire
    split <;> exact hmatch
  · unfold StoredSegment.expire
    split
    · exact StoredSegment.resolved_retire (by simp_all) (Or.inr rfl) hstate
    · exact hstate

theorem supersedeSegments (h : database.Records outputs) (ids : List SegmentId) (now grace : Nat) :
    database.Steps (database.supersedeSegments ids now grace) outputs .none := by
  refine h.updateSegments _ (fun row registration hmatch => ?_) fun row object state hstate => ?_
  · unfold StoredSegment.supersede
    split <;> exact hmatch
  · unfold StoredSegment.supersede
    split
    · exact StoredSegment.resolved_retire (by simp_all) (Or.inl rfl) hstate
    · exact hstate

/-- A change of objects that keeps what registration wrote and the resolved states. -/
theorem updateObjects (h : database.Records outputs) {ids : List StoredObjectId}
    {f : StoredObject → StoredObject} (hid : ∀ row, (f row).objectId = row.objectId)
    (hf : ∀ row descriptor owner, row.Matches descriptor owner →
      (f row).Matches descriptor owner)
    (hsegment : ∀ segment object state, database.segment? segment.segmentId = some segment →
      object.owner = .segment segment.segmentId →
      resolvedIngestionState segment object = .ok state →
      resolvedIngestionState segment (f object) = .ok state)
    (hdeadLetter : ∀ object inputId batchId, object.owner = .deadLetter inputId batchId →
      resolvedDeadLetterState (f object) = resolvedDeadLetterState object) :
    database.Steps (database.updateObjects ids f hid) outputs .none := by
  refine h.update (s := ids) (t := []) (g := id) (by simp) (by simp) hf (fun _ _ => id)
    (fun _ => rfl) fun output _ object state _ hmatch hresolved => ⟨state, ?_, rfl⟩
  simp only [not_mem_nil, if_false, Option.map_id']
  split
  · cases output with
    | segment registration =>
      obtain ⟨segment, hfind, hmatch', hresolved⟩ := hresolved
      refine ⟨segment, hfind, hmatch', hsegment _ _ _ ?_ ?_ hresolved⟩
      · rwa [hmatch'.1]
      · rw [hmatch'.1]
        exact hmatch.2.1
    | deadLetter registration => exact (hdeadLetter _ _ _ hmatch.2.1).trans hresolved
  · exact hresolved

theorem claim (h : database.Records outputs) (ids : List StoredObjectId) (now : Nat) :
    database.Steps (database.claim ids now) outputs .none := by
  refine h.updateObjects _ (fun row descriptor owner hmatch => ?_)
    (fun segment object state hfind howner hstate => ?_) fun object inputId batchId howner => ?_
  · split <;> exact hmatch
  · split
    · next hreclaimable =>
      simp only [Database.isReclaimable, howner, hfind, Option.any_some, decide_eq_true_eq]
        at hreclaimable
      rw [resolvedIngestionState_eq_ok] at hstate ⊢
      cases state with
      | published =>
        refine ⟨hstate.1, Or.inr ⟨?_, Or.inr (Or.inl rfl)⟩⟩
        rcases hstate.2 with ⟨hactive, -⟩ | ⟨hretired, -⟩
        · simp [hactive, SegmentState.isTerminal] at hreclaimable
        · exact hretired
      | _ => simp_all [StoredObject.requestDeletion, SegmentState.isTerminal]
    · exact hstate
  · split
    · next hreclaimable =>
      simp only [Database.isReclaimable, howner, decide_eq_true_eq] at hreclaimable
      have hlifecycle := object.lifecycle
      simp_all [resolvedDeadLetterState, StoredObject.requestDeletion, StoredObjectState.Allows]
    · rfl

theorem recordDeleted (h : database.Records outputs) (objectId : StoredObjectId) :
    database.Steps (database.recordDeleted objectId) outputs .none := by
  refine h.updateObjects _ (fun row descriptor owner hmatch => ?_)
    (fun segment object state _ _ hstate => ?_) fun object _ _ _ => ?_
  · unfold StoredObject.recordDeleted
    split <;> exact hmatch
  · unfold StoredObject.recordDeleted
    split
    · rw [resolvedIngestionState_eq_ok] at hstate ⊢
      cases state with
      | published => exact ⟨hstate.1, Or.inr ⟨by simp_all, Or.inr (Or.inr rfl)⟩⟩
      | _ => simp_all
    · exact hstate
  · unfold StoredObject.recordDeleted
    split <;> simp_all [resolvedDeadLetterState]

end Database.Records

/-! ## Transactions of the worker -/

/-- One output may change from one state to another. -/
def StateChange.only (output : RecoveryOutput) (before after : ObjectPublicationState) :
    StateChange := fun other state state' =>
  if other = output ∧ state = before then state' = after else state' = state

/-- The state of an output is read from its rows. -/
theorem Database.outputState_congr
    (hobject : after.object? output.objectId = database.object? output.objectId)
    (hsegment : after.segmentOf output = database.segmentOf output) :
    after.outputState output = database.outputState output := by
  cases output with
  | segment registration =>
    rw [outputState, outputState, ingestionOutputState, ingestionOutputState]
    exact congrArg₂ (fun segment? object? => do
      validateSegmentDatabaseValues registration
      ingestionRowsState registration segment? object?) hsegment hobject
  | deadLetter registration =>
    change after.object? registration.object.key.objectId = _ at hobject
    rw [outputState, outputState, deadLetterOutputState, deadLetterOutputState, hobject]
    rfl

namespace Database.Records

variable {first second : ObjectPublicationState}

/-- A transaction that finds its work done changes nothing. -/
theorem steps_self (h : database.Records outputs) (hne : database.outputState output ≠ .ok first) :
    database.Steps database outputs (.only output first second) := by
  refine ⟨h, fun other _ state hstate => ⟨state, hstate, ?_⟩⟩
  rw [StateChange.only, if_neg]
  rintro ⟨rfl, rfl⟩
  exact hne hstate

end Database.Records

/-- An object is inserted exactly if no row conflicts with it. -/
theorem Database.insertPlannedObject_cases (database : Database) (descriptor : ObjectDescriptor)
    (owner : ObjectDatabaseOwner) :
    (∃ row ∈ database.objects.rows, row.ConflictsWith descriptor owner) ∧
        database.insertPlannedObject descriptor owner = (false, database) ∨
      (∀ row ∈ database.objects.rows, ¬ row.ConflictsWith descriptor owner) ∧
        database.insertPlannedObject descriptor owner =
          (true, { database with objects := database.objects.insert (.planned descriptor owner) }) := by
  unfold insertPlannedObject
  split
  · exact Or.inl ⟨‹_›, rfl⟩
  · exact Or.inr ⟨by simp_all, rfl⟩

theorem Database.object?_eq_none_of_not_conflictsWith
    (h : ∀ row ∈ database.objects.rows, ¬ row.ConflictsWith descriptor owner) :
    database.object? descriptor.key.objectId = none :=
  Table.find?_eq_none.mpr fun row hrow hid => h row hrow (Or.inl hid)

/-- What `register_ingestion_segment` does when it succeeds. -/
theorem Database.registerIngestionSegment_eq_ok
    (h : database.registerIngestionSegment registration = .ok (outcome, after)) :
    database.segment? registration.segmentId = none ∧
        database.object? registration.object.key.objectId = none ∧
        after = ⟨database.segments.insert (.prepared registration), database.objects.insert
          (.planned registration.object (.segment registration.segmentId))⟩ ∨
      database.segment? registration.segmentId ≠ none ∧ after = database := by
  obtain ⟨_, -, h⟩ := bind_eq_ok.mp h
  obtain ⟨_, -, h⟩ := bind_eq_ok.mp h
  unfold insertSegment at h
  by_cases hnone : database.segment? registration.segmentId = none
  · rw [if_pos hnone] at h
    dsimp only at h
    rcases insertPlannedObject_cases
      { database with segments := database.segments.insert (.prepared registration) }
      registration.object (.segment registration.segmentId) with ⟨-, hinsert⟩ | ⟨hfree, hinsert⟩
    · rw [hinsert] at h
      cases h
    · rw [hinsert] at h
      cases h
      exact Or.inl ⟨hnone, object?_eq_none_of_not_conflictsWith hfree, rfl⟩
  · rw [if_neg hnone] at h
    dsimp only at h
    refine Or.inr ⟨hnone, ?_⟩
    rcases insertPlannedObject_cases database registration.object
      (.segment registration.segmentId) with ⟨-, hinsert⟩ | ⟨-, hinsert⟩
    · rw [hinsert] at h
      obtain ⟨_, -, h⟩ := bind_eq_ok.mp h
      obtain ⟨_, -, h⟩ := bind_eq_ok.mp h
      obtain ⟨_, -, h⟩ := bind_eq_ok.mp h
      obtain ⟨_, -, h⟩ := bind_eq_ok.mp h
      cases h
      rfl
    · rw [hinsert] at h
      cases h

/-- What `register_dead_letter` does when it succeeds. -/
theorem Database.registerDeadLetter_eq_ok {registration : DeadLetterDescriptor}
    (h : database.registerDeadLetter registration = .ok (outcome, after)) :
    (∀ row ∈ database.objects.rows, ¬ row.ConflictsWith registration.object
          (.deadLetter registration.inputId registration.batchId)) ∧
        outcome = .registered ∧
        after = { database with objects := database.objects.insert (.planned registration.object
          (.deadLetter registration.inputId registration.batchId)) } ∨
      database.object? registration.object.key.objectId ≠ none ∧
        outcome = .alreadyRegistered ∧ after = database := by
  obtain ⟨_, -, h⟩ := bind_eq_ok.mp h
  dsimp only at h
  rcases insertPlannedObject_cases database registration.object
    (.deadLetter registration.inputId registration.batchId) with ⟨-, hinsert⟩ | ⟨hfree, hinsert⟩
  · rw [hinsert] at h
    obtain ⟨object, hobject, h⟩ := bind_eq_ok.mp h
    obtain ⟨_, -, h⟩ := bind_eq_ok.mp h
    cases h
    exact Or.inr ⟨by simp [okOr_eq_ok hobject], rfl, rfl⟩
  · rw [hinsert] at h
    cases h
    exact Or.inl ⟨hfree, rfl, rfl⟩

/-- The rows registration inserts for an output. -/
def Database.insertOutput (database : Database) (output : RecoveryOutput) : Database where
  segments :=
    match output with
    | .segment registration => database.segments.insert (.prepared registration)
    | .deadLetter _ => database.segments
  objects := database.objects.insert (.planned output.object output.databaseOwner)

/-- Registration inserts the rows of an output without rows, and changes nothing else. -/
theorem Database.registerOutput_eq_ok (h : database.registerOutput output = .ok (outcome, after)) :
    database.segmentOf output = none ∧ database.object? output.objectId = none ∧
        after = database.insertOutput output ∨
      database.outputState output ≠ .ok .unregistered ∧ after = database := by
  cases output with
  | segment registration =>
    refine (registerIngestionSegment_eq_ok h).imp id (And.imp_left fun hne hstate => ?_)
    rcases (outputState_eq_ok.mp hstate).2 with ⟨hnone, -⟩ | ⟨_, -, -, hresolves⟩
    · exact hne hnone
    · exact hresolves.state_eq.1 rfl
  | deadLetter registration =>
    rcases registerDeadLetter_eq_ok h with ⟨hfree, -, hafter⟩ | ⟨hne, -, hafter⟩
    · exact Or.inl ⟨rfl, object?_eq_none_of_not_conflictsWith hfree, hafter⟩
    · refine Or.inr ⟨fun hstate => ?_, hafter⟩
      rcases (outputState_eq_ok.mp hstate).2 with ⟨-, hnone, -⟩ | ⟨_, -, -, hresolves⟩
      · exact hne hnone
      · exact hresolves.state_eq.1 rfl

/-- The object registration inserts. -/
theorem Database.object?_insertOutput (h : database.object? output.objectId = none)
    (id : StoredObjectId) : (database.insertOutput output).object? id =
      if output.objectId = id then some (.planned output.object output.databaseOwner)
      else database.object? id := by
  refine Table.find?_insert ?_ id
  exact h

/-- The segment registration inserts. -/
theorem Database.segment?_insertOutput (h : database.segmentOf output = none) (id : SegmentId) :
    (∃ registration, output = .segment registration ∧ registration.segmentId = id ∧
        (database.insertOutput output).segment? id = some (.prepared registration)) ∨
      id ∉ output.segmentIds ∧ (database.insertOutput output).segment? id = database.segment? id := by
  cases output with
  | segment registration =>
    have hinsert : (database.segments.insert (.prepared registration)).find? id =
        if registration.segmentId = id then some (.prepared registration)
        else database.segment? id := by
      refine Table.find?_insert ?_ id
      exact h
    by_cases hid : registration.segmentId = id
    · exact Or.inl ⟨registration, rfl, hid, hinsert.trans (if_pos hid)⟩
    · exact Or.inr ⟨by simpa [RecoveryOutput.segmentIds] using Ne.symm hid,
        hinsert.trans (if_neg hid)⟩
  | deadLetter registration => exact Or.inr ⟨not_mem_nil, rfl⟩

namespace Database.Records

/-- Registration. -/
theorem registerOutput (h : database.Records outputs) (houtput : output ∈ outputs)
    (hregister : database.registerOutput output = .ok (outcome, after)) :
    database.Steps after outputs (.only output .unregistered .planned) := by
  rcases registerOutput_eq_ok hregister with ⟨hsegment, hobject, rfl⟩ | ⟨hne, rfl⟩
  swap
  · exact h.steps_self hne
  have hmatch : (StoredObject.planned output.object output.databaseOwner).Matches output.object
      output.databaseOwner := ⟨rfl, rfl, rfl, rfl, rfl, rfl, rfl⟩
  refine h.steps (fun id row hrow => ?_) (fun id row hrow => ?_) fun other hother state hstate => ?_
  · rw [object?_insertOutput hobject] at hrow
    split at hrow
    · cases hrow
      exact ⟨output, houtput, hmatch⟩
    · exact h.objects id row hrow
  · rcases segment?_insertOutput hsegment id with ⟨registration, rfl, -, hinsert⟩ | ⟨-, hinsert⟩
    · cases hinsert.symm.trans hrow
      exact ⟨registration, houtput, rfl, rfl, rfl, rfl, rfl, rfl, rfl⟩
    · exact h.segments id row (hinsert.symm.trans hrow)
  by_cases heq : other = output
  · subst heq
    obtain ⟨hfits, ⟨-, -, rfl⟩ | ⟨_, hsome, -⟩⟩ := outputState_eq_ok.mp hstate
    · refine ⟨.planned, outputState_eq_ok.mpr ⟨hfits, Or.inr ⟨_,
        (object?_insertOutput hobject _).trans (if_pos rfl), hmatch, ?_⟩⟩, ?_⟩
      · cases other with
        | segment registration =>
          refine ⟨_, (Table.find?_insert ?_ _).trans (if_pos rfl),
            ⟨rfl, rfl, rfl, rfl, rfl, rfl, rfl⟩, rfl⟩
          exact hsegment
        | deadLetter registration => rfl
      · rw [StateChange.only, if_pos ⟨rfl, rfl⟩]
    · cases hobject.symm.trans hsome
  · refine ⟨state, hstate ▸ outputState_congr ?_ ?_, by
      rw [StateChange.only, if_neg fun hand => heq hand.1]⟩
    · exact (object?_insertOutput hobject _).trans
        (if_neg fun hid => heq (h.objectId_inj _ hother _ houtput hid.symm))
    · cases other with
      | segment registration =>
        rcases segment?_insertOutput hsegment registration.segmentId with
          ⟨registration', rfl, hid, -⟩ | ⟨-, hinsert⟩
        · exact absurd (congrArg _ (h.segmentId_inj _ _ hother houtput hid.symm)) heq
        · exact hinsert
      | deadLetter registration => rfl

end Database.Records

/-- What `record_verified_upload` does when it succeeds. -/
theorem Database.recordVerifiedUpload_eq_ok {outcome : ObjectUploadRecordOutcome}
    (h : database.recordVerifiedUpload descriptor = .ok (outcome, after)) :
    ∃ object, database.object? descriptor.key.objectId = some object ∧
      (object.state = .planned ∧ after = database.updateObjects [descriptor.key.objectId]
          StoredObject.recordUpload StoredObject.objectId_recordUpload ∨
        object.state ≠ .planned ∧ after = database) := by
  obtain ⟨_, -, h⟩ := bind_eq_ok.mp h
  obtain ⟨object, hobject, h⟩ := bind_eq_ok.mp h
  obtain ⟨_, -, h⟩ := bind_eq_ok.mp h
  have hid : object.objectId = descriptor.key.objectId :=
    (Table.find?_eq_some.mp (okOr_eq_ok hobject)).2
  refine ⟨object, okOr_eq_ok hobject, ?_⟩
  cases hstate : object.state <;> rw [hstate] at h <;> cases h <;> simp [hid]

theorem StoredObject.matches_recordUpload (h : row.Matches descriptor owner) :
    row.recordUpload.Matches descriptor owner := by
  unfold recordUpload
  split <;> exact h

theorem StoredObject.state_recordUpload (h : row.state = .planned) :
    row.recordUpload.state = .uploaded := by
  rw [recordUpload, dif_pos h]

@[simp] theorem StoredObject.publishedAt_recordUpload (row : StoredObject) :
    row.recordUpload.publishedAt = row.publishedAt := by
  unfold recordUpload
  split <;> rfl

theorem StoredObject.recordUpload_of_ne (h : row.state ≠ .planned) :
    row.recordUpload = row := by
  rw [recordUpload, dif_neg h]

namespace Database.Records

/-- A transaction that changes the rows of one output is given by what it does to the resolved
state of that output. -/
theorem updateOutput (h : database.Records outputs) (houtput : output ∈ outputs)
    {f : StoredObject → StoredObject} {g : StoredSegment → StoredSegment}
    {first second : ObjectPublicationState} (hfirst : first ≠ .unregistered)
    (hobjects : ∀ id, after.object? id =
      (database.object? id).map fun row => if row.objectId ∈ [output.objectId] then f row else row)
    (hsegments : ∀ id, after.segment? id =
      (database.segment? id).map fun row => if row.segmentId ∈ output.segmentIds then g row else row)
    (hf : ∀ row descriptor owner, row.Matches descriptor owner → (f row).Matches descriptor owner)
    (hg : ∀ row registration, row.Matches registration → (g row).Matches registration)
    (hresolves : ∀ object state, database.object? output.objectId = some object →
      output.Resolves (database.segmentOf output) object state →
      output.Resolves ((database.segmentOf output).map g) (f object)
        (if state = first then second else state)) :
    database.Steps after outputs (.only output first second) := by
  refine h.update hobjects hsegments hf hg (fun other => ?_)
    fun other hother object state hfind hmatch hresolved => ?_
  · rw [StateChange.only, if_neg fun hand => hfirst hand.2.symm]
  by_cases hown : other = output
  · subst hown
    have hsegment : ((database.segmentOf other).map fun row =>
        if row.segmentId ∈ other.segmentIds then g row else row) =
        (database.segmentOf other).map g := by
      cases other with
      | segment registration =>
        obtain ⟨segment, hsegment, hmatch', -⟩ := hresolved
        simp [hsegment, RecoveryOutput.segmentIds, hmatch'.1]
      | deadLetter registration => rfl
    have hid : object.objectId ∈ [other.objectId] := mem_singleton.mpr hmatch.1
    rw [if_pos hid, hsegment]
    refine ⟨_, hresolves object state hfind hresolved, ?_⟩
    unfold StateChange.only
    split_ifs <;> simp_all
  · have hid : object.objectId ∉ [output.objectId] := fun hid => hown
      (h.objectId_inj _ hother _ houtput (hmatch.1.symm.trans (mem_singleton.mp hid)))
    have hsegment : ((database.segmentOf other).map fun row =>
        if row.segmentId ∈ output.segmentIds then g row else row) = database.segmentOf other := by
      cases other with
      | segment registration =>
        obtain ⟨segment, hsegment, hmatch', -⟩ := hresolved
        rw [hsegment, Option.map_some, if_neg]
        cases output with
        | segment other => exact fun hid => hown (congrArg _ (h.segmentId_inj _ _ hother houtput
            (hmatch'.1.symm.trans (mem_singleton.mp hid))))
        | deadLetter other => exact not_mem_nil
      | deadLetter registration => rfl
    rw [if_neg hid, hsegment]
    exact ⟨state, hresolved, by rw [StateChange.only, if_neg fun hand => hown hand.1]⟩

/-- The record of a verified upload. -/
theorem recordVerifiedUpload (h : database.Records outputs) (houtput : output ∈ outputs)
    {outcome : ObjectUploadRecordOutcome}
    (hupload : database.recordVerifiedUpload output.object = .ok (outcome, after)) :
    database.Steps after outputs (.only output .planned .uploaded) := by
  obtain ⟨object, hobject, ⟨hplanned, rfl⟩ | ⟨hstate, rfl⟩⟩ := recordVerifiedUpload_eq_ok hupload
  · refine h.updateOutput houtput (by simp) (fun id => object?_updateObjects ..)
      (g := id) (by simp) (fun _ _ _ => StoredObject.matches_recordUpload) (fun _ _ => id)
      fun row state _ hresolved => ?_
    rw [Option.map_id]
    by_cases hrow : row.state = .planned
    · cases output with
      | segment registration =>
        obtain ⟨segment, hsegment, hmatch, hresolved⟩ := hresolved
        refine ⟨segment, hsegment, hmatch, ?_⟩
        rw [resolvedIngestionState_eq_ok] at hresolved ⊢
        cases state <;> simp_all [StoredObject.state_recordUpload]
      | deadLetter registration =>
        cases hresolved
        simp [RecoveryOutput.Resolves, resolvedDeadLetterState,
          StoredObject.state_recordUpload hrow, hrow]
    · rwa [StoredObject.recordUpload_of_ne hrow, if_neg]
      exact fun hplanned => hrow (hresolved.state_eq.2.1 hplanned)
  · refine h.steps_self fun hplanned => ?_
    obtain ⟨row, hrow, -, hplanned, -⟩ := exists_object_of_outputState hplanned (by simp)
    obtain rfl : object = row := Option.some.inj (hobject.symm.trans hrow)
    exact hstate (hplanned rfl)

/-- The object a recorded segment owns is the one of its registration. -/
theorem object?_of_owner (h : database.Records outputs) (hmem : .segment registration ∈ outputs)
    (hobject : object ∈ database.objects.rows)
    (howner : object.owner = .segment registration.segmentId) :
    database.object? registration.object.key.objectId = some object := by
  have hfind : database.object? object.objectId = some object := Table.find?_of_mem hobject
  obtain ⟨output, houtput, hmatch⟩ := h.objects _ _ hfind
  cases output with
  | segment other =>
    have hid : other.segmentId = registration.segmentId :=
      ObjectDatabaseOwner.segment.inj (hmatch.2.1.symm.trans howner)
    obtain rfl := h.segmentId_inj _ _ houtput hmem hid
    exact hmatch.1 ▸ hfind
  | deadLetter other => cases hmatch.2.1.symm.trans howner

end Database.Records

/-- What `publish_ingestion_segment` does when it succeeds. -/
theorem Database.publishIngestionSegment_eq_ok {outcome : PublicationOutcome}
    (h : database.publishIngestionSegment segmentId now retention = .ok (outcome, after)) :
    ∃ segment object, database.segment? segmentId = some segment ∧
      database.segmentObject? segmentId = some object ∧
      (segment.state = .prepared ∧ object.state = .uploaded ∧
          after = (database.updateObjects [object.objectId] (StoredObject.publish · now none)
              fun row => row.objectId_publish now none).updateSegments [segmentId]
            (StoredSegment.activate · now retention)
            (fun row => row.segmentId_activate now retention) ∨
        segment.state.isPublished ∧ after = database) := by
  obtain ⟨segment, hsegment, h⟩ := bind_eq_ok.mp h
  obtain ⟨object, hobject, h⟩ := bind_eq_ok.mp h
  obtain ⟨_, -, h⟩ := bind_eq_ok.mp h
  refine ⟨segment, object, okOr_eq_ok hsegment, okOr_eq_ok hobject, ?_⟩
  cases hstate : segment.state <;> cases hstate' : object.state <;>
    simp only [hstate, hstate', bind_eq_ok, pure, Except.pure, Except.ok.injEq, Prod.mk.injEq,
      reduceCtorEq, Unique.exists_iff] at h <;>
    simp [SegmentState.isPublished, h]

/-- What `publish_dead_letter` does when it succeeds. -/
theorem Database.publishDeadLetter_eq_ok {objectId : StoredObjectId} {outcome : PublicationOutcome}
    (h : database.publishDeadLetter objectId now retention = .ok (outcome, after)) :
    ∃ object, database.object? objectId = some object ∧
      (object.state = .uploaded ∧ after = database.updateObjects [objectId]
          (StoredObject.publish · now (some (now + retention)))
          (fun row => row.objectId_publish now _) ∨
        object.publishedAt.isSome ∧ after = database) := by
  obtain ⟨object, hobject, h⟩ := bind_eq_ok.mp h
  refine ⟨object, okOr_eq_ok hobject, ?_⟩
  have hlifecycle := object.lifecycle
  cases howner : object.owner <;> cases hstate : object.state <;>
    simp only [howner, hstate, bind_eq_ok, pure, Except.pure, Except.ok.injEq, Prod.mk.injEq,
      reduceCtorEq, Unique.exists_iff, ensure_eq_ok] at h <;>
    simp_all [StoredObjectState.Allows]

theorem StoredObject.matches_publish {deadline : Option Nat} (h : row.Matches descriptor owner) :
    (row.publish now deadline).Matches descriptor owner := by
  unfold publish
  split <;> exact h

theorem StoredSegment.matches_activate {row : StoredSegment} (h : row.Matches registration) :
    (row.activate now retention).Matches registration := by
  unfold activate
  split <;> exact h

/-- Both rows of an uploaded segment change, and both rows of any other one stay. -/
theorem resolvedIngestionState_publish (horigin : segment.origin = .ingestion)
    (h : resolvedIngestionState segment object = .ok state) (hstate : state = .uploaded) :
    resolvedIngestionState (segment.activate now retention) (object.publish now none) =
      .ok .published := by
  subst hstate
  obtain ⟨hsegment, hobject⟩ := resolvedIngestionState_eq_ok.mp h
  rw [StoredSegment.activate, dif_pos ⟨horigin, hsegment⟩, StoredObject.publish, if_pos hobject,
    resolvedIngestionState_eq_ok]
  exact ⟨⟨rfl, rfl⟩, Or.inl ⟨rfl, rfl⟩⟩

namespace Database.Records

/-- Publication. -/
theorem publishOutput (h : database.Records outputs) (houtput : output ∈ outputs)
    {eventRetention deadLetterRetention : Nat} {outcome : PublicationOutcome}
    (hpublish : database.publishOutput now eventRetention deadLetterRetention output =
      .ok (outcome, after)) :
    database.Steps after outputs (.only output .uploaded .published) ∧
      after.outputState output = .ok .published := by
  obtain ⟨state, hstate⟩ := h.states output houtput
  suffices hsteps : database.Steps after outputs (.only output .uploaded .published) ∧
      (state = .uploaded ∨ state = .published) by
    refine ⟨hsteps.1, ?_⟩
    obtain ⟨state', hstate', hchange⟩ := hsteps.1.change output houtput state hstate
    rcases hsteps.2 with rfl | rfl <;> simp_all [StateChange.only]
  cases output with
  | segment registration =>
    obtain ⟨segment, object, hsegment, hobject, hcases⟩ := publishIngestionSegment_eq_ok hpublish
    replace hobject := h.object?_of_owner houtput (mem_of_find?_eq_some hobject)
      (by simpa using find?_some hobject)
    obtain ⟨-, ⟨hnone, -⟩ | ⟨object', hobject', hmatch, segment', hsegment', hmatch', hresolved⟩⟩ :=
      outputState_eq_ok.mp hstate
    · cases hnone.symm.trans hsegment
    cases hsegment.symm.trans hsegment'
    cases hobject.symm.trans hobject'
    rcases hcases with ⟨hprepared, huploaded, rfl⟩ | ⟨hpublished, rfl⟩
    · obtain rfl : state = .uploaded := by
        rw [resolvedIngestionState_eq_ok] at hresolved
        cases state <;> simp_all
      refine ⟨h.updateOutput houtput (f := (StoredObject.publish · now none))
        (g := (StoredSegment.activate · now eventRetention)) (by simp) (fun id => ?_) (fun id => ?_)
        (fun _ _ _ => StoredObject.matches_publish) (fun _ _ => StoredSegment.matches_activate)
        fun object' state' hfind hresolves => ?_, Or.inl rfl⟩
      · rw [object?_updateSegments, object?_updateObjects, hmatch.1]
        rfl
      · rw [segment?_updateSegments, segment?_updateObjects]
        rfl
      · obtain ⟨_, hfind', -, hresolved'⟩ := hresolves
        cases hfind.symm.trans hobject
        cases hfind'.symm.trans hsegment
        cases hresolved.symm.trans hresolved'
        exact ⟨_, congrArg _ hsegment, StoredSegment.matches_activate hmatch',
          resolvedIngestionState_publish hmatch'.2.2.2.1 hresolved rfl⟩
    · obtain rfl : state = .published := by
        rw [resolvedIngestionState_eq_ok] at hresolved
        cases state <;> simp_all [SegmentState.isPublished]
      exact ⟨h.steps_self (by simp [hstate]), Or.inr rfl⟩
  | deadLetter registration =>
    obtain ⟨object, hobject, hcases⟩ := publishDeadLetter_eq_ok hpublish
    obtain ⟨-, ⟨-, hnone, -⟩ | ⟨object', hobject', -, hresolved⟩⟩ := outputState_eq_ok.mp hstate
    · cases hnone.symm.trans hobject
    cases hobject.symm.trans hobject'
    rcases hcases with ⟨huploaded, rfl⟩ | ⟨hpublished, rfl⟩
    · obtain rfl : state = .uploaded :=
        hresolved.symm.trans (resolvedDeadLetterState_eq.mpr huploaded)
      refine ⟨h.updateOutput houtput (by simp) (fun id => object?_updateObjects ..) (g := id)
        (by simp) (fun _ _ _ => StoredObject.matches_publish) (fun _ _ => id)
        fun object' state' hfind hresolved' => ?_, Or.inl rfl⟩
      cases hfind.symm.trans hobject
      cases hresolved.symm.trans hresolved'
      refine resolvedDeadLetterState_eq.mpr ?_
      rw [StoredObject.publish, if_pos huploaded]
      rfl
    · obtain rfl : state = .published :=
        hresolved.symm.trans (resolvedDeadLetterState_eq.mpr hpublished)
      exact ⟨h.steps_self (by simp [hstate]), Or.inr rfl⟩

end Database.Records

/-! ## Reconciliation and cleanup -/

/-- Outputs before publication that nothing refers to may be given up. -/
def StateChange.abandon (referenced : RecoveryOutput → Prop) : StateChange :=
  fun output state state' => state' = state ∨
    ¬ referenced output ∧ (state = .planned ∨ state = .uploaded) ∧ state' = .abandoned

/-- Reconciliation knows a segment by its identity and a dead letter by that of its object. -/
def RecoveryOutput.IsReferenced (segments : List SegmentId) (deadLetters : List StoredObjectId) :
    RecoveryOutput → Prop
  | .segment registration => registration.segmentId ∈ segments
  | .deadLetter registration => registration.object.key.objectId ∈ deadLetters

theorem StoredSegment.matches_abandon {row : StoredSegment} (h : row.Matches registration) :
    (row.abandon reclaimAfter).Matches registration := by
  unfold abandon
  split <;> exact h

/-- Abandoning a prepared segment gives up its output. -/
theorem StoredSegment.resolved_abandon (row : StoredSegment)
    (h : resolvedIngestionState row object = .ok state) :
    ∃ state', resolvedIngestionState (row.abandon reclaimAfter) object = .ok state' ∧
      (state' = state ∨ (state = .planned ∨ state = .uploaded) ∧ state' = .abandoned) := by
  unfold abandon
  split
  · next hprepared =>
    have hlifecycle := object.lifecycle
    refine ⟨.abandoned, ?_, Or.inr ⟨?_, rfl⟩⟩ <;>
      rw [resolvedIngestionState_eq_ok] at * <;>
      cases state <;> simp_all [StoredObjectState.Allows]
  · exact ⟨state, h, Or.inl rfl⟩

theorem StoredObject.matches_discard (h : row.Matches descriptor owner) :
    row.discard.Matches descriptor owner := by
  unfold discard
  split <;> exact h

theorem Database.not_mem_of_mem_unreferencedSegments {referenced : List SegmentId}
    (h : segmentId ∈ database.unreferencedSegments referenced limit) : segmentId ∉ referenced := by
  obtain ⟨row, hrow, rfl⟩ := mem_map.mp h
  have := mem_filter.mp (mem_of_mem_take hrow)
  simp_all

/-- The dead letters reconciliation selects are no segments, and nothing refers to them. -/
theorem Database.of_mem_unreferencedDeadLetters {referenced : List StoredObjectId}
    (hrow : database.object? row.objectId = some row)
    (h : row.objectId ∈ database.unreferencedDeadLetters referenced limit) :
    row.objectId ∉ referenced ∧ row.isUnpublishedDeadLetter = true := by
  obtain ⟨other, hother, hid⟩ := mem_map.mp h
  have hselected := mem_filter.mp (mem_of_mem_take hother)
  have : database.object? other.objectId = some other := Table.find?_of_mem hselected.1
  rw [hid, hrow] at this
  cases this
  simp_all

namespace Database.Records

/-- Planned and uploaded outputs that are not referenced are abandoned. -/
theorem reconcileUnreferencedOutputs (h : database.Records outputs) {segments : List SegmentId}
    {deadLetters : List StoredObjectId} {grace : Nat}
    {selected : List SegmentId × List StoredObjectId}
    (hreconcile : database.reconcileUnreferencedOutputs segments deadLetters now grace limit =
      .ok (selected, after)) :
    database.Steps after outputs (.abandon (·.IsReferenced segments deadLetters)) := by
  obtain ⟨_, -, hreconcile⟩ := bind_eq_ok.mp hreconcile
  cases hreconcile
  refine h.update (fun id => object?_updateObjects ..)
    (fun id => segment?_updateSegments _ _ _ (fun row => row.segmentId_abandon _) id)
    (fun _ _ _ => StoredObject.matches_discard) (fun _ _ => StoredSegment.matches_abandon)
    (fun _ => Or.inl rfl) fun output _ object state hfind hmatch hresolves => ?_
  cases output with
  | segment registration =>
    obtain ⟨segment, hsegment, hmatch', hresolved⟩ := hresolves
    have hkeep : object.discard = object := by
      rw [StoredObject.discard, if_neg]
      simp [StoredObject.isUnpublishedDeadLetter, hmatch.2.1, RecoveryOutput.databaseOwner]
    rw [hkeep, ite_self, hsegment, Option.map_some]
    split
    · next hselected =>
      obtain ⟨state', hresolved', hstate'⟩ := segment.resolved_abandon hresolved
      refine ⟨state', ⟨_, rfl, StoredSegment.matches_abandon hmatch', hresolved'⟩,
        hstate'.imp_right fun habandoned => ⟨?_, habandoned⟩⟩
      rw [hmatch'.1] at hselected
      exact not_mem_of_mem_unreferencedSegments hselected
    · exact ⟨state, ⟨_, rfl, hmatch', hresolved⟩, Or.inl rfl⟩
  | deadLetter registration =>
    cases hresolves
    refine ⟨_, rfl, ?_⟩
    split
    · next hselected =>
      obtain ⟨hunreferenced, hunpublished⟩ :=
        of_mem_unreferencedDeadLetters (hmatch.1 ▸ hfind) hselected
      have howner : object.owner = .deadLetter registration.inputId registration.batchId :=
        hmatch.2.1
      rw [hmatch.1] at hunreferenced
      refine Or.inr ⟨hunreferenced, ?_, ?_⟩
      · cases hstate : object.state <;>
          simp_all [StoredObject.isUnpublishedDeadLetter, resolvedDeadLetterState]
      · have hlifecycle := object.lifecycle
        rw [StoredObject.discard, if_pos hunpublished, resolvedDeadLetterState_eq]
        refine ⟨Or.inl rfl, ?_⟩
        cases hstate : object.state <;>
          simp_all [StoredObject.isUnpublishedDeadLetter, StoredObject.requestDeletion,
            StoredObjectState.Allows]
    · exact Or.inl rfl

end Database.Records

/-- Outputs behind publication or given up may lose their rows. -/
def StateChange.clean (ids : List StoredObjectId) : StateChange := fun output state state' =>
  state' = state ∨ output.objectId ∈ ids ∧ (state = .published ∨ state = .abandoned) ∧
    state' = .unregistered

/-- The objects behind `clean_terminal_metadata`. -/
theorem Database.object?_cleanTerminalMetadata (database : Database) (ids : List StoredObjectId)
    (id : StoredObjectId) : (database.cleanTerminalMetadata ids).object? id =
      (database.object? id).filter fun row => ¬ (row.objectId ∈ ids ∧ database.isCleanable row) := by
  rw [cleanTerminalMetadata, object?, Table.find?_delete, object?]
  cases hfind : database.objects.find? id with
  | none => rfl
  | some row =>
    have hmem := (Table.find?_eq_some.mp hfind).1
    have hselected : row.objectId ∈ (database.objects.rows.filter fun row =>
        row.objectId ∈ ids ∧ database.isCleanable row).map (·.objectId) ↔
        row.objectId ∈ ids ∧ database.isCleanable row := by
      constructor
      · intro hid
        obtain ⟨other, hother, hid⟩ := mem_map.mp hid
        obtain ⟨hother, hcondition⟩ := mem_filter.mp hother
        obtain rfl := inj_on_of_nodup_map database.objects.nodup hother hmem hid
        simpa using hcondition
      · intro hcondition
        exact mem_map_of_mem (mem_filter.mpr ⟨hmem, by simpa using hcondition⟩)
    simp only [Option.filter_some, hselected, decide_not]

/-- The segments behind `clean_terminal_metadata`. -/
theorem Database.segment?_cleanTerminalMetadata (database : Database) (ids : List StoredObjectId)
    (id : SegmentId) : (database.cleanTerminalMetadata ids).segment? id =
      (database.segment? id).filter fun row => ¬ ∃ object ∈ database.objects.rows,
        (object.objectId ∈ ids ∧ database.isCleanable object) ∧
          object.owner = .segment row.segmentId := by
  rw [cleanTerminalMetadata, segment?, Table.find?_delete, segment?]
  cases database.segments.find? id <;> simp [Option.filter_some]

namespace Database.Records

/-- The rows of objects that are done are deleted. -/
theorem cleanTerminalMetadata (h : database.Records outputs) (ids : List StoredObjectId) :
    database.Steps (database.cleanTerminalMetadata ids) outputs (.clean ids) := by
  refine h.rewrite (fun id => (object?_cleanTerminalMetadata ..).trans (Option.bind_guard ..).symm)
    (fun id => (segment?_cleanTerminalMetadata ..).trans (Option.bind_guard ..).symm) ?_ ?_
    (fun _ => Or.inl rfl) fun output houtput object state hfind hmatch hresolves => ?_
  · intro row row' descriptor owner hmatch hrow
    exact (Option.guard_eq_some_iff.mp hrow).1 ▸ hmatch
  · intro row row' registration hmatch hrow
    exact (Option.guard_eq_some_iff.mp hrow).1 ▸ hmatch
  -- the segment of the output goes with its object
  have hsegment : (database.segmentOf output).bind (Option.guard fun row =>
      decide ¬ ∃ object ∈ database.objects.rows, (object.objectId ∈ ids ∧
        database.isCleanable object) ∧ object.owner = .segment row.segmentId) =
      if object.objectId ∈ ids ∧ database.isCleanable object then none
      else database.segmentOf output := by
    cases output with
    | segment registration =>
      obtain ⟨segment, hsegment, hmatch', -⟩ := hresolves
      have howned : (∃ row ∈ database.objects.rows, (row.objectId ∈ ids ∧
          database.isCleanable row) ∧ row.owner = .segment segment.segmentId) ↔
          object.objectId ∈ ids ∧ database.isCleanable object := by
        rw [hmatch'.1]
        refine ⟨?_, fun hclean => ⟨object, (Table.find?_eq_some.mp hfind).1, hclean, hmatch.2.1⟩⟩
        rintro ⟨row, hrow, hclean, howner⟩
        cases hfind.symm.trans (h.object?_of_owner houtput hrow howner)
        exact hclean
      simp only [hsegment, Option.bind_some, Option.guard, howned]
      split_ifs <;> simp_all
    | deadLetter registration => exact (ite_self _).symm
  have hid : object.objectId = output.objectId := hmatch.1
  by_cases hclean : object.objectId ∈ ids ∧ database.isCleanable object
  · refine Or.inr ⟨by simp [Option.guard, hclean], hsegment.trans (if_pos hclean),
      Or.inr ⟨hid ▸ hclean.1, ?_, rfl⟩⟩
    have hcleanable := hclean.2
    cases output with
    | segment registration =>
      obtain ⟨segment, hsegment, -, hresolved⟩ := hresolves
      simp only [isCleanable, hmatch.2.1, RecoveryOutput.databaseOwner] at hcleanable
      change database.segment? registration.segmentId = _ at hsegment
      rw [resolvedIngestionState_eq_ok] at hresolved
      cases state <;> simp_all [SegmentState.isTerminal]
    | deadLetter registration =>
      cases hresolves
      simp only [isCleanable, hmatch.2.1, RecoveryOutput.databaseOwner, decide_eq_true_eq]
        at hcleanable
      rw [resolvedDeadLetterState_eq, resolvedDeadLetterState_eq]
      cases htime : object.publishedAt <;> simp [hcleanable]
  · refine Or.inl ⟨object, state, ?_, ?_, Or.inl rfl⟩
    · rw [Option.guard_eq_some_iff]
      exact ⟨rfl, decide_eq_true hclean⟩
    · rwa [hsegment, if_neg hclean]

end Database.Records

end Elucid
