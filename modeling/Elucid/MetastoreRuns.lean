import Elucid.EventTimeRange
import Elucid.OutputLifecycle
import Elucid.Transition

/-!
# Runs of the metastore

PostgreSQL commits the transactions of the worker, of reconciliation and of the maintenance
jobs in some order, with any selections and at any times. A run has the transactions that are
committed, as one that fails leaves the tables alone. Of a compaction it has what happens to
the inputs.

`rows_consistent` : after every such run the two tables agree about each segment.
`outputState_advances` : without `clean_terminal_metadata` the state of an output only moves
along `ObjectPublicationState.Next`, so what is published stays so and what is given up is
never published.
-/

namespace Elucid

open List

variable {database after : Database} {outputs : List RecoveryOutput} {output : RecoveryOutput}
  {state state' : ObjectPublicationState} {change : StateChange} {cleans : Prop}

/-! ## Transactions -/

/-- The transactions on the two tables, with those of a worker that has some outputs. -/
inductive Transaction (outputs : List RecoveryOutput)
  | registerOutput (output : RecoveryOutput) (hmem : output ∈ outputs)
  | recordVerifiedUpload (output : RecoveryOutput) (hmem : output ∈ outputs)
  | publishOutput (output : RecoveryOutput) (hmem : output ∈ outputs)
      (now eventRetention deadLetterRetention : Nat)
  | reconcileUnreferencedOutputs (segments : List SegmentId)
      (deadLetters : List StoredObjectId) (now grace limit : Nat)
  | expireSegments (ids : List SegmentId) (now grace : Nat)
  | supersedeSegments (ids : List SegmentId) (now grace : Nat)
  | claim (ids : List StoredObjectId) (now : Nat)
  | recordDeleted (objectId : StoredObjectId)
  | cleanTerminalMetadata (ids : List StoredObjectId)

/-- The tables a transaction leaves, if it does not fail. -/
def committed {α : Type} (result : Except PublicationError (α × Database)) : Option Database :=
  result.toOption.map Prod.snd

/-- One transaction. -/
def Database.commit (database : Database) : Transaction outputs → Option Database
  | .registerOutput output _ => committed (database.registerOutput output)
  | .recordVerifiedUpload output _ => committed (database.recordVerifiedUpload output.object)
  | .publishOutput output _ now eventRetention deadLetterRetention =>
    committed (database.publishOutput now eventRetention deadLetterRetention output)
  | .reconcileUnreferencedOutputs segments deadLetters now grace limit =>
    committed (database.reconcileUnreferencedOutputs segments deadLetters now grace limit)
  | .expireSegments ids now grace => some (database.expireSegments ids now grace)
  | .supersedeSegments ids now grace => some (database.supersedeSegments ids now grace)
  | .claim ids now => some (database.claim ids now)
  | .recordDeleted objectId => some (database.recordDeleted objectId)
  | .cleanTerminalMetadata ids => some (database.cleanTerminalMetadata ids)

/-- The tables behind some transactions. -/
abbrev Database.run (database : Database) (transactions : List (Transaction outputs)) :
    Option Database :=
  Transition.run Database.commit database transactions

/-- The transaction deletes rows. -/
def Transaction.Cleans (transaction : Transaction outputs) : Prop :=
  ∃ ids, transaction = .cleanTerminalMetadata ids

/-- The edges of the life of an output. -/
inductive ObjectPublicationState.Next : ObjectPublicationState → ObjectPublicationState → Prop
  | register : Next .unregistered .planned
  | upload : Next .planned .uploaded
  | publish : Next .uploaded .published
  | abandonPlanned : Next .planned .abandoned
  | abandonUploaded : Next .uploaded .abandoned

/-- A path of such edges. -/
def ObjectPublicationState.Leads : ObjectPublicationState → ObjectPublicationState → Prop :=
  Relation.ReflTransGen Next

/-- Published and abandoned are final. -/
theorem ObjectPublicationState.Leads.final (h : state.Leads state')
    (hfinal : state = .published ∨ state = .abandoned) : state' = state := by
  induction h with
  | refl => rfl
  | tail _ hnext ih => subst ih; obtain rfl | rfl := hfinal <;> cases hnext

/-! ## Runs -/

theorem StateChange.leads_of_only {other : RecoveryOutput} {first second : ObjectPublicationState}
    (hnext : first.Next second) (h : only output first second other state state') :
    state.Leads state' := by
  unfold only at h
  split at h
  · next heq => exact h ▸ heq.2 ▸ .single hnext
  · exact h ▸ .refl

/-- Abandoning leads a state on. -/
theorem StateChange.leads_of_abandon {referenced : RecoveryOutput → Prop}
    (h : abandon referenced output state state') : state.Leads state' := by
  obtain rfl | ⟨-, rfl | rfl, rfl⟩ := h
  · exact .refl
  · exact .single .abandonPlanned
  · exact .single .abandonUploaded

/-- States advance, unless rows may be deleted. -/
def StateChange.advance (cleans : Prop) : StateChange :=
  fun _ state state' => cleans ∨ state.Leads state'

theorem Database.Steps.advance (h : database.Steps after outputs change)
    (himp : ∀ {output state state'}, change output state state' → state.Leads state') :
    database.Steps after outputs (.advance cleans) :=
  ⟨h.records, fun output houtput state hstate => (h.change output houtput state hstate).imp
    fun _ hstate' => hstate'.imp_right fun hchange => Or.inr (himp hchange)⟩

theorem eq_ok_of_committed {α : Type} {result : Except PublicationError (α × Database)}
    (h : committed result = some after) : ∃ value, result = .ok (value, after) := by
  cases result with
  | error error => cases h
  | ok result => exact ⟨result.1, by cases h; rfl⟩

/-- One transaction keeps the rows of the outputs, and moves their states along. -/
theorem Database.Records.commit (h : database.Records outputs)
    {transaction : Transaction outputs} (hcommit : database.commit transaction = some after) :
    database.Steps after outputs (.advance transaction.Cleans) := by
  have hnone : ∀ {next}, database.Steps next outputs .none → some next = some after →
      database.Steps after outputs (.advance transaction.Cleans) := by
    rintro next hsteps ⟨⟩
    exact hsteps.advance fun hstate => hstate ▸ .refl
  cases transaction with
  | registerOutput output hmem =>
    obtain ⟨_, hok⟩ := eq_ok_of_committed hcommit
    exact (h.registerOutput hmem hok).advance (StateChange.leads_of_only .register)
  | recordVerifiedUpload output hmem =>
    obtain ⟨_, hok⟩ := eq_ok_of_committed hcommit
    exact (h.recordVerifiedUpload hmem hok).advance (StateChange.leads_of_only .upload)
  | publishOutput output hmem now eventRetention deadLetterRetention =>
    obtain ⟨_, hok⟩ := eq_ok_of_committed hcommit
    exact (h.publishOutput hmem hok).1.advance (StateChange.leads_of_only .publish)
  | reconcileUnreferencedOutputs segments deadLetters now grace limit =>
    obtain ⟨_, hok⟩ := eq_ok_of_committed hcommit
    exact (h.reconcileUnreferencedOutputs hok).advance StateChange.leads_of_abandon
  | expireSegments ids now grace => exact hnone (h.expireSegments ids now grace) hcommit
  | supersedeSegments ids now grace => exact hnone (h.supersedeSegments ids now grace) hcommit
  | claim ids now => exact hnone (h.claim ids now) hcommit
  | recordDeleted objectId => exact hnone (h.recordDeleted objectId) hcommit
  | cleanTerminalMetadata ids =>
    cases hcommit
    obtain ⟨hrecords, hchange⟩ := h.cleanTerminalMetadata ids
    exact ⟨hrecords, fun output houtput state hstate => (hchange output houtput state hstate).imp
      fun _ hstate' => ⟨hstate'.1, Or.inl ⟨ids, rfl⟩⟩⟩

/-- Outputs with identities of their own, that fit the columns. -/
structure Distinct (outputs : List RecoveryOutput) : Prop where
  objects : (outputs.map (·.objectId)).Nodup
  segments : (outputs.flatMap (·.segmentIds)).Nodup
  fits : ∀ output ∈ outputs, output.Fits

theorem Distinct.records (h : Distinct outputs) : Database.empty.Records outputs := by
  induction outputs using List.reverseRecOn with
  | nil => constructor <;> simp [Database.object?, Database.segment?, Database.empty]
  | append_singleton outputs output ih =>
    obtain ⟨hobjects, hsegments, hfits⟩ := h
    simp only [map_append, flatMap_append, nodup_append, map_cons,
      map_nil, flatMap_singleton, mem_map, mem_singleton, mem_flatMap,
      mem_append] at hobjects hsegments hfits
    have h : Distinct outputs :=
      ⟨hobjects.1, hsegments.1, fun other hother => hfits other (Or.inl hother)⟩
    refine ((ih h).concat (hfits output (Or.inr rfl)) (fun other hother => ?_)
      fun other hother id hid hid' => ?_).1
    · exact hobjects.2.2 _ ⟨other, hother, rfl⟩ _ rfl
    · exact hsegments.2.2 id ⟨other, hother, hid⟩ id hid' rfl

/-- A run does what its transactions do. -/
theorem Database.Records.run (h : database.Records outputs)
    {transactions : List (Transaction outputs)}
    (hcleans : ∀ transaction ∈ transactions, transaction.Cleans → cleans)
    (hrun : database.run transactions = some after) :
    database.Steps after outputs (.advance cleans) := by
  refine Transition.invariant_of_follows (database.Steps · outputs (.advance cleans))
    (fun hsteps hcondition hcommit => ?_)
    ⟨h, fun _ _ state hstate => ⟨state, hstate, Or.inr .refl⟩⟩ hrun
    (Transition.follows_of_forall fun _ => hcleans)
  have hstep := hsteps.records.commit hcommit
  refine ⟨hstep.records, fun output houtput state hstate => ?_⟩
  obtain ⟨middle, hmiddle, hfirst⟩ := hsteps.change output houtput state hstate
  obtain ⟨next, hnext, hsecond⟩ := hstep.change output houtput middle hmiddle
  exact ⟨next, hnext, hfirst.elim Or.inl fun hfirst => hsecond.imp hcondition hfirst.trans⟩

/-- What the tables say about an object of a segment. -/
theorem Database.Records.segment_of_object (h : database.Records outputs) {object : StoredObject}
    {segmentId : SegmentId} (hobject : object ∈ database.objects.rows)
    (howner : object.owner = .segment segmentId) :
    ∃ segment state, database.segment? segmentId = some segment ∧
      resolvedIngestionState segment object = .ok state := by
  obtain ⟨output, houtput, hmatch⟩ := h.objects _ _ (Table.find?_of_mem hobject)
  cases output with
  | deadLetter registration => cases hmatch.2.1.symm.trans howner
  | segment registration =>
    obtain rfl : registration.segmentId = segmentId :=
      ObjectDatabaseOwner.segment.inj (hmatch.2.1.symm.trans howner)
    have hfind := h.object?_of_owner houtput hobject howner
    obtain ⟨state, hstate⟩ := h.states _ houtput
    obtain ⟨-, ⟨-, hnone, -⟩ | ⟨other, hother, -, segment, hsegment, -, hresolved⟩⟩ :=
      outputState_eq_ok.mp hstate
    · cases hnone.symm.trans hfind
    · cases hother.symm.trans hfind
      exact ⟨segment, state, hsegment, hresolved⟩

/-- A segment has one object. -/
theorem Database.Records.existsUnique_object (h : database.Records outputs)
    {segment : StoredSegment} (hsegment : segment ∈ database.segments.rows) :
    ∃! object, object ∈ database.objects.rows ∧ object.owner = .segment segment.segmentId := by
  have hfind : database.segment? segment.segmentId = some segment := Table.find?_of_mem hsegment
  obtain ⟨registration, hmem, hmatch⟩ := h.segments _ _ hfind
  rw [hmatch.1] at hfind ⊢
  obtain ⟨state, hstate⟩ := h.states _ hmem
  obtain ⟨-, ⟨hnone, -, -⟩ | ⟨object, hobject, hmatch', -⟩⟩ := outputState_eq_ok.mp hstate
  · cases hnone.symm.trans hfind
  · refine ⟨object, ⟨(Table.find?_eq_some.mp hobject).1, hmatch'.2.1⟩, ?_⟩
    rintro other ⟨hother, howner⟩
    exact Option.some.inj ((h.object?_of_owner hmem hother howner).symm.trans hobject)

/-- After every run a segment has exactly one object, a segment in service has a published
one, and only objects of segments out of service are deleted. -/
theorem rows_consistent (hdistinct : Distinct outputs) {transactions : List (Transaction outputs)}
    (hrun : Database.empty.run transactions = some database) :
    (∀ segment ∈ database.segments.rows, ∃! object, object ∈ database.objects.rows ∧
      object.owner = .segment segment.segmentId) ∧
    ∀ object ∈ database.objects.rows, ∀ segmentId, object.owner = .segment segmentId →
      ∃ segment, database.segment? segmentId = some segment ∧
        (segment.state = .active → object.state = .published) ∧
        (segment.state.isPublished → PublicationTimesMatch segment object) ∧
        (object.state = .deletePending ∨ object.state = .deleted → segment.state.isTerminal) := by
  have h := (hdistinct.records.run (fun _ _ _ => trivial) hrun).records
  refine ⟨fun segment => h.existsUnique_object, fun object hobject segmentId howner => ?_⟩
  obtain ⟨segment, state, hsegment, hresolved⟩ := h.segment_of_object hobject howner
  refine ⟨segment, hsegment, ?_⟩
  rw [resolvedIngestionState_eq_ok] at hresolved
  have hpublished := segment.published_iff
  cases state <;> cases hstate : segment.state <;>
    simp_all [SegmentState.isTerminal, SegmentState.isPublished]

/-- Without `clean_terminal_metadata` a state only advances. -/
theorem outputState_advances (hdistinct : Distinct outputs)
    {earlier later : List (Transaction outputs)}
    (hlater : ∀ transaction ∈ later, ¬ transaction.Cleans)
    (hrun : Database.empty.run earlier = some database) (hrun' : database.run later = some after) :
    ∀ output ∈ outputs, ∃ state state', database.outputState output = .ok state ∧
      after.outputState output = .ok state' ∧ state.Leads state' ∧
      (state = .published ∨ state = .abandoned → state' = state) := by
  intro output houtput
  have h := (hdistinct.records.run (fun _ _ _ => trivial) hrun).records
  obtain ⟨state, hstate⟩ := h.states output houtput
  obtain ⟨state', hstate', hadvance⟩ := (h.run hlater hrun').change output houtput state hstate
  have hleads := hadvance.resolve_left not_false
  exact ⟨state, state', hstate, hstate', hleads, hleads.final⟩

/-! ## A run with one segment -/

/-- A segment of the epoch. -/
def RecoveryOutput.epoch : RecoveryOutput := .segment (.sample .epoch)

def publication : List (Transaction [.epoch]) :=
  [.registerOutput .epoch (.head _), .recordVerifiedUpload .epoch (.head _),
    .publishOutput .epoch (.head _) 5 10 10]

def retirement : List (Transaction [.epoch]) :=
  [.expireSegments RecoveryOutput.epoch.segmentIds 15 1, .claim [RecoveryOutput.epoch.objectId] 16,
    .recordDeleted RecoveryOutput.epoch.objectId]

theorem distinct_epoch : Distinct [.epoch] :=
  ⟨by decide, by decide, by simp; rfl⟩

/-- A segment is published, and then expires. -/
theorem exists_run_epoch : ∃ database after,
    Database.empty.run publication = some database ∧ database.run retirement = some after := by
  obtain ⟨after, hrun⟩ := Option.isSome_iff_exists.mp (by decide +kernel :
    ((Database.empty.run publication).bind (·.run retirement)).isSome)
  exact (Option.bind_eq_some_iff.mp hrun).imp fun _ hruns => ⟨after, hruns⟩

/-- The run of that segment has one row of each kind. -/
theorem rows_consistent_epoch : ∃ database,
    Database.empty.run publication = some database ∧
      ∀ segment ∈ database.segments.rows, ∃! object, object ∈ database.objects.rows ∧
        object.owner = .segment segment.segmentId := by
  obtain ⟨database, after, hrun, -⟩ := exists_run_epoch
  exact ⟨database, hrun, (rows_consistent distinct_epoch hrun).1⟩

/-- Its state leads on. -/
theorem outputState_advances_epoch : ∃ database after state state',
    Database.empty.run publication = some database ∧ database.run retirement = some after ∧
      database.outputState .epoch = .ok state ∧ after.outputState .epoch = .ok state' ∧
      state.Leads state' := by
  obtain ⟨database, after, hrun, hrun'⟩ := exists_run_epoch
  obtain ⟨state, state', hstate, hstate', hleads, -⟩ := outputState_advances distinct_epoch
    (by simp [retirement, Transaction.Cleans]) hrun hrun' .epoch (.head _)
  exact ⟨database, after, state, state', hrun, hrun', hstate, hstate', hleads⟩

end Elucid
