import Elucid.Worker

/-!
# What holds of the world at any time

A recorded output is `Dead` if it is not published and can never be : it has no staged bytes,
and the metastore does not know it, has given it up, or has it planned while its object is
absent. `Sound` is what holds between any two operations. Its heart is `disjoint` : no two
records that are not dead cover the same occurrence. A record that is published is not dead,
and a dead record stays dead, so what is published is disjoint in every state that comes.

`Extends` relates the worlds before and behind the operations that neither write the log nor
move the checkpoint. The moves of the surroundings are such steps (`moves_spec`), as long as
cleanup spares the rows of published outputs that are in the log.
-/

namespace Elucid

open BigEndian Effect List

section Definitions

variable [Chrono]

/-- The state of the output of a record. -/
def World.state (w : World) (record : OutputRecoveryRecord) :
    Except PublicationError ObjectPublicationState :=
  w.database.outputState record.output

/-- The outputs of all records. -/
def World.outputs (w : World) : List RecoveryOutput := w.history.map (·.output)

/-- The identities of some batches. -/
def batchIds (frames : List (BatchMetadata × Bytes)) : List BatchId :=
  frames.map (·.1.batchId)

/-- An output that is not published, and that no restart will resume. -/
structure World.Dead (w : World) (record : OutputRecoveryRecord) : Prop where
  unpublished : record ∉ w.published
  unstaged : w.staged record.objectIdentity = none
  state : w.state record = .ok .unregistered ∨ w.state record = .ok .abandoned ∨
    w.state record = .ok .planned ∧ w.objects record.output.object.key = none

theorem World.dead_iff {w : World} {record : OutputRecoveryRecord} :
    w.Dead record ↔ record ∉ w.published ∧ w.staged record.objectIdentity = none ∧
      (w.state record = .ok .unregistered ∨ w.state record = .ok .abandoned ∨
        w.state record = .ok .planned ∧ w.objects record.output.object.key = none) :=
  ⟨fun h => ⟨h.1, h.2, h.3⟩, fun h => ⟨h.1, h.2.1, h.2.2⟩⟩

/-- A record is published, or its positions are free again. -/
def World.Settled (w : World) (record : OutputRecoveryRecord) : Prop :=
  record ∈ w.published ∨ w.Dead record

/-- A record about batches whose frames are truncated. -/
def World.CoversRetired (w : World) (record : OutputRecoveryRecord) : Prop :=
  ∀ item ∈ record.coverage, item.batchId ∈ batchIds w.retired

namespace Deployment

variable (deployment : Deployment)

/-- Metadata is not deleted. -/
def NeverCleans : Prop :=
  ∀ w ids, deployment.allows w (.cleanTerminalMetadata ids) = false

/-- Cleanup spares the rows of published outputs whose records are in the log. -/
def KeepsRetained : Prop :=
  ∀ w ids, deployment.allows w (.cleanTerminalMetadata ids) = true →
    ∀ record ∈ w.log, record ∈ w.published → record.objectIdentity ∉ ids

theorem NeverCleans.keepsRetained {deployment : Deployment} (h : deployment.NeverCleans) :
    deployment.KeepsRetained := by
  intro w ids hallows
  rw [h] at hallows
  cases hallows

end Deployment

/-- What the state of an output says about its record. -/
structure World.Consistent (deployment : Deployment) (w : World) (record : OutputRecoveryRecord) :
    Prop where
  kept : record ∈ w.published → record ∈ w.log ∨ deployment.NeverCleans →
    w.state record = .ok .published
  published_states : record ∈ w.published →
    w.state record = .ok .published ∨ w.state record = .ok .unregistered
  published_of_state : w.state record = .ok .published → record ∈ w.published
  unstaged_of_abandoned : w.state record = .ok .abandoned →
    w.staged record.objectIdentity = none

/-- What the metastore says about the records. -/
structure Stated (deployment : Deployment) (w : World) : Prop where
  records : w.database.Records w.outputs
  consistent : ∀ record ∈ w.history, w.Consistent deployment record

variable [Blake3]

/-- The batches of the spool. -/
def World.batches (w : World) : List RecoveredBatch := batchesAt 0 w.frames

/-- A record about batches of the spool, with their ranges. -/
def World.CoversCurrent (w : World) (record : OutputRecoveryRecord) : Prop :=
  ∀ item ∈ record.coverage, ∃ batch ∈ w.batches,
    batch.metadata.batchId = item.batchId ∧ batch.range = item.spoolRange

/-- The checkpoint has passed a batch. -/
def World.Passed (w : World) (metadata : BatchMetadata) (body : Bytes) : Prop :=
  (metadata, body) ∈ w.retired ∨ ∃ batch ∈ w.batches, batch.metadata = metadata ∧
    batch.body = body ∧ batch.range.stop ≤ w.checkpoint.position

/-- What holds of the frames. -/
structure Framed (deployment : Deployment) (w : World) : Prop where
  nodup : (batchIds w.spooled).Nodup
  limit : ∀ frame ∈ w.frames, frame.2.length ≤ deployment.spool.bodyLimit.get
  capacity : w.committedBytes ≤ deployment.spool.capacity.get
  boundary : ∃ front, front <+: w.frames ∧ w.checkpoint.position = framesBytes front

omit [Blake3] in
theorem framed_initial (deployment : Deployment) (catalog : List Source) :
    Framed deployment (.initial catalog) :=
  ⟨nodup_nil, by simp [World.initial], Nat.zero_le _, [], prefix_rfl, rfl⟩

/-- What holds between any two operations. -/
structure Sound (deployment : Deployment) (w : World) : Prop
    extends Stated deployment w, Framed deployment w where
  retains : deployment.KeepsRetained
  identity_inj : ∀ a ∈ w.history, ∀ b ∈ w.history, a.objectIdentity = b.objectIdentity → a = b
  drawn : ∀ record ∈ w.history, record.id.uuid ∈ w.drawn ∧ record.objectIdentity ∈ w.drawn ∧
    ∀ id ∈ record.output.segmentIds, id ∈ w.drawn
  published_mem : ∀ record ∈ w.published, record ∈ w.history
  log_mem : ∀ record ∈ w.log, record ∈ w.history
  ranges : ∀ record ∈ w.history, w.CoversCurrent record ∨ w.CoversRetired record
  unlogged : ∀ record ∈ w.history, record ∉ w.log → w.Settled record ∧ w.CoversRetired record
  disjoint : ∀ a ∈ w.history, ∀ b ∈ w.history, a ≠ b → ¬ w.Dead a → ¬ w.Dead b →
    ∀ occurrence ∈ a.occurrences, occurrence ∉ b.occurrences
  passed : ∀ metadata body, w.Passed metadata body → ∀ position ∈ recordPositions body,
    ∃ record ∈ w.published, (metadata.batchId, position) ∈ record.occurrences

end Definitions

/-! ## Steps between writes of the log -/

section Steps

variable [Chrono]

/-- A record that is lost is not registered, and one that is registered is not forgotten while
metadata is not deleted. -/
structure World.Knows (deployment : Deployment) (w w' : World) (record : OutputRecoveryRecord) :
    Prop where
  lost : w.Dead record → w.state record = .ok .unregistered → w'.state record = .ok .unregistered
  known : deployment.NeverCleans → w'.state record = .ok .unregistered →
    w.state record = .ok .unregistered

theorem World.Knows.of_state {deployment : Deployment} {w w' : World}
    {record : OutputRecoveryRecord} (h : w'.state record = w.state record) :
    w.Knows deployment w' record :=
  ⟨fun _ hstate => h.trans hstate, fun _ hstate => h.symm.trans hstate⟩

/-- The log and the checkpoint stay, and only records in `S` become published. -/
structure Extends (deployment : Deployment) (S : OutputRecoveryRecord → Prop) (w w' : World) :
    Prop where
  generation : w'.generation = w.generation
  checkpoint : w'.checkpoint = w.checkpoint
  log : w'.log = w.log
  retired : w'.retired = w.retired
  history : w'.history = w.history
  drawn : ∀ id ∈ w.drawn, id ∈ w'.drawn
  frames : w.frames <+: w'.frames
  published : ∀ record ∈ w.published, record ∈ w'.published
  published_only : ∀ record ∈ w'.published, record ∈ w.published ∨ S record
  dead : ∀ record ∈ w.history, w'.Dead record ↔ w.Dead record
  knows : ∀ record ∈ w.history, w.Knows deployment w' record

variable {deployment : Deployment}

theorem Extends.refl (S : OutputRecoveryRecord → Prop) (w : World) : Extends deployment S w w :=
  ⟨rfl, rfl, rfl, rfl, rfl, fun _ => id, prefix_rfl, fun _ => id, fun _ => Or.inl,
    fun _ _ => Iff.rfl, fun _ _ => .of_state rfl⟩

theorem Extends.trans {S : OutputRecoveryRecord → Prop} {u v w : World}
    (h : Extends deployment S u v) (h' : Extends deployment S v w) : Extends deployment S u w where
  generation := h'.generation.trans h.generation
  checkpoint := h'.checkpoint.trans h.checkpoint
  log := h'.log.trans h.log
  retired := h'.retired.trans h.retired
  history := h'.history.trans h.history
  drawn id hid := h'.drawn id (h.drawn id hid)
  frames := h.frames.trans h'.frames
  published record hrecord := h'.published record (h.published record hrecord)
  published_only record hrecord := by
    rcases h'.published_only record hrecord with hrecord | hrecord
    · exact h.published_only record hrecord
    · exact Or.inr hrecord
  dead record hrecord := (h'.dead record (h.history ▸ hrecord)).trans (h.dead record hrecord)
  knows record hrecord := by
    have hfirst := h.knows record hrecord
    have hsecond := h'.knows record (h.history ▸ hrecord)
    exact ⟨fun hdead hstate => hsecond.lost ((h.dead record hrecord).mpr hdead)
        (hfirst.lost hdead hstate),
      fun hnever hstate => hfirst.known hnever (hsecond.known hnever hstate)⟩

theorem Extends.mono {S T : OutputRecoveryRecord → Prop} {w w' : World}
    (h : Extends deployment S w w') (hST : ∀ record, S record → T record) :
    Extends deployment T w w' :=
  { h with published_only := fun record hrecord =>
      (h.published_only record hrecord).imp_right (hST record) }

variable {S : OutputRecoveryRecord → Prop} {w w' : World}

/-- The worlds say the same about a record. -/
structure World.Agrees (w w' : World) (record : OutputRecoveryRecord) : Prop where
  published : record ∈ w'.published ↔ record ∈ w.published
  staged : w'.staged record.objectIdentity = w.staged record.objectIdentity
  state : w'.state record = w.state record
  object : w'.objects record.output.object.key = w.objects record.output.object.key

theorem World.Agrees.dead {record : OutputRecoveryRecord} (h : w.Agrees w' record) :
    w'.Dead record ↔ w.Dead record := by
  simp only [World.dead_iff, h.published, h.staged, h.state, h.object]

/-- So what is consistent with one is with the other. -/
theorem World.Agrees.consistent {record : OutputRecoveryRecord} (h : w.Agrees w' record)
    (hlog : w'.log = w.log) (hconsistent : w.Consistent deployment record) :
    w'.Consistent deployment record where
  kept hpublished hlogged := by
    rw [h.state]
    exact hconsistent.kept (h.published.mp hpublished) (hlog ▸ hlogged)
  published_states hpublished := by
    rw [h.state]
    exact hconsistent.published_states (h.published.mp hpublished)
  published_of_state hstate := h.published.mpr (hconsistent.published_of_state (h.state ▸ hstate))
  unstaged_of_abandoned hstate := by
    rw [h.staged]
    exact hconsistent.unstaged_of_abandoned (h.state ▸ hstate)

variable [Blake3]

theorem World.Passed.of_extends {metadata : BatchMetadata} {body : Bytes}
    (h : Extends deployment S w w') (hframes : w'.frames = w.frames)
    (hpassed : w'.Passed metadata body) :
    w.Passed metadata body := by
  rwa [World.Passed, World.batches, h.retired, h.checkpoint, hframes] at hpassed

/-- Behind a step that leaves the spool alone, only the states of the outputs are to be looked
at. -/
theorem Sound.of_extends (h : Sound deployment w) (he : Extends deployment S w w')
    (hframes : w'.frames = w.frames) (hS : ∀ record, S record → record ∈ w.history)
    (hstated : Stated deployment w') : Sound deployment w' where
  toStated := hstated
  retains := h.retains
  identity_inj a ha b hb := h.identity_inj a (he.history ▸ ha) b (he.history ▸ hb)
  drawn record hrecord := by
    obtain ⟨hid, hobject, hsegment⟩ := h.drawn record (he.history ▸ hrecord)
    exact ⟨he.drawn _ hid, he.drawn _ hobject, fun id hid => he.drawn id (hsegment id hid)⟩
  published_mem record hrecord := by
    rw [he.history]
    rcases he.published_only record hrecord with hrecord | hrecord
    · exact h.published_mem record hrecord
    · exact hS record hrecord
  log_mem record hrecord := he.history ▸ h.log_mem record (he.log ▸ hrecord)
  nodup := by
    rw [World.spooled, he.retired, hframes]
    exact h.nodup
  limit := hframes ▸ h.limit
  capacity := by
    rw [World.committedBytes, hframes]
    exact h.capacity
  boundary := by
    rw [hframes, he.checkpoint]
    exact h.boundary
  ranges record hrecord := by
    rw [World.CoversCurrent, World.CoversRetired, World.batches, hframes, he.retired]
    exact h.ranges record (he.history ▸ hrecord)
  unlogged record hrecord hlog := by
    rw [he.history] at hrecord
    obtain ⟨hsettled, hretired⟩ := h.unlogged record hrecord (he.log ▸ hlog)
    refine ⟨hsettled.imp (he.published record) (he.dead record hrecord).mpr, ?_⟩
    rwa [World.CoversRetired, he.retired]
  disjoint a ha b hb hne hdead hdead' := by
    rw [he.history] at ha hb
    exact h.disjoint a ha b hb hne (mt (he.dead a ha).mpr hdead) (mt (he.dead b hb).mpr hdead')
  passed metadata body hpassed position hposition := by
    obtain ⟨record, hrecord, hoccurrence⟩ :=
      h.passed metadata body (hpassed.of_extends he hframes) position hposition
    exact ⟨record, he.published record hrecord, hoccurrence⟩

/-- The spool, the log and the ghosts about them stay. -/
structure SameSpool (w w' : World) : Prop where
  generation : w'.generation = w.generation
  checkpoint : w'.checkpoint = w.checkpoint
  log : w'.log = w.log
  retired : w'.retired = w.retired
  history : w'.history = w.history
  drawn : ∀ id ∈ w.drawn, id ∈ w'.drawn
  frames : w'.frames = w.frames

/-- A step to a world in which everything holds. -/
def Kept (deployment : Deployment) (S : OutputRecoveryRecord → Prop) (w w' : World) : Prop :=
  Sound deployment w' ∧ Extends deployment S w w'

instance : IsTrans World (Kept deployment S) where
  trans _ _ _ h h' := ⟨h'.1, h.2.trans h'.2⟩

theorem Sound.kept_self (h : Sound deployment w) : Kept deployment S w w := ⟨h, .refl S w⟩

theorem Kept.mono {T : OutputRecoveryRecord → Prop} (h : Kept deployment S w w')
    (hST : ∀ record, S record → T record) : Kept deployment T w w' :=
  ⟨h.1, h.2.mono hST⟩

/-- A step on the stores is judged record by record. -/
theorem Sound.kept (h : Sound deployment w) (hsame : SameSpool w w')
    (hrecords : w'.database.Records w.outputs)
    (hpublished : ∀ record ∈ w.published, record ∈ w'.published)
    (honly : ∀ record ∈ w'.published, record ∈ w.published ∨ S record)
    (hS : ∀ record, S record → record ∈ w.history)
    (hrecord : ∀ record ∈ w.history, w'.Consistent deployment record ∧
      (w'.Dead record ↔ w.Dead record) ∧ w.Knows deployment w' record) :
    Kept deployment S w w' := by
  have hextends : Extends deployment S w w' := { hsame with
    frames := hsame.frames ▸ prefix_rfl
    published := hpublished
    published_only := honly
    dead := fun record hmem => (hrecord record hmem).2.1
    knows := fun record hmem => (hrecord record hmem).2.2 }
  refine ⟨h.of_extends hextends hsame.frames hS ⟨?_, fun record hmem => ?_⟩, hextends⟩
  · rwa [World.outputs, hsame.history]
  · exact (hrecord record (hsame.history ▸ hmem)).1

/-- A step that no record notices. -/
theorem Sound.kept_unnoticed (h : Sound deployment w) (hsame : SameSpool w w')
    (hdatabase : w'.database = w.database) (hobjects : w'.objects = w.objects)
    (hpublished : w'.published = w.published)
    (hstaged : ∀ record ∈ w.history,
      w'.staged record.objectIdentity = w.staged record.objectIdentity) :
    Kept deployment (fun _ => False) w w' := by
  refine h.kept hsame (hdatabase ▸ h.records) (fun _ => hpublished ▸ id)
    (fun _ hrecord => Or.inl (hpublished ▸ hrecord)) (fun _ => False.elim) fun record hrecord => ?_
  have hagrees : w.Agrees w' record := ⟨by rw [hpublished], hstaged record hrecord,
    by rw [World.state, hdatabase, World.state], by rw [hobjects]⟩
  exact ⟨hagrees.consistent hsame.log (h.consistent record hrecord), hagrees.dead,
    .of_state hagrees.state⟩

end Steps

/-! ## Moves -/

section Moves

variable [Chrono]
variable {objectId : StoredObjectId} {metadata : BatchMetadata} {row : StoredObject} {body : Bytes}

/-- What the moves of the surroundings may do. -/
structure Moved (deployment : Deployment) (w w' : World) : Prop where
  extended : Extends deployment (fun _ => False) w w'
  staged : w'.staged = w.staged
  state : ∀ record ∈ w.history, ∀ state, w.state record = .ok state → state ≠ .published →
    state ≠ .abandoned → w'.state record = .ok state

theorem Moved.trans {deployment : Deployment} {u v w : World} (h : Moved deployment u v)
    (h' : Moved deployment v w) : Moved deployment u w where
  extended := h.extended.trans h'.extended
  staged := h'.staged.trans h.staged
  state record hrecord state hstate hpublished habandoned :=
    h'.state record (h.extended.history ▸ hrecord) state
      (h.state record hrecord state hstate hpublished habandoned) hpublished habandoned

/-- Where metadata is deleted, a record may be forgotten that is abandoned, or that is published
and not in the log. -/
def World.Forgets (deployment : Deployment) (w : World) (record : OutputRecoveryRecord)
    (state state' : ObjectPublicationState) : Prop :=
  state' = .unregistered ∧ ¬ deployment.NeverCleans ∧
    (state = .abandoned ∨ state = .published ∧ record ∉ w.log)

variable [Blake3] {deployment : Deployment} {w w' : World}

/-- A move of the metastore keeps the states, or forgets a row that is not needed. -/
theorem Sound.moved_database (h : Sound deployment w) {after : Database} {change : StateChange}
    (hsteps : w.database.Steps after w.outputs change)
    (hchange : ∀ record ∈ w.history, ∀ state state', w.state record = .ok state →
      change record.output state state' →
        state' = state ∨ w.Forgets deployment record state state') :
    Sound deployment { w with database := after } ∧
      Moved deployment w { w with database := after } := by
  have hstate : ∀ record ∈ w.history, ∃ state state', w.state record = .ok state ∧
      after.outputState record.output = .ok state' ∧
        (state' = state ∨ w.Forgets deployment record state state') := by
    intro record hrecord
    have hmem : record.output ∈ w.outputs := mem_map_of_mem hrecord
    obtain ⟨state, hstate⟩ := h.records.states _ hmem
    obtain ⟨state', hstate', hstep⟩ := hsteps.change _ hmem state hstate
    exact ⟨state, state', hstate, hstate', hchange record hrecord state state' hstate hstep⟩
  have hkept : Kept deployment (fun _ => False) w { w with database := after } := by
    refine h.kept ⟨rfl, rfl, rfl, rfl, rfl, fun _ => id, rfl⟩ hsteps.records (fun _ => id)
      (fun _ => Or.inl) (fun _ => False.elim) fun record hrecord => ?_
    have hconsistent := h.consistent record hrecord
    obtain ⟨state, state', hbefore, hafter, rfl | ⟨rfl, hcleans, hforgotten⟩⟩ :=
      hstate record hrecord
    · have hagrees : w.Agrees { w with database := after } record :=
        ⟨Iff.rfl, rfl, hafter.trans hbefore.symm, rfl⟩
      exact ⟨hagrees.consistent rfl hconsistent, hagrees.dead, .of_state hagrees.state⟩
    · have hafter : World.state { w with database := after } record = .ok .unregistered := hafter
      refine ⟨?_, ?_, fun _ _ => hafter, fun hnever => absurd hnever hcleans⟩
      · refine ⟨fun hpublished hkept => ?_, fun _ => Or.inr hafter, fun hstate => ?_,
          fun hstate => ?_⟩
        · rcases hforgotten with rfl | ⟨-, hnot⟩
          · have := hconsistent.kept hpublished hkept
            simp [hbefore] at this
          · exact absurd hkept fun hlog => hlog.elim hnot hcleans
        · simp [hafter] at hstate
        · simp [hafter] at hstate
      · -- a record that is forgotten was given up, or is published
        rcases hforgotten with rfl | ⟨rfl, -⟩
        · have hunstaged := hconsistent.unstaged_of_abandoned hbefore
          have hunpublished : record ∉ w.published := fun hpublished => by
            have := hconsistent.published_states hpublished
            simp [hbefore] at this
          exact ⟨fun _ => ⟨hunpublished, hunstaged, .inr (.inl hbefore)⟩,
            fun _ => ⟨hunpublished, hunstaged, .inl hafter⟩⟩
        · have hpublished := hconsistent.published_of_state hbefore
          exact ⟨fun hdead => absurd hpublished hdead.unpublished,
            fun hdead => absurd hpublished hdead.unpublished⟩
  refine ⟨hkept.1, hkept.2, rfl, fun record hrecord state hbefore hpublished habandoned => ?_⟩
  obtain ⟨other, state', hother, hafter, hcases⟩ := hstate record hrecord
  obtain rfl : other = state := Except.ok.inj (hother.symm.trans hbefore)
  rcases hcases with rfl | ⟨-, -, rfl | ⟨rfl, -⟩⟩
  · exact hafter
  · exact absurd rfl habandoned
  · exact absurd rfl hpublished

omit [Blake3] in
/-- The object of a planned output is not one that is being deleted. -/
theorem Stated.objectKey_ne (h : Stated deployment w) {record : OutputRecoveryRecord}
    (hstate : w.state record = .ok .planned) (hrow : w.database.object? objectId = some row)
    (hdeleting : row.state = .deletePending) : row.objectKey ≠ record.output.object.key := by
  intro hkey
  obtain ⟨output, -, hid, -, hrowKey, -⟩ := h.records.objects _ _ hrow
  obtain ⟨object, hobject, -, hplanned, -⟩ :=
    Database.exists_object_of_outputState hstate (by simp)
  obtain ⟨hmem, rfl⟩ := Table.find?_eq_some.mp hrow
  have hsame : row.objectId = record.output.objectId := by
    rw [hid, ← hrowKey, hkey, RecoveryOutput.objectId]
  rw [← hsame, hrow, Option.some_inj] at hobject
  rw [← hobject, hdeleting] at hplanned
  cases hplanned rfl

theorem Sound.moved_deleteExact (h : Sound deployment w)
    (hrow : w.database.object? objectId = some row) (hdeleting : row.state = .deletePending) :
    let w' := { w with objects := Function.update w.objects row.objectKey none }
    Sound deployment w' ∧ Moved deployment w w' := by
  intro w'
  have hkept : Kept deployment (fun _ => False) w w' := by
    refine h.kept ⟨rfl, rfl, rfl, rfl, rfl, fun _ => id, rfl⟩ h.records (fun _ => id)
      (fun _ => Or.inl) (fun _ => False.elim) fun record hrecord => ?_
    refine ⟨{ h.consistent record hrecord with }, ?_, .of_state rfl⟩
    have hobject : w.state record = .ok .planned →
        w'.objects record.output.object.key = w.objects record.output.object.key :=
      fun hstate =>
        Function.update_of_ne (h.objectKey_ne hstate hrow hdeleting).symm none w.objects
    rw [World.dead_iff, World.dead_iff]
    exact and_congr_right' <| and_congr_right' <| or_congr_right <| or_congr_right <|
      and_congr_right fun hstate => by rw [hobject hstate]
  exact ⟨hkept.1, hkept.2, rfl, fun _ _ _ hstate _ _ => hstate⟩

theorem length_framesOf (frames : List (BatchMetadata × Bytes)) :
    (framesOf frames).length = framesBytes frames := by
  induction frames with
  | nil => rfl
  | cons frame rest ih =>
    rw [length_framesOf_cons, ih]
    rfl

theorem batches_append (w : World) (frames : List (BatchMetadata × Bytes)) :
    World.batches { w with frames := w.frames ++ frames } =
      w.batches ++ batchesAt w.committedBytes frames := by
  rw [World.batches, batchesAt_append, length_framesOf, Nat.zero_add]
  rfl

omit [Blake3] in
theorem Framed.checkpoint_le (h : Framed deployment w) :
    w.checkpoint.position ≤ w.committedBytes := by
  obtain ⟨front, ⟨back, hframes⟩, hposition⟩ := h.boundary
  rw [hposition, World.committedBytes, ← hframes]
  simp [framesBytes]

omit [Blake3] in
/-- An append that fits. -/
theorem Framed.append (h : Framed deployment w)
    (hlimit : body.length ≤ deployment.spool.bodyLimit.get)
    (hcapacity : w.committedBytes + storedLength body ≤ deployment.spool.capacity.get)
    (hfresh : metadata.batchId ∉ w.spooled.map (·.1.batchId)) :
    Framed deployment { w with frames := w.frames ++ [(metadata, body)] } := by
  refine ⟨?_, fun frame hframe => ?_, ?_, ?_⟩
  · rw [batchIds, World.spooled, ← append_assoc, map_append]
    exact h.nodup.append (nodup_singleton _) (disjoint_singleton.mpr hfresh)
  · rcases mem_append.mp hframe with hframe | hframe
    · exact h.limit frame hframe
    · exact mem_singleton.mp hframe ▸ hlimit
  · simpa [World.committedBytes, framesBytes] using hcapacity
  · obtain ⟨front, hfront, hposition⟩ := h.boundary
    exact ⟨front, hfront.trans (prefix_append _ _), hposition⟩

theorem Sound.moved_append (h : Sound deployment w)
    (hlimit : body.length ≤ deployment.spool.bodyLimit.get)
    (hcapacity : w.committedBytes + storedLength body ≤ deployment.spool.capacity.get)
    (hfresh : metadata.batchId ∉ w.spooled.map (·.1.batchId)) :
    let w' := { w with frames := w.frames ++ [(metadata, body)] }
    Sound deployment w' ∧ Moved deployment w w' := by
  intro w'
  have hbatches : w'.batches = w.batches ++ [batchAt w.committedBytes metadata body] :=
    batches_append w [(metadata, body)]
  have hpassed : ∀ m b, w'.Passed m b → w.Passed m b := by
    rintro m b (hretired | ⟨batch, hbatch, hmetadata, hbody, hstop⟩)
    · exact Or.inl hretired
    · rw [hbatches, mem_append, mem_singleton] at hbatch
      rcases hbatch with hbatch | rfl
      · exact Or.inr ⟨batch, hbatch, hmetadata, hbody, hstop⟩
      · -- the checkpoint is not behind the end of the old frames
        have hle := h.checkpoint_le
        rw [stop_batchAt, storedLength_eq] at hstop
        exact absurd (hstop.trans hle) (by omega)
  have hframed := h.toFramed.append hlimit hcapacity hfresh
  refine ⟨{ h with
    nodup := hframed.nodup, limit := hframed.limit
    capacity := hframed.capacity, boundary := hframed.boundary
    records := h.records
    consistent := fun record hrecord => { h.consistent record hrecord with }
    ranges := ?_
    unlogged := fun record hrecord hlog => ?_
    disjoint := fun a ha b hb hne hdead hdead' => ?_
    passed := fun m b hm => h.passed m b (hpassed m b hm) }, ?_⟩
  · intro record hrecord
    refine (h.ranges record hrecord).imp_left fun hcovers item hitem => ?_
    obtain ⟨batch, hbatch, hrange⟩ := hcovers item hitem
    exact ⟨batch, hbatches ▸ mem_append_left _ hbatch, hrange⟩
  · exact (h.unlogged record hrecord hlog).imp_left
      (Or.imp_right fun hdead => ⟨hdead.1, hdead.2, hdead.3⟩)
  · exact h.disjoint a ha b hb hne (fun hd => hdead ⟨hd.1, hd.2, hd.3⟩)
      fun hd => hdead' ⟨hd.1, hd.2, hd.3⟩
  · exact ⟨⟨rfl, rfl, rfl, rfl, rfl, fun _ => id, prefix_append _ _, fun _ => id,
      fun _ => Or.inl, fun _ _ => ⟨fun hd => ⟨hd.1, hd.2, hd.3⟩, fun hd => ⟨hd.1, hd.2, hd.3⟩⟩,
      fun _ _ => .of_state rfl⟩, rfl, fun _ _ _ hstate _ _ => hstate⟩

theorem move_spec (h : Sound deployment w) {move : Move}
    (hallows : deployment.allows w move = true) :
    Sound deployment (deployment.move w move) ∧ Moved deployment w (deployment.move w move) := by
  have hself : Sound deployment w ∧ Moved deployment w w :=
    ⟨h, .refl _ w, rfl, fun _ _ _ hstate _ _ => hstate⟩
  have hnone : ∀ record ∈ w.history, ∀ state state', w.state record = .ok state →
      StateChange.none record.output state state' →
        state' = state ∨ w.Forgets deployment record state state' :=
    fun _ _ _ _ _ hsame => Or.inl hsame
  cases move with
  | append metadata body =>
    rw [Deployment.move]
    split
    · next happend => exact h.moved_append happend.1 happend.2.1 happend.2.2
    · exact hself
  | expireSegments ids now grace =>
    exact h.moved_database (h.records.expireSegments ids now grace) hnone
  | supersedeSegments ids now grace =>
    exact h.moved_database (h.records.supersedeSegments ids now grace) hnone
  | claim ids now => exact h.moved_database (h.records.claim ids now) hnone
  | deleteExact objectId =>
    rw [Deployment.move]
    split
    · next row hrow =>
      split
      · next hdeleting => exact h.moved_deleteExact hrow hdeleting
      · exact hself
    · exact hself
  | recordDeleted objectId => exact h.moved_database (h.records.recordDeleted objectId) hnone
  | cleanTerminalMetadata ids =>
    refine h.moved_database (h.records.cleanTerminalMetadata ids) ?_
    have hcleans : ¬ deployment.NeverCleans := fun hnever => by
      rw [hnever] at hallows
      cases hallows
    rintro record hrecord state state' hstate (rfl | ⟨hid, rfl | rfl, rfl⟩)
    · exact Or.inl rfl
    · -- the deployment says which published outputs may be forgotten
      have hpublished := (h.consistent record hrecord).published_of_state hstate
      exact Or.inr ⟨rfl, hcleans, Or.inr ⟨rfl, fun hlog =>
        h.retains w ids hallows record hlog hpublished hid⟩⟩
    · exact Or.inr ⟨rfl, hcleans, Or.inl rfl⟩
  | replaceCatalog sources =>
    have hkept : Kept deployment (fun _ => False) w { w with catalog := sources } :=
      h.kept_unnoticed ⟨rfl, rfl, rfl, rfl, rfl, fun _ => id, rfl⟩ rfl rfl rfl fun _ _ => rfl
    exact ⟨hkept.1, hkept.2, rfl, fun _ _ _ hstate _ _ => hstate⟩

/-- The moves between two operations. -/
theorem moves_spec (h : Sound deployment w) (moves : List Move) :
    Sound deployment (deployment.moves w moves) ∧ Moved deployment w (deployment.moves w moves) := by
  induction moves generalizing w with
  | nil => exact ⟨h, .refl _ w, rfl, fun _ _ _ hstate _ _ => hstate⟩
  | cons move rest ih =>
    rw [Deployment.moves, foldl_cons]
    split
    · next hallows =>
      obtain ⟨hsound, hmoved⟩ := move_spec h hallows
      obtain ⟨hrest, hmoved'⟩ := ih hsound
      exact ⟨hrest, hmoved.trans hmoved'⟩
    · exact ih h

end Moves

end Elucid
