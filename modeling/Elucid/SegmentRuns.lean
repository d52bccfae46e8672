import Elucid.SegmentMoves

/-!
# Runs of the segment builders

A run makes any calls, at any instants, and goes on after a call that failed.

`Keeps` is what one call does to the rows, the totals and the sizes (`keeps_call`). A run owns
or has given away exactly the rows of the batches it accepted (`rows_conserved`).
-/

namespace Elucid

open BigEndian List

/-! ## Calls -/

section Calls

variable [Chrono]

/-- The operations on the builders. -/
inductive BuilderOperation
  | pushBatch (batch : NormalizedBatch) (observedAt : Nat)
  | sealExpired (observedAt : Nat)
  | flushAll
  | takeNextSealed

/-- What an operation returns. -/
inductive BuilderReply
  | pushed (outcome : SegmentBuildOutcome)
  | sealed
  | taken (segment : Option SealedSegment)

/-- A call that was made. -/
structure BuilderCall where
  before : SegmentBuilders
  operation : BuilderOperation
  reply : Except SegmentBuildError BuilderReply
  after : SegmentBuilders

namespace SegmentBuilders

/-- `SegmentBuilders::with_limits`. -/
def withLimits (limits : SegmentBuildLimits) : SegmentBuilders :=
  ⟨limits, [], [], 0, 0, 0, none⟩

variable (builders : SegmentBuilders)

/-- The builders that a failed `push_batch` or `seal_expired` leaves. The time is observed
first, then the expired builders are sealed. What `push_batch` writes after that does not fail
(`Passes.exists_pushRecords`). -/
def afterFailure (observedAt : Nat) : SegmentBuilders :=
  match builders.observeTime observedAt with
  | .error _ => builders
  | .ok observed =>
    match observed.sealExpiredAt observedAt with
    | .error _ => observed
    | .ok aged => aged

variable [SerdeJson] [Layout]

/-- One call : its result and the builders behind it. -/
def call : BuilderOperation → Except SegmentBuildError BuilderReply × SegmentBuilders
  | .pushBatch batch observedAt =>
    match builders.pushBatch batch observedAt with
    | .ok (outcome, after) => (.ok (.pushed outcome), after)
    | .error error => (.error error, builders.afterFailure observedAt)
  | .sealExpired observedAt =>
    match builders.sealExpired observedAt with
    | .ok after => (.ok .sealed, after)
    | .error error => (.error error, builders.afterFailure observedAt)
  | .flushAll =>
    match builders.flushAll with
    | .ok after => (.ok .sealed, after)
    | .error error => (.error error, builders)
  | .takeNextSealed =>
    match builders.takeNextSealed with
    | .ok (segment, after) => (.ok (.taken segment), after)
    | .error error => (.error error, builders)

/-- The calls of a run. -/
def calls : SegmentBuilders → List BuilderOperation → List BuilderCall
  | _, [] => []
  | builders, operation :: rest =>
    ⟨builders, operation, (builders.call operation).1, (builders.call operation).2⟩ ::
      calls (builders.call operation).2 rest

/-- The builders behind a run. -/
def after : SegmentBuilders → List BuilderOperation → SegmentBuilders
  | builders, [] => builders
  | builders, operation :: rest => after (builders.call operation).2 rest

end SegmentBuilders

end Calls

/-- What goes in and comes out of two steps in a row. -/
theorem perm_chain {α : Type} {before between after inserted inserted' taken taken' : List α}
    (h : between ++ taken ~ inserted ++ before) (h' : after ++ taken' ~ inserted' ++ between) :
    after ++ (taken ++ taken') ~ (inserted ++ inserted') ++ before := by
  calc after ++ (taken ++ taken')
      _ ~ after ++ (taken' ++ taken) := perm_append_comm.append_left _
      _ ~ (inserted' ++ between) ++ taken := by
        rw [← append_assoc]
        exact h'.append_right _
      _ ~ inserted' ++ (inserted ++ before) := by
        rw [append_assoc]
        exact h.append_left _
      _ ~ (inserted ++ inserted') ++ before := by
        rw [← append_assoc]
        exact perm_append_comm.append_right _

section Runs

variable [Chrono]
variable {builders after : SegmentBuilders} {observedAt : Nat} {last : Option Nat}

namespace SegmentBuilders

/-- A call that fails may have observed its instant and sealed builders. -/
theorem moves_afterFailure (h : builders.WellFormed) (observedAt : Nat) :
    ∃ last, { builders with lastObservedAt := last }.Moves []
      (builders.afterFailure observedAt) := by
  rw [afterFailure]
  split
  · exact ⟨builders.lastObservedAt, .refl h⟩
  · next observed hobserved =>
    obtain ⟨-, rfl⟩ := observeTime_eq_ok hobserved
    refine ⟨some observedAt, ?_⟩
    split
    · exact .refl (h.observed observedAt)
    · next aged haged => exact moves_sealKeys (h.observed observedAt) haged

/-- The totals are within the limits. -/
structure Within (builders : SegmentBuilders) : Prop where
  resident : builders.estimatedResidentBytes ≤ builders.limits.maximumEstimatedResidentBytes
  staging : builders.estimatedStagingBytes ≤ builders.limits.maximumStagingBytes

/-- Moves keep the totals. -/
theorem Moves.within (h : builders.WellFormed)
    (hmoves : { builders with lastObservedAt := last }.Moves [] after)
    (hwithin : builders.Within) : after.Within := by
  have h : { builders with lastObservedAt := last }.WellFormed := { h with }
  obtain ⟨hresident, hstaging⟩ := hmoves.totals h
  refine ⟨?_, ?_⟩
  · rw [hresident, hmoves.limits]
    exact hwithin.resident
  · rw [hstaging, hmoves.limits]
    exact hwithin.staging

theorem observeTime_ne_stateInconsistent (builders : SegmentBuilders) (observedAt : Nat) :
    builders.observeTime observedAt ≠ .error .stateInconsistent := by
  rw [observeTime]
  split
  · split <;> simp
  · simp

theorem sealExpired_ne_stateInconsistent (h : builders.WellFormed) (observedAt : Nat) :
    builders.sealExpired observedAt ≠ .error .stateInconsistent := by
  intro hseal
  cases hobserved : builders.observeTime observedAt with
  | error error =>
    rw [sealExpired, hobserved, error_bind] at hseal
    obtain rfl := Except.error.inj hseal
    exact builders.observeTime_ne_stateInconsistent observedAt hobserved
  | ok observed =>
    obtain ⟨-, rfl⟩ := observeTime_eq_ok hobserved
    obtain ⟨_, haged, -⟩ := sealExpiredAt_of_wellFormed (h.observed observedAt) observedAt
    rw [sealExpired, hobserved, ok_bind, haged] at hseal
    cases hseal

theorem wellFormed_withLimits (limits : SegmentBuildLimits) : (withLimits limits).WellFormed where
  nodup := nodup_nil
  opened := by simp [withLimits]
  sealed := by simp [withLimits]
  resident := rfl
  staging := rfl

theorem sized_withLimits (limits : SegmentBuildLimits) : (withLimits limits).Sized where
  length_le := Nat.zero_le _
  opened := by simp [withLimits]
  sealed := by simp [withLimits]

theorem within_withLimits (limits : SegmentBuildLimits) : (withLimits limits).Within :=
  ⟨Nat.zero_le _, Nat.zero_le _⟩

end SegmentBuilders

variable [SerdeJson] [Layout]

/-! ## Runs -/

/-- The rows a call has taken in. -/
def BuilderCall.insertedRows (call : BuilderCall) : List (SegmentKey × SegmentRow) :=
  match call.operation, call.reply with
  | .pushBatch batch _, .ok (.pushed (.accepted _)) => SegmentBuilders.batchRows batch
  | _, _ => []

/-- The rows a call has given away. -/
def BuilderCall.takenRows (call : BuilderCall) : List (SegmentKey × SegmentRow) :=
  match call.reply with
  | .ok (.taken (some segment)) => segment.keyedRows
  | _ => []

/-- What a reply says about the batch of a call. -/
inductive BuilderCall.Answers (call : BuilderCall) : Prop
  | other (h : ∀ outcome, call.reply ≠ .ok (.pushed outcome))
  | accepted (batch : NormalizedBatch) (observedAt : Nat)
    (hcall : call.operation = .pushBatch batch observedAt)
    (hreply : call.reply = .ok (.pushed
      (.accepted ⟨batch.metadata, batch.deadLetters, batch.ignoredRecords⟩)))
  | deferred (batch : NormalizedBatch) (observedAt : Nat) (capacity : SegmentCapacity)
    (hcall : call.operation = .pushBatch batch observedAt)
    (hreply : call.reply = .ok (.pushed (.deferred batch capacity)))
    (hrows : call.after.keyedRows ~ call.before.keyedRows)

/-- What a call does. -/
structure BuilderCall.Keeps (call : BuilderCall) : Prop where
  wellFormed : call.after.WellFormed
  limits : call.after.limits = call.before.limits
  rows : call.after.keyedRows ++ call.takenRows ~ call.insertedRows ++ call.before.keyedRows
  accessSequence :
    call.after.accessSequence = call.before.accessSequence + call.insertedRows.length
  sized : call.before.Sized → call.after.Sized
  within : call.before.Within → call.after.Within
  consistent : call.reply ≠ .error .stateInconsistent
  answers : call.Answers

/-- A call that only moves rows, at whatever instant it was made. -/
theorem BuilderCall.keeps_of_moves {call : BuilderCall} (h : call.before.WellFormed)
    (hmoves : { call.before with lastObservedAt := last }.Moves [] call.after)
    (hinserted : call.insertedRows = []) (htaken : call.takenRows = [])
    (hconsistent : call.reply ≠ .error .stateInconsistent) (hanswers : call.Answers) :
    call.Keeps where
  wellFormed := hmoves.wellFormed
  limits := hmoves.limits
  rows := by
    rw [hinserted, htaken, append_nil]
    exact hmoves.keyed
  accessSequence := by
    rw [hinserted]
    exact hmoves.accessSequence
  sized := fun hsized => hmoves.sized { hsized with }
  within := hmoves.within h
  consistent := hconsistent
  answers := hanswers

namespace SegmentBuilders

theorem pushBatch_ne_stateInconsistent (h : builders.WellFormed) (batch : NormalizedBatch)
    (observedAt : Nat) :
    builders.pushBatch batch observedAt ≠ .error .stateInconsistent := by
  intro hpush
  cases hobserved : builders.observeTime observedAt with
  | error error =>
    rw [pushBatch, hobserved, error_bind] at hpush
    obtain rfl := Except.error.inj hpush
    exact builders.observeTime_ne_stateInconsistent observedAt hobserved
  | ok observed =>
    obtain ⟨_, -, -, hpushes⟩ := pushes_pushBatch h batch (observeTime_eq_ok hobserved).1
    rw [hpush] at hpushes
    cases hpushes

/-- The batch is given back, or its rows are inserted and the totals stay within the limits. -/
theorem keeps_pushed (h : builders.WellFormed) {batch : NormalizedBatch}
    {outcome : SegmentBuildOutcome}
    (hpush : builders.pushBatch batch observedAt = .ok (outcome, after)) :
    BuilderCall.Keeps ⟨builders, .pushBatch batch observedAt, .ok (.pushed outcome), after⟩ := by
  obtain ⟨aged, -, hmoves, hpushes⟩ := pushBatch_eq_ok h hpush
  cases hpushes with
  | deferred _ _ capacity hseal =>
    have hmoves := hmoves.trans (moves_sealKeys hmoves.wellFormed hseal)
    exact BuilderCall.keeps_of_moves h hmoves rfl rfl (by simp)
      (.deferred batch observedAt capacity rfl rfl hmoves.keyed)
  | accepted hpasses hrecords =>
    have hinserts : aged.Moves (batchRows batch) after :=
      (moves_pushRecords hmoves.wellFormed hrecords).1
    obtain ⟨hresident, hstaging⟩ := hinserts.totals hmoves.wellFormed
    have hall := hmoves.trans hinserts
    refine ⟨hall.wellFormed, hall.limits, ?_, hall.accessSequence,
      fun hsized => hall.sized { hsized with }, fun _ => ?_, by simp,
      .accepted batch observedAt rfl rfl⟩
    · exact (append_nil _).symm ▸ hall.keyed
    · refine ⟨?_, ?_⟩ <;> dsimp only
      · rw [hresident, hinserts.limits, map_snd_batchRows, residentBytes_segmentRows]
        exact hpasses.resident_le
      · rw [hstaging, hinserts.limits, map_snd_batchRows, uncompressedBytes_segmentRows]
        exact hpasses.staging_le

/-- Taking a segment gives its rows away. -/
theorem keeps_taken (h : builders.WellFormed) {segment : Option SealedSegment}
    (htakes : builders.Takes segment after) :
    BuilderCall.Keeps ⟨builders, .takeNextSealed, .ok (.taken segment), after⟩ := by
  have hanswers :
      BuilderCall.Answers ⟨builders, .takeNextSealed, .ok (.taken segment), after⟩ :=
    .other (by simp)
  cases htakes with
  | drained => exact BuilderCall.keeps_of_moves h (.refl h) rfl rfl (by simp) hanswers
  | taken hsealed hwellFormed hkeyed =>
    refine ⟨hwellFormed, rfl, perm_append_comm.trans hkeyed.symm, rfl, fun hsized => ?_,
      fun hwithin => ?_, by simp, hanswers⟩
    · exact ⟨hsized.length_le, hsized.opened, fun segment hsegment =>
        hsized.sealed segment (hsealed ▸ mem_cons_of_mem _ hsegment)⟩
    · exact ⟨(Nat.sub_le _ _).trans hwithin.resident, (Nat.sub_le _ _).trans hwithin.staging⟩

/-- What every call does, whatever it returns. -/
theorem keeps_call (h : builders.WellFormed) (operation : BuilderOperation) :
    BuilderCall.Keeps
      ⟨builders, operation, (builders.call operation).1, (builders.call operation).2⟩ := by
  cases operation with
  | pushBatch batch observedAt =>
    rw [call]
    split
    · next hpush => exact keeps_pushed h hpush
    · next error hpush =>
      obtain ⟨last, hmoves⟩ := moves_afterFailure h observedAt
      refine BuilderCall.keeps_of_moves h hmoves rfl rfl ?_ (.other (by simp))
      exact fun heq => pushBatch_ne_stateInconsistent h batch observedAt (hpush.trans (by simp_all))
  | sealExpired observedAt =>
    rw [call]
    split
    · next after hseal =>
      obtain ⟨observed, hobserved, hseal⟩ := bind_eq_ok.mp hseal
      obtain ⟨-, rfl⟩ := observeTime_eq_ok hobserved
      exact BuilderCall.keeps_of_moves h (moves_sealKeys (h.observed observedAt) hseal) rfl rfl
        (by simp) (.other (by simp))
    · next error hseal =>
      obtain ⟨last, hmoves⟩ := moves_afterFailure h observedAt
      refine BuilderCall.keeps_of_moves h hmoves rfl rfl ?_ (.other (by simp))
      exact fun heq => sealExpired_ne_stateInconsistent h observedAt (hseal.trans (by simp_all))
  | flushAll =>
    obtain ⟨after, hflush, hmoves⟩ := sealAllWithReason_of_wellFormed h .flush
    have hcall : builders.call .flushAll = (.ok .sealed, after) := by
      rw [call, show builders.flushAll = .ok after from hflush]
    rw [hcall]
    exact BuilderCall.keeps_of_moves h hmoves rfl rfl (by simp) (.other (by simp))
  | takeNextSealed =>
    obtain ⟨segment, after, htake, htakes⟩ := exists_takeNextSealed h
    have hcall : builders.call .takeNextSealed = (.ok (.taken segment), after) := by
      rw [call, htake]
    rw [hcall]
    exact keeps_taken h htakes

/-- What a run does : every call keeps what it should, and no row is lost or made up. -/
theorem keeps_run (h : builders.WellFormed) (operations : List BuilderOperation) :
    (∀ call ∈ builders.calls operations, call.Keeps) ∧
      (builders.after operations).WellFormed ∧
      (builders.after operations).limits = builders.limits ∧
      (builders.after operations).keyedRows ++
          (builders.calls operations).flatMap BuilderCall.takenRows ~
        (builders.calls operations).flatMap BuilderCall.insertedRows ++ builders.keyedRows ∧
      (builders.Sized → (builders.after operations).Sized) ∧
      (builders.Within → (builders.after operations).Within) ∧
      (builders.after operations).accessSequence = builders.accessSequence +
        ((builders.calls operations).flatMap BuilderCall.insertedRows).length := by
  induction operations generalizing builders with
  | nil => exact ⟨by simp [calls], h, rfl, by simp [calls, after], id, id, rfl⟩
  | cons operation rest ih =>
    have hkeeps := keeps_call h operation
    obtain ⟨hcalls, hwf, hlimits, hrows, hsized, hwithin, hsequence⟩ := ih hkeeps.wellFormed
    refine ⟨?_, hwf, hlimits.trans hkeeps.limits, ?_, hsized ∘ hkeeps.sized,
      hwithin ∘ hkeeps.within, ?_⟩
    · intro call hcall
      rcases mem_cons.mp hcall with rfl | hcall
      · exact hkeeps
      · exact hcalls call hcall
    · rw [calls, flatMap_cons, flatMap_cons, after]
      exact perm_chain hkeeps.rows hrows
    · rw [calls, flatMap_cons, length_append, after, hsequence, hkeeps.accessSequence,
        Nat.add_assoc]

/-- The rows that are open, sealed or taken are those of the accepted batches, each under the
key of its source, schema and day ; and every reply is about the batch as it was pushed. -/
theorem rows_conserved (limits : SegmentBuildLimits) (operations : List BuilderOperation) :
    ((withLimits limits).after operations).keyedRows ++
        ((withLimits limits).calls operations).flatMap BuilderCall.takenRows ~
      ((withLimits limits).calls operations).flatMap BuilderCall.insertedRows ∧
    ∀ call ∈ (withLimits limits).calls operations, call.Answers := by
  obtain ⟨hcalls, -, -, hrows, -⟩ := keeps_run (wellFormed_withLimits limits) operations
  refine ⟨?_, fun call hcall => (hcalls call hcall).answers⟩
  rwa [show (withLimits limits).keyedRows = [] from rfl, append_nil] at hrows

end SegmentBuilders

end Runs

section Sample

attribute [local instance] Chrono.unbounded SerdeJson.plain Layout.sample

namespace SegmentBuilders

/-- A batch of one row without fields. -/
def sampleBatch : NormalizedBatch :=
  ⟨BatchMetadata.sample 9, [.accepted ⟨⟨1, 0⟩, ⟨0⟩, (BatchMetadata.sample 9).ingestionTime, ⟨[]⟩,
    [], none⟩], 0⟩

/-- Limits for one such row. -/
def sampleLimits : SegmentBuildLimits := .standard ⟨33, by decide, by decide⟩

/-- The row is accepted, sealed and taken. -/
theorem rows_conserved_sampleBatch :
    let operations := [.pushBatch sampleBatch 0, .flushAll, .takeNextSealed]
    ∃ row, ((withLimits sampleLimits).calls operations).flatMap BuilderCall.insertedRows = [row] ∧
      ((withLimits sampleLimits).after operations).keyedRows ++
        ((withLimits sampleLimits).calls operations).flatMap BuilderCall.takenRows ~ [row] := by
  intro operations
  exact ⟨_, rfl, (rows_conserved sampleLimits operations).1⟩

end SegmentBuilders

end Sample

end Elucid
