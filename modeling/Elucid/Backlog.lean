import Elucid.ExactlyOnce

/-!
# The count of the backlog

The boundary counts the batches that are not processed. An append counts its batch when the
frame is durable and the new extent is published, so in between the worker sees a batch that
is not counted. The worker subtracts the batches that its checkpoint has passed, and it stops
if they are more than were counted.

`Backlog` is the spool with that count, and `step` is a step of an append or of the worker.
What holds in all runs is one equation : the count and the appends between their two steps are
together the batches the checkpoint has not passed and those the worker is about to subtract
(`Tallied`). It follows that the worker underflows exactly where it completes while more
appends are between their steps than there are batches behind the checkpoint, and that the count
is exact except between the two steps of an append or of a completion (`accounted_iff`).
`underflows` is a run with an underflow, with a batch of a blank line.
-/

namespace Elucid

open BigEndian List

section Model

variable [Chrono]

/-! ## State -/

/-- Where the worker is in `run_loop`. -/
inductive WorkerPhase
  | processing
  | drained
  | completing (count : Nat)
  | reclaiming
  | waiting
  deriving DecidableEq, Repr

/-- What the worker is about to subtract. -/
def WorkerPhase.completed : WorkerPhase → Nat
  | .completing count => count
  | _ => 0

/-- The spool, the queue of the worker and the count of the boundary. -/
structure Backlog where
  world : World
  reader : RecoveredBatches
  pending : List BatchOutputRequirements
  phase : WorkerPhase
  /-- The appends between the publication of their extent and the increment. -/
  uncounted : Nat
  pendingBatches : Nat
  /-- The error that has stopped the worker. -/
  stopped : Option IngestionProcessingError

/-- The error of `complete_pending_batches` that fails. -/
def backlogUnderflow : IngestionProcessingError :=
  .invariant "spool backlog accounting underflowed"

namespace Backlog

/-- The committed batches that the checkpoint has not passed. -/
def unpassed [Blake3] (s : Backlog) : List RecoveredBatch :=
  s.world.batches.filter fun batch => s.world.checkpoint.position ≤ batch.range.start

/-! ## Steps -/

variable (deployment : Deployment) (s : Backlog)

/-- `AdmittedAppend::append` up to the published extent. -/
def append (metadata : BatchMetadata) (body : Bytes) : Option Backlog :=
  if body.length ≤ deployment.spool.bodyLimit.get ∧
      s.world.committedBytes + storedLength body ≤ deployment.spool.capacity.get ∧
      metadata.batchId ∉ s.world.spooled.map (·.1.batchId) then
    some { s with
      world := deployment.move s.world (.append metadata body)
      uncounted := s.uncounted + 1 }
  else none

/-- `AdmittedAppend::append` from the increment on. -/
def count : Option Backlog :=
  if s.uncounted = 0 then none
  else some { s with
    uncounted := s.uncounted - 1
    pendingBatches := (s.pendingBatches + 1) % 2 ^ 64 }

section Read

variable [Blake3] [SerdeJson] [ChronoText] [FloatText] [Base64]

/-- What `process_batch` puts into the queue. -/
def requirements (batch : RecoveredBatch) :
    Except IngestionProcessingError BatchOutputRequirements := do
  let source ← okOr (s.world.sourceById batch.metadata.catalog.sourceId)
    (.invariant "pinned source is absent from the retained catalog")
  let normalized ← (normalizeRecords batch.metadata batch.body source).mapError .normalization
  (BatchOutputRequirements.fromNormalized normalized batch.range).mapError .recoveryModel

/-- The inner loop of `run_loop` : one batch, or the end of what is committed. -/
def read : Option Backlog :=
  if s.stopped.isSome ∨ s.phase ≠ .processing then none
  else
    match s.reader.nextBatch (framesOf s.world.frames)
        ⟨s.world.generation, s.world.committedBytes⟩ with
    | (reader, .error error) => some { s with reader, stopped := some (.spool error) }
    | (reader, .ok none) => some { s with reader, phase := .drained }
    | (reader, .ok (some batch)) =>
      match s.requirements batch with
      | .error error => some { s with reader, stopped := some error }
      | .ok requirements => some { s with reader, pending := s.pending ++ [requirements] }

end Read

/-- `advance_checkpoint` up to the completion, with the published outputs. -/
def advance (published : List PublishedOutput) : Option Backlog :=
  if s.stopped.isSome ∨ s.phase ≠ .drained then none
  else
    match planCheckpoint s.world.checkpoint s.pending published with
    | .error error => some { s with stopped := some (.recoveryModel error) }
    | .ok none => some { s with phase := .waiting }
    | .ok (some plan) =>
      if s.world.committedBytes < plan.target.position then
        some { s with
          stopped := some (.spool (.invariant "checkpoint plan exceeds committed spool data")) }
      else
        let passed := fun batch : BatchOutputRequirements =>
          decide (batch.spoolRange.stop ≤ plan.target.position)
        some { s with
          world := { s.world with checkpoint := plan.target }
          pending := s.pending.dropWhile passed
          phase := .completing (s.pending.takeWhile passed).length }

/-- `complete_pending_batches`. -/
def complete : Option Backlog :=
  match s.stopped, s.phase with
  | none, .completing count =>
    if count ≤ s.pendingBatches then
      some { s with pendingBatches := s.pendingBatches - count, phase := .reclaiming }
    else some { s with stopped := some backlogUnderflow }
  | _, _ => none

/-- `reclaim_checkpointed`. -/
def reclaim (reserved : Bool) : Option Backlog :=
  if s.stopped.isSome ∨ s.phase ≠ .reclaiming then none
  else if reserved ∨ s.world.checkpoint.position = 0 ∨
      s.world.checkpoint.position ≠ s.world.committedBytes then
    some { s with phase := .waiting }
  else some { s with
    world := { s.world with
      checkpoint := .initial
      frames := []
      generation := s.world.generation + 1
      retired := s.world.retired ++ s.world.frames }
    phase := .waiting }

/-- `wait_for_work`. -/
def wake : Option Backlog :=
  if s.stopped.isSome ∨ s.phase ≠ .waiting then none
  else some { s with reader := s.reader.follow, phase := .processing }

/-- The steps of the appends and of the worker. -/
inductive Label
  | append (metadata : BatchMetadata) (body : Bytes)
  | count
  | read
  | advance (published : List PublishedOutput)
  | complete
  | reclaim (reserved : Bool)
  | wake

variable [Blake3] [SerdeJson] [ChronoText] [FloatText] [Base64]

/-- One step. A step that is not due is refused. -/
def step (s : Backlog) : Label → Option Backlog
  | .append metadata body => s.append deployment metadata body
  | .count => s.count
  | .read => s.read
  | .advance published => s.advance published
  | .complete => s.complete
  | .reclaim reserved => s.reclaim reserved
  | .wake => s.wake

/-- A process starts on what recovery has found. -/
def initial (w : World) : Backlog where
  world := w
  reader := .fromRecovery w.checkpoint w.committedBytes deployment.spool.bodyLimit
  pending := []
  phase := .processing
  uncounted := 0
  pendingBatches := (w.batches.filter fun batch =>
    w.checkpoint.position ≤ batch.range.start).length
  stopped := none

/-- The worker completes only where no more appends are between their steps than there are
batches behind the checkpoint. -/
def Uncrowded (s : Backlog) : Label → Prop
  | .complete => s.uncounted ≤ s.unpassed.length
  | _ => True

end Backlog

end Model

/-! ## Queued batches -/

section Queue

variable [Chrono]
variable {first second : List (BatchMetadata × Bytes)} {front back : List BatchOutputRequirements}
variable {start : Nat} {frames : List (BatchMetadata × Bytes)}
  {pending : List BatchOutputRequirements}

/-- A frame is not empty. -/
theorem length_le_framesBytes (frames : List (BatchMetadata × Bytes)) :
    frames.length ≤ framesBytes frames := by
  induction frames with
  | nil => exact le_rfl
  | cons frame rest ih =>
    have hcons : framesBytes (frame :: rest) = storedLength frame.2 + framesBytes rest := by
      simp [framesBytes]
    rw [hcons, length_cons, storedLength_eq]
    omega

/-- What some frames end at says which they are. -/
theorem eq_of_framesBytes_eq (h : first <+: frames) (h' : second <+: frames)
    (heq : framesBytes first = framesBytes second) : first = second := by
  rcases prefix_or_prefix_of_prefix h h' with ⟨rest, rfl⟩ | ⟨rest, rfl⟩
  · have hlength := length_le_framesBytes rest
    rw [framesBytes_append] at heq
    rw [length_eq_zero_iff.mp (show rest.length = 0 by omega), append_nil]
  · have hlength := length_le_framesBytes rest
    rw [framesBytes_append] at heq
    rw [length_eq_zero_iff.mp (show rest.length = 0 by omega), append_nil]

variable [Blake3]

/-- The requirements of some frames that start at `start`. -/
def Queued (start : Nat) (frames : List (BatchMetadata × Bytes))
    (pending : List BatchOutputRequirements) : Prop :=
  pending.map (·.spoolRange) = (batchesAt start frames).map (·.range)

theorem Queued.length_eq (h : Queued start frames pending) : pending.length = frames.length := by
  simpa using congrArg List.length h

/-- The requirements end where the frames end. -/
theorem Queued.endOf_eq (h : Queued start frames pending) :
    endOf start pending = start + framesBytes frames := by
  induction frames generalizing start pending with
  | nil =>
    obtain rfl : pending = [] := by simpa [Queued, batchesAt] using h
    simp [framesBytes]
  | cons frame rest ih =>
    obtain ⟨metadata, body⟩ := frame
    obtain ⟨batch, others, rfl, hrange, hothers⟩ := map_eq_cons_iff.mp h
    rw [endOf_cons, hrange, stop_batchAt, ih hothers]
    simp [framesBytes, Nat.add_assoc]

theorem Queued.of_append (h : Queued start frames (front ++ back)) :
    ∃ first second, frames = first ++ second ∧
      Queued start first front ∧ Queued (start + framesBytes first) second back := by
  induction front generalizing start frames with
  | nil => exact ⟨[], frames, rfl, rfl, by simpa [framesBytes] using h⟩
  | cons batch rest ih =>
    cases frames with
    | nil => simp [Queued, batchesAt] at h
    | cons frame frames =>
      obtain ⟨metadata, body⟩ := frame
      obtain ⟨hrange, hrest⟩ := List.cons.inj h
      obtain ⟨first, second, rfl, hfirst, hsecond⟩ := ih hrest
      refine ⟨(metadata, body) :: first, second, rfl, ?_, ?_⟩
      · exact congrArg₂ List.cons hrange hfirst
      · rw [Queued, hsecond]
        simp [framesBytes, Nat.add_assoc]

theorem Queued.append (h : Queued start first front)
    (h' : Queued (start + framesBytes first) second back) :
    Queued start (first ++ second) (front ++ back) := by
  rw [Queued, map_append, h, h', batchesAt_append, map_append, length_framesOf]

/-- The batches that end before the end of the first ones are the first ones. -/
theorem Queued.takeWhile_append (h : Queued start first front)
    (h' : Queued (start + framesBytes first) second back) {target : Nat}
    (htarget : target = start + framesBytes first) :
    (front ++ back).takeWhile (fun batch => decide (batch.spoolRange.stop ≤ target)) = front ∧
      (front ++ back).dropWhile (fun batch => decide (batch.spoolRange.stop ≤ target)) = back := by
  have hfront : ∀ batch ∈ front, decide (batch.spoolRange.stop ≤ target) = true := by
    intro batch hbatch
    have hmem := mem_map_of_mem (f := fun b : BatchOutputRequirements => b.spoolRange) hbatch
    rw [h] at hmem
    obtain ⟨other, hother, heq⟩ := mem_map.mp hmem
    have hle := stop_le_of_mem_batchesAt hother
    rw [heq, length_framesOf] at hle
    exact decide_eq_true (htarget ▸ hle)
  rw [takeWhile_append_of_pos hfront, dropWhile_append_of_pos hfront]
  cases second with
  | nil =>
    obtain rfl : back = [] := by simpa [Queued, batchesAt] using h'
    simp
  | cons frame frames =>
    obtain ⟨metadata, body⟩ := frame
    obtain ⟨batch, others, rfl, hrange, -⟩ := map_eq_cons_iff.mp h'
    have hlast : ¬ batch.spoolRange.stop ≤ target := by
      rw [hrange, stop_batchAt, storedLength_eq, htarget]
      omega
    simp [hlast]

end Queue

/-! ## The equation -/

section Tally

variable [Chrono] [Blake3] {deployment : Deployment} {s after : Backlog}
variable {labels : List Backlog.Label} {label : Backlog.Label}
variable {published : List PublishedOutput} {error : IngestionProcessingError}

/-- How the frames divide, and what the count is then. -/
structure Divided (s : Backlog) (passed queued unread : List (BatchMetadata × Bytes)) : Prop where
  frames : s.world.frames = passed ++ queued ++ unread
  checkpoint : s.world.checkpoint.position = framesBytes passed
  readTo : s.reader.readTo s.world = framesBytes (passed ++ queued)
  pending : Queued (framesBytes passed) queued s.pending
  completed : s.phase.completed ≤ passed.length
  tally : s.pendingBatches + s.uncounted =
    queued.length + unread.length + s.phase.completed

/-- What holds while the worker runs. -/
structure Tallied (deployment : Deployment) (s : Backlog) : Prop where
  framed : Framed deployment s.world
  reads : Reads deployment s.world s.reader
  recovered : s.phase ≠ .processing → s.reader.state ≠ .readingRecovery
  divided : ∃ passed queued unread, Divided s passed queued unread

/-- The batches behind the checkpoint are those that are queued or unread. -/
theorem Divided.length_unpassed {passed queued unread : List (BatchMetadata × Bytes)}
    (h : Divided s passed queued unread) :
    s.unpassed.length = queued.length + unread.length := by
  have hbatches : s.world.batches = batchesAt 0 passed ++
      batchesAt (framesBytes passed) (queued ++ unread) := by
    rw [World.batches, h.frames, append_assoc, batchesAt_append, length_framesOf, Nat.zero_add]
  have hpassed : (batchesAt 0 passed).filter
      (fun batch => s.world.checkpoint.position ≤ batch.range.start) = [] := by
    refine filter_eq_nil_iff.mpr fun batch hbatch => ?_
    have hle := stop_le_of_mem_batchesAt hbatch
    have hlt := batch.range.start_lt_stop
    rw [length_framesOf] at hle
    simp only [h.checkpoint, decide_eq_true_eq]
    omega
  have hrest : (batchesAt (framesBytes passed) (queued ++ unread)).filter
      (fun batch => s.world.checkpoint.position ≤ batch.range.start) =
        batchesAt (framesBytes passed) (queued ++ unread) := by
    refine filter_eq_self.mpr fun batch hbatch => ?_
    rw [h.checkpoint]
    exact decide_eq_true (le_start_of_mem_batchesAt hbatch)
  rw [Backlog.unpassed, hbatches, filter_append, hpassed, hrest]
  simp

/-- The count does not wrap. -/
theorem Tallied.pendingBatches_lt (h : Tallied deployment s) :
    s.pendingBatches + s.uncounted < 2 ^ 64 := by
  obtain ⟨passed, queued, unread, hdivided⟩ := h.divided
  have hcapacity := h.framed.capacity
  have hlt := deployment.spool.capacity.lt
  have hlength := length_le_framesBytes s.world.frames
  have hcompleted := hdivided.completed
  rw [hdivided.tally]
  rw [World.committedBytes] at hcapacity
  rw [hdivided.frames] at hlength hcapacity
  simp only [length_append] at hlength
  omega

/-! ## Steps keep it -/

theorem Tallied.append (h : Tallied deployment s) {metadata : BatchMetadata} {body : Bytes}
    (hstep : s.append deployment metadata body = some after) : Tallied deployment after := by
  unfold Backlog.append at hstep
  split_ifs at hstep with hfits
  obtain rfl := Option.some.inj hstep
  obtain ⟨passed, queued, unread, hdivided⟩ := h.divided
  have hmove : deployment.move s.world (.append metadata body) =
      { s.world with frames := s.world.frames ++ [(metadata, body)] } := by
    rw [Deployment.move, if_pos hfits]
  have hgrows : Grows s.world (deployment.move s.world (.append metadata body)) := by
    rw [hmove]
    exact ⟨rfl, rfl, prefix_append _ _⟩
  refine ⟨?_, h.reads.of_grows hgrows, h.recovered, passed, queued, unread ++ [(metadata, body)],
    ?_, ?_, (hgrows.readTo s.reader).trans hdivided.readTo, hdivided.pending, hdivided.completed, ?_⟩
  · dsimp only
    rw [hmove]
    exact h.framed.append hfits.1 hfits.2.1 hfits.2.2
  · dsimp only
    rw [hmove, hdivided.frames, ← append_assoc]
  · dsimp only
    rw [hmove]
    exact hdivided.checkpoint
  · have htally := hdivided.tally
    simp only [length_append, length_singleton]
    omega

theorem Tallied.count (h : Tallied deployment s) (hstep : s.count = some after) :
    Tallied deployment after := by
  unfold Backlog.count at hstep
  split_ifs at hstep with hnone
  obtain rfl := Option.some.inj hstep
  obtain ⟨passed, queued, unread, hdivided⟩ := h.divided
  refine ⟨h.framed, h.reads, h.recovered, passed, queued, unread, hdivided.frames,
    hdivided.checkpoint, hdivided.readTo, hdivided.pending, hdivided.completed, ?_⟩
  have hlt := h.pendingBatches_lt
  have htally := hdivided.tally
  dsimp only
  rw [Nat.mod_eq_of_lt (by omega)]
  omega

section Read

/-- The batch behind what was read is the first of the unread ones. -/
theorem Divided.exists_unread {passed queued unread : List (BatchMetadata × Bytes)}
    (h : Divided s passed queued unread) {batch : RecoveredBatch} (hmem : batch ∈ s.world.batches)
    (hstart : s.reader.readTo s.world = batch.range.start) :
    ∃ metadata body rest, unread = (metadata, body) :: rest ∧
      batch = batchAt (framesBytes (passed ++ queued)) metadata body := by
  obtain ⟨front, metadata, body, hfront, rfl⟩ := mem_batchesAt.mp hmem
  rw [start_batchAt, h.readTo, Nat.zero_add] at hstart
  have hread : passed ++ queued <+: s.world.frames := h.frames ▸ prefix_append _ _
  obtain rfl := eq_of_framesBytes_eq hread ((prefix_append _ _).trans hfront) hstart
  rw [h.frames, prefix_append_right_inj] at hfront
  obtain ⟨rest, rfl⟩ := hfront
  exact ⟨metadata, body, rest, rfl, by rw [Nat.zero_add]⟩

variable [SerdeJson] [ChronoText] [FloatText] [Base64]

theorem Backlog.spoolRange_requirements {batch : RecoveredBatch}
    {requirements : BatchOutputRequirements} (h : s.requirements batch = .ok requirements) :
    requirements.spoolRange = batch.range := by
  obtain ⟨_, -, h⟩ := bind_eq_ok.mp h
  obtain ⟨_, -, h⟩ := bind_eq_ok.mp h
  exact (BatchOutputRequirements.fromNormalized_eq_ok (mapError_eq_ok.mp h)).2.1

theorem Tallied.read (h : Tallied deployment s) (hstep : s.read = some after)
    (hrunning : after.stopped = none) : Tallied deployment after := by
  unfold Backlog.read at hstep
  split_ifs at hstep with hdue
  push Not at hdue
  obtain ⟨passed, queued, unread, hdivided⟩ := h.divided
  cases hnext : s.reader.nextBatch (framesOf s.world.frames)
      ⟨s.world.generation, s.world.committedBytes⟩ with
  | mk reader result =>
    rw [hnext] at hstep
    cases result with
    | error error =>
      obtain rfl := Option.some.inj hstep
      cases hrunning
    | ok batch =>
      obtain ⟨hreads, hcase⟩ := h.reads.nextBatch h.framed hnext
      cases hcase with
      | none hsame hstate =>
        obtain rfl := Option.some.inj hstep
        refine ⟨h.framed, hreads, fun _ => hstate, passed, queued, unread, hdivided.frames,
          hdivided.checkpoint, hsame.trans hdivided.readTo, hdivided.pending, Nat.zero_le _, ?_⟩
        have htally := hdivided.tally
        rwa [hdue.2] at htally
      | @some batch hmem hstart hstop =>
        dsimp only at hstep
        cases hrequirements : s.requirements batch with
        | error error =>
          rw [hrequirements] at hstep
          obtain rfl := Option.some.inj hstep
          cases hrunning
        | ok requirements =>
          rw [hrequirements] at hstep
          obtain rfl := Option.some.inj hstep
          obtain ⟨metadata, body, rest, rfl, rfl⟩ := hdivided.exists_unread hmem hstart
          refine ⟨h.framed, hreads, fun hphase => absurd hdue.2 hphase, passed,
            queued ++ [(metadata, body)], rest, ?_, hdivided.checkpoint, ?_, ?_,
            hdivided.completed, ?_⟩
          · rw [hdivided.frames]
            simp
          · rw [hstop, stop_batchAt, ← append_assoc, framesBytes_append _ [_],
              framesBytes_singleton]
          · refine hdivided.pending.append ?_
            rw [Queued, map_singleton, Backlog.spoolRange_requirements hrequirements,
              framesBytes_append]
            rfl
          · have htally := hdivided.tally
            simp only [length_append, length_cons, length_nil] at htally ⊢
            omega

end Read

theorem Tallied.advance (h : Tallied deployment s) (hstep : s.advance published = some after)
    (hrunning : after.stopped = none) :
    Tallied deployment after := by
  unfold Backlog.advance at hstep
  split_ifs at hstep with hdue
  push Not at hdue
  obtain ⟨passed, queued, unread, hdivided⟩ := h.divided
  have htally := hdivided.tally
  rw [hdue.2] at htally
  have hstate : s.reader.state ≠ .readingRecovery := h.recovered (by simp [hdue.2])
  cases hplan : planCheckpoint s.world.checkpoint s.pending published with
  | error error =>
    rw [hplan] at hstep
    obtain rfl := Option.some.inj hstep
    cases hrunning
  | ok plan =>
    rw [hplan] at hstep
    obtain ⟨-, -, -, rfl⟩ := planCheckpoint_eq_ok.mp hplan
    -- what is covered is the front of the queue, and the target is where it ends
    have hqueue : coveredBatches s.pending published ++ s.pending.dropWhile
        (fun batch => decide (batch.IsCovered published)) = s.pending :=
      takeWhile_append_dropWhile
    rw [planTo] at hstep
    split_ifs at hstep with hempty
    · obtain rfl := Option.some.inj hstep
      exact ⟨h.framed, h.reads, fun _ => hstate, passed, queued, unread, hdivided.frames,
        hdivided.checkpoint, hdivided.readTo, hdivided.pending, Nat.zero_le _, htally⟩
    · dsimp only at hstep
      split_ifs at hstep with hbehind
      · obtain rfl := Option.some.inj hstep
        cases hrunning
      · obtain rfl := Option.some.inj hstep
        have hpending := hdivided.pending
        rw [← hqueue] at hpending
        obtain ⟨first, second, rfl, hfirst, hsecond⟩ := hpending.of_append
        have htarget : endOf s.world.checkpoint.position (coveredBatches s.pending published) =
            framesBytes passed + framesBytes first := by
          rw [hdivided.checkpoint, hfirst.endOf_eq]
        obtain ⟨htake, hdrop⟩ := hfirst.takeWhile_append hsecond htarget
        rw [hqueue] at htake hdrop
        have hgrows : Grows s.world { s.world with
            checkpoint := ⟨endOf s.world.checkpoint.position
              (coveredBatches s.pending published)⟩ } := ⟨rfl, rfl, prefix_rfl⟩
        refine ⟨⟨h.framed.nodup, h.framed.limit, h.framed.capacity, passed ++ first, ?_, ?_⟩,
          h.reads.of_grows hgrows, fun _ => hstate, passed ++ first, second, unread, ?_, ?_, ?_, ?_,
          ?_, ?_⟩
        · rw [hdivided.frames]
          exact ⟨second ++ unread, by simp⟩
        · rw [framesBytes_append]
          exact htarget
        · rw [hdivided.frames]
          simp
        · rw [framesBytes_append]
          exact htarget
        · rw [hgrows.readTo, hdivided.readTo, append_assoc]
        · dsimp only
          rw [hdrop, framesBytes_append]
          exact hsecond
        · dsimp only
          rw [htake, WorkerPhase.completed, hfirst.length_eq]
          simp
        · dsimp only
          rw [htake, WorkerPhase.completed, hfirst.length_eq, htally]
          simp only [WorkerPhase.completed, length_append]
          omega

theorem Tallied.complete (h : Tallied deployment s) (hstep : s.complete = some after)
    (hrunning : after.stopped = none) : Tallied deployment after := by
  unfold Backlog.complete at hstep
  split at hstep
  case h_2 => cases hstep
  case h_1 count hstopped hphase =>
    split_ifs at hstep with hle
    · obtain rfl := Option.some.inj hstep
      obtain ⟨passed, queued, unread, hdivided⟩ := h.divided
      refine ⟨h.framed, h.reads, fun _ => h.recovered (by simp [hphase]), passed, queued, unread,
        hdivided.frames, hdivided.checkpoint, hdivided.readTo, hdivided.pending, Nat.zero_le _, ?_⟩
      have htally := hdivided.tally
      rw [hphase] at htally
      simp only [WorkerPhase.completed] at htally ⊢
      omega
    · obtain rfl := Option.some.inj hstep
      cases hrunning

theorem Tallied.reclaim (h : Tallied deployment s) {reserved : Bool}
    (hstep : s.reclaim reserved = some after) : Tallied deployment after := by
  unfold Backlog.reclaim at hstep
  split_ifs at hstep with hdue hkeep
  · push Not at hdue
    obtain rfl := Option.some.inj hstep
    obtain ⟨passed, queued, unread, hdivided⟩ := h.divided
    refine ⟨h.framed, h.reads, fun _ => h.recovered (by simp [hdue.2]), passed, queued, unread,
      hdivided.frames, hdivided.checkpoint, hdivided.readTo, hdivided.pending, Nat.zero_le _, ?_⟩
    have htally := hdivided.tally
    rwa [hdue.2] at htally
  · push Not at hdue hkeep
    obtain rfl := Option.some.inj hstep
    obtain ⟨passed, queued, unread, hdivided⟩ := h.divided
    -- the checkpoint is at the end, so all frames are passed
    have hpassed : queued = [] ∧ unread = [] := by
      have hend := hkeep.2.2
      rw [hdivided.checkpoint, World.committedBytes, hdivided.frames, append_assoc,
        framesBytes_append] at hend
      have hlength := length_le_framesBytes (queued ++ unread)
      rw [length_append] at hlength
      constructor <;> exact length_eq_zero_iff.mp (by omega)
    obtain ⟨rfl, rfl⟩ := hpassed
    have hstate := h.recovered (by simp [hdue.2])
    have hlt : s.reader.generation < s.world.generation + 1 := Nat.lt_succ_of_le h.reads.generation_le
    have hreadTo : ∀ w : World, w.generation = s.world.generation + 1 → s.reader.readTo w = 0 :=
      fun w hw => if_neg (by omega)
    have hpending : s.pending = [] := by simpa [Queued, batchesAt] using hdivided.pending
    refine ⟨⟨?_, by simp, Nat.zero_le _, [], prefix_rfl, rfl⟩,
      ⟨h.reads.bodyLimit, hlt.le, ⟨[], prefix_rfl, hreadTo _ rfl⟩,
        fun hreading => absurd hreading hstate⟩, fun _ => hstate, [], [], [], rfl, rfl,
      hreadTo _ rfl, by simp [Queued, batchesAt, hpending], Nat.zero_le _, ?_⟩
    · rw [World.spooled, append_nil]
      exact h.framed.nodup
    · have htally := hdivided.tally
      rwa [hdue.2] at htally

theorem Tallied.wake (h : Tallied deployment s) (hstep : s.wake = some after) :
    Tallied deployment after := by
  unfold Backlog.wake at hstep
  split_ifs at hstep with hdue
  push Not at hdue
  obtain rfl := Option.some.inj hstep
  obtain ⟨passed, queued, unread, hdivided⟩ := h.divided
  refine ⟨h.framed, h.reads.follow, fun hphase => absurd rfl hphase, passed, queued, unread,
    hdivided.frames, hdivided.checkpoint, (s.reader.readTo_follow s.world).trans hdivided.readTo,
    hdivided.pending, Nat.zero_le _, ?_⟩
  have htally := hdivided.tally
  rwa [hdue.2] at htally

/-- The process starts with the count of recovery. -/
theorem tallied_initial {w : World} (hframed : Framed deployment w) (hgeneration : w.generation = 0) :
    Tallied deployment (.initial deployment w) := by
  obtain ⟨passed, hpassed, hposition⟩ := hframed.boundary
  obtain ⟨unread, hunread⟩ := hpassed
  have hreadTo : (Backlog.initial deployment w).reader.readTo w = framesBytes passed :=
    (if_pos hgeneration.symm).trans hposition
  have hlength : (w.batches.filter fun batch =>
      w.checkpoint.position ≤ batch.range.start).length = unread.length := by
    have hdivided : Divided { Backlog.initial deployment w with pendingBatches := unread.length }
        passed [] unread := by
      refine ⟨?_, hposition, ?_, rfl, Nat.zero_le _, ?_⟩
      · rw [append_nil]
        exact hunread.symm
      · rw [append_nil]
        exact hreadTo
      · simp [Backlog.initial, WorkerPhase.completed]
    exact hdivided.length_unpassed.trans (Nat.zero_add _)
  refine ⟨hframed, ⟨rfl, Nat.zero_le _, ⟨passed, ⟨unread, hunread⟩, hreadTo⟩, fun _ =>
    ⟨hgeneration.symm, hframed.checkpoint_le, w.frames, prefix_rfl, rfl⟩⟩,
    fun hphase => absurd rfl hphase, passed, [], unread, ?_, hposition, ?_, rfl, Nat.zero_le _, ?_⟩
  · rw [append_nil]
    exact hunread.symm
  · rw [append_nil]
    exact hreadTo
  · simpa [Backlog.initial, WorkerPhase.completed] using hlength

/-- The worker underflows iff more appends are between their steps than there are batches
behind the checkpoint. -/
theorem Tallied.stopped_complete (h : Tallied deployment s) (hstep : s.complete = some after) :
    after.stopped = some backlogUnderflow ↔ s.unpassed.length < s.uncounted := by
  unfold Backlog.complete at hstep
  split at hstep
  case h_2 => cases hstep
  case h_1 count hstopped hphase =>
    obtain ⟨passed, queued, unread, hdivided⟩ := h.divided
    have htally := hdivided.tally
    rw [hphase, WorkerPhase.completed, ← hdivided.length_unpassed] at htally
    split_ifs at hstep with hle
    · obtain rfl := Option.some.inj hstep
      refine iff_of_false ?_ (by omega)
      dsimp only
      rw [hstopped]
      exact fun hsome => by cases hsome
    · obtain rfl := Option.some.inj hstep
      exact iff_of_true rfl (by omega)

/-! ## Runs -/

variable [SerdeJson] [ChronoText] [FloatText] [Base64]

theorem Backlog.requirements_ne_underflow {batch : RecoveredBatch} :
    s.requirements batch ≠ .error backlogUnderflow := by
  intro h
  rcases bind_eq_error.mp h with h | ⟨_, -, h⟩
  · exact absurd (okOr_eq_error.mp h).2 (by decide)
  · rcases bind_eq_error.mp h with h | ⟨_, -, h⟩
    · obtain ⟨_, -, h⟩ := mapError_eq_error.mp h
      cases h
    · obtain ⟨_, -, h⟩ := mapError_eq_error.mp h
      cases h

/-- A step of the running worker, or of an append. -/
theorem Tallied.step (h : Tallied deployment s) (hstep : s.step deployment label = some after)
    (hrunning : after.stopped = none) :
    Tallied deployment after := by
  cases label with
  | append metadata body => exact h.append hstep
  | count => exact h.count hstep
  | read => exact h.read hstep hrunning
  | advance published => exact h.advance hstep hrunning
  | complete => exact h.complete hstep hrunning
  | reclaim reserved => exact h.reclaim hstep
  | wake => exact h.wake hstep

/-- What has stopped the worker stays. -/
theorem Backlog.stopped_step (hstep : s.step deployment label = some after)
    (hstopped : s.stopped = some error) :
    after.stopped = some error := by
  cases label with
  | append metadata body =>
    rw [Backlog.step, Backlog.append] at hstep
    split_ifs at hstep
    obtain rfl := Option.some.inj hstep
    exact hstopped
  | count =>
    rw [Backlog.step, Backlog.count] at hstep
    split_ifs at hstep
    obtain rfl := Option.some.inj hstep
    exact hstopped
  | read => simp [Backlog.step, Backlog.read, hstopped] at hstep
  | advance published => simp [Backlog.step, Backlog.advance, hstopped] at hstep
  | complete => simp [Backlog.step, Backlog.complete, hstopped] at hstep
  | reclaim reserved => simp [Backlog.step, Backlog.reclaim, hstopped] at hstep
  | wake => simp [Backlog.step, Backlog.wake, hstopped] at hstep

theorem Backlog.read_ne_underflow (hstopped : s.stopped = none) (hstep : s.read = some after) :
    after.stopped ≠ some backlogUnderflow := by
  intro hunderflow
  unfold Backlog.read at hstep
  split_ifs at hstep
  cases hnext : s.reader.nextBatch (framesOf s.world.frames)
      ⟨s.world.generation, s.world.committedBytes⟩ with
  | mk reader result =>
    rw [hnext] at hstep
    cases result with
    | error error =>
      obtain rfl := Option.some.inj hstep
      cases hunderflow
    | ok batch =>
      cases batch with
      | none =>
        obtain rfl := Option.some.inj hstep
        cases hstopped.symm.trans hunderflow
      | some batch =>
        dsimp only at hstep
        cases hrequirements : s.requirements batch with
        | error error =>
          rw [hrequirements] at hstep
          obtain rfl := Option.some.inj hstep
          exact Backlog.requirements_ne_underflow
            (hrequirements.trans (congrArg Except.error (Option.some.inj hunderflow)))
        | ok requirements =>
          rw [hrequirements] at hstep
          obtain rfl := Option.some.inj hstep
          cases hstopped.symm.trans hunderflow

omit [Blake3] [SerdeJson] [ChronoText] [FloatText] [Base64] in
theorem Backlog.advance_ne_underflow (hstopped : s.stopped = none)
    (hstep : s.advance published = some after) :
    after.stopped ≠ some backlogUnderflow := by
  intro hunderflow
  unfold Backlog.advance at hstep
  split_ifs at hstep
  cases hplan : planCheckpoint s.world.checkpoint s.pending published with
  | error error =>
    rw [hplan] at hstep
    obtain rfl := Option.some.inj hstep
    cases hunderflow
  | ok plan =>
    rw [hplan] at hstep
    cases plan with
    | none =>
      obtain rfl := Option.some.inj hstep
      cases hstopped.symm.trans hunderflow
    | some plan =>
      dsimp only at hstep
      split_ifs at hstep
      · obtain rfl := Option.some.inj hstep
        cases hunderflow
      · obtain rfl := Option.some.inj hstep
        cases hstopped.symm.trans hunderflow

/-- A step underflows iff it is a completion that is crowded. -/
theorem Tallied.underflow_iff (h : Tallied deployment s) (hstopped : s.stopped = none)
    (hstep : s.step deployment label = some after) :
    after.stopped = some backlogUnderflow ↔ ¬ s.Uncrowded label := by
  cases label with
  | complete => rw [h.stopped_complete hstep, Backlog.Uncrowded, Nat.not_le]
  | append metadata body =>
    rw [Backlog.step, Backlog.append] at hstep
    split_ifs at hstep
    obtain rfl := Option.some.inj hstep
    simp [Backlog.Uncrowded, hstopped]
  | count =>
    rw [Backlog.step, Backlog.count] at hstep
    split_ifs at hstep
    obtain rfl := Option.some.inj hstep
    simp [Backlog.Uncrowded, hstopped]
  | read => exact iff_of_false (Backlog.read_ne_underflow hstopped hstep) (fun hnot => hnot trivial)
  | advance published =>
    exact iff_of_false (Backlog.advance_ne_underflow hstopped hstep) (fun hnot => hnot trivial)
  | reclaim reserved =>
    rw [Backlog.step, Backlog.reclaim] at hstep
    split_ifs at hstep
    · obtain rfl := Option.some.inj hstep
      simp [Backlog.Uncrowded, hstopped]
    · obtain rfl := Option.some.inj hstep
      simp [Backlog.Uncrowded, hstopped]
  | wake =>
    rw [Backlog.step, Backlog.wake] at hstep
    split_ifs at hstep
    obtain rfl := Option.some.inj hstep
    simp [Backlog.Uncrowded, hstopped]

/-- Behind a run, the equation holds or the worker has stopped. -/
theorem tallied_run (h : s.stopped = none → Tallied deployment s)
    (hrun : Transition.run (Backlog.step deployment) s labels = some after) :
    after.stopped = none → Tallied deployment after := by
  refine Transition.invariant_of_follows (fun s => s.stopped = none → Tallied deployment s)
    (fun {s label next} hs _ hstep hrunning => ?_) h hrun
    (Transition.follows_of_forall fun _ _ _ => trivial)
  cases hstopped : s.stopped with
  | none => exact (hs hstopped).step hstep hrunning
  | some error => cases hrunning.symm.trans (Backlog.stopped_step hstep hstopped)

theorem Backlog.stopped_run (hstopped : s.stopped = some error)
    (hrun : Transition.run (Backlog.step deployment) s labels = some after) :
    after.stopped = some error :=
  Transition.invariant_of_follows (fun s => s.stopped = some error)
    (fun hs _ hstep => Backlog.stopped_step hstep hs) hstopped hrun
    (Transition.follows_of_forall fun _ _ _ => trivial)

/-- A run underflows iff a completion in it is crowded. -/
theorem underflow_run_iff (h : s.stopped = none → Tallied deployment s)
    (hclear : s.stopped ≠ some backlogUnderflow)
    (hrun : Transition.run (Backlog.step deployment) s labels = some after) :
    after.stopped ≠ some backlogUnderflow ↔
      Transition.Follows (Backlog.step deployment) Backlog.Uncrowded s labels := by
  induction labels generalizing s with
  | nil =>
    obtain rfl := Option.some.inj hrun
    exact iff_of_true hclear trivial
  | cons label rest ih =>
    obtain ⟨next, hstep, hrest⟩ := Transition.run_cons_eq_some.mp hrun
    have hsingle : Transition.run (Backlog.step deployment) s [label] = some next :=
      Transition.run_cons_eq_some.mpr ⟨next, hstep, rfl⟩
    have hnext := tallied_run h hsingle
    have hfollows : Transition.Follows (Backlog.step deployment) Backlog.Uncrowded s (label :: rest) ↔
        s.Uncrowded label ∧
          Transition.Follows (Backlog.step deployment) Backlog.Uncrowded next rest := by
      refine and_congr_right fun _ => ⟨fun hall => hall next hstep, fun hnext other hother => ?_⟩
      obtain rfl := Option.some.inj (hstep.symm.trans hother)
      exact hnext
    rw [hfollows]
    cases hstopped : s.stopped with
    | some error =>
      have hafter := Backlog.stopped_step hstep hstopped
      have huncrowded : s.Uncrowded label := by
        cases label with
        | complete => simp [Backlog.step, Backlog.complete, hstopped] at hstep
        | _ => trivial
      rw [ih hnext (by rwa [hafter, ← hstopped]) hrest, and_iff_right huncrowded]
    | none =>
      have hunderflow := (h hstopped).underflow_iff hstopped hstep
      by_cases huncrowded : s.Uncrowded label
      · rw [ih hnext (fun hnot => hunderflow.mp hnot huncrowded) hrest, and_iff_right huncrowded]
      · have hafter := Backlog.stopped_run (hunderflow.mpr huncrowded) hrest
        exact iff_of_false (fun hne => hne hafter) fun hboth => huncrowded hboth.1

/-- In every run of a process, the worker does not underflow iff every completion comes where
no more appends are between their steps than there are batches behind the checkpoint. As
long as the worker runs and no append is between its steps, the count is the batches behind
the checkpoint iff there is none that the worker has passed and not subtracted yet. -/
theorem accounted_iff {w : World} (hframed : Framed deployment w)
    (hgeneration : w.generation = 0) {labels : List Backlog.Label}
    (hrun : Transition.run (Backlog.step deployment) (.initial deployment w) labels = some s) :
    s.stopped ≠ some backlogUnderflow ∧
        (s.stopped = none → s.uncounted = 0 → s.pendingBatches = s.unpassed.length) ↔
      Transition.Follows (Backlog.step deployment) Backlog.Uncrowded (.initial deployment w)
          labels ∧
        (s.stopped = none → s.uncounted = 0 → s.phase.completed = 0) := by
  have hinitial : (Backlog.initial deployment w).stopped = none →
      Tallied deployment (.initial deployment w) := fun _ => tallied_initial hframed hgeneration
  refine and_congr (underflow_run_iff hinitial (fun hsome => by cases hsome) hrun)
    (forall_congr' fun hrunning => forall_congr' fun huncounted => ?_)
  obtain ⟨passed, queued, unread, hdivided⟩ := (tallied_run hinitial hrun hrunning).divided
  have htally := hdivided.tally
  rw [huncounted, Nat.add_zero, ← hdivided.length_unpassed] at htally
  omega

end Tally

/-! ## A blank line -/

section Sample

attribute [local instance] Chrono.unbounded Blake3.constant SerdeJson.plain ChronoText.silent
  FloatText.silent Base64.empty

/-- An empty spool is drained, and the worker waits. -/
def Backlog.idle : List Backlog.Label := [.read, .advance []]

/-- The worker gets a batch that needs no output, and completes it. -/
def Backlog.processBlank : List Backlog.Label := [.wake, .read, .read, .advance [], .complete]

/-- A batch that is counted before the worker completes it. -/
theorem blank_accounted :
    let deployment := Deployment.sample withoutCleanup
    let w : World := .initial [Source.sample]
    let labels := Backlog.idle ++ [.append (BatchMetadata.sample 9) [0x0A], .count] ++
      Backlog.processBlank
    ∃ s, Transition.run (Backlog.step deployment) (.initial deployment w) labels = some s ∧
      Transition.Follows (Backlog.step deployment) Backlog.Uncrowded (.initial deployment w) labels ∧
      s.pendingBatches = s.unpassed.length := by
  intro deployment w labels
  have hend : (Transition.run (Backlog.step deployment) (.initial deployment w) labels).map
      (fun s => (s.stopped, s.uncounted, s.pendingBatches, s.unpassed.length)) =
        some (none, 0, 0, 0) := by
    decide +kernel
  obtain ⟨s, hrun, heq⟩ := Option.map_eq_some_iff.mp hend
  simp only [Prod.mk.injEq] at heq
  obtain ⟨hstopped, -, hpending, hunpassed⟩ := heq
  have hcount : s.pendingBatches = s.unpassed.length := hpending.trans hunpassed.symm
  exact ⟨s, hrun, ((accounted_iff (framed_initial deployment _) rfl hrun).mp
    ⟨by simp [hstopped], fun _ _ => hcount⟩).1, hcount⟩

/-- The worker passes the batch before it is counted, and stops. -/
theorem underflows :
    let deployment := Deployment.sample withoutCleanup
    let w : World := .initial [Source.sample]
    let labels := Backlog.idle ++ [.append (BatchMetadata.sample 9) [0x0A]] ++ Backlog.processBlank
    (Transition.run (Backlog.step deployment) (.initial deployment w) labels).map
      (fun s => (s.uncounted, s.pendingBatches, s.stopped)) =
        some (1, 0, some backlogUnderflow) := by
  decide +kernel

end Sample

end Elucid
