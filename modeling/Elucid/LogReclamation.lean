import Elucid.ExactlyOnce

/-!
# Reclamation of the recovery log

The spool is truncated before the recovery log is emptied. A crash in between leaves records
about batches that are gone, and positions of a later generation are compared with theirs.

What the log says about the spool does not depend on the stores. `Spooled` is the part of the
world that is left then : a record of the log is about the frames, with their ranges, or about
frames that were truncated. Most programs only append to the spool (`Quiets`), and the others
keep what the worker knows about the frames (`Tracked`).

`reclaimedLog_iff` : in every state of every run, with any moves and any crashes, the log is
reclaimed behind a truncation iff the records left from older generations end within the
truncated bytes. `reclamation_conflicts` is a run in which one does not, and the worker stops.
-/

namespace Elucid

open BigEndian Effect List

section Reclamation

variable [Chrono] {deployment : Deployment} {w w' : World}
variable {record : OutputRecoveryRecord} {checkpoint : SpoolCheckpoint} {α β : Type}
variable {Q : β → World → Prop} {f : α → Program β}

/-! ## The spool and the log -/

/-- Frames were appended, and else the spool and the log are the same. -/
structure Appended (w w' : World) : Prop extends Grows w w' where
  checkpoint : w'.checkpoint = w.checkpoint
  log : w'.log = w.log
  reclaiming : w'.reclaiming = w.reclaiming

theorem Appended.refl (w : World) : Appended w w := ⟨⟨rfl, rfl, prefix_rfl⟩, rfl, rfl, rfl⟩

theorem Appended.trans {u : World} (h : Appended w w') (h' : Appended w' u) : Appended w u :=
  ⟨h.toGrows.trans h'.toGrows, h'.checkpoint.trans h.checkpoint, h'.log.trans h.log,
    h'.reclaiming.trans h.reclaiming⟩

variable [Blake3]

/-- What holds of the spool and the log. -/
structure Spooled (deployment : Deployment) (w : World) : Prop extends Framed deployment w where
  logged : ∀ record ∈ w.log, w.CoversCurrent record ∨ w.CoversRetired record
  reclaims : ∀ bytes frames, w.reclaiming = some (bytes, frames) → ∀ record ∈ w.log,
    (∀ item ∈ record.coverage, item.batchId ∉ batchIds frames) ∨
      ∀ item ∈ record.coverage, item.spoolRange.stop ≤ bytes

/-- A record that covers batches of the spool still covers them behind appends. -/
theorem World.CoversCurrent.of_grows (h : w.CoversCurrent record) (hgrows : Grows w w') :
    w'.CoversCurrent record := by
  intro item hitem
  obtain ⟨batch, hbatch, hrange⟩ := h item hitem
  exact ⟨batch, hgrows.mem_batches hbatch, hrange⟩

/-- Only what is appended is to be looked at. -/
theorem Spooled.appended (h : Spooled deployment w) (happended : Appended w w')
    (hframed : Framed deployment w') : Spooled deployment w' where
  toFramed := hframed
  logged record hrecord := by
    rw [World.CoversRetired, happended.retired]
    exact (h.logged record (happended.log ▸ hrecord)).imp_left (·.of_grows happended.toGrows)
  reclaims bytes frames hreclaiming record hrecord :=
    h.reclaims bytes frames (happended.reclaiming ▸ hreclaiming) record (happended.log ▸ hrecord)

/-- The spool and the log of a world. -/
def World.spoolAndLog (w : World) :=
  (w.generation, w.frames, w.retired, w.checkpoint, w.log, w.reclaiming)

/-- The spool and the log are the same. -/
def Untouched (w w' : World) : Prop := w'.spoolAndLog = w.spoolAndLog

/-- A step to a world in which everything holds of the spool and the log, and in which they
are the same up to appends. -/
def Quiet (deployment : Deployment) (w w' : World) : Prop := Spooled deployment w' ∧ Appended w w'

instance : IsTrans World (Quiet deployment) where
  trans _ _ _ h h' := ⟨h'.1, h.2.trans h'.2⟩

theorem Spooled.quiet_self (h : Spooled deployment w) : Quiet deployment w w := ⟨h, .refl w⟩

/-- A step that touches neither the spool nor the log. -/
theorem Spooled.quiet (h : Spooled deployment w) (hsame : Untouched w w') :
    Quiet deployment w w' := by
  simp only [Untouched, World.spoolAndLog, Prod.mk.injEq] at hsame
  obtain ⟨hgeneration, hframes, hretired, hcheckpoint, hlog, hreclaiming⟩ := hsame
  have happended : Appended w w' :=
    ⟨⟨hgeneration, hretired, hframes ▸ prefix_rfl⟩, hcheckpoint, hlog, hreclaiming⟩
  refine ⟨h.appended happended ⟨?_, hframes ▸ h.limit, ?_, ?_⟩, happended⟩
  · rw [World.spooled, hframes, hretired]
    exact h.nodup
  · rw [World.committedBytes, hframes]
    exact h.capacity
  · rw [hframes, hcheckpoint]
    exact h.boundary

/-- A move of the others appends to the spool or leaves it alone. -/
theorem Spooled.quiet_move (h : Spooled deployment w) (move : Move) :
    Quiet deployment w (deployment.move w move) := by
  cases move with
  | append metadata body =>
    rw [Deployment.move]
    split_ifs with hfits
    · obtain ⟨hlimit, hcapacity, hfresh⟩ := hfits
      have happended : Appended w { w with frames := w.frames ++ [(metadata, body)] } :=
        ⟨⟨rfl, rfl, prefix_append _ _⟩, rfl, rfl, rfl⟩
      exact ⟨h.appended happended (h.toFramed.append hlimit hcapacity hfresh), happended⟩
    · exact h.quiet_self
  | deleteExact objectId =>
    rw [Deployment.move]
    cases w.database.object? objectId with
    | none => exact h.quiet_self
    | some row =>
      dsimp only
      split_ifs
      · exact h.quiet rfl
      · exact h.quiet_self
  | expireSegments | supersedeSegments | claim | recordDeleted | cleanTerminalMetadata
  | replaceCatalog => exact h.quiet rfl

theorem Spooled.quiet_moves (h : Spooled deployment w) (moves : List Move) :
    Quiet deployment w (deployment.moves w moves) := by
  induction moves generalizing w with
  | nil => exact h.quiet_self
  | cons move rest ih =>
    have hmove : Quiet deployment w
        (if deployment.allows w move then deployment.move w move else w) := by
      split_ifs
      · exact h.quiet_move move
      · exact h.quiet_self
    exact IsTrans.trans _ _ _ hmove (ih hmove.1)

/-! ## Programs that leave the spool and the log alone -/

/-- A program that only lets appends happen. -/
def Quiets (deployment : Deployment) {α : Type} (x : Program α) : Prop :=
  ∀ w, Spooled deployment w → Keeps (Quiet deployment) x (fun _ _ => True) w

section Rules

variable {γ : Type} {x : Program α}
variable {unavailable : IngestionProcessingError}
  {effect : Choice → World → Except IngestionProcessingError (α × World)}

theorem quiets_pure (a : α) : Quiets deployment (pure a) := fun _ h => .pure h.quiet_self trivial

theorem quiets_throw (stop : Stop) : Quiets deployment (throw stop : Program α) :=
  fun _ h => .throw h.quiet_self

theorem quiets_get : Quiets deployment (get : Program World) := fun _ h => ⟨h.quiet_self, trivial⟩

theorem quiets_raise (r : Except IngestionProcessingError α) :
    Quiets deployment (Deployment.raise r) := by
  cases r with
  | ok a => exact quiets_pure a
  | error error => exact quiets_throw _

/-- Programs that let appends happen compose. -/
theorem Quiets.bind (hx : Quiets deployment x) (hf : ∀ a, Quiets deployment (f a)) :
    Quiets deployment (x >>= f) :=
  fun w h => (hx w h).bind fun a t ht _ => hf a t ht.1

theorem Quiets.attempt {recover : Stop → Option γ} (hx : Quiets deployment x) :
    Quiets deployment (attempt recover x) :=
  fun w h => (hx w h).attempt.mono fun _ _ _ _ => trivial

/-- A loop is quiet if each of its rounds is. -/
theorem Quiets.loop {exhausted : Stop} {body : α → Program (α ⊕ β)}
    (hbody : ∀ a, Quiets deployment (body a)) (rounds : Nat) (a : α) :
    Quiets deployment (loop exhausted body rounds a) :=
  fun w h => Keeps.loop (fun _ t => Spooled deployment t)
    (fun a t _ ht => (hbody a t ht).mono fun r _ hu _ => by
      cases r with
      | inl _ => exact hu.1
      | inr _ => trivial) rounds h.quiet_self h

theorem Quiets.foldlM {f : β → α → Program β} (hf : ∀ b a, Quiets deployment (f b a))
    (xs : List α) (b : β) : Quiets deployment (xs.foldlM f b) := by
  induction xs generalizing b with
  | nil => exact quiets_pure b
  | cons a rest ih =>
    rw [foldlM_cons]
    exact (hf b a).bind fun b => ih b

theorem Quiets.untilAvailable {operation : Program α} (h : Quiets deployment operation)
    (rounds : Nat) : Quiets deployment (Deployment.untilAvailable rounds operation) := by
  refine Quiets.loop (fun _ => h.attempt.bind fun r => ?_) rounds ()
  cases r <;> exact quiets_pure _

theorem Spooled.keeps_nextChoice (h : Spooled deployment w) :
    Keeps (Quiet deployment) Deployment.nextChoice (fun _ u => ∃ choices, u = { w with choices })
      w := by
  rw [Keeps, wp, Deployment.nextChoice]
  cases w.choices.head with
  | none => exact h.quiet_self
  | some choice => exact ⟨h.quiet rfl, _, rfl⟩

theorem quiets_nextChoice : Quiets deployment Deployment.nextChoice :=
  fun _ h => h.keeps_nextChoice.mono fun _ _ _ _ => trivial

theorem quiets_moves (moves : List Move) :
    Quiets deployment (modify (deployment.moves · moves) : Program PUnit) :=
  fun _ h => ⟨h.quiet_moves moves, trivial⟩

/-- Only the effect of an operation is to be looked at. -/
theorem Spooled.keeps_operate (h : Spooled deployment w) {G : World → World → Prop}
    [IsTrans World G] (hG : ∀ s t, Quiet deployment s t → G s t) {P : α → World → Prop}
    (heffect : ∀ choice t, Quiet deployment w t → ∀ a u, effect choice t = .ok (a, u) →
      G t u ∧ P a u) :
    Keeps G (deployment.operate unavailable effect) P w := by
  refine ((quiets_nextChoice w h).weaken fun t => hG w t).bind fun choice t _ ht => ?_
  refine ((quiets_moves choice.moves t ht.1.1).weaken fun u => hG t u).bind fun _ u _ hu => ?_
  exact keeps_perform (hG u u hu.1.1.quiet_self)
    (heffect choice u (IsTrans.trans _ _ _ ht.1 hu.1))

/-- An operation is quiet if its effect touches neither the spool nor the log. -/
theorem quiets_operate (heffect : ∀ choice t a u, effect choice t = .ok (a, u) → Untouched t u) :
    Quiets deployment (deployment.operate unavailable effect) :=
  fun _ h => h.keeps_operate (fun _ _ => id) fun choice t ht a u hu =>
    ⟨ht.1.quiet (heffect choice t a u hu), trivial⟩

/-- A transaction changes the metastore alone. -/
theorem quiets_transact {transaction : Choice → Database → Except PublicationError (α × Database)} :
    Quiets deployment (deployment.transact transaction) := by
  refine quiets_operate fun choice t a u heffect => ?_
  obtain ⟨⟨a, database⟩, -, heffect⟩ := bind_eq_ok.mp heffect
  cases heffect
  rfl

/-- An operation that only reads. -/
theorem quiets_read {effect : World → Except IngestionProcessingError α} :
    Quiets deployment (deployment.operate unavailable fun _ w => do return (← effect w, w)) := by
  refine quiets_operate fun choice t a u heffect => ?_
  obtain ⟨a, -, heffect⟩ := bind_eq_ok.mp heffect
  cases heffect
  rfl

end Rules

/-! ## Publication and recovery -/

theorem quiets_newIdentity : Quiets deployment Deployment.newIdentity := by
  refine quiets_nextChoice.bind fun choice w h => ?_
  rw [Keeps, wp_bind, wp_get]
  split_ifs
  · exact h.quiet_self
  · exact ⟨h.quiet rfl, trivial⟩

section Publish

variable (record : OutputRecoveryRecord) (rounds : Nat)

theorem quiets_publishOutput : Quiets deployment (deployment.publishOutput record) := by
  refine quiets_operate fun choice t a u heffect => ?_
  obtain ⟨⟨outcome, database⟩, -, heffect⟩ := bind_eq_ok.mp heffect
  cases heffect
  rfl

theorem quiets_upload (descriptor : ObjectDescriptor) (bytes : Bytes) :
    Quiets deployment (deployment.upload descriptor bytes) := by
  refine quiets_operate fun choice t a u heffect => ?_
  obtain ⟨_, -, heffect⟩ := bind_eq_ok.mp heffect
  obtain ⟨_, -, heffect⟩ := bind_eq_ok.mp heffect
  obtain ⟨outcome, -, heffect⟩ := bind_eq_ok.mp heffect
  cases outcome <;> cases heffect <;> rfl

theorem quiets_stagedOutputExists : Quiets deployment (deployment.stagedOutputExists record) := by
  refine quiets_operate fun choice t a u heffect => ?_
  obtain ⟨path, -, heffect⟩ := bind_eq_ok.mp heffect
  cases heffect
  rfl

theorem quiets_removeStagedOutput : Quiets deployment (deployment.removeStagedOutput record) := by
  refine quiets_operate fun choice t a u heffect => ?_
  obtain ⟨path, -, heffect⟩ := bind_eq_ok.mp heffect
  cases heffect
  rfl

theorem quiets_recordVerifiedUpload :
    Quiets deployment (deployment.recordVerifiedUpload rounds record) :=
  (quiets_transact.untilAvailable rounds).bind fun _ => quiets_pure _

theorem quiets_publishUnregistered : Quiets deployment (deployment.publishUnregistered record) := by
  refine (quiets_stagedOutputExists record).bind fun exist => ?_
  split_ifs
  · exact quiets_transact.attempt.bind fun _ => quiets_pure _
  · exact quiets_throw _

theorem quiets_recoveryObservation :
    Quiets deployment (deployment.recoveryObservation rounds record) := by
  refine (quiets_transact.untilAvailable rounds).bind fun state => ?_
  cases state with
  | unregistered | planned =>
    exact (quiets_stagedOutputExists record).bind fun _ => quiets_pure _
  | uploaded | published | abandoned => exact quiets_pure _

/-- So does what is decided about a recovered record. -/
theorem quiets_recoveryDisposition :
    Quiets deployment (deployment.recoveryDisposition rounds record) := by
  refine (quiets_recoveryObservation record rounds).bind fun observation =>
    (quiets_raise _).bind fun action => ?_
  cases action with
  | register | upload | publish | complete | rebuild | abandonAndRebuild => exact quiets_pure _
  | recordVerifiedUpload => exact quiets_throw _
  | verifyExactObject =>
    refine (Quiets.untilAvailable quiets_read rounds).bind fun outcome => ?_
    cases outcome with
    | verified =>
      exact (quiets_raise _).bind fun _ => (quiets_recordVerifiedUpload record rounds).bind
        fun _ => quiets_pure _
    | absent => exact (quiets_raise _).bind fun _ => quiets_pure _

variable [ParquetFile] [SerdeDocument] [UuidCrate]

theorem quiets_publishPlanned : Quiets deployment (deployment.publishPlanned rounds record) := by
  refine (quiets_stagedOutputExists record).bind fun exist => ?_
  split_ifs
  · refine quiets_read.bind fun bytes => (quiets_upload _ bytes).attempt.bind fun uploaded => ?_
    cases uploaded with
    | ok _ => exact quiets_recordVerifiedUpload record rounds
    | error _ => exact quiets_pure _
  · refine (Quiets.attempt quiets_read).bind fun verified => ?_
    rcases verified with _ | outcome
    · exact quiets_pure _
    · cases outcome with
      | verified => exact quiets_recordVerifiedUpload record rounds
      | absent => exact quiets_throw _

/-- The publication of a record changes the stores and the metastore alone. -/
theorem quiets_publishRecord : Quiets deployment (deployment.publishRecord rounds record) := by
  refine Quiets.loop (fun _ => (Quiets.attempt quiets_transact).bind fun state => ?_) rounds ()
  rcases state with _ | state
  · exact quiets_pure _
  · cases state with
    | unregistered => exact (quiets_publishUnregistered record).bind fun _ => quiets_pure _
    | planned => exact (quiets_publishPlanned record rounds).bind fun _ => quiets_pure _
    | uploaded => exact (quiets_publishOutput record).attempt.bind fun _ => quiets_pure _
    | published =>
      exact (quiets_raise _).bind fun _ => (quiets_removeStagedOutput record).bind
        fun _ => quiets_pure _
    | abandoned => exact quiets_throw _

end Publish

/-! ## What the worker knows about the frames -/

/-- A batch of the spool has this identity and range. -/
def World.HasRange (w : World) (batchId : BatchId) (range : SpoolBatchRange) : Prop :=
  ∃ batch ∈ w.batches, batch.metadata.batchId = batchId ∧ batch.range = range

theorem World.HasRange.of_grows {batchId : BatchId} {range : SpoolBatchRange}
    (h : w.HasRange batchId range) (hgrows : Grows w w') : w'.HasRange batchId range := by
  obtain ⟨batch, hbatch, hrange⟩ := h
  exact ⟨batch, hgrows.mem_batches hbatch, hrange⟩

/-- The worker knows ranges of batches of the spool only. -/
structure Tracked (deployment : Deployment) (w : World) (worker : Worker) : Prop where
  spooled : Spooled deployment w
  idle : w.reclaiming = none
  reads : Reads deployment w worker.reader
  ranges : ∀ batchId range, worker.ranges batchId = some range → w.HasRange batchId range
  pending : ∀ requirements ∈ worker.pending,
    w.HasRange requirements.batchId requirements.spoolRange

/-- Everything holds of the spool and the log in the end. -/
def Spools (deployment : Deployment) (_ w' : World) : Prop := Spooled deployment w'

instance : IsTrans World (Spools deployment) where
  trans _ _ _ _ h := h

variable {worker : Worker} {rounds : Nat}

/-- What the worker knows still holds behind appends. -/
theorem Tracked.quiet (h : Tracked deployment w worker) (hquiet : Quiet deployment w w') :
    Tracked deployment w' worker where
  spooled := hquiet.1
  idle := hquiet.2.reclaiming.trans h.idle
  reads := h.reads.of_grows hquiet.2.toGrows
  ranges batchId range hrange := (h.ranges batchId range hrange).of_grows hquiet.2.toGrows
  pending requirements hmem := (h.pending requirements hmem).of_grows hquiet.2.toGrows

/-- A step that leaves the spool and the log alone. -/
theorem Tracked.bind_quiets {x : Program α} (h : Tracked deployment w worker)
    (hx : Quiets deployment x)
    (hf : ∀ a t, Tracked deployment t worker → Keeps (Spools deployment) (f a) Q t) :
    Keeps (Spools deployment) (x >>= f) Q w :=
  ((hx w h.spooled).weaken fun _ ht => ht.1).bind fun a t _ ht => hf a t (h.quiet ht.1)

theorem Tracked.bind_raise {x : Except IngestionProcessingError α} (h : Tracked deployment w worker)
    (hf : ∀ a, x = .ok a → Keeps (Spools deployment) (f a) Q w) :
    Keeps (Spools deployment) (Deployment.raise x >>= f) Q w := by
  refine (keeps_raise (G := Spools deployment) h.spooled x).bind fun a t _ ht => ?_
  obtain ⟨hx, rfl⟩ := ht
  exact hf a hx

/-! ## Outputs -/

/-- A record is logged about batches that the worker has ranges of. -/
theorem Tracked.keeps_record (h : Tracked deployment w worker)
    (hcovers : ∀ item ∈ record.coverage, worker.ranges item.batchId = some item.spoolRange) :
    Keeps (Spools deployment) (deployment.record record)
      (fun _ u => Tracked deployment u worker) w := by
  refine h.spooled.keeps_operate (G := Spools deployment) (fun _ _ ht => ht.1)
    fun choice t hquiet _ u heffect => ?_
  have ht := h.quiet hquiet
  obtain ⟨_, -, heffect⟩ := bind_eq_ok.mp heffect
  dsimp only at heffect
  split_ifs at heffect
  · cases heffect
    exact ⟨ht.spooled, ht⟩
  · obtain ⟨_, -, heffect⟩ := bind_eq_ok.mp heffect
    obtain ⟨_, -, heffect⟩ := bind_eq_ok.mp heffect
    cases heffect
    have hafter : Spooled deployment { t with
        log := (t.log.filter fun other => other.id ≠ record.id).orderedInsert
          Deployment.recordLe record
        history := t.history ++ [record] } := by
      have hframed := ht.spooled.toFramed
      refine ⟨⟨hframed.nodup, hframed.limit, hframed.capacity, hframed.boundary⟩,
        fun other hother => ?_, fun bytes frames hbytes => ?_⟩
      · rcases (mem_orderedInsert _).mp hother with rfl | hother
        · exact Or.inl fun item hitem => ht.ranges _ _ (hcovers item hitem)
        · exact ht.spooled.logged other (mem_filter.mp hother).1
      · cases ht.idle.symm.trans hbytes
    exact ⟨hafter, hafter, ht.idle, ht.reads.of_grows ⟨rfl, rfl, prefix_rfl⟩, ht.ranges,
      ht.pending⟩

section Outputs

variable [ParquetFile] [SerdeDocument] [UuidCrate]

/-- The publication of a new output. -/
theorem Tracked.keeps_publishNew (h : Tracked deployment w worker)
    (hcovers : ∀ item ∈ record.coverage, worker.ranges item.batchId = some item.spoolRange) :
    Keeps (Spools deployment) (deployment.publishNew rounds worker record)
      (fun after u => Tracked deployment u after) w := by
  refine (h.keeps_record hcovers).bind fun _ t _ ht => ?_
  refine ht.bind_quiets (quiets_publishRecord record rounds) fun published u hu => ?_
  exact .pure hu.spooled { hu with }

/-- A sealed segment covers batches that the worker has ranges of. -/
theorem Tracked.keeps_publishSegment {segment : SealedSegment} (h : Tracked deployment w worker) :
    Keeps (Spools deployment) (deployment.publishSegment rounds worker segment)
      (fun after u => Tracked deployment u after) w := by
  have hwrite : ∀ key schema,
      Quiets deployment (deployment.writeParquetSegment key schema segment) := by
    refine fun key schema => quiets_operate fun choice t a u heffect => ?_
    obtain ⟨bytes, -, heffect⟩ := bind_eq_ok.mp heffect
    obtain ⟨_, -, heffect⟩ := bind_eq_ok.mp heffect
    obtain ⟨_, -, heffect⟩ := bind_eq_ok.mp heffect
    obtain ⟨_, -, heffect⟩ := bind_eq_ok.mp heffect
    cases heffect
    rfl
  refine h.bind_quiets quiets_get fun seen t ht => ?_
  refine ht.bind_raise fun schema _ => ?_
  refine ht.bind_quiets quiets_newIdentity fun segmentId t ht => ?_
  refine ht.bind_quiets quiets_newIdentity fun objectId t ht => ?_
  refine ht.bind_quiets (hwrite _ schema) fun object t ht => ?_
  refine ht.bind_raise fun times _ => ?_
  refine ht.bind_raise fun registration _ => ?_
  refine ht.bind_raise fun coverage hcoverage => ?_
  refine ht.bind_quiets quiets_newIdentity fun recoveryId t ht => ?_
  refine ht.bind_raise fun record hrecord => ?_
  obtain ⟨-, -, -, hperm⟩ := OutputRecoveryRecord.segment_eq_ok (mapError_eq_ok.mp hrecord)
  exact ht.keeps_publishNew fun item hitem =>
    (segmentCoverage_eq_ok hcoverage).1 item (hperm.subset hitem)

theorem Tracked.keeps_drainSealedSegments (h : Tracked deployment w worker) :
    Keeps (Spools deployment) (deployment.drainSealedSegments rounds worker)
      (fun after u => Tracked deployment u after) w := by
  refine Keeps.loop (fun worker t => Tracked deployment t worker) (fun worker t _ ht => ?_)
    rounds h.spooled h
  refine ht.bind_raise fun result _ => ?_
  obtain ⟨segment, builders⟩ := result
  have hbuilders : Tracked deployment t { worker with builders } :=
    { ht with }
  cases segment with
  | none => exact .pure ht.spooled hbuilders
  | some segment =>
    exact hbuilders.keeps_publishSegment.bind fun after u hu hafter => .pure hu hafter

/-- Recovered outputs are published without a look at the spool. -/
theorem Tracked.keeps_recoverOutputs (h : Tracked deployment w worker)
    (records : List OutputRecoveryRecord) :
    Keeps (Spools deployment) (deployment.recoverOutputs rounds records worker)
      (fun after u => Tracked deployment u after) w := by
  have hresumable : Quiets deployment (deployment.resumableRecords rounds records) := by
    refine Quiets.foldlM (fun resumable record => ?_) records []
    refine (quiets_recoveryDisposition record rounds).bind fun disposition => ?_
    cases disposition <;> exact quiets_pure _
  refine h.bind_quiets hresumable fun resumable t ht => ?_
  refine ht.bind_quiets (quiets_transact.untilAvailable rounds) fun _ u hu => ?_
  refine Keeps.foldlM (fun after _ v => Tracked deployment v after)
    (fun after record _ v _ hv => ?_) hu.spooled hu
  refine hv.bind_quiets (quiets_publishRecord record rounds) fun published x hx => ?_
  refine hx.bind_raise fun coverage _ => ?_
  exact .pure hx.spooled { hx with }

variable [SerdeJson]

/-- So does a dead-letter object, of one batch. -/
theorem Tracked.keeps_stageDeadLetter {summary : SegmentBuildSummary}
    (h : Tracked deployment w worker) :
    Keeps (Spools deployment) (deployment.stageDeadLetter rounds worker summary)
      (fun after u => Tracked deployment u after) w := by
  have hstage : ∀ key entries, Quiets deployment (deployment.stageDeadLetters key entries) := by
    refine fun key entries => quiets_operate fun choice t a u heffect => ?_
    obtain ⟨bytes, -, heffect⟩ := bind_eq_ok.mp heffect
    obtain ⟨_, -, heffect⟩ := bind_eq_ok.mp heffect
    cases heffect
    rfl
  unfold Deployment.stageDeadLetter
  by_cases hempty : summary.deadLetters = []
  · rw [if_pos hempty]
    exact .pure h.spooled h
  · rw [if_neg hempty, Deployment.stagedDeadLetter]
    simp only [bind_assoc]
    refine h.bind_raise fun range hrange => ?_
    refine h.bind_raise fun coverage hcoverage => ?_
    refine h.bind_quiets quiets_newIdentity fun objectId t ht => ?_
    refine ht.bind_quiets (hstage _ _) fun object t ht => ?_
    refine ht.bind_raise fun registration _ => ?_
    refine ht.bind_quiets quiets_newIdentity fun recoveryId t ht => ?_
    refine ht.bind_raise fun record hrecord => ?_
    obtain ⟨-, -, -, hitems⟩ := OutputRecoveryRecord.deadLetter_eq_ok (mapError_eq_ok.mp hrecord)
    obtain ⟨hbatch, hspool, -⟩ := BatchPositionCoverage.new_eq_ok (mapError_eq_ok.mp hcoverage)
    refine ht.keeps_publishNew fun item hitem => ?_
    rw [hitems, mem_singleton] at hitem
    rw [hitem, hbatch, hspool]
    exact okOr_eq_ok hrange

variable [Layout]

theorem Tracked.keeps_pushCandidate {candidate : NormalizedBatch}
    (h : Tracked deployment w worker) :
    Keeps (Spools deployment) (deployment.pushCandidate rounds worker candidate)
      (fun after u => Tracked deployment u after) w := by
  refine Keeps.loop (fun state t => Tracked deployment t state.1) (fun state t _ ht => ?_)
    rounds h.spooled h
  obtain ⟨worker, candidate⟩ := state
  refine ht.bind_quiets (quiets_nextChoice.bind fun _ => quiets_pure _) fun now t ht => ?_
  refine ht.bind_raise fun result _ => ?_
  obtain ⟨outcome, builders⟩ := result
  have hbuilders : Tracked deployment t { worker with builders } :=
    { ht with }
  cases outcome with
  | accepted summary =>
    exact hbuilders.keeps_stageDeadLetter.bind fun after u hu hafter => .pure hu hafter
  | deferred candidate _ =>
    exact hbuilders.keeps_drainSealedSegments.bind fun after u hu hafter => .pure hu hafter

variable [ChronoText] [FloatText] [Base64]

/-- A batch that was read is a batch of the spool, so its range may be remembered. -/
theorem Tracked.keeps_processBatch {batch : RecoveredBatch} (h : Tracked deployment w worker)
    (hbatch : batch ∈ w.batches) :
    Keeps (Spools deployment) (deployment.processBatch rounds worker batch)
      (fun after u => Tracked deployment u after) w := by
  refine (Keeps.bind (x := get) (P := fun _ t => t = w) ⟨h.spooled, rfl⟩ fun seen t _ hsame => ?_)
  subst hsame
  refine h.bind_raise fun source _ => ?_
  refine h.bind_raise fun normalized hnormalized => ?_
  refine h.bind_raise fun requirements hrequirements => ?_
  refine h.bind_raise fun _ hnew => ?_
  obtain ⟨hmetadata, -⟩ := positions_normalizeRecords (mapError_eq_ok.mp hnormalized)
  obtain ⟨hid, hrange, -⟩ :=
    BatchOutputRequirements.fromNormalized_eq_ok (mapError_eq_ok.mp hrequirements)
  refine Tracked.keeps_pushCandidate ⟨h.spooled, h.idle, h.reads, fun batchId range hknown => ?_,
    fun other hother => ?_⟩
  · dsimp only at hknown
    by_cases heq : batchId = batch.metadata.batchId
    · rw [heq, Function.update_self] at hknown
      exact ⟨batch, hbatch, heq.symm, Option.some.inj hknown⟩
    · rw [Function.update_of_ne heq] at hknown
      exact h.ranges batchId range hknown
  · rcases mem_append.mp hother with hother | hother
    · exact h.pending other hother
    · rw [mem_singleton.mp hother, hid, hmetadata, hrange]
      exact ⟨batch, hbatch, rfl, rfl⟩

end Outputs

/-! ## The checkpoint -/

/-- The checkpoint may move to the end of a frame. -/
theorem Spooled.moveCheckpoint (h : Spooled deployment w)
    (hboundary : ∃ front, front <+: w.frames ∧ checkpoint.position = framesBytes front) :
    Spooled deployment { w with checkpoint } :=
  ⟨⟨h.nodup, h.limit, h.capacity, hboundary⟩, h.logged, h.reclaims⟩

theorem Tracked.moveCheckpoint (h : Tracked deployment w worker)
    (hboundary : ∃ front, front <+: w.frames ∧ checkpoint.position = framesBytes front) :
    Tracked deployment { w with checkpoint } worker :=
  ⟨h.spooled.moveCheckpoint hboundary, h.idle, h.reads.of_grows ⟨rfl, rfl, prefix_rfl⟩,
    h.ranges, h.pending⟩

/-- The checkpoint moves to the end of a pending batch. -/
theorem Tracked.keeps_advanceSpool (h : Tracked deployment w worker) {plan : CheckpointPlan}
    (hplan : planCheckpoint w.checkpoint worker.pending worker.published = .ok (some plan)) :
    Keeps (Spools deployment) (deployment.advanceSpool plan)
      (fun _ u => Tracked deployment u worker ∧ u.checkpoint = plan.target) w := by
  refine h.spooled.keeps_operate (G := Spools deployment) (fun _ _ ht => ht.1)
    fun choice t hquiet _ u heffect => ?_
  have ht := h.quiet hquiet
  obtain ⟨_, -, heffect⟩ := bind_eq_ok.mp heffect
  obtain ⟨_, -, heffect⟩ := bind_eq_ok.mp heffect
  cases heffect
  obtain ⟨-, -, -, hplan⟩ := planCheckpoint_eq_ok.mp hplan
  rw [planTo] at hplan
  split_ifs at hplan with hempty
  obtain rfl := Option.some.inj hplan
  -- the target is the end of a pending batch
  have hboundary : ∃ front, front <+: t.frames ∧
      endOf w.checkpoint.position (coveredBatches worker.pending worker.published) =
        framesBytes front := by
    rcases endOf_eq_or_mem w.checkpoint.position (coveredBatches worker.pending worker.published)
      with ⟨hnil, -⟩ | ⟨requirements, hmem, heq⟩
    · exact absurd hnil hempty
    · obtain ⟨batch, hbatch, -, hrange⟩ :=
        ht.pending requirements (takeWhile_subset _ hmem)
      obtain ⟨front, metadata, body, hfront, rfl⟩ := mem_batchesAt.mp hbatch
      refine ⟨_, hfront, heq.trans ?_⟩
      rw [← hrange, stop_batchAt, framesBytes_append, framesBytes_singleton, Nat.zero_add]
  have hafter := ht.moveCheckpoint hboundary
  exact ⟨hafter.spooled, hafter, rfl⟩

/-- The worker forgets the batches before the checkpoint. -/
theorem Tracked.complete (h : Tracked deployment w worker) (target : SpoolCheckpoint) :
    Tracked deployment w (worker.complete target) := by
  refine ⟨h.spooled, h.idle, h.reads, fun batchId range hrange => ?_,
    fun requirements hmem => h.pending requirements (dropWhile_subset _ hmem)⟩
  unfold Worker.complete at hrange
  dsimp only at hrange
  split_ifs at hrange
  exact h.ranges batchId range hrange

/-- A record about a frame that is truncated ends within the truncated bytes, one about an older
frame shares no batch with the frames. -/
theorem Spooled.truncate (h : Spooled deployment w) (hcheckpoint : w.checkpoint.position = 0) :
    Spooled deployment { w with
      frames := [], generation := w.generation + 1, retired := w.retired ++ w.frames
      reclaiming := some (w.committedBytes, w.frames) } := by
  have hnodup := h.nodup
  rw [batchIds, World.spooled, map_append, nodup_append] at hnodup
  refine ⟨⟨?_, by simp, Nat.zero_le _, [], prefix_rfl, hcheckpoint⟩, fun record hrecord => ?_,
    fun bytes frames heq record hrecord => ?_⟩
  · rw [World.spooled, append_nil]
    exact h.nodup
  · refine Or.inr fun item hitem => ?_
    rw [batchIds, map_append]
    rcases h.logged record hrecord with hcovers | hcovers
    · obtain ⟨batch, hbatch, hid, -⟩ := hcovers item hitem
      exact mem_append_right _ (hid ▸ mem_map_of_mem (mem_frames_of_mem_batches hbatch))
    · exact mem_append_left _ (hcovers item hitem)
  · obtain ⟨rfl, rfl⟩ := Prod.mk.inj (Option.some.inj heq)
    rcases h.logged record hrecord with hcovers | hcovers
    · refine Or.inr fun item hitem => ?_
      obtain ⟨batch, hbatch, -, hrange⟩ := hcovers item hitem
      have := stop_le_of_mem_batchesAt hbatch
      rwa [Nat.zero_add, length_framesOf, hrange] at this
    · exact Or.inl fun item hitem hin => hnodup.2.2 _ (hcovers item hitem) _ hin rfl

/-- What the worker is left with when all frames are truncated. -/
structure Truncated (deployment : Deployment) (w : World) (worker : Worker) : Prop where
  spooled : Spooled deployment w
  bodyLimit : worker.reader.bodyLimit = deployment.spool.bodyLimit
  generation_lt : worker.reader.generation < w.generation
  pending : worker.pending = []

/-- Frames are truncated when the checkpoint is behind all of them, and no batch is pending then. -/
theorem Tracked.keeps_reclaimCheckpointed (h : Tracked deployment w worker)
    (hcompleted : ∀ requirements ∈ worker.pending.head?,
      ¬ requirements.spoolRange.stop ≤ w.checkpoint.position) :
    Keeps (Spools deployment) deployment.reclaimCheckpointed
      (fun reclaimed u => if reclaimed.isSome then Truncated deployment u worker
        else Tracked deployment u worker) w := by
  have hreset : Keeps (Spools deployment) deployment.resetCheckpoint
      (fun reclaimed u => ∃ t, Quiet deployment w t ∧
        if reclaimed.isSome then
          t.checkpoint.position = t.committedBytes ∧ u = { t with checkpoint := .initial }
        else u = t) w := by
    refine h.spooled.keeps_operate (G := Spools deployment) (fun _ _ ht => ht.1)
      fun choice t hquiet _ u heffect => ?_
    split_ifs at heffect with hnot
    · cases heffect
      exact ⟨hquiet.1, t, hquiet, rfl⟩
    · cases heffect
      refine ⟨hquiet.1.moveCheckpoint ⟨[], nil_prefix, rfl⟩, t, hquiet, ?_⟩
      rw [Option.isSome_some, if_pos rfl]
      exact ⟨by tauto, rfl⟩
  refine hreset.bind fun reclaimed u hu ht => ?_
  obtain ⟨t, hquiet, ht⟩ := ht
  have htracked := h.quiet hquiet
  cases reclaimed with
  | none => exact .pure hu (ht ▸ htracked)
  | some reclaimedBytes =>
    rw [Option.isSome_some, if_pos rfl] at ht
    obtain ⟨hcheckpoint, rfl⟩ := ht
    rw [← hquiet.2.checkpoint, hcheckpoint] at hcompleted
    have hpending : worker.pending = [] := by
      cases hlist : worker.pending with
      | nil => rfl
      | cons requirements rest =>
        obtain ⟨batch, hbatch, -, hrange⟩ :=
          htracked.pending requirements (hlist ▸ mem_cons_self)
        have hstop := stop_le_of_mem_batchesAt hbatch
        rw [Nat.zero_add, length_framesOf, hrange] at hstop
        refine absurd hstop (hcompleted requirements ?_)
        rw [hlist]
        rfl
    have htruncate : Keeps (Spools deployment) Deployment.truncate
        (fun _ v => Truncated deployment v worker) { t with checkpoint := .initial } := by
      have hinitial : Spooled deployment { t with checkpoint := .initial } := hu
      refine (hinitial.keeps_nextChoice.weaken fun _ hv => hv.1).bind fun choice v _ hv => ?_
      obtain ⟨⟨hspooled, -⟩, choices, rfl⟩ := hv
      refine keeps_perform (G := Spools deployment) hspooled fun _ u heffect => ?_
      cases heffect
      have hafter := hspooled.truncate rfl
      exact ⟨hafter, hafter, htracked.reads.bodyLimit,
        Nat.lt_succ_of_le htracked.reads.generation_le, hpending⟩
    exact htruncate.bind fun _ v hv hafter => .pure hv hafter

/-- The log is emptied, and nothing is known about frames. -/
theorem Truncated.keeps_reclaimLog (h : Truncated deployment w worker)
    (hstate : worker.reader.state ≠ .readingRecovery) (reclaimedBytes : Nat) :
    Keeps (Spools deployment) (deployment.reclaimLog reclaimedBytes)
      (fun _ u => Tracked deployment u
        { worker with published := [], recoveredCoverage := [], ranges := fun _ => none }) w := by
  refine h.spooled.keeps_operate (G := Spools deployment) (fun _ _ ht => ht.1)
    fun choice t hquiet _ u heffect => ?_
  obtain ⟨log, hlog, heffect⟩ := bind_eq_ok.mp heffect
  cases heffect
  obtain ⟨_, -, hlog⟩ := bind_eq_ok.mp (mapError_eq_ok.mp hlog)
  cases hlog
  have hframed := hquiet.1.toFramed
  have hafter : Spooled deployment { t with log := [], reclaiming := none } :=
    ⟨⟨hframed.nodup, hframed.limit, hframed.capacity, hframed.boundary⟩,
      fun _ hrecord => (by cases hrecord), fun _ _ hbytes => by cases hbytes⟩
  have hgeneration : worker.reader.generation < t.generation :=
    hquiet.2.generation ▸ h.generation_lt
  exact ⟨hafter, hafter, rfl, ⟨h.bodyLimit, hgeneration.le,
    ⟨[], nil_prefix, if_neg hgeneration.ne⟩, fun hother => absurd hother hstate⟩,
    fun _ _ hrange => (by cases hrange), by simp [h.pending]⟩

/-- The checkpoint, the truncation and the reclamation in one. -/
theorem Tracked.keeps_advanceCheckpoint (h : Tracked deployment w worker)
    (hstate : worker.reader.state ≠ .readingRecovery) :
    Keeps (Spools deployment) (deployment.advanceCheckpoint worker)
      (fun after u => Tracked deployment u after) w := by
  refine Keeps.bind (x := get) (P := fun seen t => seen = w ∧ t = w) ⟨h.spooled, rfl, rfl⟩
    fun seen t _ hsame => ?_
  obtain ⟨rfl, rfl⟩ := hsame
  refine h.bind_raise fun plan hplan => ?_
  cases plan with
  | none => exact .pure h.spooled h
  | some plan =>
    refine (h.keeps_advanceSpool (mapError_eq_ok.mp hplan)).bind fun _ u _ hu => ?_
    obtain ⟨hu, htarget⟩ := hu
    rw [← htarget]
    refine ((hu.complete u.checkpoint).keeps_reclaimCheckpointed
      (worker.head_complete u.checkpoint)).bind fun reclaimed v hv hreclaimed => ?_
    cases reclaimed with
    | none => exact .pure hv hreclaimed
    | some reclaimedBytes =>
      have htruncated : Truncated deployment v (worker.complete u.checkpoint) := hreclaimed
      exact (htruncated.keeps_reclaimLog hstate reclaimedBytes).bind
        fun _ x hx hafter => .pure hx hafter

/-! ## The loop -/

/-- The reader gives a batch of the spool. -/
theorem Tracked.keeps_nextBatch (h : Tracked deployment w worker) :
    Keeps (Spools deployment) (deployment.nextBatch worker.reader)
      (fun result u => Tracked deployment u { worker with reader := result.1 } ∧
        result.2.elim (result.1.state ≠ .readingRecovery) fun batch => batch ∈ u.batches) w := by
  refine h.spooled.keeps_operate (G := Spools deployment) (fun _ _ ht => ht.1)
    fun choice t hquiet _ u heffect => ?_
  have ht := h.quiet hquiet
  cases hnext : worker.reader.nextBatch (framesOf t.frames) ⟨t.generation, t.committedBytes⟩ with
  | mk reader result =>
    rw [hnext] at heffect
    obtain ⟨batch, hresult, heffect⟩ := bind_eq_ok.mp heffect
    rw [mapError_eq_ok] at hresult
    subst hresult
    cases heffect
    obtain ⟨hreads, hstep⟩ := ht.reads.nextBatch hquiet.1.toFramed hnext
    refine ⟨hquiet.1, ⟨hquiet.1, ht.idle, hreads, ht.ranges, ht.pending⟩, ?_⟩
    cases hstep with
    | none _ hstate => exact hstate
    | some hmem _ _ => exact hmem

theorem Tracked.follow (h : Tracked deployment w worker) :
    Tracked deployment w { worker with reader := worker.reader.follow } :=
  ⟨h.spooled, h.idle, h.reads.follow, h.ranges, h.pending⟩

section Run

variable [SerdeJson] [ParquetFile] [SerdeDocument] [UuidCrate] [ChronoText] [FloatText] [Base64]
  [Layout]

/-- The rules of the loop of the worker. -/
theorem Tracked.loopRules :
    LoopRules deployment rounds (Spools deployment) (fun w worker => Tracked deployment w worker)
      (fun w _ batch => batch ∈ w.batches) where
  stays h := h.spooled
  follow h := h.follow
  expire h _ := { h with }
  nextChoice h := ((quiets_nextChoice _ h.spooled).weaken fun _ ht => ht.1).mono
    fun _ _ _ ht => h.quiet ht.1
  moves moves h := ((quiets_moves moves _ h.spooled).weaken fun _ ht => ht.1).mono
    fun _ _ _ ht => h.quiet ht.1
  nextBatch h := h.keeps_nextBatch
  processBatch h hgot := h.keeps_processBatch hgot
  drain h := h.keeps_drainSealedSegments
  advance h hstate := h.keeps_advanceCheckpoint hstate

/-! ## Sessions -/

/-- A process keeps what holds of the spool and the log, wherever it stops. -/
theorem Spooled.session (h : Spooled deployment w) (session : Session) :
    Spooled deployment (deployment.session w session) := by
  have hkeeps : Keeps (Spools deployment) (deployment.start session.rounds) (fun _ _ => True)
      (w.restart session) := by
    have hrestart : Spooled deployment (w.restart session) :=
      ⟨⟨h.nodup, h.limit, h.capacity, h.boundary⟩, h.logged, fun _ _ hbytes => by cases hbytes⟩
    refine Keeps.bind (P := fun seen t => seen = w.restart session ∧ t = w.restart session)
      ⟨hrestart, rfl, rfl⟩ fun seen t _ hsame => ?_
    obtain ⟨rfl, rfl⟩ := hsame
    have htracked : Tracked deployment (w.restart session)
        (deployment.newWorker (w.restart session)) := by
      obtain ⟨front, hfront, hposition⟩ := hrestart.boundary
      exact ⟨hrestart, rfl, ⟨rfl, Nat.zero_le _, ⟨front, hfront, (if_pos rfl).trans hposition⟩,
        fun _ => ⟨rfl, hrestart.checkpoint_le, _, prefix_rfl, rfl⟩⟩,
        fun _ _ hrange => (by cases hrange), fun _ hmem => by cases hmem⟩
    have hopen : Quiets deployment deployment.openLog := quiets_operate fun choice t a u heffect => by
      cases heffect
      rfl
    refine htracked.bind_quiets hopen fun records t ht => ?_
    exact (ht.keeps_recoverOutputs records).bind fun worker u _ hu => Tracked.loopRules.keeps_runLoop hu
  rw [Keeps, wp] at hkeeps
  rw [Deployment.session]
  cases hrun : deployment.start session.rounds (w.restart session) with
  | ok result after => exact result.elim
  | error stop after =>
    rw [hrun] at hkeeps
    exact hkeeps

/-- It holds in every state of every run. -/
theorem spooled_runSessions (catalog : List Source) (sessions : List Session) :
    Spooled deployment (deployment.runSessions catalog sessions) := by
  have hinitial : Spooled deployment (.initial catalog) :=
    ⟨framed_initial deployment catalog, by simp [World.initial], fun _ _ hbytes => by cases hbytes⟩
  unfold Deployment.runSessions
  generalize World.initial catalog = start at hinitial
  induction sessions generalizing start with
  | nil => exact hinitial
  | cons session rest ih => exact ih _ (hinitial.session session)

/-- Behind a truncation, the log is reclaimed iff what is left in it from older generations ends
within the truncated bytes. -/
theorem reclaimedLog_iff (catalog : List Source) (sessions : List Session) :
    let w := deployment.runSessions catalog sessions
    ∀ bytes frames, w.reclaiming = some (bytes, frames) →
      (Deployment.reclaimedLog w.log bytes = .ok [] ↔ ∀ record ∈ w.log,
        (∀ item ∈ record.coverage, item.batchId ∉ batchIds frames) →
          ∀ item ∈ record.coverage, item.spoolRange.stop ≤ bytes) := by
  intro w bytes frames hreclaiming
  have h : Spooled deployment w := spooled_runSessions catalog sessions
  have hok : Deployment.reclaimedLog w.log bytes = .ok [] ↔
      Deployment.ReclaimsWithin w.log bytes := by
    rw [Deployment.reclaimedLog, bind_eq_ok]
    exact ⟨fun ⟨_, hwithin, _⟩ => ensure_eq_ok.mp hwithin,
      fun hwithin => ⟨(), ensure_eq_ok.mpr hwithin, rfl⟩⟩
  rw [hok]
  refine ⟨fun hwithin record hrecord _ => hwithin record hrecord, fun hleft record hrecord => ?_⟩
  exact (h.reclaims bytes frames hreclaiming record hrecord).elim (hleft record hrecord) id

end Run

end Reclamation

section Sample

attribute [local instance] Chrono.unbounded Blake3.constant SerdeJson.plain ChronoText.silent
  FloatText.silent Base64.empty Layout.sample ParquetFile.tiny SerdeDocument.lenient
  UuidCrate.lenient

/-- A process stops between the truncation of a batch and the reclamation of the log. -/
def Session.interrupted : Session :=
  .sample [.append (BatchMetadata.sample 9) [0x78, 0x78]] 100 25

/-- The next process gets another batch. -/
def Session.next (body : Bytes) (operations : Nat) : Session :=
  .sample [.append (BatchMetadata.sample 10) body] 150 operations

/-- Where the next batch is larger, the log of two records is reclaimed. -/
theorem larger_reclaimedLog_iff :
    let w := (Deployment.sample withoutCleanup).runSessions [Source.sample]
      [Session.interrupted, Session.next [0x78, 0x78, 0x78] 28]
    w.reclaiming = some (199, [(BatchMetadata.sample 10, [0x78, 0x78, 0x78])]) ∧
      w.log.length = 2 ∧ Deployment.reclaimedLog w.log 199 = .ok [] := by
  intro w
  have hreclaiming : w.reclaiming = some (199, [(BatchMetadata.sample 10, [0x78, 0x78, 0x78])]) :=
    by decide +kernel
  exact ⟨hreclaiming, by decide +kernel,
    (reclaimedLog_iff [Source.sample] _ _ _ hreclaiming).mpr (by decide +kernel)⟩

/-- Where the next batch is smaller, the log is not reclaimed, and the worker stops. -/
theorem reclamation_conflicts :
    let deployment := Deployment.sample withoutCleanup
    let w := deployment.runSessions [Source.sample] [Session.interrupted]
    let after := deployment.session w (Session.next [0x78] 30)
    after.reclaiming.isSome ∧ after.log.length = 2 ∧
      deployment.stopOf w (Session.next [0x78] 30) = some (.failed (.recovery .conflict)) := by
  decide +kernel

end Sample

end Elucid
