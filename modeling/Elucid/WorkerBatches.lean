import Elucid.WorkerProcessing

/-!
# Batches become outputs

Each program from `process_batch` down keeps `Working`. A batch that was read gives what
recovery does not cover to the builders, or, where the builders have no room, only after
their sealed segments are published (`Working.keeps_processBatch`). Its dead letters and each
sealed segment are staged, recorded and published (`Working.keeps_stageDeadLetter`,
`Working.keeps_publishSegment`). Rows move from the builders to an output and are never
copied, since the builders keep them up to their order.
-/

namespace Elucid

open BigEndian Effect List

variable [Chrono] {deployment : Deployment} {w w' : World} {worker : Worker}
  {record : OutputRecoveryRecord} {rounds : Nat}
variable {key : ManagedObjectKey} {id : Uuid} {object : ObjectDescriptor} {segment : SealedSegment}

/-! ## Identities and staged files -/

/-- No record has this identity. -/
def Unused (w : World) (id : Uuid) : Prop :=
  id ∈ w.drawn ∧ ∀ record ∈ w.history, record.id.uuid ≠ id ∧ record.objectIdentity ≠ id ∧
    id ∉ record.output.segmentIds

/-- An unused identity is not used by others. -/
theorem Unused.extends {S : OutputRecoveryRecord → Prop} (h : Unused w id)
    (he : Extends deployment S w w') : Unused w' id :=
  ⟨he.drawn id h.1, fun record hrecord => h.2 record (he.history ▸ hrecord)⟩

/-- A dead-letter object is registered for its input and batch. -/
theorem deadLetterRegistration_eq_ok {metadata : BatchMetadata}
    {registration : DeadLetterDescriptor}
    (h : Deployment.deadLetterRegistration metadata object = .ok registration) :
    registration.inputId = metadata.catalog.inputId ∧ registration.batchId = metadata.batchId ∧
      registration.object = object := by
  unfold Deployment.deadLetterRegistration at h
  split at h
  · cases h
    exact ⟨rfl, rfl, rfl⟩
  · cases h

/-- The occurrences of the dead letters of a batch. -/
def SegmentBuildSummary.occurrences (summary : SegmentBuildSummary) : List (BatchId × Nat) :=
  summary.deadLetters.map fun entry => (summary.metadata.batchId, entry.location.inputPosition)

/-- The occurrences of the records of a batch. -/
def NormalizedBatch.occurrences (batch : NormalizedBatch) : List (BatchId × Nat) :=
  batch.records.map fun record => (batch.metadata.batchId, record.inputPosition)

/-- Each record of a batch is a row or a dead letter. -/
theorem perm_outcomes [SerdeJson] [Layout] (batch : NormalizedBatch) :
    ((SegmentBuilders.segmentRows batch).map (·.occurrence) ++
      (batch.deadLetters.map fun entry =>
        (batch.metadata.batchId, entry.location.inputPosition))).Perm batch.occurrences := by
  rw [SegmentBuilders.segmentRows, map_map, NormalizedBatch.acceptedRows,
    NormalizedBatch.deadLetters, NormalizedBatch.occurrences]
  induction batch.records with
  | nil => exact .refl _
  | cons record rest ih =>
    cases record with
    | accepted row => exact ih.cons _
    | deadLetter entry => exact perm_middle.trans (ih.cons _)

/-- A segment is registered under its identity. -/
theorem segmentRegistration_eq_ok {segmentId : SegmentId} {times : SegmentTimes}
    {registration : SegmentDescriptor}
    (h : Deployment.segmentRegistration segment segmentId times object = .ok registration) :
    registration.segmentId = segmentId ∧ registration.object = object := by
  unfold Deployment.segmentRegistration at h
  split_ifs at h
  cases h
  exact ⟨rfl, rfl⟩

/-- Rows are taken with their segment, and the others are kept. -/
theorem takeNextSealed_eq_ok {builders after : SegmentBuilders} {segment : Option SealedSegment}
    (h : builders.WellFormed) (htake : builders.takeNextSealed = .ok (segment, after)) :
    after.WellFormed ∧
      (after.occurrences ++ (segment.elim [] fun segment => segment.rows.map (·.occurrence))).Perm
        builders.occurrences := by
  have htakes := SegmentBuilders.takes_of_eq_ok h htake
  refine ⟨htakes.wellFormed h, ?_⟩
  cases htakes with
  | drained => rw [Option.elim, append_nil]
  | taken _ _ hkeyed =>
    have hperm := ((SegmentBuilders.rows_perm hkeyed).map (·.occurrence)).symm
    rw [SealedSegment.keyedRows, map_snd_underKey, map_append] at hperm
    exact perm_append_comm.trans hperm

variable [Blake3]

/-- An identity that is drawn is not used. -/
theorem keeps_newIdentity (h : Sound deployment w) :
    Keeps (Still deployment) Deployment.newIdentity (fun id u => Unused u id.uuid) w := by
  rw [Keeps, Deployment.newIdentity, wp_bind, wp, Deployment.nextChoice]
  cases w.choices.head with
  | none => exact h.still_self
  | some choice =>
    obtain ⟨hsound, hmoved⟩ := h.moved_choices w.choices.tail
    dsimp only
    rw [wp_bind, wp_get]
    split_ifs with hdrawn
    · exact ⟨hsound, hmoved⟩
    · have hkept : Kept deployment (fun _ => False) w
          { w with choices := w.choices.tail, drawn := choice.identity.uuid :: w.drawn } :=
        h.kept_unnoticed ⟨rfl, rfl, rfl, rfl, rfl, fun _ => mem_cons_of_mem _, rfl⟩
          rfl rfl rfl fun _ _ => rfl
      refine ⟨⟨hkept.1, hkept.2, rfl, fun _ _ _ hstate _ _ => hstate⟩, mem_cons_self,
        fun record hrecord => ?_⟩
      obtain ⟨hid, hobject, hsegments⟩ := h.drawn record hrecord
      exact ⟨fun heq => hdrawn (heq ▸ hid), fun heq => hdrawn (heq ▸ hobject),
        fun hmem => hdrawn (hsegments _ hmem)⟩

/-- A file under an identity that no record has is not noticed. -/
theorem Sound.kept_stage (h : Sound deployment w) (hunused : Unused w id) (bytes : Bytes) :
    Kept deployment (fun _ => False) w
      { w with staged := Function.update w.staged id (some bytes) } :=
  h.kept_unnoticed ⟨rfl, rfl, rfl, rfl, rfl, fun _ hdrawn => hdrawn, rfl⟩ rfl rfl rfl
    fun record hrecord => Function.update_of_ne (hunused.2 record hrecord).2.1 _ _

theorem keeps_stageDeadLetters [SerdeJson]
    (h : Sound deployment w) (hunused : Unused w key.objectId) (entries : List DeadLetterEntry) :
    Keeps (Kept deployment fun _ => False) (deployment.stageDeadLetters key entries)
      (fun object _ => object.key = key) w := by
  refine keeps_operate h (fun _ _ => Still.kept) fun choice t hsound hmoved _ u heffect => ?_
  obtain ⟨bytes, -, heffect⟩ := bind_eq_ok.mp heffect
  obtain ⟨_, -, heffect⟩ := bind_eq_ok.mp heffect
  cases heffect
  exact ⟨hsound.kept_stage (hunused.extends hmoved.extended) bytes, rfl⟩

theorem keeps_writeParquetSegment [ParquetFile] (h : Sound deployment w)
    (hunused : Unused w key.objectId) (schema : Catalog.Schema) (segment : SealedSegment) :
    Keeps (Kept deployment fun _ => False) (deployment.writeParquetSegment key schema segment)
      (fun object _ => object.key = key) w := by
  refine keeps_operate h (fun _ _ => Still.kept) fun choice t hsound hmoved _ u heffect => ?_
  obtain ⟨bytes, -, heffect⟩ := bind_eq_ok.mp heffect
  obtain ⟨_, -, heffect⟩ := bind_eq_ok.mp heffect
  obtain ⟨_, -, heffect⟩ := bind_eq_ok.mp heffect
  obtain ⟨_, -, heffect⟩ := bind_eq_ok.mp heffect
  cases heffect
  exact ⟨hsound.kept_stage (hunused.extends hmoved.extended) bytes, rfl⟩

/-! ## Outputs -/

section Outputs

variable {extra : List (BatchId × Nat)} {batch : RecoveredBatch}

/-- A step of the worker that publishes nothing. -/
theorem Working.bind_kept {α β : Type} {x : Program α} {f : α → Program β}
    {G : World → World → Prop} {P : α → World → Prop} {Q : β → World → Prop}
    (h : Working deployment w worker extra) (hx : Keeps G x P w)
    (hG : ∀ t, G w t → Kept deployment (fun _ => False) w t)
    (hf : ∀ a t, Working deployment t worker extra → G w t → P a t →
      Keeps (Sounds deployment) (f a) Q t) :
    Keeps (Sounds deployment) (x >>= f) Q w :=
  (hx.weaken fun t ht => (hG t ht).1).bind fun a t _ ht => hf a t (h.kept (hG t ht.1)) ht.1 ht.2

/-- Rows may move between the builders and the hands of the worker. -/
theorem Working.rebuild {extra' : List (BatchId × Nat)} (h : Working deployment w worker extra)
    {builders : SegmentBuilders} (hbuilders : builders.WellFormed)
    (hperm : (builders.occurrences ++ extra').Perm (worker.builders.occurrences ++ extra)) :
    Working deployment w { worker with builders } extra' :=
  { h with
    builders := hbuilders
    nodup := hperm.nodup_iff.mpr h.nodup
    owns := fun occurrence hoccurrence => h.owns occurrence (hperm.subset hoccurrence) }

/-- A record of the dead letters of a batch, with new identities. -/
structure StagesDeadLetters (w : World) (worker : Worker) (summary : SegmentBuildSummary)
    (record : OutputRecoveryRecord) : Prop where
  fresh : Fresh w record
  holds : Working.Holds worker summary.occurrences record
  owner : record.output.databaseOwner =
    .deadLetter summary.metadata.catalog.inputId summary.metadata.batchId

/-- Staging publishes nothing. -/
theorem keeps_stagedDeadLetter [SerdeJson] (h : Sound deployment w)
    (summary : SegmentBuildSummary) :
    Keeps (Kept deployment fun _ => False) (deployment.stagedDeadLetter worker summary)
      (fun record u => StagesDeadLetters u worker summary record) w := by
  have hidentity : ∀ {t}, Sound deployment t → Keeps (Kept deployment fun _ => False)
      Deployment.newIdentity (fun id u => Unused u id.uuid) t := fun ht =>
    ((keeps_newIdentity ht).weaken fun _ => Still.kept).mono fun _ _ _ hu => hu.2
  refine (keeps_raise h.kept_self _).bind fun range t ht hrange => ?_
  refine (keeps_raise ht.1.kept_self _).bind fun coverage t ht hcoverage => ?_
  refine (hidentity ht.1).bind fun objectId t ht hobject => ?_
  refine (keeps_stageDeadLetters ht.1 hobject _).bind fun object t ht hkey => ?_
  have hobject := hobject.extends ht.2
  refine (keeps_raise ht.1.kept_self _).bind fun registration t ht hregistration => ?_
  have hobject := hobject.extends ht.2
  refine (hidentity ht.1).bind fun recoveryId t ht hrecovery => ?_
  have hobject := hobject.extends ht.2
  refine (keeps_raise ht.1.kept_self _).mono fun record u hu hrecord => ?_
  have hobject := hobject.extends hu.2
  have hrecovery := hrecovery.extends hu.2
  obtain ⟨hid, houtput, hfits, hitems⟩ :=
    OutputRecoveryRecord.deadLetter_eq_ok (mapError_eq_ok.mp hrecord.1)
  obtain ⟨hbatch, hspool, hpositions⟩ :=
    BatchPositionCoverage.new_eq_ok (mapError_eq_ok.mp hcoverage.1)
  obtain ⟨hinput, hregistered, hstaged⟩ := deadLetterRegistration_eq_ok hregistration.1
  have hidentity : record.objectIdentity = objectId.uuid := by
    rw [OutputRecoveryRecord.objectIdentity, houtput, RecoveryOutput.object, hstaged, hkey]
    rfl
  refine ⟨⟨hfits, fun other hother => ?_, ?_⟩, ⟨fun occurrence => ?_, fun item hitem => ?_⟩, ?_⟩
  · refine ⟨fun heq => (hrecovery.2 other hother).1 (by rw [heq, hid]), ?_, ?_⟩
    · rw [hidentity]
      exact (hobject.2 other hother).2.1
    · simp [houtput, RecoveryOutput.segmentIds]
  · rw [hid, hidentity, houtput]
    exact ⟨hrecovery.1, hobject.1, by simp [RecoveryOutput.segmentIds]⟩
  · rw [OutputRecoveryRecord.occurrences, hitems]
    simp [BatchPositionCoverage.occurrences, hbatch, hpositions, SegmentBuildSummary.occurrences]
  · rw [hitems, mem_singleton] at hitem
    rw [hitem, hbatch, hspool]
    exact okOr_eq_ok hrange.1
  · rw [houtput, RecoveryOutput.databaseOwner, hinput, hregistered]

/-- The records of a batch that recovery does not cover can be held. -/
theorem Working.hold [SerdeJson] [ChronoText] [FloatText] [Base64] {source : Source}
    {normalized : NormalizedBatch}
    {requirements : BatchOutputRequirements} (h : Working deployment w worker [])
    (hread : HasRead w worker.reader batch)
    (hrecovered : Recovered w worker.recoveredCoverage batch.metadata.batchId)
    (hnormalized : normalizeRecords batch.metadata batch.body source = .ok normalized)
    (hrequirements : BatchOutputRequirements.fromNormalized normalized batch.range =
      .ok requirements) (hnew : worker.ranges batch.metadata.batchId = none) :
    Working deployment w
      { worker with
        ranges := Function.update worker.ranges batch.metadata.batchId (some batch.range)
        pending := worker.pending ++ [requirements] }
      (normalized.removeCoveredPositions (recoveredPositions worker.recoveredCoverage
        batch.metadata.batchId)).occurrences := by
  obtain ⟨hmetadata, hpositions⟩ := positions_normalizeRecords hnormalized
  obtain ⟨hid, hrange, hrequired⟩ := BatchOutputRequirements.fromNormalized_eq_ok hrequirements
  set candidate := normalized.removeCoveredPositions
    (recoveredPositions worker.recoveredCoverage batch.metadata.batchId)
  have hcandidate : ∀ occurrence ∈ candidate.occurrences,
      occurrence.1 = batch.metadata.batchId ∧ occurrence.2 ∈ recordPositions batch.body ∧
        occurrence ∉ worker.recoveredCoverage := by
    intro occurrence hoccurrence
    obtain ⟨record, hrecord, rfl⟩ := mem_map.mp hoccurrence
    obtain ⟨hrecord, huncovered⟩ := mem_filter.mp hrecord
    rw [decide_eq_true_eq, mem_recoveredPositions] at huncovered
    refine ⟨congrArg (·.batchId) hmetadata, hpositions ▸ mem_map_of_mem hrecord, ?_⟩
    rwa [show candidate.metadata = batch.metadata from hmetadata]
  have hother : ∀ occurrence ∈ worker.builders.occurrences,
      occurrence.1 ≠ batch.metadata.batchId := by
    intro occurrence hoccurrence heq
    obtain ⟨_, -, -, -, hrange⟩ := (h.owns occurrence (mem_append_left _ hoccurrence)).read
    rw [heq, hnew] at hrange
    cases hrange
  have hnodup : candidate.occurrences.Nodup := by
    refine List.Nodup.of_map Prod.snd ?_
    rw [NormalizedBatch.occurrences, map_map]
    have hall : (normalized.records.map (·.inputPosition)).Nodup :=
      hpositions ▸ (pairwise_recordPositions batch.body).imp ne_of_lt
    exact hall.sublist (filter_sublist.map _)
  have hheld : worker.builders.occurrences.Nodup := by
    simpa using h.nodup
  refine { h with
    nodup := nodup_append.mpr ⟨hheld, hnodup, fun a ha b hb heq => ?_⟩
    owns := fun occurrence hoccurrence => ?_
    pending := fun other hmem => ?_ }
  · exact hother a ha (heq ▸ (hcandidate b hb).1)
  · rcases mem_append.mp hoccurrence with hmem | hmem
    · obtain ⟨hunpublished, other, hread', hid', hposition, hrange'⟩ :=
        h.owns occurrence (mem_append_left _ hmem)
      refine ⟨hunpublished, other, hread', hid', hposition, ?_⟩
      rw [← hrange']
      exact Function.update_of_ne (hother occurrence hmem) _ _
    · obtain ⟨heq, hposition, huncovered⟩ := hcandidate occurrence hmem
      refine ⟨fun record hrecord hcovered => huncovered (hrecovered record hrecord _ hcovered heq),
        batch, hread, heq.symm, hposition, ?_⟩
      rw [heq]
      exact Function.update_self _ _ _
  · rcases mem_append.mp hmem with hmem | hmem
    · exact h.pending other hmem
    · obtain rfl := mem_singleton.mp hmem
      exact ⟨batch, hread, hid.trans (congrArg (·.batchId) hmetadata), hrange,
        hrequired.trans hpositions⟩

variable [ParquetFile] [SerdeDocument] [UuidCrate]

/-- The rows of a segment leave the hands of the worker for the record of the segment. -/
theorem Working.keeps_publishSegment {rest : List (BatchId × Nat)}
    (h : Working deployment w worker (segment.rows.map (·.occurrence) ++ rest)) :
    Keeps (Sounds deployment) (deployment.publishSegment rounds worker segment)
      (fun after u => Working deployment u after rest) w := by
  refine h.bind_kept (x := get) (P := fun _ _ => True) ⟨h.sound.still_self, trivial⟩
    (fun _ => Still.kept) fun seen t ht _ _ => ?_
  refine ht.bind_kept (keeps_raise ht.sound.still_self _) (fun _ => Still.kept)
    fun schema t ht _ _ => ?_
  refine ht.bind_kept (keeps_newIdentity ht.sound) (fun _ => Still.kept)
    fun segmentId t ht _ hsegment => ?_
  refine ht.bind_kept (keeps_newIdentity ht.sound) (fun _ => Still.kept)
    fun objectId u hu hstill hobject => ?_
  have hsegment := hsegment.extends hstill.2.extended
  refine hu.bind_kept (keeps_writeParquetSegment hu.sound hobject schema segment)
    (fun _ => id) fun object t ht hkept hkey => ?_
  have hsegment := hsegment.extends hkept.2
  have hobject := hobject.extends hkept.2
  refine ht.bind_kept (keeps_raise ht.sound.still_self _) (fun _ => Still.kept)
    fun times u hu hstill _ => ?_
  have hsegment := hsegment.extends hstill.2.extended
  have hobject := hobject.extends hstill.2.extended
  refine hu.bind_kept (keeps_raise hu.sound.still_self _) (fun _ => Still.kept)
    fun registration t ht hstill hregistration => ?_
  have hsegment := hsegment.extends hstill.2.extended
  have hobject := hobject.extends hstill.2.extended
  refine ht.bind_kept (keeps_raise ht.sound.still_self _) (fun _ => Still.kept)
    fun coverage u hu hstill hcoverage => ?_
  have hsegment := hsegment.extends hstill.2.extended
  have hobject := hobject.extends hstill.2.extended
  refine hu.bind_kept (keeps_newIdentity hu.sound) (fun _ => Still.kept)
    fun recoveryId t ht hstill hrecovery => ?_
  have hsegment := hsegment.extends hstill.2.extended
  have hobject := hobject.extends hstill.2.extended
  refine ht.bind_kept (keeps_raise ht.sound.still_self _) (fun _ => Still.kept)
    fun record u hu hstill hrecord => ?_
  have hsegment := hsegment.extends hstill.2.extended
  have hobject := hobject.extends hstill.2.extended
  have hrecovery := hrecovery.extends hstill.2.extended
  obtain ⟨hid, houtput, hfits, hperm⟩ :=
    OutputRecoveryRecord.segment_eq_ok (mapError_eq_ok.mp hrecord.1)
  obtain ⟨hranges, hoccurrences⟩ := segmentCoverage_eq_ok hcoverage.1
  obtain ⟨hsegmentId, hregistered⟩ := segmentRegistration_eq_ok hregistration.1
  have hidentity : record.objectIdentity = objectId.uuid := by
    rw [OutputRecoveryRecord.objectIdentity, houtput, RecoveryOutput.object, hregistered, hkey]
    rfl
  have hids : record.output.segmentIds = [segmentId.uuid] := by
    rw [houtput, RecoveryOutput.segmentIds, hsegmentId]
  refine hu.keeps_publishNew ⟨hfits, fun other hother => ?_, ?_⟩
    ⟨fun occurrence => ?_, fun item hitem => hranges item (hperm.subset hitem)⟩ rounds
  · refine ⟨fun heq => (hrecovery.2 other hother).1 (by rw [heq, hid]), ?_, ?_⟩
    · rw [hidentity]
      exact (hobject.2 other hother).2.1
    · intro id hmem hin
      rw [hids, mem_singleton] at hin
      exact (hsegment.2 other hother).2.2 (hin ▸ hmem)
  · rw [hid, hidentity, hids]
    exact ⟨hrecovery.1, hobject.1, by simpa using hsegment.1⟩
  · rw [← hoccurrences, OutputRecoveryRecord.occurrences]
    exact (hperm.flatMap_right _).mem_iff

/-! ## Segments -/

/-- All sealed segments are published. -/
theorem Working.keeps_drainSealedSegments (h : Working deployment w worker extra) :
    Keeps (Sounds deployment) (deployment.drainSealedSegments rounds worker)
      (fun after u => Working deployment u after extra) w := by
  refine Keeps.loop (fun worker t => Working deployment t worker extra)
    (fun worker t _ ht => ?_) rounds h.sound h
  refine ht.bind_kept (keeps_raise ht.sound.still_self _) (fun _ => Still.kept)
    fun taken u hu _ htaken => ?_
  obtain ⟨segment, builders⟩ := taken
  obtain ⟨hwellFormed, hperm⟩ := takeNextSealed_eq_ok hu.builders (mapError_eq_ok.mp htaken.1)
  cases segment with
  | none =>
    refine .pure hu.sound (hu.rebuild hwellFormed ?_)
    rw [Option.elim, append_nil] at hperm
    exact hperm.append_right _
  | some segment =>
    have hheld : Working deployment u { worker with builders }
        (segment.rows.map (·.occurrence) ++ extra) := by
      refine hu.rebuild hwellFormed ?_
      rw [← append_assoc]
      exact hperm.append_right _
    exact hheld.keeps_publishSegment.bind fun after v hv hafter => .pure hv hafter

/-! ## Batches -/

variable [SerdeJson]

/-- The dead letters of a batch leave the hands of the worker. -/
theorem Working.keeps_stageDeadLetter
    {summary : SegmentBuildSummary} (h : Working deployment w worker summary.occurrences) :
    Keeps (Sounds deployment) (deployment.stageDeadLetter rounds worker summary)
      (fun after u => Working deployment u after []) w := by
  unfold Deployment.stageDeadLetter
  by_cases hempty : summary.deadLetters = []
  · rw [if_pos hempty]
    rw [SegmentBuildSummary.occurrences, hempty] at h
    exact .pure h.sound h
  · rw [if_neg hempty]
    refine h.bind_kept (keeps_stagedDeadLetter h.sound summary) (fun _ => id)
      fun record t ht _ hrecord => ?_
    have ht : Working deployment t worker (summary.occurrences ++ []) := by
      rwa [append_nil]
    exact ht.keeps_publishNew hrecord.fresh hrecord.holds rounds

variable [Layout]

/-- The rows of a batch go to the builders, and its dead letters to an output. -/
theorem Working.keeps_pushCandidate
    {candidate : NormalizedBatch} (h : Working deployment w worker candidate.occurrences) :
    Keeps (Sounds deployment) (deployment.pushCandidate rounds worker candidate)
      (fun after u => Working deployment u after []) w := by
  refine Keeps.loop (fun state t => Working deployment t state.1 state.2.occurrences)
    (fun state t _ ht => ?_) rounds h.sound h
  obtain ⟨worker, candidate⟩ := state
  refine ht.bind_kept ((keeps_nextChoice ht.sound).bind
    (Q := fun _ _ => True) fun _ u hu _ => .pure hu.1.still_self trivial) (fun _ => Still.kept)
    fun observedAt u hu _ _ => ?_
  refine hu.bind_kept (keeps_raise hu.sound.still_self _) (fun _ => Still.kept)
    fun pushed v hv _ hpushed => ?_
  obtain ⟨outcome, builders⟩ := pushed
  cases SegmentBuilders.pushed_of_pushBatch_eq_ok hv.builders (mapError_eq_ok.mp hpushed.1) with
  | accepted hmoves =>
    have hrows := hmoves.rows.map (·.occurrence)
    rw [map_append, SegmentBuilders.map_snd_batchRows] at hrows
    have hheld : Working deployment v { worker with builders } (SegmentBuildSummary.occurrences
        ⟨candidate.metadata, candidate.deadLetters, candidate.ignoredRecords⟩) := by
      refine hv.rebuild hmoves.wellFormed ((hrows.append_right _).trans ?_)
      rw [append_assoc]
      refine (perm_append_comm_assoc _ _ _).trans (List.Perm.append_left _ ?_)
      exact perm_outcomes candidate
    exact hheld.keeps_stageDeadLetter.bind fun after x hx hafter => .pure hx hafter
  | deferred _ hmoves =>
    have hrows : (builders.occurrences ++ candidate.occurrences).Perm
        (worker.builders.occurrences ++ candidate.occurrences) :=
      (hmoves.rows.map (·.occurrence)).append_right _
    exact ((hv.rebuild hmoves.wellFormed hrows).keeps_drainSealedSegments).bind
      fun after x hx hafter => .pure hx hafter

variable [ChronoText] [FloatText] [Base64]

/-- A batch that was read is turned into rows and dead letters. -/
theorem Working.keeps_processBatch
    (h : Working deployment w worker []) (hread : HasRead w worker.reader batch)
    (hrecovered : Recovered w worker.recoveredCoverage batch.metadata.batchId) :
    Keeps (Sounds deployment) (deployment.processBatch rounds worker batch)
      (fun after u => Working deployment u after []) w := by
  refine h.bind_kept (x := get) (P := fun _ t => t = w) ⟨h.sound.still_self, rfl⟩
    (fun _ => Still.kept) fun seen t ht _ hsame => ?_
  subst hsame
  refine ht.bind_kept (keeps_raise ht.sound.still_self _) (fun _ => Still.kept)
    fun source u hu _ hsource => ?_
  obtain ⟨-, rfl⟩ := hsource
  refine hu.bind_kept (keeps_raise hu.sound.still_self _) (fun _ => Still.kept)
    fun normalized v hv _ hnormalized => ?_
  obtain ⟨hnormalized, rfl⟩ := hnormalized
  refine hv.bind_kept (keeps_raise hv.sound.still_self _) (fun _ => Still.kept)
    fun requirements x hx _ hrequirements => ?_
  obtain ⟨hrequirements, rfl⟩ := hrequirements
  refine hx.bind_kept (keeps_raise hx.sound.still_self _) (fun _ => Still.kept)
    fun _ y hy _ hnew => ?_
  obtain ⟨hnew, rfl⟩ := hnew
  exact (hy.hold hread hrecovered (mapError_eq_ok.mp hnormalized)
    (mapError_eq_ok.mp hrequirements) (ensure_eq_ok.mp hnew)).keeps_pushCandidate

end Outputs

end Elucid
