import Elucid.SegmentMoves
import Elucid.WorkerOperations

/-!
# The worker between recovery and the next crash

`Working` is what holds while the worker reads batches. Every record is settled, and what the
worker has in its builders and in its hands (`held`) is not published, belongs to batches it
has read, and is there once. A batch it has not read is covered by outputs of earlier
processes only, and those are in the recovered coverage, so what is left of the batch can be
held (`Working.processBatch`).

An output that is recorded covers occurrences that were held, so it is disjoint from all
records that are not dead (`keeps_publishNew`).
-/

namespace Elucid

open BigEndian Effect List

variable [Chrono] {deployment : Deployment} {w w' : World} {reader : RecoveredBatches}
variable {batch : RecoveredBatch} {after : RecoveredBatches}
variable {a b : RecoveredBatch} {stop : Nat}

/-! ## Batches of the spool -/

@[simp] theorem framesBytes_append (front back : List (BatchMetadata × Bytes)) :
    framesBytes (front ++ back) = framesBytes front + framesBytes back := by
  simp [framesBytes]

@[simp] theorem framesBytes_singleton (metadata : BatchMetadata) (body : Bytes) :
    framesBytes [(metadata, body)] = storedLength body := by
  simp [framesBytes]

theorem framesBytes_mono {front frames : List (BatchMetadata × Bytes)}
    (h : front <+: frames) : framesBytes front ≤ framesBytes frames := by
  obtain ⟨back, rfl⟩ := h
  simp

/-- The spool has only grown. -/
structure Grows (w w' : World) : Prop where
  generation : w'.generation = w.generation
  retired : w'.retired = w.retired
  frames : w.frames <+: w'.frames

theorem Extends.grows {S : OutputRecoveryRecord → Prop} (h : Extends deployment S w w') :
    Grows w w' :=
  ⟨h.generation, h.retired, h.frames⟩

theorem Grows.trans {u : World} (h : Grows w w') (h' : Grows w' u) : Grows w u :=
  ⟨h'.generation.trans h.generation, h'.retired.trans h.retired, h.frames.trans h'.frames⟩

variable [Blake3]

/-- A batch of the spool is the one behind some of the frames. -/
theorem mem_batchesAt {start : Nat} {frames : List (BatchMetadata × Bytes)} :
    batch ∈ batchesAt start frames ↔ ∃ front metadata body, front ++ [(metadata, body)] <+: frames ∧
      batch = batchAt (start + framesBytes front) metadata body := by
  induction frames using List.reverseRecOn with
  | nil => simp
  | append_singleton frames frame ih =>
    obtain ⟨metadata, body⟩ := frame
    rw [batchesAt_append, mem_append, ih, length_framesOf]
    constructor
    · rintro (⟨front, m, b, hprefix, rfl⟩ | hlast)
      · exact ⟨front, m, b, hprefix.trans (prefix_append _ _), rfl⟩
      · exact ⟨frames, metadata, body, prefix_rfl, mem_singleton.mp hlast⟩
    · rintro ⟨front, m, b, hprefix, rfl⟩
      rcases prefix_concat_iff.mp hprefix with heq | hprefix
      · obtain ⟨rfl, hlast⟩ := append_inj' heq rfl
        obtain ⟨rfl, rfl⟩ := Prod.mk.inj (singleton_inj.mp hlast)
        exact Or.inr (mem_singleton.mpr rfl)
      · exact Or.inl ⟨front, m, b, hprefix, rfl⟩

theorem map_batchesAt (start : Nat) (frames : List (BatchMetadata × Bytes)) :
    (batchesAt start frames).map (fun batch => (batch.metadata, batch.body)) = frames := by
  induction frames generalizing start with
  | nil => rfl
  | cons frame rest ih =>
    rw [batchesAt, map_cons, ih]
    rfl

theorem mem_frames_of_mem_batches (h : batch ∈ w.batches) :
    (batch.metadata, batch.body) ∈ w.frames := by
  have hmem := mem_map_of_mem (f := fun batch => (batch.metadata, batch.body)) h
  rwa [World.batches, map_batchesAt] at hmem

theorem exists_batch_of_mem_frames {metadata : BatchMetadata} {body : Bytes}
    (h : (metadata, body) ∈ w.frames) :
    ∃ batch ∈ w.batches, batch.metadata = metadata ∧ batch.body = body := by
  rw [← map_batchesAt 0 w.frames] at h
  obtain ⟨batch, hbatch, heq⟩ := mem_map.mp h
  exact ⟨batch, hbatch, congrArg Prod.fst heq, congrArg Prod.snd heq⟩

/-- Two batches of the spool are the same, or one is before the other. -/
theorem batches_disjoint (ha : a ∈ w.batches) (hb : b ∈ w.batches) :
    a = b ∨ a.range.stop ≤ b.range.start ∨ b.range.stop ≤ a.range.start := by
  obtain ⟨front, metadata, body, hfront, rfl⟩ := mem_batchesAt.mp ha
  obtain ⟨front', metadata', body', hfront', rfl⟩ := mem_batchesAt.mp hb
  rcases prefix_or_prefix_of_prefix hfront hfront' with hle | hle
  · rcases prefix_concat_iff.mp hle with heq | hlt
    · obtain ⟨rfl, hlast⟩ := append_inj' heq rfl
      obtain ⟨rfl, rfl⟩ := Prod.mk.inj (singleton_inj.mp hlast)
      exact Or.inl rfl
    · have := framesBytes_mono hlt
      simp only [framesBytes_append, framesBytes_singleton] at this
      simp only [stop_batchAt, start_batchAt]
      omega
  · rcases prefix_concat_iff.mp hle with heq | hlt
    · obtain ⟨rfl, hlast⟩ := append_inj' heq rfl
      obtain ⟨rfl, rfl⟩ := Prod.mk.inj (singleton_inj.mp hlast)
      exact Or.inl rfl
    · have := framesBytes_mono hlt
      simp only [framesBytes_append, framesBytes_singleton] at this
      simp only [stop_batchAt, start_batchAt]
      omega

/-- A batch has one frame. -/
theorem Framed.batch_inj (h : Framed deployment w) (ha : a ∈ w.batches) (hb : b ∈ w.batches)
    (heq : a.metadata.batchId = b.metadata.batchId) : a = b := by
  have hnodup : (w.batches.map (·.metadata.batchId)).Nodup := by
    have hids : w.batches.map (·.metadata.batchId) = batchIds w.frames := by
      conv_rhs => rw [← map_batchesAt 0 w.frames]
      rw [batchIds, map_map]
      rfl
    rw [hids]
    exact List.Nodup.of_append_right
      (by simpa only [batchIds, World.spooled, map_append] using h.nodup)
  exact inj_on_of_nodup_map hnodup ha hb heq

/-- A batch of the spool was not truncated. -/
theorem Framed.not_retired (h : Framed deployment w) (hbatch : batch ∈ w.batches) :
    batch.metadata.batchId ∉ batchIds w.retired := by
  have hnodup := h.nodup
  rw [batchIds, World.spooled, map_append, nodup_append] at hnodup
  intro hretired
  exact hnodup.2.2 _ hretired _ (mem_map_of_mem (mem_frames_of_mem_batches hbatch)) rfl

/-! ## The reader -/

/-- How far the spool is read. -/
def RecoveredBatches.readTo (reader : RecoveredBatches) (w : World) : Nat :=
  if reader.generation = w.generation then reader.position else 0

/-- The reader stands between two frames. -/
structure Reads (deployment : Deployment) (w : World) (reader : RecoveredBatches) : Prop where
  bodyLimit : reader.bodyLimit = deployment.spool.bodyLimit
  generation_le : reader.generation ≤ w.generation
  boundary : ∃ front, front <+: w.frames ∧ reader.readTo w = framesBytes front
  recovery : reader.state = .readingRecovery → reader.generation = w.generation ∧
    reader.position ≤ reader.recoveredEnd ∧
      ∃ front, front <+: w.frames ∧ reader.recoveredEnd = framesBytes front

/-- The frame a boundary is before, and how it is read. -/
theorem Framed.readRecoveredBatch (h : Framed deployment w) {front : List (BatchMetadata × Bytes)}
    (hfront : front <+: w.frames) (hstop : ∃ later, later <+: w.frames ∧ stop = framesBytes later)
    (hlt : framesBytes front < stop) :
    ∃ metadata body, front ++ [(metadata, body)] <+: w.frames ∧
      framesBytes (front ++ [(metadata, body)]) ≤ stop ∧
      readRecoveredBatch (framesOf w.frames) (framesBytes front) stop
          deployment.spool.bodyLimit =
        .ok (batchAt (framesBytes front) metadata body,
          framesBytes (front ++ [(metadata, body)])) := by
  obtain ⟨later, hlater, rfl⟩ := hstop
  have hle : front <+: later :=
    (List.prefix_or_prefix_of_prefix hfront hlater).resolve_right fun hle =>
      absurd (framesBytes_mono hle) (Nat.not_le.mpr hlt)
  obtain ⟨rest, rfl⟩ := hle
  cases rest with
  | nil => simp at hlt
  | cons frame rest =>
    obtain ⟨metadata, body⟩ := frame
    obtain ⟨back, hframes⟩ := hlater
    have hprefix : front ++ [(metadata, body)] <+: w.frames :=
      ⟨rest ++ back, by simp [← hframes]⟩
    have hbytes : framesBytes (front ++ [(metadata, body)]) ≤
        framesBytes (front ++ (metadata, body) :: rest) :=
      framesBytes_mono ⟨rest, by simp⟩
    have hfits : framesBytes (front ++ [(metadata, body)]) < 2 ^ 64 :=
      ((framesBytes_mono hprefix).trans h.capacity).trans_lt deployment.spool.capacity.lt
    rw [framesBytes_append, framesBytes_singleton] at hbytes hfits
    refine ⟨metadata, body, hprefix, by simpa using hbytes, ?_⟩
    have hmem : (metadata, body) ∈ w.frames := hprefix.subset (by simp)
    have hread : Elucid.readRecoveredBatch
        (framesOf front ++ (frame metadata body ++ framesOf (rest ++ back)))
        (framesOf front).length (framesBytes (front ++ (metadata, body) :: rest))
        deployment.spool.bodyLimit =
          .ok (batchAt (framesOf front).length metadata body,
            (framesOf front).length + storedLength body) :=
      readRecoveredBatch_whole (by rwa [length_framesOf]) (h.limit _ hmem)
        (by rwa [length_framesOf])
    rw [length_framesOf] at hread
    rw [← hframes, append_assoc, framesOf_append, cons_append, framesOf_cons, hread]
    simp

/-- What `next_batch` returns. -/
inductive Reads.Next (w : World) (reader : RecoveredBatches) :
    RecoveredBatches → Option RecoveredBatch → Prop
  | none {after : RecoveredBatches} (h : after.readTo w = reader.readTo w)
    (hstate : after.state ≠ .readingRecovery) : Next w reader after none
  | some {after : RecoveredBatches} {batch : RecoveredBatch} (hmem : batch ∈ w.batches)
    (hstart : reader.readTo w = batch.range.start) (hstop : after.readTo w = batch.range.stop) :
    Next w reader after (some batch)

/-- The reader reads the next frame. -/
theorem Reads.readAt (h : Reads deployment w reader) (hframed : Framed deployment w)
    (hgeneration : reader.generation = w.generation)
    (hstop : ∃ later, later <+: w.frames ∧ stop = framesBytes later) (hle : reader.position ≤ stop)
    (hne : reader.position ≠ stop)
    (hrecovery : reader.state = .readingRecovery → stop = reader.recoveredEnd)
    {batch : Option RecoveredBatch}
    (hnext : reader.finishNext (readRecoveredBatch (framesOf w.frames) reader.position stop
      reader.bodyLimit) = (after, .ok batch)) :
    Reads deployment w after ∧ Reads.Next w reader after batch := by
  obtain ⟨front, hfront, hposition⟩ := h.boundary
  rw [RecoveredBatches.readTo, if_pos hgeneration] at hposition
  obtain ⟨metadata, body, hprefix, hbytes, hread⟩ :=
    hframed.readRecoveredBatch hfront hstop (hposition ▸ lt_of_le_of_ne hle hne)
  rw [h.bodyLimit, hposition, hread] at hnext
  obtain ⟨rfl, heq⟩ := Prod.mk.inj hnext
  obtain rfl := Except.ok.inj heq
  have hreadTo : ({ reader with position := framesBytes (front ++ [(metadata, body)]) } :
      RecoveredBatches).readTo w = framesBytes (front ++ [(metadata, body)]) :=
    if_pos hgeneration
  refine ⟨⟨h.bodyLimit, h.generation_le, ⟨_, hprefix, hreadTo⟩, fun hstate => ?_⟩, .some ?_ ?_ ?_⟩
  · obtain ⟨-, -, hend⟩ := h.recovery hstate
    exact ⟨hgeneration, hrecovery hstate ▸ hbytes, hend⟩
  · exact mem_batchesAt.mpr ⟨front, metadata, body, hprefix, by rw [Nat.zero_add]⟩
  · rw [RecoveredBatches.readTo, if_pos hgeneration, hposition, start_batchAt]
  · rw [hreadTo, stop_batchAt, framesBytes_append, framesBytes_singleton]

theorem Reads.nextBatch_following (h : Reads deployment w reader) (hframed : Framed deployment w)
    (hstate : reader.state = .following) (hgeneration : reader.generation = w.generation)
    {batch : Option RecoveredBatch}
    (hnext : reader.nextBatch (framesOf w.frames) ⟨w.generation, w.committedBytes⟩ =
      (after, .ok batch)) :
    Reads deployment w after ∧ Reads.Next w reader after batch := by
  simp only [RecoveredBatches.nextBatch, RecoveredBatches.beginNext, RecoveredBatches.readableEnd,
    hstate, hgeneration, ne_eq, not_true, if_false] at hnext
  by_cases hbehind : w.committedBytes < reader.position
  · simp only [hbehind, if_true] at hnext
    cases (Prod.mk.inj hnext).2
  · simp only [hbehind, if_false] at hnext
    by_cases hdone : reader.position = w.committedBytes
    · simp only [hdone, if_true, hstate] at hnext
      obtain ⟨rfl, heq⟩ := Prod.mk.inj hnext
      obtain rfl := Except.ok.inj heq
      exact ⟨h, .none rfl (by simp [hstate])⟩
    · simp only [hdone, if_false] at hnext
      exact h.readAt hframed hgeneration ⟨w.frames, prefix_rfl, rfl⟩ (Nat.not_lt.mp hbehind)
        hdone (fun hother => by cases hstate.symm.trans hother) hnext

/-- The reader goes from frame to frame. -/
theorem Reads.nextBatch (h : Reads deployment w reader) (hframed : Framed deployment w)
    {batch : Option RecoveredBatch}
    (hnext : reader.nextBatch (framesOf w.frames) ⟨w.generation, w.committedBytes⟩ =
      (after, .ok batch)) :
    Reads deployment w after ∧ Reads.Next w reader after batch := by
  cases hstate : reader.state with
  | recoveryComplete =>
    rw [RecoveredBatches.nextBatch, RecoveredBatches.beginNext, hstate] at hnext
    obtain ⟨rfl, heq⟩ := Prod.mk.inj hnext
    obtain rfl := Except.ok.inj heq
    exact ⟨h, .none rfl (by simp [hstate])⟩
  | failed =>
    rw [RecoveredBatches.nextBatch, RecoveredBatches.beginNext, hstate] at hnext
    cases (Prod.mk.inj hnext).2
  | readingRecovery =>
    obtain ⟨hgeneration, hle, hend⟩ := h.recovery hstate
    simp only [RecoveredBatches.nextBatch, RecoveredBatches.beginNext, hstate,
      RecoveredBatches.readableEnd] at hnext
    by_cases hdone : reader.position = reader.recoveredEnd
    · rw [if_pos hdone] at hnext
      obtain ⟨rfl, heq⟩ := Prod.mk.inj hnext
      obtain rfl := Except.ok.inj heq
      exact ⟨⟨h.bodyLimit, h.generation_le, h.boundary, fun hother => by cases hother⟩,
        .none rfl (by simp)⟩
    · rw [if_neg hdone] at hnext
      exact h.readAt hframed hgeneration hend hle hdone (fun _ => rfl) hnext
  | following =>
    by_cases hgeneration : reader.generation = w.generation
    · exact h.nextBatch_following hframed hstate hgeneration hnext
    · -- behind a truncation the reader starts again
      set current : RecoveredBatches := { reader with generation := w.generation, position := 0 }
      have hreadTo : current.readTo w = reader.readTo w := by
        rw [RecoveredBatches.readTo, RecoveredBatches.readTo, if_pos rfl, if_neg hgeneration]
      have hcurrent : Reads deployment w current :=
        ⟨h.bodyLimit, le_rfl, hreadTo ▸ h.boundary, fun hother => by cases hstate.symm.trans hother⟩
      have hsame : reader.nextBatch (framesOf w.frames) ⟨w.generation, w.committedBytes⟩ =
          current.nextBatch (framesOf w.frames) ⟨w.generation, w.committedBytes⟩ := by
        simp [RecoveredBatches.nextBatch, RecoveredBatches.beginNext,
          RecoveredBatches.readableEnd, hstate, current, Ne.symm hgeneration]
      obtain ⟨hafter, hstep⟩ := hcurrent.nextBatch_following hframed hstate rfl (hsame ▸ hnext)
      refine ⟨hafter, ?_⟩
      cases hstep with
      | none hsame hother => exact .none (hsame.trans hreadTo) hother
      | some hmem hstart hstop => exact .some hmem (hreadTo ▸ hstart) hstop

omit [Blake3] in
theorem RecoveredBatches.readTo_follow (reader : RecoveredBatches) (w : World) :
    reader.follow.readTo w = reader.readTo w := by
  unfold RecoveredBatches.follow
  split_ifs <;> rfl

omit [Blake3] in
theorem Reads.follow (h : Reads deployment w reader) : Reads deployment w reader.follow := by
  unfold RecoveredBatches.follow
  split_ifs
  · exact ⟨h.bodyLimit, h.generation_le, h.boundary, fun hother => by cases hother⟩
  · exact h

/-! ## What the worker knows -/

/-- The occurrences in the builders. -/
def SegmentBuilders.occurrences (builders : SegmentBuilders) : List (BatchId × Nat) :=
  builders.rows.map (·.occurrence)

/-- A batch that was read. -/
structure HasRead (w : World) (reader : RecoveredBatches) (batch : RecoveredBatch) : Prop where
  mem : batch ∈ w.batches
  stop_le : batch.range.stop ≤ reader.readTo w

/-- An occurrence of a batch that was read, and that is not published. -/
structure Owns (w : World) (reader : RecoveredBatches) (ranges : BatchRanges)
    (occurrence : BatchId × Nat) : Prop where
  unpublished : ∀ record ∈ w.published, occurrence ∉ record.occurrences
  read : ∃ batch, HasRead w reader batch ∧ batch.metadata.batchId = occurrence.1 ∧
    occurrence.2 ∈ recordPositions batch.body ∧ ranges occurrence.1 = some batch.range

/-- What the published outputs cover of a batch is known. -/
def Recovered (w : World) (coverage : List (BatchId × Nat)) (batchId : BatchId) : Prop :=
  ∀ record ∈ w.published, ∀ occurrence ∈ record.occurrences, occurrence.1 = batchId →
    occurrence ∈ coverage

/-- The batch a requirement is about. -/
def Requires (w : World) (reader : RecoveredBatches) (requirements : BatchOutputRequirements) :
    Prop :=
  ∃ batch, HasRead w reader batch ∧ requirements.batchId = batch.metadata.batchId ∧
    requirements.spoolRange = batch.range ∧ requirements.positions = recordPositions batch.body

/-- What holds while the worker reads batches, with `extra` in its hands. -/
structure Working (deployment : Deployment) (w : World) (worker : Worker)
    (extra : List (BatchId × Nat)) : Prop where
  sound : Sound deployment w
  settled : ∀ record ∈ w.history, w.Settled record
  reads : Reads deployment w worker.reader
  builders : worker.builders.WellFormed
  nodup : (worker.builders.occurrences ++ extra).Nodup
  owns : ∀ occurrence ∈ worker.builders.occurrences ++ extra,
    Owns w worker.reader worker.ranges occurrence
  unread : ∀ batch ∈ w.batches, worker.reader.readTo w ≤ batch.range.start →
    Recovered w worker.recoveredCoverage batch.metadata.batchId
  pending : ∀ requirements ∈ worker.pending, Requires w worker.reader requirements
  published : ∀ output ∈ worker.published, output.record ∈ w.published

omit [Blake3] in
theorem Grows.readTo (h : Grows w w') (reader : RecoveredBatches) :
    reader.readTo w' = reader.readTo w := by
  rw [RecoveredBatches.readTo, h.generation, RecoveredBatches.readTo]

omit [Blake3] in
/-- Appends do not disturb the reader. -/
theorem Reads.of_grows (h : Reads deployment w reader) (hgrows : Grows w w') :
    Reads deployment w' reader where
  bodyLimit := h.bodyLimit
  generation_le := hgrows.generation ▸ h.generation_le
  boundary := by
    obtain ⟨front, hfront, hposition⟩ := h.boundary
    exact ⟨front, hfront.trans hgrows.frames, (hgrows.readTo reader).trans hposition⟩
  recovery hstate := by
    obtain ⟨hgeneration, hle, front, hfront, hend⟩ := h.recovery hstate
    exact ⟨hgrows.generation ▸ hgeneration, hle, front, hfront.trans hgrows.frames, hend⟩

theorem Grows.mem_batches (h : Grows w w') (hmem : batch ∈ w.batches) :
    batch ∈ w'.batches := by
  obtain ⟨back, hback⟩ := h.frames
  rw [World.batches, ← hback, batchesAt_append]
  exact mem_append_left _ hmem

theorem HasRead.of_grows (h : HasRead w reader batch) (hgrows : Grows w w') :
    HasRead w' reader batch :=
  ⟨hgrows.mem_batches h.mem, hgrows.readTo reader ▸ h.stop_le⟩

/-- A batch that an old record covers is an old one. -/
theorem Sound.mem_batches_of_covered (h : Sound deployment w) (hsound : Sound deployment w')
    (hgrows : Grows w w') (hbatch : batch ∈ w'.batches) {record : OutputRecoveryRecord}
    (hrecord : record ∈ w.history) {position : Nat}
    (hcovered : (batch.metadata.batchId, position) ∈ record.occurrences) : batch ∈ w.batches := by
  obtain ⟨item, hitem, hoccurrence⟩ := mem_flatMap.mp hcovered
  obtain ⟨_, -, heq⟩ := mem_map.mp hoccurrence
  have hid : item.batchId = batch.metadata.batchId := congrArg Prod.fst heq
  rcases h.ranges record hrecord with hcurrent | hretired
  · obtain ⟨other, hother, hid', -⟩ := hcurrent item hitem
    rwa [hsound.batch_inj hbatch (hgrows.mem_batches hother) (hid'.trans hid).symm]
  · have := hretired item hitem
    rw [hid, ← hgrows.retired] at this
    exact absurd this (hsound.not_retired hbatch)

/-- A record about batches that were read, and not about what is still held. -/
def Released (w : World) (reader : RecoveredBatches) (held : List (BatchId × Nat))
    (record : OutputRecoveryRecord) : Prop :=
  ∀ occurrence ∈ record.occurrences, occurrence ∉ held ∧
    ∃ batch, HasRead w reader batch ∧ batch.metadata.batchId = occurrence.1

variable {worker : Worker} {extra : List (BatchId × Nat)}

/-- What the worker knows stays true if the spool grows, and if what is published in between
was held. -/
theorem Working.step (h : Working deployment w worker extra) {rest : List (BatchId × Nat)}
    (hrest : (worker.builders.occurrences ++ rest).Nodup ∧ rest ⊆ extra) (hsound : Sound deployment w')
    (hgrows : Grows w w') (hsettled : ∀ record ∈ w'.history, w'.Settled record)
    (hpublished : ∀ record ∈ w.published, record ∈ w'.published)
    (hnew : ∀ record ∈ w'.published, record ∈ w.published ∨
      Released w worker.reader (worker.builders.occurrences ++ rest) record) :
    Working deployment w' worker rest where
  sound := hsound
  settled := hsettled
  reads := h.reads.of_grows hgrows
  builders := h.builders
  nodup := hrest.1
  owns occurrence hoccurrence := by
    have hold := h.owns occurrence ((append_subset.mpr
      ⟨subset_append_left .., subset_append_of_subset_right _ hrest.2⟩) hoccurrence)
    obtain ⟨batch, hread, hid, hposition, hrange⟩ := hold.read
    refine ⟨fun record hrecord hcovered => ?_, batch, hread.of_grows hgrows, hid, hposition, hrange⟩
    rcases hnew record hrecord with hrecord | hrecord
    · exact hold.unpublished record hrecord hcovered
    · exact (hrecord occurrence hcovered).1 hoccurrence
  unread batch hbatch hunread record hrecord occurrence hcovered hid := by
    obtain ⟨batchId, position⟩ := occurrence
    obtain rfl : batchId = batch.metadata.batchId := hid
    rcases hnew record hrecord with hrecord | hrecord
    · have hmem := h.sound.mem_batches_of_covered hsound hgrows hbatch
        (h.sound.published_mem record hrecord) hcovered
      exact h.unread batch hmem (hgrows.readTo worker.reader ▸ hunread) record hrecord _ hcovered
        rfl
    · -- a batch that was read is not unread
      obtain ⟨other, hread, hid⟩ := (hrecord _ hcovered).2
      obtain rfl := hsound.batch_inj (hgrows.mem_batches hread.mem) hbatch hid
      have := hread.stop_le.trans ((hgrows.readTo worker.reader).symm.le.trans hunread)
      exact absurd other.range.start_lt_stop (Nat.not_lt.mpr this)
  pending requirements hrequirements := by
    obtain ⟨batch, hread, hrest⟩ := h.pending requirements hrequirements
    exact ⟨batch, hread.of_grows hgrows, hrest⟩
  published output houtput := hpublished _ (h.published output houtput)

/-- Operations that publish nothing change nothing the worker knows. -/
theorem Working.kept (h : Working deployment w worker extra)
    (hkept : Kept deployment (fun _ => False) w w') : Working deployment w' worker extra := by
  refine h.step ⟨h.nodup, List.Subset.refl _⟩ hkept.1 hkept.2.grows (fun record hrecord => ?_)
    hkept.2.published fun record hrecord => ?_
  · rw [hkept.2.history] at hrecord
    exact (h.settled record hrecord).imp (hkept.2.published record)
      (hkept.2.dead record hrecord).mpr
  · exact Or.inl ((hkept.2.published_only record hrecord).resolve_right id)

/-! ## New records -/

/-- A program that leaves a sound world. -/
def Sounds (deployment : Deployment) (_ w' : World) : Prop := Sound deployment w'

instance : IsTrans World (Sounds deployment) where
  trans _ _ _ _ h := h

/-- The identities of a record were drawn for it. -/
structure Fresh (w : World) (record : OutputRecoveryRecord) : Prop where
  fits : record.output.Fits
  new : ∀ other ∈ w.history, other.id ≠ record.id ∧
    other.objectIdentity ≠ record.objectIdentity ∧
    ∀ id ∈ other.output.segmentIds, id ∉ record.output.segmentIds
  drawn : record.id.uuid ∈ w.drawn ∧ record.objectIdentity ∈ w.drawn ∧
    ∀ id ∈ record.output.segmentIds, id ∈ w.drawn

variable {record : OutputRecoveryRecord}

/-- A new record about current batches, disjoint from what is not dead, may be made durable. -/
theorem Sound.recorded (h : Sound deployment w) (hfresh : Fresh w record)
    (hcurrent : w.CoversCurrent record)
    (hdisjoint : ∀ other ∈ w.history, ¬ w.Dead other → ∀ occurrence ∈ other.occurrences,
      occurrence ∉ record.occurrences)
    {log : List OutputRecoveryRecord}
    (hlog : ∀ other, other ∈ log ↔ other ∈ w.log ∨ other = record) :
    Sound deployment { w with log, history := w.history ++ [record] } := by
  set w' : World := { w with log, history := w.history ++ [record] }
  obtain ⟨hrecords, hstate⟩ := h.records.concat hfresh.fits
    (fun other hother => by
      obtain ⟨r, hr, rfl⟩ := mem_map.mp hother
      exact (hfresh.new r hr).2.1)
    (fun other hother => by
      obtain ⟨r, hr, rfl⟩ := mem_map.mp hother
      exact (hfresh.new r hr).2.2)
  have hstate : w'.state record = .ok .unregistered := hstate
  have hnotMem : record ∉ w.history := fun hmem => (hfresh.new record hmem).1 rfl
  have hagrees : ∀ other, w.Agrees w' other := fun other => ⟨Iff.rfl, rfl, rfl, rfl⟩
  have hmem : ∀ other, other ∈ w'.history ↔ other ∈ w.history ∨ other = record :=
    fun other => by simp [w']
  refine ⟨⟨?_, fun other hother => ?_⟩, ⟨h.nodup, h.limit, h.capacity, h.boundary⟩,
    h.retains, ?_, ?_, fun other hother => ?_, fun other hother => ?_, fun other hother => ?_,
    fun other hother hnot => ?_, ?_, h.passed⟩
  · rwa [World.outputs, map_append]
  · rcases (hmem other).mp hother with hother | rfl
    · have hconsistent := h.consistent other hother
      refine { hconsistent with kept := fun hpublished hkept => hconsistent.kept hpublished ?_ }
      exact hkept.imp_left fun hin => ((hlog other).mp hin).resolve_right
        fun heq => hnotMem (heq ▸ hother)
    · have hunpublished : other ∉ w'.published :=
        fun hpublished => hnotMem (h.published_mem other hpublished)
      refine ⟨fun hpublished => absurd hpublished hunpublished,
        fun hpublished => absurd hpublished hunpublished, fun hother => ?_, fun hother => ?_⟩
      · simp [hstate] at hother
      · simp [hstate] at hother
  · intro a ha b hb heq
    rcases (hmem a).mp ha with holdA | rfl <;> rcases (hmem b).mp hb with holdB | rfl
    · exact h.identity_inj a holdA b holdB heq
    · exact absurd heq (hfresh.new a holdA).2.1
    · exact absurd heq.symm (hfresh.new b holdB).2.1
    · rfl
  · intro other hother
    rcases (hmem other).mp hother with hother | rfl
    · exact h.drawn other hother
    · exact hfresh.drawn
  · exact (hmem other).mpr (Or.inl (h.published_mem other hother))
  · exact (hmem other).mpr (((hlog other).mp hother).imp_left (h.log_mem other))
  · rcases (hmem other).mp hother with hother | rfl
    · exact h.ranges other hother
    · exact Or.inl hcurrent
  · rcases (hmem other).mp hother with hother | rfl
    · obtain ⟨hsettled, hretired⟩ :=
        h.unlogged other hother fun hin => hnot ((hlog other).mpr (Or.inl hin))
      exact ⟨hsettled.imp_right (hagrees other).dead.mpr, hretired⟩
    · exact absurd ((hlog other).mpr (Or.inr rfl)) hnot
  · intro a ha b hb hne hdead hdead'
    rw [(hagrees a).dead] at hdead
    rw [(hagrees b).dead] at hdead'
    rcases (hmem a).mp ha with holdA | rfl <;> rcases (hmem b).mp hb with holdB | rfl
    · exact h.disjoint a holdA b holdB hne hdead hdead'
    · exact hdisjoint a holdA hdead
    · exact fun occurrence hin hin' => hdisjoint b holdB hdead' occurrence hin' hin
    · exact absurd rfl hne

theorem Fresh.kept (h : Fresh w record) (hkept : Kept deployment (fun _ => False) w w') :
    Fresh w' record where
  fits := h.fits
  new other hother := h.new other (hkept.2.history ▸ hother)
  drawn := ⟨hkept.2.drawn _ h.drawn.1, hkept.2.drawn _ h.drawn.2.1,
    fun id hid => hkept.2.drawn id (h.drawn.2.2 id hid)⟩

/-- The occurrences of a record are in the hands of the worker. -/
structure Working.Holds (worker : Worker) (covered : List (BatchId × Nat))
    (record : OutputRecoveryRecord) : Prop where
  occurrences : ∀ occurrence, occurrence ∈ record.occurrences ↔ occurrence ∈ covered
  ranges : ∀ item ∈ record.coverage, worker.ranges item.batchId = some item.spoolRange

variable {covered rest : List (BatchId × Nat)}

/-- A new record is about batches of the spool. -/
theorem Working.coversCurrent (h : Working deployment w worker (covered ++ rest))
    (hholds : Working.Holds worker covered record) : w.CoversCurrent record := by
  intro item hitem
  obtain ⟨position, hposition⟩ := exists_mem_of_ne_nil _ item.positions_ne
  have hcovered : (item.batchId, position) ∈ covered := (hholds.occurrences _).mp
    (mem_flatMap.mpr ⟨item, hitem, mem_map_of_mem hposition⟩)
  obtain ⟨batch, hread, hid, -, hrange⟩ := (h.owns (item.batchId, position)
    (mem_append_right _ (mem_append_left _ hcovered))).read
  refine ⟨batch, hread.mem, hid, ?_⟩
  rw [hholds.ranges item hitem] at hrange
  exact (Option.some.inj hrange).symm

/-- A new record is made durable. -/
theorem Working.keeps_record (h : Working deployment w worker (covered ++ rest))
    (hfresh : Fresh w record) (hholds : Working.Holds worker covered record) :
    Keeps (Sounds deployment) (deployment.record record)
      (fun _ u => Sound deployment u ∧ record ∈ u.log ∧ ∃ t, Still deployment w t ∧
        ∃ log, u = { t with log, history := t.history ++ [record] }) w := by
  refine keeps_operate (G := Sounds deployment) h.sound (fun _ _ hstill => hstill.1)
    fun choice t hsound hmoved _ u heffect => ?_
  have hstill : Still deployment w t := ⟨hsound, hmoved⟩
  have hworking := h.kept hstill.kept
  have hfresh' := hfresh.kept hstill.kept
  obtain ⟨_, -, heffect⟩ := bind_eq_ok.mp heffect
  have hnone : t.log.find? (fun other => other.id = record.id) = none :=
    find?_eq_none.mpr fun other hother =>
      by simpa using (hfresh'.new other (hsound.log_mem other hother)).1
  simp only [hnone, reduceCtorEq, if_false] at heffect
  obtain ⟨_, -, heffect⟩ := bind_eq_ok.mp heffect
  obtain ⟨_, -, heffect⟩ := bind_eq_ok.mp heffect
  cases heffect
  -- no other record has the identity, so none is replaced
  have hlog : ∀ other, other ∈ (t.log.filter fun other => other.id ≠ record.id).orderedInsert
      Deployment.recordLe record ↔ other ∈ t.log ∨ other = record := by
    intro other
    rw [mem_orderedInsert, mem_filter, or_comm]
    refine or_congr_left ⟨And.left, fun hmem => ⟨hmem, ?_⟩⟩
    simpa using (hfresh'.new other (hsound.log_mem other hmem)).1
  have hrecorded := hsound.recorded hfresh' (hworking.coversCurrent hholds)
    (fun other hother hdead occurrence hin hin' => ?_) hlog
  · exact ⟨hrecorded, hrecorded, (hlog record).mpr (Or.inr rfl), t, hstill, _, rfl⟩
  · have hpublished := (hworking.settled other hother).resolve_right hdead
    refine (hworking.owns occurrence (mem_append_right _ (mem_append_left _ ?_))).unpublished
      other hpublished hin
    exact (hholds.occurrences occurrence).mp hin'

/-- What is recorded and published leaves the hands of the worker. -/
theorem Working.keeps_publishNew [ParquetFile] [SerdeDocument] [UuidCrate]
    (h : Working deployment w worker (covered ++ rest))
    (hfresh : Fresh w record) (hholds : Working.Holds worker covered record) (rounds : Nat) :
    Keeps (Sounds deployment) (deployment.publishNew rounds worker record)
      (fun after u => Working deployment u after rest) w := by
  refine (h.keeps_record hfresh hholds).bind fun _ v _ hv => ?_
  obtain ⟨hsound, hlog, t, hstill, log, hv⟩ := hv
  have hworking := h.kept hstill.kept
  refine ((keeps_publishRecord hsound hlog rounds).weaken fun u hu => hu.1).bind
    fun published u hu hpost => ?_
  obtain ⟨hkept, heq, hpublished⟩ := hpost
  have hgrows : Grows t u := Grows.trans (by subst hv; exact ⟨rfl, rfl, prefix_rfl⟩)
    hkept.2.grows
  have hnodup := hworking.nodup
  have hstep : Working deployment u worker rest := by
    refine hworking.step ⟨?_, subset_append_right _ _⟩ hkept.1 hgrows
      (fun other hother => ?_) (fun other hother => ?_) fun other hother => ?_
    · exact hnodup.sublist ((List.Sublist.refl _).append (sublist_append_right _ _))
    · rw [hkept.2.history, hv, mem_append, mem_singleton] at hother
      rcases hother with hother | rfl
      · have hagrees : t.Agrees v other := by subst hv; exact ⟨Iff.rfl, rfl, rfl, rfl⟩
        refine (hworking.settled other hother).imp
          (fun hmem => hkept.2.published other (hagrees.published.mpr hmem)) fun hdead => ?_
        have hmem : other ∈ v.history := by
          rw [hv]
          exact mem_append_left _ hother
        exact (hkept.2.dead other hmem).mpr (hagrees.dead.mpr hdead)
      · exact Or.inl hpublished
    · exact hkept.2.published other (by subst hv; exact hother)
    · rcases hkept.2.published_only other hother with hother | rfl
      · exact Or.inl (by subst hv; exact hother)
      · refine Or.inr fun occurrence hin => ?_
        have hcovered := (hholds.occurrences occurrence).mp hin
        constructor
        · -- what is covered is there once
          rw [nodup_append] at hnodup
          intro hmem
          rcases mem_append.mp hmem with hheld | hrest
          · exact hnodup.2.2 _ hheld _ (mem_append_left _ hcovered) rfl
          · exact (nodup_append.mp hnodup.2.1).2.2 _ hcovered _ hrest rfl
        · obtain ⟨batch, hread, hid, -⟩ := (hworking.owns occurrence
            (mem_append_right _ (mem_append_left _ hcovered))).read
          exact ⟨batch, hread, hid⟩
  refine .pure hkept.1 { hstep with published := fun output houtput => ?_ }
  rcases mem_append.mp houtput with houtput | houtput
  · exact hstep.published output houtput
  · rw [mem_singleton.mp houtput, heq]
    exact hpublished

end Elucid
