import Elucid.WorkerBatches
import Mathlib.Data.List.TakeWhile

/-!
# The checkpoint and the loop

The checkpoint moves over batches whose positions are all covered by outputs the worker has
seen published (`Working.covered_of_plan`). Where it has passed all frames they are truncated,
and then the log is emptied. At that time nothing is held, since what is held is not
published, so what the worker knows can start again with the new generation
(`Working.keeps_advanceCheckpoint`).

The loop keeps whatever its parts keep (`LoopRules`). They keep `Working`
(`Working.loopRules`), so wherever the loop stops the world is sound.
-/

namespace Elucid

open BigEndian Effect List

/-- Between the checkpoint and the target there are ranges of covered batches only. -/
theorem exists_covered_range {covered : BatchOutputRequirements → Prop} [DecidablePred covered]
    {start position : Nat} {batches : List BatchOutputRequirements}
    (h : ContiguousWhile covered start batches) (hlt : start < position)
    (hle : position ≤ endOf start (batches.takeWhile fun batch => covered batch)) :
    ∃ batch ∈ batches.takeWhile (fun batch => covered batch),
      batch.spoolRange.start < position ∧ position ≤ batch.spoolRange.stop := by
  induction batches generalizing start with
  | nil =>
    rw [takeWhile_nil, endOf_nil] at hle
    omega
  | cons batch rest ih =>
    obtain ⟨hstart, hrest⟩ := h
    by_cases hcovered : covered batch
    · rw [takeWhile_cons_of_pos (by simpa using hcovered)] at hle ⊢
      rw [endOf_cons] at hle
      rcases Nat.lt_or_ge batch.spoolRange.stop position with hbehind | hinside
      · obtain ⟨other, hother, hrange⟩ := ih (hrest hcovered) hbehind hle
        exact ⟨other, mem_cons_of_mem _ hother, hrange⟩
      · exact ⟨batch, mem_cons_self, hstart ▸ hlt, hinside⟩
    · rw [takeWhile_cons_of_neg (by simpa using hcovered), endOf_nil] at hle
      omega

/-- Batches end where the last of them does. -/
theorem endOf_eq_or_mem (start : Nat) (batches : List BatchOutputRequirements) :
    batches = [] ∧ endOf start batches = start ∨
      ∃ batch ∈ batches, endOf start batches = batch.spoolRange.stop := by
  unfold endOf
  cases hlast : batches.getLast? with
  | none => exact Or.inl ⟨getLast?_eq_none_iff.mp hlast, rfl⟩
  | some batch => exact Or.inr ⟨batch, mem_of_getLast? hlast, rfl⟩

variable [Chrono] {deployment : Deployment} {w w' : World} {worker : Worker}
  {rounds : Nat}
variable {checkpoint : SpoolCheckpoint} {plan : CheckpointPlan}

/-! ## The checkpoint -/

/-- The first batch that is left is one the checkpoint has not passed. -/
theorem Worker.head_complete (worker : Worker) (target : SpoolCheckpoint) :
    ∀ requirements ∈ (worker.complete target).pending.head?,
      ¬ requirements.spoolRange.stop ≤ target.position := by
  intro requirements hhead
  have hnot := head?_dropWhile_not
    (fun batch => decide (batch.spoolRange.stop ≤ target.position)) worker.pending
  rw [show (worker.pending.dropWhile _).head? = some requirements from hhead] at hnot
  simpa using hnot

variable [Blake3]

/-- The published outputs cover a batch. -/
def World.Covered (w : World) (metadata : BatchMetadata) (body : Bytes) : Prop :=
  ∀ position ∈ recordPositions body, ∃ record ∈ w.published,
    (metadata.batchId, position) ∈ record.occurrences

/-- The checkpoint may move to the end of a frame behind which everything is covered. -/
theorem Sound.moveCheckpoint (h : Sound deployment w)
    (hboundary : ∃ front, front <+: w.frames ∧ checkpoint.position = framesBytes front)
    (hcovered : ∀ batch ∈ w.batches, batch.range.stop ≤ checkpoint.position →
      w.Covered batch.metadata batch.body) :
    Sound deployment { w with checkpoint } := by
  have hagrees : ∀ record, w.Agrees { w with checkpoint } record :=
    fun record => ⟨Iff.rfl, rfl, rfl, rfl⟩
  refine { h with
    records := h.records
    consistent := fun record hrecord => (hagrees record).consistent rfl (h.consistent record hrecord)
    boundary := hboundary
    unlogged := fun record hrecord hlog => ?_
    disjoint := fun a ha b hb hne hdead hdead' => ?_
    passed := ?_ }
  · exact (h.unlogged record hrecord hlog).imp_left (Or.imp_right (hagrees record).dead.mpr)
  · exact h.disjoint a ha b hb hne (mt (hagrees a).dead.mpr hdead) (mt (hagrees b).dead.mpr hdead')
  · rintro metadata body (hretired | ⟨batch, hbatch, rfl, rfl, hstop⟩)
    · exact h.passed metadata body (Or.inl hretired)
    · exact hcovered batch hbatch hstop

variable {extra : List (BatchId × Nat)}

/-- The batches before the target of a plan are covered. -/
theorem Working.covered_of_plan (h : Working deployment w worker extra)
    (hplan : planCheckpoint w.checkpoint worker.pending worker.published = .ok (some plan)) :
    (∃ front, front <+: w.frames ∧ plan.target.position = framesBytes front) ∧
      ∀ batch ∈ w.batches, batch.range.stop ≤ plan.target.position →
        w.Covered batch.metadata batch.body := by
  obtain ⟨-, -, hwhile, hplan⟩ := planCheckpoint_eq_ok.mp hplan
  rw [planTo] at hplan
  split_ifs at hplan with hempty
  obtain rfl := Option.some.inj hplan
  have hpending : ∀ requirements ∈ coveredBatches worker.pending worker.published,
      requirements ∈ worker.pending ∧ requirements.IsCovered worker.published :=
    fun requirements hmem => ⟨takeWhile_subset _ hmem, by
      simpa using mem_takeWhile_imp hmem⟩
  constructor
  · rcases endOf_eq_or_mem w.checkpoint.position (coveredBatches worker.pending worker.published)
      with ⟨hnil, -⟩ | ⟨requirements, hmem, heq⟩
    · exact absurd hnil hempty
    · obtain ⟨batch, hread, -, hrange, -⟩ := h.pending requirements (hpending _ hmem).1
      obtain ⟨front, metadata, body, hfront, rfl⟩ := mem_batchesAt.mp hread.mem
      refine ⟨_, hfront, heq.trans ?_⟩
      rw [hrange, stop_batchAt, framesBytes_append, framesBytes_singleton, Nat.zero_add]
  · intro batch hbatch hstop position hposition
    rcases Nat.lt_or_ge w.checkpoint.position batch.range.stop with hlt | hle
    · obtain ⟨requirements, hmem, hstart, hinside⟩ := exists_covered_range hwhile hlt hstop
      obtain ⟨hin, hcovered⟩ := hpending requirements hmem
      obtain ⟨other, hread, hid, hrange, hpositions⟩ := h.pending requirements hin
      -- the range of the requirement meets the batch, so it is its range
      have heq : batch = other := by
        rw [hrange] at hstart hinside
        rcases batches_disjoint hbatch hread.mem with heq | hbefore | hbehind
        · exact heq
        · exact absurd hstart (Nat.not_lt.mpr hbefore)
        · have := batch.range.start_lt_stop
          omega
      subst heq
      obtain ⟨output, houtput, coverage, hcoverage, hoccurrence⟩ := mem_coveredOccurrences.mp
        (hcovered position (hpositions ▸ hposition))
      refine ⟨output.record, h.published output houtput, hid ▸ ?_⟩
      exact mem_flatMap.mpr ⟨coverage, hcoverage, hoccurrence⟩
    · exact h.sound.passed _ _ (Or.inr ⟨batch, hbatch, rfl, rfl, hle⟩) position hposition

/-- A step that changes no record and no frame, but maybe the checkpoint. -/
theorem Working.moveCheckpoint (h : Working deployment w worker extra)
    (hsound : Sound deployment { w with checkpoint }) :
    Working deployment { w with checkpoint } worker extra := by
  refine h.step ⟨h.nodup, List.Subset.refl _⟩ hsound ⟨rfl, rfl, prefix_rfl⟩
    (fun record hrecord => ?_) (fun _ => id) fun _ => Or.inl
  have hagrees : w.Agrees { w with checkpoint } record := ⟨Iff.rfl, rfl, rfl, rfl⟩
  exact (h.settled record hrecord).imp_right hagrees.dead.mpr

theorem Working.keeps_advanceSpool (h : Working deployment w worker extra)
    (hplan : planCheckpoint w.checkpoint worker.pending worker.published = .ok (some plan)) :
    Keeps (Sounds deployment) (deployment.advanceSpool plan)
      (fun _ u => Working deployment u worker extra ∧ u.checkpoint = plan.target) w := by
  refine keeps_operate (G := Sounds deployment) h.sound (fun _ _ hstill => hstill.1)
    fun choice t hsound hmoved _ u heffect => ?_
  have ht : Working deployment t worker extra := h.kept (Still.kept ⟨hsound, hmoved⟩)
  obtain ⟨_, -, heffect⟩ := bind_eq_ok.mp heffect
  obtain ⟨_, -, heffect⟩ := bind_eq_ok.mp heffect
  cases heffect
  rw [← hmoved.extended.checkpoint] at hplan
  obtain ⟨hboundary, hcovered⟩ := ht.covered_of_plan hplan
  have hafter := hsound.moveCheckpoint hboundary hcovered
  exact ⟨hafter, ht.moveCheckpoint hafter, rfl⟩

/-- What is held belongs to batches the checkpoint has not passed. -/
theorem Working.not_passed (h : Working deployment w worker extra) {occurrence : BatchId × Nat}
    (hoccurrence : occurrence ∈ worker.builders.occurrences ++ extra) {batch : RecoveredBatch}
    (hbatch : batch ∈ w.batches) (hid : batch.metadata.batchId = occurrence.1) :
    ¬ batch.range.stop ≤ w.checkpoint.position := by
  intro hstop
  obtain ⟨hunpublished, other, hread, hid', hposition, -⟩ := h.owns occurrence hoccurrence
  obtain rfl := h.sound.batch_inj hbatch hread.mem (hid.trans hid'.symm)
  obtain ⟨record, hrecord, hcovered⟩ :=
    h.sound.passed _ _ (Or.inr ⟨batch, hbatch, rfl, rfl, hstop⟩) _ hposition
  rw [hid] at hcovered
  exact hunpublished record hrecord hcovered

/-- Batches the checkpoint has passed may be forgotten. -/
theorem Working.complete (h : Working deployment w worker extra) :
    Working deployment w (worker.complete w.checkpoint) extra :=
  { h with
    owns := by
      intro occurrence hoccurrence
      obtain ⟨hunpublished, batch, hread, hid, hposition, hrange⟩ := h.owns occurrence hoccurrence
      refine ⟨hunpublished, batch, hread, hid, hposition, ?_⟩
      rw [← hrange]
      refine if_neg fun hpassed => ?_
      obtain ⟨requirements, hmem, heq⟩ := mem_map.mp hpassed
      obtain ⟨other, hread', hid', hrange', -⟩ :=
        h.pending requirements (takeWhile_subset _ hmem)
      have hstop : requirements.spoolRange.stop ≤ w.checkpoint.position := by
        simpa using mem_takeWhile_imp hmem
      rw [hrange'] at hstop
      exact h.not_passed hoccurrence hread'.mem (hid'.symm.trans heq) hstop
    pending := fun requirements hmem => h.pending requirements (dropWhile_subset _ hmem) }

/-! ## Reclamation -/

/-- The world behind a truncation. -/
theorem Sound.truncate (h : Sound deployment w) (hcheckpoint : w.checkpoint.position = 0)
    (hcovered : ∀ batch ∈ w.batches, w.Covered batch.metadata batch.body) :
    Sound deployment { w with
      frames := [], generation := w.generation + 1, retired := w.retired ++ w.frames
      reclaiming := some (w.committedBytes, w.frames) } := by
  set w' : World := { w with
    frames := [], generation := w.generation + 1, retired := w.retired ++ w.frames
    reclaiming := some (w.committedBytes, w.frames) }
  have hagrees : ∀ record, w.Agrees w' record := fun record => ⟨Iff.rfl, rfl, rfl, rfl⟩
  have hids : batchIds w'.retired = batchIds w.retired ++ batchIds w.frames := map_append
  have hcurrent : ∀ record, w.CoversCurrent record → w'.CoversRetired record := by
    intro record hcovers item hitem
    obtain ⟨batch, hbatch, hid, -⟩ := hcovers item hitem
    rw [hids, ← hid]
    exact mem_append_right _ (mem_map_of_mem (mem_frames_of_mem_batches hbatch))
  have hretired : ∀ record, w.CoversRetired record → w'.CoversRetired record := by
    intro record hcovers item hitem
    rw [hids]
    exact mem_append_left _ (hcovers item hitem)
  refine { h with
    records := h.records
    consistent := fun record hrecord => (hagrees record).consistent rfl (h.consistent record hrecord)
    nodup := ?_
    limit := by simp [w']
    capacity := Nat.zero_le _
    boundary := ⟨[], prefix_rfl, hcheckpoint⟩
    ranges := fun record hrecord =>
      Or.inr ((h.ranges record hrecord).elim (hcurrent record) (hretired record))
    unlogged := fun record hrecord hlog => ?_
    disjoint := fun a ha b hb hne hdead hdead' => ?_
    passed := ?_ }
  · rw [World.spooled, append_nil]
    exact h.nodup
  · exact (h.unlogged record hrecord hlog).imp (Or.imp_right (hagrees record).dead.mpr)
      (hretired record)
  · exact h.disjoint a ha b hb hne (mt (hagrees a).dead.mpr hdead) (mt (hagrees b).dead.mpr hdead')
  · rintro metadata body (hmem | ⟨batch, hbatch, -⟩)
    · rcases mem_append.mp hmem with hmem | hmem
      · exact h.passed metadata body (Or.inl hmem)
      · obtain ⟨batch, hbatch, rfl, rfl⟩ := exists_batch_of_mem_frames hmem
        exact hcovered batch hbatch
    · exact absurd hbatch (by simp [World.batches, w'])

/-- What the worker is left with when all frames are truncated. -/
structure Reclaimed (deployment : Deployment) (w : World) (worker : Worker) : Prop where
  sound : Sound deployment w
  settled : ∀ record ∈ w.history, w.Settled record
  retired : ∀ record ∈ w.history, w.CoversRetired record
  bodyLimit : worker.reader.bodyLimit = deployment.spool.bodyLimit
  generation_lt : worker.reader.generation < w.generation
  builders : worker.builders.WellFormed
  held : worker.builders.occurrences = []
  pending : worker.pending = []

theorem Working.keeps_resetCheckpoint (h : Working deployment w worker extra) :
    Keeps (Sounds deployment) deployment.resetCheckpoint
      (fun reclaimed u => ∃ t, Still deployment w t ∧
        if reclaimed.isSome then
          t.checkpoint.position = t.committedBytes ∧ u = { t with checkpoint := .initial }
        else u = t) w := by
  refine keeps_operate (G := Sounds deployment) h.sound (fun _ _ hstill => hstill.1)
    fun choice t hsound hmoved _ u heffect => ?_
  split_ifs at heffect with hnot
  · cases heffect
    exact ⟨hsound, t, ⟨hsound, hmoved⟩, rfl⟩
  · cases heffect
    refine ⟨hsound.moveCheckpoint ⟨[], nil_prefix, rfl⟩ fun batch _ hstop => ?_, t,
      ⟨hsound, hmoved⟩, ?_⟩
    · exact absurd (Nat.le_zero.mp hstop) batch.range.start_lt_stop.ne_bot
    · rw [Option.isSome_some, if_pos rfl]
      exact ⟨by tauto, rfl⟩

theorem Working.keeps_truncate (h : Working deployment w worker [])
    (hcheckpoint : w.checkpoint.position = w.committedBytes) (hinitial : checkpoint.position = 0)
    (hsound : Sound deployment { w with checkpoint })
    (hcompleted : ∀ requirements ∈ worker.pending.head?,
      ¬ requirements.spoolRange.stop ≤ w.checkpoint.position) :
    Keeps (Sounds deployment) Deployment.truncate (fun _ u => Reclaimed deployment u worker)
      { w with checkpoint } := by
  have hpassed : ∀ batch ∈ w.batches, batch.range.stop ≤ w.checkpoint.position := by
    intro batch hbatch
    have := stop_le_of_mem_batchesAt hbatch
    rwa [Nat.zero_add, length_framesOf, ← World.committedBytes, ← hcheckpoint] at this
  have hheld : worker.builders.occurrences = [] := by
    refine eq_nil_iff_forall_not_mem.mpr fun occurrence hoccurrence => ?_
    have hmem := mem_append_left [] hoccurrence
    obtain ⟨batch, hread, hid, -⟩ := (h.owns occurrence hmem).read
    exact h.not_passed hmem hread.mem hid (hpassed batch hread.mem)
  have hpending : worker.pending = [] := by
    cases hlist : worker.pending with
    | nil => rfl
    | cons requirements rest =>
      obtain ⟨batch, hread, -, hrange, -⟩ :=
        h.pending requirements (hlist ▸ mem_cons_self)
      refine absurd (hrange ▸ hpassed batch hread.mem) (hcompleted requirements ?_)
      rw [hlist]
      rfl
  refine ((keeps_nextChoice hsound).weaken fun _ ht => ht.1).bind fun choice t _ ht => ?_
  obtain ⟨⟨hsound', -⟩, choices, rfl⟩ := ht
  refine keeps_perform (G := Sounds deployment) hsound' fun _ u heffect => ?_
  cases heffect
  have htruncated := hsound'.truncate hinitial fun batch hbatch position hposition =>
    h.sound.passed _ _ (Or.inr ⟨batch, hbatch, rfl, rfl, hpassed batch hbatch⟩) position hposition
  refine ⟨htruncated, htruncated, fun record hrecord => ?_, fun record hrecord => ?_,
    h.reads.bodyLimit, Nat.lt_succ_of_le h.reads.generation_le, h.builders, hheld, hpending⟩
  · exact (h.settled record hrecord).imp_right fun hdead => ⟨hdead.1, hdead.2, hdead.3⟩
  · refine (htruncated.ranges record hrecord).elim (fun hcurrent item hitem => ?_) id
    obtain ⟨batch, hbatch, -⟩ := hcurrent item hitem
    exact absurd hbatch (by simp [World.batches])

theorem Working.keeps_reclaimCheckpointed
    (h : Working deployment w worker []) (hcompleted : ∀ requirements ∈ worker.pending.head?,
      ¬ requirements.spoolRange.stop ≤ w.checkpoint.position) :
    Keeps (Sounds deployment) deployment.reclaimCheckpointed
      (fun reclaimed u => if reclaimed.isSome then Reclaimed deployment u worker
        else Working deployment u worker []) w := by
  refine h.keeps_resetCheckpoint.bind fun reclaimed u hu hreset => ?_
  obtain ⟨t, hstill, hreset⟩ := hreset
  have ht := h.kept hstill.kept
  cases reclaimed with
  | none => exact .pure hu (hreset ▸ ht)
  | some reclaimedBytes =>
    rw [Option.isSome_some, if_pos rfl] at hreset
    obtain ⟨hcheckpoint, rfl⟩ := hreset
    rw [← hstill.2.extended.checkpoint] at hcompleted
    exact (ht.keeps_truncate hcheckpoint rfl hu hcompleted).bind
      fun _ v hv hreclaimed => .pure hv hreclaimed

/-- The log may be emptied when every record is settled and about truncated frames. -/
theorem Sound.emptyLog (h : Sound deployment w) (hsettled : ∀ record ∈ w.history, w.Settled record)
    (hretired : ∀ record ∈ w.history, w.CoversRetired record) :
    Sound deployment { w with log := [], reclaiming := none } := by
  have hagrees : ∀ record, w.Agrees { w with log := [], reclaiming := none } record :=
    fun record => ⟨Iff.rfl, rfl, rfl, rfl⟩
  refine { h with
    records := h.records
    consistent := fun record hrecord => ?_
    log_mem := fun record hrecord => by cases hrecord
    unlogged := fun record hrecord _ => ⟨?_, hretired record hrecord⟩
    disjoint := fun a ha b hb hne hdead hdead' => ?_ }
  · have hconsistent := h.consistent record hrecord
    refine { hconsistent with kept := fun hpublished hkept => hconsistent.kept hpublished ?_ }
    exact Or.inr (hkept.resolve_left (by simp))
  · exact (hsettled record hrecord).imp_right (hagrees record).dead.mpr
  · exact h.disjoint a ha b hb hne (mt (hagrees a).dead.mpr hdead) (mt (hagrees b).dead.mpr hdead')

/-- Behind reclamation the worker starts again with an empty memory. -/
theorem Reclaimed.keeps_reclaimLog (h : Reclaimed deployment w worker)
    (hstate : worker.reader.state ≠ .readingRecovery) (reclaimedBytes : Nat) :
    Keeps (Sounds deployment) (deployment.reclaimLog reclaimedBytes)
      (fun _ u => Working deployment u
        { worker with published := [], recoveredCoverage := [], ranges := fun _ => none } []) w := by
  refine keeps_operate (G := Sounds deployment) h.sound (fun _ _ hstill => hstill.1)
    fun choice t hsound hmoved _ u heffect => ?_
  obtain ⟨log, hlog, heffect⟩ := bind_eq_ok.mp heffect
  cases heffect
  obtain ⟨_, -, hlog⟩ := bind_eq_ok.mp (mapError_eq_ok.mp hlog)
  cases hlog
  have hsettled : ∀ record ∈ t.history, t.Settled record := by
    intro record hrecord
    rw [hmoved.extended.history] at hrecord
    exact (h.settled record hrecord).imp (hmoved.extended.published record)
      (hmoved.extended.dead record hrecord).mpr
  have hretired : ∀ record ∈ t.history, t.CoversRetired record := by
    intro record hrecord
    rw [World.CoversRetired, hmoved.extended.retired]
    exact h.retired record (hmoved.extended.history ▸ hrecord)
  have hempty := hsound.emptyLog hsettled hretired
  have hgeneration : worker.reader.generation < t.generation :=
    hmoved.extended.generation ▸ h.generation_lt
  refine ⟨hempty, hempty, fun record hrecord => ?_,
    ⟨h.bodyLimit, hgeneration.le, ⟨[], nil_prefix, if_neg hgeneration.ne⟩,
      fun hother => absurd hother hstate⟩, h.builders, ?_, ?_, ?_, ?_, by simp⟩
  · exact (hsettled record hrecord).imp_right fun hdead => ⟨hdead.1, hdead.2, hdead.3⟩
  · simp [h.held]
  · simp [h.held]
  · -- a new batch is not a truncated one
    intro batch hbatch _ record hrecord occurrence hcovered hid
    obtain ⟨item, hitem, hoccurrence⟩ := mem_flatMap.mp hcovered
    obtain ⟨_, -, rfl⟩ := mem_map.mp hoccurrence
    have := hretired record (hsound.published_mem record hrecord) item hitem
    rw [show item.batchId = batch.metadata.batchId from hid] at this
    exact absurd this (hsound.not_retired hbatch)
  · simp [h.pending]

/-- The checkpoint moves, and the spool and the log are reclaimed. -/
theorem Working.keeps_advanceCheckpoint
    (h : Working deployment w worker []) (hstate : worker.reader.state ≠ .readingRecovery) :
    Keeps (Sounds deployment) (deployment.advanceCheckpoint worker)
      (fun after u => Working deployment u after []) w := by
  refine h.bind_kept (x := get) (P := fun seen t => seen = w ∧ t = w)
    ⟨h.sound.still_self, rfl, rfl⟩ (fun _ => Still.kept) fun seen t ht _ hsame => ?_
  obtain ⟨rfl, rfl⟩ := hsame
  refine ht.bind_kept (keeps_raise ht.sound.still_self _) (fun _ => Still.kept)
    fun plan u hu _ hplan => ?_
  obtain ⟨hplan, rfl⟩ := hplan
  cases plan with
  | none => exact .pure hu.sound hu
  | some plan =>
    refine (hu.keeps_advanceSpool (mapError_eq_ok.mp hplan)).bind fun _ v _ hv => ?_
    obtain ⟨hv, htarget⟩ := hv
    have hcomplete := hv.complete
    rw [← htarget]
    refine (hcomplete.keeps_reclaimCheckpointed
      (worker.head_complete v.checkpoint)).bind fun reclaimed x hx hreclaimed => ?_
    cases reclaimed with
    | none => exact .pure hx hreclaimed
    | some reclaimedBytes =>
      have hreclaimed : Reclaimed deployment x (worker.complete v.checkpoint) := hreclaimed
      exact (hreclaimed.keeps_reclaimLog hstate reclaimedBytes).bind
        fun _ y hy hworking => .pure hy hworking

/-! ## Reading -/

/-- The reader may move on. -/
theorem Working.advance (h : Working deployment w worker extra) {reader : RecoveredBatches}
    (hreads : Reads deployment w reader) (hle : worker.reader.readTo w ≤ reader.readTo w) :
    Working deployment w { worker with reader } extra :=
  { h with
    reads := hreads
    owns := by
      intro occurrence hoccurrence
      obtain ⟨hunpublished, batch, hread, hrest⟩ := h.owns occurrence hoccurrence
      exact ⟨hunpublished, batch, ⟨hread.mem, hread.stop_le.trans hle⟩, hrest⟩
    unread := fun batch hbatch hunread => h.unread batch hbatch (hle.trans hunread)
    pending := by
      intro requirements hmem
      obtain ⟨batch, hread, hrest⟩ := h.pending requirements hmem
      exact ⟨batch, ⟨hread.mem, hread.stop_le.trans hle⟩, hrest⟩ }

theorem Working.keeps_nextBatch (h : Working deployment w worker extra) :
    Keeps (Sounds deployment) (deployment.nextBatch worker.reader)
      (fun result u => Working deployment u { worker with reader := result.1 } extra ∧
        result.2.elim (result.1.state ≠ .readingRecovery) fun batch => HasRead u result.1 batch ∧
          Recovered u worker.recoveredCoverage batch.metadata.batchId) w := by
  refine keeps_operate (G := Sounds deployment) h.sound (fun _ _ hstill => hstill.1)
    fun choice t hsound hmoved _ u heffect => ?_
  have ht : Working deployment t worker extra := h.kept (Still.kept ⟨hsound, hmoved⟩)
  cases hnext : worker.reader.nextBatch (framesOf t.frames) ⟨t.generation, t.committedBytes⟩ with
  | mk reader result =>
    rw [hnext] at heffect
    obtain ⟨batch, hresult, heffect⟩ := bind_eq_ok.mp heffect
    rw [mapError_eq_ok] at hresult
    subst hresult
    cases heffect
    obtain ⟨hreads, hstep⟩ := ht.reads.nextBatch hsound.toFramed hnext
    refine ⟨hsound, ?_⟩
    cases hstep with
    | none hsame hstate => exact ⟨ht.advance hreads hsame.ge, hstate⟩
    | some hmem hstart hstop =>
      refine ⟨ht.advance hreads ?_, ⟨hmem, hstop.ge⟩, ht.unread _ hmem hstart.le⟩
      rw [hstart, hstop]
      exact (RecoveredBatch.range _).start_lt_stop.le

theorem Working.follow (h : Working deployment w worker extra) :
    Working deployment w { worker with reader := worker.reader.follow } extra :=
  h.advance h.reads.follow (worker.reader.readTo_follow w).ge

/-- The parts of the loop of the worker keep to `G` and to an invariant `I` of its memory, and
the batches they get satisfy `Got`. -/
structure LoopRules [SerdeJson] [ParquetFile] [SerdeDocument] [UuidCrate] [ChronoText] [FloatText]
    [Base64] [Layout] (deployment : Deployment) (rounds : Nat) (G : World → World → Prop)
    (I : World → Worker → Prop) (Got : World → Worker → RecoveredBatch → Prop) : Prop where
  stays : ∀ {w worker}, I w worker → G w w
  follow : ∀ {w worker}, I w worker → I w { worker with reader := worker.reader.follow }
  expire : ∀ {w worker now builders}, I w worker →
    worker.builders.sealExpired now = .ok builders → I w { worker with builders }
  nextChoice : ∀ {w worker}, I w worker → Keeps G Deployment.nextChoice (fun _ u => I u worker) w
  moves : ∀ {w worker} moves, I w worker →
    Keeps G (modify (deployment.moves · moves) : Program PUnit) (fun _ u => I u worker) w
  nextBatch : ∀ {w worker}, I w worker → Keeps G (deployment.nextBatch worker.reader)
    (fun result u => I u { worker with reader := result.1 } ∧
      result.2.elim (result.1.state ≠ .readingRecovery)
        (Got u { worker with reader := result.1 })) w
  processBatch : ∀ {w worker batch}, I w worker → Got w worker batch →
    Keeps G (deployment.processBatch rounds worker batch) (fun after u => I u after) w
  drain : ∀ {w worker}, I w worker →
    Keeps G (deployment.drainSealedSegments rounds worker) (fun after u => I u after) w
  advance : ∀ {w worker}, I w worker → worker.reader.state ≠ .readingRecovery →
    Keeps G (deployment.advanceCheckpoint worker) (fun after u => I u after) w

namespace LoopRules

variable [SerdeJson] [ParquetFile] [SerdeDocument] [UuidCrate] [ChronoText] [FloatText] [Base64]
  [Layout] {G : World → World → Prop} [IsTrans World G] {I : World → Worker → Prop}
  {Got : World → Worker → RecoveredBatch → Prop}

/-- The reader follows the spool until it has a batch. -/
theorem keeps_waitNextBatch (rules : LoopRules deployment rounds G I Got) (h : I w worker) :
    Keeps G (deployment.waitNextBatch rounds worker.reader)
      (fun result u => I u { worker with reader := result.1 } ∧
        Got u { worker with reader := result.1 } result.2) w := by
  have hloop (reader : RecoveredBatches) (t : World) (ht : I t { worker with reader }) :
      Keeps G (loop Stop.crashed deployment.followStep rounds reader)
        (fun result u => I u { worker with reader := result.1 } ∧
          Got u { worker with reader := result.1 } result.2) t := by
    refine Keeps.loop (fun reader t => I t { worker with reader }) (fun reader u _ hu => ?_) rounds
      (rules.stays ht) ht
    refine (rules.nextBatch hu).bind fun result v _ hv => ?_
    obtain ⟨reader, batch⟩ := result
    cases batch with
    | none => exact .pure (rules.stays hv.1) hv.1
    | some batch => exact .pure (rules.stays hv.1) hv
  unfold Deployment.waitNextBatch
  by_cases hstate : worker.reader.state = .readingRecovery
  · simp only [hstate, if_true]
    refine (rules.nextBatch h).bind fun result t _ ht => ?_
    obtain ⟨reader, batch⟩ := result
    cases batch with
    | some batch => exact .pure (rules.stays ht.1) ht
    | none => exact hloop _ t (rules.follow ht.1)
  · simp only [hstate, if_false]
    exact hloop _ w (rules.follow h)

/-- What is committed is processed, and then the reader is behind recovery. -/
theorem keeps_processCommitted (rules : LoopRules deployment rounds G I Got) (h : I w worker) :
    Keeps G (deployment.processCommitted rounds worker)
      (fun after u => I u after ∧ after.reader.state ≠ .readingRecovery) w := by
  refine Keeps.loop (fun worker t => I t worker) (fun worker t _ ht => ?_) rounds (rules.stays h) h
  refine (rules.nextBatch ht).bind fun result u _ hu => ?_
  obtain ⟨reader, batch⟩ := result
  cases batch with
  | none => exact .pure (rules.stays hu.1) hu
  | some batch =>
    refine (rules.processBatch hu.1 hu.2).bind fun after v _ hv => ?_
    exact (rules.drain hv).bind fun after x _ hx => .pure (rules.stays hx) hx

/-- The worker wakes up for a batch or an expiration, or stops. -/
theorem keeps_waitForWork (rules : LoopRules deployment rounds G I Got) (h : I w worker) :
    Keeps G (deployment.waitForWork rounds worker) (fun after u => I u after) w := by
  refine (rules.nextChoice h).bind fun choice t _ ht => ?_
  refine (rules.moves _ ht).bind fun _ u _ hu => ?_
  cases choice.wakeup with
  | cancelled => exact .throw (rules.stays hu)
  | batch =>
    refine (rules.keeps_waitNextBatch hu).bind fun result v _ hv => ?_
    exact rules.processBatch hv.1 hv.2
  | segmentExpiration =>
    by_cases hempty : worker.builders.opened.isEmpty
    · simp only [hempty, if_true]
      exact .throw (rules.stays hu)
    · simp only [hempty]
      refine (keeps_raise (rules.stays hu) _).bind fun builders v _ hv => ?_
      obtain ⟨hsealed, rfl⟩ := hv
      have hbuilders := rules.expire hu (mapError_eq_ok.mp hsealed)
      exact .pure (rules.stays hu) (rules.follow hbuilders)

theorem keeps_runLoop (rules : LoopRules deployment rounds G I Got) (h : I w worker) :
    Keeps G (deployment.runLoop rounds worker) (fun _ _ => True) w := by
  refine Keeps.loop (fun worker t => I t worker) (fun worker t _ ht => ?_) rounds (rules.stays h) h
  refine (rules.keeps_processCommitted ht).bind fun committed u _ hu => ?_
  refine (rules.advance hu.1 hu.2).bind fun advanced v _ hv => ?_
  refine (rules.keeps_waitForWork hv).bind fun woken x _ hx => ?_
  exact (rules.drain hx).bind fun after y _ hy => .pure (rules.stays hy) hy

end LoopRules

/-- The loop of the worker keeps what the worker knows, wherever it stops. -/
theorem Working.loopRules [SerdeJson] [ParquetFile] [SerdeDocument] [UuidCrate] [ChronoText]
    [FloatText] [Base64] [Layout] :
    LoopRules deployment rounds (Sounds deployment) (fun w worker => Working deployment w worker [])
      (fun w worker batch => HasRead w worker.reader batch ∧
        Recovered w worker.recoveredCoverage batch.metadata.batchId) where
  stays h := h.sound
  follow h := h.follow
  expire h hsealed := by
    obtain ⟨observed, hobserved, hsealed⟩ := bind_eq_ok.mp hsealed
    obtain ⟨-, rfl⟩ := SegmentBuilders.observeTime_eq_ok hobserved
    have hmoves := SegmentBuilders.moves_sealKeys (h.builders.observed _) hsealed
    exact h.rebuild hmoves.wellFormed ((hmoves.rows.map (·.occurrence)).append_right _)
  nextChoice h := ((keeps_nextChoice h.sound).weaken fun _ ht => ht.1).mono
    fun _ _ _ ht => h.kept (Still.kept ht.1)
  moves moves h := ((keeps_moves h.sound moves).weaken fun _ ht => ht.1).mono
    fun _ _ _ ht => h.kept (Still.kept ht.1)
  nextBatch h := h.keeps_nextBatch
  processBatch h hgot := h.keeps_processBatch hgot.1 hgot.2
  drain h := h.keeps_drainSealedSegments
  advance h hstate := h.keeps_advanceCheckpoint hstate

end Elucid
