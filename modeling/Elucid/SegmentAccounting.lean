import Elucid.SegmentRuns

/-!
# Accounting of the segment builders

`Accounted` is what holds of the builders behind every run : the totals are the sums over
what is open and sealed and stay within the limits, and every open builder is below its
targets.

A batch that passed the checks of `push_batch` is inserted (`Passes.exists_pushRecords`). A batch
that was given back finds empty builders once the sealed segments are drained, and is taken
then (`pushBatch_of_empty`), unless the access sequence is used up : it counts every row that
was ever inserted. `pushCandidate` is the loop of the worker.
-/

namespace Elucid.SegmentBuilders

open BigEndian List

/-! ## Draining -/

section Draining

variable [Chrono]
variable {builders : SegmentBuilders} {rounds : Nat}

/-- The loop of `drain_sealed_segments`, as far as it is about the builders. -/
def drainSealed : Nat → SegmentBuilders → Option (Except SegmentBuildError SegmentBuilders)
  | 0, _ => none
  | rounds + 1, builders =>
    match builders.takeNextSealed with
    | .error error => some (.error error)
    | .ok (none, after) => some (.ok after)
    | .ok (some _, after) => drainSealed rounds after

/-- Draining gives all sealed segments away and leaves what is open. -/
theorem drainSealed_of_wellFormed (h : builders.WellFormed)
    (hrounds : builders.sealed.length < rounds) :
    ∃ after, drainSealed rounds builders = some (.ok after) ∧ after.WellFormed ∧
      after.sealed = [] ∧ after.opened = builders.opened ∧ after.limits = builders.limits ∧
      after.lastObservedAt = builders.lastObservedAt ∧
      after.accessSequence = builders.accessSequence := by
  induction rounds generalizing builders with
  | zero => omega
  | succ rounds ih =>
    rw [drainSealed]
    obtain ⟨segment, after, htake, htakes⟩ := exists_takeNextSealed h
    rw [htake]
    cases htakes with
    | drained hsealed => exact ⟨builders, rfl, h, hsealed, rfl, rfl, rfl, rfl⟩
    | taken hsealed hwellFormed _ =>
      rw [hsealed, length_cons] at hrounds
      exact ih hwellFormed (by dsimp only [afterTake]; omega)

/-- More rounds than sealed segments change nothing. -/
theorem drainSealed_eq (h : builders.WellFormed) (hrounds : builders.sealed.length < rounds) :
    drainSealed rounds builders = drainSealed (builders.sealed.length + 1) builders := by
  induction rounds generalizing builders with
  | zero => omega
  | succ rounds ih =>
    obtain ⟨segment, after, htake, htakes⟩ := exists_takeNextSealed h
    rw [drainSealed, drainSealed, htake]
    cases htakes with
    | drained => rfl
    | taken hsealed hwellFormed _ =>
      rw [hsealed, length_cons] at hrounds ⊢
      exact ih hwellFormed (by dsimp only [afterTake]; omega)

end Draining

/-! ## Pushing -/

/-- The sum of an estimate over the rows of some owners, one owner after the other. -/
theorem sum_map_flatMap {α β : Type} (owners : List α) (rows : α → List β) (estimate : β → Nat) :
    ((owners.flatMap rows).map estimate).sum =
      (owners.map fun owner => ((rows owner).map estimate).sum).sum := by
  induction owners with
  | nil => rfl
  | cons owner rest ih =>
    rw [flatMap_cons, map_append, sum_append, ih, map_cons, sum_cons]

section Pushing

variable [Chrono]
variable {builders : SegmentBuilders} {batch : NormalizedBatch} {observedAt : Nat}
variable {after : SegmentBuilders} {reason : SealingReason}

/-- Nothing expires where nothing is open. -/
theorem sealExpiredAt_of_nil (hopened : builders.opened = []) :
    { builders with lastObservedAt := some observedAt }.sealExpiredAt observedAt =
      .ok { builders with lastObservedAt := some observedAt } := by
  rw [sealExpiredAt, expiredKeys]
  simp only [hopened, filter_nil, map_nil]
  rfl

/-- Nothing is open behind a flush. -/
theorem opened_sealAll (hseal : builders.sealAllWithReason reason = .ok after) :
    after.opened = [] := by
  obtain ⟨added, hkeys, hseals⟩ := seals_sealKeys hseal
  rw [hseals.opened, hkeys, filter_eq_nil_iff]
  intro entry hentry
  simpa using ⟨entry.2, hentry⟩

variable [SerdeJson] [Layout]

theorem Fits.passes (h : Fits builders.limits batch)
    (hresident : builders.estimatedResidentBytes = 0)
    (hstaging : builders.estimatedStagingBytes = 0)
    (hsequence : builders.accessSequence + batch.acceptedRows.length < 2 ^ 64) :
    builders.Passes batch where
  resident_lt := by rw [hresident, Nat.zero_add]; exact h.resident_lt
  staging_lt := by rw [hstaging, Nat.zero_add]; exact h.staging_lt
  resident_le := by rw [hresident, Nat.zero_add]; exact h.resident_le
  staging_le := by rw [hstaging, Nat.zero_add]; exact h.staging_le
  sequence_lt := hsequence

/-- What `push_batch` does to builders without an open one. -/
theorem pushes_of_nil (h : builders.WellFormed) (hopened : builders.opened = [])
    (htime : ∀ previous, builders.lastObservedAt = some previous → previous ≤ observedAt)
    (batch : NormalizedBatch) :
    Pushes { builders with lastObservedAt := some observedAt } batch observedAt
      (builders.pushBatch batch observedAt) := by
  obtain ⟨_, haged, -, hpushes⟩ := pushes_pushBatch h batch htime
  obtain rfl := Except.ok.inj ((sealExpiredAt_of_nil hopened).symm.trans haged)
  exact hpushes

/-- Builders that own nothing take every batch that fits them. -/
theorem pushBatch_of_empty (h : builders.WellFormed) (hopened : builders.opened = [])
    (htime : ∀ previous, builders.lastObservedAt = some previous → previous ≤ observedAt)
    (hpasses : builders.Passes batch) :
    ∃ after, builders.pushBatch batch observedAt =
        .ok (.accepted ⟨batch.metadata, batch.deadLetters, batch.ignoredRecords⟩, after) ∧
      { builders with lastObservedAt := some observedAt }.Moves (batchRows batch) after := by
  have hpushes := pushes_of_nil h hopened htime batch
  have hlt := hpasses.sequence_lt
  have hresident := hpasses.resident_lt
  have hstaging := hpasses.staging_lt
  generalize builders.pushBatch batch observedAt = result at hpushes
  cases hpushes with
  | overflow _ hover => dsimp only at hover; omega
  | exceeds hexceeds => exact absurd hexceeds hpasses.fits.not_exceeds
  | deferred _ hpressure => exact absurd ⟨hpasses.resident_le, hpasses.staging_le⟩ hpressure
  | exhausted _ _ hsequence => dsimp only at hsequence; omega
  | accepted _ hrecords =>
    exact ⟨_, rfl, (moves_pushRecords (h.observed observedAt) hrecords).1⟩

/-- Builders that own nothing refuse a batch that fits them only for the access sequence. -/
theorem pushBatch_of_exhausted (h : builders.WellFormed) (hopened : builders.opened = [])
    (hresident : builders.estimatedResidentBytes = 0)
    (hstaging : builders.estimatedStagingBytes = 0)
    (htime : ∀ previous, builders.lastObservedAt = some previous → previous ≤ observedAt)
    (hfits : Fits builders.limits batch)
    (hsequence : 2 ^ 64 ≤ builders.accessSequence + batch.acceptedRows.length) :
    builders.pushBatch batch observedAt = .error .accessSequenceExhausted := by
  have hpushes := pushes_of_nil h hopened htime batch
  have hresident_lt := hfits.resident_lt
  have hstaging_lt := hfits.staging_lt
  generalize builders.pushBatch batch observedAt = result at hpushes
  cases hpushes with
  | overflow _ hover => dsimp only at hover; omega
  | exceeds hexceeds => exact absurd hexceeds hfits.not_exceeds
  | deferred _ hpressure =>
    refine absurd ⟨?_, ?_⟩ hpressure <;> dsimp only
    · rw [hresident, Nat.zero_add]
      exact hfits.resident_le
    · rw [hstaging, Nat.zero_add]
      exact hfits.staging_le
  | exhausted => rfl
  | accepted hpasses => exact absurd hpasses.sequence_lt (Nat.not_lt.mpr hsequence)

theorem fits_of_pushBatch {outcome : SegmentBuildOutcome} (h : builders.WellFormed)
    (hpush : builders.pushBatch batch observedAt = .ok (outcome, after)) :
    Fits builders.limits batch := by
  obtain ⟨aged, -, hmoves, hpushes⟩ := pushBatch_eq_ok h hpush
  rw [show builders.limits = aged.limits from hmoves.limits.symm]
  cases hpushes with
  | deferred hfits => exact hfits
  | accepted hpasses => exact hpasses.fits

/-- A batch that was given back : everything is sealed, and nothing is left once it is
drained. -/
theorem drained_of_deferred {deferred : SegmentBuilders} (h : builders.WellFormed)
    {returned : NormalizedBatch} {capacity : SegmentCapacity}
    (hpush : builders.pushBatch batch observedAt = .ok (.deferred returned capacity, deferred)) :
    returned = batch ∧ ∃ drained,
      (∀ rounds, deferred.sealed.length < rounds →
        drainSealed rounds deferred = some (.ok drained)) ∧
      drained.WellFormed ∧ drained.opened = [] ∧ drained.sealed = [] ∧
      drained.limits = builders.limits ∧ drained.lastObservedAt = some observedAt ∧
      drained.accessSequence = builders.accessSequence := by
  obtain ⟨aged, -, hmoves, hpushes⟩ := pushBatch_eq_ok h hpush
  cases hpushes with
  | deferred _ _ _ hseal =>
    have hmoves := hmoves.trans (moves_sealKeys hmoves.wellFormed hseal)
    obtain ⟨drained, hdrained, hwf, hsealed, hopened, hlimits, htime, hsequence⟩ :=
      drainSealed_of_wellFormed hmoves.wellFormed (Nat.lt_succ_self _)
    refine ⟨rfl, drained, fun rounds hrounds => ?_, hwf, hopened.trans (opened_sealAll hseal),
      hsealed, hlimits.trans hmoves.limits, htime.trans hmoves.lastObservedAt,
      hsequence.trans hmoves.accessSequence⟩
    rw [drainSealed_eq hmoves.wellFormed hrounds, hdrained]

/-- Builders that would own too much with the rows of a batch give it back. -/
theorem pushBatch_of_pressure (h : builders.WellFormed)
    (htime : ∀ previous, builders.lastObservedAt = some previous → previous ≤ observedAt)
    (hfits : Fits builders.limits batch)
    (hresident : builders.estimatedResidentBytes + rowsResidentBytes batch.acceptedRows < 2 ^ 64)
    (hstaging : builders.estimatedStagingBytes + rowsUncompressedBytes batch.acceptedRows < 2 ^ 64)
    (hpressure : builders.limits.maximumStagingBytes <
      builders.estimatedStagingBytes + rowsUncompressedBytes batch.acceptedRows) :
    ∃ capacity deferred,
      builders.pushBatch batch observedAt = .ok (.deferred batch capacity, deferred) := by
  obtain ⟨aged, -, hmoves, hpushes⟩ := pushes_pushBatch h batch htime
  have hlimits : aged.limits = builders.limits := hmoves.limits
  obtain ⟨hres, hstg⟩ := hmoves.totals (h.observed observedAt)
  have hres : aged.estimatedResidentBytes = builders.estimatedResidentBytes := hres
  have hstg : aged.estimatedStagingBytes = builders.estimatedStagingBytes := hstg
  rw [← hlimits] at hfits hpressure
  generalize builders.pushBatch batch observedAt = result at hpushes
  cases hpushes with
  | overflow _ hover => omega
  | exceeds hexceeds => exact absurd hexceeds hfits.not_exceeds
  | deferred _ _ capacity => exact ⟨capacity, _, rfl⟩
  | exhausted _ hroomy => exact absurd hroomy.2 (by omega)
  | accepted hpasses =>
    have hle := hpasses.staging_le
    omega

end Pushing

/-! ## The loop of the worker -/

section Loop

variable [Chrono] {builders : SegmentBuilders}

/-- What holds of the builders between two calls. -/
structure Accounted (builders : SegmentBuilders) : Prop where
  resident : builders.estimatedResidentBytes =
    (builders.opened.map (·.2.estimatedResidentBytes)).sum +
      (builders.sealed.map (·.estimatedResidentBytes)).sum
  staging : builders.estimatedStagingBytes =
    (builders.opened.map (·.2.estimatedUncompressedBytes)).sum +
      (builders.sealed.map (·.estimatedUncompressedBytes)).sum
  opened_sums : ∀ entry ∈ builders.opened,
    entry.2.estimatedResidentBytes = residentBytes entry.2.rows ∧
      entry.2.estimatedUncompressedBytes = uncompressedBytes entry.2.rows
  sealed_sums : ∀ segment ∈ builders.sealed,
    segment.estimatedResidentBytes = residentBytes segment.rows ∧
      segment.estimatedUncompressedBytes = uncompressedBytes segment.rows
  resident_le : builders.estimatedResidentBytes ≤ builders.limits.maximumEstimatedResidentBytes
  staging_le : builders.estimatedStagingBytes ≤ builders.limits.maximumStagingBytes
  length_le : builders.opened.length ≤ builders.limits.maximumOpenBuilders
  opened : ∀ entry ∈ builders.opened, entry.2.rows ≠ [] ∧
    entry.2.rows.length < builders.limits.targetRows ∧
    entry.2.estimatedUncompressedBytes < builders.limits.targetEstimatedBytes

/-- Builders within their limits are accounted for. -/
theorem accounted_of (h : builders.WellFormed) (hsized : builders.Sized) (hwithin : builders.Within) :
    builders.Accounted where
  resident := by
    rw [h.resident, rows, residentBytes_append, residentBytes, residentBytes, sum_map_flatMap,
      sum_map_flatMap]
    have hopened := map_congr_left fun entry hentry => (h.opened entry hentry).resident
    have hsealed := map_congr_left fun segment hsegment => (h.sealed segment hsegment).resident
    rw [hopened, hsealed]
    rfl
  staging := by
    rw [h.staging, rows, uncompressedBytes_append, uncompressedBytes, uncompressedBytes,
      sum_map_flatMap, sum_map_flatMap]
    have hopened := map_congr_left fun entry hentry => (h.opened entry hentry).uncompressed
    have hsealed :=
      map_congr_left fun segment hsegment => (h.sealed segment hsegment).uncompressed
    rw [hopened, hsealed]
    rfl
  opened_sums := fun entry hentry =>
    ⟨(h.opened entry hentry).resident, (h.opened entry hentry).uncompressed⟩
  sealed_sums := fun segment hsegment =>
    ⟨(h.sealed segment hsegment).resident, (h.sealed segment hsegment).uncompressed⟩
  resident_le := hwithin.resident
  staging_le := hwithin.staging
  length_le := hsized.length_le
  opened := fun entry hentry => ⟨(h.opened entry hentry).rows_ne,
    (hsized.opened entry hentry).rows_lt, (hsized.opened entry hentry).bytes_lt⟩

/-- Builders that own nothing and have inserted so many rows, at the instant 0. -/
structure Idle (limits : SegmentBuildLimits) (inserted : Nat) (builders : SegmentBuilders) :
    Prop where
  wellFormed : builders.WellFormed
  opened : builders.opened = []
  sealed : builders.sealed = []
  limits : builders.limits = limits
  accessSequence : builders.accessSequence = inserted
  lastObservedAt : ∀ previous, builders.lastObservedAt = some previous → previous ≤ 0

/-- Idle builders own no bytes. -/
theorem Idle.totals {limits : SegmentBuildLimits} {inserted : Nat}
    (h : Idle limits inserted builders) :
    builders.estimatedResidentBytes = 0 ∧ builders.estimatedStagingBytes = 0 := by
  have hrows : builders.rows = [] := by rw [rows, h.opened, h.sealed]; rfl
  rw [h.wellFormed.resident, h.wellFormed.staging, hrows]
  exact ⟨rfl, rfl⟩

variable [SerdeJson] [Layout]

/-- The loop of `process_batch`, as far as it is about the builders : one round for each
instant it reads. -/
def pushCandidate : List Nat → SegmentBuilders → NormalizedBatch →
    Option (Except SegmentBuildError (SegmentBuildSummary × SegmentBuilders))
  | [], _, _ => none
  | observedAt :: instants, builders, candidate =>
    match builders.pushBatch candidate observedAt with
    | .error error => some (.error error)
    | .ok (.accepted summary, after) => some (.ok (summary, after))
    | .ok (.deferred batch _, after) =>
      match drainSealed (after.sealed.length + 1) after with
      | none => none
      | some (.error error) => some (.error error)
      | some (.ok drained) => pushCandidate instants drained batch

/-- What a retry finds : the batch is taken, or the access sequence cannot count its rows. -/
structure Retries (builders : SegmentBuilders) (batch : NormalizedBatch) (observedAt : Nat)
    (drained : SegmentBuilders) : Prop where
  accepted : builders.accessSequence + batch.acceptedRows.length < 2 ^ 64 →
    ∀ retriedAt, observedAt ≤ retriedAt → ∃ after, drained.pushBatch batch retriedAt =
      .ok (.accepted ⟨batch.metadata, batch.deadLetters, batch.ignoredRecords⟩, after)
  exhausted : 2 ^ 64 ≤ builders.accessSequence + batch.acceptedRows.length →
    ∀ retriedAt, observedAt ≤ retriedAt →
      drained.pushBatch batch retriedAt = .error .accessSequenceExhausted
  backwards : ∀ retriedAt, retriedAt < observedAt →
    drained.pushBatch batch retriedAt = .error .clockMovedBackwards

theorem retries_of_deferred {deferred : SegmentBuilders} (h : builders.WellFormed)
    {batch returned : NormalizedBatch} {observedAt : Nat} {capacity : SegmentCapacity}
    (hpush : builders.pushBatch batch observedAt = .ok (.deferred returned capacity, deferred)) :
    returned = batch ∧ ∃ drained,
      (∀ rounds, deferred.sealed.length < rounds →
        drainSealed rounds deferred = some (.ok drained)) ∧
      builders.Retries batch observedAt drained := by
  obtain ⟨hreturned, drained, hdrain, hwf, hopened, hsealed, hlimits, hlast, hsequence⟩ :=
    drained_of_deferred h hpush
  have hfits := fits_of_pushBatch h hpush
  rw [← hlimits] at hfits
  have hrows : drained.rows = [] := by rw [rows, hopened, hsealed]; rfl
  have hresident : drained.estimatedResidentBytes = 0 := by rw [hwf.resident, hrows]; rfl
  have hstaging : drained.estimatedStagingBytes = 0 := by rw [hwf.staging, hrows]; rfl
  have htime {retriedAt : Nat} (hle : observedAt ≤ retriedAt) :
      ∀ previous, drained.lastObservedAt = some previous → previous ≤ retriedAt := by
    intro previous hprevious
    obtain rfl := Option.some.inj (hlast.symm.trans hprevious)
    exact hle
  refine ⟨hreturned, drained, hdrain, ?_, ?_, ?_⟩
  · intro hlt retriedAt hle
    obtain ⟨after, hafter, -⟩ := pushBatch_of_empty hwf hopened (htime hle)
      (hfits.passes hresident hstaging (hsequence ▸ hlt))
    exact ⟨after, hafter⟩
  · intro hle' retriedAt hle
    exact pushBatch_of_exhausted hwf hopened hresident hstaging (htime hle) hfits
      (hsequence ▸ hle')
  · intro retriedAt hlt
    rw [pushBatch, observeTime, hlast]
    dsimp only
    rw [if_pos hlt]
    rfl

/-- The loop of the worker ends within two rounds, whatever the instants are. -/
theorem pushCandidate_ne_none (h : builders.WellFormed) (batch : NormalizedBatch)
    (observedAt retriedAt : Nat) :
    pushCandidate [observedAt, retriedAt] builders batch ≠ none := by
  rw [pushCandidate]
  split
  · simp
  · simp
  · next returned capacity deferred hpush =>
    obtain ⟨rfl, drained, hdrain, hretries⟩ := retries_of_deferred h hpush
    rw [hdrain _ (Nat.lt_succ_self _)]
    dsimp only
    rw [pushCandidate]
    rcases Nat.lt_or_ge retriedAt observedAt with hlt | hle
    · rw [hretries.backwards retriedAt hlt]
      simp
    · rcases Nat.lt_or_ge (builders.accessSequence + returned.acceptedRows.length) (2 ^ 64)
        with hlt | hge
      · obtain ⟨after, hafter⟩ := hretries.accepted hlt retriedAt hle
        rw [hafter]
        simp
      · rw [hretries.exhausted hge retriedAt hle]
        simp

/-! ## Whole runs -/

/-- What holds behind every run. A batch that passes the checks is inserted, and one that was
given back is taken once the builders are drained, as long as the access sequence can count
every row of the run and of the batch, and refused for the sequence if it cannot. -/
theorem builders_accounted (limits : SegmentBuildLimits) (operations : List BuilderOperation) :
    let calls := (withLimits limits).calls operations
    let builders := (withLimits limits).after operations
    builders.Accounted ∧
    (∀ call ∈ calls, call.reply ≠ .error .stateInconsistent) ∧
    (∀ batch observedAt aged,
      { builders with lastObservedAt := some observedAt }.sealExpiredAt observedAt = .ok aged →
      aged.Passes batch → ∃ after, pushRecords batch.metadata observedAt aged
        (batch.acceptedRows.map plannedRow) [] batch.records = .ok (after, batch.deadLetters)) ∧
    (∀ batch observedAt returned capacity deferred,
      builders.pushBatch batch observedAt = .ok (.deferred returned capacity, deferred) →
      returned = batch ∧ ∃ drained,
        (∀ rounds, deferred.sealed.length < rounds →
          drainSealed rounds deferred = some (.ok drained)) ∧
        ((calls.flatMap BuilderCall.insertedRows).length + batch.acceptedRows.length < 2 ^ 64 →
          ∀ retriedAt, observedAt ≤ retriedAt → ∃ summary after,
            drained.pushBatch batch retriedAt = .ok (.accepted summary, after)) ∧
        (2 ^ 64 ≤ (calls.flatMap BuilderCall.insertedRows).length + batch.acceptedRows.length →
          ∀ retriedAt, observedAt ≤ retriedAt →
            drained.pushBatch batch retriedAt = .error .accessSequenceExhausted)) ∧
    ∀ batch observedAt retriedAt,
      pushCandidate [observedAt, retriedAt] builders batch ≠ none := by
  intro calls builders
  obtain ⟨hcalls, hwf, -, -, hsized, hwithin, hsequence⟩ :=
    keeps_run (wellFormed_withLimits limits) operations
  refine ⟨accounted_of hwf (hsized (sized_withLimits limits)) (hwithin (within_withLimits limits)),
    fun call hcall => (hcalls call hcall).consistent, ?_, ?_, ?_⟩
  · intro batch observedAt aged haged hpasses
    have hmoves := moves_sealKeys (hwf.observed observedAt) haged
    exact hpasses.exists_pushRecords hmoves.wellFormed observedAt
  · intro batch observedAt returned capacity deferred hpush
    obtain ⟨hreturned, drained, hdrain, hretries⟩ := retries_of_deferred hwf hpush
    have hsequence : builders.accessSequence = (calls.flatMap BuilderCall.insertedRows).length :=
      hsequence.trans (Nat.zero_add _)
    refine ⟨hreturned, drained, hdrain, fun hlt retriedAt hle => ?_, fun hge => ?_⟩
    · obtain ⟨after, hafter⟩ := hretries.accepted (hsequence ▸ hlt) retriedAt hle
      exact ⟨_, after, hafter⟩
    · exact hretries.exhausted (hsequence ▸ hge)
  · exact fun batch observedAt retriedAt => pushCandidate_ne_none hwf batch observedAt retriedAt

/-! ## The access sequence runs out -/

theorem after_append (builders : SegmentBuilders) (first second : List BuilderOperation) :
    builders.after (first ++ second) = (builders.after first).after second := by
  induction first generalizing builders with
  | nil => rfl
  | cons operation rest ih => exact ih _

/-- Draining is a run of takes. -/
theorem exists_takes {drained : SegmentBuilders} {rounds : Nat}
    (h : drainSealed rounds builders = some (.ok drained)) :
    ∃ operations, builders.after operations = drained := by
  induction rounds generalizing builders with
  | zero => cases h
  | succ rounds ih =>
    rw [drainSealed] at h
    split at h
    · cases h
    · next last htake =>
      obtain rfl := Except.ok.inj (Option.some.inj h)
      exact ⟨[.takeNextSealed], by simp only [after, call, htake]⟩
    · next segment next htake =>
      obtain ⟨operations, hoperations⟩ := ih h
      exact ⟨.takeNextSealed :: operations, by simp only [after, call, htake, hoperations]⟩

section Exhaustion

variable {limits : SegmentBuildLimits} {batch : NormalizedBatch}

/-- One row is pushed and published. -/
theorem Idle.succ {inserted : Nat} (hfits : Fits limits batch)
    (hrow : batch.acceptedRows.length = 1) (h : Idle limits inserted builders)
    (hlt : inserted + 1 < 2 ^ 64) :
    ∃ operations, Idle limits (inserted + 1) (builders.after operations) := by
  obtain ⟨hresident, hstaging⟩ := h.totals
  obtain ⟨pushed, hpush, hmoves⟩ :=
    pushBatch_of_empty h.wellFormed h.opened h.lastObservedAt
      ((h.limits ▸ hfits : Fits builders.limits batch).passes hresident hstaging
        (by rw [h.accessSequence, hrow]; exact hlt))
  obtain ⟨flushed, hflush, hmoves'⟩ := sealAllWithReason_of_wellFormed hmoves.wellFormed .flush
  have hmoves := hmoves.trans hmoves'
  obtain ⟨drained, hdrain, hwf', hsealed, hopened, hlimits, htime, hsequence⟩ :=
    drainSealed_of_wellFormed hmoves.wellFormed (Nat.lt_succ_self _)
  obtain ⟨takes, htakes⟩ := exists_takes hdrain
  have hflush : pushed.flushAll = .ok flushed := hflush
  refine ⟨.pushBatch batch 0 :: .flushAll :: takes, ?_⟩
  have hrun : builders.after (.pushBatch batch 0 :: .flushAll :: takes) = drained := by
    simp only [after, call, hpush, hflush, htakes]
  rw [hrun]
  refine ⟨hwf', hopened.trans (opened_sealAll hflush), hsealed, ?_, ?_, ?_⟩
  · rw [hlimits, hmoves.limits, h.limits]
  · rw [hsequence, hmoves.accessSequence, h.accessSequence, append_nil, batchRows,
      length_map, hrow]
  · intro previous hprevious
    rw [htime, hmoves.lastObservedAt] at hprevious
    exact (Option.some.inj hprevious).ge

theorem exists_idle (hfits : Fits limits batch) (hrow : batch.acceptedRows.length = 1)
    (inserted : Nat) (hlt : inserted < 2 ^ 64) :
    ∃ operations, Idle limits inserted ((withLimits limits).after operations) := by
  induction inserted with
  | zero =>
    exact ⟨[], wellFormed_withLimits limits, rfl, rfl, rfl, rfl, by simp [withLimits, after]⟩
  | succ inserted ih =>
    obtain ⟨operations, hidle⟩ := ih (by omega)
    obtain ⟨more, hidle⟩ := hidle.succ hfits hrow hlt
    exact ⟨operations ++ more, after_append _ operations more ▸ hidle⟩

/-- A row is pushed, and given back when it is pushed again. -/
theorem Idle.deferred {inserted : Nat} (hfits : Fits limits batch)
    (hrow : batch.acceptedRows.length = 1)
    (hresident : 2 * rowsResidentBytes batch.acceptedRows < 2 ^ 64)
    (hstaging : 2 * rowsUncompressedBytes batch.acceptedRows < 2 ^ 64)
    (hpressure : limits.maximumStagingBytes < 2 * rowsUncompressedBytes batch.acceptedRows)
    (h : Idle limits inserted builders) (hlt : inserted + 1 < 2 ^ 64) :
    ∃ pushed capacity deferred, builders.after [.pushBatch batch 0] = pushed ∧
      pushed.WellFormed ∧ pushed.accessSequence = inserted + 1 ∧
      pushed.pushBatch batch 0 = .ok (.deferred batch capacity, deferred) := by
  obtain ⟨hresident', hstaging'⟩ := h.totals
  obtain ⟨pushed, hpush, hmoves⟩ :=
    pushBatch_of_empty h.wellFormed h.opened h.lastObservedAt
      ((h.limits ▸ hfits : Fits builders.limits batch).passes hresident' hstaging'
        (by rw [h.accessSequence, hrow]; exact hlt))
  obtain ⟨hres, hstg⟩ := hmoves.totals (h.wellFormed.observed 0)
  rw [map_snd_batchRows, residentBytes_segmentRows, hresident', Nat.zero_add] at hres
  rw [map_snd_batchRows, uncompressedBytes_segmentRows, hstaging', Nat.zero_add] at hstg
  have hlimits : pushed.limits = limits := hmoves.limits.trans h.limits
  obtain ⟨capacity, deferred, hdeferred⟩ := pushBatch_of_pressure hmoves.wellFormed
    (fun previous hprevious => (Option.some.inj (hmoves.lastObservedAt.symm.trans hprevious)).ge)
    (hlimits ▸ hfits) (by rw [hres]; omega) (by rw [hstg]; omega)
    (by rw [hlimits, hstg]; omega)
  refine ⟨pushed, capacity, deferred, ?_, hmoves.wellFormed, ?_, hdeferred⟩
  · simp only [after, call, hpush]
  · rw [hmoves.accessSequence, h.accessSequence, batchRows, length_map, hrow]

/-- A run that ends with a batch that is given back, and then refused by empty builders. -/
theorem exists_exhausted (hfits : Fits limits batch) (hrow : batch.acceptedRows.length = 1)
    (hresident : 2 * rowsResidentBytes batch.acceptedRows < 2 ^ 64)
    (hstaging : 2 * rowsUncompressedBytes batch.acceptedRows < 2 ^ 64)
    (hpressure : limits.maximumStagingBytes < 2 * rowsUncompressedBytes batch.acceptedRows) :
    ∃ operations capacity deferred drained,
      ((withLimits limits).after operations).pushBatch batch 0 =
        .ok (.deferred batch capacity, deferred) ∧
      drainSealed (deferred.sealed.length + 1) deferred = some (.ok drained) ∧
      drained.pushBatch batch 0 = .error .accessSequenceExhausted := by
  obtain ⟨operations, hidle⟩ := exists_idle hfits hrow (2 ^ 64 - 2) (by omega)
  obtain ⟨pushed, capacity, deferred, hrun, hwf, hsequence, hpush⟩ :=
    hidle.deferred hfits hrow hresident hstaging hpressure (by omega)
  rw [← after_append] at hrun
  obtain ⟨-, drained, hdrain, hretries⟩ := retries_of_deferred hwf hpush
  refine ⟨operations ++ [.pushBatch batch 0], capacity, deferred, drained, hrun ▸ hpush,
    hdrain _ (Nat.lt_succ_self _), hretries.exhausted ?_ 0 le_rfl⟩
  rw [hsequence, hrow]
  omega

end Exhaustion

end Loop

section Sample

attribute [local instance] Chrono.unbounded SerdeJson.plain Layout.sample

theorem fits_sampleBatch : Fits sampleLimits sampleBatch :=
  ⟨by decide, by decide, by decide, by decide⟩

/-- Behind 2 ^ 64 - 1 rows, a row that was given back is refused by empty builders. -/
theorem sampleBatch_exhausted :
    ∃ operations capacity deferred drained,
      ((withLimits sampleLimits).after operations).pushBatch sampleBatch 0 =
        .ok (.deferred sampleBatch capacity, deferred) ∧
      drainSealed (deferred.sealed.length + 1) deferred = some (.ok drained) ∧
      drained.pushBatch sampleBatch 0 = .error .accessSequenceExhausted :=
  exists_exhausted fits_sampleBatch rfl (by decide) (by decide) (by decide)

/-- Behind one row, the same row is given back, and taken once the builders are drained. -/
theorem builders_accounted_sampleBatch :
    ∃ capacity deferred drained summary after,
      ((withLimits sampleLimits).after [.pushBatch sampleBatch 0]).pushBatch sampleBatch 0 =
        .ok (.deferred sampleBatch capacity, deferred) ∧
      drainSealed (deferred.sealed.length + 1) deferred = some (.ok drained) ∧
      drained.pushBatch sampleBatch 0 = .ok (.accepted summary, after) := by
  have hidle : Idle sampleLimits 0 (withLimits sampleLimits) :=
    ⟨wellFormed_withLimits _, rfl, rfl, rfl, rfl, by simp [withLimits]⟩
  obtain ⟨pushed, capacity, deferred, hrun, -, hsequence, hpush⟩ :=
    hidle.deferred fits_sampleBatch rfl (by decide) (by decide) (by decide) (by decide)
  rw [← hrun] at hpush hsequence
  obtain ⟨-, -, -, hdeferred, -⟩ := builders_accounted sampleLimits [.pushBatch sampleBatch 0]
  obtain ⟨-, drained, hdrain, hretry, -⟩ := hdeferred _ _ _ _ _ hpush
  obtain ⟨-, -, -, -, -, -, hcount⟩ := keeps_run (wellFormed_withLimits sampleLimits)
    [.pushBatch sampleBatch 0]
  rw [hsequence] at hcount
  have hrow : sampleBatch.acceptedRows.length = 1 := rfl
  have hstart : (withLimits sampleLimits).accessSequence = 0 := rfl
  obtain ⟨summary, after, hafter⟩ := hretry (by omega) 0 le_rfl
  exact ⟨capacity, deferred, drained, summary, after, hpush, hdrain _ (Nat.lt_succ_self _), hafter⟩

end Sample

end Elucid.SegmentBuilders
