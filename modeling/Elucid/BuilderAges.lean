import Elucid.SegmentAccounting

/-!
# Ages of the segment builders

A builder is sealed when it has been open for the maximum duration, and when another one is
needed and the limit is reached, the one that was touched longest ago.

`Tracks` relates the builders to the rows of a run, in the order of their insertion : the
sequence number of a builder is the place of its last row there, also behind a seal and a
second builder of the same key. `builders_aged` : what a run keeps open is young, the next
expiration is exact, and the row that evicts a builder evicts the one whose last row is the
oldest (`Evicts`).
-/

namespace Elucid

open BigEndian List

/-! ## Histories -/

section History

variable {κ ρ : Type} [DecidableEq κ]

/-- The rows that were inserted behind the last one under a key. -/
def insertedSince (history : List (κ × ρ)) (key : κ) : Nat :=
  (history.reverse.takeWhile fun item => item.1 ≠ key).length

theorem insertedSince_concat_self (history : List (κ × ρ)) (key : κ) (row : ρ) :
    insertedSince (history ++ [(key, row)]) key = 0 := by
  simp [insertedSince]

theorem insertedSince_concat_of_ne (history : List (κ × ρ)) {key other : κ} (row : ρ)
    (h : other ≠ key) :
    insertedSince (history ++ [(key, row)]) other = insertedSince history other + 1 := by
  simp [insertedSince, h.symm]

end History

section Ages

variable [Chrono]
variable {builders after : SegmentBuilders} {history : List (SegmentKey × SegmentRow)}
  {key : SegmentKey} {metadata : BatchMetadata} {observedAt : Nat}

/-- The instant of a call. -/
def BuilderOperation.observedAt? : BuilderOperation → Option Nat
  | .pushBatch _ observedAt => some observedAt
  | .sealExpired observedAt => some observedAt
  | .flushAll => none
  | .takeNextSealed => none

namespace SegmentBuilders

variable {row : SegmentRow} {added : List SealedSegment} {reason : SealingReason}

/-! ## Expirations -/

/-- `Instant::checked_duration_since`. -/
def checkedDurationSince (later earlier : Nat) : Option Nat :=
  if earlier ≤ later then some (later - earlier) else none

/-- `next_expiration_in`. -/
def nextExpirationIn (builders : SegmentBuilders) (observedAt : Nat) :
    Except SegmentBuildError (Option Nat) := do
  ensure (builders.lastObservedAt.all fun previous => previous ≤ observedAt) .clockMovedBackwards
  builders.opened.foldlM (fun earliest entry => do
    let age ← okOr (checkedDurationSince observedAt entry.2.openedAt) .clockMovedBackwards
    let remaining := builders.limits.maximumOpenDuration - age
    return some (earliest.elim remaining fun current => min current remaining)) none

/-- The time that is left to a builder. -/
def remaining (builders : SegmentBuilders) (observedAt : Nat) (builder : OpenSegment) : Nat :=
  builders.limits.maximumOpenDuration - (observedAt - builder.openedAt)

/-- No builder was opened behind an instant. -/
def OpenedBy (builders : SegmentBuilders) (instant : Nat) : Prop :=
  ∀ entry ∈ builders.opened, entry.2.openedAt ≤ instant

/-- The fold of `next_expiration_in`, behind its first builder. -/
theorem foldlM_remaining (builders : SegmentBuilders) {entries : List (SegmentKey × OpenSegment)}
    (h : ∀ entry ∈ entries, entry.2.openedAt ≤ observedAt) (current : Nat) :
    entries.foldlM (m := Except SegmentBuildError) (fun earliest entry => do
        let age ← okOr (checkedDurationSince observedAt entry.2.openedAt) .clockMovedBackwards
        let remaining := builders.limits.maximumOpenDuration - age
        return some (earliest.elim remaining fun current => min current remaining))
      (some current) =
      .ok (some ((entries.map fun entry => builders.remaining observedAt entry.2).foldl min
        current)) := by
  induction entries generalizing current with
  | nil => rfl
  | cons entry entries ih =>
    obtain ⟨hentry, hentries⟩ := forall_mem_cons.mp h
    rw [foldlM_cons, checkedDurationSince, if_pos hentry, okOr_some, ok_bind, map_cons,
      foldl_cons]
    exact ih hentries _

/-- The least time that is left. -/
theorem nextExpirationIn_eq
    (htime : ∀ previous, builders.lastObservedAt = some previous → previous ≤ observedAt)
    (hopened : builders.OpenedBy observedAt) :
    builders.nextExpirationIn observedAt =
      .ok (builders.opened.map fun entry => builders.remaining observedAt entry.2).min? := by
  have hclock : builders.lastObservedAt.all (fun previous => previous ≤ observedAt) = true := by
    cases hlast : builders.lastObservedAt with
    | none => rfl
    | some previous => simpa using htime previous hlast
  rw [nextExpirationIn, ensure_of hclock, ok_bind]
  unfold OpenedBy at hopened
  cases hentries : builders.opened with
  | nil => rfl
  | cons entry entries =>
    rw [hentries] at hopened
    obtain ⟨hentry, hentries⟩ := forall_mem_cons.mp hopened
    rw [foldlM_cons, checkedDurationSince, if_pos hentry, okOr_some, ok_bind, map_cons,
      min?_cons']
    exact foldlM_remaining builders hentries _

/-- Behind the time that is left, a seal of the expired builders seals one. -/
theorem sealExpired_of_remaining (h : builders.WellFormed) {duration : Nat}
    (htime : ∀ previous, builders.lastObservedAt = some previous → previous ≤ observedAt)
    (hopened : builders.OpenedBy observedAt)
    (hexpires : ∃ entry ∈ builders.opened, builders.remaining observedAt entry.2 = duration) :
    ∃ after added, builders.sealExpired (observedAt + duration) = .ok after ∧ added ≠ [] ∧
      after.sealed = builders.sealed ++ added ∧
      after.opened.length < builders.opened.length := by
  obtain ⟨entry, hentry, rfl⟩ := hexpires
  generalize hlater : observedAt + builders.remaining observedAt entry.2 = later
  have hle : observedAt ≤ later := hlater ▸ Nat.le_add_right _ _
  have hobserved := observeTime_of_le fun previous hprevious => (htime previous hprevious).trans hle
  obtain ⟨after, hafter, -⟩ := sealExpiredAt_of_wellFormed (h.observed later) later
  obtain ⟨added, hkeys, hseals⟩ := seals_sealKeys hafter
  have hexpired : entry.1 ∈ added.map (·.key) := by
    have hage := hopened entry hentry
    rw [hkeys]
    refine mem_map_of_mem (mem_filter.mpr ⟨hentry, decide_eq_true ⟨by omega, ?_⟩⟩)
    unfold remaining at hlater
    dsimp only
    omega
  refine ⟨after, added, ?_, ?_, hseals.sealed, ?_⟩
  · rw [sealExpired, hobserved, ok_bind, hafter]
  · rintro rfl
    cases hexpired
  · rw [hseals.opened]
    exact length_filter_lt_length_iff_exists.mpr ⟨entry, hentry, by simpa using hexpired⟩

/-! ## Insertions -/

/-- A row is put into the builder of its key, which keeps its instant, or into a new one. -/
theorem mem_opened_addRow (h : builders.WellFormed)
    (hadd : builders.addRow key row observedAt = .ok after) :
    (∀ entry ∈ after.opened, entry.1 ≠ key → entry ∈ builders.opened) ∧
      ∀ entry ∈ after.opened, entry.1 = key →
        entry.2.lastTouchedSequence = builders.accessSequence + 1 ∧
        entry.2.rows.getLast? = some row ∧
        (entry.2.openedAt = observedAt ∨
          ∃ other ∈ builders.opened, entry.2.openedAt = other.2.openedAt) := by
  obtain ⟨opened, touched, htouches, hperm, rfl⟩ := addRow_eq_ok h hadd
  refine ⟨fun entry hentry hne => ?_, fun entry hentry heq => ?_⟩
  · rcases mem_cons.mp (hperm.mem_iff.mp hentry) with rfl | hentry
    · exact absurd rfl hne
    · exact mem_of_mem_filter hentry
  · rcases mem_cons.mp (hperm.mem_iff.mp hentry) with rfl | hentry
    swap
    · exact absurd heq (of_decide_eq_true (mem_filter.mp hentry).2)
    cases htouches with
    | pushed hopen hpush =>
      rw [OpenSegment.push_eq_ok hpush]
      exact ⟨rfl, by simp, .inr ⟨_, mem_of_openAt hopen, rfl⟩⟩
    | opened => exact ⟨rfl, rfl, .inl rfl⟩

/-- The builder of the key is sealed for its size only. -/
theorem seals_sealIfTooLarge {bytes : Nat} (h : builders.sealIfTooLarge key bytes = .ok after) :
    after = builders ∨ builders.openAt key ≠ none ∧ ∃ segment, segment.key = key ∧
      segment.sealingReason = .byteTarget ∧ builders.Seals [segment] after := by
  rw [sealIfTooLarge] at h
  split at h
  · rename_i hopen
    obtain ⟨_, -, h⟩ := bind_eq_ok.mp h
    split at h
    · exact .inr ⟨by simp [hopen], seals_sealKey h⟩
    · exact .inl (Except.ok.inj h).symm
  · exact .inl (Except.ok.inj h).symm

theorem seals_sealIfFull (h : builders.sealIfFull key = .ok after) :
    ∃ added, (∀ segment ∈ added, segment.sealingReason ≠ .builderLimit) ∧
      builders.Seals added after := by
  obtain ⟨_, -, h⟩ := bind_eq_ok.mp h
  split at h
  · obtain ⟨segment, -, hreason, hseals⟩ := seals_sealKey h
    exact ⟨_, by simp [hreason], hseals⟩
  split at h
  · obtain ⟨segment, -, hreason, hseals⟩ := seals_sealKey h
    exact ⟨_, by simp [hreason], hseals⟩
  · obtain rfl := Except.ok.inj h
    exact ⟨[], by simp, .refl _⟩

/-- The builder that makes room was touched longest ago. -/
theorem seals_makeRoom (h : builders.makeRoom key = .ok after) :
    if builders.openAt key = none ∧
        builders.opened.length = builders.limits.maximumOpenBuilders then
      ∃ victim ∈ builders.opened, ∃ segment, segment.key = victim.1 ∧
        segment.sealingReason = .builderLimit ∧ builders.Seals [segment] after ∧
        ∀ entry ∈ builders.opened,
          victim.2.lastTouchedSequence ≤ entry.2.lastTouchedSequence
    else after = builders := by
  rw [makeRoom] at h
  split at h
  · rename_i hfull
    rw [if_pos hfull]
    obtain ⟨victim, hvictim, h⟩ := bind_eq_ok.mp h
    obtain ⟨entry, hentry, rfl⟩ := Option.map_eq_some_iff.mp (okOr_eq_ok hvictim)
    obtain ⟨segment, hkey, hreason, hseals⟩ := seals_sealKey h
    exact ⟨entry, argmin_mem hentry, segment, hkey, hreason, hseals,
      fun other hother =>
        le_of_mem_argmin (f := fun entry => entry.2.lastTouchedSequence) hother hentry⟩
  · rename_i hfull
    rw [if_neg hfull]
    exact (Except.ok.inj h).symm

/-! ## Recency -/

/-- The sequence numbers are places in a history, and the last row of a builder is the last
one under its key. -/
structure Tracks (history : List (SegmentKey × SegmentRow)) (builders : SegmentBuilders) :
    Prop where
  accessSequence : builders.accessSequence = history.length
  sequence : ∀ entry ∈ builders.opened,
    entry.2.lastTouchedSequence + insertedSince history entry.1 = history.length
  lastRow : ∀ entry ∈ builders.opened, ∃ row, entry.2.rows.getLast? = some row ∧
    history.reverse[insertedSince history entry.1]? = some (entry.1, row)

theorem Tracks.seals (h : Tracks history builders) (hseals : builders.Seals added after) :
    Tracks history after where
  accessSequence := hseals.accessSequence.trans h.accessSequence
  sequence := fun entry hentry => h.sequence entry (hseals.subset hentry)
  lastRow := fun entry hentry => h.lastRow entry (hseals.subset hentry)

theorem Tracks.addRow (h : Tracks history builders) (hwf : builders.WellFormed)
    (hadd : builders.addRow key row observedAt = .ok after) :
    Tracks (history ++ [(key, row)]) after := by
  obtain ⟨hothers, hkey⟩ := mem_opened_addRow hwf hadd
  obtain ⟨_, _, -, -, rfl⟩ := addRow_eq_ok hwf hadd
  refine ⟨?_, ?_, ?_⟩
  · rw [h.accessSequence, length_append, length_singleton]
  · intro entry hentry
    rw [length_append, length_singleton]
    by_cases heq : entry.1 = key
    · rw [(hkey entry hentry heq).1, heq, insertedSince_concat_self, h.accessSequence,
        Nat.add_zero]
    · rw [insertedSince_concat_of_ne _ _ heq, ← Nat.add_assoc,
        h.sequence entry (hothers entry hentry heq)]
  · intro entry hentry
    rw [reverse_append, reverse_singleton, singleton_append]
    by_cases heq : entry.1 = key
    · refine ⟨row, (hkey entry hentry heq).2.1, ?_⟩
      rw [heq, insertedSince_concat_self]
      rfl
    · rw [insertedSince_concat_of_ne _ _ heq, getElem?_cons_succ]
      exact h.lastRow entry (hothers entry hentry heq)

/-- The open builder whose last row is the oldest. -/
structure Oldest (history : List (SegmentKey × SegmentRow)) (builders : SegmentBuilders)
    (key : SegmentKey) : Prop where
  mem : key ∈ builders.opened.map (·.1)
  older : ∀ other ∈ builders.opened.map (·.1), other ≠ key →
    insertedSince history other < insertedSince history key

/-- A row under a key evicts a builder exactly if it needs one more than there may be, and
then the one whose last row is the oldest. -/
def Evicts (history : List (SegmentKey × SegmentRow)) (builders : SegmentBuilders)
    (key : SegmentKey) (after : SegmentBuilders) : Prop :=
  ∃ added, after.sealed = builders.sealed ++ added ∧
    (∀ segment ∈ added, segment.sealingReason = .builderLimit →
      Oldest history builders segment.key) ∧
    ((∃ segment ∈ added, segment.sealingReason = .builderLimit) ↔
      builders.openAt key = none ∧
        builders.opened.length = builders.limits.maximumOpenBuilders)

/-- The sequence numbers are in the order of the history. -/
theorem Tracks.oldest (h : Tracks history builders) {victim : SegmentKey × OpenSegment}
    (hvictim : victim ∈ builders.opened) (hleast : ∀ entry ∈ builders.opened,
      victim.2.lastTouchedSequence ≤ entry.2.lastTouchedSequence) :
    Oldest history builders victim.1 := by
  refine ⟨mem_map_of_mem hvictim, fun other hother hne => ?_⟩
  obtain ⟨entry, hentry, rfl⟩ := mem_map.mp hother
  have hle := hleast entry hentry
  have hsequence := h.sequence entry hentry
  have hsequence' := h.sequence victim hvictim
  -- one place has one key
  have hplaces : insertedSince history entry.1 ≠ insertedSince history victim.1 := by
    intro heq
    obtain ⟨_, -, hplace⟩ := h.lastRow entry hentry
    obtain ⟨_, -, hplace'⟩ := h.lastRow victim hvictim
    rw [heq, hplace'] at hplace
    exact hne (Prod.mk.inj (Option.some.inj hplace)).1.symm
  omega

/-- The end of `push_row`, behind the seals in front of it. -/
theorem Tracks.insert (h : Tracks history builders) (hwf : builders.WellFormed)
    (hinsert : (builders.addRow key row observedAt >>= fun added => added.sealIfFull key) =
      .ok after) :
    Tracks (history ++ [(key, row)]) after ∧ ∃ added,
      after.sealed = builders.sealed ++ added ∧
      ∀ segment ∈ added, segment.sealingReason ≠ .builderLimit := by
  obtain ⟨next, hadd, hfull⟩ := bind_eq_ok.mp hinsert
  obtain ⟨added, hreasons, hseals⟩ := seals_sealIfFull hfull
  refine ⟨(h.addRow hwf hadd).seals hseals, added, ?_, hreasons⟩
  obtain ⟨_, _, -, -, rfl⟩ := addRow_eq_ok hwf hadd
  exact hseals.sealed

section Batches

variable [SerdeJson] [Layout]
variable {operation : BuilderOperation} {inserted : List (SegmentKey × SegmentRow)}
  {rows : List AcceptedRow} {row : AcceptedRow} {P : Nat → Prop}

theorem Tracks.pushRow (h : Tracks history builders) (hwf : builders.WellFormed)
    (hsized : builders.Sized)
    (hpush : builders.pushRow metadata row (plannedRow row) observedAt = .ok after) :
    Tracks (history ++ [keyedRow metadata row]) after ∧
      Evicts history builders (rowKey metadata row) after := by
  obtain ⟨first, hfirst, hpush⟩ := bind_eq_ok.mp hpush
  obtain ⟨second, hsecond, hinsert⟩ := bind_eq_ok.mp hpush
  have hwf' := (moves_sealIfTooLarge hwf hfirst).1.wellFormed
  have hwf'' := (moves_makeRoom hwf' hsecond).1.wellFormed
  have hroom := seals_makeRoom hsecond
  rcases seals_sealIfTooLarge hfirst with rfl | ⟨hopen, segment, hkey, hreason, hseals⟩
  · split at hroom
    · -- the row needs one more builder
      rename_i hfull
      obtain ⟨victim, hvictim, segment, hkey, hreason, hseals, hleast⟩ := hroom
      obtain ⟨htracks, added, hsealed, hreasons⟩ := (h.seals hseals).insert hwf'' hinsert
      refine ⟨htracks, segment :: added, ?_, ?_, ?_⟩
      · rw [hsealed, hseals.sealed, append_assoc, singleton_append]
      · intro other hother hlimit
        rcases mem_cons.mp hother with rfl | hother
        · exact hkey ▸ h.oldest hvictim hleast
        · exact absurd hlimit (hreasons other hother)
      · exact ⟨fun _ => hfull, fun _ => ⟨segment, mem_cons_self, hreason⟩⟩
    · rename_i hroomy
      subst hroom
      obtain ⟨htracks, added, hsealed, hreasons⟩ := h.insert hwf'' hinsert
      refine ⟨htracks, added, hsealed, fun other hother hlimit =>
        absurd hlimit (hreasons other hother), ?_⟩
      exact ⟨fun ⟨other, hother, hlimit⟩ => absurd hlimit (hreasons other hother),
        fun hfull => absurd hfull hroomy⟩
  · -- the builder of the key was sealed, so there is room for another one
    have hlength : first.opened.length < builders.opened.length := by
      obtain ⟨builder, hbuilder⟩ := Option.ne_none_iff_exists'.mp hopen
      rw [hseals.opened]
      exact length_filter_lt_length_iff_exists.mpr
        ⟨_, mem_of_openAt hbuilder, by simp [hkey]⟩
    rw [if_neg] at hroom
    swap
    · rintro ⟨-, hfull⟩
      have hle := hsized.length_le
      rw [hseals.limits] at hfull
      omega
    subst hroom
    obtain ⟨htracks, added, hsealed, hreasons⟩ := (h.seals hseals).insert hwf'' hinsert
    have hnone : ∀ other ∈ segment :: added, other.sealingReason ≠ .builderLimit := by
      intro other hother
      rcases mem_cons.mp hother with rfl | hother
      · simp [hreason]
      · exact hreasons other hother
    refine ⟨htracks, segment :: added, ?_, fun other hother hlimit =>
      absurd hlimit (hnone other hother), ?_⟩
    · rw [hsealed, hseals.sealed, append_assoc, singleton_append]
    · exact ⟨fun ⟨other, hother, hlimit⟩ => absurd hlimit (hnone other hother),
        fun hfull => absurd hfull.1 hopen⟩

/-- The rows of a batch, one behind the other. -/
def pushRows (metadata : BatchMetadata) (observedAt : Nat) :
    SegmentBuilders → List AcceptedRow → Except SegmentBuildError SegmentBuilders
  | builders, [] => .ok builders
  | builders, row :: rest => do
    let builders ← builders.pushRow metadata row (plannedRow row) observedAt
    pushRows metadata observedAt builders rest

theorem pushRows_of_pushRecords {records : List NormalizedRecord}
    {deadLetters returned : List DeadLetterEntry} (h : pushRecords metadata observedAt builders
      ((records.filterMap NormalizedRecord.row?).map plannedRow) deadLetters records =
        .ok (after, returned)) :
    pushRows metadata observedAt builders (records.filterMap NormalizedRecord.row?) =
      .ok after := by
  induction records generalizing builders deadLetters with
  | nil =>
    rw [filterMap_nil, map_nil, pushRecords, if_pos rfl] at h
    obtain ⟨rfl, -⟩ := Prod.mk.inj (Except.ok.inj h)
    rfl
  | cons record rest ih =>
    cases record with
    | deadLetter entry => exact ih h
    | accepted row =>
      obtain ⟨next, hnext, hrest⟩ := bind_eq_ok.mp h
      exact bind_eq_ok.mpr ⟨next, hnext, ih hrest⟩

/-- What the rows of a batch do to the history, and each of them to the builders it meets. -/
theorem Tracks.pushRows (h : Tracks history builders) (hwf : builders.WellFormed)
    (hsized : builders.Sized) (hpush : pushRows metadata observedAt builders rows = .ok after) :
    Tracks (history ++ rows.map (keyedRow metadata)) after ∧
      ∀ before row behind, rows = before ++ row :: behind → ∃ between next,
        SegmentBuilders.pushRows metadata observedAt builders before = .ok between ∧
        between.pushRow metadata row (plannedRow row) observedAt = .ok next ∧
        Tracks (history ++ before.map (keyedRow metadata)) between ∧
        Evicts (history ++ before.map (keyedRow metadata)) between (rowKey metadata row) next := by
  induction rows generalizing history builders with
  | nil =>
    obtain rfl := Except.ok.inj hpush
    exact ⟨by simpa using h, by simp⟩
  | cons row rest ih =>
    obtain ⟨next, hnext, hrest⟩ := bind_eq_ok.mp hpush
    obtain ⟨htracks, hevicts⟩ := h.pushRow hwf hsized hnext
    have hmoves := moves_pushRow hwf rfl hnext
    obtain ⟨hafter, hlater⟩ := ih htracks hmoves.wellFormed (hmoves.sized hsized) hrest
    rw [append_assoc, singleton_append] at hafter
    refine ⟨hafter, fun before other behind heq => ?_⟩
    cases before with
    | nil =>
      obtain ⟨rfl, -⟩ := List.cons.inj heq
      exact ⟨builders, next, rfl, hnext, by simpa using h, by simpa using hevicts⟩
    | cons first before =>
      obtain ⟨rfl, htail⟩ := List.cons.inj heq
      obtain ⟨between, last, hbetween, hlast, htracks, hevicts⟩ :=
        hlater before other behind htail
      rw [append_assoc, singleton_append] at htracks hevicts
      exact ⟨between, last, bind_eq_ok.mpr ⟨next, hnext, hbetween⟩, hlast, htracks, hevicts⟩

/-- A builder keeps the instant it was opened at. -/
theorem forall_openedAt_pushRow (hwf : builders.WellFormed) (hnow : P observedAt)
    (h : ∀ entry ∈ builders.opened, P entry.2.openedAt)
    (hpush : builders.pushRow metadata row (plannedRow row) observedAt = .ok after) :
    ∀ entry ∈ after.opened, P entry.2.openedAt := by
  obtain ⟨first, hfirst, hpush⟩ := bind_eq_ok.mp hpush
  obtain ⟨second, hsecond, hpush⟩ := bind_eq_ok.mp hpush
  obtain ⟨third, hthird, hpush⟩ := bind_eq_ok.mp hpush
  have hwf' := (moves_sealIfTooLarge hwf hfirst).1.wellFormed
  have hwf'' := (moves_makeRoom hwf' hsecond).1.wellFormed
  have hsubset : first.opened ⊆ builders.opened := by
    rcases seals_sealIfTooLarge hfirst with rfl | ⟨-, _, -, -, hseals⟩
    · exact List.Subset.refl _
    · exact hseals.subset
  have hsubset' : second.opened ⊆ first.opened := by
    have hroom := seals_makeRoom hsecond
    split at hroom
    · obtain ⟨_, -, _, -, -, hseals, -⟩ := hroom
      exact hseals.subset
    · exact hroom ▸ List.Subset.refl _
  obtain ⟨_, -, hseals⟩ := seals_sealIfFull hpush
  obtain ⟨hothers, hkey⟩ := mem_opened_addRow hwf'' hthird
  intro entry hentry
  have hentry := hseals.subset hentry
  have hbefore {entry : SegmentKey × OpenSegment} (hentry : entry ∈ second.opened) :
      P entry.2.openedAt := h entry (hsubset (hsubset' hentry))
  by_cases heq : entry.1 = rowKey metadata row
  · rcases (hkey entry hentry heq).2.2 with hinstant | ⟨other, hother, hinstant⟩
    · exact hinstant ▸ hnow
    · exact hinstant ▸ hbefore hother
  · exact hbefore (hothers entry hentry heq)

theorem forall_openedAt_pushRows (hwf : builders.WellFormed) (hnow : P observedAt)
    (h : ∀ entry ∈ builders.opened, P entry.2.openedAt)
    (hpush : pushRows metadata observedAt builders rows = .ok after) :
    ∀ entry ∈ after.opened, P entry.2.openedAt := by
  induction rows generalizing builders with
  | nil =>
    obtain rfl := Except.ok.inj hpush
    exact h
  | cons row rest ih =>
    obtain ⟨next, hnext, hrest⟩ := bind_eq_ok.mp hpush
    exact ih (moves_pushRow hwf rfl hnext).wellFormed
      (forall_openedAt_pushRow hwf hnow h hnext) hrest

/-! ## Calls -/

/-- What a call does, and the rows that it inserts : the clock of a call is the first thing it
looks at, then it seals the expired builders. -/
inductive Steps (builders : SegmentBuilders) (operation : BuilderOperation) :
    List (SegmentKey × SegmentRow) → SegmentBuilders → Prop
  | stays {after : SegmentBuilders} (hopened : after.opened = builders.opened)
    (hsequence : after.accessSequence = builders.accessSequence)
    (htime : after.lastObservedAt = builders.lastObservedAt)
    (hlate : ∀ observedAt, operation.observedAt? = some observedAt →
      ∃ previous, builders.lastObservedAt = some previous ∧ observedAt < previous) :
    Steps builders operation [] after
  | flushes {after : SegmentBuilders} {added : List SealedSegment}
    (hcall : operation.observedAt? = none) (hseals : builders.Seals added after) :
    Steps builders operation [] after
  | ages {aged after : SegmentBuilders} {added : List SealedSegment} {observedAt : Nat}
    (hcall : operation.observedAt? = some observedAt)
    (htime : ∀ previous, builders.lastObservedAt = some previous → previous ≤ observedAt)
    (haged : { builders with lastObservedAt := some observedAt }.sealExpiredAt observedAt =
      .ok aged) (hseals : aged.Seals added after) : Steps builders operation [] after
  | inserts {aged after : SegmentBuilders} {batch : NormalizedBatch} {observedAt : Nat}
    (hcall : operation = .pushBatch batch observedAt)
    (htime : ∀ previous, builders.lastObservedAt = some previous → previous ≤ observedAt)
    (haged : { builders with lastObservedAt := some observedAt }.sealExpiredAt observedAt =
      .ok aged)
    (hpush : pushRows batch.metadata observedAt aged batch.acceptedRows = .ok after)
    (hobserved : after.lastObservedAt = some observedAt)
    (hlimits : after.limits = builders.limits) :
    Steps builders operation (batchRows batch) after

/-- A call at a wrong instant does nothing, and a failed one has sealed the expired builders. -/
theorem steps_afterFailure (h : builders.WellFormed)
    (hcall : operation.observedAt? = some observedAt) :
    Steps builders operation [] (builders.afterFailure observedAt) := by
  rw [afterFailure]
  split
  · rename_i hobserved
    refine .stays rfl rfl rfl fun other hother => ?_
    obtain rfl := Option.some.inj (hcall.symm.trans hother)
    rw [observeTime] at hobserved
    split at hobserved
    · rename_i previous hprevious
      split at hobserved
      · exact ⟨previous, hprevious, ‹_›⟩
      · cases hobserved
    · cases hobserved
  · rename_i observed hobserved
    obtain ⟨htime, rfl⟩ := observeTime_eq_ok hobserved
    obtain ⟨aged, haged, -⟩ := sealExpiredAt_of_wellFormed (h.observed observedAt) observedAt
    rw [haged]
    exact .ages hcall htime haged (.refl aged)

theorem steps_call (h : builders.WellFormed) (operation : BuilderOperation) :
    Steps builders operation
      (BuilderCall.insertedRows
        ⟨builders, operation, (builders.call operation).1, (builders.call operation).2⟩)
      (builders.call operation).2 := by
  cases operation with
  | pushBatch batch observedAt =>
    rw [call]
    split
    · next outcome after hpush =>
      obtain ⟨observed, hobserved, -⟩ := bind_eq_ok.mp hpush
      have htime := (observeTime_eq_ok hobserved).1
      obtain ⟨aged, haged, hmoves, hpushes⟩ := pushBatch_eq_ok h hpush
      cases hpushes with
      | deferred _ _ _ hseal =>
        obtain ⟨added, -, hseals⟩ := seals_sealKeys hseal
        exact .ages rfl htime haged hseals
      | accepted _ hrecords =>
        have hmoves := hmoves.trans (moves_pushRecords hmoves.wellFormed hrecords).1
        exact .inserts rfl htime haged (pushRows_of_pushRecords hrecords) hmoves.lastObservedAt
          hmoves.limits
    · next error hpush => exact steps_afterFailure h rfl
  | sealExpired observedAt =>
    rw [call]
    split
    · next after hseal =>
      obtain ⟨observed, hobserved, hseal⟩ := bind_eq_ok.mp hseal
      obtain ⟨htime, rfl⟩ := observeTime_eq_ok hobserved
      exact .ages rfl htime hseal (.refl after)
    · exact steps_afterFailure h rfl
  | flushAll =>
    rw [call]
    split
    · next after hflush =>
      obtain ⟨added, -, hseals⟩ := seals_sealKeys hflush
      exact .flushes rfl hseals
    · exact .flushes rfl (.refl builders)
  | takeNextSealed =>
    obtain ⟨segment, after, htake, htakes⟩ := exists_takeNextSealed h
    have hcall : builders.call .takeNextSealed = (.ok (.taken segment), after) := by
      rw [call, htake]
    rw [hcall]
    cases htakes with
    | drained => exact .flushes rfl (.refl builders)
    | taken => exact .stays rfl rfl rfl (fun _ heq => by cases heq)

/-- Every builder was opened at an instant that was observed. -/
def Aged (builders : SegmentBuilders) : Prop :=
  ∀ entry ∈ builders.opened, ∃ previous, builders.lastObservedAt = some previous ∧
    entry.2.openedAt ≤ previous

/-- No builder has been open for the maximum duration. -/
def Young (builders : SegmentBuilders) (observedAt : Nat) : Prop :=
  ∀ entry ∈ builders.opened, entry.2.openedAt ≤ observedAt ∧
    observedAt - entry.2.openedAt < builders.limits.maximumOpenDuration

omit [SerdeJson] [Layout] in
theorem Aged.openedBy (h : builders.Aged) {instant : Nat}
    (htime : ∀ previous, builders.lastObservedAt = some previous → previous ≤ instant) :
    builders.OpenedBy instant := by
  intro entry hentry
  obtain ⟨previous, hprevious, hle⟩ := h entry hentry
  exact hle.trans (htime previous hprevious)

omit [SerdeJson] [Layout] in
theorem young_sealExpiredAt {aged : SegmentBuilders} (hopened : builders.OpenedBy observedAt)
    (h : builders.sealExpiredAt observedAt = .ok aged) :
    aged.Young observedAt := by
  obtain ⟨added, hkeys, hseals⟩ := seals_sealKeys h
  intro entry hentry
  rw [hseals.opened, hkeys] at hentry
  obtain ⟨hentry, hyoung⟩ := mem_filter.mp hentry
  have hle := hopened entry hentry
  refine ⟨hle, ?_⟩
  rw [hseals.limits]
  by_contra hold
  refine of_decide_eq_true hyoung (mem_map_of_mem (mem_filter.mpr ⟨hentry, ?_⟩))
  exact decide_eq_true ⟨hle, Nat.not_lt.mp hold⟩

/-- The builders are young behind a call with an instant, and none was opened later. -/
theorem Steps.aged (h : builders.WellFormed) (haged : builders.Aged)
    (hsteps : Steps builders operation inserted after) :
    after.Aged ∧ ∀ observedAt, operation.observedAt? = some observedAt →
      (∀ previous, builders.lastObservedAt = some previous → previous ≤ observedAt) →
      after.Young observedAt := by
  cases hsteps with
  | stays hopened _ hlast hlate =>
    refine ⟨?_, fun observedAt hcall htime => ?_⟩
    · unfold Aged
      rw [hopened, hlast]
      exact haged
    · obtain ⟨previous, hprevious, hlt⟩ := hlate observedAt hcall
      exact absurd (htime previous hprevious) (Nat.not_le.mpr hlt)
  | flushes hcall hseals =>
    refine ⟨fun entry hentry => ?_, fun observedAt hcall' => ?_⟩
    · rw [hseals.lastObservedAt]
      exact haged entry (hseals.subset hentry)
    · cases hcall.symm.trans hcall'
  | @ages aged _ _ observedAt hcall htime hexpired hseals =>
    have hopened : { builders with lastObservedAt := some observedAt }.OpenedBy observedAt :=
      haged.openedBy htime
    have hyoung := young_sealExpiredAt hopened hexpired
    obtain ⟨_, -, hseals'⟩ := seals_sealKeys hexpired
    refine ⟨fun entry hentry => ?_, fun other hcall' _ entry hentry => ?_⟩
    · exact ⟨observedAt, hseals.lastObservedAt.trans hseals'.lastObservedAt,
        (hyoung entry (hseals.subset hentry)).1⟩
    · obtain rfl := Option.some.inj (hcall.symm.trans hcall')
      rw [hseals.limits]
      exact hyoung entry (hseals.subset hentry)
  | @inserts aged _ batch observedAt hcall htime hexpired hpush hobserved hlimits =>
    have hopened : { builders with lastObservedAt := some observedAt }.OpenedBy observedAt :=
      haged.openedBy htime
    have hyoung := young_sealExpiredAt hopened hexpired
    obtain ⟨_, -, hseals⟩ := seals_sealKeys hexpired
    have hwf := (moves_sealKeys (h.observed observedAt) hexpired).wellFormed
    have hafter := forall_openedAt_pushRows
      (P := fun instant => instant ≤ observedAt ∧
        observedAt - instant < aged.limits.maximumOpenDuration) hwf
      ⟨le_rfl, by simpa using aged.limits.maximumOpenDuration_pos⟩ hyoung hpush
    refine ⟨fun entry hentry => ⟨observedAt, hobserved, (hafter entry hentry).1⟩,
      fun other hcall' _ => ?_⟩
    subst hcall
    obtain rfl := Option.some.inj hcall'
    unfold Young
    rw [hlimits, ← show aged.limits = builders.limits from hseals.limits]
    exact hafter

theorem Tracks.steps (h : Tracks history builders) (hwf : builders.WellFormed)
    (hsized : builders.Sized) (hsteps : Steps builders operation inserted after) :
    Tracks (history ++ inserted) after := by
  have hobserved (observedAt : Nat) :
      Tracks history { builders with lastObservedAt := some observedAt } := { h with }
  cases hsteps with
  | stays hopened hsequence _ _ =>
    rw [append_nil]
    refine ⟨hsequence.trans h.accessSequence, ?_, ?_⟩ <;> rw [hopened]
    · exact h.sequence
    · exact h.lastRow
  | flushes _ hseals =>
    rw [append_nil]
    exact h.seals hseals
  | ages _ _ hexpired hseals =>
    obtain ⟨_, -, hseals'⟩ := seals_sealKeys hexpired
    rw [append_nil]
    exact ((hobserved _).seals hseals').seals hseals
  | @inserts _ _ _ observedAt _ _ hexpired hpush _ _ =>
    obtain ⟨_, -, hseals⟩ := seals_sealKeys hexpired
    have hmoves := moves_sealKeys (hwf.observed observedAt) hexpired
    exact (((hobserved _).seals hseals).pushRows hmoves.wellFormed
      (hmoves.sized { hsized with }) hpush).1

/-! ## Runs -/

/-- What holds behind a run. -/
theorem aged_after (hwf : builders.WellFormed) (hsized : builders.Sized) (haged : builders.Aged)
    (h : Tracks history builders) (operations : List BuilderOperation) :
    (builders.after operations).Aged ∧
      Tracks (history ++ (builders.calls operations).flatMap BuilderCall.insertedRows)
        (builders.after operations) := by
  induction operations generalizing history builders with
  | nil => exact ⟨haged, by simpa [calls, after] using h⟩
  | cons operation rest ih =>
    have hkeeps := keeps_call hwf operation
    have hsteps := steps_call hwf operation
    obtain ⟨haged', htracks⟩ := ih hkeeps.wellFormed (hkeeps.sized hsized)
      (hsteps.aged hwf haged).1 (h.steps hwf hsized hsteps)
    refine ⟨haged', ?_⟩
    rw [calls, flatMap_cons, ← append_assoc]
    exact htracks

/-- A call observes its own instant or none. -/
theorem Steps.lastObservedAt (hsteps : Steps builders operation inserted after) :
    after.lastObservedAt = builders.lastObservedAt ∨
      after.lastObservedAt = operation.observedAt? := by
  cases hsteps with
  | stays _ _ hlast _ => exact .inl hlast
  | flushes _ hseals => exact .inl hseals.lastObservedAt
  | ages hcall _ hexpired hseals =>
    obtain ⟨_, -, hseals'⟩ := seals_sealKeys hexpired
    exact .inr ((hseals.lastObservedAt.trans hseals'.lastObservedAt).trans hcall.symm)
  | inserts hcall _ _ _ hobserved _ =>
    subst hcall
    exact .inr hobserved

theorem lastObservedAt_after (hwf : builders.WellFormed) {operations : List BuilderOperation}
    {previous : Nat} (h : (builders.after operations).lastObservedAt = some previous) :
    builders.lastObservedAt = some previous ∨
      previous ∈ operations.filterMap BuilderOperation.observedAt? := by
  induction operations generalizing builders with
  | nil => exact .inl h
  | cons operation rest ih =>
    rw [filterMap_cons]
    rcases ih (keeps_call hwf operation).wellFormed h with hcall | hrest
    · rcases (steps_call hwf operation).lastObservedAt with hsame | hsame
      · exact .inl (hsame.symm.trans hcall)
      · rw [← hsame, hcall]
        exact .inr mem_cons_self
    · cases operation.observedAt? with
      | none => exact .inr hrest
      | some observedAt => exact .inr (mem_cons_of_mem _ hrest)

omit [SerdeJson] [Layout] in
/-- The next expiration, and a seal behind it. -/
theorem exists_expiration (hwf : builders.WellFormed) (haged : builders.Aged) {now : Nat}
    (htime : ∀ previous, builders.lastObservedAt = some previous → previous ≤ now) :
    ∃ expiration, builders.nextExpirationIn now = .ok expiration ∧
      (expiration = none ↔ builders.opened = []) ∧
      ∀ duration, expiration = some duration →
        (∃ entry ∈ builders.opened, duration = builders.remaining now entry.2) ∧
        (∀ entry ∈ builders.opened, duration ≤ builders.remaining now entry.2) ∧
        (duration = 0 ↔ ∃ entry ∈ builders.opened,
          builders.limits.maximumOpenDuration ≤ now - entry.2.openedAt) ∧
        ∃ after added, builders.sealExpired (now + duration) = .ok after ∧ added ≠ [] ∧
          after.sealed = builders.sealed ++ added ∧
          after.opened.length < builders.opened.length := by
  have hopened := haged.openedBy htime
  refine ⟨_, nextExpirationIn_eq htime hopened, ?_, fun duration hduration => ?_⟩
  · rw [min?_eq_none_iff, map_eq_nil_iff]
  · obtain ⟨hmem, hleast⟩ := min?_eq_some_iff.mp hduration
    obtain ⟨entry, hentry, rfl⟩ := mem_map.mp hmem
    have hleast (other : SegmentKey × OpenSegment) (hother : other ∈ builders.opened) :
        builders.remaining now entry.2 ≤ builders.remaining now other.2 :=
      hleast _ (mem_map_of_mem hother)
    refine ⟨⟨entry, hentry, rfl⟩, hleast, ?_,
      sealExpired_of_remaining hwf htime hopened ⟨entry, hentry, rfl⟩⟩
    constructor
    · exact fun hzero => ⟨entry, hentry, Nat.sub_eq_zero_iff_le.mp hzero⟩
    · rintro ⟨other, hother, hover⟩
      exact Nat.le_zero.mp ((hleast other hother).trans (Nat.sub_eq_zero_of_le hover).le)

omit [SerdeJson] [Layout] in
theorem tracks_withLimits (limits : SegmentBuildLimits) : Tracks [] (withLimits limits) :=
  ⟨rfl, by simp [withLimits], by simp [withLimits]⟩

omit [SerdeJson] [Layout] in
theorem aged_withLimits (limits : SegmentBuildLimits) : (withLimits limits).Aged := by
  simp [Aged, withLimits]

/-- The ages of the builders over a run whose instants do not decrease. -/
theorem builders_aged (limits : SegmentBuildLimits) (operations : List BuilderOperation)
    (htimes : (operations.filterMap BuilderOperation.observedAt?).Pairwise (· ≤ ·)) :
    (∀ front operation rest observedAt, operations = front ++ operation :: rest →
      operation.observedAt? = some observedAt →
      ∀ entry ∈ ((withLimits limits).after (front ++ [operation])).opened,
        entry.2.openedAt ≤ observedAt ∧
          observedAt - entry.2.openedAt < limits.maximumOpenDuration) ∧
    (∀ now, (∀ observedAt ∈ operations.filterMap BuilderOperation.observedAt?,
        observedAt ≤ now) →
      let builders := (withLimits limits).after operations
      ∃ expiration, builders.nextExpirationIn now = .ok expiration ∧
        (expiration = none ↔ builders.opened = []) ∧
        ∀ duration, expiration = some duration →
          (∃ entry ∈ builders.opened,
            duration = limits.maximumOpenDuration - (now - entry.2.openedAt)) ∧
          (∀ entry ∈ builders.opened,
            duration ≤ limits.maximumOpenDuration - (now - entry.2.openedAt)) ∧
          (duration = 0 ↔ ∃ entry ∈ builders.opened,
            limits.maximumOpenDuration ≤ now - entry.2.openedAt) ∧
          ∃ after added, builders.sealExpired (now + duration) = .ok after ∧ added ≠ [] ∧
            after.sealed = builders.sealed ++ added ∧
            after.opened.length < builders.opened.length) ∧
    ∀ front batch observedAt rest summary after,
      operations = front ++ .pushBatch batch observedAt :: rest →
      ((withLimits limits).after front).pushBatch batch observedAt =
        .ok (.accepted summary, after) →
      ∃ aged, { (withLimits limits).after front with
          lastObservedAt := some observedAt }.sealExpiredAt observedAt = .ok aged ∧
        ∀ before row behind, batch.acceptedRows = before ++ row :: behind →
          let history := ((withLimits limits).calls front).flatMap BuilderCall.insertedRows ++
            before.map (keyedRow batch.metadata)
          ∃ between next, pushRows batch.metadata observedAt aged before = .ok between ∧
            between.pushRow batch.metadata row (plannedRow row) observedAt = .ok next ∧
            Tracks history between ∧
            Evicts history between (rowKey batch.metadata row) next := by
  have hwf := wellFormed_withLimits limits
  have hsized := sized_withLimits limits
  have haged (operations : List BuilderOperation) :=
    aged_after hwf hsized (aged_withLimits limits) (tracks_withLimits limits) operations
  have hlast {operations : List BuilderOperation} {previous : Nat}
      (h : ((withLimits limits).after operations).lastObservedAt = some previous) :
      previous ∈ operations.filterMap BuilderOperation.observedAt? :=
    (lastObservedAt_after hwf h).resolve_left fun hnone => by cases hnone
  refine ⟨?_, ?_, ?_⟩
  · intro front operation rest observedAt hoperations hcall
    obtain ⟨-, hwf', hlimits, -⟩ := keeps_run hwf front
    have htime (previous : Nat)
        (hprevious : ((withLimits limits).after front).lastObservedAt = some previous) :
        previous ≤ observedAt := by
      rw [hoperations, filterMap_append, filterMap_cons, hcall,
        pairwise_append] at htimes
      exact htimes.2.2 _ (hlast hprevious) _ mem_cons_self
    have hyoung := ((steps_call hwf' operation).aged hwf' (haged front).1).2 observedAt hcall htime
    rw [after_append]
    intro entry hentry
    have hentry := hyoung entry hentry
    rwa [(keeps_call hwf' operation).limits, hlimits] at hentry
  · intro now hnow builders
    obtain ⟨-, hwf', hlimits, -⟩ := keeps_run hwf operations
    have hexpiration := exists_expiration hwf' (haged operations).1
      (fun previous hprevious => hnow previous (hlast hprevious))
    simp only [remaining, hlimits] at hexpiration
    exact hexpiration
  · intro front batch observedAt rest summary after hoperations hpush
    obtain ⟨-, hwf', -, -, hsized', -⟩ := keeps_run hwf front
    obtain ⟨aged, hexpired, hmoves, hpushes⟩ := pushBatch_eq_ok hwf' hpush
    obtain ⟨_, -, hseals⟩ := seals_sealKeys hexpired
    have htracks : Tracks (((withLimits limits).calls front).flatMap BuilderCall.insertedRows)
        { (withLimits limits).after front with lastObservedAt := some observedAt } :=
      { (haged front).2 with }
    refine ⟨aged, hexpired, ?_⟩
    cases hpushes with
    | accepted _ hrecords =>
      exact ((htracks.seals hseals).pushRows hmoves.wellFormed
        (hmoves.sized { hsized' hsized with }) (pushRows_of_pushRecords hrecords)).2

end Batches

end SegmentBuilders

end Ages

/-! ## Concrete values -/

namespace SegmentBuilders

/-- Two builders for ten nanoseconds. -/
def twoBuilders : SegmentBuildLimits where
  targetRows := 10
  targetEstimatedBytes := 1024
  maximumOpenDuration := 10
  maximumOpenBuilders := 2
  maximumEstimatedResidentBytes := 1024 * 1024
  maximumStagingBytes := 1024 * 1024
  targetRows_pos := by decide
  targetEstimatedBytes_pos := by decide
  maximumOpenDuration_pos := by decide
  maximumOpenBuilders_pos := by decide
  maximumEstimatedResidentBytes_pos := by decide
  maximumStagingBytes_pos := by decide

section Sample

attribute [local instance] Chrono.unbounded SerdeJson.plain Layout.sample

/-- A batch with a row of each day. -/
def daysBatch (days : List Int) : NormalizedBatch :=
  ⟨BatchMetadata.sample 9, days.map fun day => .accepted ⟨⟨1, 0⟩, ⟨day * millisecondsPerDay⟩,
    (BatchMetadata.sample 9).ingestionTime, ⟨[]⟩, [], none⟩, 0⟩

/-- The first day was touched again, so the third day evicts the second. -/
theorem builders_aged_daysBatch :
    let operations := [.pushBatch (daysBatch [0, 1, 0]) 0, .pushBatch (daysBatch [2]) 4]
    let builders := (withLimits twoBuilders).after operations
    builders.sealed.map (fun segment => (segment.key.eventDay, segment.sealingReason)) =
        [(⟨1⟩, .builderLimit)] ∧
      builders.nextExpirationIn 7 = .ok (some 3) ∧
      ∃ after added, builders.sealExpired 10 = .ok after ∧ added ≠ [] ∧
        after.sealed = builders.sealed ++ added ∧
        after.opened.length < builders.opened.length := by
  intro operations builders
  have hexpiration : builders.nextExpirationIn 7 = .ok (some 3) := by rfl
  refine ⟨by rfl, hexpiration, ?_⟩
  obtain ⟨-, hnext, -⟩ := builders_aged twoBuilders operations (by decide)
  obtain ⟨expiration, hequal, -, hduration⟩ := hnext 7 (by decide)
  exact (hduration 3 (Except.ok.inj (hequal.symm.trans hexpiration))).2.2.2

end Sample

end SegmentBuilders

end Elucid
