import Elucid.SegmentBuilders

/-!
# What the segment builders own

`keyedRows` are the rows the builders own, each with the key of its builder or segment. A
seal keeps them (`gains_sealKey`), an insertion adds one row under its key (`gains_addRow`),
and taking a sealed segment removes its rows (`Takes`). `push_batch` accepts a batch and adds
its rows, gives it back unchanged, or fails (`pushes_pushBatch`). `pushBatch_exceeds_iff` says
which batches are too large to be taken at all.

`Sized` bounds what is open and what is sealed. A builder is over a target only between the
insertion of a row and the seal behind it : `SizedExcept` leaves out that one builder.
-/

namespace Elucid

open BigEndian List

/-! ## Rows -/

section Invariant

variable [Chrono]
variable {builders after : SegmentBuilders} {key : SegmentKey} {builder : OpenSegment}
variable {row : SegmentRow} {reason : SealingReason} {observedAt sequence : Nat}

/-- The total of the uncompressed estimates of some rows. -/
def uncompressedBytes (rows : List SegmentRow) : Nat :=
  (rows.map (·.estimatedUncompressedBytes)).sum

/-- The total of the resident estimates of some rows. -/
def residentBytes (rows : List SegmentRow) : Nat :=
  (rows.map (·.estimatedResidentBytes)).sum

/-- Some rows under a key. -/
def underKey (key : SegmentKey) (rows : List SegmentRow) : List (SegmentKey × SegmentRow) :=
  rows.map (key, ·)

/-- The rows of a segment under its key. -/
def SealedSegment.keyedRows (segment : SealedSegment) : List (SegmentKey × SegmentRow) :=
  underKey segment.key segment.rows

@[simp] theorem map_snd_underKey (key : SegmentKey) (rows : List SegmentRow) :
    (underKey key rows).map (·.2) = rows := by
  simp [underKey, Function.comp_def]

/-- What is true of an open builder under its key. -/
structure OpenSegment.Holds (builder : OpenSegment) (key : SegmentKey) : Prop where
  rows_ne : builder.rows ≠ []
  eventDay : ∀ row ∈ builder.rows, EventDay.fromEventTime row.row.eventTime = key.eventDay
  uncompressed : builder.estimatedUncompressedBytes = uncompressedBytes builder.rows
  resident : builder.estimatedResidentBytes = residentBytes builder.rows

/-- What is true of a sealed segment : its bounds are those of its rows. -/
structure SealedSegment.Holds (segment : SealedSegment) : Prop where
  rows_ne : segment.rows ≠ []
  eventDay : ∀ row ∈ segment.rows,
    EventDay.fromEventTime row.row.eventTime = segment.key.eventDay
  uncompressed : segment.estimatedUncompressedBytes = uncompressedBytes segment.rows
  resident : segment.estimatedResidentBytes = residentBytes segment.rows
  sorted : segment.rows.Pairwise OpenSegment.rowLe
  minimum : ∃ row ∈ segment.rows, row.row.eventTime = segment.bounds.minimumEventTime
  maximum : ∃ row ∈ segment.rows, row.row.eventTime = segment.bounds.maximumEventTime
  bounds : segment.bounds.minimumEventTime.unixMilliseconds ≤
    segment.bounds.maximumEventTime.unixMilliseconds

theorem uncompressedBytes_perm {rows others : List SegmentRow} (h : rows.Perm others) :
    uncompressedBytes rows = uncompressedBytes others :=
  (h.map _).sum_eq

theorem residentBytes_perm {rows others : List SegmentRow} (h : rows.Perm others) :
    residentBytes rows = residentBytes others :=
  (h.map _).sum_eq

@[simp] theorem uncompressedBytes_append (rows others : List SegmentRow) :
    uncompressedBytes (rows ++ others) = uncompressedBytes rows + uncompressedBytes others := by
  simp [uncompressedBytes]

@[simp] theorem residentBytes_append (rows others : List SegmentRow) :
    residentBytes (rows ++ others) = residentBytes rows + residentBytes others := by
  simp [residentBytes]

namespace OpenSegment

variable {pushed : OpenSegment}

/-- A seal keeps the rows and the estimates. -/
theorem sealAs_eq_ok {segment : SealedSegment} (h : builder.sealAs key reason = .ok segment) :
    segment.key = key ∧ segment.rows ~ builder.rows ∧
      segment.estimatedUncompressedBytes = builder.estimatedUncompressedBytes ∧
      segment.sealingReason = reason := by
  have hperm := perm_insertionSort rowLe builder.rows
  simp only [sealAs] at h
  split at h
  · obtain rfl := Except.ok.inj h
    exact ⟨rfl, hperm, rfl, rfl⟩
  · cases h

/-- A builder that holds rows can be sealed. -/
theorem Holds.sealAs (h : builder.Holds key) (reason : SealingReason) :
    ∃ segment, builder.sealAs key reason = .ok segment ∧ segment.Holds := by
  have hperm := perm_insertionSort rowLe builder.rows
  have hsorted := pairwise_insertionSort rowLe builder.rows
  have hne : builder.rows.insertionSort rowLe ≠ [] :=
    fun hnil => h.rows_ne (perm_nil.mp (hnil ▸ hperm).symm)
  generalize hrows : builder.rows.insertionSort rowLe = rows at hperm hsorted hne
  obtain ⟨first, rest, rfl⟩ := exists_cons_of_ne_nil hne
  have hlast := getLast?_eq_getLast_of_ne_nil hne
  have hmem := getLast_mem hne
  have hle : rowLe first ((first :: rest).getLast hne) := by
    rcases mem_cons.mp hmem with heq | hmem
    · rw [heq]
      exact (Std.Total.total first first).elim id id
    · exact rel_of_pairwise_cons hsorted hmem
  refine ⟨_, by simp only [OpenSegment.sealAs, hrows, hlast]; rfl, ?_⟩
  exact {
    rows_ne := hne
    eventDay := fun row hrow => h.eventDay row (hperm.mem_iff.mp hrow)
    uncompressed := h.uncompressed.trans (uncompressedBytes_perm hperm).symm
    resident := h.resident.trans (residentBytes_perm hperm).symm
    sorted := hsorted
    minimum := ⟨first, mem_cons_self, rfl⟩
    maximum := ⟨_, hmem, rfl⟩
    bounds := rowLe_time hle }

/-- A new builder holds its row. -/
theorem Holds.new (hday : EventDay.fromEventTime row.row.eventTime = key.eventDay)
    (openedAt sequence : Nat) :
    (OpenSegment.new row openedAt sequence).Holds key where
  rows_ne := cons_ne_nil _ _
  eventDay := fun _ hmem => mem_singleton.mp hmem ▸ hday
  uncompressed := by simp [OpenSegment.new, uncompressedBytes]
  resident := by simp [OpenSegment.new, residentBytes]

/-- A row is appended, and its estimates are added. -/
theorem push_eq_ok (h : builder.push row sequence = .ok pushed) :
    pushed = { builder with
      rows := builder.rows ++ [row]
      estimatedUncompressedBytes :=
        builder.estimatedUncompressedBytes + row.estimatedUncompressedBytes
      estimatedResidentBytes := builder.estimatedResidentBytes + row.estimatedResidentBytes
      lastTouchedSequence := sequence } := by
  obtain ⟨_, huncompressed, h⟩ := bind_eq_ok.mp h
  obtain ⟨_, hresident, h⟩ := bind_eq_ok.mp h
  obtain ⟨rfl, -⟩ := addEstimate_eq_ok huncompressed
  obtain ⟨rfl, -⟩ := addEstimate_eq_ok hresident
  exact (Except.ok.inj h).symm

/-- A builder holds the rows of its day. -/
theorem Holds.push (h : builder.Holds key)
    (hday : EventDay.fromEventTime row.row.eventTime = key.eventDay)
    (hpush : builder.push row sequence = .ok pushed) : pushed.Holds key := by
  obtain rfl := push_eq_ok hpush
  refine ⟨by simp, fun other hmem => ?_, ?_, ?_⟩
  · rcases mem_append.mp hmem with hmem | hmem
    · exact h.eventDay other hmem
    · exact mem_singleton.mp hmem ▸ hday
  · simp [h.uncompressed, uncompressedBytes]
  · simp [h.resident, residentBytes]

end OpenSegment

namespace SegmentBuilders

variable {added : List (SegmentKey × SegmentRow)}

/-- The rows that are in open builders or in sealed segments that were not taken. -/
def rows (builders : SegmentBuilders) : List SegmentRow :=
  builders.opened.flatMap (·.2.rows) ++ builders.sealed.flatMap (·.rows)

/-- The rows the builders own, under the keys of their builders and segments. -/
def keyedRows (builders : SegmentBuilders) : List (SegmentKey × SegmentRow) :=
  builders.opened.flatMap (fun entry => underKey entry.1 entry.2.rows) ++
    builders.sealed.flatMap SealedSegment.keyedRows

/-- The keys can be left out. -/
theorem map_snd_keyedRows (builders : SegmentBuilders) :
    builders.keyedRows.map (·.2) = builders.rows := by
  simp only [keyedRows, rows, map_append, map_flatMap, SealedSegment.keyedRows,
    map_snd_underKey]

/-- Without their keys, the rows are permuted as they are with them. -/
theorem rows_perm (h : after.keyedRows ~ added ++ builders.keyedRows) :
    after.rows ~ added.map (·.2) ++ builders.rows := by
  rw [← map_snd_keyedRows, ← map_snd_keyedRows, ← map_append]
  exact h.map _

/-- What is true of the builders between two operations. -/
structure WellFormed (builders : SegmentBuilders) : Prop where
  nodup : (builders.opened.map (·.1)).Nodup
  opened : ∀ entry ∈ builders.opened, entry.2.Holds entry.1
  sealed : ∀ segment ∈ builders.sealed, segment.Holds
  resident : builders.estimatedResidentBytes = residentBytes builders.rows
  staging : builders.estimatedStagingBytes = uncompressedBytes builders.rows

/-- An operation has added some rows under their keys, and otherwise moved rows only. -/
structure Gains (builders : SegmentBuilders) (added : List (SegmentKey × SegmentRow))
    (after : SegmentBuilders) : Prop where
  wellFormed : after.WellFormed
  keyed : after.keyedRows ~ added ++ builders.keyedRows
  limits : after.limits = builders.limits
  lastObservedAt : after.lastObservedAt = builders.lastObservedAt
  accessSequence : after.accessSequence = builders.accessSequence + added.length

/-- New builders own nothing. -/
theorem wellFormed_new (stagingCapacity : SegmentStagingCapacity) :
    (SegmentBuilders.new stagingCapacity).WellFormed where
  nodup := nodup_nil
  opened := by simp [SegmentBuilders.new]
  sealed := by simp [SegmentBuilders.new]
  resident := rfl
  staging := rfl

theorem WellFormed.observed (h : builders.WellFormed) (observedAt : Nat) :
    { builders with lastObservedAt := some observedAt }.WellFormed :=
  { h with }

theorem Gains.refl (h : builders.WellFormed) : builders.Gains [] builders :=
  ⟨h, .refl _, rfl, rfl, rfl⟩

/-- Two operations in a row gain the rows of both. -/
theorem Gains.trans {a b c : SegmentBuilders} {first second : List (SegmentKey × SegmentRow)}
    (hab : a.Gains first b) (hbc : b.Gains second c) : a.Gains (first ++ second) c where
  wellFormed := hbc.wellFormed
  keyed := by
    refine (hbc.keyed.trans (hab.keyed.append_left second)).trans ?_
    rw [← append_assoc]
    exact perm_append_comm.append_right _
  limits := hbc.limits.trans hab.limits
  lastObservedAt := hbc.lastObservedAt.trans hab.lastObservedAt
  accessSequence := by
    rw [hbc.accessSequence, hab.accessSequence, length_append, Nat.add_assoc]

theorem Gains.rows (h : builders.Gains added after) :
    after.rows ~ added.map (·.2) ++ builders.rows :=
  rows_perm h.keyed

/-- Rows that were gained are counted. -/
theorem Gains.totals (h : builders.WellFormed) (hgains : builders.Gains added after) :
    after.estimatedResidentBytes =
        builders.estimatedResidentBytes + residentBytes (added.map (·.2)) ∧
      after.estimatedStagingBytes =
        builders.estimatedStagingBytes + uncompressedBytes (added.map (·.2)) := by
  rw [hgains.wellFormed.resident, h.resident, hgains.wellFormed.staging, h.staging,
    residentBytes_perm hgains.rows, uncompressedBytes_perm hgains.rows, residentBytes_append,
    uncompressedBytes_append]
  exact ⟨Nat.add_comm _ _, Nat.add_comm _ _⟩

/-! ## Open builders -/

theorem mem_of_openAt (h : builders.openAt key = some builder) :
    (key, builder) ∈ builders.opened := by
  obtain ⟨⟨k, b⟩, hfind, rfl⟩ := Option.map_eq_some_iff.mp h
  have hkey := find?_some hfind
  rw [decide_eq_true_eq] at hkey
  subst hkey
  exact mem_of_find?_eq_some hfind

theorem exists_openAt (h : key ∈ builders.opened.map (·.1)) :
    ∃ builder, builders.openAt key = some builder := by
  obtain ⟨entry, hmem, rfl⟩ := mem_map.mp h
  have hsome : (builders.opened.find? fun other => other.1 = entry.1).isSome :=
    find?_isSome.mpr ⟨entry, hmem, by simp⟩
  obtain ⟨found, hfound⟩ := Option.isSome_iff_exists.mp hsome
  exact ⟨found.2, Option.map_eq_some_iff.mpr ⟨found, hfound, rfl⟩⟩

theorem openAt_eq_none_iff :
    builders.openAt key = none ↔ ∀ entry ∈ builders.opened, entry.1 ≠ key := by
  simp [openAt]

/-- Each key has one builder. -/
theorem openAt_of_mem (h : builders.WellFormed) {entry : SegmentKey × OpenSegment}
    (hmem : entry ∈ builders.opened) :
    builders.openAt entry.1 = some entry.2 := by
  obtain ⟨builder, hopen⟩ := exists_openAt (mem_map_of_mem (f := (·.1)) hmem)
  have heq := inj_on_of_nodup_map h.nodup (mem_of_openAt hopen) hmem rfl
  rw [hopen, ← heq]

/-- A map with distinct keys is one of its entries and the entries with other keys. -/
theorem perm_entry_filter {entries : List (SegmentKey × OpenSegment)}
    (hnodup : (entries.map (·.1)).Nodup) {entry : SegmentKey × OpenSegment}
    (hmem : entry ∈ entries) :
    entries.Perm (entry :: entries.filter fun other => other.1 ≠ entry.1) := by
  induction entries with
  | nil => cases hmem
  | cons head rest ih =>
    rw [map_cons, nodup_cons] at hnodup
    have hother : ∀ other ∈ rest, other.1 ≠ head.1 :=
      fun other hother heq => hnodup.1 (heq ▸ mem_map_of_mem hother)
    rcases mem_cons.mp hmem with rfl | hmem
    · have hrest : (rest.filter fun other => other.1 ≠ entry.1) = rest :=
        filter_eq_self.mpr fun other hmem => decide_eq_true (hother other hmem)
      rw [filter_cons_of_neg (by simp), hrest]
    · rw [filter_cons_of_pos (by simpa using (hother entry hmem).symm)]
      exact ((ih hnodup.2 hmem).cons head).trans (.swap _ _ _)

/-- The rows of a builder are among those that are owned. -/
theorem rows_sublist_of_mem_opened (hmem : (key, builder) ∈ builders.opened) :
    builder.rows.Sublist builders.rows :=
  ((sublist_flatten_of_mem (mem_map_of_mem (f := (·.2.rows)) hmem)).trans
    (flatMap_def ▸ .refl _)).trans (sublist_append_left _ _)

/-- The rows of one builder are counted in the totals. -/
theorem WellFormed.bytes_le (h : builders.WellFormed) (hmem : (key, builder) ∈ builders.opened) :
    builder.estimatedResidentBytes ≤ builders.estimatedResidentBytes ∧
      builder.estimatedUncompressedBytes ≤ builders.estimatedStagingBytes := by
  have hsublist := rows_sublist_of_mem_opened hmem
  have hholds : builder.Holds key := h.opened _ hmem
  rw [h.resident, h.staging, hholds.resident, hholds.uncompressed]
  exact ⟨(hsublist.map _).sum_le_sum fun _ _ => Nat.zero_le _,
    (hsublist.map _).sum_le_sum fun _ _ => Nat.zero_le _⟩

/-! ## Sizes -/

/-- A segment of at most so many rows that is over the byte target only with a single row. -/
structure FitsSegment (limits : SegmentBuildLimits) (rows : List SegmentRow)
    (estimatedUncompressedBytes : Nat) : Prop where
  rows_le : rows.length ≤ limits.targetRows
  bytes_le : estimatedUncompressedBytes ≤ limits.targetEstimatedBytes ∨ rows.length = 1

/-- A builder below both targets. -/
structure FitsBuilder (limits : SegmentBuildLimits) (builder : OpenSegment) : Prop where
  rows_lt : builder.rows.length < limits.targetRows
  bytes_lt : builder.estimatedUncompressedBytes < limits.targetEstimatedBytes

/-- The builders keep their limits, but for the builder of a key, which can be sealed. -/
structure SizedExcept (builders : SegmentBuilders) (key : SegmentKey) : Prop where
  length_le : builders.opened.length ≤ builders.limits.maximumOpenBuilders
  opened : ∀ entry ∈ builders.opened, entry.1 ≠ key → FitsBuilder builders.limits entry.2
  pending : ∀ builder, builders.openAt key = some builder →
    FitsSegment builders.limits builder.rows builder.estimatedUncompressedBytes
  sealed : ∀ segment ∈ builders.sealed,
    FitsSegment builders.limits segment.rows segment.estimatedUncompressedBytes

/-- The builders keep their limits. -/
structure Sized (builders : SegmentBuilders) : Prop where
  length_le : builders.opened.length ≤ builders.limits.maximumOpenBuilders
  opened : ∀ entry ∈ builders.opened, FitsBuilder builders.limits entry.2
  sealed : ∀ segment ∈ builders.sealed,
    FitsSegment builders.limits segment.rows segment.estimatedUncompressedBytes

/-- An operation that also keeps the limits. -/
structure Moves (builders : SegmentBuilders) (added : List (SegmentKey × SegmentRow))
    (after : SegmentBuilders) : Prop extends builders.Gains added after where
  sized : builders.Sized → after.Sized

/-- No builder has to be left out where all keep their limits. -/
theorem Sized.sizedExcept (h : builders.Sized) (key : SegmentKey) :
    builders.SizedExcept key where
  length_le := h.length_le
  opened := fun entry hentry _ => h.opened entry hentry
  pending := fun _ hopen =>
    have hfits := h.opened _ (mem_of_openAt hopen)
    ⟨hfits.rows_lt.le, .inl hfits.bytes_lt.le⟩
  sealed := h.sealed

theorem Moves.refl (h : builders.WellFormed) : builders.Moves [] builders :=
  ⟨.refl h, id⟩

theorem Moves.trans {a b c : SegmentBuilders} {first second : List (SegmentKey × SegmentRow)}
    (hab : a.Moves first b) (hbc : b.Moves second c) : a.Moves (first ++ second) c :=
  ⟨hab.toGains.trans hbc.toGains, hbc.sized ∘ hab.sized⟩

/-! ## Sealing -/

/-- A seal moves one builder to the sealed segments. -/
theorem sealKey_eq_ok (h : builders.sealKey key reason = .ok after) :
    ∃ builder segment, builders.openAt key = some builder ∧
      builder.sealAs key reason = .ok segment ∧
      after = { builders with
        opened := builders.opened.filter fun entry => entry.1 ≠ key
        sealed := builders.sealed ++ [segment] } := by
  obtain ⟨builder, hopen, h⟩ := bind_eq_ok.mp h
  obtain ⟨segment, hseal, h⟩ := bind_eq_ok.mp h
  exact ⟨builder, segment, okOr_eq_ok hopen, hseal, (Except.ok.inj h).symm⟩

/-- An open builder can be sealed, since it holds rows. -/
theorem exists_sealKey (h : builders.WellFormed) (hkey : key ∈ builders.opened.map (·.1))
    (reason : SealingReason) : ∃ after, builders.sealKey key reason = .ok after := by
  obtain ⟨builder, hopen⟩ := exists_openAt hkey
  obtain ⟨segment, hseal, -⟩ := (h.opened _ (mem_of_openAt hopen)).sealAs reason
  exact ⟨_, by rw [sealKey, hopen, okOr_some, ok_bind, hseal]; rfl⟩

/-- Sealing a builder moves its rows, under the same key. -/
theorem gains_sealKey (h : builders.WellFormed) (hseal : builders.sealKey key reason = .ok after) :
    builders.Gains [] after := by
  obtain ⟨builder, segment, hopen, hsegment, hafter⟩ := sealKey_eq_ok hseal
  have hmem := mem_of_openAt hopen
  have hperm := perm_entry_filter h.nodup hmem
  obtain ⟨hkey, hrows, -⟩ := OpenSegment.sealAs_eq_ok hsegment
  obtain ⟨_, hsegment', hholds⟩ := (h.opened _ hmem).sealAs reason
  obtain rfl := Except.ok.inj (hsegment.symm.trans hsegment')
  -- the rows of the builder go to the end of the sealed rows
  have hall : after.keyedRows ~ [] ++ builders.keyedRows := by
    have hkeyed : segment.keyedRows ~ underKey key builder.rows := by
      rw [SealedSegment.keyedRows, hkey]
      exact hrows.map _
    simp only [hafter, keyedRows, flatMap_append, flatMap_singleton, nil_append]
    refine .trans ?_ ((hperm.flatMap_right _).symm.append_right _)
    rw [flatMap_cons, append_assoc]
    refine .trans ?_ (hkeyed.append_right _)
    rw [← append_assoc]
    exact perm_append_comm
  subst hafter
  refine ⟨⟨h.nodup.sublist (filter_sublist.map _),
    fun entry hentry => h.opened entry (mem_of_mem_filter hentry), fun other hother => ?_,
    h.resident.trans (residentBytes_perm (rows_perm hall)).symm,
    h.staging.trans (uncompressedBytes_perm (rows_perm hall)).symm⟩, hall, rfl, rfl, rfl⟩
  rcases mem_append.mp hother with hother | hother
  · exact h.sealed other hother
  · exact mem_singleton.mp hother ▸ hholds

/-- Sealing the builder that was left out restores the limits. -/
theorem SizedExcept.sealKey (h : builders.SizedExcept key)
    (hseal : builders.sealKey key reason = .ok after) : after.Sized := by
  obtain ⟨builder, segment, hopen, hsegment, rfl⟩ := sealKey_eq_ok hseal
  obtain ⟨-, hrows, hbytes, -⟩ := OpenSegment.sealAs_eq_ok hsegment
  have hpending := h.pending builder hopen
  refine ⟨(length_filter_le _ _).trans h.length_le, ?_, ?_⟩
  · intro entry hentry
    obtain ⟨hmem, hne⟩ := mem_filter.mp hentry
    exact h.opened entry hmem (of_decide_eq_true hne)
  · intro other hother
    rcases mem_append.mp hother with hother | hother
    · exact h.sealed other hother
    · obtain rfl := mem_singleton.mp hother
      exact ⟨hrows.length_eq ▸ hpending.rows_le, by
        rw [hbytes, hrows.length_eq]
        exact hpending.bytes_le⟩

theorem moves_sealKey (h : builders.WellFormed) (hseal : builders.sealKey key reason = .ok after) :
    builders.Moves [] after :=
  ⟨gains_sealKey h hseal, fun hsized => (hsized.sizedExcept key).sealKey hseal⟩

/-- Some seals in a row. -/
theorem moves_sealKeys (h : builders.WellFormed) {keys : List SegmentKey}
    (hseal : sealKeys reason builders keys = .ok after) : builders.Moves [] after := by
  induction keys generalizing builders with
  | nil =>
    obtain rfl := Except.ok.inj hseal
    exact .refl h
  | cons key rest ih =>
    obtain ⟨next, hnext, hrest⟩ := bind_eq_ok.mp hseal
    have hmoves := moves_sealKey h hnext
    exact hmoves.trans (ih hmoves.wellFormed hrest)

/-- Some builders were sealed, and nothing else was done. -/
structure Seals (builders : SegmentBuilders) (added : List SealedSegment)
    (after : SegmentBuilders) : Prop where
  sealed : after.sealed = builders.sealed ++ added
  opened : after.opened = builders.opened.filter fun entry => entry.1 ∉ added.map (·.key)
  limits : after.limits = builders.limits
  accessSequence : after.accessSequence = builders.accessSequence
  lastObservedAt : after.lastObservedAt = builders.lastObservedAt

theorem Seals.refl (builders : SegmentBuilders) : builders.Seals [] builders :=
  ⟨(append_nil _).symm, by simp, rfl, rfl, rfl⟩

theorem Seals.trans {a b c : SegmentBuilders} {first second : List SealedSegment}
    (hab : a.Seals first b) (hbc : b.Seals second c) : a.Seals (first ++ second) c where
  sealed := by rw [hbc.sealed, hab.sealed, append_assoc]
  opened := by
    rw [hbc.opened, hab.opened, filter_filter]
    refine filter_congr fun entry _ => ?_
    simp only [map_append, mem_append, not_or, Bool.decide_and, Bool.and_comm]
  limits := hbc.limits.trans hab.limits
  accessSequence := hbc.accessSequence.trans hab.accessSequence
  lastObservedAt := hbc.lastObservedAt.trans hab.lastObservedAt

theorem Seals.subset {added : List SealedSegment} (h : builders.Seals added after) :
    after.opened ⊆ builders.opened :=
  h.opened ▸ filter_sublist.subset

theorem seals_sealKey (h : builders.sealKey key reason = .ok after) :
    ∃ segment, segment.key = key ∧ segment.sealingReason = reason ∧
      builders.Seals [segment] after := by
  obtain ⟨builder, segment, -, hseal, rfl⟩ := sealKey_eq_ok h
  obtain ⟨hkey, -, -, hreason⟩ := OpenSegment.sealAs_eq_ok hseal
  refine ⟨segment, hkey, hreason, rfl, ?_, rfl, rfl, rfl⟩
  refine filter_congr fun entry _ => ?_
  simp [hkey]

/-- The sealed segments have the keys of the builders, in their order. -/
theorem seals_sealKeys {keys : List SegmentKey} (h : sealKeys reason builders keys = .ok after) :
    ∃ added, added.map (·.key) = keys ∧ builders.Seals added after := by
  induction keys generalizing builders with
  | nil =>
    obtain rfl := Except.ok.inj h
    exact ⟨[], rfl, .refl builders⟩
  | cons key rest ih =>
    obtain ⟨next, hnext, hrest⟩ := bind_eq_ok.mp h
    obtain ⟨segment, hkey, -, hseals⟩ := seals_sealKey hnext
    obtain ⟨added, hkeys, hseals'⟩ := ih hrest
    exact ⟨segment :: added, by rw [map_cons, hkey, hkeys], hseals.trans hseals'⟩

/-- Open builders can be sealed in any order. -/
theorem sealKeys_of_subset (h : builders.WellFormed) {keys : List SegmentKey} (hnodup : keys.Nodup)
    (hkeys : keys ⊆ builders.opened.map (·.1)) (reason : SealingReason) :
    ∃ after, sealKeys reason builders keys = .ok after ∧ builders.Moves [] after := by
  suffices hseal : ∃ after, sealKeys reason builders keys = .ok after from
    hseal.imp fun _ hseal => ⟨hseal, moves_sealKeys h hseal⟩
  induction keys generalizing builders with
  | nil => exact ⟨builders, rfl⟩
  | cons key rest ih =>
    obtain ⟨hkey, hrest⟩ := cons_subset.mp hkeys
    obtain ⟨hnotMem, hnodup⟩ := nodup_cons.mp hnodup
    obtain ⟨next, hnext⟩ := exists_sealKey h hkey reason
    have hsubset : rest ⊆ next.opened.map (·.1) := by
      obtain ⟨_, _, -, -, rfl⟩ := sealKey_eq_ok hnext
      intro other hother
      obtain ⟨entry, hentry, rfl⟩ := mem_map.mp (hrest hother)
      refine mem_map_of_mem (mem_filter.mpr ⟨hentry, decide_eq_true ?_⟩)
      exact fun heq => hnotMem (heq ▸ hother)
    obtain ⟨after, hafter⟩ := ih (gains_sealKey h hnext).wellFormed hnodup hsubset
    exact ⟨after, by rw [sealKeys, hnext, ok_bind, hafter]⟩

/-- A flush succeeds. -/
theorem sealAllWithReason_of_wellFormed (h : builders.WellFormed) (reason : SealingReason) :
    ∃ after, builders.sealAllWithReason reason = .ok after ∧ builders.Moves [] after :=
  sealKeys_of_subset h h.nodup (List.Subset.refl _) reason

/-- So does a seal of what has expired. -/
theorem sealExpiredAt_of_wellFormed (h : builders.WellFormed) (observedAt : Nat) :
    ∃ after, builders.sealExpiredAt observedAt = .ok after ∧ builders.Moves [] after :=
  sealKeys_of_subset h (h.nodup.sublist (filter_sublist.map _))
    (filter_sublist.map _).subset _

theorem observeTime_of_le
    (h : ∀ previous, builders.lastObservedAt = some previous → previous ≤ observedAt) :
    builders.observeTime observedAt = .ok { builders with lastObservedAt := some observedAt } := by
  rw [observeTime]
  split
  · next previous hprevious => rw [if_neg (Nat.not_lt.mpr (h previous hprevious))]
  · rfl

/-- Time is observed if it does not go back. -/
theorem observeTime_eq_ok (h : builders.observeTime observedAt = .ok after) :
    (∀ previous, builders.lastObservedAt = some previous → previous ≤ observedAt) ∧
      after = { builders with lastObservedAt := some observedAt } := by
  rw [observeTime] at h
  split at h
  · next previous hprevious =>
    split at h
    · cases h
    · next hle =>
      refine ⟨fun other hother => ?_, (Except.ok.inj h).symm⟩
      have heq : previous = other := Option.some.inj (hprevious.symm.trans hother)
      omega
  · next hnone =>
    exact ⟨fun _ hsome => absurd (hnone.symm.trans hsome) (by simp), (Except.ok.inj h).symm⟩

/-! ## One row -/

/-- A sealed builder is no longer open. -/
theorem openAt_sealKey (hseal : builders.sealKey key reason = .ok after) :
    after.openAt key = none := by
  obtain ⟨_, _, -, -, rfl⟩ := sealKey_eq_ok hseal
  exact openAt_eq_none_iff.mpr fun entry hentry => of_decide_eq_true (mem_filter.mp hentry).2

theorem openAt_sealKey_of_none {other : SegmentKey}
    (hseal : builders.sealKey other reason = .ok after) (hopen : builders.openAt key = none) :
    after.openAt key = none := by
  obtain ⟨_, _, -, -, rfl⟩ := sealKey_eq_ok hseal
  exact openAt_eq_none_iff.mpr fun entry hentry =>
    openAt_eq_none_iff.mp hopen entry (mem_of_mem_filter hentry)

/-- A seal makes room. -/
theorem length_opened_sealKey (hseal : builders.sealKey key reason = .ok after) :
    after.opened.length < builders.opened.length := by
  obtain ⟨builder, _, hopen, -, rfl⟩ := sealKey_eq_ok hseal
  exact length_filter_lt_length_iff_exists.mpr ⟨_, mem_of_openAt hopen, by simp⟩

/-- The first step of an insertion succeeds where the totals fit. -/
theorem exists_sealIfTooLarge (h : builders.WellFormed) (key : SegmentKey) {bytes : Nat}
    (hbytes : builders.estimatedStagingBytes + bytes < 2 ^ 64) :
    ∃ after, builders.sealIfTooLarge key bytes = .ok after := by
  rw [sealIfTooLarge]
  cases hopen : builders.openAt key with
  | none => exact ⟨_, rfl⟩
  | some builder =>
    have hmem := mem_of_openAt hopen
    have hle := h.bytes_le hmem
    dsimp only
    rw [addEstimate_eq, usizeBytes_of_lt (by omega), ok_bind]
    split
    · exact exists_sealKey h (mem_map_of_mem (f := (·.1)) hmem) .byteTarget
    · exact ⟨_, rfl⟩

/-- The row fits into the builder of its key, if there is one. -/
theorem moves_sealIfTooLarge (h : builders.WellFormed) {bytes : Nat}
    (hseal : builders.sealIfTooLarge key bytes = .ok after) :
    builders.Moves [] after ∧ ∀ builder, after.openAt key = some builder →
      builder.estimatedUncompressedBytes + bytes ≤ after.limits.targetEstimatedBytes := by
  rw [sealIfTooLarge] at hseal
  cases hopen : builders.openAt key with
  | none =>
    rw [hopen] at hseal
    obtain rfl := Except.ok.inj hseal
    exact ⟨.refl h, fun builder hsome => absurd (hopen.symm.trans hsome) (by simp)⟩
  | some builder =>
    rw [hopen] at hseal
    obtain ⟨projectedBytes, hprojected, hseal⟩ := bind_eq_ok.mp hseal
    obtain ⟨rfl, -⟩ := addEstimate_eq_ok hprojected
    split at hseal
    · exact ⟨moves_sealKey h hseal, fun other hsome =>
        absurd ((openAt_sealKey hseal).symm.trans hsome) (by simp)⟩
    · next hle =>
      obtain rfl := Except.ok.inj hseal
      refine ⟨.refl h, fun other hsome => ?_⟩
      obtain rfl := Option.some.inj (hopen.symm.trans hsome)
      exact Nat.not_lt.mp hle

/-- The second step succeeds : where there is no room, a builder is open. -/
theorem exists_makeRoom (h : builders.WellFormed) (key : SegmentKey) :
    ∃ after, builders.makeRoom key = .ok after := by
  rw [makeRoom]
  split
  · next hfull =>
    have hne : builders.opened ≠ [] := by
      intro hnil
      have hpos := builders.limits.maximumOpenBuilders_pos
      rw [← hfull.2, hnil] at hpos
      exact absurd hpos (Nat.lt_irrefl 0)
    obtain ⟨entry, hentry⟩ := Option.ne_none_iff_exists'.mp
      (mt (argmin_eq_none (f := (·.2.lastTouchedSequence))).mp hne)
    rw [leastRecentlyUsed, hentry, Option.map_some, okOr_some, ok_bind]
    exact exists_sealKey h (mem_map_of_mem (argmin_mem hentry)) .builderLimit
  · exact ⟨_, rfl⟩

/-- There is room for a builder, if the key has none. -/
theorem moves_makeRoom (h : builders.WellFormed) (hroom : builders.makeRoom key = .ok after) :
    builders.Moves [] after ∧ after.openAt key = builders.openAt key ∧
      (builders.Sized → after.openAt key = none →
        after.opened.length < after.limits.maximumOpenBuilders) := by
  rw [makeRoom] at hroom
  split at hroom
  · next hfull =>
    obtain ⟨lruKey, -, hseal⟩ := bind_eq_ok.mp hroom
    have hmoves := moves_sealKey h hseal
    refine ⟨hmoves, (openAt_sealKey_of_none hseal hfull.1).trans hfull.1.symm, fun _ _ => ?_⟩
    rw [hmoves.limits, ← hfull.2]
    exact length_opened_sealKey hseal
  · next hfull =>
    obtain rfl := Except.ok.inj hroom
    refine ⟨.refl h, rfl, fun hsized hnone => ?_⟩
    have hlength := hsized.length_le
    have hne : builders.opened.length ≠ builders.limits.maximumOpenBuilders :=
      fun heq => hfull ⟨hnone, heq⟩
    omega

/-- The builder of a key behind a row : the one that was open, or a new one. -/
inductive Touches (builders : SegmentBuilders) (key : SegmentKey) (row : SegmentRow)
    (observedAt sequence : Nat) : OpenSegment → Prop
  | pushed {builder pushed : OpenSegment} (hopen : builders.openAt key = some builder)
    (hpush : builder.push row sequence = .ok pushed) :
    Touches builders key row observedAt sequence pushed
  | opened (hopen : builders.openAt key = none) :
    Touches builders key row observedAt sequence (.new row observedAt sequence)

/-- The builder of the key is replaced, or a new one is put between the others. -/
theorem openedWith_eq_ok (h : builders.WellFormed) {opened : List (SegmentKey × OpenSegment)}
    (hopened : builders.openedWith key row observedAt sequence = .ok opened) :
    ∃ touched, builders.Touches key row observedAt sequence touched ∧
      opened ~ (key, touched) :: builders.opened.filter fun entry => entry.1 ≠ key := by
  rw [openedWith] at hopened
  cases hopen : builders.openAt key with
  | none =>
    rw [hopen] at hopened
    obtain rfl := Except.ok.inj hopened
    refine ⟨_, .opened hopen, (perm_orderedInsert _ _ _).trans ?_⟩
    rw [filter_eq_self.mpr fun entry hentry =>
      decide_eq_true (openAt_eq_none_iff.mp hopen entry hentry)]
  | some builder =>
    rw [hopen] at hopened
    obtain ⟨pushed, hpush, hopened⟩ := bind_eq_ok.mp hopened
    obtain rfl := Except.ok.inj hopened
    have hothers : (builders.opened.filter fun entry => entry.1 ≠ key).map
        (fun entry => if entry.1 = key then (key, pushed) else entry) =
        builders.opened.filter fun entry => entry.1 ≠ key := by
      refine (map_congr_left fun entry hentry => ?_).trans (map_id _)
      exact if_neg (of_decide_eq_true (mem_filter.mp hentry).2)
    refine ⟨pushed, .pushed hopen hpush,
      ((perm_entry_filter h.nodup (mem_of_openAt hopen)).map _).trans ?_⟩
    rw [map_cons, if_pos rfl, hothers]

/-- A row goes to the builder of its key, and the totals are raised. -/
theorem addRow_eq_ok (h : builders.WellFormed)
    (hadd : builders.addRow key row observedAt = .ok after) :
    ∃ opened touched,
      builders.Touches key row observedAt (builders.accessSequence + 1) touched ∧
      opened ~ (key, touched) :: builders.opened.filter (fun entry => entry.1 ≠ key) ∧
      after = { builders with
        opened
        accessSequence := builders.accessSequence + 1
        estimatedResidentBytes := builders.estimatedResidentBytes + row.estimatedResidentBytes
        estimatedStagingBytes :=
          builders.estimatedStagingBytes + row.estimatedUncompressedBytes } := by
  obtain ⟨_, hsequence, hadd⟩ := bind_eq_ok.mp hadd
  obtain ⟨opened, hopened, hadd⟩ := bind_eq_ok.mp hadd
  obtain ⟨_, hresident, hadd⟩ := bind_eq_ok.mp hadd
  obtain ⟨_, hstaging, hadd⟩ := bind_eq_ok.mp hadd
  obtain ⟨rfl, -⟩ := checkedAdd_eq_some (okOr_eq_ok hsequence)
  obtain ⟨rfl, -⟩ := addEstimate_eq_ok hresident
  obtain ⟨rfl, -⟩ := addEstimate_eq_ok hstaging
  obtain ⟨touched, htouches, hperm⟩ := openedWith_eq_ok h hopened
  exact ⟨opened, touched, htouches, hperm, (Except.ok.inj hadd).symm⟩

/-- The third step succeeds where the totals and the sequence fit. -/
theorem exists_addRow (h : builders.WellFormed) (key : SegmentKey) (row : SegmentRow)
    (hresident : builders.estimatedResidentBytes + row.estimatedResidentBytes < 2 ^ 64)
    (hstaging : builders.estimatedStagingBytes + row.estimatedUncompressedBytes < 2 ^ 64)
    (hsequence : builders.accessSequence + 1 < 2 ^ 64) (observedAt : Nat) :
    ∃ after, builders.addRow key row observedAt = .ok after := by
  obtain ⟨opened, hopened⟩ : ∃ opened,
      builders.openedWith key row observedAt (builders.accessSequence + 1) = .ok opened := by
    rw [openedWith]
    cases hopen : builders.openAt key with
    | none => exact ⟨_, rfl⟩
    | some builder =>
      have hle := h.bytes_le (mem_of_openAt hopen)
      dsimp only
      rw [OpenSegment.push, addEstimate_eq, usizeBytes_of_lt (by omega), ok_bind, addEstimate_eq,
        usizeBytes_of_lt (by omega)]
      exact ⟨_, rfl⟩
  rw [addRow, checkedAdd_of_lt hsequence, okOr_some, ok_bind, hopened, ok_bind, addEstimate_eq,
    usizeBytes_of_lt hresident, ok_bind, addEstimate_eq, usizeBytes_of_lt hstaging]
  exact ⟨_, rfl⟩

/-- The row is gained under the key, which has a builder then. -/
theorem gains_addRow (h : builders.WellFormed)
    (hday : EventDay.fromEventTime row.row.eventTime = key.eventDay)
    (hadd : builders.addRow key row observedAt = .ok after) :
    builders.Gains [(key, row)] after ∧ key ∈ after.opened.map (·.1) := by
  obtain ⟨opened, touched, htouches, hperm, hafter⟩ := addRow_eq_ok h hadd
  have hholds : touched.Holds key := by
    cases htouches with
    | pushed hopen hpush => exact (h.opened _ (mem_of_openAt hopen)).push hday hpush
    | opened => exact .new hday _ _
  have hkeyed : opened.flatMap (fun entry => underKey entry.1 entry.2.rows) ~
      (key, row) :: builders.opened.flatMap (fun entry => underKey entry.1 entry.2.rows) := by
    refine (hperm.flatMap_right _).trans ?_
    cases htouches with
    | pushed hopen hpush =>
      have hbefore := perm_entry_filter h.nodup (mem_of_openAt hopen)
      refine .trans ?_ ((hbefore.flatMap_right _).symm.cons _)
      rw [flatMap_cons, flatMap_cons, OpenSegment.push_eq_ok hpush, underKey,
        map_append, append_assoc]
      exact perm_middle
    | opened hopen =>
      rw [filter_eq_self.mpr fun entry hentry =>
        decide_eq_true (openAt_eq_none_iff.mp hopen entry hentry)]
      rfl
  have hall : after.keyedRows ~ [(key, row)] ++ builders.keyedRows :=
    hafter ▸ hkeyed.append_right _
  have hrows := rows_perm hall
  subst hafter
  refine ⟨⟨⟨?_, ?_, h.sealed, ?_, ?_⟩, hall, rfl, rfl, rfl⟩,
    (hperm.map _).mem_iff.mpr mem_cons_self⟩
  · refine (hperm.map _).nodup_iff.mpr (nodup_cons.mpr ⟨?_, ?_⟩)
    · simp
    · exact h.nodup.sublist (filter_sublist.map _)
  · intro entry hentry
    rcases mem_cons.mp (hperm.mem_iff.mp hentry) with rfl | hentry
    · exact hholds
    · exact h.opened entry (mem_of_mem_filter hentry)
  · refine .trans ?_ (residentBytes_perm hrows).symm
    simp [h.resident, residentBytes, Nat.add_comm]
  · refine .trans ?_ (uncompressedBytes_perm hrows).symm
    simp [h.staging, uncompressedBytes, Nat.add_comm]

/-- Only the builder of the row can be over a target. -/
theorem sizedExcept_addRow (h : builders.WellFormed) (hsized : builders.Sized)
    (hfits : ∀ builder, builders.openAt key = some builder →
      builder.estimatedUncompressedBytes + row.estimatedUncompressedBytes ≤
        builders.limits.targetEstimatedBytes) (hroom : builders.openAt key = none →
      builders.opened.length < builders.limits.maximumOpenBuilders)
    (hadd : builders.addRow key row observedAt = .ok after) : after.SizedExcept key := by
  obtain ⟨opened, touched, htouches, hperm, rfl⟩ := addRow_eq_ok h hadd
  refine ⟨?_, ?_, ?_, hsized.sealed⟩
  · rw [hperm.length_eq]
    cases htouches with
    | pushed hopen _ =>
      have hlength := (perm_entry_filter h.nodup (mem_of_openAt hopen)).length_eq
      exact hlength ▸ hsized.length_le
    | opened hopen => exact (Nat.succ_le_succ (length_filter_le _ _)).trans (hroom hopen)
  · intro entry hentry hne
    rcases mem_cons.mp (hperm.mem_iff.mp hentry) with rfl | hentry
    · exact absurd rfl hne
    · exact hsized.opened entry (mem_of_mem_filter hentry)
  · intro other hother
    rcases mem_cons.mp (hperm.mem_iff.mp (mem_of_openAt hother)) with heq | hother
    swap
    · exact absurd rfl (of_decide_eq_true (mem_filter.mp hother).2)
    obtain rfl : other = touched := congrArg Prod.snd heq
    cases htouches with
    | pushed hopen hpush =>
      have hlt := (hsized.opened _ (mem_of_openAt hopen)).rows_lt
      rw [OpenSegment.push_eq_ok hpush]
      refine ⟨?_, .inl (hfits _ hopen)⟩
      rw [length_append, length_singleton]
      exact hlt
    | opened => exact ⟨builders.limits.targetRows_pos, .inr rfl⟩

/-- The last step succeeds, since the key has a builder. -/
theorem exists_sealIfFull (h : builders.WellFormed) (hkey : key ∈ builders.opened.map (·.1)) :
    ∃ after, builders.sealIfFull key = .ok after := by
  obtain ⟨builder, hopen⟩ := exists_openAt hkey
  rw [sealIfFull, hopen, okOr_some, ok_bind]
  split
  · exact exists_sealKey h hkey .rowTarget
  · split
    · exact exists_sealKey h hkey .byteTarget
    · exact ⟨_, rfl⟩

/-- The last step seals the one builder that is over a target. -/
theorem gains_sealIfFull (h : builders.WellFormed) (hseal : builders.sealIfFull key = .ok after) :
    builders.Gains [] after ∧ (builders.SizedExcept key → after.Sized) := by
  obtain ⟨builder, hopen, hseal⟩ := bind_eq_ok.mp hseal
  split at hseal
  · exact ⟨gains_sealKey h hseal, fun hsized => hsized.sealKey hseal⟩
  · next hrows =>
    split at hseal
    · exact ⟨gains_sealKey h hseal, fun hsized => hsized.sealKey hseal⟩
    · next hbytes =>
      obtain rfl := Except.ok.inj hseal
      refine ⟨.refl h, fun hsized => ⟨hsized.length_le, fun entry hentry => ?_, hsized.sealed⟩⟩
      by_cases hkey : entry.1 = key
      · have heq := (openAt_of_mem h hentry).symm.trans (hkey ▸ okOr_eq_ok hopen)
        obtain rfl := Option.some.inj heq
        exact ⟨Nat.not_le.mp hrows, Nat.not_le.mp hbytes⟩
      · exact hsized.opened entry hentry hkey

/-- The row of a segment that a planned row becomes. -/
def segmentRow (metadata : BatchMetadata) (row : AcceptedRow) (planned : PlannedSegmentRow) :
    SegmentRow :=
  ⟨metadata.batchId, row, planned.estimatedUncompressedBytes, planned.estimatedResidentBytes⟩

/-- The key of a row of a batch : the pinned source, the pinned schema and the UTC day. -/
def rowKey (metadata : BatchMetadata) (row : AcceptedRow) : SegmentKey :=
  ⟨metadata.catalog.sourceId, metadata.catalog.targetSchemaId, .fromEventTime row.eventTime⟩

section PushRow

variable {metadata : BatchMetadata} {row : AcceptedRow} {planned : PlannedSegmentRow}

/-- The four steps of an insertion, under the key of the row. -/
theorem pushRow_eq (builders : SegmentBuilders) (observedAt : Nat)
    (hday : EventDay.fromEventTime row.eventTime = planned.eventDay) :
    builders.pushRow metadata row planned observedAt = (do
      let builders ←
        builders.sealIfTooLarge (rowKey metadata row) planned.estimatedUncompressedBytes
      let builders ← builders.makeRoom (rowKey metadata row)
      let builders ← builders.addRow (rowKey metadata row) (segmentRow metadata row planned)
        observedAt
      builders.sealIfFull (rowKey metadata row)) := by
  rw [pushRow, rowKey, hday]
  rfl

/-- An insertion succeeds where the totals and the sequence fit. -/
theorem exists_pushRow (h : builders.WellFormed) (metadata : BatchMetadata)
    (hday : EventDay.fromEventTime row.eventTime = planned.eventDay)
    (hresident : builders.estimatedResidentBytes + planned.estimatedResidentBytes < 2 ^ 64)
    (hstaging : builders.estimatedStagingBytes + planned.estimatedUncompressedBytes < 2 ^ 64)
    (hsequence : builders.accessSequence + 1 < 2 ^ 64) (observedAt : Nat) :
    ∃ after, builders.pushRow metadata row planned observedAt = .ok after := by
  rw [pushRow_eq builders observedAt hday]
  obtain ⟨first, hfirst⟩ := exists_sealIfTooLarge h (rowKey metadata row) hstaging
  have hmoves := (moves_sealIfTooLarge h hfirst).1
  obtain ⟨second, hsecond⟩ := exists_makeRoom hmoves.wellFormed (rowKey metadata row)
  have hmoves := hmoves.trans (moves_makeRoom hmoves.wellFormed hsecond).1
  obtain ⟨hres, hstg⟩ := hmoves.totals h
  have hseq := hmoves.accessSequence
  obtain ⟨third, hthird⟩ := exists_addRow hmoves.wellFormed (rowKey metadata row)
    (segmentRow metadata row planned) (by rw [hres]; exact hresident) (by rw [hstg]; exact hstaging)
    (by rw [hseq]; exact hsequence) observedAt
  obtain ⟨hgains, hmem⟩ := gains_addRow hmoves.wellFormed rfl hthird
  obtain ⟨after, hafter⟩ := exists_sealIfFull hgains.wellFormed hmem
  exact ⟨after, by rw [hfirst, ok_bind, hsecond, ok_bind, hthird, ok_bind, hafter]⟩

/-- Inserting a row adds it under the key of its source, schema and day. -/
theorem moves_pushRow (h : builders.WellFormed)
    (hday : EventDay.fromEventTime row.eventTime = planned.eventDay)
    (hpush : builders.pushRow metadata row planned observedAt = .ok after) :
    builders.Moves [(rowKey metadata row, segmentRow metadata row planned)] after := by
  rw [pushRow_eq builders observedAt hday] at hpush
  obtain ⟨first, hfirst, hpush⟩ := bind_eq_ok.mp hpush
  obtain ⟨second, hsecond, hpush⟩ := bind_eq_ok.mp hpush
  obtain ⟨third, hthird, hpush⟩ := bind_eq_ok.mp hpush
  obtain ⟨hmoves, hfits⟩ := moves_sealIfTooLarge h hfirst
  obtain ⟨hmoves', hopen, hroom⟩ := moves_makeRoom hmoves.wellFormed hsecond
  have hboth := hmoves.trans hmoves'
  obtain ⟨hgains, -⟩ := gains_addRow hboth.wellFormed rfl hthird
  obtain ⟨hgains', hsized⟩ := gains_sealIfFull hgains.wellFormed hpush
  refine ⟨(hboth.toGains.trans hgains).trans hgains', fun hbefore => hsized ?_⟩
  refine sizedExcept_addRow hboth.wellFormed (hboth.sized hbefore) ?_
    (hroom (hmoves.sized hbefore)) hthird
  intro builder hbuilder
  rw [hmoves'.limits]
  exact hfits builder (hopen ▸ hbuilder)

end PushRow

/-! ## Taking segments -/

/-- The builders behind a sealed segment that was taken. -/
def afterTake (builders : SegmentBuilders) (segment : SealedSegment) (rest : List SealedSegment) :
    SegmentBuilders :=
  { builders with
    sealed := rest
    estimatedResidentBytes := builders.estimatedResidentBytes - segment.estimatedResidentBytes
    estimatedStagingBytes := builders.estimatedStagingBytes - segment.estimatedUncompressedBytes }

/-- What `take_next_sealed` gives away. -/
inductive Takes (builders : SegmentBuilders) : Option SealedSegment → SegmentBuilders → Prop
  | drained (hsealed : builders.sealed = []) : Takes builders none builders
  | taken {segment : SealedSegment} {rest : List SealedSegment}
    (hsealed : builders.sealed = segment :: rest)
    (hwellFormed : (builders.afterTake segment rest).WellFormed)
    (hkeyed : builders.keyedRows ~
      segment.keyedRows ++ (builders.afterTake segment rest).keyedRows) :
    Takes builders (some segment) (builders.afterTake segment rest)

/-- Taking a segment gives its rows away. -/
theorem exists_takeNextSealed (h : builders.WellFormed) :
    ∃ segment after, builders.takeNextSealed = .ok (segment, after) ∧
      builders.Takes segment after := by
  cases hsealed : builders.sealed with
  | nil => exact ⟨none, builders, by rw [takeNextSealed, hsealed], .drained hsealed⟩
  | cons segment rest =>
    have hholds := h.sealed segment (hsealed ▸ mem_cons_self)
    have hkeyed : builders.keyedRows ~
        segment.keyedRows ++ (builders.afterTake segment rest).keyedRows := by
      rw [keyedRows, keyedRows, hsealed, flatMap_cons, ← append_assoc,
        ← append_assoc]
      exact perm_append_comm.append_right _
    have hrows := rows_perm hkeyed
    rw [SealedSegment.keyedRows, map_snd_underKey] at hrows
    have hresident := h.resident
    have hstaging := h.staging
    rw [residentBytes_perm hrows, residentBytes_append, ← hholds.resident] at hresident
    rw [uncompressedBytes_perm hrows, uncompressedBytes_append, ← hholds.uncompressed] at hstaging
    refine ⟨some segment, _, ?_, .taken hsealed ⟨h.nodup, h.opened, ?_, ?_, ?_⟩ hkeyed⟩
    · rw [takeNextSealed, hsealed]
      dsimp only
      rw [ensure_of (by omega), ok_bind, ensure_of (by omega)]
      rfl
    · exact fun other hother => h.sealed other (hsealed ▸ mem_cons_of_mem _ hother)
    · exact Nat.sub_eq_of_eq_add (hresident.trans (Nat.add_comm _ _))
    · exact Nat.sub_eq_of_eq_add (hstaging.trans (Nat.add_comm _ _))

/-- Whatever is taken is one of these. -/
theorem takes_of_eq_ok (h : builders.WellFormed) {segment : Option SealedSegment}
    (htake : builders.takeNextSealed = .ok (segment, after)) : builders.Takes segment after := by
  obtain ⟨_, _, htake', htakes⟩ := exists_takeNextSealed h
  obtain ⟨rfl, rfl⟩ := Prod.mk.inj (Except.ok.inj (htake'.symm.trans htake))
  exact htakes

theorem Takes.wellFormed (h : builders.WellFormed) {segment : Option SealedSegment}
    (htakes : builders.Takes segment after) : after.WellFormed := by
  cases htakes with
  | drained => exact h
  | taken _ hwellFormed _ => exact hwellFormed

end SegmentBuilders

/-! ## Batches -/

variable [SerdeJson] [Layout]

/-- What `plan_batch_rows` plans for a row. -/
def plannedRow (row : AcceptedRow) : PlannedSegmentRow :=
  ⟨.fromEventTime row.eventTime, rowUncompressedBytes row, rowResidentBytes row⟩

/-- The uncompressed bytes of some rows, over the integers. -/
def rowsUncompressedBytes (rows : List AcceptedRow) : Nat :=
  (rows.map rowUncompressedBytes).sum

/-- The resident bytes of some rows, over the integers. -/
def rowsResidentBytes (rows : List AcceptedRow) : Nat :=
  (rows.map rowResidentBytes).sum

/-- The plan has every row, unless a total does not fit. -/
theorem planRows_eq (plan : BatchRowPlan) (records : List NormalizedRecord)
    (huncompressed : plan.totalEstimatedUncompressedBytes < 2 ^ 64)
    (hresident : plan.totalEstimatedResidentBytes < 2 ^ 64) :
    planRows plan records =
      let rows := records.filterMap NormalizedRecord.row?
      if plan.totalEstimatedUncompressedBytes + rowsUncompressedBytes rows < 2 ^ 64 ∧
          plan.totalEstimatedResidentBytes + rowsResidentBytes rows < 2 ^ 64 then
        .ok ⟨plan.totalEstimatedUncompressedBytes + rowsUncompressedBytes rows,
          plan.totalEstimatedResidentBytes + rowsResidentBytes rows,
          plan.rows ++ rows.map plannedRow⟩
      else .error .estimatedBytesOverflow := by
  induction records generalizing plan with
  | nil =>
    simp only [planRows, rowsUncompressedBytes, rowsResidentBytes, filterMap_nil, map_nil,
      sum_nil, Nat.add_zero, append_nil]
    exact (if_pos ⟨huncompressed, hresident⟩).symm
  | cons record rest ih =>
    cases record with
    | deadLetter entry => exact ih plan huncompressed hresident
    | accepted row =>
      simp only [planRows, filterMap_cons, NormalizedRecord.row?, estimateRow_eq,
        rowsUncompressedBytes, rowsResidentBytes, map_cons, sum_cons]
      -- one of the two sums overflows at this row, or the rest decides
      by_cases hu : plan.totalEstimatedUncompressedBytes + rowUncompressedBytes row < 2 ^ 64
      · by_cases hr : plan.totalEstimatedResidentBytes + rowResidentBytes row < 2 ^ 64
        · rw [if_pos ⟨by omega, by omega⟩, ok_bind, addEstimate_eq, usizeBytes_of_lt hu, ok_bind,
            addEstimate_eq, usizeBytes_of_lt hr, ok_bind, ih _ hu hr]
          simp only [rowsUncompressedBytes, rowsResidentBytes, Nat.add_assoc, append_assoc]
          rfl
        · refine .trans ?_ (if_neg (by omega)).symm
          split
          · rw [ok_bind, addEstimate_eq, usizeBytes_of_lt hu, ok_bind, addEstimate_eq,
              usizeBytes_of_le (Nat.not_lt.mp hr)]
            rfl
          · rfl
      · refine .trans ?_ (if_neg (by omega)).symm
        split
        · rw [ok_bind, addEstimate_eq, usizeBytes_of_le (Nat.not_lt.mp hu)]
          rfl
        · rfl

/-- The rows of a batch are planned exactly when both totals fit. -/
theorem planBatchRows_eq (batch : NormalizedBatch) :
    planBatchRows batch =
      if rowsUncompressedBytes batch.acceptedRows < 2 ^ 64 ∧
          rowsResidentBytes batch.acceptedRows < 2 ^ 64 then
        .ok ⟨rowsUncompressedBytes batch.acceptedRows, rowsResidentBytes batch.acceptedRows,
          batch.acceptedRows.map plannedRow⟩
      else .error .estimatedBytesOverflow := by
  rw [planBatchRows, planRows_eq _ _ (by decide) (by decide)]
  simp only [Nat.zero_add, nil_append]
  rfl

namespace SegmentBuilders

variable {batch : NormalizedBatch} {records : List NormalizedRecord}

/-- A row of a batch under the key it belongs to. -/
def keyedRow (metadata : BatchMetadata) (row : AcceptedRow) : SegmentKey × SegmentRow :=
  (rowKey metadata row, segmentRow metadata row (plannedRow row))

/-- The rows of a batch under the keys they belong to. -/
def batchRows (batch : NormalizedBatch) : List (SegmentKey × SegmentRow) :=
  batch.acceptedRows.map (keyedRow batch.metadata)

/-- The rows of segments that the rows of a batch become. -/
def segmentRows (batch : NormalizedBatch) : List SegmentRow :=
  batch.acceptedRows.map fun row => segmentRow batch.metadata row (plannedRow row)

theorem map_snd_batchRows (batch : NormalizedBatch) :
    (batchRows batch).map (·.2) = segmentRows batch := by
  rw [batchRows, map_map]
  rfl

theorem residentBytes_segmentRows (batch : NormalizedBatch) :
    residentBytes (segmentRows batch) = rowsResidentBytes batch.acceptedRows := by
  simp only [residentBytes, segmentRows, map_map]
  rfl

theorem uncompressedBytes_segmentRows (batch : NormalizedBatch) :
    uncompressedBytes (segmentRows batch) = rowsUncompressedBytes batch.acceptedRows := by
  simp only [uncompressedBytes, segmentRows, map_map]
  rfl

/-- The loop of `push_batch` puts every row into the builders and keeps the dead letters. -/
theorem moves_pushRecords (h : builders.WellFormed) {metadata : BatchMetadata}
    {deadLetters returned : List DeadLetterEntry}
    (hpush : pushRecords metadata observedAt builders
      ((records.filterMap NormalizedRecord.row?).map plannedRow) deadLetters records =
        .ok (after, returned)) :
    builders.Moves ((records.filterMap NormalizedRecord.row?).map (keyedRow metadata)) after ∧
      returned = deadLetters ++ records.filterMap NormalizedRecord.entry? := by
  induction records generalizing builders deadLetters with
  | nil =>
    rw [filterMap_nil, map_nil, pushRecords, if_pos rfl] at hpush
    obtain ⟨rfl, rfl⟩ := Prod.mk.inj (Except.ok.inj hpush)
    exact ⟨.refl h, (append_nil _).symm⟩
  | cons record rest ih =>
    cases record with
    | deadLetter entry =>
      obtain ⟨hmoves, rfl⟩ := ih h hpush
      exact ⟨hmoves, by simp [NormalizedRecord.entry?]⟩
    | accepted row =>
      obtain ⟨next, hnext, hrest⟩ := bind_eq_ok.mp hpush
      have hmoves := moves_pushRow h rfl hnext
      obtain ⟨hmoves', rfl⟩ := ih hmoves.wellFormed hrest
      exact ⟨hmoves.trans hmoves', rfl⟩

/-- The rows of a batch are inserted where their totals fit. -/
theorem exists_pushRecords (h : builders.WellFormed) (metadata : BatchMetadata) (observedAt : Nat)
    (records : List NormalizedRecord) (deadLetters : List DeadLetterEntry)
    (hresident : builders.estimatedResidentBytes +
      rowsResidentBytes (records.filterMap NormalizedRecord.row?) < 2 ^ 64)
    (hstaging : builders.estimatedStagingBytes +
      rowsUncompressedBytes (records.filterMap NormalizedRecord.row?) < 2 ^ 64)
    (hsequence : builders.accessSequence +
      (records.filterMap NormalizedRecord.row?).length < 2 ^ 64) :
    ∃ result, pushRecords metadata observedAt builders
      ((records.filterMap NormalizedRecord.row?).map plannedRow) deadLetters records =
        .ok result := by
  induction records generalizing builders deadLetters with
  | nil => exact ⟨(builders, deadLetters), by simp [pushRecords]⟩
  | cons record rest ih =>
    cases record with
    | deadLetter entry => exact ih h (deadLetters ++ [entry]) hresident hstaging hsequence
    | accepted row =>
      simp only [filterMap_cons, NormalizedRecord.row?, rowsResidentBytes,
        rowsUncompressedBytes, map_cons, sum_cons, length_cons]
        at hresident hstaging hsequence ih ⊢
      obtain ⟨next, hnext⟩ := exists_pushRow h metadata
        (show EventDay.fromEventTime row.eventTime = (plannedRow row).eventDay from rfl)
        (by dsimp only [plannedRow]; omega) (by dsimp only [plannedRow]; omega) (by omega) observedAt
      have hmoves := moves_pushRow h rfl hnext
      obtain ⟨hres, hstg⟩ := hmoves.totals h
      have hseq := hmoves.accessSequence
      simp only [residentBytes, uncompressedBytes, segmentRow, plannedRow, map_singleton,
        sum_singleton, length_singleton] at hres hstg hseq
      obtain ⟨result, hresult⟩ := ih hmoves.wellFormed deadLetters (by omega) (by omega) (by omega)
      exact ⟨result, by rw [pushRecords, hnext, ok_bind, hresult]⟩

/-- The rows of the batch can be counted, and do not fit the builders even if these are empty. -/
def Exceeds (limits : SegmentBuildLimits) (batch : NormalizedBatch) : Prop :=
  rowsUncompressedBytes batch.acceptedRows < 2 ^ 64 ∧
    rowsResidentBytes batch.acceptedRows < 2 ^ 64 ∧
    (limits.maximumEstimatedResidentBytes < rowsResidentBytes batch.acceptedRows ∨
      limits.maximumStagingBytes < rowsUncompressedBytes batch.acceptedRows)

/-- The batch fits builders that own nothing. -/
structure Fits (limits : SegmentBuildLimits) (batch : NormalizedBatch) : Prop where
  resident_lt : rowsResidentBytes batch.acceptedRows < 2 ^ 64
  staging_lt : rowsUncompressedBytes batch.acceptedRows < 2 ^ 64
  resident_le : rowsResidentBytes batch.acceptedRows ≤ limits.maximumEstimatedResidentBytes
  staging_le : rowsUncompressedBytes batch.acceptedRows ≤ limits.maximumStagingBytes

/-- The batch passes the checks of `push_batch` : its rows fit the limits, alone and with what
the builders own, and the access sequence can count them. -/
structure Passes (builders : SegmentBuilders) (batch : NormalizedBatch) : Prop where
  resident_lt : builders.estimatedResidentBytes + rowsResidentBytes batch.acceptedRows < 2 ^ 64
  staging_lt : builders.estimatedStagingBytes + rowsUncompressedBytes batch.acceptedRows < 2 ^ 64
  resident_le : builders.estimatedResidentBytes + rowsResidentBytes batch.acceptedRows ≤
    builders.limits.maximumEstimatedResidentBytes
  staging_le : builders.estimatedStagingBytes + rowsUncompressedBytes batch.acceptedRows ≤
    builders.limits.maximumStagingBytes
  sequence_lt : builders.accessSequence + batch.acceptedRows.length < 2 ^ 64

/-- The totals are within the limits, with the rows of a batch. -/
def Roomy (builders : SegmentBuilders) (batch : NormalizedBatch) : Prop :=
  builders.estimatedResidentBytes + rowsResidentBytes batch.acceptedRows ≤
      builders.limits.maximumEstimatedResidentBytes ∧
    builders.estimatedStagingBytes + rowsUncompressedBytes batch.acceptedRows ≤
      builders.limits.maximumStagingBytes

/-- The results `push_batch` can have, behind the seal of the expired builders. -/
inductive Pushes (aged : SegmentBuilders) (batch : NormalizedBatch) (observedAt : Nat) :
    Except SegmentBuildError (SegmentBuildOutcome × SegmentBuilders) → Prop
  | overflow (hnot : ¬ Exceeds aged.limits batch)
    (hover : 2 ^ 64 ≤ aged.estimatedResidentBytes + rowsResidentBytes batch.acceptedRows ∨
      2 ^ 64 ≤ aged.estimatedStagingBytes + rowsUncompressedBytes batch.acceptedRows) :
    Pushes aged batch observedAt (.error .estimatedBytesOverflow)
  | exceeds (hexceeds : Exceeds aged.limits batch) (capacity : SegmentCapacity)
    (estimatedBytes maximumBytes : Nat) :
    Pushes aged batch observedAt
      (.error (.batchExceedsCapacity capacity estimatedBytes maximumBytes))
  | deferred (hfits : Fits aged.limits batch) (hpressure : ¬ aged.Roomy batch)
    (capacity : SegmentCapacity) {after : SegmentBuilders}
    (hseal : aged.sealAllWithReason (.capacityPressure capacity) = .ok after) :
    Pushes aged batch observedAt (.ok (.deferred batch capacity, after))
  | exhausted (hfits : Fits aged.limits batch) (hroomy : aged.Roomy batch)
    (hsequence : 2 ^ 64 ≤ aged.accessSequence + batch.acceptedRows.length) :
    Pushes aged batch observedAt (.error .accessSequenceExhausted)
  | accepted (hpasses : aged.Passes batch) {after : SegmentBuilders}
    (hpush : pushRecords batch.metadata observedAt aged (batch.acceptedRows.map plannedRow) []
      batch.records = .ok (after, batch.deadLetters)) :
    Pushes aged batch observedAt
      (.ok (.accepted ⟨batch.metadata, batch.deadLetters, batch.ignoredRecords⟩, after))

theorem Fits.not_exceeds {limits : SegmentBuildLimits} (h : Fits limits batch) :
    ¬ Exceeds limits batch := fun hexceeds => by
  have hresident := h.resident_le
  have hstaging := h.staging_le
  have hover := hexceeds.2.2
  omega

theorem Passes.fits (h : builders.Passes batch) : Fits builders.limits batch where
  resident_lt := (Nat.le_add_left _ _).trans_lt h.resident_lt
  staging_lt := (Nat.le_add_left _ _).trans_lt h.staging_lt
  resident_le := (Nat.le_add_left _ _).trans h.resident_le
  staging_le := (Nat.le_add_left _ _).trans h.staging_le

/-- A batch that passes the checks is inserted. -/
theorem Passes.exists_pushRecords (hpasses : builders.Passes batch) (h : builders.WellFormed)
    (observedAt : Nat) :
    ∃ after, pushRecords batch.metadata observedAt builders (batch.acceptedRows.map plannedRow) []
      batch.records = .ok (after, batch.deadLetters) := by
  obtain ⟨⟨after, returned⟩, hpush⟩ := SegmentBuilders.exists_pushRecords h batch.metadata
    observedAt batch.records [] hpasses.resident_lt hpasses.staging_lt hpasses.sequence_lt
  obtain ⟨-, rfl⟩ := moves_pushRecords h hpush
  exact ⟨after, hpush⟩

/-- There is no pressure where the totals keep the limits. -/
theorem capacityPressure_eq_none_iff (builders : SegmentBuilders) (batch : NormalizedBatch) :
    builders.capacityPressure
        (builders.estimatedResidentBytes + rowsResidentBytes batch.acceptedRows)
        (builders.estimatedStagingBytes + rowsUncompressedBytes batch.acceptedRows) = none ↔
      builders.Roomy batch := by
  rw [capacityPressure, Roomy]
  split
  · simp only [reduceCtorEq, false_iff]
    omega
  · split
    · simp only [reduceCtorEq, false_iff]
      omega
    · simp only [true_iff]
      omega

/-- What is done with a planned batch. -/
theorem pushes_pushPlanned (h : builders.WellFormed) (batch : NormalizedBatch)
    {rowPlan : BatchRowPlan} (hplan : planBatchRows batch = .ok rowPlan) (observedAt : Nat) :
    Pushes builders batch observedAt (builders.pushPlanned batch rowPlan observedAt) := by
  rw [planBatchRows_eq] at hplan
  split at hplan
  case isFalse => cases hplan
  case isTrue hcounted =>
  obtain rfl := Except.ok.inj hplan
  simp only [pushPlanned, addEstimate_eq, length_map]
  by_cases hresident : rowsResidentBytes batch.acceptedRows ≤
    builders.limits.maximumEstimatedResidentBytes
  swap
  · rw [ensure, if_neg hresident]
    exact .exceeds ⟨hcounted.1, hcounted.2, .inl (by omega)⟩ _ _ _
  by_cases hstaging : rowsUncompressedBytes batch.acceptedRows ≤ builders.limits.maximumStagingBytes
  swap
  · rw [ensure_of hresident, ok_bind, ensure, if_neg hstaging]
    exact .exceeds ⟨hcounted.1, hcounted.2, .inr (by omega)⟩ _ _ _
  have hfits : Fits builders.limits batch := ⟨hcounted.2, hcounted.1, hresident, hstaging⟩
  rw [ensure_of hresident, ok_bind, ensure_of hstaging, ok_bind]
  by_cases hr : builders.estimatedResidentBytes + rowsResidentBytes batch.acceptedRows < 2 ^ 64
  swap
  · rw [usizeBytes_of_le (Nat.not_lt.mp hr)]
    exact .overflow hfits.not_exceeds (.inl (Nat.not_lt.mp hr))
  by_cases hs : builders.estimatedStagingBytes + rowsUncompressedBytes batch.acceptedRows < 2 ^ 64
  swap
  · rw [usizeBytes_of_lt hr, ok_bind, usizeBytes_of_le (Nat.not_lt.mp hs)]
    exact .overflow hfits.not_exceeds (.inr (Nat.not_lt.mp hs))
  rw [usizeBytes_of_lt hr, ok_bind, usizeBytes_of_lt hs, ok_bind]
  have hpressure := builders.capacityPressure_eq_none_iff batch
  split
  · next capacity hsome =>
    obtain ⟨after, hafter, -⟩ := sealAllWithReason_of_wellFormed h (.capacityPressure capacity)
    rw [hafter, ok_bind]
    exact .deferred hfits (mt hpressure.mpr (by simp [hsome])) capacity hafter
  · next hnone =>
    have hroomy := hpressure.mp hnone
    by_cases hq : builders.accessSequence + batch.acceptedRows.length < 2 ^ 64
    swap
    · rw [ensure, if_neg hq]
      exact .exhausted hfits hroomy (Nat.not_lt.mp hq)
    have hpasses : builders.Passes batch := ⟨hr, hs, hroomy.1, hroomy.2, hq⟩
    obtain ⟨after, hafter⟩ := hpasses.exists_pushRecords h observedAt
    rw [ensure_of hq, ok_bind, hafter, ok_bind]
    exact .accepted hpasses hafter

/-- What `push_batch` does at an instant that is not before the last one. -/
theorem pushes_pushBatch (h : builders.WellFormed) (batch : NormalizedBatch)
    (htime : ∀ previous, builders.lastObservedAt = some previous → previous ≤ observedAt) :
    ∃ aged, { builders with lastObservedAt := some observedAt }.sealExpiredAt observedAt =
        .ok aged ∧ { builders with lastObservedAt := some observedAt }.Moves [] aged ∧
      Pushes aged batch observedAt (builders.pushBatch batch observedAt) := by
  obtain ⟨aged, haged, hmoves⟩ := sealExpiredAt_of_wellFormed (h.observed observedAt) observedAt
  refine ⟨aged, haged, hmoves, ?_⟩
  rw [pushBatch, observeTime_of_le htime, ok_bind, haged, ok_bind]
  cases hplan : planBatchRows batch with
  | error error =>
    rw [planBatchRows_eq] at hplan
    split at hplan
    · cases hplan
    · next hcounted =>
      cases hplan
      exact .overflow (fun hexceeds => hcounted ⟨hexceeds.1, hexceeds.2.1⟩) (by omega)
  | ok rowPlan =>
    rw [ok_bind]
    exact pushes_pushPlanned hmoves.wellFormed batch hplan observedAt

/-- `push_batch` refuses a batch for its size exactly if the sizes of its rows exceed a maximum. -/
theorem pushBatch_exceeds_iff (h : builders.WellFormed) (batch : NormalizedBatch) (observedAt : Nat)
    (htime : ∀ previous, builders.lastObservedAt = some previous → previous ≤ observedAt) :
    (∃ capacity estimatedBytes maximumBytes, builders.pushBatch batch observedAt =
        .error (.batchExceedsCapacity capacity estimatedBytes maximumBytes)) ↔
      Exceeds builders.limits batch := by
  generalize hresult : builders.pushBatch batch observedAt = result
  obtain ⟨aged, -, hmoves, hpushes⟩ := pushes_pushBatch h batch htime
  rw [hresult] at hpushes
  rw [show builders.limits = aged.limits from hmoves.limits.symm]
  cases hpushes with
  | overflow hnot => simp [hnot]
  | exceeds hexceeds capacity bytes maximum =>
    exact ⟨fun _ => hexceeds, fun _ => ⟨capacity, bytes, maximum, rfl⟩⟩
  | deferred hfits => simp [hfits.not_exceeds]
  | exhausted hfits => simp [hfits.not_exceeds]
  | accepted hpasses => simp [hpasses.fits.not_exceeds]

/-- What `push_batch` has done once it returns. -/
theorem pushBatch_eq_ok (h : builders.WellFormed) {outcome : SegmentBuildOutcome}
    (hpush : builders.pushBatch batch observedAt = .ok (outcome, after)) :
    ∃ aged, { builders with lastObservedAt := some observedAt }.sealExpiredAt observedAt =
        .ok aged ∧ { builders with lastObservedAt := some observedAt }.Moves [] aged ∧
      Pushes aged batch observedAt (.ok (outcome, after)) := by
  obtain ⟨observed, hobserved, -⟩ := bind_eq_ok.mp hpush
  exact hpush ▸ pushes_pushBatch h batch (observeTime_eq_ok hobserved).1

/-- The rows that `push_batch` has moved and inserted. -/
inductive Pushed (builders : SegmentBuilders) (batch : NormalizedBatch) :
    SegmentBuildOutcome → SegmentBuilders → Prop
  | deferred (capacity : SegmentCapacity) {after : SegmentBuilders}
    (hmoves : builders.Moves [] after) : Pushed builders batch (.deferred batch capacity) after
  | accepted {after : SegmentBuilders} (hmoves : builders.Moves (batchRows batch) after) :
    Pushed builders batch (.accepted ⟨batch.metadata, batch.deadLetters, batch.ignoredRecords⟩)
      after

/-- Whatever `push_batch` gives back is one of the results it can have. -/
theorem pushed_of_pushBatch_eq_ok (h : builders.WellFormed) {outcome : SegmentBuildOutcome}
    (hpush : builders.pushBatch batch observedAt = .ok (outcome, after)) :
    Pushed { builders with lastObservedAt := some observedAt } batch outcome after := by
  obtain ⟨aged, -, hmoves, hpushes⟩ := pushBatch_eq_ok h hpush
  cases hpushes with
  | deferred _ _ capacity hseal =>
    exact .deferred capacity (hmoves.trans (moves_sealKeys hmoves.wellFormed hseal))
  | accepted _ hrecords =>
    exact .accepted (hmoves.trans (moves_pushRecords hmoves.wellFormed hrecords).1)

/-- The builders the operations lead to. -/
inductive Reachable (stagingCapacity : SegmentStagingCapacity) : SegmentBuilders → Prop
  | new : Reachable stagingCapacity (.new stagingCapacity)
  | pushBatch {builders after : SegmentBuilders} {batch : NormalizedBatch} {observedAt : Nat}
    {outcome : SegmentBuildOutcome} (h : Reachable stagingCapacity builders)
    (hpush : builders.pushBatch batch observedAt = .ok (outcome, after)) :
    Reachable stagingCapacity after
  | sealExpired {builders after : SegmentBuilders} {observedAt : Nat}
    (h : Reachable stagingCapacity builders)
    (hseal : builders.sealExpired observedAt = .ok after) : Reachable stagingCapacity after
  | flushAll {builders after : SegmentBuilders} (h : Reachable stagingCapacity builders)
    (hflush : builders.flushAll = .ok after) : Reachable stagingCapacity after
  | takeNextSealed {builders after : SegmentBuilders} {segment : Option SealedSegment}
    (h : Reachable stagingCapacity builders)
    (htake : builders.takeNextSealed = .ok (segment, after)) : Reachable stagingCapacity after

/-- Every reachable state is well formed. -/
theorem Reachable.wellFormed {stagingCapacity : SegmentStagingCapacity}
    (h : Reachable stagingCapacity builders) :
    builders.WellFormed ∧ builders.limits = .standard stagingCapacity := by
  induction h with
  | new => exact ⟨wellFormed_new _, rfl⟩
  | pushBatch _ hpush ih =>
    cases pushed_of_pushBatch_eq_ok ih.1 hpush with
    | deferred _ hmoves => exact ⟨hmoves.wellFormed, hmoves.limits.trans ih.2⟩
    | accepted hmoves => exact ⟨hmoves.wellFormed, hmoves.limits.trans ih.2⟩
  | sealExpired _ hseal ih =>
    obtain ⟨observed, hobserved, hseal⟩ := bind_eq_ok.mp hseal
    obtain ⟨-, rfl⟩ := observeTime_eq_ok hobserved
    have hmoves := moves_sealKeys (ih.1.observed _) hseal
    exact ⟨hmoves.wellFormed, hmoves.limits.trans ih.2⟩
  | flushAll _ hflush ih =>
    have hmoves := moves_sealKeys ih.1 hflush
    exact ⟨hmoves.wellFormed, hmoves.limits.trans ih.2⟩
  | takeNextSealed _ htake ih =>
    have htakes := takes_of_eq_ok ih.1 htake
    refine ⟨htakes.wellFormed ih.1, ?_⟩
    cases htakes with
    | drained => exact ih.2
    | taken => exact ih.2

end SegmentBuilders

end Invariant

end Elucid
