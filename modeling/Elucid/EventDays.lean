import Elucid.Framing
import Elucid.Calendar
import Elucid.SegmentRuns

/-!
# Event days of a batch

A batch may have rows of at most 32 UTC days. `normalize_occurrence` decides it line by line, on
a set of days that it has admitted so far, and counts a day as milliseconds divided by those of a
day, rounded down. Segment keys and segment times have calendar dates instead.

`normalizeRecords_eventDays` : the admitted days are the first 32 among the records that are
valid otherwise, a valid record is rejected for its day exactly if that is not one of them, and
days and dates are the same partition, so a batch has rows of at most 32 segment keys.
-/

namespace Elucid

open BigEndian Lines Calendar List

/-! ## First distinct elements -/

section Distinct

variable {α : Type*} [DecidableEq α]

theorem eraseDups_concat (elements : List α) (element : α) :
    (elements ++ [element]).eraseDups =
      elements.eraseDups ++ if element ∈ elements then [] else [element] := by
  rw [eraseDups_append]
  split
  · rename_i hmem
    simp [List.removeAll, hmem]
  · rename_i hmem
    simp [List.removeAll, hmem, eraseDups_cons]

theorem nodup_eraseDups (elements : List α) : elements.eraseDups.Nodup := by
  induction elements using List.reverseRecOn with
  | nil => exact nodup_nil
  | append_singleton elements element ih =>
    rw [eraseDups_concat]
    split
    · rwa [append_nil]
    · rename_i hmem
      exact nodup_append.mpr ⟨ih, nodup_singleton _, fun first hfirst later hlater heq =>
        hmem (mem_eraseDups.mp (mem_singleton.mp hlater ▸ heq ▸ hfirst))⟩

/-- The first distinct elements of a list, up to a limit. -/
def firstDistinct (limit : Nat) (elements : List α) : List α := elements.eraseDups.take limit

variable {limit : Nat} {elements : List α} {element : α}

theorem mem_of_mem_firstDistinct (h : element ∈ firstDistinct limit elements) :
    element ∈ elements :=
  mem_eraseDups.mp (mem_of_mem_take h)

theorem nodup_firstDistinct : (firstDistinct limit elements).Nodup :=
  (nodup_eraseDups elements).sublist (take_sublist _ _)

theorem length_firstDistinct_le : (firstDistinct limit elements).length ≤ limit :=
  length_take_le _ _

/-- An element is added if it is new and there is room. -/
theorem firstDistinct_concat (limit : Nat) (elements : List α) (element : α) :
    firstDistinct limit (elements ++ [element]) =
      if element ∈ firstDistinct limit elements then firstDistinct limit elements
      else if (firstDistinct limit elements).length < limit then
        firstDistinct limit elements ++ [element]
      else firstDistinct limit elements := by
  have hmem : element ∈ elements ↔ element ∈ elements.eraseDups := mem_eraseDups.symm
  rw [firstDistinct, eraseDups_concat, firstDistinct]
  by_cases hfirst : element ∈ elements.eraseDups.take limit
  · rw [if_pos hfirst, if_pos (hmem.mpr (mem_of_mem_take hfirst)), append_nil]
  rw [if_neg hfirst, length_take]
  by_cases hroom : min limit elements.eraseDups.length < limit
  · have hall : elements.eraseDups.take limit = elements.eraseDups :=
      take_of_length_le (by omega)
    rw [hall, ← hmem] at hfirst
    rw [if_pos hroom, if_neg hfirst, hall]
    refine take_of_length_le ?_
    rw [length_append, length_singleton]
    omega
  · rw [if_neg hroom]
    exact take_append_of_le_length (by omega)

/-- Later elements do not change whether an earlier one is among the first. -/
theorem mem_firstDistinct_append (h : element ∈ elements) (rest : List α) :
    element ∈ firstDistinct limit (elements ++ rest) ↔ element ∈ firstDistinct limit elements := by
  have hnodup := nodup_eraseDups (elements ++ rest)
  rw [eraseDups_append] at hnodup
  have hnot : element ∉ (rest.removeAll elements).eraseDups := fun hrest =>
    (nodup_append.mp hnodup).2.2 element (mem_eraseDups.mpr h) element hrest rfl
  rw [firstDistinct, eraseDups_append, take_append, mem_append]
  exact or_iff_left fun hrest => hnot (mem_of_mem_take hrest)

end Distinct

/-! ## Days of a batch -/

section Days

variable [Chrono] [ChronoText] [FloatText] [Blake3] [Base64] [SerdeJson]
variable {plan : NormalizationPlan} {line : Line UInt8}

/-- The day of a row, in the sense of `normalize_occurrence`. -/
def AcceptedRow.day (row : AcceptedRow) : Int := row.eventTime.unixMilliseconds / millisecondsPerDay

/-- The row of a line that is valid, its day apart. -/
def validRow (plan : NormalizationPlan) (line : Line UInt8) : Option AcceptedRow :=
  if plan.profile.maximumRecordBytes < (lineRecord line).length then none
  else if !isUtf8 (lineRecord line) then none
  else (normalizeRecord plan (lineRecord line) (lineLocation line)).toOption

/-- The days of the valid lines, in their order. -/
def validDays (plan : NormalizationPlan) (lines : List (Line UInt8)) : List Int :=
  lines.filterMap fun line => (validRow plan line).map AcceptedRow.day

/-- The dead letter of a line. -/
def rejected (plan : NormalizationPlan) (line : Line UInt8) (code : DeadLetterCode) :
    NormalizedRecord :=
  .deadLetter (.new plan.metadata.batchId (lineLocation line) code (lineRecord line)
    (lineRecord line).length)

/-- The outcome of a line, if these are the admitted days of its batch. -/
structure IsOutcome (plan : NormalizationPlan) (days : List Int) (line : Line UInt8)
    (record : NormalizedRecord) : Prop where
  accepted : ∀ row, validRow plan line = some row → row.day ∈ days → record = .accepted row
  exceeded : ∀ row, validRow plan line = some row → row.day ∉ days →
    record = rejected plan line .eventDayLimitExceeded
  invalid : validRow plan line = none →
    ∃ code, code ≠ .eventDayLimitExceeded ∧ record = rejected plan line code

omit [Blake3] [Base64] [SerdeJson] in
theorem normalizeField_ne (root : Value) (format : EventTimeFormat) (field : FieldPlan) :
    normalizeField root format field ≠ .error .eventDayLimitExceeded := by
  have hnullable {code : DeadLetterCode}
      (h : nullableValue field.nullability code = .error .eventDayLimitExceeded) :
      code = .eventDayLimitExceeded := by
    cases hnullability : field.nullability with
    | nullable =>
      rw [hnullability] at h
      cases h
    | nonNull =>
      rw [hnullability] at h
      exact Except.error.inj h
  intro h
  unfold normalizeField at h
  split at h
  · rcases bind_eq_error.mp h with h | ⟨_, -, h⟩
    · cases hnullable h
    · cases h
  · rcases bind_eq_error.mp h with h | ⟨_, -, h⟩
    · cases hnullable h
    · cases h
  · rcases bind_eq_error.mp h with h | ⟨_, -, h⟩
    · cases (okOr_eq_error.mp h).2
    · cases h

omit [Base64] in
/-- A record alone is not rejected for its day. -/
theorem normalizeRecord_ne (plan : NormalizationPlan) (record : Bytes) (location : RecordLocation) :
    normalizeRecord plan record location ≠ .error .eventDayLimitExceeded := by
  intro h
  unfold normalizeRecord at h
  rcases bind_eq_error.mp h with h | ⟨object, -, h⟩
  · cases (okOr_eq_error.mp h).2
  rcases bind_eq_error.mp h with h | ⟨eventTime, -, h⟩
  · cases (okOr_eq_error.mp h).2
  rcases bind_eq_error.mp h with h | ⟨fields, -, h⟩
  · obtain ⟨field, -, hfield⟩ := exists_of_mapM_eq_error h
    exact normalizeField_ne _ _ _ hfield
  · cases h

/-- A valid line is accepted, if its day is one of the first, and rejected otherwise. -/
theorem normalizeLine_of_validRow {row : AcceptedRow} (hrow : validRow plan line = some row)
    (seen : List Int) :
    normalizeLine plan (lineRecord line) (lineLocation line)
        (firstDistinct maximumBatchEventDays seen) =
      let days := firstDistinct maximumBatchEventDays (seen ++ [row.day])
      (if row.day ∈ days then .accepted row else rejected plan line .eventDayLimitExceeded,
        days) := by
  unfold validRow at hrow
  split at hrow
  · cases hrow
  split at hrow
  · cases hrow
  rename_i hlength hutf8
  have hnormalized : normalizeRecord plan (lineRecord line) (lineLocation line) = .ok row := by
    cases hresult : normalizeRecord plan (lineRecord line) (lineLocation line) with
    | ok result =>
      rw [hresult] at hrow
      exact congrArg _ (Option.some.inj hrow)
    | error code =>
      rw [hresult] at hrow
      cases hrow
  unfold normalizeLine
  dsimp only
  rw [if_neg hlength, if_neg hutf8, hnormalized, firstDistinct_concat]
  dsimp only
  rw [← AcceptedRow.day]
  by_cases hfirst : row.day ∈ firstDistinct maximumBatchEventDays seen
  · rw [if_pos hfirst, if_pos hfirst, if_pos hfirst]
  rw [if_neg hfirst, if_neg hfirst]
  by_cases hroom : (firstDistinct maximumBatchEventDays seen).length < maximumBatchEventDays
  · rw [if_pos hroom, if_pos hroom, if_pos (mem_append_right _ (mem_singleton_self _))]
  · rw [if_neg hroom, if_neg hroom, if_neg hfirst]
    rfl

/-- A line that is not valid is rejected for another reason. -/
theorem normalizeLine_of_not_validRow (hrow : validRow plan line = none) (days : List Int) :
    ∃ code, code ≠ .eventDayLimitExceeded ∧
      normalizeLine plan (lineRecord line) (lineLocation line) days =
        (rejected plan line code, days) := by
  unfold validRow at hrow
  unfold normalizeLine
  dsimp only
  split at hrow
  · rename_i hlength
    exact ⟨.tooLarge, by decide, by rw [if_pos hlength]; rfl⟩
  rename_i hlength
  rw [if_neg hlength]
  split at hrow
  · rename_i hutf8
    exact ⟨.invalidUtf8, by decide, by rw [if_pos hutf8]; rfl⟩
  rename_i hutf8
  rw [if_neg hutf8]
  cases hresult : normalizeRecord plan (lineRecord line) (lineLocation line) with
  | ok result =>
    rw [hresult] at hrow
    cases hrow
  | error code =>
    refine ⟨code, fun hcode => ?_, rfl⟩
    rw [hcode] at hresult
    exact normalizeRecord_ne _ _ _ hresult

/-- Every line is decided by the first days of all of them. -/
theorem forall₂_isOutcome (plan : NormalizationPlan) (seen : List Int) (lines : List (Line UInt8)) :
    List.Forall₂ (IsOutcome plan (firstDistinct maximumBatchEventDays (seen ++ validDays plan lines)))
      lines (lineOutcomes plan (firstDistinct maximumBatchEventDays seen) lines) := by
  induction lines generalizing seen with
  | nil => exact .nil
  | cons line lines ih =>
    cases hrow : validRow plan line with
    | none =>
      obtain ⟨code, hcode, houtcome⟩ := normalizeLine_of_not_validRow hrow
        (firstDistinct maximumBatchEventDays seen)
      have hdays : validDays plan (line :: lines) = validDays plan lines := by
        simp [validDays, hrow]
      rw [lineOutcomes, houtcome, hdays]
      refine .cons ⟨fun row h => ?_, fun row h => ?_, fun _ => ⟨code, hcode, rfl⟩⟩ (ih seen)
      · cases hrow.symm.trans h
      · cases hrow.symm.trans h
    | some row =>
      have hdays : validDays plan (line :: lines) = row.day :: validDays plan lines := by
        simp [validDays, hrow]
      have hsplit : seen ++ row.day :: validDays plan lines =
          (seen ++ [row.day]) ++ validDays plan lines := by simp
      have hmem : row.day ∈ firstDistinct maximumBatchEventDays
            (seen ++ [row.day] ++ validDays plan lines) ↔
          row.day ∈ firstDistinct maximumBatchEventDays (seen ++ [row.day]) :=
        mem_firstDistinct_append (mem_append_right _ (mem_singleton_self _)) _
      rw [lineOutcomes, normalizeLine_of_validRow hrow, hdays, hsplit]
      refine .cons ⟨fun other h hday => ?_, fun other h hday => ?_, fun h => ?_⟩ (ih _)
      · obtain rfl := Option.some.inj (hrow.symm.trans h)
        exact if_pos (hmem.mp hday)
      · obtain rfl := Option.some.inj (hrow.symm.trans h)
        exact if_neg fun hfirst => hday (hmem.mpr hfirst)
      · cases hrow.symm.trans h

end Days

/-! ## Days and dates -/

section Dates

variable [Chrono]

/-- `DateTime::date_naive`, on a UTC time in microseconds. Day 719163 is the first of 1970. -/
def dateNaive (microseconds : Int) : Date :=
  .ofDayNumber (Chrono.dateNaive (microseconds / 1000) + 719163)

/-- `EventDay::as_date`. -/
def EventDay.asDate (eventDay : EventDay) : Date := .ofDayNumber (eventDay.day + 719163)

omit [Chrono] in
theorem EventDay.asDate_injective : Function.Injective EventDay.asDate := by
  intro first later h
  have hday := Date.ofDayNumber_injective h
  obtain ⟨first⟩ := first
  obtain ⟨later⟩ := later
  simpa using hday

/-- The date of a segment key is that of the event time. -/
theorem asDate_fromEventTime (eventTime : EventTime) :
    (EventDay.fromEventTime eventTime).asDate = dateNaive (eventTime.unixMilliseconds * 1000) := by
  rw [EventDay.asDate, EventDay.fromEventTime, dateNaive, Int.mul_ediv_cancel _ (by decide)]

/-- Two event times have one date exactly if they have one day. -/
theorem dateNaive_eq_iff (first later : EventTime) :
    dateNaive (first.unixMilliseconds * 1000) = dateNaive (later.unixMilliseconds * 1000) ↔
      first.unixMilliseconds / millisecondsPerDay = later.unixMilliseconds / millisecondsPerDay := by
  rw [← asDate_fromEventTime, ← asDate_fromEventTime, EventDay.asDate_injective.eq_iff,
    EventDay.fromEventTime, EventDay.fromEventTime, EventDay.mk.injEq, Chrono.dateNaive_eq,
    Chrono.dateNaive_eq]
  rfl

end Dates

section Batches

variable [Chrono] [ChronoText] [FloatText] [Blake3] [Base64] [SerdeJson]

/-- The event days that a body is admitted with : the first ones of its valid records. -/
def admittedDays (plan : NormalizationPlan) (body : Bytes) : List Int :=
  firstDistinct maximumBatchEventDays (validDays plan (recordLines body))

/-- The accepted rows have the admitted days. -/
theorem mem_days_iff {plan : NormalizationPlan} {lines : List (Line UInt8)}
    {batch : NormalizedBatch}
    (h : List.Forall₂ (IsOutcome plan (firstDistinct maximumBatchEventDays (validDays plan lines)))
      lines batch.records) (day : Int) :
    day ∈ batch.acceptedRows.map AcceptedRow.day ↔
      day ∈ firstDistinct maximumBatchEventDays (validDays plan lines) := by
  constructor
  · intro hday
    obtain ⟨row, hrow, rfl⟩ := mem_map.mp hday
    obtain ⟨record, hrecord, hsome⟩ := mem_filterMap.mp hrow
    obtain ⟨line, -, houtcome⟩ := exists_of_mem_forall₂ h hrecord
    cases hvalid : validRow plan line with
    | none =>
      obtain ⟨code, -, rfl⟩ := houtcome.invalid hvalid
      cases hsome
    | some valid =>
      by_cases hmem : valid.day ∈ firstDistinct maximumBatchEventDays (validDays plan lines)
      · obtain rfl := houtcome.accepted valid hvalid hmem
        obtain rfl : valid = row := Option.some.inj hsome
        exact hmem
      · obtain rfl := houtcome.exceeded valid hvalid hmem
        cases hsome
  · intro hday
    obtain ⟨line, hline, hvalid⟩ := mem_filterMap.mp (mem_of_mem_firstDistinct hday)
    obtain ⟨row, hrow, rfl⟩ := Option.map_eq_some_iff.mp hvalid
    obtain ⟨record, hrecord, houtcome⟩ := exists_of_mem_forall₂ h.flip hline
    obtain rfl := houtcome.accepted row hrow hday
    exact mem_map_of_mem (mem_filterMap.mpr ⟨_, hrecord, rfl⟩)

/-- For every catalog that resolves and every body : the accepted rows have the admitted days,
which are at most 32, every line is decided by them, the days are the dates of segment keys and
segment times, and the rows have at most 32 segment keys. -/
theorem normalizeRecords_eventDays {metadata : BatchMetadata} {source : Source}
    {plan : NormalizationPlan} (hplan : NormalizationPlan.resolve metadata source = .ok plan)
    {body : Bytes} (hbody : body.length < 2 ^ 63) :
    ∃ batch, normalizeRecords metadata body source = .ok batch ∧
      (admittedDays plan body).length ≤ 32 ∧ (admittedDays plan body).Nodup ∧
      (∀ day, day ∈ batch.acceptedRows.map AcceptedRow.day ↔ day ∈ admittedDays plan body) ∧
      List.Forall₂ (IsOutcome plan (admittedDays plan body)) (recordLines body) batch.records ∧
      (∀ first later : EventTime,
        first.unixMilliseconds / millisecondsPerDay = later.unixMilliseconds / millisecondsPerDay ↔
          dateNaive (first.unixMilliseconds * 1000) = dateNaive (later.unixMilliseconds * 1000)) ∧
      (∀ row ∈ batch.acceptedRows, (SegmentBuilders.rowKey metadata row).eventDay.asDate =
        dateNaive (row.eventTime.unixMilliseconds * 1000)) ∧
      (batch.acceptedRows.map (SegmentBuilders.rowKey metadata)).eraseDups.length ≤ 32 := by
  have houtcomes : List.Forall₂ (IsOutcome plan (admittedDays plan body)) (recordLines body)
      (lineOutcomes plan [] (recordLines body)) :=
    forall₂_isOutcome plan [] (recordLines body)
  refine ⟨_, normalizeRecords_eq hplan hbody, length_firstDistinct_le, nodup_firstDistinct,
    mem_days_iff houtcomes, houtcomes, fun first later => (dateNaive_eq_iff first later).symm,
    fun row _ => asDate_fromEventTime row.eventTime, ?_⟩
  have hsubset : ((lineOutcomes plan [] (recordLines body)).filterMap NormalizedRecord.row?).map
      (SegmentBuilders.rowKey metadata) ⊆ (admittedDays plan body).map fun day =>
        ⟨metadata.catalog.sourceId, metadata.catalog.targetSchemaId, ⟨day⟩⟩ := by
    intro key hkey
    obtain ⟨row, hrow, rfl⟩ := mem_map.mp hkey
    refine mem_map.mpr ⟨row.day, ?_, ?_⟩
    · exact (@mem_days_iff _ _ _ _ _ _ plan (recordLines body) ⟨metadata, _, 0⟩ houtcomes _).mp
        (mem_map_of_mem hrow)
    · rw [SegmentBuilders.rowKey, EventDay.fromEventTime, Chrono.dateNaive_eq]
      rfl
  have hsubperm := (nodup_eraseDups _).subperm
    fun key hkey => hsubset (mem_eraseDups.mp hkey)
  have hlength := hsubperm.length_le
  rw [length_map] at hlength
  exact hlength.trans length_firstDistinct_le

end Batches

section Sample

attribute [local instance] Chrono.unbounded SerdeJson.plain ChronoText.silent FloatText.silent
  Base64.empty Blake3.constant

/-- A record of the epoch, and one of the millisecond before it. -/
def twoDays : Bytes :=
  [0x7B, 0x22, 0x74, 0x22, 0x3A, 0x30, 0x7D, 0x0A,
    0x7B, 0x22, 0x74, 0x22, 0x3A, 0x2D, 0x31, 0x7D]

/-- Both are accepted, on two days. -/
theorem normalizeRecords_eventDays_twoDays :
    ∃ batch, normalizeRecords (BatchMetadata.sample 9) twoDays Source.sample = .ok batch ∧
      (∀ day, day ∈ batch.acceptedRows.map AcceptedRow.day ↔ day ∈ [0, -1]) ∧
      (batch.acceptedRows.map
        (SegmentBuilders.rowKey (BatchMetadata.sample 9))).eraseDups.length ≤ 32 := by
  obtain ⟨batch, hbatch, -, -, hdays, -, -, -, hkeys⟩ := normalizeRecords_eventDays
    (show NormalizationPlan.resolve (BatchMetadata.sample 9) Source.sample = .ok _ from rfl)
    (show twoDays.length < 2 ^ 63 by decide)
  exact ⟨batch, hbatch, hdays, hkeys⟩

end Sample

end Elucid
