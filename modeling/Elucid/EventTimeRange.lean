import Elucid.Processing
import Elucid.SegmentMoves

/-!
# Event times that PostgreSQL stores

An event time is accepted if `chrono` represents it. The rows of a segment share one event
day, and the registration of the segment binds that day and the two bounds of its event
times to a `DATE` and two `TIMESTAMPTZ`. PostgreSQL starts with Julian day 0, long behind
the first day of `chrono`, and refuses an earlier value with a code that counts as a
conflict.

`registerIngestionSegment_eventTimes_iff` : the event times of a sealed segment are stored
exactly if no record of it has an integer before that day. A profile with RFC 3339 times is
never refused, as its years have four digits. `registerBody_ancient` is a record that is
accepted and cannot be registered.
-/

namespace Elucid

open BigEndian

/-! ## The crates -/

/-- The documented range of `DateTime::<Utc>`, in milliseconds. -/
def Chrono.Ranged [Chrono] : Prop :=
  ∀ milliseconds, Chrono.fromTimestampMillis milliseconds = true →
    -8334601228800000 ≤ milliseconds ∧ milliseconds ≤ 8210266876799999

/-- A date of RFC 3339 has a year of four digits, and an offset of less than a day. -/
def ChronoText.FourDigitYears [ChronoText] : Prop :=
  ∀ text parsed, ChronoText.parseFromRfc3339 text = some parsed →
    -62167305600000 ≤ parsed.timestampMillis

/-! ## Records with a storable time -/

/-- The start of Julian day 0, in milliseconds. -/
def minimumStorableMilliseconds : Int := -210866803200000

section Records

variable [Chrono]

/-- A representable time is kept. -/
theorem representable_eq_some {milliseconds value : Int}
    (h : representable milliseconds = some value) : value = milliseconds := by
  unfold representable at h
  split at h
  · exact (Option.some.inj h).symm
  · cases h

variable [ChronoText] [FloatText] [Blake3] [SerdeJson]
variable {row : AcceptedRow} {location : RecordLocation} {plan : NormalizationPlan} {record : Bytes}

/-- The integer under the event time's pointer of a record. -/
def eventTimeInteger (plan : NormalizationPlan) (record : Bytes) : Option Int := do
  let object ← JsonParser.parseObject record
  let value ← resolvePointer (.object object) plan.profile.eventTime.jsonPointer.tokens
  integerI64 value

/-- A record of a profile with milliseconds is not before Julian day 0. -/
def StorableRecord (plan : NormalizationPlan) (record : Bytes) : Prop :=
  plan.profile.eventTime.format = .unixMilliseconds →
    ∀ milliseconds ∈ eventTimeInteger plan record, minimumStorableMilliseconds ≤ milliseconds

/-- The event time of a row is the integer of its record, or a date of RFC 3339. -/
theorem eventTime_cases (h : normalizeRecord plan record location = .ok row) :
    (plan.profile.eventTime.format = .unixMilliseconds ∧
        eventTimeInteger plan record = some row.eventTime.unixMilliseconds) ∨
      plan.profile.eventTime.format = .rfc3339 ∧
        ∃ text parsed, ChronoText.parseFromRfc3339 text = some parsed ∧
          row.eventTime.unixMilliseconds = parsed.timestampMillis := by
  obtain ⟨object, eventTime, _, hobject, heventTime, -, rfl⟩ := normalizeRecord_eq_ok h
  obtain ⟨value, hvalue, hparse⟩ := Option.bind_eq_some_iff.mp heventTime
  cases hformat : plan.profile.eventTime.format with
  | unixMilliseconds =>
    rw [hformat] at hparse
    obtain ⟨integer, hinteger, hrange⟩ := Option.bind_eq_some_iff.mp hparse
    obtain rfl := representable_eq_some hrange
    refine Or.inl ⟨rfl, ?_⟩
    rw [eventTimeInteger, hobject]
    exact Option.bind_eq_some_iff.mpr ⟨object, rfl, Option.bind_eq_some_iff.mpr
      ⟨value, hvalue, hinteger⟩⟩
  | rfc3339 =>
    rw [hformat] at hparse
    cases value with
    | string text =>
      obtain ⟨parsed, hparsed, hparse⟩ := Option.bind_eq_some_iff.mp hparse
      split at hparse
      · cases hparse
      · exact Or.inr ⟨rfl, text, parsed, hparsed, representable_eq_some hparse⟩
    | _ => cases hparse

/-- A row is storable exactly if its record is. -/
theorem storableRecord_iff (htext : ChronoText.FourDigitYears)
    (h : normalizeRecord plan record location = .ok row) :
    StorableRecord plan record ↔
      minimumStorableMilliseconds ≤ row.eventTime.unixMilliseconds := by
  rcases eventTime_cases h with ⟨hformat, hinteger⟩ | ⟨hformat, text, parsed, hparsed, heq⟩
  · simp [StorableRecord, hformat, hinteger]
  · have hyear := htext text parsed hparsed
    simp only [StorableRecord, hformat, reduceCtorEq, IsEmpty.forall_iff, true_iff, heq,
      minimumStorableMilliseconds]
    omega

variable [Base64]

/-- A row that `normalize_records` accepts. -/
def AcceptedRow.IsNormalized (row : AcceptedRow) : Prop :=
  ∃ metadata body source batch,
    normalizeRecords metadata body source = .ok batch ∧ row ∈ batch.acceptedRows

theorem AcceptedRow.IsNormalized.exists_record (h : row.IsNormalized) :
    ∃ plan record location, normalizeRecord plan record location = .ok row := by
  obtain ⟨metadata, body, source, batch, hbatch, hrow⟩ := h
  obtain ⟨plan, record, location, -, hrecord⟩ := exists_of_mem_acceptedRows hbatch hrow
  exact ⟨plan, record, location, hrecord⟩

end Records

/-! ## Registration of a segment -/

/-- The event day and the event times of a segment can be bound to their columns. -/
def SegmentTimes.EventTimesInRange (times : SegmentTimes) : Prop :=
  DateInRange times.eventDay ∧ TimestampInRange times.minimumEventTime ∧
    TimestampInRange times.maximumEventTime

instance (times : SegmentTimes) : Decidable times.EventTimesInRange :=
  inferInstanceAs (Decidable (_ ∧ _))

/-- The error of a value that its column cannot hold. -/
def valueOutOfRange : PublicationError := .write .datetimeFieldOverflow

theorem validateSegmentDatabaseValues_ne_valueOutOfRange (registration : SegmentDescriptor) :
    validateSegmentDatabaseValues registration ≠ .error valueOutOfRange := by
  simp [validateSegmentDatabaseValues, validateObjectDatabaseValues, bind_eq_error,
    ensure_eq_error, valueOutOfRange, PublicationError.fromModel, PublicationError.write]

theorem validateRegisteredIngestionStates_ne_valueOutOfRange (segment : StoredSegment)
    (object : StoredObject) :
    validateRegisteredIngestionStates segment object ≠ .error valueOutOfRange := by
  unfold validateRegisteredIngestionStates
  split <;> simp [ensure_eq_error, valueOutOfRange, PublicationError.conflict,
    PublicationError.corrupt, PublicationError.write]

/-- No other step of a registration fails for a value out of range. -/
theorem registerIngestionSegment_ne_valueOutOfRange {registration : SegmentDescriptor}
    (h : registration.times.InRange) (database : Database) :
    database.registerIngestionSegment registration ≠ .error valueOutOfRange := by
  intro herror
  rcases bind_eq_error.mp herror with hvalues | ⟨_, -, herror⟩
  · exact validateSegmentDatabaseValues_ne_valueOutOfRange registration hvalues
  rcases bind_eq_error.mp herror with hrange | ⟨_, -, herror⟩
  · exact (ensure_eq_error.mp hrange).1 h
  dsimp only at herror
  split at herror
  · cases herror
  · rcases bind_eq_error.mp herror with hsegment | ⟨segment, -, herror⟩
    · cases (okOr_eq_error.mp hsegment).2
    rcases bind_eq_error.mp herror with hobject | ⟨object, -, herror⟩
    · cases (okOr_eq_error.mp hobject).2
    rcases bind_eq_error.mp herror with hmatches | ⟨_, -, herror⟩
    · cases (ensure_eq_error.mp hmatches).2
    rcases bind_eq_error.mp herror with hstates | ⟨_, -, herror⟩
    · exact validateRegisteredIngestionStates_ne_valueOutOfRange _ _ hstates
    · cases herror
  · cases herror

/-- With times below the end of PostgreSQL's range, the event day decides. -/
theorem SegmentTimes.eventTimesInRange_iff {times : SegmentTimes}
    (h : times.maximumEventTime < 9224318016000000000) :
    times.EventTimesInRange ↔ -2440588 ≤ times.eventDay := by
  have hminimum := times.eventDay_eq.1
  have hmaximum := times.eventDay_eq.2
  have hle := times.eventTimes_le
  simp only [EventTimesInRange, DateInRange, TimestampInRange]
  omega

section Segments

variable [Chrono] [ChronoText] [FloatText] [Blake3] [Base64] [SerdeJson] [Layout]

/-- The event times of a segment of accepted rows are stored, and its registration does not
fail for a value out of range, exactly if every record that gives one of its rows is not
before Julian day 0. -/
theorem registerIngestionSegment_eventTimes_iff (hchrono : Chrono.Ranged)
    (htext : ChronoText.FourDigitYears) {stagingCapacity : SegmentStagingCapacity}
    {builders : SegmentBuilders} (hbuilders : SegmentBuilders.Reachable stagingCapacity builders)
    {segment : SealedSegment} (hsegment : segment ∈ builders.sealed)
    (hrows : ∀ row ∈ segment.rows, row.row.IsNormalized) {registration : SegmentDescriptor}
    (htimes : segmentTimes segment = .ok registration.times)
    (hingestion : TimestampInRange registration.times.minimumIngestionTime ∧
      TimestampInRange registration.times.maximumIngestionTime) (database : Database) :
    (registration.times.EventTimesInRange ∧
        database.registerIngestionSegment registration ≠ .error valueOutOfRange) ↔
      ∀ row ∈ segment.rows, ∀ plan record location,
        normalizeRecord plan record location = .ok row.row → StorableRecord plan record := by
  have hholds := hbuilders.wellFormed.1.sealed segment hsegment
  obtain ⟨hday, -, hmaximum, hrepresentable⟩ := segmentTimes_eq_ok htimes
  have hupper := (hchrono _ hrepresentable).2
  have hstorable : registration.times.EventTimesInRange ↔ ∀ row ∈ segment.rows,
      minimumStorableMilliseconds ≤ row.row.eventTime.unixMilliseconds := by
    rw [SegmentTimes.eventTimesInRange_iff (by rw [hmaximum]; omega), hday]
    obtain ⟨first, hfirst⟩ := List.exists_mem_of_ne_nil _ hholds.rows_ne
    constructor
    · intro hle row hrow
      have hrowDay := congrArg EventDay.day (hholds.eventDay row hrow)
      simp only [EventDay.fromEventTime, Chrono.dateNaive_eq] at hrowDay
      rw [minimumStorableMilliseconds]
      omega
    · intro hall
      have hrowDay := congrArg EventDay.day (hholds.eventDay first hfirst)
      have hle := hall first hfirst
      simp only [EventDay.fromEventTime, Chrono.dateNaive_eq] at hrowDay
      rw [minimumStorableMilliseconds] at hle
      omega
  constructor
  · rintro ⟨hrange, -⟩ row hrow plan record location hrecord
    exact (storableRecord_iff htext hrecord).mpr (hstorable.mp hrange row hrow)
  · intro hrecords
    have hrange : registration.times.EventTimesInRange := by
      refine hstorable.mpr fun row hrow => ?_
      obtain ⟨plan, record, location, hrecord⟩ := (hrows row hrow).exists_record
      exact (storableRecord_iff htext hrecord).mp (hrecords row hrow _ _ _ hrecord)
    exact ⟨hrange, registerIngestionSegment_ne_valueOutOfRange
      ⟨hrange.1, hrange.2.1, hrange.2.2, hingestion⟩ database⟩

end Segments

/-! ## A record that is too old -/

/-- The range of `chrono`. -/
@[reducible] def Chrono.standard : Chrono :=
  { Chrono.unbounded with
    fromTimestampMillis := fun milliseconds =>
      -8334601228800000 ≤ milliseconds ∧ milliseconds ≤ 8210266876799999 }

/-- Metadata of a batch of the sample source. -/
def BatchMetadata.standard : @BatchMetadata Chrono.standard :=
  @BatchMetadata.mk Chrono.standard (UuidV7.sample 9)
    ⟨UuidV7.sample 1, UuidV7.sample 2, UuidV7.sample 3, UuidV7.sample 4⟩
    (@IngestionTime.mk Chrono.standard 0 epoch_inRange rfl)

/-- A record with the number `digits` under `t`. -/
def timeBody (digits : String) : Bytes :=
  [0x7B, 0x22, 0x74, 0x22, 0x3A] ++ Text.ofString digits ++ [0x7D]

/-- A registration of a segment with one row. -/
def SegmentDescriptor.sample (times : SegmentTimes) : SegmentDescriptor where
  segmentId := (UuidV7.sample 11).uuid
  sourceId := UuidV7.sample 1
  schemaId := UuidV7.sample 4
  times := times
  rowCount := 1
  uncompressedBytes := 1
  object := ⟨.parquet ⟨"root"⟩ (UuidV7.sample 11).uuid (UuidV7.sample 12).uuid, 0,
    .zero, .parquetData, 1, rfl, Nat.one_pos⟩
  rowCount_pos := Nat.one_pos
  uncompressedBytes_pos := Nat.one_pos
  owner_eq := rfl

/-- A body of one record on its way to the metastore : it is normalized, built into a
segment and registered. -/
def registerBody (digits : String) : Option (Except PublicationError RegistrationOutcome) :=
  letI := Chrono.standard
  letI := SerdeJson.plain
  letI := ChronoText.silent
  letI := FloatText.silent
  letI := Base64.empty
  letI := Blake3.constant
  letI := Layout.sample
  do
    let batch ← (normalizeRecords BatchMetadata.standard (timeBody digits) Source.sample).toOption
    let (_, pushed) ←
      ((SegmentBuilders.new ⟨1024, kibibyte_pos, kibibyte_lt⟩).pushBatch batch 0).toOption
    let flushed ← pushed.flushAll.toOption
    let segment ← flushed.sealed.head?
    let times ← (segmentTimes segment).toOption
    return (Database.empty.registerIngestionSegment (.sample times)).map Prod.fst

/-- One millisecond before Julian day 0, a record is accepted, its row is built into a
segment, and the registration of the segment is a conflict. -/
theorem registerBody_ancient :
    registerBody "-210866803200001" = some (.error valueOutOfRange) ∧
      valueOutOfRange.kind = .conflict ∧
      registerBody "-210866803200000" = some (.ok .registered) := by
  decide +kernel

/-- A record at the epoch is stored. -/
theorem registerIngestionSegment_eventTimes_iff_epoch :
    letI := Chrono.standard
    letI := SerdeJson.plain
    letI := ChronoText.silent
    letI := FloatText.silent
    letI := Base64.empty
    letI := Blake3.constant
    letI := Layout.sample
    ∃ builders segment times,
      SegmentBuilders.Reachable ⟨1024, by decide, by decide⟩ builders ∧
        segment ∈ builders.sealed ∧ segmentTimes segment = .ok times ∧
        times.EventTimesInRange ∧
        Database.empty.registerIngestionSegment (.sample times) ≠ .error valueOutOfRange := by
  let _ := Chrono.standard
  let _ := SerdeJson.plain
  let _ := ChronoText.silent
  let _ := FloatText.silent
  let _ := Base64.empty
  let _ := Blake3.constant
  let _ := Layout.sample
  obtain ⟨batch, outcome, pushed, flushed, segment, times, hbatch, hpush, hflush, hsealed, hrows,
      hepoch, htimes, hminimum, hmaximum⟩ :
      ∃ batch outcome pushed flushed segment times,
        normalizeRecords BatchMetadata.standard (timeBody "0") Source.sample = .ok batch ∧
          (SegmentBuilders.new ⟨1024, by decide, by decide⟩).pushBatch batch 0 =
            .ok (outcome, pushed) ∧
          pushed.flushAll = .ok flushed ∧ flushed.sealed = [segment] ∧
          segment.rows.map (·.row) = batch.acceptedRows ∧
          segment.rows.map (·.row.eventTime) = [⟨0⟩] ∧ segmentTimes segment = .ok times ∧
          times.minimumIngestionTime = 0 ∧ times.maximumIngestionTime = 0 :=
    ⟨_, _, _, _, _, _, rfl, rfl, rfl, rfl, rfl, rfl, rfl, rfl, rfl⟩
  have hmem : segment ∈ flushed.sealed := hsealed ▸ List.mem_singleton_self segment
  have hreachable := SegmentBuilders.Reachable.flushAll (.pushBatch .new hpush) hflush
  have htext : ChronoText.FourDigitYears := fun _ _ h => by cases h
  have hregistered : segmentTimes segment = .ok (SegmentDescriptor.sample times).times := htimes
  refine ⟨flushed, segment, times, hreachable, hmem, htimes,
    (registerIngestionSegment_eventTimes_iff (fun _ h => of_decide_eq_true h) htext hreachable
      hmem (fun row hrow => ?_) hregistered ?_ _).mpr
      fun row hrow plan record location hrecord => ?_⟩
  · exact ⟨_, _, _, batch, hbatch, hrows ▸ List.mem_map_of_mem hrow⟩
  · exact ⟨hminimum ▸ by decide, hmaximum ▸ by decide⟩
  · rw [storableRecord_iff htext hrecord]
    have htime : row.row.eventTime ∈ segment.rows.map (·.row.eventTime) :=
      List.mem_map_of_mem hrow
    rw [hepoch, List.mem_singleton] at htime
    rw [htime]
    decide

end Elucid
