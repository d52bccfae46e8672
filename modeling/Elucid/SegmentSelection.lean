import Elucid.EventTimeRange
import Elucid.QuerySyntax

/-!
# The segments of a query

A query reads the active segments of its source that may hold an event of its time range.
The range is a pair of `i64` instants, and an instant that `chrono` does not represent
bounds nothing : `fromRange` drops it, or finds that the range holds no time at all. The
other bounds become conditions on the event day and on the two event times of a segment.

Times of segments are microseconds and those of a query milliseconds. PostgreSQL is taken to
compare days and timestamps exactly. It refuses a parameter before Julian day 0, which `chrono`
represents, and the query fails.

`conditions_hold_iff` : the conditions on the day follow from those on the times, since a
day and a bound are both whole milliseconds. With `describes_fromRange`, which goes through the
nine cases of the two bounds, `selectSegmentRows_iff` says that a segment is selected exactly
if it may hold an event of the range, for the ranges whose bounds can be bound, and that the
query fails for all others. `ancientRange_refused` is such a range.
-/

namespace Elucid.QuerySnapshot

open List

/-! ## Bounds -/

/-- `DatabaseTimestamp`, with a `DateTime<Utc>` in milliseconds. -/
inductive DatabaseTimestamp
  | beforeSupportedRange
  | value (milliseconds : Int)
  | afterSupportedRange
  deriving DecidableEq, Repr

structure SegmentTimeBounds where
  startInclusive : Option Int
  endExclusive : Option Int
  deriving DecidableEq, Repr

inductive SegmentTimeSelection
  | empty
  | bounds (bounds : SegmentTimeBounds)
  deriving DecidableEq, Repr

/-- The conditions that `select_segment_rows` pushes for the bounds. -/
inductive TimeCondition
  | eventDayAtLeast (day : Int)
  | maximumEventTimeAtLeast (milliseconds : Int)
  | eventDayAtMost (day : Int)
  | minimumEventTimeBelow (milliseconds : Int)
  deriving DecidableEq, Repr

/-- A condition, on the columns of a segment. -/
def TimeCondition.Holds (times : SegmentTimes) : TimeCondition → Prop
  | .eventDayAtLeast day => day ≤ times.eventDay
  | .maximumEventTimeAtLeast milliseconds => milliseconds * 1000 ≤ times.maximumEventTime
  | .eventDayAtMost day => times.eventDay ≤ day
  | .minimumEventTimeBelow milliseconds => times.minimumEventTime < milliseconds * 1000

instance (times : SegmentTimes) (condition : TimeCondition) : Decidable (condition.Holds times) :=
  match condition with
  | .eventDayAtLeast _ => inferInstanceAs (Decidable (_ ≤ _))
  | .maximumEventTimeAtLeast _ => inferInstanceAs (Decidable (_ ≤ _))
  | .eventDayAtMost _ => inferInstanceAs (Decidable (_ ≤ _))
  | .minimumEventTimeBelow _ => inferInstanceAs (Decidable (_ < _))

/-- PostgreSQL takes the parameter of a condition. -/
def TimeCondition.Bindable : TimeCondition → Prop
  | .eventDayAtLeast day | .eventDayAtMost day => DateInRange day
  | .maximumEventTimeAtLeast milliseconds | .minimumEventTimeBelow milliseconds =>
    TimestampInRange (milliseconds * 1000)

instance (condition : TimeCondition) : Decidable condition.Bindable :=
  match condition with
  | .eventDayAtLeast _ | .eventDayAtMost _ => inferInstanceAs (Decidable (DateInRange _))
  | .maximumEventTimeAtLeast _ | .minimumEventTimeBelow _ =>
    inferInstanceAs (Decidable (TimestampInRange _))

/-- `QuerySnapshotError::read`, of an error that is not about decoding a row : the metadata is
unavailable. -/
inductive QuerySnapshotError
  | unavailable (state : SqlState)
  deriving DecidableEq, Repr

section Selection

variable [Chrono]
variable {bounds : SegmentTimeBounds} {times : SegmentTimes} {range : Ir.TimeRange}

/-- `DatabaseTimestamp::from_instant`. -/
def DatabaseTimestamp.fromInstant (value : Ir.UtcInstant) : DatabaseTimestamp :=
  if Chrono.fromTimestampMillis value.unixMilliseconds then .value value.unixMilliseconds
  else if value.unixMilliseconds < 0 then .beforeSupportedRange
  else .afterSupportedRange

/-- `SegmentTimeSelection::from_range`. -/
def SegmentTimeSelection.fromRange (range : Ir.TimeRange) : SegmentTimeSelection :=
  match DatabaseTimestamp.fromInstant range.startInclusive,
    DatabaseTimestamp.fromInstant range.endExclusive with
  | .afterSupportedRange, _ => .empty
  | _, .beforeSupportedRange => .empty
  | .beforeSupportedRange, .afterSupportedRange => .bounds ⟨none, none⟩
  | .beforeSupportedRange, .value endExclusive => .bounds ⟨none, some endExclusive⟩
  | .value startInclusive, .afterSupportedRange => .bounds ⟨some startInclusive, none⟩
  | .value startInclusive, .value endExclusive =>
    .bounds ⟨some startInclusive, some endExclusive⟩

/-- `checked_sub_signed` of a millisecond. -/
def checkedSubMillisecond (milliseconds : Int) : Option Int :=
  if Chrono.fromTimestampMillis (milliseconds - 1) then some (milliseconds - 1) else none

/-- The conditions of a lower bound. -/
def startConditions : Option Int → List TimeCondition
  | none => []
  | some start => [.eventDayAtLeast (Chrono.dateNaive start), .maximumEventTimeAtLeast start]

/-- The conditions of an upper bound. -/
def endConditions : Option Int → List TimeCondition
  | none => []
  | some stop =>
    (match (checkedSubMillisecond stop).map Chrono.dateNaive with
      | some lastDay => [.eventDayAtMost lastDay]
      | none => []) ++ [.minimumEventTimeBelow stop]

/-- The conditions that the bounds add to the query. -/
def SegmentTimeBounds.conditions (bounds : SegmentTimeBounds) : List TimeCondition :=
  startConditions bounds.startInclusive ++ endConditions bounds.endExclusive

/-! ## Rows -/

def maximumQuerySnapshotSegments : Nat := 10000

def querySnapshotRowLimit : Nat := 10001

/-- `QuerySegmentRow` : a segment and the object that it is joined with. -/
abbrev QuerySegmentRow := StoredSegment × Option StoredObject

/-- `LEFT JOIN stored_objects AS o ON o.segment_id = s.segment_id`. -/
def joinObjects (database : Database) (segment : StoredSegment) : List QuerySegmentRow :=
  match database.objects.rows.filter fun object => object.owner = .segment segment.segmentId with
  | [] => [(segment, none)]
  | objects => objects.map fun object => (segment, some object)

/-- `ORDER BY s.event_day, s.segment_id, o.object_id`, with a missing object last. -/
def queryRowLe (left right : QuerySegmentRow) : Bool :=
  if left.1.times.eventDay ≠ right.1.times.eventDay then
    left.1.times.eventDay < right.1.times.eventDay
  else if left.1.segmentId ≠ right.1.segmentId then
    textLt left.1.segmentId.bytes right.1.segmentId.bytes
  else
    match left.2, right.2 with
    | some left, some right => !textLt right.objectId.bytes left.objectId.bytes
    | none, some _ => false
    | _, none => true

/-- `select_segment_rows`. -/
def selectSegmentRows (database : Database) (sourceId : SourceId) (timeRange : Ir.TimeRange) :
    Except QuerySnapshotError (List QuerySegmentRow) :=
  match SegmentTimeSelection.fromRange timeRange with
  | .empty => return []
  | .bounds bounds => do
    ensure (∀ condition ∈ bounds.conditions, condition.Bindable)
      (.unavailable .datetimeFieldOverflow)
    let segments := database.segments.rows.filter fun segment =>
      segment.sourceId = sourceId ∧ segment.state = .active ∧
        ∀ condition ∈ bounds.conditions, condition.Holds segment.times
    return ((segments.flatMap (joinObjects database)).mergeSort queryRowLe).take
      querySnapshotRowLimit

/-! ## What the conditions say -/

theorem startConditions_hold_iff {start : Option Int} :
    (∀ condition ∈ startConditions start, condition.Holds times) ↔
      ∀ milliseconds ∈ start, milliseconds * 1000 ≤ times.maximumEventTime := by
  cases start with
  | none => simp [startConditions]
  | some start =>
    have hday := times.eventDay_eq.2
    simp only [startConditions, forall_mem_cons, TimeCondition.Holds, Chrono.dateNaive_eq,
      Option.mem_some_iff, forall_eq', not_mem_nil, false_implies, implies_true, and_true,
      and_iff_right_iff_imp]
    omega

theorem endConditions_hold_iff {stop : Option Int} :
    (∀ condition ∈ endConditions stop, condition.Holds times) ↔
      ∀ milliseconds ∈ stop, times.minimumEventTime < milliseconds * 1000 := by
  cases stop with
  | none => simp [endConditions]
  | some stop =>
    have hday := times.eventDay_eq.1
    -- the last millisecond before the bound is on the last day that it admits
    have hlast : times.minimumEventTime < stop * 1000 →
        times.eventDay ≤ Chrono.dateNaive (stop - 1) := by
      rw [Chrono.dateNaive_eq]
      omega
    dsimp only [endConditions, checkedSubMillisecond]
    split_ifs
    · simpa [TimeCondition.Holds] using hlast
    · simp [TimeCondition.Holds]

/-- The conditions on the day never exclude what the conditions on the times admit. -/
theorem conditions_hold_iff :
    (∀ condition ∈ bounds.conditions, condition.Holds times) ↔
      (∀ milliseconds ∈ bounds.startInclusive, milliseconds * 1000 ≤ times.maximumEventTime) ∧
        ∀ milliseconds ∈ bounds.endExclusive, times.minimumEventTime < milliseconds * 1000 := by
  rw [SegmentTimeBounds.conditions, forall_mem_append, startConditions_hold_iff,
    endConditions_hold_iff]

/-! ## Which bounds are dropped -/

/-- A time in microseconds that `chrono` represents. -/
def Representable (time : Int) : Prop := Chrono.fromTimestampMillis (time / 1000) = true

instance (time : Int) : Decidable (Representable time) := inferInstanceAs (Decidable (_ = true))

/-- The documented range of `DateTime::<Utc>`, in milliseconds. -/
def Documented : Prop := ∀ milliseconds, Chrono.fromTimestampMillis milliseconds = true ↔
  -8334601228800000 ≤ milliseconds ∧ milliseconds ≤ 8210266876799999

/-- What `fromInstant` finds out about an instant. -/
def DatabaseTimestamp.Describes (instant : Ir.UtcInstant) : DatabaseTimestamp → Prop
  | .beforeSupportedRange => ∀ time, Representable time → instant.unixMilliseconds * 1000 ≤ time
  | .value milliseconds => milliseconds = instant.unixMilliseconds
  | .afterSupportedRange => ∀ time, Representable time → time < instant.unixMilliseconds * 1000

/-- An instant that is not represented lies on the side of all times that its sign says. -/
theorem describes_fromInstant (hcalendar : Documented) (instant : Ir.UtcInstant) :
    (DatabaseTimestamp.fromInstant instant).Describes instant := by
  unfold DatabaseTimestamp.fromInstant
  split_ifs with hvalue hnegative
  · rfl
  all_goals
    intro time htime
    rw [Representable, hcalendar] at htime
    rw [hcalendar] at hvalue
    omega

/-- A bound that is kept is the one of the range, and one that is dropped holds anyway. -/
structure SegmentTimeBounds.Describes (range : Ir.TimeRange) (bounds : SegmentTimeBounds) :
    Prop where
  start_eq : ∀ milliseconds ∈ bounds.startInclusive,
    milliseconds = range.startInclusive.unixMilliseconds
  start_dropped : bounds.startInclusive = none →
    ∀ time, Representable time → range.startInclusive.unixMilliseconds * 1000 ≤ time
  end_eq : ∀ milliseconds ∈ bounds.endExclusive,
    milliseconds = range.endExclusive.unixMilliseconds
  end_dropped : bounds.endExclusive = none →
    ∀ time, Representable time → time < range.endExclusive.unixMilliseconds * 1000

/-- A time of the half-open range of a query. -/
def InRange (range : Ir.TimeRange) (time : Int) : Prop :=
  range.startInclusive.unixMilliseconds * 1000 ≤ time ∧
    time < range.endExclusive.unixMilliseconds * 1000

instance (range : Ir.TimeRange) (time : Int) : Decidable (InRange range time) :=
  inferInstanceAs (Decidable (_ ∧ _))

/-- What a selection says about the range that it was made from. -/
def SegmentTimeSelection.Describes (range : Ir.TimeRange) : SegmentTimeSelection → Prop
  | .empty => ∀ time, Representable time → ¬ InRange range time
  | .bounds kept => kept.Describes range

theorem describes_fromRange (hcalendar : Documented) (range : Ir.TimeRange) :
    (SegmentTimeSelection.fromRange range).Describes range := by
  have hstart := describes_fromInstant hcalendar range.startInclusive
  have hend := describes_fromInstant hcalendar range.endExclusive
  unfold SegmentTimeSelection.fromRange
  -- the nine cases of the two bounds
  cases hs : DatabaseTimestamp.fromInstant range.startInclusive <;>
    cases he : DatabaseTimestamp.fromInstant range.endExclusive <;>
    rw [hs] at hstart <;> rw [he] at hend
  case afterSupportedRange.beforeSupportedRange | afterSupportedRange.value |
      afterSupportedRange.afterSupportedRange =>
    intro time htime hrange
    have := hstart time htime
    exact absurd hrange.1 (by omega)
  case beforeSupportedRange.beforeSupportedRange | value.beforeSupportedRange =>
    intro time htime hrange
    have := hend time htime
    exact absurd hrange.2 (by omega)
  case beforeSupportedRange.afterSupportedRange =>
    exact ⟨by simp, fun _ => hstart, by simp, fun _ => hend⟩
  case beforeSupportedRange.value stop =>
    cases hend
    exact ⟨by simp, fun _ => hstart, by simp, by simp⟩
  case value.afterSupportedRange start =>
    cases hstart
    exact ⟨by simp, by simp, by simp, fun _ => hend⟩
  case value.value start stop =>
    cases hstart
    cases hend
    exact ⟨by simp, by simp, by simp, by simp⟩

theorem SegmentTimeBounds.Describes.start_iff (h : bounds.Describes range) {time : Int}
    (htime : Representable time) :
    (∀ milliseconds ∈ bounds.startInclusive, milliseconds * 1000 ≤ time) ↔
      range.startInclusive.unixMilliseconds * 1000 ≤ time := by
  cases hstart : bounds.startInclusive with
  | none => simpa using h.start_dropped hstart time htime
  | some start => simp [h.start_eq start hstart]

theorem SegmentTimeBounds.Describes.end_iff (h : bounds.Describes range) {time : Int}
    (htime : Representable time) :
    (∀ milliseconds ∈ bounds.endExclusive, time < milliseconds * 1000) ↔
      time < range.endExclusive.unixMilliseconds * 1000 := by
  cases hend : bounds.endExclusive with
  | none => simpa using h.end_dropped hend time htime
  | some stop => simp [h.end_eq stop hend]

/-! ## The selection -/

omit [Chrono] in
theorem mem_joinObjects {database : Database} {segment other : StoredSegment}
    {object : Option StoredObject} (h : (other, object) ∈ joinObjects database segment) :
    other = segment := by
  unfold joinObjects at h
  split at h
  · cases mem_singleton.mp h
    rfl
  · obtain ⟨_, -, heq⟩ := mem_map.mp h
    cases heq
    rfl

omit [Chrono] in
theorem exists_mem_joinObjects (database : Database) (segment : StoredSegment) :
    ∃ object, (segment, object) ∈ joinObjects database segment := by
  unfold joinObjects
  split
  · exact ⟨none, mem_singleton_self _⟩
  · rename_i objects hne
    obtain ⟨object, rest, hobjects⟩ := exists_cons_of_ne_nil hne
    exact ⟨some object, mem_map.mpr ⟨object, by rw [hobjects]; exact mem_cons_self, rfl⟩⟩

/-- A segment of the bounds is selected, unless the limit cuts the selection. -/
theorem mem_selectSegmentRows {database : Database} {sourceId : SourceId} {segment : StoredSegment}
    {rows : List QuerySegmentRow} (hrange : SegmentTimeSelection.fromRange range = .bounds bounds)
    (hrows : selectSegmentRows database sourceId range = .ok rows)
    (hlimit : rows.length ≤ maximumQuerySnapshotSegments) :
    (∃ object, (segment, object) ∈ rows) ↔
      segment ∈ database.segments.rows ∧ segment.sourceId = sourceId ∧ segment.state = .active ∧
        ∀ condition ∈ bounds.conditions, condition.Holds segment.times := by
  unfold selectSegmentRows at hrows
  rw [hrange] at hrows
  obtain ⟨_, -, hrows⟩ := bind_eq_ok.mp hrows
  obtain rfl := Except.ok.inj hrows
  rw [length_take, maximumQuerySnapshotSegments] at hlimit
  rw [take_of_length_le (by rw [querySnapshotRowLimit] at hlimit ⊢; omega)]
  simp only [mem_mergeSort, mem_flatMap, mem_filter, decide_eq_true_eq]
  constructor
  · rintro ⟨object, other, ⟨hmem, hselected⟩, hjoined⟩
    obtain rfl := mem_joinObjects hjoined
    exact ⟨hmem, hselected⟩
  · rintro ⟨hmem, hselected⟩
    obtain ⟨object, hjoined⟩ := exists_mem_joinObjects database segment
    exact ⟨object, segment, ⟨hmem, hselected⟩, hjoined⟩

omit [Chrono] in
/-- A closed interval meets a half-open one exactly if neither lies wholly behind the other. -/
theorem meets_iff :
    (∃ time, times.minimumEventTime ≤ time ∧ time ≤ times.maximumEventTime ∧ InRange range time) ↔
      range.startInclusive.unixMilliseconds * 1000 ≤ times.maximumEventTime ∧
        times.minimumEventTime < range.endExclusive.unixMilliseconds * 1000 := by
  have hordered := times.eventTimes_le
  have hnonempty := range.start_lt_end
  constructor
  · rintro ⟨time, hminimum, hmaximum, hstart, hend⟩
    exact ⟨hstart.trans hmaximum, hminimum.trans_lt hend⟩
  · rintro ⟨hstart, hend⟩
    refine ⟨max times.minimumEventTime (range.startInclusive.unixMilliseconds * 1000), ?_⟩
    exact ⟨le_max_left _ _, max_le hordered hstart, le_max_right _ _, max_lt hend (by omega)⟩

/-- The bounds of a range that are kept can be bound : `chrono` does not represent them, or they
are not before Julian day 0. The last day of the range, which ends before its upper bound, is bound
too. -/
structure Bindable (range : Ir.TimeRange) : Prop where
  start : Chrono.fromTimestampMillis range.startInclusive.unixMilliseconds = true →
    minimumStorableMilliseconds ≤ range.startInclusive.unixMilliseconds
  stop : Chrono.fromTimestampMillis range.endExclusive.unixMilliseconds = true →
    minimumStorableMilliseconds < range.endExclusive.unixMilliseconds

/-- An instant that `chrono` represents, as a bound that is kept. -/
def keptBound (instant : Ir.UtcInstant) : Option Int :=
  if Chrono.fromTimestampMillis instant.unixMilliseconds then some instant.unixMilliseconds
  else none

theorem startConditions_bindable_iff (hcalendar : Documented) (instant : Ir.UtcInstant) :
    (∀ condition ∈ startConditions (keptBound instant), condition.Bindable) ↔
      (Chrono.fromTimestampMillis instant.unixMilliseconds = true →
        minimumStorableMilliseconds ≤ instant.unixMilliseconds) := by
  unfold keptBound
  split_ifs with hkept
  · rw [forall_prop_of_true hkept]
    rw [hcalendar] at hkept
    simp only [startConditions, forall_mem_cons, TimeCondition.Bindable, Chrono.dateNaive_eq,
      not_mem_nil, false_implies, implies_true, and_true, DateInRange, TimestampInRange,
      minimumStorableMilliseconds]
    omega
  · simp [startConditions, hkept]

theorem endConditions_bindable_iff (hcalendar : Documented) (instant : Ir.UtcInstant) :
    (∀ condition ∈ endConditions (keptBound instant), condition.Bindable) ↔
      (Chrono.fromTimestampMillis instant.unixMilliseconds = true →
        minimumStorableMilliseconds < instant.unixMilliseconds) := by
  unfold keptBound
  split_ifs with hkept
  · rw [forall_prop_of_true hkept]
    rw [hcalendar] at hkept
    dsimp only [endConditions, checkedSubMillisecond]
    split_ifs with hlast <;> rw [hcalendar] at hlast <;>
      simp only [Option.map_some, Option.map_none, nil_append, forall_mem_append,
        forall_mem_singleton, TimeCondition.Bindable, Chrono.dateNaive_eq, DateInRange,
        TimestampInRange, minimumStorableMilliseconds] <;>
      omega
  · simp [endConditions, hkept]

/-- The bounds that are kept are those that `chrono` represents, and it represents none of them if
the selection is empty. -/
theorem fromRange_cases (hcalendar : Documented) (range : Ir.TimeRange) :
    SegmentTimeSelection.fromRange range =
        .bounds ⟨keptBound range.startInclusive, keptBound range.endExclusive⟩ ∨
      SegmentTimeSelection.fromRange range = .empty ∧ Bindable range := by
  have hordered := range.start_lt_end
  have hstart := hcalendar range.startInclusive.unixMilliseconds
  have hend := hcalendar range.endExclusive.unixMilliseconds
  simp only [SegmentTimeSelection.fromRange, DatabaseTimestamp.fromInstant, keptBound]
  by_cases hs : Chrono.fromTimestampMillis range.startInclusive.unixMilliseconds = true <;>
    by_cases he : Chrono.fromTimestampMillis range.endExclusive.unixMilliseconds = true <;>
    simp only [hs, he, if_true, if_false, true_iff, false_iff, Bool.false_eq_true] at hstart hend ⊢
  · exact .inl trivial
  · rw [if_neg (by omega)]
    exact .inl rfl
  · rw [if_pos (by omega)]
    exact .inl rfl
  · have hbindable : Bindable range := ⟨fun h => absurd h hs, fun h => absurd h he⟩
    split_ifs
    all_goals first
      | exact .inl rfl
      | exact .inr ⟨rfl, hbindable⟩

/-- A selection fails exactly for a bound that PostgreSQL refuses. -/
theorem exists_selectSegmentRows_iff (hcalendar : Documented) (range : Ir.TimeRange)
    (database : Database) (sourceId : SourceId) :
    (∃ rows, selectSegmentRows database sourceId range = .ok rows) ↔ Bindable range := by
  rcases fromRange_cases hcalendar range with hbounds | ⟨hempty, hbindable⟩
  · have hiff : (∀ condition ∈ SegmentTimeBounds.conditions ⟨keptBound range.startInclusive,
        keptBound range.endExclusive⟩, condition.Bindable) ↔ Bindable range := by
      rw [SegmentTimeBounds.conditions, forall_mem_append,
        startConditions_bindable_iff hcalendar, endConditions_bindable_iff hcalendar]
      exact ⟨fun h => ⟨h.1, h.2⟩, fun h => ⟨h.start, h.stop⟩⟩
    rw [selectSegmentRows, hbounds, ← hiff]
    constructor
    · rintro ⟨rows, hrows⟩
      obtain ⟨_, hbindable, -⟩ := bind_eq_ok.mp hrows
      exact ensure_eq_ok.mp hbindable
    · intro hbindable
      dsimp only
      rw [ensure_of hbindable]
      exact ⟨_, rfl⟩
  · rw [selectSegmentRows, hempty]
    exact iff_of_true ⟨[], rfl⟩ hbindable

/-- The segments of a source that may hold an event of the range are selected, as long as the limit
does not cut the selection. -/
def Selects (database : Database) (sourceId : SourceId) (range : Ir.TimeRange) : Prop :=
  ∃ rows, selectSegmentRows database sourceId range = .ok rows ∧
    (rows.length ≤ maximumQuerySnapshotSegments →
      ∀ segment ∈ database.segments.rows, segment.sourceId = sourceId → segment.state = .active →
        Representable segment.times.minimumEventTime →
        Representable segment.times.maximumEventTime →
        ((∃ object, (segment, object) ∈ rows) ↔
          ∃ time, segment.times.minimumEventTime ≤ time ∧ time ≤ segment.times.maximumEventTime ∧
            InRange range time))

/-- Pruning loses no event, for a range whose bounds can be bound, and only for such a one. An
active segment whose event times `chrono` represents is then selected, as long as the limit does
not cut the selection, exactly if the closed interval of its event times meets the half-open range.
The event day excludes nothing that the times admit, a dropped bound is one that every time meets,
and the empty selection is made only for a range without a representable time. -/
theorem selectSegmentRows_iff (hcalendar : Documented) (range : Ir.TimeRange) :
    (SegmentTimeSelection.fromRange range).Describes range ∧
      (∀ (bounds : SegmentTimeBounds) (times : SegmentTimes),
        (∀ condition ∈ bounds.conditions, condition.Holds times) ↔
          (∀ milliseconds ∈ bounds.startInclusive,
            milliseconds * 1000 ≤ times.maximumEventTime) ∧
          ∀ milliseconds ∈ bounds.endExclusive, times.minimumEventTime < milliseconds * 1000) ∧
      ∀ (database : Database) (sourceId : SourceId),
        Selects database sourceId range ↔ Bindable range := by
  have hdescribes := describes_fromRange hcalendar range
  refine ⟨hdescribes, fun _ _ => conditions_hold_iff, fun database sourceId => ?_⟩
  rw [← exists_selectSegmentRows_iff hcalendar range database sourceId]
  refine exists_congr fun rows => and_iff_left_of_imp fun hrows hlimit => ?_
  intro segment hmem hsource hactive hminimum hmaximum
  cases hrange : SegmentTimeSelection.fromRange range with
  | empty =>
    rw [hrange] at hdescribes
    rw [selectSegmentRows, hrange] at hrows
    obtain rfl := Except.ok.inj hrows
    refine iff_of_false (by simp) ?_
    rintro ⟨time, hlower, hupper, hinRange⟩
    refine hdescribes time ?_ hinRange
    rw [Representable, hcalendar] at hminimum hmaximum ⊢
    omega
  | bounds kept =>
    rw [hrange] at hdescribes
    rw [mem_selectSegmentRows hrange hrows hlimit, conditions_hold_iff, meets_iff,
      hdescribes.start_iff hmaximum, hdescribes.end_iff hminimum]
    simp [hmem, hsource, hactive]

end Selection

section Sample

attribute [local instance] Chrono.standard

/-- The range of all instants before the first second of 1970 has ended. -/
def sampleRange : Ir.TimeRange := ⟨⟨-9223372036854775808⟩, ⟨1000⟩, by decide⟩

/-- The times of a segment with events in the first half of that second. -/
def sampleTimes : SegmentTimes := ⟨0, 0, 500000, 0, 0, by decide, by decide, by decide⟩

/-- A segment that has been registered and published. -/
def sampleSegment : StoredSegment := (StoredSegment.prepared (.sample sampleTimes)).activate 0 1

/-- A database with that segment. -/
def sampleDatabase : Database := ⟨⟨[sampleSegment], nodup_singleton _⟩, .empty⟩

theorem documented_standard : Documented := fun _ => decide_eq_true_iff

/-- The segment is selected, with a lower bound that `chrono` does not represent. -/
theorem sampleSegment_selected :
    ∃ rows object, selectSegmentRows sampleDatabase (UuidV7.sample 1) sampleRange = .ok rows ∧
      (sampleSegment, object) ∈ rows := by
  have hbindable : Bindable sampleRange := ⟨fun h => absurd h (by decide), fun _ => by decide⟩
  have hselects := (selectSegmentRows_iff documented_standard sampleRange).2.2 sampleDatabase
    (UuidV7.sample 1)
  obtain ⟨rows, hrows, hsegments⟩ := hselects.mpr hbindable
  have hlength : rows.length ≤ maximumQuerySnapshotSegments := by
    obtain rfl := Except.ok.inj hrows
    refine (length_take_le' _ _).trans ?_
    rw [length_mergeSort]
    decide
  obtain ⟨object, hobject⟩ := (hsegments hlength sampleSegment (mem_singleton_self _) rfl rfl
    (by decide) (by decide)).mpr ⟨0, by decide⟩
  exact ⟨rows, object, hrows, hobject⟩

/-- The range from the millisecond before Julian day 0 on. -/
def ancientRange : Ir.TimeRange := ⟨⟨-210866803200001⟩, ⟨1000⟩, by decide⟩

/-- The segment has events of the range, but the query for them fails. -/
theorem ancientRange_refused :
    InRange ancientRange 0 ∧ Representable sampleTimes.minimumEventTime ∧
      Representable sampleTimes.maximumEventTime ∧
      selectSegmentRows sampleDatabase (UuidV7.sample 1) ancientRange =
        .error (.unavailable .datetimeFieldOverflow) := by
  refine ⟨by decide, by decide, by decide, ?_⟩
  rw [selectSegmentRows, show SegmentTimeSelection.fromRange ancientRange =
    .bounds ⟨some (-210866803200001), some 1000⟩ by decide]
  dsimp only
  rw [ensure, if_neg (by decide)]
  rfl

end Sample

end Elucid.QuerySnapshot
