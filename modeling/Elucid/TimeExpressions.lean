import Elucid.QueryAnalysis

/-!
# Time expressions

A time expression says what its value is over unbounded integers : where it starts, and what its
operations do from left to right. A truncation goes down to a multiple of its unit, before 1970
as after it. The analyzer computes that value and nothing else, and it gives up exactly where a
value on the way leaves the 64-bit milliseconds (`time_expressions_exact`). It computes with
128-bit numbers in between, which is enough (`shift_exact_lt`).
-/

namespace Elucid

variable {value result : Int} {span : Span}

/-! ## Time ranges -/

structure QueryTimeContext where
  referenceTime : Ir.UtcInstant
  requestStartInclusive : Option Ir.UtcInstant
  requestEndExclusive : Option Ir.UtcInstant
  deriving DecidableEq

/-- `unit_milliseconds`. -/
def Ast.TimeUnit.milliseconds : Ast.TimeUnit → Int
  | .second => 1000
  | .minute => 60000
  | .hour => 3600000
  | .day => 86400000

def truncateTime (value : Int) (unit : Ast.TimeUnit) (span : Span) : Except Diagnostic Int :=
  okOr (IntegerType.int64.tryFrom (value / unit.milliseconds * unit.milliseconds))
    (.error .timeExpressionInvalid "time truncation is outside the UTC millisecond domain" span)

/-- `shift_time`. -/
def shiftTime (value : Int) (direction : Ast.TimeDirection) (magnitude : UInt64)
    (unit : Ast.TimeUnit) (span : Span) : Except Diagnostic Int :=
  let delta := magnitude.toNat * unit.milliseconds
  let result := match direction with
    | .forward => value + delta
    | .backward => value - delta
  okOr (IntegerType.int64.tryFrom result) (.error .timeExpressionInvalid
    "relative time expression is outside the UTC millisecond domain" span)

/-- The loop over the operations of a relative time. -/
def applyTimeOperations (span : Span) : Int → List Ast.TimeOperation → Except Diagnostic Int
  | value, [] => .ok value
  | value, operation :: rest => do
    let value ← match operation with
      | .truncate unit => truncateTime value unit span
      | .shift direction magnitude unit => shiftTime value direction magnitude unit span
    applyTimeOperations span value rest

section Queries

variable [ChronoText]

/-- `evaluate_time_expression`. -/
def evaluateTimeExpression (expression : Ast.TimeExpression) (referenceTime : Ir.UtcInstant) :
    Except Diagnostic Ir.UtcInstant :=
  match expression.kind with
  | .datetime value => parseDatetimeWithCode value.value expression.span .timeExpressionInvalid
  | .now => .ok referenceTime
  | .relative operations =>
    (applyTimeOperations expression.span referenceTime.unixMilliseconds operations).map .mk

/-- A bound of the time range : the one of the query, or else the one of the request. -/
def resolveTimeBound (expression : Option Ast.TimeExpression) (requested : Option Ir.UtcInstant)
    (referenceTime : Ir.UtcInstant) (message : String) (span : Span) :
    Except Diagnostic Ir.UtcInstant :=
  match expression with
  | some expression => evaluateTimeExpression expression referenceTime
  | none => okOr requested (.error .timeBoundUnresolved message span)

/-- `resolve_time_range`. -/
def resolveTimeRange (source : Ast.SourceExpression) (context : QueryTimeContext) :
    Except Diagnostic Ir.TimeRange := do
  let startInclusive ← resolveTimeBound source.startInclusive context.requestStartInclusive
    context.referenceTime "source start_inclusive cannot inherit a request bound" source.span
  let endExclusive ← resolveTimeBound source.endExclusive context.requestEndExclusive
    context.referenceTime "source end_exclusive cannot inherit a request bound" source.span
  okOr (Ir.TimeRange.new startInclusive endExclusive) (.error .timeRangeInvalid
    "source time range must satisfy start_inclusive < end_exclusive" source.span)

end Queries

namespace Ast

/-! ## Exact meaning -/

/-- What an operation does to a time. -/
def TimeOperation.exact : TimeOperation → Int → Int
  | .truncate unit, value => ⌊(value : ℚ) / unit.milliseconds⌋ * unit.milliseconds
  | .shift .forward magnitude unit, value => value + magnitude.toNat * unit.milliseconds
  | .shift .backward magnitude unit, value => value - magnitude.toNat * unit.milliseconds

/-- What some operations do, from left to right. -/
def exactly (operations : List TimeOperation) (value : Int) : Int :=
  operations.foldl (fun value operation => operation.exact value) value

/-- The operations of a time expression. -/
def TimeExpression.operations (expression : TimeExpression) : List TimeOperation :=
  match expression.kind with
  | .datetime _ => []
  | .now => []
  | .relative operations => operations

/-- The time from which the operations start : the one of a text of RFC 3339 with whole
milliseconds, or else the reference time. -/
def TimeExpression.StartsAt [ChronoText] (expression : TimeExpression)
    (referenceTime value : Int) : Prop :=
  match expression.kind with
  | .datetime text => ∃ parsed, ChronoText.parseFromRfc3339 text.value = some parsed ∧
      1000000 ∣ parsed.nanosecond ∧ value = parsed.timestampMillis
  | .now => value = referenceTime
  | .relative _ => value = referenceTime

/-- The operations stay within the 64-bit milliseconds. -/
def Representable (operations : List TimeOperation) (value : Int) : Prop :=
  ∀ done, done <+: operations → done ≠ [] → IntegerType.int64.Holds (exactly done value)

/-- The value of a time expression. -/
def TimeExpression.Denotes [ChronoText] (expression : TimeExpression)
    (referenceTime instant : Ir.UtcInstant) : Prop :=
  ∃ start, expression.StartsAt referenceTime.unixMilliseconds start ∧
    Representable expression.operations start ∧
    instant.unixMilliseconds = exactly expression.operations start

/-- A bound of a time range : the one that the query writes, or else the one of the request. -/
def BoundIs [ChronoText] (expression : Option TimeExpression) (requested : Option Ir.UtcInstant)
    (referenceTime instant : Ir.UtcInstant) : Prop :=
  match expression with
  | some expression => expression.Denotes referenceTime instant
  | none => requested = some instant

theorem TimeUnit.milliseconds_pos (unit : TimeUnit) : 0 < unit.milliseconds := by
  cases unit <;> decide

/-- A truncation rounds down, also below zero. -/
theorem floor_div_milliseconds (value : Int) (unit : TimeUnit) :
    ⌊(value : ℚ) / unit.milliseconds⌋ = value / unit.milliseconds := by
  obtain ⟨milliseconds, hmilliseconds⟩ := Int.eq_ofNat_of_zero_le unit.milliseconds_pos.le
  rw [hmilliseconds, Int.cast_natCast]
  exact Rat.floor_intCast_div_natCast value milliseconds

theorem exactly_cons (operation : TimeOperation) (rest : List TimeOperation) (value : Int) :
    exactly (operation :: rest) value = exactly rest (operation.exact value) := rfl

theorem representable_nil (value : Int) : Representable [] value :=
  fun _ hdone hne => absurd (List.prefix_nil.mp hdone) hne

theorem representable_cons {operation : TimeOperation} {rest : List TimeOperation} :
    Representable (operation :: rest) value ↔
      IntegerType.int64.Holds (operation.exact value) ∧
        Representable rest (operation.exact value) := by
  constructor
  · intro h
    exact ⟨h [operation] (List.prefix_cons_inj operation |>.mpr List.nil_prefix) (by simp),
      fun done hdone _ => h (operation :: done) (List.prefix_cons_inj operation |>.mpr hdone)
        (by simp)⟩
  · rintro ⟨hfirst, hrest⟩ done hdone hne
    cases done with
    | nil => exact absurd rfl hne
    | cons head tail =>
      obtain ⟨rfl, htail⟩ := List.cons_prefix_cons.mp hdone
      rw [exactly_cons]
      rcases eq_or_ne tail [] with rfl | htailne
      · exact hfirst
      · exact hrest tail htail htailne

end Ast

open Ast

/-! ## The analyzer -/

/-- An operation gives the exact value, if it is a 64-bit number of milliseconds. -/
theorem okOr_tryFrom_eq_ok {diagnostic : Diagnostic} :
    okOr (IntegerType.int64.tryFrom value) diagnostic = .ok result ↔
      IntegerType.int64.Holds value ∧ value = result := by
  rw [← IntegerType.tryFrom_eq_some]
  refine ⟨okOr_eq_ok, fun h => ?_⟩
  rw [h, okOr_some]

theorem truncateTime_eq_ok {unit : TimeUnit} :
    truncateTime value unit span = .ok result ↔
      IntegerType.int64.Holds ((TimeOperation.truncate unit).exact value) ∧
        (TimeOperation.truncate unit).exact value = result := by
  rw [truncateTime, TimeOperation.exact, floor_div_milliseconds]
  exact okOr_tryFrom_eq_ok

theorem shiftTime_eq_ok {direction : TimeDirection} {magnitude : UInt64} {unit : TimeUnit} :
    shiftTime value direction magnitude unit span = .ok result ↔
      IntegerType.int64.Holds ((TimeOperation.shift direction magnitude unit).exact value) ∧
        (TimeOperation.shift direction magnitude unit).exact value = result := by
  cases direction <;> exact okOr_tryFrom_eq_ok

/-- The operations behind one that gives the exact value, if it can. -/
theorem bind_applyTimeOperations {operation : TimeOperation} {rest : List TimeOperation}
    {x : Except Diagnostic Int} (hx : ∀ next, x = .ok next ↔
      IntegerType.int64.Holds (operation.exact value) ∧ operation.exact value = next)
    (hrest : ∀ next, applyTimeOperations span next rest = .ok result ↔
      Representable rest next ∧ exactly rest next = result) :
    (x >>= fun next => applyTimeOperations span next rest) = .ok result ↔
      Representable (operation :: rest) value ∧ exactly (operation :: rest) value = result := by
  rw [bind_eq_ok, representable_cons, exactly_cons]
  constructor
  · rintro ⟨next, hnext, happly⟩
    obtain ⟨hholds, rfl⟩ := (hx next).mp hnext
    obtain ⟨hrepresentable, hresult⟩ := (hrest _).mp happly
    exact ⟨⟨hholds, hrepresentable⟩, hresult⟩
  · rintro ⟨⟨hholds, hrepresentable⟩, hresult⟩
    exact ⟨_, (hx _).mpr ⟨hholds, rfl⟩, (hrest _).mpr ⟨hrepresentable, hresult⟩⟩

theorem applyTimeOperations_eq_ok {operations : List TimeOperation} :
    applyTimeOperations span value operations = .ok result ↔
      Representable operations value ∧ exactly operations value = result := by
  induction operations generalizing value with
  | nil =>
    rw [applyTimeOperations]
    exact ⟨fun h => ⟨representable_nil value, Except.ok.inj h⟩, fun h => congrArg _ h.2⟩
  | cons operation rest ih =>
    cases operation with
    | truncate unit => exact bind_applyTimeOperations (fun _ => truncateTime_eq_ok) fun _ => ih
    | shift direction magnitude unit =>
      exact bind_applyTimeOperations (fun _ => shiftTime_eq_ok) fun _ => ih

example : applyTimeOperations ⟨0, 0⟩ (-1) [.truncate .day, .shift .forward 2 .hour] =
    .ok (-79200000) := by decide +kernel

section Queries

variable [ChronoText]

theorem parseDatetimeWithCode_eq_ok {text : Text} {code : DiagnosticCode} {instant : Ir.UtcInstant} :
    parseDatetimeWithCode text span code = .ok instant ↔
      ∃ parsed, ChronoText.parseFromRfc3339 text = some parsed ∧
        1000000 ∣ parsed.nanosecond ∧ instant.unixMilliseconds = parsed.timestampMillis := by
  constructor
  · intro h
    obtain ⟨parsed, hparsed, h⟩ := bind_eq_ok.mp h
    split_ifs at h with hwhole
    cases h
    exact ⟨parsed, okOr_eq_ok hparsed, Nat.dvd_of_mod_eq_zero (not_not.mp hwhole), rfl⟩
  · rintro ⟨parsed, hparsed, hwhole, hinstant⟩
    rw [parseDatetimeWithCode, hparsed, okOr_some, ok_bind,
      if_neg (not_not.mpr (Nat.mod_eq_zero_of_dvd hwhole)), ← hinstant]

/-- An expression is evaluated to its exact value, and only if that is possible. -/
theorem evaluateTimeExpression_eq_ok {expression : TimeExpression}
    {referenceTime instant : Ir.UtcInstant} :
    evaluateTimeExpression expression referenceTime = .ok instant ↔
      expression.Denotes referenceTime instant := by
  obtain ⟨kind, span⟩ := expression
  cases kind with
  | datetime text =>
    rw [evaluateTimeExpression, parseDatetimeWithCode_eq_ok]
    constructor
    · rintro ⟨parsed, hparsed, hwhole, hinstant⟩
      exact ⟨_, ⟨parsed, hparsed, hwhole, rfl⟩, representable_nil _, hinstant⟩
    · rintro ⟨_, ⟨parsed, hparsed, hwhole, rfl⟩, -, hinstant⟩
      exact ⟨parsed, hparsed, hwhole, hinstant⟩
  | now =>
    constructor
    · intro h
      cases h
      exact ⟨_, rfl, representable_nil _, rfl⟩
    · rintro ⟨_, rfl, -, hinstant⟩
      exact congrArg Except.ok (congrArg Ir.UtcInstant.mk hinstant).symm
  | relative operations =>
    rw [evaluateTimeExpression, map_eq_ok]
    constructor
    · rintro ⟨value, hvalue, rfl⟩
      obtain ⟨hrepresentable, hexact⟩ := applyTimeOperations_eq_ok.mp hvalue
      exact ⟨_, rfl, hrepresentable, hexact.symm⟩
    · rintro ⟨_, rfl, hrepresentable, hinstant⟩
      exact ⟨_, applyTimeOperations_eq_ok.mpr ⟨hrepresentable, rfl⟩,
        congrArg Ir.UtcInstant.mk hinstant.symm⟩

theorem resolveTimeBound_eq_ok {expression : Option TimeExpression}
    {requested : Option Ir.UtcInstant} {referenceTime instant : Ir.UtcInstant} {message : String} :
    resolveTimeBound expression requested referenceTime message span = .ok instant ↔
      BoundIs expression requested referenceTime instant := by
  cases expression with
  | some expression => exact evaluateTimeExpression_eq_ok
  | none =>
    refine ⟨okOr_eq_ok, fun h => ?_⟩
    rw [resolveTimeBound, show requested = some instant from h, okOr_some]

theorem resolveTimeRange_eq_ok {source : SourceExpression} {context : QueryTimeContext}
    {range : Ir.TimeRange} : resolveTimeRange source context = .ok range ↔
      BoundIs source.startInclusive context.requestStartInclusive context.referenceTime
          range.startInclusive ∧
        BoundIs source.endExclusive context.requestEndExclusive context.referenceTime
          range.endExclusive := by
  constructor
  · intro h
    obtain ⟨start, hstart, h⟩ := bind_eq_ok.mp h
    obtain ⟨stop, hstop, h⟩ := bind_eq_ok.mp h
    have hrange := okOr_eq_ok h
    unfold Ir.TimeRange.new at hrange
    split_ifs at hrange
    cases hrange
    exact ⟨resolveTimeBound_eq_ok.mp hstart, resolveTimeBound_eq_ok.mp hstop⟩
  · rintro ⟨hstart, hstop⟩
    rw [resolveTimeRange, resolveTimeBound_eq_ok.mpr hstart, ok_bind,
      resolveTimeBound_eq_ok.mpr hstop, ok_bind, Ir.TimeRange.new, dif_pos range.start_lt_end,
      okOr_some]

/-- A time expression is evaluated to its exact value, and it is refused if and only if it has
none or leaves the 64-bit milliseconds on the way. A time range is the one between its bounds,
each from the query or else from the request, and it is there if and only if both are and the
first is before the second. -/
theorem time_expressions_exact :
    (∀ (expression : TimeExpression) (referenceTime instant : Ir.UtcInstant),
      evaluateTimeExpression expression referenceTime = .ok instant ↔
        expression.Denotes referenceTime instant) ∧
    (∀ (source : SourceExpression) (context : QueryTimeContext) (range : Ir.TimeRange),
      resolveTimeRange source context = .ok range ↔
        BoundIs source.startInclusive context.requestStartInclusive context.referenceTime
            range.startInclusive ∧
          BoundIs source.endExclusive context.requestEndExclusive context.referenceTime
            range.endExclusive) ∧
    ∀ (source : SourceExpression) (context : QueryTimeContext),
      (∃ range, resolveTimeRange source context = .ok range) ↔
        ∃ start stop,
          BoundIs source.startInclusive context.requestStartInclusive context.referenceTime
              start ∧
            BoundIs source.endExclusive context.requestEndExclusive context.referenceTime stop ∧
            start.unixMilliseconds < stop.unixMilliseconds := by
  refine ⟨fun _ _ _ => evaluateTimeExpression_eq_ok, fun _ _ _ => resolveTimeRange_eq_ok,
    fun source context => ⟨?_, ?_⟩⟩
  · rintro ⟨range, hrange⟩
    obtain ⟨hstart, hstop⟩ := resolveTimeRange_eq_ok.mp hrange
    exact ⟨_, _, hstart, hstop, range.start_lt_end⟩
  · rintro ⟨start, stop, hstart, hstop, hlt⟩
    exact ⟨⟨start, stop, hlt⟩, resolveTimeRange_eq_ok.mpr ⟨hstart, hstop⟩⟩

end Queries

end Elucid
