import Elucid.Casts
import Elucid.EventTimeRange
import Elucid.JsonDocument
import Elucid.TimeText

/-!
# Casts to a text and back

A value of a stored row becomes a text or a JSON text, and is cast back to its type. Booleans,
integers and event identities come back as they were.

A datetime is written in the way of RFC 3339, with a sign and more digits for a year outside 0 to
9999, and it is read with four digits for the year. Normalization accepts every time that
`chrono` represents. So `roundTrips_iff` has a condition, and `year_tenThousand` is an event time
that is accepted and does not come back.

What is assumed of the crates is `JsonText.ReadsScalars` and `ChronoFormat.Rfc3339`.
-/

namespace Elucid

open BigEndian Rfc8259 Calendar

/-! ## The crates -/

/-- `serde_json` reads the booleans, integers and strings that are written, and writes the literal
of a string. -/
structure JsonText.ReadsScalars [JsonText] : Prop where
  bools : ∀ value, JsonText.fromStr (boolText value) = some (.bool value)
  integers : ∀ number, JsonText.fromStr (integerText number) = some (.number (integerText number))
  strings : ∀ text, isUtf8 text = true → JsonText.fromStr (stringLiteral text) = some (.string text)
  writes : ∀ text, isUtf8 text = true → JsonText.stringText text = some (stringLiteral text)

/-- `chrono` writes a year of four digits so that it reads it again. It puts a sign in front of
every other year, and reads no year with a sign. -/
structure ChronoFormat.Rfc3339 [ChronoText] [ChronoFormat] : Prop where
  utf8 : ∀ milliseconds, isUtf8 (ChronoFormat.toRfc3339 milliseconds) = true
  reads : ∀ milliseconds, HasFourDigitYear milliseconds →
    ∃ parsed, ChronoText.parseFromRfc3339 (ChronoFormat.toRfc3339 milliseconds) = some parsed ∧
      parsed.nanosecond % 1000000 = 0 ∧ parsed.timestampMillis = milliseconds
  signs : ∀ milliseconds, ¬HasFourDigitYear milliseconds →
    ∃ rest, ChronoFormat.toRfc3339 milliseconds = 0x2B :: rest ∨
      ChronoFormat.toRfc3339 milliseconds = 0x2D :: rest
  fourDigits : ∀ rest, ChronoText.parseFromRfc3339 (0x2B :: rest) = none ∧
    ChronoText.parseFromRfc3339 (0x2D :: rest) = none

/-! ## Hexadecimal texts -/

theorem hexValue_hexDigit {value : Nat} (h : value < 16) :
    hexValue (hexDigit value) = some (UInt8.ofNat value) := by
  interval_cases value <;> rfl

theorem ofNat_div_mod (byte : UInt8) :
    UInt8.ofNat (byte.toNat / 16) * 16 + UInt8.ofNat (byte.toNat % 16) = byte := by
  have hlt := byte.toNat_lt
  apply UInt8.toNat_inj.mp
  rw [UInt8.toNat_add, UInt8.toNat_mul, UInt8.toNat_ofNat', UInt8.toNat_ofNat']
  change (byte.toNat / 16 % 2 ^ 8 * 16 % 2 ^ 8 + byte.toNat % 16 % 2 ^ 8) % 2 ^ 8 = byte.toNat
  omega

theorem hexPairs_hexText (bytes : Bytes) : hexPairs (hexText bytes) = some bytes := by
  induction bytes with
  | nil => rfl
  | cons byte rest ih =>
    have hlt := byte.toNat_lt
    change hexPairs (hexDigit (byte.toNat / 16) :: hexDigit (byte.toNat % 16) :: hexText rest) = _
    rw [hexPairs, hexValue_hexDigit (by omega), hexValue_hexDigit (by omega), ih]
    exact congrArg (fun first => some (first :: rest)) (ofNat_div_mod byte)

theorem EventId.fromStr_hexText {bytes : Bytes} (h : bytes.length = 16) :
    EventId.fromStr (hexText bytes) = some ⟨bytes⟩ := by
  rw [fromStr, length_hexText, h, hexPairs_hexText]
  rfl

/-! ## Stored values -/

section Casts

variable [Chrono] [ChronoText]
variable {milliseconds : Int} {t : IntegerType} {number : Int} {bytes : Bytes}

/-- An accepted time is a time of `chrono`. -/
theorem fromTimestampMillis_of_parseDatetime {value : Value} {format : EventTimeFormat}
    (h : parseDatetime value format = some milliseconds) :
    Chrono.fromTimestampMillis milliseconds = true := by
  have hof : ∀ {read : Int}, representable read = some milliseconds →
      Chrono.fromTimestampMillis milliseconds = true := by
    intro read hread
    unfold representable at hread
    split at hread
    case isTrue htime => exact Option.some.inj hread ▸ htime
    case isFalse => cases hread
  cases format with
  | unixMilliseconds =>
    obtain ⟨read, -, hread⟩ := Option.bind_eq_some_iff.mp h
    exact hof hread
  | rfc3339 =>
    cases value with
    | string text =>
      obtain ⟨parsed, -, hparsed⟩ := Option.bind_eq_some_iff.mp h
      split at hparsed
      · cases hparsed
      · exact hof hparsed
    | null | bool _ | number _ | array _ | object _ => cases h

variable [JsonText] [FloatText] [FloatArithmetic] [ChronoFormat]

/-- The values that a stored row can have. A datetime is one that normalization accepts. -/
inductive Storable : LogicalType → ScalarValue → Prop
  | null (logicalType : LogicalType) : Storable logicalType (nullScalar logicalType)
  | bool (value : Bool) : Storable .bool (.boolean (some value))
  | integer {t : IntegerType} {number : Int} (h : t.Holds number) :
    Storable t.logicalType (.integer t number)
  | datetime {value : Value} {format : EventTimeFormat} {milliseconds : Int}
    (h : parseDatetime value format = some milliseconds) :
    Storable .datetime (.timestampMillisecond (some milliseconds) (some utcTimezone))
  | eid {bytes : Bytes} (h : bytes.length = 16) : Storable .eid (.fixedSizeBinary 16 (some bytes))

/-- A value comes back from another type. -/
def RoundTrips (between logicalType : LogicalType) (value : ScalarValue) : Prop :=
  ∃ written, convertScalar value logicalType between = .ok written ∧
    convertScalar written between logicalType = .ok value

/-- If a value is a datetime, then one of the years 0 to 9999. -/
def ScalarValue.YearsHaveFourDigits (value : ScalarValue) : Prop :=
  ∀ milliseconds timezone, value = .timestampMillisecond (some milliseconds) timezone →
    HasFourDigitYear milliseconds

/-! ## Texts -/

/-- The text of an integer is cast to that integer. -/
theorem convertScalar_integerText (h : t.Holds number) :
    convertScalar (.utf8 (some (integerText number))) .utf8 t.logicalType =
      .ok (.integer t number) := by
  have hne := decimalText_ne_nil number.natAbs
  have hall := all_isDigit_decimalText number.natAbs
  have hexact : castRational t number = .ok (.integer t number) := by
    rw [castRational_intCast, if_pos h]
  rw [← hexact, integerText]
  split_ifs with hnegative
  · have hsigned : t.minimum < 0 := h.1.trans_lt hnegative
    refine convertScalar_text (fun _ => validSignedDecimal_minus hne hall)
      (fun hunsigned => absurd hsigned hunsigned) ?_
    rw [IntegerType.fromStr_minus hsigned hne hall, digitsNat_decimalText]
    congr 1
    omega
  · refine convertScalar_text (fun _ => validSignedDecimal_digits hne hall)
      (fun _ => validUnsignedDecimal_digits hne hall) ?_
    rw [IntegerType.fromStr_digits t hne hall, digitsNat_decimalText]
    congr 1
    omega

/-- The JSON text of an integer is cast to that integer. -/
theorem convertScalar_integerJson (hjson : JsonText.ReadsScalars) (h : t.Holds number) :
    convertScalar (.utf8 (some (integerText number))) .json t.logicalType =
      .ok (.integer t number) := by
  have hread := hjson.integers number
  rw [← JsonNumber.text_ofInt] at hread ⊢
  have hinteger : (JsonNumber.ofInt number).IsInteger64 := by
    rw [JsonNumber.IsInteger64, JsonNumber.integerValue_ofInt]
    refine ⟨⟨rfl, rfl⟩, ?_⟩
    cases t <;> simp only [IntegerType.holds_int32, IntegerType.holds_int64,
      IntegerType.holds_uint32, IntegerType.holds_uint64] at h <;> omega
  rw [convertScalar_number hread, jsonNumber_integer64 hinteger,
    JsonNumber.value_of_isIntegerText hinteger.1, JsonNumber.integerValue_ofInt,
    castRational_intCast, if_pos h]

theorem convertScalar_json (text : Text) (target : LogicalType) :
    convertScalar (.utf8 (some text)) .json target = convertJson (.utf8 (some text)) target := rfl

/-- A JSON string is cast as the text that it is. -/
theorem convertScalar_string (hjson : JsonText.ReadsScalars) {text : Text}
    (htext : isUtf8 text = true) {target : LogicalType} (htarget : target ≠ .json) :
    convertScalar (.utf8 (some (stringLiteral text))) .json target =
      convertScalar (.utf8 (some text)) .utf8 target := by
  have hread := hjson.strings text htext
  rw [convertScalar_json, convertJson, hread, okOr_some, ok_bind, if_neg htarget]
  rfl

/-! ## Round trips -/

theorem roundTrips_null (between logicalType : LogicalType) :
    RoundTrips between logicalType (nullScalar logicalType) := by
  refine ⟨nullScalar between, ?_, ?_⟩ <;> rw [convertScalar, if_pos (isNull_nullScalar _)]

theorem roundTrips_bool_utf8 (value : Bool) :
    RoundTrips .utf8 .bool (.boolean (some value)) := by
  cases value <;> exact ⟨_, rfl, rfl⟩

theorem roundTrips_bool_json (hjson : JsonText.ReadsScalars) (value : Bool) :
    RoundTrips .json .bool (.boolean (some value)) := by
  refine ⟨.utf8 (some (boolText value)), rfl, ?_⟩
  rw [convertScalar_json, convertJson, hjson.bools]
  rfl

theorem roundTrips_integer_utf8 (h : t.Holds number) :
    RoundTrips .utf8 t.logicalType (.integer t number) := by
  refine ⟨.utf8 (some (integerText number)), ?_, convertScalar_integerText h⟩
  cases t <;> rfl

theorem roundTrips_integer_json (hjson : JsonText.ReadsScalars) (h : t.Holds number) :
    RoundTrips .json t.logicalType (.integer t number) := by
  refine ⟨.utf8 (some (integerText number)), ?_, convertScalar_integerJson hjson h⟩
  cases t <;> rfl

/-- A value that is written as a string comes back from JSON if and only if it comes back from
its text. -/
theorem roundTrips_json_iff (hjson : JsonText.ReadsScalars) {logicalType : LogicalType}
    {value : ScalarValue} {text : Text} (htext : isUtf8 text = true)
    (hne : logicalType ≠ .json)
    (hutf8 : convertScalar value logicalType .utf8 = .ok (.utf8 (some text)))
    (hwritten : convertScalar value logicalType .json =
      (okOr (JsonText.stringText text) .invalidCast).map fun text => .utf8 (some text)) :
    RoundTrips .json logicalType value ↔ RoundTrips .utf8 logicalType value := by
  rw [hjson.writes text htext] at hwritten
  constructor
  · rintro ⟨written, hjsonText, hback⟩
    obtain rfl : .utf8 (some (stringLiteral text)) = written :=
      Except.ok.inj (hwritten.symm.trans hjsonText)
    rw [convertScalar_string hjson htext hne] at hback
    exact ⟨_, hutf8, hback⟩
  · rintro ⟨written, hwrittenText, hback⟩
    obtain rfl : .utf8 (some text) = written := Except.ok.inj (hutf8.symm.trans hwrittenText)
    refine ⟨_, hwritten, ?_⟩
    rw [convertScalar_string hjson htext hne]
    exact hback

theorem convertScalar_eid_utf8 (h : bytes.length = 16) :
    convertScalar (.fixedSizeBinary 16 (some bytes)) .eid .utf8 =
      .ok (.utf8 (some (hexText bytes))) := by
  have hid : EventId.tryFrom bytes = some ⟨bytes⟩ := if_pos h
  change (scalarToUtf8 (.fixedSizeBinary 16 (some bytes)) .eid).map _ = _
  rw [scalarToUtf8, if_pos rfl, hid]
  rfl

theorem roundTrips_eid_utf8 (h : bytes.length = 16) :
    RoundTrips .utf8 .eid (.fixedSizeBinary 16 (some bytes)) := by
  refine ⟨_, convertScalar_eid_utf8 h, ?_⟩
  change (okOr (EventId.fromStr (hexText bytes)) InvalidCast.invalidCast).map _ = _
  rw [EventId.fromStr_hexText h]
  rfl

theorem roundTrips_eid_json (hjson : JsonText.ReadsScalars) (h : bytes.length = 16) :
    RoundTrips .json .eid (.fixedSizeBinary 16 (some bytes)) := by
  refine (roundTrips_json_iff hjson (isUtf8_hexText bytes) (by decide) (convertScalar_eid_utf8 h)
    ?_).mpr (roundTrips_eid_utf8 h)
  have hid : EventId.tryFrom bytes = some ⟨bytes⟩ := if_pos h
  change (scalarToJson (.fixedSizeBinary 16 (some bytes)) .eid).map _ = _
  rw [scalarToJson, scalarToUtf8, if_pos rfl, hid]
  rfl

/-! ## Datetimes -/

theorem convertScalar_datetime_utf8 (h : Chrono.fromTimestampMillis milliseconds = true) :
    convertScalar (.timestampMillisecond (some milliseconds) (some utcTimezone)) .datetime .utf8 =
      .ok (.utf8 (some (ChronoFormat.toRfc3339 milliseconds))) := by
  change (scalarToUtf8 (.timestampMillisecond (some milliseconds) (some utcTimezone))
    .datetime).map _ = _
  rw [scalarToUtf8, if_pos ⟨rfl, h⟩]
  rfl

theorem convertScalar_utf8_datetime (text : Text) :
    convertScalar (.utf8 (some text)) .utf8 .datetime =
      utf8ToScalar (.utf8 (some text)) .datetime := rfl

/-- The text of a datetime is read if and only if its year has four digits. -/
theorem roundTrips_datetime_utf8_iff (hchrono : ChronoFormat.Rfc3339)
    (h : Chrono.fromTimestampMillis milliseconds = true) :
    RoundTrips .utf8 .datetime
        (.timestampMillisecond (some milliseconds) (some utcTimezone)) ↔
      HasFourDigitYear milliseconds := by
  constructor
  · rintro ⟨written, hwritten, hback⟩
    obtain rfl := Except.ok.inj ((convertScalar_datetime_utf8 h).symm.trans hwritten)
    by_contra hyear
    have hnone : ChronoText.parseFromRfc3339 (ChronoFormat.toRfc3339 milliseconds) = none := by
      obtain ⟨rest, hrest | hrest⟩ := hchrono.signs milliseconds hyear <;> rw [hrest]
      · exact (hchrono.fourDigits rest).1
      · exact (hchrono.fourDigits rest).2
    rw [convertScalar_utf8_datetime, utf8ToScalar, hnone] at hback
    cases hback
  · intro hyear
    obtain ⟨parsed, hparsed, hwhole, rfl⟩ := hchrono.reads milliseconds hyear
    refine ⟨_, convertScalar_datetime_utf8 h, ?_⟩
    rw [convertScalar_utf8_datetime, utf8ToScalar, hparsed, okOr_some, ok_bind, hwhole]
    rfl

theorem roundTrips_datetime_json_iff (hchrono : ChronoFormat.Rfc3339)
    (hjson : JsonText.ReadsScalars) (h : Chrono.fromTimestampMillis milliseconds = true) :
    RoundTrips .json .datetime
        (.timestampMillisecond (some milliseconds) (some utcTimezone)) ↔
      HasFourDigitYear milliseconds := by
  rw [← roundTrips_datetime_utf8_iff hchrono h]
  refine roundTrips_json_iff hjson (hchrono.utf8 milliseconds) (by decide)
    (convertScalar_datetime_utf8 h) ?_
  change (scalarToJson (.timestampMillisecond (some milliseconds) (some utcTimezone))
    .datetime).map _ = _
  rw [scalarToJson, scalarToUtf8, if_pos ⟨rfl, h⟩]
  rfl

/-- A stored value comes back from its text and from its JSON text, unless it is a datetime of a
year outside 0 to 9999. -/
theorem roundTrips_iff (hchrono : ChronoFormat.Rfc3339) (hjson : JsonText.ReadsScalars)
    {logicalType : LogicalType} {value : ScalarValue} (h : Storable logicalType value) :
    (RoundTrips .utf8 logicalType value ↔ value.YearsHaveFourDigits) ∧
      (RoundTrips .json logicalType value ↔ value.YearsHaveFourDigits) := by
  have hboth : ∀ {value}, value.YearsHaveFourDigits → RoundTrips .utf8 logicalType value →
      RoundTrips .json logicalType value →
      (RoundTrips .utf8 logicalType value ↔ value.YearsHaveFourDigits) ∧
        (RoundTrips .json logicalType value ↔ value.YearsHaveFourDigits) :=
    fun hyears hutf8 hjson => ⟨iff_of_true hutf8 hyears, iff_of_true hjson hyears⟩
  cases h with
  | null =>
    refine hboth ?_ (roundTrips_null .utf8 logicalType) (roundTrips_null .json logicalType)
    intro milliseconds timezone heq
    cases logicalType <;> cases heq
  | bool value =>
    exact hboth (fun _ _ heq => by cases heq) (roundTrips_bool_utf8 value)
      (roundTrips_bool_json hjson value)
  | @integer t number hholds =>
    refine hboth ?_ (roundTrips_integer_utf8 hholds) (roundTrips_integer_json hjson hholds)
    intro milliseconds timezone heq
    cases t <;> cases heq
  | @datetime _ _ milliseconds haccepted =>
    have htime := fromTimestampMillis_of_parseDatetime haccepted
    have hyears : ScalarValue.YearsHaveFourDigits
        (.timestampMillisecond (some milliseconds) (some utcTimezone)) ↔
        HasFourDigitYear milliseconds := by
      refine ⟨fun hyears => hyears _ _ rfl, fun hyear other timezone heq => ?_⟩
      cases heq
      exact hyear
    rw [hyears]
    exact ⟨roundTrips_datetime_utf8_iff hchrono htime,
      roundTrips_datetime_json_iff hchrono hjson htime⟩
  | eid hlength =>
    exact hboth (fun _ _ heq => by cases heq) (roundTrips_eid_utf8 hlength)
      (roundTrips_eid_json hjson hlength)

end Casts

/-! ## A year of five digits -/

section Sample

/-- `serde_json`, as far as the grammar says it. -/
@[reducible] noncomputable def JsonText.strict : JsonText where
  fromStr text := (@JsonParser.parseValue SerdeJson.strict (2 * text.length)
    JsonParser.maximumJsonContainerDepth text).map Prod.fst
  numberFromStr := some
  toText _ := none
  stringText text := some (stringLiteral text)
  f32Text _ := none
  f64Text _ := none

/-- The printer of `chrono`. -/
@[reducible] def ChronoFormat.gregorian : ChronoFormat where
  toRfc3339 := timeText

/-- The reader of `chrono`, on the texts that are written. -/
@[reducible] def ChronoText.gregorian : ChronoText where
  parseFromRfc3339 text := (readTime text).map fun milliseconds =>
    ⟨(milliseconds % 1000).toNat * 1000000, milliseconds⟩

attribute [local instance] JsonText.strict FloatText.silent FloatArithmetic.zero Chrono.standard
  ChronoText.gregorian ChronoFormat.gregorian

theorem JsonText.fromStr_strict {text : Text} {value : Value} (h : IsValue 0 text value) :
    JsonText.fromStr text = some value := by
  have hread := @JsonParser.parseValue_complete SerdeJson.strict SerdeJson.faithful_strict
    (2 * text.length) JsonParser.maximumJsonContainerDepth 0 [] text [] value rfl le_rfl
    (fun _ hmem => absurd hmem List.not_mem_nil) h (fun _ _ _ hmem => by cases hmem)
  rw [List.nil_append, List.append_nil] at hread
  exact congrArg (Option.map Prod.fst) hread

theorem JsonText.readsScalars_strict : JsonText.ReadsScalars where
  bools value := by
    cases value
    · exact fromStr_strict .false
    · exact fromStr_strict .true
  integers number := fromStr_strict (isValue_integerText number)
  strings _ htext := fromStr_strict (.string (isString_stringLiteral htext))
  writes _ _ := rfl

theorem ChronoFormat.rfc3339_gregorian : ChronoFormat.Rfc3339 where
  utf8 milliseconds := isUtf8_of_ascii fun _ hmem =>
    of_decide_eq_true (List.all_eq_true.mp (timeText_ascii milliseconds) _ hmem)
  reads milliseconds h :=
    ⟨_, congrArg (Option.map _) (readTime_timeText h), Nat.mul_mod_left _ _, rfl⟩
  signs _ h := timeText_of_not_hasFourDigitYear h
  fourDigits rest :=
    ⟨congrArg (Option.map _) (readTime_cons_of_not_isDigit (by decide) rest),
      congrArg (Option.map _) (readTime_cons_of_not_isDigit (by decide) rest)⟩

/-- The first millisecond of the year 10000 is accepted as an event time. Its text has a sign, and
it is not cast back. -/
theorem year_tenThousand :
    ChronoFormat.Rfc3339 ∧
    parseDatetime (.number (Text.ofString "253402300800000")) .unixMilliseconds =
      some 253402300800000 ∧
    convertScalar (.timestampMillisecond (some 253402300800000) (some utcTimezone)) .datetime
      .utf8 = .ok (.utf8 (some (Text.ofString "+10000-01-01T00:00:00.000Z"))) ∧
    convertScalar (.utf8 (some (Text.ofString "+10000-01-01T00:00:00.000Z"))) .utf8 .datetime =
      .error .invalidCast := by
  refine ⟨ChronoFormat.rfc3339_gregorian, ?_, ?_, ?_⟩ <;> decide +kernel

/-- A boolean and the epoch come back, the epoch from "1970-01-01T00:00:00.000Z". -/
theorem roundTrips_samples :
    RoundTrips .utf8 .bool (.boolean (some true)) ∧
    ChronoFormat.toRfc3339 0 = Text.ofString "1970-01-01T00:00:00.000Z" ∧
    RoundTrips .json .datetime (.timestampMillisecond (some 0) (some utcTimezone)) := by
  refine ⟨(roundTrips_iff ChronoFormat.rfc3339_gregorian JsonText.readsScalars_strict
      (.bool true)).1.mpr (fun _ _ heq => by cases heq), by decide +kernel,
    (roundTrips_iff ChronoFormat.rfc3339_gregorian JsonText.readsScalars_strict
      (@Storable.datetime _ _ (.number (Text.ofString "0")) .unixMilliseconds 0
        (by decide +kernel))).2.mpr fun _ _ heq => ?_⟩
  cases heq
  decide

end Sample

end Elucid
