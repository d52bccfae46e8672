import Elucid.QuerySyntax
import Elucid.Normalization
import Elucid.TextEncoding

/-!
# The scalar functions of the engine

The engine gives DataFusion its own functions for casts and the remainder of a
record, all of them total in the sense that they return a value or a failure. Here they
are on one row, as `runtime.rs` has them.

JSON texts, RFC 3339 texts and floating point operations are those of the crates and the
machine (`JsonText`, `ChronoText`, `ChronoFormat`, `FloatText`, `FloatArithmetic`).
-/

namespace Elucid

open BigEndian

/-! ## Crates and the machine -/

/-- `serde_json`, on whole texts. -/
class JsonText where
  /-- `from_str::<Value>`. -/
  fromStr : Text → Option Value
  /-- `from_str::<Number>`, by the text that the number keeps. -/
  numberFromStr : Text → Option Text
  /-- `to_string` of a `Value`. -/
  toText : Value → Option Text
  /-- `to_string` of a `str`. -/
  stringText : Text → Option Text
  /-- `to_string` of an `f32`. -/
  f32Text : UInt32 → Option Text
  /-- `to_string` of an `f64`. -/
  f64Text : UInt64 → Option Text

/-- `DateTime::to_rfc3339_opts` with milliseconds. -/
class ChronoFormat where
  toRfc3339 : Int → Text

/-- The operations of a floating point type, on bits. -/
structure FloatOps (α : Type) where
  add : α → α → α
  sub : α → α → α
  mul : α → α → α
  div : α → α → α
  neg : α → α
  /-- `as`, from an integer. -/
  ofInt : Int → α
  /-- `partial_cmp`, which `==` and `<` go by. -/
  partialCmp : α → α → Option Ordering
  /-- The order in which arrow compares columns. -/
  order : α → α → Ordering

/-- `f32` and `f64`. -/
class FloatArithmetic where
  f32 : FloatOps UInt32
  f64 : FloatOps UInt64
  /-- `f64::from`. -/
  widen : UInt32 → UInt64
  /-- `as f32`. -/
  narrow : UInt64 → UInt32

/-! ## Values -/

/-- `ScalarValue`, as far as queries have it. -/
inductive ScalarValue
  | boolean (value : Option Bool)
  | int32 (value : Option Int)
  | int64 (value : Option Int)
  | uint32 (value : Option Int)
  | uint64 (value : Option Int)
  | float32 (value : Option UInt32)
  | float64 (value : Option UInt64)
  | utf8 (value : Option Text)
  | timestampMillisecond (value : Option Int) (timezone : Option Text)
  | fixedSizeBinary (size : Int) (value : Option Bytes)
  deriving DecidableEq

def utcTimezone : Text := Text.ofString "UTC"

namespace ScalarValue

/-- `ScalarValue::is_null`. -/
def isNull : ScalarValue → Bool
  | .boolean value => value.isNone
  | .int32 value => value.isNone
  | .int64 value => value.isNone
  | .uint32 value => value.isNone
  | .uint64 value => value.isNone
  | .float32 value => value.isNone
  | .float64 value => value.isNone
  | .utf8 value => value.isNone
  | .timestampMillisecond value _ => value.isNone
  | .fixedSizeBinary _ value => value.isNone

/-- The value of an integer type. -/
def integer : IntegerType → Int → ScalarValue
  | .int32, value => .int32 (some value)
  | .int64, value => .int64 (some value)
  | .uint32, value => .uint32 (some value)
  | .uint64, value => .uint64 (some value)

end ScalarValue

inductive RuntimeFailureKind
  | cast
  | evaluation
  | execution
  deriving DecidableEq, Repr

inductive InvalidCast
  | invalidCast
  deriving DecidableEq, Repr

/-- `null_scalar`. -/
def nullScalar : LogicalType → ScalarValue
  | .bool => .boolean none
  | .int32 => .int32 none
  | .int64 => .int64 none
  | .uint32 => .uint32 none
  | .uint64 => .uint64 none
  | .float32 => .float32 none
  | .float64 => .float64 none
  | .utf8 => .utf8 none
  | .json => .utf8 none
  | .datetime => .timestampMillisecond none (some utcTimezone)
  | .eid => .fixedSizeBinary 16 none

@[simp] theorem isNull_nullScalar (logicalType : LogicalType) :
    (nullScalar logicalType).isNull = true := by
  cases logicalType <;> rfl

/-! ## The remainder of a record -/

/-- `evaluate_remainder`. -/
def evaluateRemainder [JsonText] (function : RemainderFunction) (key : Text) (value : ScalarValue) :
    Except RuntimeFailureKind ScalarValue :=
  match value with
  | .utf8 none =>
    match function with
    | .value => .ok (.utf8 none)
    | .exists => .ok (.boolean (some false))
  | .utf8 (some remainder) =>
    match JsonText.fromStr remainder with
    | some (.object entries) =>
      match function with
      | .value =>
        match lookupEntry key entries with
        | none => .ok (.utf8 none)
        | some value =>
          (okOr (JsonText.toText value) .execution).map fun text => .utf8 (some text)
      | .exists => .ok (.boolean (some (lookupEntry key entries).isSome))
    | _ => .error .execution
  | _ => .error .execution

/-! ## Numbers -/

inductive NumericValue
  | signed (value : Int)
  | unsigned (value : Int)
  | float32 (value : UInt32)
  | float64 (value : UInt64)
  deriving DecidableEq

/-- The bits of a `u64` without its leading zeros. -/
def significantBits (value : Nat) : Nat := if value = 0 then 0 else Nat.log2 value + 1

/-- `integer_is_exact` : the bits behind the mantissa are zeros. -/
def integerIsExact (value mantissaDigits : Nat) : Bool :=
  significantBits value ≤ mantissaDigits ||
    value % 2 ^ (significantBits value - mantissaDigits) == 0

/-- `float_to_i32` and its like : the integer of a finite binary64 without a fraction that
is in a range. -/
def floatToInteger (accepts : ℚ → Prop) [DecidablePred accepts] (bits : UInt64) :
    Except InvalidCast Int :=
  if isFiniteF64 bits ∧ (Binary64.value bits).den = 1 ∧ accepts (Binary64.value bits) then
    .ok (Binary64.value bits).num
  else .error .invalidCast

def floatToI32 : UInt64 → Except InvalidCast Int :=
  floatToInteger fun value => -2 ^ 31 ≤ value ∧ value ≤ 2 ^ 31 - 1

def floatToI64 : UInt64 → Except InvalidCast Int :=
  floatToInteger fun value => -9223372036854775808 ≤ value ∧ value < 9223372036854775808

def floatToU32 : UInt64 → Except InvalidCast Int :=
  floatToInteger fun value => 0 ≤ value ∧ value ≤ 2 ^ 32 - 1

def floatToU64 : UInt64 → Except InvalidCast Int :=
  floatToInteger fun value => 0 ≤ value ∧ value < 18446744073709551616

section Numbers

variable [FloatArithmetic]

def toI32 : NumericValue → Except InvalidCast Int
  | .signed value => okOr (IntegerType.int32.tryFrom value) .invalidCast
  | .unsigned value => okOr (IntegerType.int32.tryFrom value) .invalidCast
  | .float32 value => floatToI32 (FloatArithmetic.widen value)
  | .float64 value => floatToI32 value

def toI64 : NumericValue → Except InvalidCast Int
  | .signed value => .ok value
  | .unsigned value => okOr (IntegerType.int64.tryFrom value) .invalidCast
  | .float32 value => floatToI64 (FloatArithmetic.widen value)
  | .float64 value => floatToI64 value

def toU32 : NumericValue → Except InvalidCast Int
  | .signed value => okOr (IntegerType.uint32.tryFrom value) .invalidCast
  | .unsigned value => okOr (IntegerType.uint32.tryFrom value) .invalidCast
  | .float32 value => floatToU32 (FloatArithmetic.widen value)
  | .float64 value => floatToU32 value

def toU64 : NumericValue → Except InvalidCast Int
  | .signed value => okOr (IntegerType.uint64.tryFrom value) .invalidCast
  | .unsigned value => .ok value
  | .float32 value => floatToU64 (FloatArithmetic.widen value)
  | .float64 value => floatToU64 value

/-- `to_f32`. -/
def toF32 (value : NumericValue) : Except InvalidCast UInt32 := do
  let converted ← match value with
    | .signed value =>
      if integerIsExact value.natAbs 24 then .ok (FloatArithmetic.f32.ofInt value)
      else .error .invalidCast
    | .unsigned value =>
      if integerIsExact value.natAbs 24 then .ok (FloatArithmetic.f32.ofInt value)
      else .error .invalidCast
    | .float32 value => .ok value
    | .float64 value =>
      let converted := FloatArithmetic.narrow value
      if FloatArithmetic.f64.partialCmp (FloatArithmetic.widen converted) value = some .eq then
        .ok converted
      else .error .invalidCast
  if isFiniteF32 converted then .ok converted else .error .invalidCast

/-- `to_f64`. -/
def toF64 (value : NumericValue) : Except InvalidCast UInt64 := do
  let converted ← match value with
    | .signed value =>
      if integerIsExact value.natAbs 53 then .ok (FloatArithmetic.f64.ofInt value)
      else .error .invalidCast
    | .unsigned value =>
      if integerIsExact value.natAbs 53 then .ok (FloatArithmetic.f64.ofInt value)
      else .error .invalidCast
    | .float32 value => .ok (FloatArithmetic.widen value)
    | .float64 value => .ok value
  if isFiniteF64 converted then .ok converted else .error .invalidCast

/-- `numeric_to_scalar`. -/
def numericToScalar (value : NumericValue) : LogicalType → Except InvalidCast ScalarValue
  | .int32 => (toI32 value).map (.integer .int32)
  | .int64 => (toI64 value).map (.integer .int64)
  | .uint32 => (toU32 value).map (.integer .uint32)
  | .uint64 => (toU64 value).map (.integer .uint64)
  | .float32 => (toF32 value).map fun value => .float32 (some value)
  | .float64 => (toF64 value).map fun value => .float64 (some value)
  | _ => .error .invalidCast

end Numbers

/-- `numeric_value`. -/
def numericValue (value : ScalarValue) (source : LogicalType) : Except InvalidCast NumericValue :=
  match source, value with
  | .int32, .int32 (some value) => .ok (.signed value)
  | .int64, .int64 (some value) => .ok (.signed value)
  | .uint32, .uint32 (some value) => .ok (.unsigned value)
  | .uint64, .uint64 (some value) => .ok (.unsigned value)
  | .float32, .float32 (some value) =>
    if isFiniteF32 value then .ok (.float32 value) else .error .invalidCast
  | .float64, .float64 (some value) =>
    if isFiniteF64 value then .ok (.float64 value) else .error .invalidCast
  | _, _ => .error .invalidCast

/-- `Number::as_f64` : no infinity is a number. -/
def asF64 [FloatText] (text : Text) : Option UInt64 :=
  (FloatText.parseF64 text).filter isFiniteF64

/-- `json_number`, on the text of the number. -/
def jsonNumber [FloatText] (text : Text) : Except InvalidCast NumericValue :=
  match parseI64 text with
  | some value => .ok (.signed value)
  | none =>
    match parseU64 text with
    | some value => .ok (.unsigned value)
    | none => (okOr ((asF64 text).filter isFiniteF64) .invalidCast).map .float64

/-! ## Texts -/

/-- The decimal text of an integer. -/
def integerText (value : Int) : Text :=
  if value < 0 then 0x2D :: decimalText value.natAbs else decimalText value.natAbs

/-- `bool::to_string`. -/
def boolText (value : Bool) : Text := Text.ofString (if value then "true" else "false")

/-- `from_str` of an integer type. -/
def IntegerType.fromStr (t : IntegerType) (text : Text) : Option Int :=
  match text with
  | 0x2D :: digits => do
    let value ← digitsValue digits
    if t.minimum < 0 then t.tryFrom (-value) else none
  | 0x2B :: digits => do
    let value ← digitsValue digits
    t.tryFrom value
  | digits => do
    let value ← digitsValue digits
    t.tryFrom value

def validSignedDecimal (text : Text) : Bool :=
  let digits := match text with
    | 0x2D :: digits => digits
    | digits => digits
  !digits.isEmpty && digits.all isDigit

def validUnsignedDecimal (text : Text) : Bool := !text.isEmpty && text.all isDigit

def hexValue (byte : UInt8) : Option UInt8 :=
  if 0x30 ≤ byte ∧ byte ≤ 0x39 then some (byte - 0x30)
  else if 0x61 ≤ byte ∧ byte ≤ 0x66 then some (byte - 0x61 + 10)
  else none

/-- The loop of `EventId::from_str`. -/
def hexPairs : Text → Option Bytes
  | high :: low :: rest => do
    let high ← hexValue high
    let low ← hexValue low
    let bytes ← hexPairs rest
    return (high * 16 + low) :: bytes
  | _ => some []

/-- `EventId::from_str`. -/
def EventId.fromStr (text : Text) : Option EventId :=
  if text.length ≠ 32 then none else (hexPairs text).map .mk

/-- `EventId::try_from`. -/
def EventId.tryFrom (bytes : Bytes) : Option EventId :=
  if bytes.length = 16 then some ⟨bytes⟩ else none

def parseJsonFloat [JsonText] [FloatText] (text : Text) : Except InvalidCast UInt64 := do
  let number ← okOr (JsonText.numberFromStr text) .invalidCast
  okOr ((asF64 number).filter isFiniteF64) .invalidCast

/-- `utf8_to_scalar`. -/
def utf8ToScalar [JsonText] [FloatText] [FloatArithmetic] [ChronoText] (value : ScalarValue)
    (target : LogicalType) : Except InvalidCast ScalarValue :=
  match value with
  | .utf8 (some text) =>
    match target with
    | .bool =>
      if text = Text.ofString "true" then .ok (.boolean (some true))
      else if text = Text.ofString "false" then .ok (.boolean (some false))
      else .error .invalidCast
    | .int32 =>
      if validSignedDecimal text then
        (okOr (IntegerType.int32.fromStr text) .invalidCast).map (.integer .int32)
      else .error .invalidCast
    | .int64 =>
      if validSignedDecimal text then
        (okOr (IntegerType.int64.fromStr text) .invalidCast).map (.integer .int64)
      else .error .invalidCast
    | .uint32 =>
      if validUnsignedDecimal text then
        (okOr (IntegerType.uint32.fromStr text) .invalidCast).map (.integer .uint32)
      else .error .invalidCast
    | .uint64 =>
      if validUnsignedDecimal text then
        (okOr (IntegerType.uint64.fromStr text) .invalidCast).map (.integer .uint64)
      else .error .invalidCast
    | .float32 => do
      let value := FloatArithmetic.narrow (← parseJsonFloat text)
      if isFiniteF32 value then .ok (.float32 (some value)) else .error .invalidCast
    | .float64 => (parseJsonFloat text).map fun value => .float64 (some value)
    | .datetime => do
      let parsed ← okOr (ChronoText.parseFromRfc3339 text) .invalidCast
      if parsed.nanosecond % 1000000 ≠ 0 then .error .invalidCast
      else .ok (.timestampMillisecond (some parsed.timestampMillis) (some utcTimezone))
    | .eid =>
      (okOr (EventId.fromStr text) .invalidCast).map fun value =>
        .fixedSizeBinary 16 (some value.bytes)
    | _ => .error .invalidCast
  | _ => .error .invalidCast

/-- `scalar_to_utf8`. -/
def scalarToUtf8 [JsonText] [Chrono] [ChronoFormat] (value : ScalarValue) (source : LogicalType) :
    Except InvalidCast Text :=
  match source, value with
  | .bool, .boolean (some value) => .ok (boolText value)
  | .int32, .int32 (some value) => .ok (integerText value)
  | .int64, .int64 (some value) => .ok (integerText value)
  | .uint32, .uint32 (some value) => .ok (integerText value)
  | .uint64, .uint64 (some value) => .ok (integerText value)
  | .float32, .float32 (some value) =>
    if isFiniteF32 value then okOr (JsonText.f32Text value) .invalidCast else .error .invalidCast
  | .float64, .float64 (some value) =>
    if isFiniteF64 value then okOr (JsonText.f64Text value) .invalidCast else .error .invalidCast
  | .utf8, .utf8 (some value) => .ok value
  | .datetime, .timestampMillisecond (some value) (some timezone) =>
    if timezone = utcTimezone ∧ Chrono.fromTimestampMillis value = true then
      .ok (ChronoFormat.toRfc3339 value)
    else .error .invalidCast
  | .eid, .fixedSizeBinary size (some value) =>
    if size = 16 then (okOr (EventId.tryFrom value) .invalidCast).map fun value => hexText value.bytes
    else .error .invalidCast
  | _, _ => .error .invalidCast

/-- `scalar_to_json`. -/
def scalarToJson [JsonText] [Chrono] [ChronoFormat] (value : ScalarValue) (source : LogicalType) :
    Except InvalidCast Text :=
  match source with
  | .utf8 | .datetime | .eid => do
    let text ← scalarToUtf8 value source
    okOr (JsonText.stringText text) .invalidCast
  | .bool | .int32 | .int64 | .uint32 | .uint64 | .float32 | .float64 => scalarToUtf8 value source
  | .json => .error .invalidCast

/-! ## Casts -/

section Casts

variable [JsonText] [FloatText] [FloatArithmetic] [Chrono] [ChronoText] [ChronoFormat]

/-- `convert_non_json`. -/
def convertNonJson (value : ScalarValue) (source target : LogicalType) :
    Except InvalidCast ScalarValue :=
  if source = target then .ok value
  else if target = .json then (scalarToJson value source).map fun text => .utf8 (some text)
  else if target = .utf8 then (scalarToUtf8 value source).map fun text => .utf8 (some text)
  else if source = .utf8 then utf8ToScalar value target
  else if source.isNumeric ∧ target.isNumeric then do
    let number ← numericValue value source
    numericToScalar number target
  else .error .invalidCast

/-- `convert_json`. -/
def convertJson (value : ScalarValue) (target : LogicalType) : Except InvalidCast ScalarValue :=
  match value with
  | .utf8 (some encoded) => do
    let json ← okOr (JsonText.fromStr encoded) .invalidCast
    if target = .json then .ok value
    else
      match json with
      | .null => .ok (nullScalar target)
      | .bool value => convertNonJson (.boolean (some value)) .bool target
      | .string value => convertNonJson (.utf8 (some value)) .utf8 target
      | .number text =>
        if target.isNumeric then do
          let number ← jsonNumber text
          numericToScalar number target
        else .error .invalidCast
      | .array _ => .error .invalidCast
      | .object _ => .error .invalidCast
  | _ => .error .invalidCast

def convertScalar (value : ScalarValue) (source target : LogicalType) :
    Except InvalidCast ScalarValue :=
  if value.isNull then .ok (nullScalar target)
  else if source = .json then convertJson value target
  else convertNonJson value source target

end Casts

end Elucid
