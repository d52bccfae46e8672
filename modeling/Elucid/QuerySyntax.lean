import Elucid.NumberText

/-!
# Queries

The query as the parser leaves it (`Ast`), and the typed pipeline that semantic analysis
makes of it (`Ir`). A node of the pipeline carries the type and the nullability that it
was given, next to its children.

Machine integers are `Int`, and `IntegerType` says which ones a type holds. Floating point
values are their bits. The magnitude of an integer literal is the `u64` that the parser
read.
-/

namespace Elucid

/-! ## Machine integers -/

/-- The integer types of a query. -/
inductive IntegerType
  | int32
  | int64
  | uint32
  | uint64
  deriving DecidableEq, Repr

namespace IntegerType

/-- `MIN`. -/
def minimum : IntegerType → Int
  | .int32 => -2 ^ 31
  | .int64 => -2 ^ 63
  | .uint32 => 0
  | .uint64 => 0

/-- `MAX`. -/
def maximum : IntegerType → Int
  | .int32 => 2 ^ 31 - 1
  | .int64 => 2 ^ 63 - 1
  | .uint32 => 2 ^ 32 - 1
  | .uint64 => 2 ^ 64 - 1

/-- The integers of a type. -/
def Holds (t : IntegerType) (value : Int) : Prop := t.minimum ≤ value ∧ value ≤ t.maximum

instance (t : IntegerType) (value : Int) : Decidable (t.Holds value) :=
  inferInstanceAs (Decidable (_ ∧ _))

theorem holds_int32 {value : Int} :
    int32.Holds value ↔ -2 ^ 31 ≤ value ∧ value ≤ 2 ^ 31 - 1 := Iff.rfl

theorem holds_int64 {value : Int} :
    int64.Holds value ↔ -2 ^ 63 ≤ value ∧ value ≤ 2 ^ 63 - 1 := Iff.rfl

theorem holds_uint32 {value : Int} : uint32.Holds value ↔ 0 ≤ value ∧ value ≤ 2 ^ 32 - 1 := Iff.rfl

theorem holds_uint64 {value : Int} : uint64.Holds value ↔ 0 ≤ value ∧ value ≤ 2 ^ 64 - 1 := Iff.rfl

/-- `try_from`, and the result of a checked operation. -/
def tryFrom (t : IntegerType) (value : Int) : Option Int := if t.Holds value then some value else none

theorem tryFrom_eq_some {t : IntegerType} {value result : Int} :
    t.tryFrom value = some result ↔ t.Holds value ∧ value = result := by
  unfold tryFrom
  split_ifs with h <;> simp [h]

def checkedAdd (t : IntegerType) (left right : Int) : Option Int := t.tryFrom (left + right)

def checkedSub (t : IntegerType) (left right : Int) : Option Int := t.tryFrom (left - right)

def checkedMul (t : IntegerType) (left right : Int) : Option Int := t.tryFrom (left * right)

/-- `checked_div` : towards zero. -/
def checkedDiv (t : IntegerType) (left right : Int) : Option Int :=
  if right = 0 then none else t.tryFrom (left.tdiv right)

def checkedNeg (t : IntegerType) (value : Int) : Option Int := t.tryFrom (-value)

/-- The logical type of the integers. -/
def logicalType : IntegerType → LogicalType
  | .int32 => .int32
  | .int64 => .int64
  | .uint32 => .uint32
  | .uint64 => .uint64

end IntegerType

/-- `Span` : the bytes of a query that something was read from. -/
structure Span where
  start : Nat
  stop : Nat
  deriving DecidableEq, Repr

/-! ## Operators -/

inductive UnaryOperator
  | not
  | negate
  deriving DecidableEq, Repr

inductive BinaryOperator
  | add
  | subtract
  | multiply
  | divide
  | equal
  | notEqual
  | greaterThan
  | greaterThanOrEqual
  | lessThan
  | lessThanOrEqual
  | and
  | or
  deriving DecidableEq, Repr

inductive RemainderFunction
  | value
  | exists
  deriving DecidableEq, Repr

/-! ## Parsed queries -/

namespace Ast

/-- `Identifier` and `SystemIdentifier`. -/
structure Identifier where
  value : Text
  span : Span
  deriving DecidableEq

inductive FieldReference
  | user (identifier : Identifier)
  | system (identifier : Identifier)
  deriving DecidableEq

/-- `FieldReference::as_str`. -/
def FieldReference.asStr : FieldReference → Text
  | .user identifier => identifier.value
  | .system identifier => identifier.value

/-- `FieldReference::span`. -/
def FieldReference.span : FieldReference → Span
  | .user identifier => identifier.span
  | .system identifier => identifier.span

structure StringLiteral where
  value : Text
  span : Span
  deriving DecidableEq

inductive LiteralKind
  | null
  | boolean (value : Bool)
  | integer (magnitude : UInt64)
  | floatingPoint (value : Text)
  | string (value : Text)
  deriving DecidableEq

inductive NumericSign
  | nonNegative
  | negative
  deriving DecidableEq, Repr

inductive NumericLiteralKind
  | integer (magnitude : UInt64)
  | floatingPoint (value : Text)
  deriving DecidableEq

structure SignedNumericLiteral where
  sign : NumericSign
  kind : NumericLiteralKind
  deriving DecidableEq

inductive NumericType
  | int32
  | int64
  | uint32
  | uint64
  | float32
  | float64
  deriving DecidableEq, Repr

inductive ConstructorKind
  | numeric (target : NumericType) (literal : SignedNumericLiteral)
  | datetime (value : StringLiteral)
  | eid (value : StringLiteral)
  deriving DecidableEq

structure Constructor where
  kind : ConstructorKind
  span : Span
  deriving DecidableEq

inductive CastKind
  | strict
  | nullOnFailure
  deriving DecidableEq, Repr

structure RemainderExpression where
  function : RemainderFunction
  key : StringLiteral
  span : Span
  deriving DecidableEq

/-- `Expression`. The last span of a node is the one of the expression. -/
inductive Expression
  | literal (kind : LiteralKind) (span : Span)
  | field (reference : FieldReference) (span : Span)
  | constructor (constructor : Constructor) (span : Span)
  | cast (kind : CastKind) (expression : Expression) (target : LogicalType) (castSpan span : Span)
  | remainder (access : RemainderExpression) (span : Span)
  | unary (operator : UnaryOperator) (operand : Expression) (span : Span)
  | binary (operator : BinaryOperator) (left right : Expression) (span : Span)
  deriving DecidableEq

inductive TimeUnit
  | second
  | minute
  | hour
  | day
  deriving DecidableEq, Repr

inductive TimeDirection
  | forward
  | backward
  deriving DecidableEq, Repr

/-- `TimeOperationKind`. The magnitude is a `NonZeroU64`, and that it is not zero is not
used. -/
inductive TimeOperation
  | truncate (unit : TimeUnit)
  | shift (direction : TimeDirection) (magnitude : UInt64) (unit : TimeUnit)
  deriving DecidableEq

inductive TimeExpressionKind
  | datetime (value : StringLiteral)
  | now
  | relative (operations : List TimeOperation)
  deriving DecidableEq

structure TimeExpression where
  kind : TimeExpressionKind
  span : Span
  deriving DecidableEq

structure SourceExpression where
  name : Identifier
  startInclusive : Option TimeExpression
  endExclusive : Option TimeExpression
  span : Span
  deriving DecidableEq

end Ast

/-! ## Typed pipelines -/

namespace Ir

structure UtcInstant where
  unixMilliseconds : Int
  deriving DecidableEq, Repr

inductive Literal
  | null (logicalType : LogicalType)
  | boolean (value : Bool)
  | int32 (value : Int)
  | int64 (value : Int)
  | uint32 (value : Int)
  | uint64 (value : Int)
  | float32 (value : UInt32)
  | float64 (value : UInt64)
  | utf8 (value : Text)
  | datetime (value : UtcInstant)
  | eid (value : EventId)
  deriving DecidableEq

/-- `Literal::logical_type`. -/
def Literal.logicalType : Literal → LogicalType
  | .null logicalType => logicalType
  | .boolean _ => .bool
  | .int32 _ => .int32
  | .int64 _ => .int64
  | .uint32 _ => .uint32
  | .uint64 _ => .uint64
  | .float32 _ => .float32
  | .float64 _ => .float64
  | .utf8 _ => .utf8
  | .datetime _ => .datetime
  | .eid _ => .eid

/-- `Literal::nullability`. -/
def Literal.nullability : Literal → Nullability
  | .null _ => .nullable
  | _ => .nonNull

/-- The literal of an integer type. -/
def Literal.integer : IntegerType → Int → Literal
  | .int32 => .int32
  | .int64 => .int64
  | .uint32 => .uint32
  | .uint64 => .uint64

inductive CastKind
  | lossless
  | strict
  | nullOnFailure
  deriving DecidableEq, Repr

inductive NullPredicate
  | isNull
  | isNotNull
  deriving DecidableEq, Repr

inductive FieldOrigin
  | schema (fieldId : FieldId)
  | system (fieldId : FieldId)
  | derived (declarationSpan : Span)
  deriving DecidableEq

structure Field where
  name : Text
  logicalType : LogicalType
  nullability : Nullability
  origin : FieldOrigin
  deriving DecidableEq

structure Relation where
  fields : List Field
  deriving DecidableEq

/-- `Relation::field`. -/
def Relation.field (relation : Relation) (name : Text) : Option Field :=
  relation.fields.find? fun field => field.name = name

/-- `Expression` : its kind, and behind it the type and the nullability. -/
inductive Expression
  | literal (literal : Literal) (logicalType : LogicalType) (nullability : Nullability)
  | field (field : Field) (logicalType : LogicalType) (nullability : Nullability)
  | unary (operator : UnaryOperator) (operand : Expression)
      (logicalType : LogicalType) (nullability : Nullability)
  | binary (operator : BinaryOperator) (left right : Expression)
      (logicalType : LogicalType) (nullability : Nullability)
  | cast (kind : CastKind) (expression : Expression) (target : LogicalType)
      (logicalType : LogicalType) (nullability : Nullability)
  | remainder (function : RemainderFunction) (remainder : Field) (key : Text)
      (logicalType : LogicalType) (nullability : Nullability)
  | nullPredicate (expression : Expression) (predicate : NullPredicate)
      (logicalType : LogicalType) (nullability : Nullability)
  deriving DecidableEq

namespace Expression

/-- `Expression::logical_type`. -/
def logicalType : Expression → LogicalType
  | .literal _ logicalType _ => logicalType
  | .field _ logicalType _ => logicalType
  | .unary _ _ logicalType _ => logicalType
  | .binary _ _ _ logicalType _ => logicalType
  | .cast _ _ _ logicalType _ => logicalType
  | .remainder _ _ _ logicalType _ => logicalType
  | .nullPredicate _ _ logicalType _ => logicalType

/-- `Expression::nullability`. -/
def nullability : Expression → Nullability
  | .literal _ _ nullability => nullability
  | .field _ _ nullability => nullability
  | .unary _ _ _ nullability => nullability
  | .binary _ _ _ _ nullability => nullability
  | .cast _ _ _ _ nullability => nullability
  | .remainder _ _ _ _ nullability => nullability
  | .nullPredicate _ _ _ nullability => nullability

/-- `Expression::literal`. -/
def ofLiteral (literal : Literal) : Expression :=
  .literal literal literal.logicalType literal.nullability

/-- `Expression::field`. -/
def ofField (field : Field) : Expression := .field field field.logicalType field.nullability

end Expression

/-- `TimeRange`, as `TimeRange::new` makes it. -/
@[ext] structure TimeRange where
  startInclusive : UtcInstant
  endExclusive : UtcInstant
  start_lt_end : startInclusive.unixMilliseconds < endExclusive.unixMilliseconds

/-- `TimeRange::new`. -/
def TimeRange.new (startInclusive endExclusive : UtcInstant) : Option TimeRange :=
  if h : startInclusive.unixMilliseconds < endExclusive.unixMilliseconds then
    some ⟨startInclusive, endExclusive, h⟩
  else none

end Ir

/-- `LogicalType::as_str`. -/
def LogicalType.asStr : LogicalType → String
  | .bool => "bool"
  | .int32 => "int32"
  | .int64 => "int64"
  | .uint32 => "uint32"
  | .uint64 => "uint64"
  | .float32 => "float32"
  | .float64 => "float64"
  | .utf8 => "utf8"
  | .datetime => "datetime"
  | .eid => "eid"
  | .json => "json"

/-- `is_numeric`. -/
def LogicalType.isNumeric : LogicalType → Bool
  | .int32 => true
  | .int64 => true
  | .uint32 => true
  | .uint64 => true
  | .float32 => true
  | .float64 => true
  | _ => false

/-- `is_integer`. -/
def LogicalType.isInteger : LogicalType → Bool
  | .int32 => true
  | .int64 => true
  | .uint32 => true
  | .uint64 => true
  | _ => false

end Elucid
