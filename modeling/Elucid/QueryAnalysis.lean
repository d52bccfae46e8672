import Elucid.EngineRuntime
import Elucid.CatalogSchema

/-!
# Semantic analysis

Analysis resolves the names of a parsed query against the active schema of its source,
gives every expression a type and a nullability, and evaluates what is constant. Literals
take the type that their context expects, and operands of different numeric types are
widened where that loses nothing.

Where the source asks whether an expression is a literal, in order to fold it, the model
asks `Folding.literal?`. With `Folding.fold` that is the source. With `Folding.keep` no
expression counts as a literal, and the result is the typed expression as it was written.

The `Vec` of diagnostics that the source passes along is left out : nothing is ever added
to it, and an error ends the analysis.
-/

namespace Elucid

/-- The `{:?}` of a `str`. -/
class RustFormat where
  debugStr : Text → Text

/-! ## Diagnostics -/

inductive DiagnosticCode
  | syntaxError
  | sourceNotFound
  | fieldNotFound
  | timeExpressionInvalid
  | timeBoundUnresolved
  | timeRangeInvalid
  | literalInvalid
  | functionArityInvalid
  | functionArgumentTypeInvalid
  | castInvalid
  | projectionAliasRequired
  | aggregateAliasRequired
  | duplicateOutputField
  | stageOrderInvalid
  | takeInvalid
  | typeMismatch
  | constantEvaluationFailed
  deriving DecidableEq, Repr

/-- `Diagnostic`, of severity `Error`. -/
structure Diagnostic where
  code : DiagnosticCode
  message : Text
  span : Span
  deriving DecidableEq

/-- `Diagnostic::error`, on a plain message. -/
def Diagnostic.error (code : DiagnosticCode) (message : String) (span : Span) : Diagnostic :=
  ⟨code, Text.ofString message, span⟩

def literalInvalid (message : String) (span : Span) : Diagnostic :=
  .error .literalInvalid message span

def typeMismatch (message : String) (span : Span) : Diagnostic :=
  .error .typeMismatch message span

def constantEvaluationFailed (message : String) (span : Span) : Diagnostic :=
  .error .constantEvaluationFailed message span

/-! ## Types -/

/-- `can_widen`. -/
def canWiden (source target : LogicalType) : Bool :=
  source = target ||
    match source, target with
    | .int32, .int64 => true
    | .int32, .float64 => true
    | .uint32, .uint64 => true
    | .uint32, .float64 => true
    | .float32, .float64 => true
    | _, _ => false

def commonNumericType (left right : LogicalType) : Option LogicalType :=
  [LogicalType.int32, .uint32, .int64, .uint64, .float32, .float64].find? fun candidate =>
    canWiden left candidate && canWiden right candidate

/-- `cast_is_defined`. -/
def castIsDefined (source target : LogicalType) : Bool :=
  source = target || source.isNumeric && target.isNumeric || target = .json || source = .json ||
    target = .utf8 ||
    source = .utf8 &&
      match target with
      | .bool => true
      | .int32 => true
      | .int64 => true
      | .uint32 => true
      | .uint64 => true
      | .float32 => true
      | .float64 => true
      | .datetime => true
      | .eid => true
      | _ => false

/-- The types that `convert_unary` negates. -/
def LogicalType.isNegatable : LogicalType → Bool
  | .int32 => true
  | .int64 => true
  | .float32 => true
  | .float64 => true
  | _ => false

def combineNullability (left right : Nullability) : Nullability :=
  if left = .nullable ∨ right = .nullable then .nullable else .nonNull

/-- `numeric_type`. -/
def Ast.NumericType.logicalType : Ast.NumericType → LogicalType
  | .int32 => .int32
  | .int64 => .int64
  | .uint32 => .uint32
  | .uint64 => .uint64
  | .float32 => .float32
  | .float64 => .float64

def Ast.Expression.isNullLiteral : Ast.Expression → Bool
  | .literal .null _ => true
  | _ => false

/-- `needs_context`. -/
def Ast.Expression.needsContext : Ast.Expression → Bool
  | .literal (.integer _) _ => true
  | .literal .null _ => true
  | .unary .negate operand _ => operand.needsContext
  | .binary .add left right _ => left.needsContext && right.needsContext
  | .binary .subtract left right _ => left.needsContext && right.needsContext
  | .binary .multiply left right _ => left.needsContext && right.needsContext
  | .binary .divide left right _ => left.needsContext && right.needsContext
  | _ => false

/-! ## Literals -/

inductive IntegerLiteralSite
  | expression
  | constructor
  deriving DecidableEq, Repr

/-- A signed integer literal of a signed type. -/
def signedLiteral (t : IntegerType) (magnitude : UInt64) (negative : Bool) (message : String)
    (span : Span) : Except Diagnostic Ir.Literal :=
  let value : Int := if negative then -magnitude.toNat else magnitude.toNat
  (okOr (t.tryFrom value) (literalInvalid message span)).map (.integer t)

/-- The signs that an unsigned type refuses. -/
def refuseSign (leadingMinus negative : Bool) (site : IntegerLiteralSite) (span : Span) :
    Except Diagnostic Unit := do
  ensure (¬(site = .constructor ∧ leadingMinus))
    (literalInvalid "unsigned constructor does not accept a leading minus" span)
  ensure (negative = false)
    (typeMismatch "negative expression cannot acquire an unsigned type" span)

section Literals

variable [FloatArithmetic] [FloatText] [ChronoText]

/-- A float, negated if asked to. -/
def signedFloat {α : Type} (ops : FloatOps α) (negative : Bool) (value : α) : α :=
  if negative then ops.neg value else value

/-- `integer_literal`. -/
def integerLiteral (magnitude : UInt64) (sign : Ast.NumericSign) (expected : Option LogicalType)
    (span : Span) (site : IntegerLiteralSite) : Except Diagnostic Ir.Literal :=
  let leadingMinus : Bool := sign = .negative
  let negative : Bool := leadingMinus && magnitude != 0
  match expected.getD .int64 with
  | .int32 => signedLiteral .int32 magnitude negative "integer literal is outside int32" span
  | .int64 => signedLiteral .int64 magnitude negative "integer literal is outside int64" span
  | .uint32 => do
    refuseSign leadingMinus negative site span
    (okOr (IntegerType.uint32.tryFrom magnitude.toNat)
      (literalInvalid "integer literal is outside uint32" span)).map (.integer .uint32)
  | .uint64 => do
    refuseSign leadingMinus negative site span
    return .integer .uint64 magnitude.toNat
  | .float32 =>
    if integerIsExact magnitude.toNat 24 then
      .ok (.float32 (signedFloat FloatArithmetic.f32 negative
        (FloatArithmetic.f32.ofInt magnitude.toNat)))
    else .error (literalInvalid
      "integer literal is not exactly representable in the contextual floating type" span)
  | .float64 =>
    if integerIsExact magnitude.toNat 53 then
      .ok (.float64 (signedFloat FloatArithmetic.f64 negative
        (FloatArithmetic.f64.ofInt magnitude.toNat)))
    else .error (literalInvalid
      "integer literal is not exactly representable in the contextual floating type" span)
  | .bool | .utf8 | .datetime | .eid | .json =>
    .error (typeMismatch "integer literal requires a numeric contextual type" span)

/-- `convert_literal`. -/
def convertLiteral (kind : Ast.LiteralKind) (expected : Option LogicalType) (span : Span) :
    Except Diagnostic Ir.Expression := do
  let literal ← match kind with
    | .null =>
      (okOr expected (typeMismatch "null literal has no unique contextual type" span)).map
        Ir.Literal.null
    | .boolean value => .ok (.boolean value)
    | .integer magnitude => integerLiteral magnitude .nonNegative expected span .expression
    | .floatingPoint text => do
      let value ← okOr (FloatText.parseF64 text)
        (literalInvalid "floating-point literal is not representable" span)
      if isFiniteF64 value then .ok (.float64 value)
      else .error (literalInvalid "floating-point literal must be finite" span)
    | .string value => .ok (.utf8 value)
  return .ofLiteral literal

/-- `floating_constructor_from_integer`. -/
def floatingConstructorFromInteger (magnitude : UInt64) (sign : Ast.NumericSign)
    (target : LogicalType) (span : Span) : Except Diagnostic Ir.Literal :=
  let negative : Bool := sign = .negative
  match target with
  | .float32 =>
    let value := FloatArithmetic.f32.ofInt magnitude.toNat
    if isFiniteF32 value then .ok (.float32 (signedFloat FloatArithmetic.f32 negative value))
    else .error (literalInvalid "float32 constructor is non-finite" span)
  | .float64 =>
    .ok (.float64 (signedFloat FloatArithmetic.f64 negative
      (FloatArithmetic.f64.ofInt magnitude.toNat)))
  | _ => .error (literalInvalid "floating constructor requires a floating target" span)

/-- `floating_constructor`. -/
def floatingConstructor (token : Text) (sign : Ast.NumericSign) (target : LogicalType)
    (span : Span) : Except Diagnostic Ir.Literal :=
  let negative : Bool := sign = .negative
  match target with
  | .float32 => do
    let value ← okOr (FloatText.parseF32 token)
      (literalInvalid "float32 constructor is invalid" span)
    if isFiniteF32 value then .ok (.float32 (signedFloat FloatArithmetic.f32 negative value))
    else .error (literalInvalid "float32 constructor is non-finite" span)
  | .float64 => do
    let value ← okOr (FloatText.parseF64 token)
      (literalInvalid "float64 constructor is invalid" span)
    if isFiniteF64 value then .ok (.float64 (signedFloat FloatArithmetic.f64 negative value))
    else .error (literalInvalid "float64 constructor is non-finite" span)
  | _ => .error (literalInvalid "floating constructor requires a floating target" span)

/-- `parse_datetime_with_code`. -/
def parseDatetimeWithCode (value : Text) (span : Span) (code : DiagnosticCode) :
    Except Diagnostic Ir.UtcInstant := do
  let parsed ← okOr (ChronoText.parseFromRfc3339 value)
    (.error code "datetime must be RFC 3339 with an explicit offset" span)
  if parsed.nanosecond % 1000000 ≠ 0 then
    .error (.error code "datetime contains sub-millisecond precision" span)
  else .ok ⟨parsed.timestampMillis⟩

/-- `convert_constructor`. -/
def convertConstructor (constructor : Ast.Constructor) : Except Diagnostic Ir.Expression := do
  let literal ← match constructor.kind with
    | .numeric target literal =>
      match literal.kind with
      | .integer magnitude =>
        if target.logicalType.isInteger then
          integerLiteral magnitude literal.sign (some target.logicalType) constructor.span
            .constructor
        else
          floatingConstructorFromInteger magnitude literal.sign target.logicalType constructor.span
      | .floatingPoint value =>
        floatingConstructor value literal.sign target.logicalType constructor.span
    | .datetime value =>
      (parseDatetimeWithCode value.value constructor.span .literalInvalid).map Ir.Literal.datetime
    | .eid value =>
      (okOr (EventId.fromStr value.value) (literalInvalid
        "eid must contain exactly 32 lowercase hexadecimal characters" constructor.span)).map
        Ir.Literal.eid
  return .ofLiteral literal

end Literals

/-! ## Folding -/

/-- Whether constants are folded. -/
inductive Folding
  | fold
  | keep
  deriving DecidableEq, Repr

/-- The literal that an expression is, where constants are folded. -/
def Folding.literal? : Folding → Ir.Expression → Option Ir.Literal
  | .fold, .literal literal _ _ => some literal
  | _, _ => none

/-- `str` and byte array comparison. -/
def compareText (left right : Text) : Ordering :=
  if textLt left right then .lt else if left = right then .eq else .gt

/-- `fold_integer!`. -/
def foldInteger (t : IntegerType) (operator : BinaryOperator) (left right : Int) (span : Span) :
    Except Diagnostic (Option Ir.Literal) :=
  let checked (value : Option Int) : Except Diagnostic (Option Ir.Literal) :=
    (okOr value (constantEvaluationFailed "integer arithmetic overflowed or divided by zero"
      span)).map fun value => some (.integer t value)
  match operator with
  | .add => checked (t.checkedAdd left right)
  | .subtract => checked (t.checkedSub left right)
  | .multiply => checked (t.checkedMul left right)
  | .divide => checked (t.checkedDiv left right)
  | .equal => .ok (some (.boolean (left == right)))
  | .notEqual => .ok (some (.boolean (left != right)))
  | .greaterThan => .ok (some (.boolean (left > right)))
  | .greaterThanOrEqual => .ok (some (.boolean (left ≥ right)))
  | .lessThan => .ok (some (.boolean (left < right)))
  | .lessThanOrEqual => .ok (some (.boolean (left ≤ right)))
  | .and | .or => .ok none

def foldI32 := foldInteger .int32

def foldI64 := foldInteger .int64

def foldU32 := foldInteger .uint32

def foldU64 := foldInteger .uint64

/-- `fold_f32` and `fold_float`. -/
def foldFloat {α : Type} (ops : FloatOps α) (zero : α) (isFinite : α → Bool)
    (literal : α → Ir.Literal) (operator : BinaryOperator) (left right : α) (span : Span) :
    Except Diagnostic (Option Ir.Literal) :=
  let checked (value : α) : Except Diagnostic (Option Ir.Literal) :=
    if isFinite value then .ok (some (literal value))
    else .error (constantEvaluationFailed "floating-point arithmetic produced a non-finite result"
      span)
  let order := ops.partialCmp left right
  match operator with
  | .add => checked (ops.add left right)
  | .subtract => checked (ops.sub left right)
  | .multiply => checked (ops.mul left right)
  | .divide =>
    if ops.partialCmp right zero = some .eq then
      .error (constantEvaluationFailed "floating-point arithmetic divided by zero" span)
    else checked (ops.div left right)
  | .equal => .ok (some (.boolean (order = some .eq)))
  | .notEqual => .ok (some (.boolean (order ≠ some .eq)))
  | .greaterThan => .ok (some (.boolean (order = some .gt)))
  | .greaterThanOrEqual => .ok (some (.boolean (order = some .gt ∨ order = some .eq)))
  | .lessThan => .ok (some (.boolean (order = some .lt)))
  | .lessThanOrEqual => .ok (some (.boolean (order = some .lt ∨ order = some .eq)))
  | .and | .or => .ok none

/-- `fold_ordered`. -/
def foldOrdered (operator : BinaryOperator) (ordering : Ordering) : Option Ir.Literal :=
  match operator with
  | .equal => some (.boolean (ordering == .eq))
  | .notEqual => some (.boolean (ordering != .eq))
  | .greaterThan => some (.boolean (ordering == .gt))
  | .greaterThanOrEqual => some (.boolean (ordering != .lt))
  | .lessThan => some (.boolean (ordering == .lt))
  | .lessThanOrEqual => some (.boolean (ordering != .gt))
  | _ => none

def booleanValue : Ir.Literal → Option (Option Bool)
  | .boolean value => some (some value)
  | .null .bool => some none
  | _ => none

/-- The conjunction in three values. -/
def kleeneAnd : Option Bool → Option Bool → Option Bool
  | some false, _ => some false
  | _, some false => some false
  | some true, value => value
  | value, some true => value
  | none, none => none

/-- The disjunction in three values. -/
def kleeneOr : Option Bool → Option Bool → Option Bool
  | some true, _ => some true
  | _, some true => some true
  | some false, value => value
  | value, some false => value
  | none, none => none

/-- `fold_three_valued_boolean`. -/
def foldThreeValuedBoolean (operator : BinaryOperator) (left right : Ir.Literal) :
    Option Ir.Literal := do
  let left ← booleanValue left
  let right ← booleanValue right
  let value ← match operator with
    | .and => some (kleeneAnd left right)
    | .or => some (kleeneOr left right)
    | _ => none
  return match value with
    | some value => .boolean value
    | none => .null .bool

section Folding

variable [FloatArithmetic]

def foldF32 := foldFloat FloatArithmetic.f32 0 isFiniteF32 .float32

def foldF64 := foldFloat FloatArithmetic.f64 0 isFiniteF64 .float64

/-- `fold_unary`. -/
def foldUnary (folding : Folding) (operator : UnaryOperator) (operand : Ir.Expression)
    (span : Span) : Except Diagnostic (Option Ir.Expression) :=
  match folding.literal? operand with
  | none => .ok none
  | some literal =>
    let checked (t : IntegerType) (value : Int) : Except Diagnostic (Option Ir.Expression) :=
      (okOr (t.checkedNeg value) (constantEvaluationFailed "integer negation overflowed" span)).map
        fun value => some (.ofLiteral (.integer t value))
    match operator, literal with
    | _, .null logicalType => .ok (some (.ofLiteral (.null logicalType)))
    | .not, .boolean value => .ok (some (.ofLiteral (.boolean !value)))
    | .negate, .int32 value => checked .int32 value
    | .negate, .int64 value => checked .int64 value
    | .negate, .float32 value =>
      .ok (some (.ofLiteral (.float32 (FloatArithmetic.f32.neg value))))
    | .negate, .float64 value =>
      .ok (some (.ofLiteral (.float64 (FloatArithmetic.f64.neg value))))
    | _, _ => .ok none

/-- The last `match` of `fold_binary`, on two literals that are not null. -/
def foldLiterals (operator : BinaryOperator) (left right : Ir.Literal) (span : Span) :
    Except Diagnostic (Option Ir.Literal) :=
  match left, right with
  | .int32 left, .int32 right => foldI32 operator left right span
  | .int64 left, .int64 right => foldI64 operator left right span
  | .uint32 left, .uint32 right => foldU32 operator left right span
  | .uint64 left, .uint64 right => foldU64 operator left right span
  | .float32 left, .float32 right => foldF32 operator left right span
  | .float64 left, .float64 right => foldF64 operator left right span
  | .boolean left, .boolean right =>
    .ok (match operator with
      | .and => some (.boolean (left && right))
      | .or => some (.boolean (left || right))
      | .equal => some (.boolean (left == right))
      | .notEqual => some (.boolean (left != right))
      | _ => none)
  | .utf8 left, .utf8 right => .ok (foldOrdered operator (compareText left right))
  | .datetime left, .datetime right =>
    .ok (foldOrdered operator (compare left.unixMilliseconds right.unixMilliseconds))
  | .eid left, .eid right => .ok (foldOrdered operator (compareText left.bytes right.bytes))
  | _, _ => .ok none

/-- `matches!(literal, Literal::Null(_))`. -/
def Ir.Literal.isNull : Ir.Literal → Bool
  | .null _ => true
  | _ => false

/-- `fold_binary`. -/
def foldBinary (folding : Folding) (operator : BinaryOperator) (left right : Ir.Expression)
    (logicalType : LogicalType) (span : Span) : Except Diagnostic (Option Ir.Expression) :=
  match folding.literal? left, folding.literal? right with
  | some left, some right =>
    match foldThreeValuedBoolean operator left right with
    | some value => .ok (some (.ofLiteral value))
    | none =>
      if left.isNull || right.isNull then .ok (some (.ofLiteral (.null logicalType)))
      else (foldLiterals operator left right span).map fun folded => folded.map .ofLiteral
  | _, _ => .ok none

/-- `widen_literal`. -/
def widenLiteral (literal : Ir.Literal) (target : LogicalType) : Option Ir.Literal :=
  match literal, target with
  | .int32 value, .int64 => some (.int64 value)
  | .int32 value, .float64 => some (.float64 (FloatArithmetic.f64.ofInt value))
  | .uint32 value, .uint64 => some (.uint64 value)
  | .uint32 value, .float64 => some (.float64 (FloatArithmetic.f64.ofInt value))
  | .float32 value, .float64 => some (.float64 (FloatArithmetic.widen value))
  | .null _, target => some (.null target)
  | _, _ => none

/-- `coerce_losslessly`. -/
def coerceLosslessly (folding : Folding) (expression : Ir.Expression) (target : LogicalType) :
    Ir.Expression :=
  if expression.logicalType = target then expression
  else
    match (folding.literal? expression).bind (widenLiteral · target) with
    | some literal => .ofLiteral literal
    | none => .cast .lossless expression target target expression.nullability

end Folding

/-! ## Expressions -/

section Expressions

variable [RustFormat]

def resolveField (reference : Ast.FieldReference) (relation : Ir.Relation) :
    Except Diagnostic Ir.Field :=
  okOr (relation.field reference.asStr) ⟨.fieldNotFound,
    Text.ofString "field " ++ RustFormat.debugStr reference.asStr ++
      Text.ofString " was not found in the current relation", reference.span⟩

/-- `convert_remainder`. -/
def convertRemainder (access : Ast.RemainderExpression) (relation : Ir.Relation) :
    Except Diagnostic Ir.Expression := do
  let remainder ← okOr (relation.field (Text.ofString "@rest"))
    (.error .fieldNotFound "@rest is not present in the current relation" access.span)
  match access.function with
  | .value => .ok (.remainder .value remainder access.key.value .json .nullable)
  | .exists => .ok (.remainder .exists remainder access.key.value .bool .nonNull)

variable [FloatArithmetic] (folding : Folding)

/-- `convert_cast`, with the conversion of its operand. -/
def convertCast (kind : Ast.CastKind) (operand : Ast.Expression) (target : LogicalType)
    (span : Span) (convertOperand : Option LogicalType → Except Diagnostic Ir.Expression) :
    Except Diagnostic Ir.Expression := do
  let expected :=
    if operand.isNullLiteral then some target
    else if target.isNumeric then some target
    else none
  let expression ← convertOperand expected
  if !castIsDefined expression.logicalType target then
    .error ⟨.castInvalid, Text.ofString "cast from " ++
      Text.ofString expression.logicalType.asStr ++ Text.ofString " to " ++
      Text.ofString target.asStr ++ Text.ofString " is not defined", span⟩
  else
    match folding.literal? expression with
    | some (.null _) => .ok (.ofLiteral (.null target))
    | _ =>
      match kind with
      | .nullOnFailure => .ok (.cast .nullOnFailure expression target target .nullable)
      | .strict =>
        .ok (.cast .strict expression target target
          (if expression.logicalType = .json then .nullable else expression.nullability))

/-- The part of `convert_unary` behind the integer literals. -/
def convertUnaryOperand (operator : UnaryOperator) (span : Span) (operand : Ir.Expression) :
    Except Diagnostic Ir.Expression := do
  match operator with
  | .not =>
    ensure (operand.logicalType = .bool) (typeMismatch "not requires a bool operand" span)
  | .negate =>
    ensure (operand.logicalType.isNegatable = true)
      (typeMismatch "unary minus requires a signed numeric operand" span)
  match ← foldUnary folding operator operand span with
  | some folded => .ok folded
  | none => .ok (.unary operator operand operand.logicalType operand.nullability)

/-- `convert_unary`. -/
def convertUnary [FloatText] (operator : UnaryOperator) (operand : Ast.Expression) (span : Span)
    (expected : Option LogicalType)
    (convertOperand : Option LogicalType → Except Diagnostic Ir.Expression) :
    Except Diagnostic Ir.Expression :=
  match operator, operand with
  | .negate, .literal (.integer magnitude) _ =>
    (integerLiteral magnitude .negative expected span .expression).map .ofLiteral
  | .not, _ => do
    convertUnaryOperand folding .not span (← convertOperand (some .bool))
  | .negate, _ => do
    convertUnaryOperand folding .negate span
      (← convertOperand (expected.filter fun logicalType => logicalType.isNumeric))

/-- `build_binary`. -/
def buildBinary (operator : BinaryOperator) (left right : Ir.Expression)
    (logicalType : LogicalType) (span : Span) : Except Diagnostic Ir.Expression := do
  match ← foldBinary folding operator left right logicalType span with
  | some folded => .ok folded
  | none =>
    .ok (.binary operator left right logicalType
      (combineNullability left.nullability right.nullability))

/-- `convert_null_predicate`, on an expression that is not the literal. -/
def convertNullPredicate (predicate : Ir.NullPredicate) (value : Ast.Expression) (span : Span)
    (convertValue : Option LogicalType → Except Diagnostic Ir.Expression) :
    Except Diagnostic Ir.Expression :=
  if value.isNullLiteral then
    .error (typeMismatch "two null literals have no unique contextual type" span)
  else do
    let expression ← convertValue none
    match folding.literal? expression with
    | some literal => .ok (.ofLiteral (.boolean (literal.isNull == (predicate == .isNull))))
    | none => .ok (.nullPredicate expression predicate .bool .nonNull)

/-- `convert_contextual_pair`. -/
def convertContextualPair (left right : Ast.Expression) (expected : Option LogicalType)
    (convertLeft convertRight : Option LogicalType → Except Diagnostic Ir.Expression) :
    Except Diagnostic (Ir.Expression × Ir.Expression) :=
  let leftFirst (expected : Option LogicalType) : Except Diagnostic _ := do
    let left ← convertLeft expected
    let right ← convertRight (some left.logicalType)
    return (left, right)
  let rightFirst (expected : Option LogicalType) : Except Diagnostic _ := do
    let right ← convertRight expected
    let left ← convertLeft (some right.logicalType)
    return (left, right)
  let alike : Except Diagnostic _ := do
    let left ← convertLeft expected
    let right ← convertRight expected
    return (left, right)
  match left.needsContext, right.needsContext with
  | true, false => rightFirst expected
  | false, true => leftFirst expected
  | true, true =>
    if expected.isSome then alike
    else if left.isNullLiteral then rightFirst none
    else leftFirst none
  | false, false => alike

/-- `convert_numeric_pair`, behind the operands. -/
def convertNumericPair (span : Span) (pair : Ir.Expression × Ir.Expression) :
    Except Diagnostic (Ir.Expression × Ir.Expression × LogicalType) := do
  let (left, right) := pair
  ensure (left.logicalType.isNumeric = true ∧ right.logicalType.isNumeric = true)
    (typeMismatch "arithmetic requires numeric operands" span)
  let common ← okOr (commonNumericType left.logicalType right.logicalType)
    (typeMismatch "numeric operands have no lossless common type" span)
  return (coerceLosslessly folding left common, coerceLosslessly folding right common, common)

/-- `convert_comparison_pair`, behind the operands. -/
def convertComparisonPair (operator : BinaryOperator) (span : Span)
    (pair : Ir.Expression × Ir.Expression) :
    Except Diagnostic (Ir.Expression × Ir.Expression) := do
  let (left, right) := pair
  if left.logicalType.isNumeric && right.logicalType.isNumeric then
    let common ← okOr (commonNumericType left.logicalType right.logicalType)
      (typeMismatch "numeric operands have no lossless common type" span)
    return (coerceLosslessly folding left common, coerceLosslessly folding right common)
  else
    let ordered : Bool := operator ≠ .equal ∧ operator ≠ .notEqual
    let validSameType : Bool := left.logicalType = right.logicalType ∧
      (left.logicalType = .utf8 ∨ left.logicalType = .datetime ∨ left.logicalType = .eid)
    let validEquality : Bool :=
      !ordered ∧ left.logicalType = .bool ∧ right.logicalType = .bool
    if validSameType || validEquality then .ok (left, right)
    else .error (typeMismatch "comparison operands are incompatible" span)

/-- The last `match` of `convert_binary`. -/
def convertOperands (operator : BinaryOperator) (left right : Ast.Expression) (span : Span)
    (expected : Option LogicalType)
    (convertLeft convertRight : Option LogicalType → Except Diagnostic Ir.Expression) :
    Except Diagnostic Ir.Expression :=
  match operator with
  | .and | .or => do
    let left ← convertLeft (some .bool)
    let right ← convertRight (some .bool)
    ensure (left.logicalType = .bool ∧ right.logicalType = .bool)
      (typeMismatch "logical operators require bool operands" span)
    buildBinary folding operator left right .bool span
  | .add | .subtract | .multiply | .divide => do
    let pair ← convertContextualPair left right
      (expected.filter fun logicalType => logicalType.isNumeric) convertLeft convertRight
    let (left, right, common) ← convertNumericPair folding span pair
    buildBinary folding operator left right common span
  | .equal | .notEqual | .greaterThan | .greaterThanOrEqual | .lessThan | .lessThanOrEqual => do
    let pair ← convertContextualPair left right none convertLeft convertRight
    let (left, right) ← convertComparisonPair folding operator span pair
    buildBinary folding operator left right .bool span

/-- The predicate that an equality with the null literal asks for. -/
def nullPredicateOf : BinaryOperator → Option Ir.NullPredicate
  | .equal => some .isNull
  | .notEqual => some .isNotNull
  | _ => none

/-- `convert_binary`. -/
def convertBinary (operator : BinaryOperator) (left right : Ast.Expression) (span : Span)
    (expected : Option LogicalType)
    (convertLeft convertRight : Option LogicalType → Except Diagnostic Ir.Expression) :
    Except Diagnostic Ir.Expression :=
  match nullPredicateOf operator with
  | some predicate =>
    if left.isNullLiteral then convertNullPredicate folding predicate right span convertRight
    else if right.isNullLiteral then convertNullPredicate folding predicate left span convertLeft
    else convertOperands folding operator left right span expected convertLeft convertRight
  | none => convertOperands folding operator left right span expected convertLeft convertRight

variable [FloatText] [ChronoText] (relation : Ir.Relation)

/-- `convert_expression_with_expected`. -/
def convertExpressionWithExpected :
    Ast.Expression → Option LogicalType → Except Diagnostic Ir.Expression
  | .literal kind span, expected => convertLiteral kind expected span
  | .field reference _, _ => (resolveField reference relation).map .ofField
  | .constructor constructor _, _ => convertConstructor constructor
  | .cast kind operand target castSpan _, _ =>
    convertCast folding kind operand target castSpan (convertExpressionWithExpected operand)
  | .remainder access _, _ => convertRemainder access relation
  | .unary operator operand span, expected =>
    convertUnary folding operator operand span expected (convertExpressionWithExpected operand)
  | .binary operator left right span, expected =>
    convertBinary folding operator left right span expected (convertExpressionWithExpected left)
      (convertExpressionWithExpected right)

def convertExpression (expression : Ast.Expression) : Except Diagnostic Ir.Expression :=
  convertExpressionWithExpected .fold relation expression none

end Expressions

end Elucid
