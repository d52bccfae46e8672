import Elucid.JsonCast
import Elucid.QueryAnalysis

/-!
# Operand order and typing

Whether analysis accepts a sum, a product or an equality, and the type that it gives to it, should
not depend on the order of the operands.

It depends on it where both operands are made of integer and null literals. The left one is then
converted without a type, and the right one with the type of the left one. An operand like `-null`
has no type of its own, so `1 + -null` is accepted and `-null + 1` is not
(`typing_negatedNull`).

An operand of this kind is a constant of `int64`, and it is accepted without a type if the literal
in front of it is an integer (`readsLiterals_convert`). That is the only difference between the two
orders (`typing_exchange_iff`).
-/

namespace Elucid

open BigEndian

variable {operator : BinaryOperator} {left right : Ast.Expression}
variable {expected : Option LogicalType} {expression : Ast.Expression} {ε α β : Type}

/-! ## Outcomes -/

/-- The operators that `checked_binary_udf` has a name for. -/
def BinaryOperator.isArithmetic : BinaryOperator → Bool
  | .add => true
  | .subtract => true
  | .multiply => true
  | .divide => true
  | _ => false

/-- The type and the nullability of what analysis accepts. -/
def typing (result : Except Diagnostic Ir.Expression) : Option (LogicalType × Nullability) :=
  result.toOption.map fun expression => (expression.logicalType, expression.nullability)

theorem toOption_bind (x : Except ε α) (f : α → Except ε β) :
    (x >>= f).toOption = x.toOption.bind fun a => (f a).toOption := by
  cases x <;> rfl

theorem toOption_map (x : Except ε α) (f : α → β) :
    (x.map f).toOption = x.toOption.map f := by
  cases x <;> rfl

theorem toOption_okOr (x : Option α) (error : ε) : (okOr x error).toOption = x := by
  cases x <;> rfl

theorem typing_bind (x : Except Diagnostic α) (f : α → Except Diagnostic Ir.Expression) :
    typing (x >>= f) = x.toOption.bind fun a => typing (f a) := by
  cases x <;> rfl

/-- The operators that are to be symmetric. -/
def BinaryOperator.isSymmetric : BinaryOperator → Bool
  | .add | .multiply | .equal | .notEqual => true
  | _ => false

/-! ## Constants of `int64` -/

/-- What an arithmetic operator makes of two constants, of which a null has no value. A comparison
makes no number of them, and does not overflow. -/
def exactInt64 (operator : BinaryOperator) : Option Int → Option Int → Option (Option Int)
  | some left, some right =>
    match operator with
    | .add => (IntegerType.int64.checkedAdd left right).map some
    | .subtract => (IntegerType.int64.checkedSub left right).map some
    | .multiply => (IntegerType.int64.checkedMul left right).map some
    | .divide => (IntegerType.int64.checkedDiv left right).map some
    | _ => some none
  | _, _ => some none

/-- What a negation makes of a constant. -/
def negateInt64 : Option Int → Option (Option Int)
  | some value => (IntegerType.int64.checkedNeg value).map some
  | none => some none

namespace Ast.Expression

/-- The integer literal that an expression is. -/
def magnitude? : Expression → Option UInt64
  | .literal (.integer magnitude) _ => some magnitude
  | _ => none

/-- The value of an expression of integer and null literals, as an `int64`. A negated literal is
read with its sign. -/
def constant : Expression → Option (Option Int)
  | .literal (.integer magnitude) _ => (IntegerType.int64.tryFrom magnitude.toNat).map some
  | .literal .null _ => some none
  | .unary .negate operand _ =>
    match operand.magnitude? with
    | some magnitude => (IntegerType.int64.tryFrom (-magnitude.toNat)).map some
    | none => operand.constant.bind negateInt64
  | .binary operator left right _ =>
    left.constant.bind fun left => right.constant.bind fun right => exactInt64 operator left right
  | _ => none

/-- The literal in front is an integer. A null literal that is an operand is passed over. -/
def leadsWithInteger : Expression → Bool
  | .literal (.integer _) _ => true
  | .unary _ operand _ => operand.leadsWithInteger
  | .binary _ left right _ =>
    if left.isNullLiteral then right.leadsWithInteger else left.leadsWithInteger
  | _ => false

end Ast.Expression

/-- The literal of a constant. -/
def int64Literal (value : Option Int) : Ir.Expression :=
  .ofLiteral (value.elim (.null .int64) .int64)

@[simp] theorem logicalType_int64Literal (value : Option Int) :
    (int64Literal value).logicalType = .int64 := by
  cases value <;> rfl

theorem Ast.Expression.magnitude?_eq_some {magnitude : UInt64}
    (h : expression.magnitude? = some magnitude) :
    ∃ span, expression = .literal (.integer magnitude) span := by
  unfold magnitude? at h
  split at h
  · exact ⟨_, by rw [Option.some.inj h]⟩
  · cases h

theorem Ast.Expression.isNullLiteral_iff :
    expression.isNullLiteral = true ↔ ∃ span, expression = .literal .null span := by
  constructor
  · intro h
    unfold isNullLiteral at h
    split at h
    · exact ⟨_, rfl⟩
    · exact absurd h Bool.false_ne_true
  · rintro ⟨span, rfl⟩
    rfl

/-- An operator of literals is arithmetic. -/
theorem Ast.Expression.arithmetic_of_needsContext {span : Span}
    (h : (Ast.Expression.binary operator left right span).needsContext = true) :
    operator.isArithmetic = true ∧ left.needsContext = true ∧ right.needsContext = true := by
  cases operator <;> first
    | exact absurd h Bool.false_ne_true
    | exact ⟨rfl, (Bool.and_eq_true _ _).mp h⟩

/-! ## Operands in context -/

/-- The type that the operands of an operator expect. -/
def pairContext (operator : BinaryOperator) (expected : Option LogicalType) :
    Option LogicalType :=
  if operator.isArithmetic then expected.filter fun logicalType => logicalType.isNumeric else none

/-- Converts an expression of literals to its constant, if an `int64` is expected or the literal in
front is an integer. -/
def ReadsLiterals (expression : Ast.Expression)
    (convert : Option LogicalType → Except Diagnostic Ir.Expression) : Prop :=
  ∀ expected, expected = none ∨ expected = some LogicalType.int64 →
    (convert expected).toOption =
      if expected.isSome || expression.leadsWithInteger then expression.constant.map int64Literal
      else none

/-- Two constants, of which the second one may expect the type of the first one. -/
theorem toOption_constants {first : Except Diagnostic Ir.Expression}
    {second : Ir.Expression → Except Diagnostic Ir.Expression} {a b : Option (Option Int)}
    (pair : Ir.Expression → Ir.Expression → α) (hfirst : first.toOption = a.map int64Literal)
    (hsecond : ∀ value, (second (int64Literal value)).toOption = b.map int64Literal) :
    Except.toOption (first >>= fun x => second x >>= fun y => pure (pair x y)) =
      a.bind fun x => b.map fun y => pair (int64Literal x) (int64Literal y) := by
  rw [toOption_bind, hfirst]
  cases a with
  | none => rfl
  | some x =>
    rw [Option.map_some, Option.bind_some, toOption_bind, hsecond]
    cases b <;> rfl

/-- Two operands of literals. The one that leads gives its type to the other. -/
theorem toOption_convertContextualPair
    {convertLeft convertRight : Option LogicalType → Except Diagnostic Ir.Expression}
    (hleft : left.needsContext = true) (hright : right.needsContext = true)
    (hreadsLeft : ReadsLiterals left convertLeft) (hreadsRight : ReadsLiterals right convertRight)
    (hexpected : expected = none ∨ expected = some .int64) :
    (convertContextualPair left right expected convertLeft convertRight).toOption =
      if expected.isSome ||
        (if left.isNullLiteral then right.leadsWithInteger else left.leadsWithInteger) then
        left.constant.bind fun left => right.constant.map fun right =>
          (int64Literal left, int64Literal right)
      else none := by
  have hleftInt : (convertLeft (some .int64)).toOption = left.constant.map int64Literal :=
    hreadsLeft _ (Or.inr rfl)
  have hrightInt : (convertRight (some .int64)).toOption = right.constant.map int64Literal :=
    hreadsRight _ (Or.inr rfl)
  have hleftNone := hreadsLeft none (Or.inl rfl)
  have hrightNone := hreadsRight none (Or.inl rfl)
  unfold convertContextualPair
  rw [hleft, hright]
  rcases hexpected with rfl | rfl
  · by_cases hnull : left.isNullLiteral = true
    · simp only [hnull, Option.isSome_none, Bool.false_eq_true, if_false, if_true, Bool.false_or]
        at hrightNone ⊢
      by_cases hleads : right.leadsWithInteger = true
      · rw [if_pos hleads] at hrightNone ⊢
        refine (toOption_constants (b := left.constant) (fun right left => (left, right)) hrightNone
          fun _ => ?_).trans ?_
        · rw [logicalType_int64Literal, hleftInt]
        · cases left.constant <;> cases right.constant <;> rfl
      · rw [if_neg hleads] at hrightNone ⊢
        rw [toOption_bind, hrightNone]
        rfl
    · simp only [hnull, Option.isSome_none, Bool.false_eq_true, if_false, Bool.false_or]
        at hleftNone ⊢
      by_cases hleads : left.leadsWithInteger = true
      · rw [if_pos hleads] at hleftNone ⊢
        refine toOption_constants Prod.mk hleftNone fun _ => ?_
        rw [logicalType_int64Literal, hrightInt]
      · rw [if_neg hleads] at hleftNone ⊢
        rw [toOption_bind, hleftNone]
        rfl
  · exact toOption_constants Prod.mk hleftInt fun _ => hrightInt

/-- What is done with two converted operands may be done behind both. -/
theorem toOption_map_pair {α β : Type} (first : Except Diagnostic Ir.Expression)
    (second : Ir.Expression → Except Diagnostic Ir.Expression)
    (pair : Ir.Expression → Ir.Expression → α) (f : α → β) :
    Except.toOption (first >>= fun a => second a >>= fun b => pure (f (pair a b))) =
      (Except.toOption (first >>= fun a => second a >>= fun b => pure (pair a b))).map f := by
  rcases first with - | a
  · rfl
  · change Except.toOption (second a >>= _) = (Except.toOption (second a >>= _)).map _
    cases second a <;> rfl

theorem toOption_alike (left right : Except Diagnostic Ir.Expression) :
    Except.toOption (right >>= fun b => left >>= fun a => pure (b, a)) =
      (Except.toOption (left >>= fun a => right >>= fun b => pure (a, b))).map Prod.swap := by
  cases left <;> cases right <;> rfl

/-- The order of the operands matters only where none of them has a type of its own. -/
theorem convertContextualPair_exchanged
    (convertLeft convertRight : Option LogicalType → Except Diagnostic Ir.Expression)
    (h : ¬(left.needsContext = true ∧ right.needsContext = true ∧ expected = none ∧
      left.isNullLiteral = right.isNullLiteral)) :
    (convertContextualPair right left expected convertRight convertLeft).toOption =
      ((convertContextualPair left right expected convertLeft convertRight).toOption).map
        Prod.swap := by
  unfold convertContextualPair
  cases hleft : left.needsContext <;> cases hright : right.needsContext
  case false.false => exact toOption_alike _ _
  case false.true => exact toOption_map_pair _ _ Prod.mk Prod.swap
  case true.false => exact toOption_map_pair _ _ (fun b a => (a, b)) Prod.swap
  case true.true =>
    cases expected with
    | some logicalType => exact toOption_alike _ _
    | none =>
      have hnull : left.isNullLiteral ≠ right.isNullLiteral :=
        fun heq => h ⟨hleft, hright, rfl, heq⟩
      cases hleftNull : left.isNullLiteral <;> cases hrightNull : right.isNullLiteral
      case false.false => exact absurd (hleftNull.trans hrightNull.symm) hnull
      case false.true => exact toOption_map_pair _ _ Prod.mk Prod.swap
      case true.false => exact toOption_map_pair _ _ (fun b a => (a, b)) Prod.swap
      case true.true => exact absurd (hleftNull.trans hrightNull.symm) hnull

/-- Both operands are made of integer and null literals, no type is expected of them, and the
literal in front of exactly one is an integer, while as an `int64` the result is defined. -/
structure Lopsided (operator : BinaryOperator) (expected : Option LogicalType)
    (left right : Ast.Expression) : Prop where
  literals : left.needsContext = true ∧ right.needsContext = true
  notNull : left.isNullLiteral = false ∧ right.isNullLiteral = false
  untyped : pairContext operator expected = none
  leads : left.leadsWithInteger ≠ right.leadsWithInteger
  defined : (left.constant.bind fun left => right.constant.bind fun right =>
    exactInt64 operator left right).isSome = true

/-! ## Folding -/

theorem commonNumericType_comm (left right : LogicalType) :
    commonNumericType left right = commonNumericType right left := by
  cases left <;> cases right <;> rfl

theorem combineNullability_comm (left right : Nullability) :
    combineNullability left right = combineNullability right left := by
  cases left <;> cases right <;> rfl

/-- The types that are not numeric and that an equality compares. -/
def equatable (left right : LogicalType) : Bool :=
  left = right && (left = .utf8 || left = .datetime || left = .eid || left = .bool)

theorem equatable_comm (left right : LogicalType) :
    equatable left right = equatable right left := by
  cases left <;> cases right <;> rfl

/-- The type and the nullability of what is folded. -/
def foldedTyping (result : Except Diagnostic (Option Ir.Literal)) :
    Option (Option (LogicalType × Nullability)) :=
  result.toOption.map fun folded => folded.map fun literal =>
    (literal.logicalType, literal.nullability)

theorem foldedTyping_foldInteger (t : IntegerType) (h : operator.isSymmetric = true)
    (left right : Int) (span : Span) :
    foldedTyping (foldInteger t operator left right span) =
      foldedTyping (foldInteger t operator right left span) := by
  cases operator <;> try exact absurd h Bool.false_ne_true
  case add => simp only [foldInteger, IntegerType.checkedAdd, add_comm]
  case multiply => simp only [foldInteger, IntegerType.checkedMul, mul_comm]
  case equal => rfl
  case notEqual => rfl

/-- Whether a sum or a product is finite does not depend on the order. -/
def FloatOps.Commutes {α : Type} (ops : FloatOps α) (isFinite : α → Bool) : Prop :=
  ∀ left right, isFinite (ops.add left right) = isFinite (ops.add right left) ∧
    isFinite (ops.mul left right) = isFinite (ops.mul right left)

theorem foldedTyping_foldFloat {ops : FloatOps α} {isFinite : α → Bool}
    (hops : ops.Commutes isFinite) (zero : α) {literal : α → Ir.Literal}
    (hliteral : ∀ first second, (literal first).logicalType = (literal second).logicalType ∧
      (literal first).nullability = (literal second).nullability) (h : operator.isSymmetric = true)
    (left right : α) (span : Span) :
    foldedTyping (foldFloat ops zero isFinite literal operator left right span) =
      foldedTyping (foldFloat ops zero isFinite literal operator right left span) := by
  obtain ⟨hadd, hmul⟩ := hops left right
  cases operator <;> try exact absurd h Bool.false_ne_true
  case add =>
    obtain ⟨htype, hnullability⟩ := hliteral (ops.add left right) (ops.add right left)
    simp only [foldFloat, hadd]
    split_ifs
    · exact congrArg some (congrArg some (Prod.ext htype hnullability))
    · rfl
  case multiply =>
    obtain ⟨htype, hnullability⟩ := hliteral (ops.mul left right) (ops.mul right left)
    simp only [foldFloat, hmul]
    split_ifs
    · exact congrArg some (congrArg some (Prod.ext htype hnullability))
    · rfl
  case equal => rfl
  case notEqual => rfl

theorem foldedTyping_foldOrdered (h : operator.isSymmetric = true) (first second : Ordering) :
    foldedTyping (.ok (foldOrdered operator first)) =
      foldedTyping (.ok (foldOrdered operator second)) := by
  cases operator <;> first | exact absurd h Bool.false_ne_true | rfl

theorem foldThreeValuedBoolean_symmetric (h : operator.isSymmetric = true) (left right : Ir.Literal) :
    foldThreeValuedBoolean operator left right = none := by
  unfold foldThreeValuedBoolean
  cases booleanValue left <;> cases booleanValue right <;> cases operator <;>
    first | exact absurd h Bool.false_ne_true | rfl

/-- The typing of what a fold gives, which may leave the expression as it is. -/
def foldTyping (result : Except Diagnostic (Option Ir.Expression)) :
    Option (Option (LogicalType × Nullability)) :=
  result.toOption.map fun folded => folded.map fun expression =>
    (expression.logicalType, expression.nullability)

theorem foldTyping_map_ofLiteral (result : Except Diagnostic (Option Ir.Literal)) :
    foldTyping (result.map fun folded => folded.map .ofLiteral) = foldedTyping result := by
  rcases result with - | - | literal <;> rfl

section Folding

variable [FloatArithmetic]

/-- The floats of the machine commute. -/
structure FloatArithmetic.Commutes : Prop where
  f32 : FloatArithmetic.f32.Commutes isFiniteF32
  f64 : FloatArithmetic.f64.Commutes isFiniteF64

/-- What two literals fold to has a type that does not depend on the order. -/
theorem foldedTyping_foldLiterals (hfloat : FloatArithmetic.Commutes)
    (h : operator.isSymmetric = true) (left right : Ir.Literal) (span : Span) :
    foldedTyping (foldLiterals operator left right span) =
      foldedTyping (foldLiterals operator right left span) := by
  cases left <;> cases right <;> try rfl
  case boolean.boolean => cases operator <;> rfl
  case int32.int32 left right => exact foldedTyping_foldInteger .int32 h left right span
  case int64.int64 left right => exact foldedTyping_foldInteger .int64 h left right span
  case uint32.uint32 left right => exact foldedTyping_foldInteger .uint32 h left right span
  case uint64.uint64 left right => exact foldedTyping_foldInteger .uint64 h left right span
  case float32.float32 left right =>
    exact foldedTyping_foldFloat hfloat.f32 0 (fun _ _ => ⟨rfl, rfl⟩) h left right span
  case float64.float64 left right =>
    exact foldedTyping_foldFloat hfloat.f64 0 (fun _ _ => ⟨rfl, rfl⟩) h left right span
  case utf8.utf8 => exact foldedTyping_foldOrdered h _ _
  case datetime.datetime => exact foldedTyping_foldOrdered h _ _
  case eid.eid => exact foldedTyping_foldOrdered h _ _

theorem foldTyping_foldBinary (hfloat : FloatArithmetic.Commutes) (h : operator.isSymmetric = true)
    (left right : Ir.Expression) (logicalType : LogicalType) (span : Span) :
    foldTyping (foldBinary .fold operator left right logicalType span) =
      foldTyping (foldBinary .fold operator right left logicalType span) := by
  unfold foldBinary
  cases Folding.fold.literal? left with
  | none => cases Folding.fold.literal? right <;> rfl
  | some left =>
    cases Folding.fold.literal? right with
    | none => rfl
    | some right =>
      dsimp only
      rw [foldThreeValuedBoolean_symmetric h, foldThreeValuedBoolean_symmetric h,
        Bool.or_comm right.isNull]
      dsimp only
      split_ifs
      · rfl
      · rw [foldTyping_map_ofLiteral, foldTyping_map_ofLiteral,
          foldedTyping_foldLiterals hfloat h left right span]

theorem typing_buildBinary (operator : BinaryOperator) (left right : Ir.Expression)
    (logicalType : LogicalType) (span : Span) :
    typing (buildBinary .fold operator left right logicalType span) =
      (foldTyping (foldBinary .fold operator left right logicalType span)).map fun folded =>
        folded.getD (logicalType, combineNullability left.nullability right.nullability) := by
  unfold buildBinary
  rcases foldBinary .fold operator left right logicalType span with - | - | folded <;> rfl

theorem typing_buildBinary_comm (hfloat : FloatArithmetic.Commutes)
    (h : operator.isSymmetric = true) (left right : Ir.Expression) (logicalType : LogicalType)
    (span : Span) :
    typing (buildBinary .fold operator left right logicalType span) =
      typing (buildBinary .fold operator right left logicalType span) := by
  rw [typing_buildBinary, typing_buildBinary, foldTyping_foldBinary hfloat h,
    combineNullability_comm]

theorem toOption_foldBinary_int64 (h : operator.isArithmetic = true) (span : Span)
    (left right : Option Int) :
    (foldBinary .fold operator (int64Literal left) (int64Literal right) .int64 span).toOption =
      (exactInt64 operator left right).map fun value => some (int64Literal value) := by
  rcases left with - | left
  · cases right <;> cases operator <;> rfl
  rcases right with - | right
  · cases operator <;> rfl
  have hfold : foldBinary .fold operator (int64Literal (some left)) (int64Literal (some right))
      .int64 span = (foldInteger .int64 operator left right span).map
        fun folded => folded.map .ofLiteral := by
    cases operator <;> rfl
  have hchecked (value : Option Int) (error : Diagnostic) :
      Except.toOption ((Except.map (fun value => some (Ir.Literal.int64 value))
        (okOr value error)).map fun folded => folded.map Ir.Expression.ofLiteral) =
        (value.map some).map fun value => some (int64Literal value) := by
    cases value <;> rfl
  rw [hfold]
  cases operator <;> first
    | exact absurd h Bool.false_ne_true
    | exact hchecked _ _

theorem toOption_convertNumericPair (span : Span) (left right : Ir.Expression) :
    (convertNumericPair .fold span (left, right)).toOption =
      if left.logicalType.isNumeric && right.logicalType.isNumeric then
        (commonNumericType left.logicalType right.logicalType).map fun common =>
          (coerceLosslessly .fold left common, coerceLosslessly .fold right common, common)
      else none := by
  unfold convertNumericPair
  dsimp only
  rw [toOption_bind]
  by_cases hnumeric : left.logicalType.isNumeric = true ∧ right.logicalType.isNumeric = true
  · rw [ensure_of hnumeric, if_pos ((Bool.and_eq_true _ _).mpr hnumeric)]
    cases commonNumericType left.logicalType right.logicalType <;> rfl
  · rw [ensure, if_neg hnumeric, if_neg (mt (Bool.and_eq_true _ _).mp hnumeric)]
    rfl

theorem toOption_convertComparisonPair (h : operator = .equal ∨ operator = .notEqual) (span : Span)
    (left right : Ir.Expression) :
    (convertComparisonPair .fold operator span (left, right)).toOption =
      if left.logicalType.isNumeric && right.logicalType.isNumeric then
        (commonNumericType left.logicalType right.logicalType).map fun common =>
          (coerceLosslessly .fold left common, coerceLosslessly .fold right common)
      else if equatable left.logicalType right.logicalType then some (left, right)
      else none := by
  have hvalid : (decide (left.logicalType = right.logicalType ∧ (left.logicalType = .utf8 ∨
      left.logicalType = .datetime ∨ left.logicalType = .eid)) ||
      decide ((!decide (operator ≠ .equal ∧ operator ≠ .notEqual)) = true ∧
        left.logicalType = .bool ∧ right.logicalType = .bool)) =
      equatable left.logicalType right.logicalType := by
    generalize left.logicalType = leftType
    generalize right.logicalType = rightType
    rcases h with rfl | rfl <;> cases leftType <;> cases rightType <;> rfl
  unfold convertComparisonPair
  dsimp only
  rw [hvalid]
  split_ifs
  · cases commonNumericType left.logicalType right.logicalType <;> rfl
  · rfl
  · rfl

/-! ## Behind the operands -/

/-- What is done with two operands that are converted. -/
def joinOperands (operator : BinaryOperator) (span : Span) (pair : Ir.Expression × Ir.Expression) :
    Except Diagnostic Ir.Expression :=
  if operator.isArithmetic then
    convertNumericPair .fold span pair >>= fun joined =>
      buildBinary .fold operator joined.1 joined.2.1 joined.2.2 span
  else
    convertComparisonPair .fold operator span pair >>= fun pair =>
      buildBinary .fold operator pair.1 pair.2 .bool span

/-- The operands are converted, and then joined. -/
theorem convertOperands_eq (h : operator.isArithmetic = true ∨ operator.isSymmetric = true)
    (left right : Ast.Expression) (span : Span) (expected : Option LogicalType)
    (convertLeft convertRight : Option LogicalType → Except Diagnostic Ir.Expression) :
    convertOperands .fold operator left right span expected convertLeft convertRight =
      convertContextualPair left right (pairContext operator expected) convertLeft convertRight >>=
        joinOperands operator span := by
  cases operator <;> first
    | rfl
    | simp [BinaryOperator.isArithmetic, BinaryOperator.isSymmetric] at h

/-- Joining does not depend on the order. -/
theorem typing_joinOperands_comm (hfloat : FloatArithmetic.Commutes)
    (h : operator.isSymmetric = true) (span : Span) (left right : Ir.Expression) :
    typing (joinOperands operator span (left, right)) =
      typing (joinOperands operator span (right, left)) := by
  unfold joinOperands
  by_cases harithmetic : operator.isArithmetic = true
  · rw [if_pos harithmetic, if_pos harithmetic, typing_bind, typing_bind,
      toOption_convertNumericPair, toOption_convertNumericPair,
      Bool.and_comm right.logicalType.isNumeric, commonNumericType_comm right.logicalType]
    split_ifs
    · cases commonNumericType left.logicalType right.logicalType with
      | none => rfl
      | some common => exact typing_buildBinary_comm hfloat h _ _ _ _
    · rfl
  · have hequality : operator = .equal ∨ operator = .notEqual := by
      cases operator <;> first
        | exact absurd h Bool.false_ne_true
        | exact absurd rfl harithmetic
        | exact Or.inl rfl
        | exact Or.inr rfl
    rw [if_neg harithmetic, if_neg harithmetic, typing_bind, typing_bind,
      toOption_convertComparisonPair hequality, toOption_convertComparisonPair hequality,
      Bool.and_comm right.logicalType.isNumeric, commonNumericType_comm right.logicalType,
      equatable_comm right.logicalType]
    split_ifs
    · cases commonNumericType left.logicalType right.logicalType with
      | none => rfl
      | some common => exact typing_buildBinary_comm hfloat h _ _ _ _
    · exact typing_buildBinary_comm hfloat h _ _ _ _
    · rfl

/-- Two constants are joined to one. -/
theorem toOption_joinOperands_int64 (h : operator.isArithmetic = true) (span : Span)
    (left right : Option Int) :
    (joinOperands operator span (int64Literal left, int64Literal right)).toOption =
      (exactInt64 operator left right).map int64Literal := by
  have hjoin : joinOperands operator span (int64Literal left, int64Literal right) =
      buildBinary .fold operator (int64Literal left) (int64Literal right) .int64 span := by
    rw [joinOperands, if_pos h]
    cases left <;> cases right <;> rfl
  rw [hjoin, buildBinary, toOption_bind, toOption_foldBinary_int64 h, Option.bind_map]
  exact Option.map_eq_bind.symm

theorem isSome_typing_joinOperands (h : operator.isSymmetric = true) (span : Span)
    (left right : Option Int) :
    (typing (joinOperands operator span (int64Literal left, int64Literal right))).isSome =
      (exactInt64 operator left right).isSome := by
  by_cases harithmetic : operator.isArithmetic = true
  · rw [typing, toOption_joinOperands_int64 harithmetic, Option.isSome_map, Option.isSome_map]
  · cases left <;> cases right <;> cases operator <;>
      first | rfl | exact absurd h (by decide) | exact absurd rfl harithmetic

theorem toOption_convertUnaryOperand_int64 (span : Span) (value : Option Int) :
    (convertUnaryOperand .fold .negate span (int64Literal value)).toOption =
      (negateInt64 value).map int64Literal := by
  cases value with
  | none => rfl
  | some value =>
    change Except.toOption (Except.map _ (okOr (IntegerType.int64.checkedNeg value) _) >>= _) =
      ((IntegerType.int64.checkedNeg value).map some).map _
    cases IntegerType.int64.checkedNeg value <;> rfl

/-- A negation that is not part of a literal. -/
theorem convertUnary_negate [FloatText] {operand : Ast.Expression} (h : operand.magnitude? = none)
    (span : Span) (expected : Option LogicalType)
    (convertOperand : Option LogicalType → Except Diagnostic Ir.Expression) :
    convertUnary .fold .negate operand span expected convertOperand =
      convertOperand (expected.filter fun logicalType => logicalType.isNumeric) >>=
        convertUnaryOperand .fold .negate span := by
  cases operand with
  | literal kind _ => cases kind <;> first | rfl | cases h
  | field | constructor | cast | remainder | unary | binary => rfl

/-- Without a type, an integer literal is an `int64`. -/
theorem toOption_integerLiteral (hexpected : expected.getD .int64 = .int64) (magnitude : UInt64)
    (sign : Ast.NumericSign) (span : Span) (site : IntegerLiteralSite) :
    (integerLiteral magnitude sign expected span site).toOption =
      (IntegerType.int64.tryFrom (if sign = .negative then -magnitude.toNat
        else magnitude.toNat)).map .int64 := by
  rw [integerLiteral, hexpected]
  cases sign with
  | nonNegative =>
    change Except.toOption (Except.map _ (okOr (IntegerType.int64.tryFrom magnitude.toNat) _)) = _
    rw [toOption_map, toOption_okOr]
    rfl
  | negative =>
    have hvalue : (if (true && magnitude != 0) = true then -(magnitude.toNat : Int)
        else magnitude.toNat) = -magnitude.toNat := by
      by_cases hzero : magnitude = 0
      · rw [hzero]; rfl
      · rw [if_pos (by simpa using hzero)]
    change Except.toOption (Except.map _ (okOr (IntegerType.int64.tryFrom (if (true && _) = true
      then _ else _)) _)) = _
    rw [toOption_map, toOption_okOr, hvalue]
    rfl

/-- An equality with the null literal asks for the other operand. -/
theorem convertBinary_null (hoperator : nullPredicateOf operator ≠ none)
    (h : left.isNullLiteral = true ∨ right.isNullLiteral = true) (span : Span)
    (expected : Option LogicalType)
    (convertLeft convertRight : Option LogicalType → Except Diagnostic Ir.Expression) :
    convertBinary .fold operator left right span expected convertLeft convertRight =
      convertBinary .fold operator right left span expected convertRight convertLeft := by
  obtain ⟨predicate, hpredicate⟩ := Option.ne_none_iff_exists'.mp hoperator
  unfold convertBinary
  rw [hpredicate]
  cases hleft : left.isNullLiteral <;> cases hright : right.isNullLiteral
  case false.false => simp [hleft, hright] at h
  case false.true => rfl
  case true.false => rfl
  case true.true =>
    simp only [convertNullPredicate, hleft, hright, if_true]

theorem convertBinary_eq (h : ¬(nullPredicateOf operator ≠ none ∧
      (left.isNullLiteral = true ∨ right.isNullLiteral = true))) (span : Span)
    (expected : Option LogicalType)
    (convertLeft convertRight : Option LogicalType → Except Diagnostic Ir.Expression) :
    convertBinary .fold operator left right span expected convertLeft convertRight =
      convertOperands .fold operator left right span expected convertLeft convertRight := by
  unfold convertBinary
  cases hpredicate : nullPredicateOf operator with
  | none => rfl
  | some predicate =>
    rw [hpredicate] at h
    have hboth : ¬(left.isNullLiteral = true ∨ right.isNullLiteral = true) :=
      fun hnull => h ⟨by simp, hnull⟩
    rw [not_or] at hboth
    dsimp only
    rw [if_neg hboth.1, if_neg hboth.2]

/-- The typing of an operator between two operands of literals, where a type is known. -/
def constantTyping (operator : BinaryOperator) (span : Span) (left right : Ast.Expression) :
    Option (LogicalType × Nullability) :=
  (left.constant.bind fun left => right.constant.map fun right =>
    (int64Literal left, int64Literal right)).bind fun pair =>
      typing (joinOperands operator span pair)

theorem constantTyping_comm (hfloat : FloatArithmetic.Commutes) (h : operator.isSymmetric = true)
    (span : Span) (left right : Ast.Expression) :
    constantTyping operator span left right = constantTyping operator span right left := by
  unfold constantTyping
  cases left.constant <;> cases right.constant <;> try rfl
  exact typing_joinOperands_comm hfloat h span _ _

/-- Two constants are typed where their result is defined. -/
theorem isSome_constantTyping (h : operator.isSymmetric = true) (span : Span)
    (left right : Ast.Expression) :
    (constantTyping operator span left right).isSome =
      (left.constant.bind fun left => right.constant.bind fun right =>
        exactInt64 operator left right).isSome := by
  unfold constantTyping
  cases left.constant <;> cases right.constant <;> try rfl
  exact isSome_typing_joinOperands h span _ _

end Folding

/-! ## Exchanged operands -/

section Expressions

variable [RustFormat] [FloatArithmetic] [FloatText] [ChronoText] (relation : Ir.Relation)

/-- An operand of literals is its constant, of type `int64`. -/
theorem readsLiterals_convert (expression : Ast.Expression) (h : expression.needsContext = true) :
    ReadsLiterals expression (convertExpressionWithExpected .fold relation expression) := by
  induction expression with
  | literal kind span =>
    intro expected hexpected
    cases kind <;> try exact absurd h Bool.false_ne_true
    case null => rcases hexpected with rfl | rfl <;> rfl
    case integer magnitude =>
      have hint64 : expected.getD .int64 = .int64 := by rcases hexpected with rfl | rfl <;> rfl
      change Except.toOption (integerLiteral magnitude .nonNegative _ span .expression >>= _) =
        if (expected.isSome || true) = true then _ else none
      rw [toOption_bind, toOption_integerLiteral hint64, Bool.or_true, if_pos rfl,
        Ast.Expression.constant, if_neg (by decide)]
      cases IntegerType.int64.tryFrom magnitude.toNat <;> rfl
  | unary operator operand span ih =>
    intro expected hexpected
    cases operator <;> try exact absurd h Bool.false_ne_true
    rw [convertExpressionWithExpected, Ast.Expression.constant]
    cases hmagnitude : operand.magnitude? with
    | some magnitude =>
      obtain ⟨literalSpan, rfl⟩ := Ast.Expression.magnitude?_eq_some hmagnitude
      have hint64 : expected.getD .int64 = .int64 := by rcases hexpected with rfl | rfl <;> rfl
      change Except.toOption ((integerLiteral magnitude .negative _ span .expression).map _) =
        if (expected.isSome || true) = true then _ else none
      rw [toOption_map, toOption_integerLiteral hint64, Bool.or_true, if_pos rfl, if_pos rfl]
      dsimp only
      cases IntegerType.int64.tryFrom (-magnitude.toNat) <;> rfl
    | none =>
      have hfilter : expected.filter (fun logicalType => logicalType.isNumeric) = expected := by
        rcases hexpected with rfl | rfl <;> rfl
      rw [convertUnary_negate hmagnitude, hfilter, toOption_bind, ih h expected hexpected]
      change _ = if (expected.isSome || operand.leadsWithInteger) = true then _ else none
      split_ifs
      · cases operand.constant with
        | none => rfl
        | some value => exact toOption_convertUnaryOperand_int64 span value
      · rfl
  | binary operator left right span ihleft ihright =>
    intro expected hexpected
    obtain ⟨harithmetic, hleft, hright⟩ := Ast.Expression.arithmetic_of_needsContext h
    have hcontext : pairContext operator expected = expected := by
      rw [pairContext, if_pos harithmetic]
      rcases hexpected with rfl | rfl <;> rfl
    have hconvert : convertExpressionWithExpected .fold relation (.binary operator left right span)
        expected = convertOperands .fold operator left right span expected
          (convertExpressionWithExpected .fold relation left)
          (convertExpressionWithExpected .fold relation right) := by
      cases operator <;> first | rfl | exact absurd harithmetic (by decide)
    rw [hconvert, convertOperands_eq (Or.inl harithmetic), hcontext, toOption_bind,
      toOption_convertContextualPair hleft hright (ihleft hleft) (ihright hright) hexpected,
      Ast.Expression.leadsWithInteger, Ast.Expression.constant]
    by_cases hleads : (expected.isSome || if left.isNullLiteral then right.leadsWithInteger
        else left.leadsWithInteger) = true
    · rw [if_pos hleads, if_pos hleads]
      cases left.constant with
      | none => rfl
      | some leftValue =>
        cases right.constant with
        | none => rfl
        | some rightValue => exact toOption_joinOperands_int64 harithmetic span leftValue rightValue
    · rw [if_neg hleads, if_neg hleads]
      rfl
  | field | constructor | cast | remainder => exact absurd h Bool.false_ne_true

/-- Two operands of literals are typed if the literal in front is an integer. -/
theorem typing_convert_literals (hleft : left.needsContext = true)
    (hright : right.needsContext = true) (hnull : left.isNullLiteral = false) (span : Span) :
    ((convertContextualPair left right none (convertExpressionWithExpected .fold relation left)
      (convertExpressionWithExpected .fold relation right)).toOption.bind fun pair =>
        typing (joinOperands operator span pair)) =
      if left.leadsWithInteger then constantTyping operator span left right else none := by
  rw [toOption_convertContextualPair hleft hright (readsLiterals_convert relation left hleft)
    (readsLiterals_convert relation right hright) (Or.inl rfl), hnull]
  change (if left.leadsWithInteger = true then _ else none).bind _ = _
  split_ifs <;> rfl

/-- The order of the operands of a symmetric operator does not matter, unless they are lopsided. -/
theorem typing_exchange_iff (hfloat : FloatArithmetic.Commutes) {operator : BinaryOperator}
    (h : operator.isSymmetric = true) (left right : Ast.Expression) (span : Span)
    (expected : Option LogicalType) :
    typing (convertExpressionWithExpected .fold relation (.binary operator left right span)
        expected) =
      typing (convertExpressionWithExpected .fold relation (.binary operator right left span)
        expected) ↔
      ¬Lopsided operator expected left right := by
  rw [convertExpressionWithExpected, convertExpressionWithExpected]
  by_cases hpredicate : nullPredicateOf operator ≠ none ∧
      (left.isNullLiteral = true ∨ right.isNullLiteral = true)
  · rw [convertBinary_null hpredicate.1 hpredicate.2]
    refine iff_of_true rfl fun hlopsided => ?_
    rw [hlopsided.notNull.1, hlopsided.notNull.2] at hpredicate
    exact hpredicate.2.elim Bool.false_ne_true Bool.false_ne_true
  rw [convertBinary_eq hpredicate, convertBinary_eq (by rwa [or_comm]),
    convertOperands_eq (Or.inr h), convertOperands_eq (Or.inr h), typing_bind, typing_bind]
  by_cases hliterals : left.needsContext = true ∧ right.needsContext = true ∧
      pairContext operator expected = none ∧ left.isNullLiteral = right.isNullLiteral
  · obtain ⟨hleft, hright, huntyped, hnull⟩ := hliterals
    rw [huntyped]
    cases hleftNull : left.isNullLiteral with
    | true =>
      obtain ⟨_, rfl⟩ := Ast.Expression.isNullLiteral_iff.mp hleftNull
      obtain ⟨_, rfl⟩ := Ast.Expression.isNullLiteral_iff.mp (hnull.symm.trans hleftNull)
      exact iff_of_true rfl fun hlopsided => hlopsided.leads rfl
    | false =>
      rw [typing_convert_literals relation hleft hright hleftNull,
        typing_convert_literals relation hright hleft (hnull.symm.trans hleftNull),
        constantTyping_comm hfloat h span right left]
      by_cases hleads : left.leadsWithInteger = right.leadsWithInteger
      · rw [hleads]
        exact iff_of_true rfl fun hlopsided => hlopsided.leads hleads
      · have hnone : (if left.leadsWithInteger then constantTyping operator span left right
            else none) = (if right.leadsWithInteger then constantTyping operator span left right
            else none) ↔ ¬(constantTyping operator span left right).isSome = true := by
          rw [Bool.not_eq_true, Option.isSome_eq_false_iff, Option.isNone_iff_eq_none]
          cases hl : left.leadsWithInteger <;> cases hr : right.leadsWithInteger
          case false.false => exact absurd (hl.trans hr.symm) hleads
          case false.true => exact eq_comm
          case true.false => exact Iff.rfl
          case true.true => exact absurd (hl.trans hr.symm) hleads
        rw [hnone, isSome_constantTyping h]
        exact not_congr ⟨fun hdefined => ⟨⟨hleft, hright⟩,
          ⟨hleftNull, hnull.symm.trans hleftNull⟩, huntyped, hleads, hdefined⟩,
          fun hlopsided => hlopsided.defined⟩
  · rw [convertContextualPair_exchanged _ _ hliterals]
    refine iff_of_true ?_ fun hlopsided => hliterals ⟨hlopsided.literals.1, hlopsided.literals.2,
      hlopsided.untyped, hlopsided.notNull.1.trans hlopsided.notNull.2.symm⟩
    rcases convertContextualPair left right (pairContext operator expected) _ _ with - | pair
    · rfl
    · exact typing_joinOperands_comm hfloat h span pair.1 pair.2

end Expressions

/-! ## A negated null -/

section Sample

/-- No field is named. -/
@[reducible] def RustFormat.silent : RustFormat where
  debugStr _ := []

attribute [local instance] RustFormat.silent FloatArithmetic.zero FloatText.silent
  ChronoText.silent

/-- `1`. -/
def Ast.Expression.one : Ast.Expression := .literal (.integer 1) ⟨0, 1⟩

/-- `-null`. -/
def Ast.Expression.negatedNull : Ast.Expression :=
  .unary .negate (.literal .null ⟨5, 9⟩) ⟨4, 9⟩

/-- `1 + -null` is a nullable `int64`, and `-null + 1` is rejected. -/
theorem typing_negatedNull :
    typing (convertExpression ⟨[]⟩ (.binary .add .one .negatedNull ⟨0, 9⟩)) =
      some (.int64, .nullable) ∧
    typing (convertExpression ⟨[]⟩ (.binary .add .negatedNull .one ⟨0, 9⟩)) = none :=
  ⟨rfl, rfl⟩

/-- `1 + null` has the typing of `null + 1`. -/
theorem typing_exchange_null :
    typing (convertExpression ⟨[]⟩ (.binary .add .one (.literal .null ⟨4, 8⟩) ⟨0, 8⟩)) =
      typing (convertExpression ⟨[]⟩ (.binary .add (.literal .null ⟨4, 8⟩) .one ⟨0, 8⟩)) :=
  (typing_exchange_iff ⟨[]⟩ ⟨fun _ _ => ⟨rfl, rfl⟩, fun _ _ => ⟨rfl, rfl⟩⟩ rfl _ _ _ _).mpr
    fun hlopsided => Bool.true_eq_false.mp hlopsided.notNull.2

end Sample

end Elucid
