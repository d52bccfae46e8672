import Elucid.DecimalText
import Elucid.JsonCast
import Elucid.QueryAnalysis

/-!
# Casts

`cast` and `try_cast` convert a value in the same way, and differ where the conversion fails.
Nothing but a null becomes null otherwise : the null of a column, or the null of a JSON text
(`exists_isNull_convertScalar_iff`).

Between integers, and from their decimal texts, a cast keeps the number or fails
(`casts_exact`).
-/

namespace Elucid

open BigEndian

/-! ## Values that are not null -/

/-- A conversion that gives no null. -/
def GivesValues (x : Except InvalidCast ScalarValue) : Prop :=
  ∀ result, x = .ok result → result.isNull = false

namespace GivesValues

variable {α : Type}

theorem ok {value : ScalarValue} (h : value.isNull = false) : GivesValues (.ok value) := by
  rintro _ ⟨⟩
  exact h

theorem error (failure : InvalidCast) : GivesValues (.error failure) := fun _ h => by cases h

theorem map {x : Except InvalidCast α} {f : α → ScalarValue} (h : ∀ a, (f a).isNull = false) :
    GivesValues (x.map f) := by
  intro result hresult
  obtain ⟨a, -, rfl⟩ := map_eq_ok.mp hresult
  exact h a

theorem bind {x : Except InvalidCast α} {f : α → Except InvalidCast ScalarValue}
    (h : ∀ a, GivesValues (f a)) : GivesValues (x >>= f) := by
  intro result hresult
  obtain ⟨a, -, hresult⟩ := bind_eq_ok.mp hresult
  exact h a result hresult

theorem ite {condition : Prop} [Decidable condition] {x y : Except InvalidCast ScalarValue}
    (hx : GivesValues x) (hy : GivesValues y) : GivesValues (if condition then x else y) := by
  split_ifs
  · exact hx
  · exact hy

end GivesValues

theorem givesValues_numericToScalar [FloatArithmetic] (value : NumericValue)
    (target : LogicalType) : GivesValues (numericToScalar value target) := by
  cases target with
  | int32 | int64 | uint32 | uint64 | float32 | float64 => exact .map fun _ => rfl
  | _ => exact .error _

section Casts

variable {value : ScalarValue} {digits : Text} {source target : LogicalType} {number : Int}
  {t : IntegerType}
variable {kind : RuntimeFailureKind} {s : IntegerType}

/-- An integer is read from its digits, and with a minus from the digits behind it. -/
theorem IntegerType.fromStr_digits (t : IntegerType) (hne : digits ≠ [])
    (hall : digits.all isDigit = true) : t.fromStr digits = t.tryFrom (digitsNat digits) := by
  have hvalue : digitsValue digits = some (digitsNat digits) := by
    rw [digitsValue_eq, if_pos ⟨hne, hall⟩]
  have hhead : ∀ rest, digits ≠ 0x2D :: rest ∧ digits ≠ 0x2B :: rest := by
    intro rest
    constructor <;> rintro rfl <;> simp [isDigit] at hall
  unfold fromStr
  split
  · exact absurd rfl (hhead _).1
  · exact absurd rfl (hhead _).2
  · rw [hvalue]
    rfl

theorem IntegerType.fromStr_minus (hsigned : t.minimum < 0) (hne : digits ≠ [])
    (hall : digits.all isDigit = true) :
    t.fromStr (0x2D :: digits) = t.tryFrom (-(digitsNat digits : Int)) := by
  rw [fromStr, digitsValue_eq, if_pos ⟨hne, hall⟩]
  exact if_pos hsigned

theorem validUnsignedDecimal_digits (hne : digits ≠ []) (hall : digits.all isDigit = true) :
    validUnsignedDecimal digits = true := by
  simp [validUnsignedDecimal, hne, hall]

theorem validSignedDecimal_minus (hne : digits ≠ []) (hall : digits.all isDigit = true) :
    validSignedDecimal (0x2D :: digits) = true :=
  validUnsignedDecimal_digits hne hall

theorem validSignedDecimal_digits (hne : digits ≠ []) (hall : digits.all isDigit = true) :
    validSignedDecimal digits = true := by
  unfold validSignedDecimal
  split
  · simp [isDigit] at hall
  · exact validUnsignedDecimal_digits hne hall

variable [FloatArithmetic]

/-- The number of an integer value is converted exactly. -/
theorem numericToScalar_integer (t : IntegerType) (h : s.Holds number) :
    (numericValue (.integer s number) s.logicalType >>= fun value =>
      numericToScalar value t.logicalType) = castRational t number := by
  cases s with
  | int32 =>
    rw [IntegerType.holds_int32] at h
    exact numericToScalar_signed t (IntegerType.holds_int64.mpr ⟨by omega, by omega⟩)
  | int64 => exact numericToScalar_signed t h
  | uint32 =>
    rw [IntegerType.holds_uint32] at h
    exact numericToScalar_unsigned t (IntegerType.holds_uint64.mpr ⟨by omega, by omega⟩)
  | uint64 => exact numericToScalar_unsigned t h

variable [JsonText] [FloatText] [ChronoText]

/-- The cast of a text gives a value or fails. -/
theorem givesValues_utf8ToScalar (value : ScalarValue) (target : LogicalType) :
    GivesValues (utf8ToScalar value target) := by
  unfold utf8ToScalar
  split
  · cases target with
    | bool => exact .ite (.ok rfl) (.ite (.ok rfl) (.error _))
    | int32 | int64 | uint32 | uint64 => exact .ite (.map fun _ => rfl) (.error _)
    | float32 => exact .bind fun _ => .ite (.ok rfl) (.error _)
    | float64 => exact .map fun _ => rfl
    | datetime => exact .bind fun _ => .ite (.error _) (.ok rfl)
    | eid => exact .map fun _ => rfl
    | _ => exact .error _
  · exact .error _

variable [Chrono] [ChronoFormat]

/-- The function that `cast_udf` makes. -/
def evaluateCast (kind : Ir.CastKind) (source target : LogicalType) (value : ScalarValue) :
    Except RuntimeFailureKind ScalarValue :=
  match convertScalar value source target with
  | .ok converted => .ok converted
  | .error _ =>
    match kind with
    | .nullOnFailure => .ok (nullScalar target)
    | .lossless => .error .cast
    | .strict => .error .cast

theorem givesValues_convertNonJson (h : value.isNull = false) (source target : LogicalType) :
    GivesValues (convertNonJson value source target) :=
  .ite (.ok h) (.ite (.map fun _ => rfl) (.ite (.map fun _ => rfl)
    (.ite (givesValues_utf8ToScalar value target)
      (.ite (.bind fun number => givesValues_numericToScalar number target) (.error _)))))

/-- The null of a JSON text, on its way to a column of another type. -/
def IsJsonNull (source target : LogicalType) (value : ScalarValue) : Prop :=
  source = .json ∧ target ≠ .json ∧
    ∃ text, value = .utf8 (some text) ∧ JsonText.fromStr text = some .null

/-- The null of a JSON text is the only value that becomes null. -/
theorem exists_isNull_convertScalar_iff (h : value.isNull = false) (source target : LogicalType) :
    (∃ result, convertScalar value source target = .ok result ∧ result.isNull = true) ↔
      IsJsonNull source target value := by
  have hscalar : convertScalar value source target =
      if source = .json then convertJson value target else convertNonJson value source target :=
    if_neg (by rw [h]; exact Bool.false_ne_true)
  rw [hscalar]
  constructor
  · rintro ⟨result, hresult, hnull⟩
    have hvalues : ¬GivesValues (.ok result) := fun hgives =>
      absurd hnull (by rw [hgives result rfl]; exact Bool.false_ne_true)
    split_ifs at hresult with hsource
    · unfold convertJson at hresult
      split at hresult
      · next encoded =>
        obtain ⟨json, hjson, hresult⟩ := bind_eq_ok.mp hresult
        by_cases htarget : target = .json
        · rw [if_pos htarget] at hresult
          exact absurd (hresult ▸ GivesValues.ok h) hvalues
        · rw [if_neg htarget] at hresult
          cases json with
          | null => exact ⟨hsource, htarget, encoded, rfl, okOr_eq_ok hjson⟩
          | bool value =>
            exact absurd (hresult ▸ givesValues_convertNonJson rfl _ _) hvalues
          | string value =>
            exact absurd (hresult ▸ givesValues_convertNonJson rfl _ _) hvalues
          | number text =>
            refine absurd (hresult ▸ GivesValues.ite (.bind fun number => ?_) (.error _)) hvalues
            exact givesValues_numericToScalar number target
          | array values => cases hresult
          | object entries => cases hresult
      · cases hresult
    · exact absurd (hresult ▸ givesValues_convertNonJson h _ _) hvalues
  · rintro ⟨rfl, htarget, text, rfl, hnull⟩
    refine ⟨nullScalar target, ?_, isNull_nullScalar target⟩
    rw [if_pos rfl, convertJson, hnull, okOr_some, ok_bind, if_neg htarget]

/-! ## Failures -/

/-- `try_cast` gives what `cast` gives. -/
theorem evaluateCast_nullOnFailure_of_ok {result : ScalarValue}
    (h : evaluateCast .strict source target value = .ok result) :
    evaluateCast .nullOnFailure source target value = .ok result := by
  unfold evaluateCast at h ⊢
  split at h
  · exact h
  · cases h

/-- `try_cast` gives null where `cast` fails. -/
theorem evaluateCast_nullOnFailure_of_error
    (h : evaluateCast .strict source target value = .error kind) :
    evaluateCast .nullOnFailure source target value = .ok (nullScalar target) := by
  unfold evaluateCast at h ⊢
  split at h
  · cases h
  · rfl

theorem evaluateCast_strict_eq_error (h : evaluateCast .strict source target value = .error kind) :
    kind = .cast := by
  unfold evaluateCast at h
  split at h
  · cases h
  · cases h
    rfl

theorem evaluateCast_of_isNull (h : value.isNull = true) (kind : Ir.CastKind)
    (source target : LogicalType) :
    evaluateCast kind source target value = .ok (nullScalar target) := by
  unfold evaluateCast convertScalar
  rw [if_pos h]

/-- `try_cast` makes a value null if `cast` fails, or if it is the null of a JSON text. -/
theorem exists_isNull_evaluateCast_iff (h : value.isNull = false) (source target : LogicalType) :
    (∃ result, evaluateCast .nullOnFailure source target value = .ok result ∧
        result.isNull = true) ↔
      evaluateCast .strict source target value = .error .cast ∨
        IsJsonNull source target value := by
  rw [← exists_isNull_convertScalar_iff h]
  cases hconverted : convertScalar value source target with
  | ok converted =>
    have hstrict : evaluateCast .strict source target value = .ok converted := by
      rw [evaluateCast.eq_def, hconverted]
    rw [hstrict, evaluateCast_nullOnFailure_of_ok hstrict]
    simp
  | error failure =>
    have hstrict : evaluateCast .strict source target value = .error .cast := by
      rw [evaluateCast.eq_def, hconverted]
    rw [hstrict, evaluateCast_nullOnFailure_of_error hstrict]
    simp

/-! ## Integers -/

/-- The cast of an integer that keeps the number, or fails. -/
def exactCast (t : IntegerType) (number : Int) : Except RuntimeFailureKind ScalarValue :=
  if t.Holds number then .ok (.integer t number) else .error .cast

theorem evaluateCast_of_convertScalar
    (h : convertScalar value source t.logicalType = castRational t number) :
    evaluateCast .strict source t.logicalType value = exactCast t number := by
  rw [evaluateCast, h, castRational_intCast, exactCast]
  split_ifs <;> rfl

theorem convertScalar_integer (h : s.Holds number) :
    convertScalar (.integer s number) s.logicalType t.logicalType = castRational t number := by
  rcases eq_or_ne s t with rfl | hne
  · rw [castRational_intCast, if_pos h]
    cases s <;> rfl
  · rw [← numericToScalar_integer t h]
    cases s <;> cases t <;> first | exact absurd rfl hne | rfl

/-- A text that an integer type reads is cast as the number that it reads. -/
theorem convertScalar_text {text : Text} (hsigned : t.minimum < 0 → validSignedDecimal text = true)
    (hunsigned : ¬t.minimum < 0 → validUnsignedDecimal text = true)
    (hread : t.fromStr text = t.tryFrom number) :
    convertScalar (.utf8 (some text)) .utf8 t.logicalType = castRational t number := by
  rw [← okOr_tryFrom, ← hread]
  cases t with
  | int32 => exact if_pos (hsigned (by decide))
  | int64 => exact if_pos (hsigned (by decide))
  | uint32 => exact if_pos (hunsigned (by decide))
  | uint64 => exact if_pos (hunsigned (by decide))

/-- `cast` and `try_cast` agree : they give the same value, or `cast` fails and `try_cast` gives
null. A null gives null under both, and a value gives null only if `cast` fails or if it is the
null of a JSON text. Between integer types, and from a decimal text, the cast is exact. -/
theorem casts_exact :
    (∀ (source target : LogicalType) (value : ScalarValue), castIsDefined source target = true →
      (∀ result, evaluateCast .strict source target value = .ok result →
        evaluateCast .nullOnFailure source target value = .ok result) ∧
      (∀ kind, evaluateCast .strict source target value = .error kind →
        kind = .cast ∧
          evaluateCast .nullOnFailure source target value = .ok (nullScalar target)) ∧
      (value.isNull = true → ∀ kind, evaluateCast kind source target value =
        .ok (nullScalar target)) ∧
      (value.isNull = false →
        ((∃ result, evaluateCast .nullOnFailure source target value = .ok result ∧
            result.isNull = true) ↔
          evaluateCast .strict source target value = .error .cast ∨
            IsJsonNull source target value))) ∧
    (∀ (s t : IntegerType) (number : Int), s.Holds number →
      evaluateCast .strict s.logicalType t.logicalType (.integer s number) =
        exactCast t number) ∧
    ∀ (t : IntegerType) (digits : Text), digits ≠ [] → digits.all isDigit = true →
      evaluateCast .strict .utf8 t.logicalType (.utf8 (some digits)) =
        exactCast t (digitsNat digits) ∧
      (t.minimum < 0 →
        evaluateCast .strict .utf8 t.logicalType (.utf8 (some (0x2D :: digits))) =
          exactCast t (-(digitsNat digits : Int))) := by
  refine ⟨fun source target value _ => ⟨fun _ => evaluateCast_nullOnFailure_of_ok,
    fun _ h => ⟨evaluateCast_strict_eq_error h, evaluateCast_nullOnFailure_of_error h⟩,
    fun hnull kind => evaluateCast_of_isNull hnull kind source target,
    fun hvalue => exists_isNull_evaluateCast_iff hvalue source target⟩, fun s t number h => ?_,
    fun t digits hne hall => ⟨?_, fun hsigned => ?_⟩⟩
  · exact evaluateCast_of_convertScalar (convertScalar_integer h)
  · exact evaluateCast_of_convertScalar (convertScalar_text
      (fun _ => validSignedDecimal_digits hne hall)
      (fun _ => validUnsignedDecimal_digits hne hall) (t.fromStr_digits hne hall))
  · exact evaluateCast_of_convertScalar (convertScalar_text
      (fun _ => validSignedDecimal_minus hne hall)
      (fun hunsigned => absurd hsigned hunsigned) (IntegerType.fromStr_minus hsigned hne hall))

end Casts

section Sample

attribute [local instance] JsonText.numbers FloatText.silent FloatArithmetic.zero Chrono.unbounded
  ChronoText.silent ChronoFormat.silent

/-- An integer that fits, one that does not, a null and a text. -/
theorem casts_exact_samples :
    evaluateCast .strict .int64 .int32 (.int64 (some 5)) = .ok (.int32 (some 5)) ∧
    evaluateCast .strict .int64 .int32 (.int64 (some (2 ^ 40))) = .error .cast ∧
    evaluateCast .nullOnFailure .int64 .int32 (.int64 (some (2 ^ 40))) = .ok (.int32 none) ∧
    evaluateCast .strict .int64 .int32 (.int64 none) = .ok (.int32 none) ∧
    evaluateCast .strict .utf8 .int32 (.utf8 (some (Text.ofString "-7"))) =
      .ok (.int32 (some (-7))) := by
  obtain ⟨hagree, hintegers, htexts⟩ := casts_exact
  have hfails := hintegers .int64 .int32 (2 ^ 40) (by decide)
  have hdefined : castIsDefined .int64 .int32 = true := rfl
  refine ⟨hintegers .int64 .int32 5 (by decide), hfails,
    ((hagree .int64 .int32 _ hdefined).2.1 _ hfails).2,
    (hagree .int64 .int32 _ hdefined).2.2.1 rfl .strict, ?_⟩
  exact (htexts .int32 [0x37] (by decide) (by decide)).2 (by decide)

end Sample

end Elucid
