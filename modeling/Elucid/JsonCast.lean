import Elucid.EngineRuntime

/-!
# Casts of JSON numbers to integers

A cast of a `json` value to an integer type should succeed exactly for the numbers that
are integers of the type, and return them. The engine reads the number as an `i64`, else
as a `u64`, else as a binary64, and only then compares it with the target. The first two
are exact, and the last one rounds.

`convertScalar_number_iff` : the cast is exact if and only if the text is an integer that
fits 64 bits, or the number is a binary64, or neither the number nor the binary64 next to
it is an integer of the target.
-/

namespace Elucid

open BigEndian

variable {t : IntegerType} {q : ℚ}

/-! ## Integers of a type -/

/-- A rational that is an integer of a type. -/
def IntegerType.Represents (t : IntegerType) (q : ℚ) : Prop := q.den = 1 ∧ t.Holds q.num

instance (t : IntegerType) (q : ℚ) : Decidable (t.Represents q) :=
  inferInstanceAs (Decidable (_ ∧ _))

/-- The cast of a rational to an integer type, without a way around another type. -/
def castRational (t : IntegerType) (q : ℚ) : Except InvalidCast ScalarValue :=
  if t.Represents q then .ok (.integer t q.num) else .error .invalidCast

/-- A cast succeeds exactly for the integers of the target, and returns them. -/
def CastsExactly (t : IntegerType) (q : ℚ) (result : Except InvalidCast ScalarValue) : Prop :=
  ∀ value, result = .ok value ↔ ∃ k : Int, q = k ∧ t.Holds k ∧ value = .integer t k

theorem ScalarValue.integer_injective (t : IntegerType) :
    Function.Injective (ScalarValue.integer t) := by
  intro a b h
  cases t <;> simpa [ScalarValue.integer] using h

theorem represents_iff : t.Represents q ↔ ∃ k : Int, q = k ∧ t.Holds k := by
  constructor
  · rintro ⟨hden, hholds⟩
    exact ⟨q.num, (Rat.coe_int_num_of_den_eq_one hden).symm, hholds⟩
  · rintro ⟨k, rfl, hholds⟩
    exact ⟨Rat.den_intCast k, by rwa [Rat.num_intCast]⟩

theorem castRational_intCast {k : Int} :
    castRational t k = if t.Holds k then .ok (.integer t k) else .error .invalidCast := by
  simp [castRational, IntegerType.Represents]

theorem castsExactly_iff {result : Except InvalidCast ScalarValue} :
    CastsExactly t q result ↔ result = castRational t q := by
  have hspec : CastsExactly t q (castRational t q) := by
    intro value
    by_cases hrep : t.Represents q
    · obtain ⟨k, rfl, hholds⟩ := represents_iff.mp hrep
      rw [castRational_intCast, if_pos hholds]
      constructor
      · intro h
        exact ⟨k, rfl, hholds, (Except.ok.inj h).symm⟩
      · rintro ⟨k', hk, _, rfl⟩
        rw [Int.cast_inj.mp hk]
    · rw [castRational, if_neg hrep]
      constructor
      · intro h
        cases h
      · rintro ⟨k, hk, hholds, _⟩
        exact absurd (represents_iff.mpr ⟨k, hk, hholds⟩) hrep
  constructor
  · intro h
    -- There is only one way to fail, so the successes determine a result.
    cases hresult : castRational t q with
    | ok value => exact (h value).mpr ((hspec value).mp hresult)
    | error failure =>
      cases result with
      | ok value => exact absurd ((hspec value).mpr ((h value).mp rfl)) (by simp [hresult])
      | error other =>
        cases failure
        cases other
        rfl
  · rintro rfl
    exact hspec

/-- Two rationals have the same cast if they are equal or no integers of the target. -/
theorem castRational_eq_iff {p : ℚ} :
    castRational t p = castRational t q ↔ p = q ∨ ¬t.Represents p ∧ ¬t.Represents q := by
  by_cases hp : t.Represents p
  · by_cases hq : t.Represents q
    · obtain ⟨a, rfl, ha⟩ := represents_iff.mp hp
      obtain ⟨b, rfl, hb⟩ := represents_iff.mp hq
      rw [castRational_intCast, castRational_intCast, if_pos ha, if_pos hb, Except.ok.injEq,
        (ScalarValue.integer_injective t).eq_iff, Int.cast_inj]
      exact ⟨.inl, fun h => h.resolve_right fun ⟨h, _⟩ => h hp⟩
    · have hne : p ≠ q := fun h => hq (h ▸ hp)
      simp [castRational, hp, hq, hne]
  · by_cases hq : t.Represents q
    · have hne : p ≠ q := fun h => hp (h ▸ hq)
      simp [castRational, hp, hq, hne]
    · simp [castRational, hp, hq]

/-- An integer of a type is far below the greatest binary64. -/
theorem abs_le_of_represents (h : t.Represents q) :
    |q| ≤ 2 ^ 64 := by
  obtain ⟨k, rfl, hlow, hhigh⟩ := represents_iff.mp h
  have hk : |k| ≤ 2 ^ 64 := by
    cases t <;> simp only [IntegerType.minimum, IntegerType.maximum] at hlow hhigh <;>
      exact abs_le.mpr ⟨by omega, by omega⟩
  exact_mod_cast hk

/-! ## The three ways of a number -/

theorem floatToInteger_eq {accepts : ℚ → Prop} [DecidablePred accepts]
    (haccepts : ∀ k : Int, accepts k ↔ t.Holds k) (bits : UInt64) :
    (floatToInteger accepts bits).map (ScalarValue.integer t) =
      if isFiniteF64 bits then castRational t (Binary64.value bits) else .error .invalidCast := by
  unfold floatToInteger castRational IntegerType.Represents
  by_cases hfinite : isFiniteF64 bits = true
  · by_cases hden : (Binary64.value bits).den = 1
    · have hcast := Rat.coe_int_num_of_den_eq_one hden
      have haccepts' : accepts (Binary64.value bits) ↔ t.Holds (Binary64.value bits).num := by
        rw [← haccepts, hcast]
      simp only [hfinite, hden, haccepts', true_and, if_true]
      split_ifs <;> rfl
    · simp only [hden, false_and, and_false, if_false]
      split_ifs
      rfl
  · rw [if_neg fun h => hfinite h.1, if_neg hfinite]
    rfl

theorem okOr_tryFrom (t : IntegerType) (k : Int) :
    (okOr (t.tryFrom k) InvalidCast.invalidCast).map (ScalarValue.integer t) = castRational t k := by
  rw [castRational_intCast, IntegerType.tryFrom]
  split_ifs <;> rfl

section Engine

variable [FloatArithmetic]

/-- A binary64 becomes an integer exactly if it is one that the target holds. -/
theorem numericToScalar_float64 (t : IntegerType) (bits : UInt64) :
    numericToScalar (.float64 bits) t.logicalType =
      if isFiniteF64 bits then castRational t (Binary64.value bits) else .error .invalidCast := by
  cases t with
  | int32 =>
    change (floatToI32 bits).map (ScalarValue.integer .int32) = _
    unfold floatToI32
    refine floatToInteger_eq (fun k => ?_) bits
    rw [IntegerType.holds_int32]
    norm_cast
  | int64 =>
    change (floatToI64 bits).map (ScalarValue.integer .int64) = _
    unfold floatToI64
    refine floatToInteger_eq (fun k => ?_) bits
    rw [IntegerType.holds_int64]
    have hlow : (-9223372036854775808 : ℚ) = ((-2 ^ 63 : ℤ) : ℚ) := by norm_num
    have hhigh : (9223372036854775808 : ℚ) = ((2 ^ 63 : ℤ) : ℚ) := by norm_num
    rw [hlow, hhigh, Int.cast_le, Int.cast_lt]
    omega
  | uint32 =>
    change (floatToU32 bits).map (ScalarValue.integer .uint32) = _
    unfold floatToU32
    refine floatToInteger_eq (fun k => ?_) bits
    rw [IntegerType.holds_uint32]
    norm_cast
  | uint64 =>
    change (floatToU64 bits).map (ScalarValue.integer .uint64) = _
    unfold floatToU64
    refine floatToInteger_eq (fun k => ?_) bits
    rw [IntegerType.holds_uint64]
    have hhigh : (18446744073709551616 : ℚ) = ((2 ^ 64 : ℤ) : ℚ) := by norm_num
    rw [hhigh, Int.cast_nonneg_iff, Int.cast_lt]
    omega

/-- An `i64` becomes the same integer of the target. -/
theorem numericToScalar_signed (t : IntegerType) {k : Int} (hk : IntegerType.int64.Holds k) :
    numericToScalar (.signed k) t.logicalType = castRational t k := by
  cases t with
  | int64 => rw [castRational_intCast, if_pos hk]; rfl
  | int32 => exact okOr_tryFrom .int32 k
  | uint32 => exact okOr_tryFrom .uint32 k
  | uint64 => exact okOr_tryFrom .uint64 k

/-- A `u64` becomes the same integer of the target. -/
theorem numericToScalar_unsigned (t : IntegerType) {k : Int} (hk : IntegerType.uint64.Holds k) :
    numericToScalar (.unsigned k) t.logicalType = castRational t k := by
  cases t with
  | uint64 => rw [castRational_intCast, if_pos hk]; rfl
  | int32 => exact okOr_tryFrom .int32 k
  | uint32 => exact okOr_tryFrom .uint32 k
  | int64 => exact okOr_tryFrom .int64 k

end Engine

/-- An integer text that an `i64` or a `u64` holds. -/
def JsonNumber.IsInteger64 (n : JsonNumber) : Prop :=
  n.IsIntegerText ∧ -2 ^ 63 ≤ n.integerValue ∧ n.integerValue < 2 ^ 64

instance (n : JsonNumber) : Decidable n.IsInteger64 := inferInstanceAs (Decidable (_ ∧ _))

section Numbers

variable [FloatText] {n : JsonNumber}

/-- An integer text of 64 bits is cast exactly. -/
theorem jsonNumber_integer64 [FloatArithmetic] (h : n.IsInteger64) (t : IntegerType) :
    (jsonNumber n.text >>= fun number => numericToScalar number t.logicalType) =
      castRational t n.value := by
  obtain ⟨htext, hlow, hhigh⟩ := h
  rw [JsonNumber.value_of_isIntegerText htext]
  unfold jsonNumber
  rw [JsonNumber.parseI64_text, JsonNumber.parseU64_text]
  by_cases hsigned : n.integerValue < 2 ^ 63
  · rw [if_pos ⟨htext, hlow, hsigned⟩]
    exact numericToScalar_signed t (IntegerType.holds_int64.mpr ⟨hlow, by omega⟩)
  · have hnonneg : n.negative = false := by
      by_contra hneg
      rw [Bool.not_eq_false] at hneg
      have : n.integerValue = -digitsNat n.integer := by
        simp [JsonNumber.integerValue, JsonNumber.sign, hneg]
      omega
    rw [if_neg fun h => hsigned h.2.2, if_pos ⟨htext, hnonneg, hhigh⟩]
    have hcast : ((n.integerValue.toNat : Int)) = n.integerValue := by omega
    change numericToScalar (.unsigned (n.integerValue.toNat : Int)) t.logicalType = _
    rw [hcast]
    exact numericToScalar_unsigned t (IntegerType.holds_uint64.mpr ⟨by omega, by omega⟩)

/-- Every other text is read as a binary64. -/
theorem jsonNumber_of_not_integer64 (h : ¬n.IsInteger64) :
    jsonNumber n.text = (okOr (asF64 n.text) .invalidCast).map .float64 := by
  unfold jsonNumber
  rw [JsonNumber.parseI64_text, JsonNumber.parseU64_text, if_neg, if_neg]
  · have hfilter : (asF64 n.text).filter isFiniteF64 = asF64 n.text := by
      unfold asF64
      rw [Option.filter_filter]
      simp
    dsimp only
    rw [hfilter]
  · rintro ⟨htext, hnonneg, hhigh⟩
    refine h ⟨htext, ?_, hhigh⟩
    have : n.integerValue = digitsNat n.integer := by
      simp [JsonNumber.integerValue, JsonNumber.sign, hnonneg]
    omega
  · rintro ⟨htext, hlow, hhigh⟩
    exact h ⟨htext, hlow, by omega⟩

/-- A text that is read as a binary64 is cast as the number it is rounded to. -/
theorem jsonNumber_rounded [FloatArithmetic] (hreads : FloatText.ReadsNumbers) (h : ¬n.IsInteger64)
    (t : IntegerType) :
    (jsonNumber n.text >>= fun number => numericToScalar number t.logicalType) =
      castRational t (Binary64.format.round n.value) := by
  rw [jsonNumber_of_not_integer64 h]
  rcases lt_or_ge |Binary64.format.round n.value| (2 ^ 1024) with hlt | hge
  · obtain ⟨bits, hparse, hfinite, hvalue⟩ := hreads.nearest n hlt
    have hasF64 : asF64 n.text = some bits := by
      unfold asF64
      rw [hparse]
      simp [hfinite]
    rw [hasF64, ← hvalue]
    exact (numericToScalar_float64 t bits).trans (if_pos hfinite)
  · have hasF64 : asF64 n.text = none := by
      unfold asF64
      rw [Option.filter_eq_none_iff]
      intro bits hbits
      simp [hreads.overflow n hge bits hbits]
    have hnot : ¬t.Represents (Binary64.format.round n.value) := by
      intro hrep
      have hsmall := abs_le_of_represents hrep
      have hpow : (2 : ℚ) ^ 64 < 2 ^ 1024 := pow_lt_pow_right₀ one_lt_two (by decide)
      exact absurd (hge.trans hsmall) (not_le.mpr hpow)
    rw [hasF64, castRational, if_neg hnot]
    rfl

end Numbers

/-! ## Exactness -/

section Casts

variable [JsonText] [FloatText] [FloatArithmetic] [Chrono] [ChronoText] [ChronoFormat]

theorem convertScalar_number {encoded : Text} {n : JsonNumber}
    (hnumber : JsonText.fromStr encoded = some (.number n.text)) (t : IntegerType) :
    convertScalar (.utf8 (some encoded)) .json t.logicalType =
      (jsonNumber n.text >>= fun number => numericToScalar number t.logicalType) := by
  have hjson : t.logicalType ≠ .json := by cases t <;> simp [IntegerType.logicalType]
  have hnumeric : t.logicalType.isNumeric = true := by cases t <;> rfl
  simp only [convertScalar, ScalarValue.isNull, Option.isNone_some, Bool.false_eq_true, if_false,
    if_true, convertJson, hnumber, okOr_some, hjson, hnumeric]
  rfl

/-- The cast of a number to an integer type is exact if and only if the text is an integer
of 64 bits, or the number is a binary64, or rounding it leaves it outside the target. -/
theorem convertScalar_number_iff (hreads : FloatText.ReadsNumbers) {encoded : Text} {n : JsonNumber}
    (hnumber : JsonText.fromStr encoded = some (.number n.text)) (t : IntegerType) :
    CastsExactly t n.value (convertScalar (.utf8 (some encoded)) .json t.logicalType) ↔
      n.IsInteger64 ∨ Binary64.format.IsValue n.value ∨
        ¬t.Represents n.value ∧ ¬t.Represents (Binary64.format.round n.value) := by
  rw [castsExactly_iff, convertScalar_number hnumber]
  by_cases hinteger : n.IsInteger64
  · exact iff_of_true (jsonNumber_integer64 hinteger t) (.inl hinteger)
  · rw [jsonNumber_rounded hreads hinteger, castRational_eq_iff,
      Binary64.format.round_eq_self_iff, and_comm (a := ¬t.Represents n.value)]
    simp only [hinteger, false_or]

end Casts

/-! ## Concrete values -/

/-- `serde_json` on texts that are numbers. -/
@[reducible] def JsonText.numbers : JsonText where
  fromStr text := some (.number text)
  numberFromStr := some
  toText _ := none
  stringText _ := none
  f32Text _ := none
  f64Text _ := none

/-- No operation of the machine is used. -/
@[reducible] def FloatArithmetic.zero : FloatArithmetic where
  f32 := ⟨fun _ _ => 0, fun _ _ => 0, fun _ _ => 0, fun _ _ => 0, fun _ => 0, fun _ => 0,
    fun _ _ => some .eq, fun _ _ => .eq⟩
  f64 := ⟨fun _ _ => 0, fun _ _ => 0, fun _ _ => 0, fun _ _ => 0, fun _ => 0, fun _ => 0,
    fun _ _ => some .eq, fun _ _ => .eq⟩
  widen _ := 0
  narrow _ := 0

/-- No time is written. -/
@[reducible] def ChronoFormat.silent : ChronoFormat where
  toRfc3339 _ := []

/-- `250e-1`. -/
def JsonNumber.twentyFive : JsonNumber where
  negative := false
  integer := Text.ofString "250"
  fraction := []
  exponent := some ⟨false, some true, Text.ofString "1", by decide, by decide⟩
  integer_ne_nil := by decide
  integer_all := by decide
  integer_head := by decide
  fraction_all := by decide

/-- `9007199254740993.0`. -/
def JsonNumber.beyondMantissa : JsonNumber where
  negative := false
  integer := Text.ofString "9007199254740993"
  fraction := Text.ofString "0"
  exponent := none
  integer_ne_nil := by decide
  integer_all := by decide
  integer_head := by decide
  fraction_all := by decide

section Sample

attribute [local instance] JsonText.numbers FloatText.rounding FloatArithmetic.zero
  Chrono.unbounded ChronoText.silent ChronoFormat.silent

/-- `250e-1` is a binary64, so that its cast is exact. -/
theorem twentyFive_casts : CastsExactly .int32 JsonNumber.twentyFive.value
    (convertScalar (.utf8 (some JsonNumber.twentyFive.text)) .json IntegerType.int32.logicalType) :=
  (convertScalar_number_iff FloatText.rounding_readsNumbers rfl .int32).mpr
    (.inr (.inl (Binary64.format.round_eq_self_iff.mp (by decide +kernel))))

/-- `9007199254740993.0` is an `i64`, and its cast returns the number below. -/
theorem beyondMantissa_rounds :
    ¬CastsExactly .int64 JsonNumber.beyondMantissa.value (convertScalar
      (.utf8 (some JsonNumber.beyondMantissa.text)) .json IntegerType.int64.logicalType) ∧
    JsonNumber.beyondMantissa.value = 9007199254740993 ∧
    convertScalar (.utf8 (some (Text.ofString "9007199254740993.0"))) .json .int64 =
      .ok (.int64 (some 9007199254740992)) := by
  have hvalue : JsonNumber.beyondMantissa.value = 9007199254740993 := by decide +kernel
  have hcast : convertScalar (.utf8 (some (Text.ofString "9007199254740993.0"))) .json .int64 =
      .ok (.int64 (some 9007199254740992)) := by decide +kernel
  have htext : JsonNumber.beyondMantissa.text = Text.ofString "9007199254740993.0" := by decide
  refine ⟨fun hexact => ?_, hvalue, hcast⟩
  rw [hvalue, htext] at hexact
  obtain ⟨k, hk, _, heq⟩ := (hexact _).mp hcast
  have hk' : k = 9007199254740993 := by exact_mod_cast hk.symm
  subst hk'
  exact absurd heq (by decide)

end Sample

end Elucid
