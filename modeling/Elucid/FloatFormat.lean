import Mathlib.Data.Int.Log
import Mathlib.Data.Rat.Floor
import Mathlib.Tactic.Linarith
import Mathlib.Tactic.Ring

/-!
# Binary floating point formats

A format is given by the number of significant bits and the least exponent. Its values are
the rationals `m * 2 ^ e` in between, with no greatest exponent. `FloatFormat.round` takes
a rational to the nearest value, and to the even one of two that are equally near.

`abs_sub_round_le` : no value of the format is nearer than the rounded one.
`round_eq_self_iff` : rounding is exact at the values of the format only.
`Binary64.value_ofValue` : a value below `2 ^ 1024` is the one of its bits.
-/

/-! ## Rounding to an integer -/

/-- The nearest integer, the even one of two. -/
def roundHalfEven (q : ℚ) : ℤ :=
  if Int.fract q < 1 / 2 then ⌊q⌋
  else if 1 / 2 < Int.fract q then ⌊q⌋ + 1
  else if ⌊q⌋ % 2 = 0 then ⌊q⌋
  else ⌊q⌋ + 1

/-- The rounded integer is below or above, on the side that is not farther. -/
theorem roundHalfEven_cases (q : ℚ) :
    (roundHalfEven q = ⌊q⌋ ∧ Int.fract q ≤ 1 / 2) ∨
      (roundHalfEven q = ⌊q⌋ + 1 ∧ 1 / 2 ≤ Int.fract q) := by
  unfold roundHalfEven
  split_ifs with hlow hhigh heven
  · exact .inl ⟨rfl, hlow.le⟩
  · exact .inr ⟨rfl, hhigh.le⟩
  · exact .inl ⟨rfl, not_lt.mp hhigh⟩
  · exact .inr ⟨rfl, not_lt.mp hlow⟩

theorem abs_sub_roundHalfEven_le (q : ℚ) (k : ℤ) : |q - roundHalfEven q| ≤ |q - k| := by
  have hq : q = ⌊q⌋ + Int.fract q := (Int.floor_add_fract q).symm
  have hnonneg := Int.fract_nonneg q
  have hlt := Int.fract_lt_one q
  -- The distance to an integer is at least the fraction, or at least what it lacks to one.
  have hfar : Int.fract q ≤ |q - k| ∧ k ≤ ⌊q⌋ ∨ 1 - Int.fract q ≤ |q - k| ∧ ⌊q⌋ + 1 ≤ k := by
    rcases le_or_gt k ⌊q⌋ with hk | hk
    · have : (k : ℚ) ≤ ⌊q⌋ := by exact_mod_cast hk
      exact .inl ⟨le_trans (by linarith) (le_abs_self _), hk⟩
    · have : (⌊q⌋ : ℚ) + 1 ≤ k := by exact_mod_cast hk
      exact .inr ⟨le_trans (by linarith) (neg_le_abs _), hk⟩
  rcases roundHalfEven_cases q with ⟨hround, hhalf⟩ | ⟨hround, hhalf⟩
  · have hself : |q - roundHalfEven q| = Int.fract q := by
      rw [hround, Int.self_sub_floor, abs_of_nonneg hnonneg]
    rcases hfar with ⟨h, _⟩ | ⟨h, _⟩ <;> linarith
  · have hself : |q - roundHalfEven q| = 1 - Int.fract q := by
      rw [hround, Int.cast_add, Int.cast_one, ← sub_sub, Int.self_sub_floor, abs_sub_comm,
        abs_of_nonneg (by linarith)]
    rcases hfar with ⟨h, _⟩ | ⟨h, _⟩ <;> linarith

theorem abs_roundHalfEven_le {q : ℚ} {n : ℤ} (h : |q| ≤ n) : |roundHalfEven q| ≤ n := by
  obtain ⟨hlow, hhigh⟩ := abs_le.mp h
  have hfloor : -n ≤ ⌊q⌋ := Int.le_floor.mpr (by exact_mod_cast hlow)
  have hfloor' : ⌊q⌋ ≤ n := by exact_mod_cast (Int.floor_le q).trans hhigh
  rcases roundHalfEven_cases q with ⟨hround, _⟩ | ⟨hround, hhalf⟩
  · rw [hround]
    exact abs_le.mpr ⟨hfloor, hfloor'⟩
  · -- Above a half the integer below is not the bound itself.
    have hne : ⌊q⌋ ≠ n := by
      intro heq
      have hq := Int.floor_add_fract q
      rw [heq] at hq
      linarith
    rw [hround]
    exact abs_le.mpr ⟨by omega, by omega⟩

theorem roundHalfEven_intCast (k : ℤ) : roundHalfEven k = k := by
  simp [roundHalfEven]

/-! ## Formats -/

/-- The number of significant bits, and the least exponent. -/
structure FloatFormat where
  precision : ℕ
  minExponent : ℤ
  precision_pos : 0 < precision

namespace FloatFormat

variable (f : FloatFormat) {q v : ℚ}

/-- A rational of the format. -/
def IsValue (q : ℚ) : Prop :=
  ∃ m e : ℤ, |m| < 2 ^ f.precision ∧ f.minExponent ≤ e ∧ q = m * 2 ^ e

/-- The exponent of the last significant bit. -/
def exponentOf (q : ℚ) : ℤ := max f.minExponent (Int.log 2 |q| + 1 - f.precision)

/-- The nearest value of the format, the even one of two. -/
def round (q : ℚ) : ℚ := roundHalfEven (q / 2 ^ f.exponentOf q) * 2 ^ f.exponentOf q

theorem two_zpow_pos (e : ℤ) : (0 : ℚ) < 2 ^ e := zpow_pos two_pos e

theorem minExponent_le_exponentOf : f.minExponent ≤ f.exponentOf q := le_max_left _ _

/-- The significand has no more bits than the format. -/
theorem abs_div_lt : |q / 2 ^ f.exponentOf q| < 2 ^ f.precision := by
  have hlog : |q| < (2 : ℚ) ^ (Int.log 2 |q| + 1) := by
    exact_mod_cast Int.lt_zpow_succ_log_self (b := 2) one_lt_two |q|
  rw [abs_div, abs_of_pos (two_zpow_pos _), div_lt_iff₀ (two_zpow_pos _), ← zpow_natCast,
    ← zpow_add₀ two_ne_zero]
  refine hlog.trans_le (zpow_le_zpow_right₀ one_le_two ?_)
  have := le_max_right f.minExponent (Int.log 2 |q| + 1 - f.precision)
  unfold exponentOf
  omega

theorem isValue_round : f.IsValue (f.round q) := by
  have hle : |roundHalfEven (q / 2 ^ f.exponentOf q)| ≤ 2 ^ f.precision :=
    abs_roundHalfEven_le (by exact_mod_cast f.abs_div_lt.le)
  rcases hle.lt_or_eq with hlt | heq
  · exact ⟨_, _, hlt, f.minExponent_le_exponentOf, rfl⟩
  · -- A carry : the power of two has the next exponent.
    obtain ⟨p, hp⟩ := Nat.exists_eq_succ_of_ne_zero f.precision_pos.ne'
    have hpow : (2 : ℤ) ^ f.precision = 2 ^ p * 2 := by rw [hp, pow_succ]
    have hmin := f.minExponent_le_exponentOf (q := q)
    have hpos : (0 : ℤ) < 2 ^ p := by positivity
    rcases abs_eq (by positivity) |>.mp heq with h | h
    · refine ⟨2 ^ p, f.exponentOf q + 1, ?_, by omega, ?_⟩
      · rw [abs_of_pos hpos, hpow]; omega
      · rw [round, h, hpow, zpow_add_one₀ two_ne_zero]; push_cast; ring
    · refine ⟨-2 ^ p, f.exponentOf q + 1, ?_, by omega, ?_⟩
      · rw [abs_neg, abs_of_pos hpos, hpow]; omega
      · rw [round, h, hpow, zpow_add_one₀ two_ne_zero]; push_cast; ring

/-- Rounding is nearest among the multiples of the last significant bit. -/
theorem abs_sub_round_le_mul (k : ℤ) : |q - f.round q| ≤ |q - k * 2 ^ f.exponentOf q| := by
  have hpos := two_zpow_pos (f.exponentOf q)
  have hscale : ∀ n : ℤ, |q - n * 2 ^ f.exponentOf q| =
      |q / 2 ^ f.exponentOf q - n| * 2 ^ f.exponentOf q := by
    intro n
    rw [← abs_of_pos hpos, ← abs_mul, abs_of_pos hpos, sub_mul, div_mul_cancel₀ _ hpos.ne']
  rw [round, hscale, hscale]
  exact mul_le_mul_of_nonneg_right (abs_sub_roundHalfEven_le _ k) hpos.le

/-- A value of the format with a larger exponent is a multiple of the last significant
bit. -/
theorem exists_eq_mul {m e : ℤ} (h : f.exponentOf q ≤ e) :
    ∃ k : ℤ, (m : ℚ) * 2 ^ e = k * 2 ^ f.exponentOf q := by
  obtain ⟨n, hn⟩ := Int.le.dest h
  refine ⟨m * 2 ^ n, ?_⟩
  rw [← hn, zpow_add₀ two_ne_zero, zpow_natCast]
  push_cast
  ring

/-- No value of the format is nearer. -/
theorem abs_sub_round_le (hv : f.IsValue v) : |q - f.round q| ≤ |q - v| := by
  obtain ⟨m, e, hm, hmin, rfl⟩ := hv
  rcases le_or_gt (f.exponentOf q) e with he | he
  · obtain ⟨k, hk⟩ := f.exists_eq_mul (m := m) he
    rw [hk]
    exact f.abs_sub_round_le_mul k
  rcases eq_or_ne q 0 with rfl | hq
  · rw [round, zero_div, ← Int.cast_zero, roundHalfEven_intCast, Int.cast_zero, zero_mul, sub_zero,
      abs_zero]
    exact abs_nonneg _
  -- The value is below the power of two under `|q|`, which is a multiple itself.
  have hexp : f.exponentOf q = Int.log 2 |q| + 1 - f.precision :=
    (max_choice _ _).resolve_left fun h => by unfold exponentOf at he; omega
  have hlog : (2 : ℚ) ^ Int.log 2 |q| ≤ |q| := by
    exact_mod_cast Int.zpow_log_le_self (b := 2) one_lt_two (abs_pos.mpr hq)
  have hvalue : |(m : ℚ) * 2 ^ e| ≤ 2 ^ Int.log 2 |q| := by
    have hm' : |(m : ℚ)| ≤ 2 ^ (f.precision : ℤ) := by
      rw [zpow_natCast]
      exact_mod_cast hm.le
    calc |(m : ℚ) * 2 ^ e| = |(m : ℚ)| * 2 ^ e := by rw [abs_mul, abs_of_pos (two_zpow_pos e)]
      _ ≤ 2 ^ (f.precision : ℤ) * 2 ^ e := mul_le_mul_of_nonneg_right hm' (two_zpow_pos e).le
      _ = 2 ^ (f.precision + e) := (zpow_add₀ two_ne_zero _ _).symm
      _ ≤ 2 ^ Int.log 2 |q| := zpow_le_zpow_right₀ one_le_two (by omega)
  have hfar : |q| - 2 ^ Int.log 2 |q| ≤ |q - m * 2 ^ e| := by
    have := abs_sub_abs_le_abs_sub q (m * 2 ^ e)
    linarith
  have hmultiple : f.exponentOf q ≤ Int.log 2 |q| := by
    have := f.precision_pos
    omega
  refine le_trans ?_ hfar
  rcases abs_cases q with ⟨habs, _⟩ | ⟨habs, _⟩
  · obtain ⟨k, hk⟩ := f.exists_eq_mul (m := 1) hmultiple
    refine (f.abs_sub_round_le_mul k).trans ?_
    rw [← hk, Int.cast_one, one_mul, abs_of_nonneg (by linarith)]
    linarith
  · obtain ⟨k, hk⟩ := f.exists_eq_mul (m := -1) hmultiple
    refine (f.abs_sub_round_le_mul k).trans ?_
    rw [← hk, Int.cast_neg, Int.cast_one, neg_one_mul, sub_neg_eq_add,
      abs_of_nonpos (by linarith)]
    linarith

/-- Rounding is exact at the values of the format only. -/
theorem round_eq_self_iff : f.round q = q ↔ f.IsValue q := by
  refine ⟨fun h => h ▸ f.isValue_round, fun h => ?_⟩
  have hzero : |q - f.round q| ≤ 0 := by
    simpa only [sub_self, abs_zero] using f.abs_sub_round_le (q := q) h
  exact (sub_eq_zero.mp (abs_nonpos_iff.mp hzero)).symm

end FloatFormat

/-! ## Bits -/

namespace Binary64

/-- The format of a binary64, but for its greatest exponent. -/
def format : FloatFormat := ⟨53, -1074, by decide⟩

/-- The biased exponent. -/
def biasedExponent (bits : UInt64) : ℕ := bits.toNat / 2 ^ 52 % 2 ^ 11

/-- The fraction, below the implicit bit. -/
def fraction (bits : UInt64) : ℕ := bits.toNat % 2 ^ 52

/-- Neither an infinity nor a NaN. -/
def Finite (bits : UInt64) : Prop := biasedExponent bits ≠ 2 ^ 11 - 1

instance (bits : UInt64) : Decidable (Finite bits) := inferInstanceAs (Decidable (_ ≠ _))

/-- The absolute value of finite bits. -/
def magnitude (bits : UInt64) : ℚ :=
  if biasedExponent bits = 0 then fraction bits * 2 ^ (-1074 : ℤ)
  else (2 ^ 52 + fraction bits) * 2 ^ ((biasedExponent bits : ℤ) - 1075)

/-- The value of finite bits. -/
def value (bits : UInt64) : ℚ :=
  if bits.toNat < 2 ^ 63 then magnitude bits else -magnitude bits

/-- The significand of a value, with the implicit bit. -/
def significand (q : ℚ) : ℕ := ⌊|q| / 2 ^ format.exponentOf q⌋₊

/-- The bits of the absolute value of a value. -/
def magnitudeBits (q : ℚ) : ℕ :=
  if significand q < 2 ^ 52 then significand q
  else (format.exponentOf q + 1075).toNat * 2 ^ 52 + (significand q - 2 ^ 52)

/-- The bits of a value. -/
def ofValue (q : ℚ) : UInt64 :=
  UInt64.ofNat ((if q < 0 then 2 ^ 63 else 0) + magnitudeBits q)

variable {q : ℚ}

/-- A value is its significand times the last significant bit. -/
theorem significand_mul (h : format.IsValue q) :
    (significand q : ℚ) * 2 ^ format.exponentOf q = |q| := by
  have hpos := FloatFormat.two_zpow_pos (format.exponentOf q)
  have hround := format.round_eq_self_iff.mpr h
  have habs : |q| / 2 ^ format.exponentOf q =
      ((roundHalfEven (q / 2 ^ format.exponentOf q)).natAbs : ℕ) := by
    rw [div_eq_iff hpos.ne', Nat.cast_natAbs, Int.cast_abs]
    conv_lhs => rw [← hround]
    rw [FloatFormat.round, abs_mul, abs_of_pos hpos]
  rw [significand, habs, Nat.floor_natCast, ← habs, div_mul_cancel₀ _ hpos.ne']

theorem significand_lt (h : format.IsValue q) : significand q < 2 ^ 53 := by
  have hlt := format.abs_div_lt (q := q)
  rw [abs_div, abs_of_pos (FloatFormat.two_zpow_pos _), div_lt_iff₀ (FloatFormat.two_zpow_pos _),
    ← significand_mul h] at hlt
  exact_mod_cast lt_of_mul_lt_mul_right hlt (FloatFormat.two_zpow_pos _).le

/-- A significand without the implicit bit has the least exponent. -/
theorem exponentOf_eq_of_significand_lt (h : format.IsValue q) (hlt : significand q < 2 ^ 52) :
    significand q = 0 ∨ format.exponentOf q = -1074 := by
  rcases eq_or_ne q 0 with rfl | hq
  · left
    simp [significand]
  right
  refine (max_choice _ _).resolve_right fun hexp => ?_
  have hlog : (2 : ℚ) ^ Int.log 2 |q| ≤ |q| := by
    exact_mod_cast Int.zpow_log_le_self (b := 2) one_lt_two (abs_pos.mpr hq)
  have hexp' : format.exponentOf q = Int.log 2 |q| + 1 - 53 := hexp
  have hlog' : Int.log 2 |q| = 52 + format.exponentOf q := by omega
  rw [hlog', zpow_add₀ two_ne_zero, ← significand_mul h] at hlog
  have hle := le_of_mul_le_mul_right hlog (FloatFormat.two_zpow_pos _)
  have : (2 : ℕ) ^ 52 ≤ significand q := by exact_mod_cast hle
  omega

theorem exponentOf_lt (h : format.IsValue q) (hq : |q| < 2 ^ 1024)
    (hle : 2 ^ 52 ≤ significand q) : format.exponentOf q < 972 := by
  have hsig : (2 : ℚ) ^ (52 : ℤ) ≤ significand q := by exact_mod_cast hle
  have hlt : (2 : ℚ) ^ (52 + format.exponentOf q) < 2 ^ (1024 : ℤ) := by
    rw [zpow_add₀ two_ne_zero]
    refine lt_of_le_of_lt ?_ hq
    rw [← significand_mul h]
    exact mul_le_mul_of_nonneg_right hsig (FloatFormat.two_zpow_pos _).le
  have := (zpow_lt_zpow_iff_right₀ one_lt_two).mp hlt
  omega

theorem magnitudeBits_lt (h : format.IsValue q) (hq : |q| < 2 ^ 1024) :
    magnitudeBits q < 2047 * 2 ^ 52 := by
  have hlt := significand_lt h
  unfold magnitudeBits
  split_ifs with hsmall
  · omega
  · have := exponentOf_lt h hq (not_lt.mp hsmall)
    omega

/-- The absolute value of bits is read off the bits below the sign. -/
theorem magnitude_of_magnitudeBits (h : format.IsValue q) {bits : UInt64}
    (hexponent : biasedExponent bits = magnitudeBits q / 2 ^ 52)
    (hfraction : fraction bits = magnitudeBits q % 2 ^ 52) : magnitude bits = |q| := by
  have hlt := significand_lt h
  have hmin := format.minExponent_le_exponentOf (q := q)
  rw [← significand_mul h]
  unfold magnitude
  rw [hexponent, hfraction]
  unfold magnitudeBits
  split_ifs with hsmall hzero hzero
  · rw [Nat.mod_eq_of_lt hsmall]
    rcases exponentOf_eq_of_significand_lt h hsmall with hsig | hexp
    · simp [hsig]
    · rw [hexp]
  · exact absurd (Nat.div_eq_of_lt hsmall) hzero
  · have : (-1074 : ℤ) ≤ format.exponentOf q := hmin
    omega
  · have hmin' : (-1074 : ℤ) ≤ format.exponentOf q := hmin
    have hdiv : ((format.exponentOf q + 1075).toNat * 2 ^ 52 + (significand q - 2 ^ 52)) / 2 ^ 52 =
        (format.exponentOf q + 1075).toNat := by omega
    have hmod : ((format.exponentOf q + 1075).toNat * 2 ^ 52 + (significand q - 2 ^ 52)) % 2 ^ 52 =
        significand q - 2 ^ 52 := by omega
    have hexp : ((format.exponentOf q + 1075).toNat : ℤ) - 1075 = format.exponentOf q := by omega
    rw [hdiv, hmod, hexp, Nat.cast_sub (not_lt.mp hsmall)]
    push_cast
    ring

/-- A value below the greatest exponent is the one of its bits. -/
theorem value_ofValue (h : format.IsValue q) (hq : |q| < 2 ^ 1024) :
    Finite (ofValue q) ∧ value (ofValue q) = q := by
  have hbits := magnitudeBits_lt h hq
  have hnat : (ofValue q).toNat = (if q < 0 then 2 ^ 63 else 0) + magnitudeBits q := by
    unfold ofValue
    rw [UInt64.toNat_ofNat_of_lt']
    split_ifs <;> simp only [UInt64.size] <;> omega
  have hexponent : biasedExponent (ofValue q) = magnitudeBits q / 2 ^ 52 := by
    unfold biasedExponent
    rw [hnat]
    split_ifs <;> omega
  have hfraction : fraction (ofValue q) = magnitudeBits q % 2 ^ 52 := by
    unfold fraction
    rw [hnat]
    split_ifs <;> omega
  refine ⟨?_, ?_⟩
  · unfold Finite
    omega
  · unfold value
    rw [hnat, magnitude_of_magnitudeBits h hexponent hfraction]
    rcases lt_or_ge q 0 with hneg | hnonneg
    · rw [if_pos hneg, if_neg (by omega), abs_of_neg hneg, neg_neg]
    · rw [if_neg (not_lt.mpr hnonneg), if_pos (by omega), abs_of_nonneg hnonneg]

end Binary64
