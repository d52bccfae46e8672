import Elucid.NumberText
import Elucid.TextEncoding

/-!
# Decimal texts

The decimal text of a number is its digits without superfluous zeros
(`decimalText_eq_iff`), so it is read back as that number, by `u64::from_str` as long as it fits
(`parseU64_decimalText`).
-/

namespace Elucid

open BigEndian List

variable {value : Nat} {digits : Text}

/-- The digit of a number below ten. -/
theorem ofNat_digitChar (h : value < 10) :
    UInt8.ofNat value.digitChar.toNat = UInt8.ofNat (0x30 + value) := by
  interval_cases value <;> rfl

theorem decimalText_of_lt (h : value < 10) :
    decimalText value = [UInt8.ofNat (0x30 + value)] := by
  rw [decimalText, Nat.toDigits_of_lt_base h, map_singleton, ofNat_digitChar h]

theorem decimalText_of_le (h : 10 ≤ value) :
    decimalText value = decimalText (value / 10) ++ [UInt8.ofNat (0x30 + value % 10)] := by
  rw [decimalText, Nat.toDigits_of_base_le (by decide) h, map_append, map_singleton,
    ofNat_digitChar (Nat.mod_lt _ (by decide)), decimalText]

theorem toNat_ofNat_digit (h : value < 10) :
    (UInt8.ofNat (0x30 + value)).toNat = 0x30 + value :=
  UInt8.toNat_ofNat_of_lt' (by simp only [UInt8.size]; omega)

theorem isDigit_ofNat (h : value < 10) :
    isDigit (UInt8.ofNat (0x30 + value)) = true := by
  rw [isDigit_iff, UInt8.le_iff_toNat_le, UInt8.le_iff_toNat_le, toNat_ofNat_digit h]
  exact ⟨Nat.le_add_right 0x30 value, Nat.add_le_add_left (Nat.le_of_lt_succ h) 0x30⟩

/-- A digit, by the number below ten that it denotes. -/
theorem exists_of_isDigit {byte : UInt8} (h : isDigit byte = true) :
    ∃ value < 10, byte = UInt8.ofNat (0x30 + value) := by
  obtain ⟨hlow, hhigh⟩ := isDigit_iff.mp h
  rw [UInt8.le_iff_toNat_le] at hlow hhigh
  change 0x30 ≤ byte.toNat at hlow
  change byte.toNat ≤ 0x39 at hhigh
  refine ⟨byte.toNat - 0x30, by omega, ?_⟩
  rw [Nat.add_sub_cancel' hlow, UInt8.ofNat_toNat]

theorem digitsNat_concat (digits : Text) (byte : UInt8) :
    digitsNat (digits ++ [byte]) = digitsNat digits * 10 + (byte.toNat - 0x30) := by
  simp [digitsNat]

theorem all_isDigit_decimalText (value : Nat) : (decimalText value).all isDigit = true := by
  induction value using Nat.strong_induction_on with
  | _ value ih =>
    rcases Nat.lt_or_ge value 10 with hlt | hle
    · rw [decimalText_of_lt hlt, all_cons, isDigit_ofNat hlt]
      rfl
    · have hlast := isDigit_ofNat (Nat.mod_lt value (by decide : 10 > 0))
      rw [decimalText_of_le hle, all_append, ih _ (by omega)]
      simpa using hlast

theorem digitsNat_decimalText (value : Nat) : digitsNat (decimalText value) = value := by
  induction value using Nat.strong_induction_on with
  | _ value ih =>
    rcases Nat.lt_or_ge value 10 with hlt | hle
    · rw [decimalText_of_lt hlt, ← nil_append [_], digitsNat_concat, toNat_ofNat_digit hlt]
      simp [digitsNat]
    · rw [decimalText_of_le hle, digitsNat_concat, ih _ (by omega),
        toNat_ofNat_digit (Nat.mod_lt _ (by decide))]
      omega

theorem decimalText_ne_nil (value : Nat) : decimalText value ≠ [] := by
  rcases Nat.lt_or_ge value 10 with hlt | hle
  · simp [decimalText_of_lt hlt]
  · simp [decimalText_of_le hle]

/-- The first digit of a positive number is not zero. -/
theorem head?_decimalText_ne (hpos : 0 < value) :
    (decimalText value).head? ≠ some 0x30 := by
  induction value using Nat.strong_induction_on with
  | _ value ih =>
    rcases Nat.lt_or_ge value 10 with hlt | hle
    · rw [decimalText_of_lt hlt]
      intro heq
      have hnat := congrArg UInt8.toNat (Option.some.inj heq)
      rw [toNat_ofNat_digit hlt] at hnat
      change 0x30 + value = 0x30 at hnat
      omega
    · rw [decimalText_of_le hle, head?_append_of_ne_nil _ (decimalText_ne_nil _)]
      exact ih _ (by omega) (by omega)

/-- Digits without superfluous zeros. -/
def IsDecimal (digits : Text) : Prop :=
  digits ≠ [] ∧ digits.all isDigit = true ∧ (digits.head? = some 0x30 → digits.length = 1)

theorem isDecimal_decimalText (value : Nat) : IsDecimal (decimalText value) := by
  refine ⟨decimalText_ne_nil value, all_isDigit_decimalText value, fun hhead => ?_⟩
  rcases Nat.eq_zero_or_pos value with rfl | hpos
  · rfl
  · exact absurd hhead (head?_decimalText_ne hpos)

/-- The digits in front of the last one have no superfluous zero either, and are not zero. -/
theorem IsDecimal.of_concat {byte : UInt8} (h : IsDecimal (digits ++ [byte])) (hne : digits ≠ []) :
    IsDecimal digits ∧ digits.head? ≠ some 0x30 := by
  obtain ⟨-, hall, hhead⟩ := h
  rw [head?_append_of_ne_nil _ hne] at hhead
  have hzero : digits.head? ≠ some 0x30 := fun heq => by
    have hlength := hhead heq
    have hpos := length_pos_of_ne_nil hne
    rw [length_append, length_singleton] at hlength
    omega
  rw [all_append, Bool.and_eq_true] at hall
  exact ⟨⟨hne, hall.1, fun heq => absurd heq hzero⟩, hzero⟩

/-- Digits without superfluous zeros are the text of the number that they denote. -/
theorem decimalText_digitsNat (h : IsDecimal digits) :
    decimalText (digitsNat digits) = digits := by
  induction digits using List.reverseRecOn with
  | nil => exact absurd rfl h.1
  | append_singleton digits byte ih =>
    have hbyte : isDigit byte = true := all_eq_true.mp h.2.1 byte (by simp)
    obtain ⟨last, hlast, rfl⟩ := exists_of_isDigit hbyte
    rw [digitsNat_concat, toNat_ofNat_digit hlast, Nat.add_sub_cancel_left]
    by_cases hne : digits = []
    · subst hne
      rw [show digitsNat [] * 10 + last = last by simp [digitsNat], decimalText_of_lt hlast]
      rfl
    · obtain ⟨hdigits, hhead⟩ := h.of_concat hne
      have ih := ih hdigits
      have hpos : 0 < digitsNat digits := by
        refine Nat.pos_of_ne_zero fun hzero => hhead ?_
        rw [hzero] at ih
        rw [← ih]
        rfl
      rw [decimalText_of_le (by omega)]
      congr 2
      · rw [show (digitsNat digits * 10 + last) / 10 = digitsNat digits by omega, ih]
      · rw [show (digitsNat digits * 10 + last) % 10 = last by omega]

/-- The decimal text of a number, without the algorithm that writes it. -/
theorem decimalText_eq_iff :
    decimalText value = digits ↔ IsDecimal digits ∧ digitsNat digits = value := by
  constructor
  · rintro rfl
    exact ⟨isDecimal_decimalText value, digitsNat_decimalText value⟩
  · rintro ⟨h, rfl⟩
    exact decimalText_digitsNat h

/-- A text of digits has no sign for `u64::from_str`. -/
theorem parseU64_of_all (hne : digits ≠ []) (hall : digits.all isDigit = true) :
    parseU64 digits = if digitsNat digits < 2 ^ 64 then some (digitsNat digits) else none := by
  obtain ⟨byte, rest, rfl⟩ := exists_cons_of_ne_nil hne
  have hbyte := (isDigit_ne (all_eq_true.mp hall byte mem_cons_self)).1
  unfold parseU64
  split
  · rename_i heq
    exact absurd (List.cons.inj heq).1 hbyte
  · rw [digitsValue_eq, if_pos ⟨hne, hall⟩]
    rfl

theorem parseU64_decimalText (h : value < 2 ^ 64) :
    parseU64 (decimalText value) = some value := by
  rw [parseU64_of_all (decimalText_ne_nil value) (all_isDigit_decimalText value),
    digitsNat_decimalText, if_pos h]

end Elucid
