import Elucid.FloatFormat
import Elucid.Normalization

/-!
# Number texts

A JSON number of any length, by the parts of its text, with the rational that it denotes.
`serde_json` keeps the text and reads it with the parsers of the standard library :
`as_i64` and `as_u64` are those of the integers, and `as_f64` is the one of `f64` without
the infinities.

`parseI64_text`, `parseU64_text` : an integer is read exactly from the integer texts in
its range.
`FloatText.ReadsNumbers` : what the standard library says of `f64::from_str`, the nearest
binary64 or an infinity. `FloatText.rounding` does just that.
-/

namespace Elucid

open BigEndian List

/-! ## Texts -/

/-- `u8::is_ascii_digit`. -/
def isDigit (byte : UInt8) : Bool := 0x30 ≤ byte && byte ≤ 0x39

/-- The number that digits denote. -/
def digitsNat (digits : Text) : Nat :=
  digits.foldl (fun value byte => value * 10 + (byte.toNat - 0x30)) 0

/-- The part of a number text behind its `e`. -/
structure NumberExponent where
  upperCase : Bool
  sign : Option Bool
  digits : Text
  digits_ne_nil : digits ≠ []
  digits_all : digits.all isDigit

/-- A JSON number : a sign, an integer without superfluous zeros, and optionally a fraction
and an exponent. -/
structure JsonNumber where
  negative : Bool
  integer : Text
  fraction : Text
  exponent : Option NumberExponent
  integer_ne_nil : integer ≠ []
  integer_all : integer.all isDigit
  integer_head : integer.head? = some 0x30 → integer.length = 1
  fraction_all : fraction.all isDigit

namespace NumberExponent

/-- The sign of an exponent may be left out. -/
def signText : Option Bool → Text
  | none => []
  | some false => [0x2B]
  | some true => [0x2D]

def text (exponent : NumberExponent) : Text :=
  (if exponent.upperCase then 0x45 else 0x65) :: (signText exponent.sign ++ exponent.digits)

def value (exponent : NumberExponent) : Int :=
  if exponent.sign = some true then -digitsNat exponent.digits else digitsNat exponent.digits

end NumberExponent

namespace JsonNumber

/-- The fraction with its point, if there is one. -/
def fractionText (fraction : Text) : Text := if fraction = [] then [] else 0x2E :: fraction

def exponentText (exponent : Option NumberExponent) : Text :=
  exponent.elim [] NumberExponent.text

/-- The text of a number. -/
def text (n : JsonNumber) : Text :=
  (if n.negative then [0x2D] else []) ++
    (n.integer ++ (fractionText n.fraction ++ exponentText n.exponent))

/-- `-1` or `1`. -/
def sign (n : JsonNumber) : Int := if n.negative then -1 else 1

/-- The rational that a number denotes. -/
def value (n : JsonNumber) : ℚ :=
  n.sign * digitsNat (n.integer ++ n.fraction) *
    10 ^ (n.exponent.elim 0 NumberExponent.value - n.fraction.length)

/-- A text with neither a fraction nor an exponent. -/
def IsIntegerText (n : JsonNumber) : Prop := n.fraction = [] ∧ n.exponent.isNone

instance (n : JsonNumber) : Decidable n.IsIntegerText := inferInstanceAs (Decidable (_ ∧ _))

/-- The integer of an integer text. -/
def integerValue (n : JsonNumber) : Int := n.sign * digitsNat n.integer

theorem value_of_isIntegerText {n : JsonNumber} (h : n.IsIntegerText) :
    n.value = n.integerValue := by
  obtain ⟨hfraction, hexponent⟩ := h
  rw [Option.isNone_iff_eq_none] at hexponent
  simp [value, integerValue, hfraction, hexponent]

end JsonNumber

/-! ## Integers -/

theorem digitsValue_eq (digits : Text) :
    digitsValue digits =
      if digits ≠ [] ∧ digits.all isDigit then some (digitsNat digits) else none := rfl

theorem isDigit_iff {byte : UInt8} : isDigit byte = true ↔ 0x30 ≤ byte ∧ byte ≤ 0x39 := by
  simp [isDigit]

/-- A digit is neither of the two signs. -/
theorem isDigit_ne {byte : UInt8} (h : isDigit byte = true) : byte ≠ 0x2B ∧ byte ≠ 0x2D := by
  constructor <;> rintro rfl <;> exact absurd h (by decide)

namespace JsonNumber

variable {n : JsonNumber}

/-- The text behind the sign is all digits exactly for an integer text. -/
theorem all_isDigit_iff :
    (n.integer ++ (fractionText n.fraction ++ exponentText n.exponent)).all isDigit = true ↔
      n.IsIntegerText := by
  have hfraction : (fractionText n.fraction).all isDigit = true ↔ n.fraction = [] := by
    unfold fractionText
    split_ifs with h
    · simp [h]
    · simp [h, isDigit]
  have hexponent : (exponentText n.exponent).all isDigit = true ↔ n.exponent.isNone := by
    cases n.exponent with
    | none => simp [exponentText]
    | some exponent => cases h : exponent.upperCase <;>
        simp [exponentText, NumberExponent.text, h, isDigit]
  rw [all_append, all_append, n.integer_all, Bool.true_and, Bool.and_eq_true, hfraction,
    hexponent, IsIntegerText]

theorem digitsValue_text :
    digitsValue (n.integer ++ (fractionText n.fraction ++ exponentText n.exponent)) =
      if n.IsIntegerText then some (digitsNat n.integer) else none := by
  rw [digitsValue_eq]
  split_ifs with hdigits hinteger hinteger
  · obtain ⟨hfraction, hexponent⟩ := hinteger
    rw [Option.isNone_iff_eq_none] at hexponent
    simp [fractionText, exponentText, hfraction, hexponent]
  · exact absurd (all_isDigit_iff.mp hdigits.2) hinteger
  · exact absurd ⟨by simp [n.integer_ne_nil], all_isDigit_iff.mpr hinteger⟩ hdigits
  · rfl

/-- The first digit of a number. -/
theorem exists_integer_eq (n : JsonNumber) :
    ∃ digit rest, n.integer = digit :: rest ∧ isDigit digit = true := by
  obtain ⟨digit, rest, h⟩ := exists_cons_of_ne_nil n.integer_ne_nil
  exact ⟨digit, rest, h, all_eq_true.mp n.integer_all digit (h ▸ mem_cons_self)⟩

/-- The integer behind the sign. -/
theorem parseI64_eq (n : JsonNumber) :
    parseI64 n.text = (if n.IsIntegerText then some n.integerValue else none).bind
      fun value : Int => if -2 ^ 63 ≤ value ∧ value < 2 ^ 63 then some value else none := by
  unfold parseI64 text integerValue sign
  cases n.negative with
  | true =>
    rw [if_pos rfl, if_pos rfl, singleton_append, neg_one_mul]
    simp only [digitsValue_text]
    by_cases hinteger : n.IsIntegerText
    · rw [if_pos hinteger, if_pos hinteger]
      rfl
    · rw [if_neg hinteger, if_neg hinteger]
      rfl
  | false =>
    obtain ⟨digit, rest, hdigits, hdigit⟩ := exists_integer_eq n
    have hread := digitsValue_text (n := n)
    rw [if_neg Bool.false_ne_true, if_neg Bool.false_ne_true, nil_append, one_mul]
    rw [hdigits, cons_append] at hread ⊢
    obtain ⟨hplus, hminus⟩ := isDigit_ne hdigit
    split
    · next heq => exact absurd (List.cons.inj heq).1 hminus
    · next heq => exact absurd (List.cons.inj heq).1 hplus
    · rw [hread]
      by_cases hinteger : n.IsIntegerText
      · rw [if_pos hinteger, if_pos hinteger]
        rfl
      · rw [if_neg hinteger, if_neg hinteger]
        rfl

/-- `as_i64` succeeds exactly for the integer texts in its range. -/
theorem parseI64_text (n : JsonNumber) :
    parseI64 n.text =
      if n.IsIntegerText ∧ -2 ^ 63 ≤ n.integerValue ∧ n.integerValue < 2 ^ 63 then
        some n.integerValue
      else none := by
  rw [parseI64_eq]
  by_cases hinteger : n.IsIntegerText
  · simp only [hinteger, if_true, Option.bind_some, true_and]
  · simp only [hinteger, if_false, Option.bind_none, false_and]

/-- `as_u64` succeeds exactly for the integer texts in its range that have no sign. -/
theorem parseU64_text (n : JsonNumber) :
    parseU64 n.text =
      if n.IsIntegerText ∧ n.negative = false ∧ n.integerValue < 2 ^ 64 then
        some n.integerValue.toNat
      else none := by
  unfold parseU64 text integerValue sign
  cases n.negative with
  | true =>
    rw [if_pos rfl, if_pos rfl, singleton_append]
    have hminus : digitsValue (0x2D ::
        (n.integer ++ (fractionText n.fraction ++ exponentText n.exponent))) = none := by
      rw [digitsValue_eq, if_neg]
      simp [isDigit]
    simp [hminus]
  | false =>
    obtain ⟨digit, rest, hinteger, hdigit⟩ := exists_integer_eq n
    have hread := digitsValue_text (n := n)
    rw [if_neg Bool.false_ne_true, if_neg Bool.false_ne_true, nil_append]
    rw [hinteger, cons_append] at hread ⊢
    split
    · next heq => exact absurd (List.cons.inj heq).1 (isDigit_ne hdigit).1
    · rw [hread]
      by_cases hinteger : n.IsIntegerText
      · simp [hinteger]
      · simp [hinteger]

end JsonNumber

/-! ## Floating point -/

/-- `f64::from_str` on the number texts : the nearest binary64, and an infinity behind the
greatest one. -/
structure FloatText.ReadsNumbers [FloatText] : Prop where
  nearest : ∀ n : JsonNumber, |Binary64.format.round n.value| < 2 ^ 1024 →
    ∃ bits, FloatText.parseF64 n.text = some bits ∧ isFiniteF64 bits = true ∧
      Binary64.value bits = Binary64.format.round n.value
  overflow : ∀ n : JsonNumber, 2 ^ 1024 ≤ |Binary64.format.round n.value| →
    ∀ bits, FloatText.parseF64 n.text = some bits → isFiniteF64 bits = false

theorem isFiniteF64_iff {bits : UInt64} : isFiniteF64 bits = true ↔ Binary64.Finite bits := by
  simp [isFiniteF64, Binary64.Finite, Binary64.biasedExponent]

namespace NumberReader

/-- The sign in front of a number. -/
def readSign : Text → Bool × Text
  | 0x2D :: rest => (true, rest)
  | rest => (false, rest)

/-- The digits behind a point, and the rest. -/
def readFraction : Text → Text × Text
  | 0x2E :: rest => (rest.takeWhile isDigit, rest.dropWhile isDigit)
  | rest => ([], rest)

/-- The digits behind a sign. -/
def readSigned : Text → Int
  | 0x2B :: digits => digitsNat digits
  | 0x2D :: digits => -digitsNat digits
  | digits => digitsNat digits

/-- The exponent behind an `e`. -/
def readExponent : Text → Int
  | [] => 0
  | _ :: rest => readSigned rest

/-- The rational that a number text denotes. -/
def read (text : Text) : ℚ :=
  let (negative, rest) := readSign text
  let (fraction, tail) := readFraction (rest.dropWhile isDigit)
  (if negative then -1 else 1) * digitsNat (rest.takeWhile isDigit ++ fraction) *
    10 ^ (readExponent tail - fraction.length)

theorem readSigned_text (exponent : NumberExponent) :
    readSigned (NumberExponent.signText exponent.sign ++ exponent.digits) = exponent.value := by
  obtain ⟨_, sign, digits, hne, hall⟩ := exponent
  cases sign with
  | none =>
    obtain ⟨digit, rest, rfl⟩ := exists_cons_of_ne_nil hne
    obtain ⟨hplus, hminus⟩ := isDigit_ne (all_eq_true.mp hall digit mem_cons_self)
    unfold readSigned
    split
    · next heq => exact absurd (List.cons.inj heq).1 hplus
    · next heq => exact absurd (List.cons.inj heq).1 hminus
    · rfl
  | some negative => cases negative <;> rfl

theorem readExponent_text (exponent : Option NumberExponent) :
    readExponent (JsonNumber.exponentText exponent) = exponent.elim 0 NumberExponent.value := by
  cases exponent with
  | none => rfl
  | some exponent => exact readSigned_text exponent

/-- Digits end before an exponent. -/
theorem dropWhile_exponentText (exponent : Option NumberExponent) :
    (JsonNumber.exponentText exponent).dropWhile isDigit = JsonNumber.exponentText exponent := by
  cases exponent with
  | none => rfl
  | some exponent =>
    cases h : exponent.upperCase <;>
      simp [JsonNumber.exponentText, NumberExponent.text, h, isDigit]

/-- Digits in front of a text that starts with none. -/
theorem span_append {digits rest : Text} (hdigits : digits.all isDigit)
    (hrest : rest.dropWhile isDigit = rest) :
    (digits ++ rest).takeWhile isDigit = digits ∧ (digits ++ rest).dropWhile isDigit = rest := by
  have htake : rest.takeWhile isDigit = [] := by
    have := takeWhile_append_dropWhile (p := isDigit) (l := rest)
    rw [hrest] at this
    simpa using this
  have hmem : ∀ byte ∈ digits, isDigit byte = true := all_eq_true.mp hdigits
  rw [takeWhile_append_of_pos hmem, dropWhile_append_of_pos hmem, htake, hrest]
  exact ⟨append_nil _, rfl⟩

theorem readFraction_text (n : JsonNumber) :
    readFraction (JsonNumber.fractionText n.fraction ++ JsonNumber.exponentText n.exponent) =
      (n.fraction, JsonNumber.exponentText n.exponent) := by
  unfold JsonNumber.fractionText
  split_ifs with hfraction
  · rw [hfraction, nil_append]
    cases n.exponent with
    | none => rfl
    | some exponent =>
      cases h : exponent.upperCase <;>
        simp [JsonNumber.exponentText, NumberExponent.text, h, readFraction]
  · obtain ⟨htake, hdrop⟩ := span_append n.fraction_all (dropWhile_exponentText n.exponent)
    simp only [cons_append, readFraction, htake, hdrop]

theorem dropWhile_fractionText (n : JsonNumber) :
    (JsonNumber.fractionText n.fraction ++ JsonNumber.exponentText n.exponent).dropWhile isDigit =
      JsonNumber.fractionText n.fraction ++ JsonNumber.exponentText n.exponent := by
  unfold JsonNumber.fractionText
  split_ifs
  · exact dropWhile_exponentText n.exponent
  · rfl

theorem readSign_text (n : JsonNumber) :
    readSign n.text = (n.negative,
      n.integer ++ (JsonNumber.fractionText n.fraction ++ JsonNumber.exponentText n.exponent)) := by
  unfold JsonNumber.text
  cases n.negative with
  | true => rfl
  | false =>
    obtain ⟨digit, rest, hdigits, hdigit⟩ := n.exists_integer_eq
    rw [if_neg Bool.false_ne_true, nil_append, hdigits, cons_append, readSign]
    intro rest' heq
    exact absurd (List.cons.inj heq).1 (isDigit_ne hdigit).2

theorem read_text (n : JsonNumber) : read n.text = n.value := by
  obtain ⟨htake, hdrop⟩ := span_append n.integer_all (dropWhile_fractionText n)
  simp only [read, readSign_text, htake, hdrop, readFraction_text, readExponent_text,
    JsonNumber.value, JsonNumber.sign]
  split_ifs <;> simp

end NumberReader

/-- `f64::from_str` on the number texts, and no `f32` texts. -/
@[reducible] def FloatText.rounding : FloatText where
  parseF32 _ := none
  parseF64 text :=
    let value := Binary64.format.round (NumberReader.read text)
    some (if |value| < 2 ^ 1024 then Binary64.ofValue value else 0x7FF0000000000000)

theorem FloatText.parseF64_rounding (n : JsonNumber) :
    FloatText.rounding.parseF64 n.text =
      some (if |Binary64.format.round n.value| < 2 ^ 1024 then
        Binary64.ofValue (Binary64.format.round n.value)
      else 0x7FF0000000000000) := by
  rw [← NumberReader.read_text n]
  rfl

theorem FloatText.rounding_readsNumbers : @FloatText.ReadsNumbers FloatText.rounding := by
  refine @FloatText.ReadsNumbers.mk FloatText.rounding (fun n h => ?_) fun n h bits hbits => ?_
  · obtain ⟨hfinite, hvalue⟩ :=
      Binary64.value_ofValue (Binary64.format.isValue_round (q := n.value)) h
    refine ⟨_, (FloatText.parseF64_rounding n).trans (congrArg some (if_pos h)),
      isFiniteF64_iff.mpr hfinite, hvalue⟩
  · rw [FloatText.parseF64_rounding, if_neg (not_lt.mpr h), Option.some.injEq] at hbits
    rw [← hbits]
    decide

end Elucid
