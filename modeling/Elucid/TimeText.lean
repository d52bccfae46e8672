import Elucid.Calendar
import Elucid.DecimalText

/-!
# Texts of times

A number of milliseconds is a time of the calendar, and its text is that of RFC 3339 in UTC with
three digits for the fraction of the second. A year of 0 to 9999 has four digits. Another one has a
sign and at least four digits, and RFC 3339 does not have such texts.

`readTime` reads the texts with a year of four digits (`readTime_timeText`), and no text with a
sign.
-/

namespace Elucid.Calendar

open BigEndian List

/-! ## Fixed widths -/

/-- The last digits of a number. -/
def digits : Nat → Nat → Text
  | 0, _ => []
  | width + 1, value => digits width (value / 10) ++ [UInt8.ofNat (0x30 + value % 10)]

theorem isDigit_of_mem_digits {width value : Nat} {byte : UInt8} (h : byte ∈ digits width value) :
    isDigit byte = true := by
  induction width generalizing value with
  | zero => cases h
  | succ width ih =>
    rcases mem_append.mp h with hfirst | hlast
    · exact ih hfirst
    · obtain rfl := mem_singleton.mp hlast
      exact isDigit_ofNat (Nat.mod_lt _ (by decide))

/-- Enough digits denote their number. -/
theorem digitsNat_digits {width value : Nat} (h : value < 10 ^ width) :
    digitsNat (digits width value) = value := by
  induction width generalizing value with
  | zero =>
    rw [Nat.pow_zero, Nat.lt_one_iff] at h
    rw [h]
    rfl
  | succ width ih =>
    rw [digits, digitsNat_concat, ih (by rw [Nat.pow_succ] at h; omega),
      toNat_ofNat_digit (Nat.mod_lt _ (by decide))]
    omega

/-! ## Months -/

/-- The days of a year before each of its months. -/
def monthStarts (leap : Bool) : List Nat :=
  if leap then [0, 31, 60, 91, 121, 152, 182, 213, 244, 274, 305, 335]
  else [0, 31, 59, 90, 120, 151, 181, 212, 243, 273, 304, 334]

/-- The days of a year before a month. -/
def monthStart (leap : Bool) (month : Nat) : Nat := (monthStarts leap).getD (month - 1) 0

/-- The month that a day of a year is in. -/
def monthOf (leap : Bool) (day : Nat) : Nat := (monthStarts leap).countP fun start => start ≤ day

theorem monthOf_lt (leap : Bool) (day : Nat) : monthOf leap day < 10 ^ 2 := by
  have hlength : (monthStarts leap).length = 12 := by cases leap <;> rfl
  have hle : monthOf leap day ≤ (monthStarts leap).length := countP_le_length
  omega

/-- A day of a year is one of the first days of its month. -/
theorem monthStart_monthOf : ∀ leap, ∀ day < 366,
    monthStart leap (monthOf leap day) ≤ day ∧
      day - monthStart leap (monthOf leap day) + 1 < 10 ^ 2 := by
  decide +kernel

/-! ## Texts -/

/-- The milliseconds of the years 0 to 9999. -/
def HasFourDigitYear (milliseconds : Int) : Prop :=
  -62167219200000 ≤ milliseconds ∧ milliseconds < 253402300800000

instance (milliseconds : Int) : Decidable (HasFourDigitYear milliseconds) :=
  inferInstanceAs (Decidable (_ ∧ _))

/-- A year of four digits, or with a sign. -/
def yearText (year : Int) : Text :=
  if 0 ≤ year ∧ year ≤ 9999 then digits 4 year.toNat
  else (if year < 0 then 0x2D else 0x2B) ::
    digits (max 4 (decimalText year.natAbs).length) year.natAbs

/-- The text behind a year : a month and a day, an hour, minute and second, and a fraction. -/
def restText (month day time : Nat) : Text :=
  [0x2D] ++ digits 2 month ++ [0x2D] ++ digits 2 day ++ [0x54] ++ digits 2 (time / 3600000) ++
    [0x3A] ++ digits 2 (time / 60000 % 60) ++ [0x3A] ++ digits 2 (time / 1000 % 60) ++ [0x2E] ++
    digits 3 (time % 1000) ++ [0x5A]

/-- The date of a time, whose origin is the first day of 1970. -/
def dateOf (milliseconds : Int) : Date := .ofDayNumber (milliseconds / 86400000 + 719163)

/-- The text of a time. -/
def timeText (milliseconds : Int) : Text :=
  let date := dateOf milliseconds
  let leap := decide (IsLeap date.year)
  let day := (date.ordinal - 1).toNat
  let month := monthOf leap day
  yearText date.year ++
    restText month (day - monthStart leap month + 1) (milliseconds % 86400000).toNat

/-- The number that some digits of a text denote. -/
def fieldAt (text : Text) (start width : Nat) : Nat := digitsNat ((text.drop start).take width)

/-- The time of the fields of a text. -/
def timeOfFields (text : Text) : Int :=
  let year : Int := fieldAt text 0 4
  (daysBefore year + monthStart (decide (IsLeap year)) (fieldAt text 5 2) + fieldAt text 8 2 -
      719163) * 86400000 +
    fieldAt text 11 2 * 3600000 + fieldAt text 14 2 * 60000 + fieldAt text 17 2 * 1000 +
    fieldAt text 20 3

/-- The reader of the texts with a year of four digits. -/
def readTime (text : Text) : Option Int :=
  let milliseconds := timeOfFields text
  if HasFourDigitYear milliseconds ∧ timeText milliseconds = text then some milliseconds else none

variable {milliseconds : Int}

/-- The years of four digits begin and end with these times. -/
theorem year_dateOf_iff :
    0 ≤ (dateOf milliseconds).year ∧ (dateOf milliseconds).year ≤ 9999 ↔
      HasFourDigitYear milliseconds := by
  obtain ⟨hlower, hupper⟩ := yearOf_spec (milliseconds / 86400000 + 719163)
  rw [← daysBefore_succ] at hupper
  change 0 ≤ yearOf (milliseconds / 86400000 + 719163) ∧
    yearOf (milliseconds / 86400000 + 719163) ≤ 9999 ↔ _
  unfold HasFourDigitYear daysBefore at *
  omega

theorem timeText_of_hasFourDigitYear (h : HasFourDigitYear milliseconds) :
    ∃ month day, timeText milliseconds =
      digits 4 (dateOf milliseconds).year.toNat ++
        restText month day (milliseconds % 86400000).toNat := by
  rw [timeText, yearText, if_pos (year_dateOf_iff.mpr h)]
  exact ⟨_, _, rfl⟩

theorem fieldAt_of_eq {text : Text} {start width : Nat} (value : Nat) (h : value < 10 ^ width)
    (htext : (text.drop start).take width = digits width value) :
    fieldAt text start width = value := by
  rw [fieldAt, htext, digitsNat_digits h]

/-- The fields of a text are the numbers that are written. -/
theorem timeOfFields_append {year month day time : Nat} (hyear : year < 10 ^ 4)
    (hmonth : month < 10 ^ 2) (hday : day < 10 ^ 2) (htime : time < 86400000) :
    timeOfFields (digits 4 year ++ restText month day time) =
      (daysBefore year + monthStart (decide (IsLeap year)) month + day - 719163) * 86400000 +
        time := by
  rw [timeOfFields, fieldAt_of_eq year hyear rfl, fieldAt_of_eq month hmonth rfl,
    fieldAt_of_eq day hday rfl, fieldAt_of_eq (time / 3600000) (by omega) rfl,
    fieldAt_of_eq (time / 60000 % 60) (by omega) rfl,
    fieldAt_of_eq (time / 1000 % 60) (by omega) rfl, fieldAt_of_eq (time % 1000) (by omega) rfl]
  push_cast
  omega

theorem timeOfFields_timeText (h : HasFourDigitYear milliseconds) :
    timeOfFields (timeText milliseconds) = milliseconds := by
  obtain ⟨hnonneg, hle⟩ := year_dateOf_iff.mpr h
  have hnumber : (dateOf milliseconds).dayNumber = milliseconds / 86400000 + 719163 :=
    Date.dayNumber_ofDayNumber _
  have hpos := (dateOf milliseconds).ordinal_pos
  have hday : ((dateOf milliseconds).ordinal - 1).toNat < 366 := by
    have hordinal := (dateOf milliseconds).ordinal_le
    unfold daysIn at hordinal
    split at hordinal <;> omega
  obtain ⟨hstart, hwithin⟩ := monthStart_monthOf (decide (IsLeap (dateOf milliseconds).year)) _ hday
  have hyear : ((dateOf milliseconds).year.toNat : Int) = (dateOf milliseconds).year := by omega
  rw [timeText, yearText, if_pos ⟨hnonneg, hle⟩,
    timeOfFields_append (by omega) (monthOf_lt _ _) hwithin (by omega), hyear]
  unfold Date.dayNumber at hnumber
  omega

/-- A time of a year of four digits is read from its text. -/
theorem readTime_timeText (h : HasFourDigitYear milliseconds) :
    readTime (timeText milliseconds) = some milliseconds := by
  rw [readTime, timeOfFields_timeText h]
  exact if_pos ⟨h, rfl⟩

/-- A year outside 0 to 9999 has a sign. -/
theorem timeText_of_not_hasFourDigitYear (h : ¬HasFourDigitYear milliseconds) :
    ∃ rest, timeText milliseconds = 0x2B :: rest ∨ timeText milliseconds = 0x2D :: rest := by
  rw [timeText, yearText, if_neg fun hyear => h (year_dateOf_iff.mp hyear)]
  split_ifs
  · exact ⟨_, Or.inr rfl⟩
  · exact ⟨_, Or.inl rfl⟩

/-- A text that is read begins with a digit. -/
theorem readTime_cons_of_not_isDigit {byte : UInt8} (h : isDigit byte = false) (rest : Text) :
    readTime (byte :: rest) = none := by
  refine if_neg fun ⟨hyear, htext⟩ => ?_
  obtain ⟨month, day, hwritten⟩ := timeText_of_hasFourDigitYear hyear
  have hfirst := head_eq_of_cons_eq (hwritten.symm.trans htext)
  have hdigit : isDigit byte = true := by
    rw [← hfirst]
    exact @isDigit_of_mem_digits 4 _ _ mem_cons_self
  rw [h] at hdigit
  cases hdigit

theorem digits_ascii (width value : Nat) :
    (digits width value).all (fun byte => byte ≤ 0x7F) = true := by
  refine all_eq_true.mpr fun byte hmem => decide_eq_true ?_
  have hbound := (isDigit_iff.mp (isDigit_of_mem_digits hmem)).2
  exact UInt8.le_trans hbound (by decide)

theorem timeText_ascii (milliseconds : Int) :
    (timeText milliseconds).all (fun byte => byte ≤ 0x7F) = true := by
  have hyear : ∀ year, (yearText year).all (fun byte => byte ≤ 0x7F) = true := by
    intro year
    rw [yearText]
    split_ifs
    · exact digits_ascii 4 _
    all_goals exact digits_ascii _ _
  rw [timeText, all_append, hyear, Bool.true_and, restText]
  simp only [all_append, all_cons, all_nil, digits_ascii]
  decide

example : timeText 0 = Text.ofString "1970-01-01T00:00:00.000Z" := by decide +kernel

example : timeText 1709210096789 = Text.ofString "2024-02-29T12:34:56.789Z" := by decide +kernel

example : timeText (-62167219200001) = Text.ofString "-0001-12-31T23:59:59.999Z" := by
  decide +kernel

end Elucid.Calendar
