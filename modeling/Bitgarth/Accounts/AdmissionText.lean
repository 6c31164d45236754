import Bitgarth.Calendar
import Bitgarth.Foundation.FixedWidth
import Mathlib.Data.String.Basic

/-! # The text of an admission timestamp

A timestamp is written in UTC with microseconds and a year of four digits. Outside the years 0
to 9999 the year has a sign and as many digits as it takes, and texts no longer compare the
way the instants do. `formatAdmissionTimestamp_lt_iff` is the comparison inside these years.
-/

namespace Bitgarth.Accounts

open Calendar FixedWidth

def yearText (year : ℤ) : List Char :=
  if 0 ≤ year ∧ year ≤ 9999 then
    digits 4 year.toNat
  else
    let magnitude := Nat.toDigits 10 year.natAbs
    (if year < 0 then '-' else '+') ::
      (List.replicate (4 - magnitude.length) '0' ++ magnitude)

def dateText (date : ℤ) : List Char :=
  let year := yearOf date
  let day := monthDay (monthLengths year) 1 (date - yearStart year).toNat
  yearText year ++ '-' :: (digits 2 day.1 ++ '-' :: digits 2 day.2)

/-- A number of hours since the epoch, with its date. -/
def hourText : ℤ → List Char := field 24 2 'T' dateText

def minuteText : ℤ → List Char := field 60 2 ':' hourText

def secondText : ℤ → List Char := field 60 2 ':' minuteText

def microsecondText : ℤ → List Char := field 1000000 6 '.' secondText

/-- RFC 3339 in UTC with microseconds, of an instant in nanoseconds. -/
def formatAdmissionTimestamp (value : ℤ) : String :=
  String.ofList (microsecondText (value / 1000) ++ ['Z'])

def microsecond : ℤ := 1000

/-- An instant in the years that are written with four digits. -/
def InFourDigitYears (instant : ℤ) : Prop :=
  yearStart 0 * nanosecondsPerDay ≤ instant ∧ instant < yearStart 10000 * nanosecondsPerDay

instance : DecidablePred InFourDigitYears := fun _ =>
  inferInstanceAs (Decidable (_ ∧ _))

def FourDigitYear (date : ℤ) : Prop := 0 ≤ yearOf date ∧ yearOf date ≤ 9999

theorem yearText_of_fourDigitYear {date : ℤ} (valid : FourDigitYear date) :
    yearText (yearOf date) = digits 4 (yearOf date).toNat :=
  if_pos valid

theorem monthDay_fits (date : ℤ) :
    let day := monthDay (monthLengths (yearOf date)) 1 (date - yearStart (yearOf date)).toNat
    day.1 < 10 ^ 2 ∧ day.2 < 10 ^ 2 := by
  have longest : ∀ length ∈ monthLengths (yearOf date), length ≤ 31 := by
    unfold monthLengths
    split <;> simp only [List.forall_mem_cons] <;> simp
  have bounds := monthDay_le longest 1 lt_sum_monthLengths
  have count : (monthLengths (yearOf date)).length = 12 := rfl
  refine ⟨?_, ?_⟩
  · have upper := bounds.1
    omega
  · have upper := bounds.2
    omega

theorem aligned_dateText : Aligned FourDigitYear dateText 10 where
  length_text date valid := by
    simp only [dateText, yearText_of_fourDigitYear valid, List.length_append, List.length_cons,
      length_digits]
  text_lt_text earlier later earlierValid laterValid before := by
    have earlierStarts := (yearOf_spec earlier).1
    have laterFits := monthDay_fits later
    simp only [dateText, yearText_of_fourDigitYear earlierValid,
      yearText_of_fourDigitYear laterValid]
    rcases lt_or_eq_of_le (yearOf_mono before.le) with year | year
    · refine append_lt_append (digits_lt_digits ?_ ?_) (by simp) _ _
      · have nonnegative := earlierValid.1
        omega
      · have atMost := laterValid.2
        omega
    · rw [year] at earlierStarts ⊢
      refine List.append_left_lt (.cons ?_)
      have days : (earlier - yearStart (yearOf later)).toNat <
          (later - yearStart (yearOf later)).toNat := by omega
      rcases monthDay_lt (monthLengths (yearOf later)) 1 days with month | ⟨month, day⟩
      · exact append_lt_append (digits_lt_digits month laterFits.1) (by simp) _ _
      · rw [month]
        exact List.append_left_lt (.cons (digits_lt_digits day laterFits.2))

theorem aligned_microsecondText : Aligned
    (fun microseconds => FourDigitYear (microseconds / 1000000 / 60 / 60 / 24))
    microsecondText 26 :=
  (((aligned_dateText.field (by decide) (by decide)).field (by decide) (by decide)).field
    (by decide) (by decide)).field (by decide) (by decide)

theorem InFourDigitYears.fourDigitYear {instant : ℤ} (inYears : InFourDigitYears instant) :
    FourDigitYear (instant / 1000 / 1000000 / 60 / 60 / 24) := by
  obtain ⟨starts, ends⟩ := inYears
  unfold nanosecondsPerDay at starts ends
  have first : yearStart 0 ≤ instant / 1000 / 1000000 / 60 / 60 / 24 := by omega
  have last : instant / 1000 / 1000000 / 60 / 60 / 24 < yearStart 10000 := by omega
  generalize instant / 1000 / 1000000 / 60 / 60 / 24 = date at first last
  obtain ⟨begins, finishes⟩ := yearOf_spec date
  have lower := yearStart_strictMono.lt_iff_lt.mp (lt_of_le_of_lt first finishes)
  have upper := yearStart_strictMono.lt_iff_lt.mp (lt_of_le_of_lt begins last)
  refine ⟨?_, ?_⟩ <;> omega

theorem formatAdmissionTimestamp_lt {earlier later : ℤ} (earlierIn : InFourDigitYears earlier)
    (laterIn : InFourDigitYears later) (before : earlier / 1000 < later / 1000) :
    formatAdmissionTimestamp earlier < formatAdmissionTimestamp later := by
  have less := aligned_microsecondText.text_lt_text _ _ earlierIn.fourDigitYear
    laterIn.fourDigitYear before
  have lengths := (aligned_microsecondText.length_text _ earlierIn.fourDigitYear).trans
    (aligned_microsecondText.length_text _ laterIn.fourDigitYear).symm
  unfold formatAdmissionTimestamp
  rw [String.lt_iff_toList_lt, String.toList_ofList, String.toList_ofList]
  exact append_lt_append less lengths _ _

theorem formatAdmissionTimestamp_lt_iff {left right : ℤ} (leftIn : InFourDigitYears left)
    (rightIn : InFourDigitYears right) (leftWhole : microsecond ∣ left)
    (rightWhole : microsecond ∣ right) :
    formatAdmissionTimestamp left < formatAdmissionTimestamp right ↔ left < right := by
  unfold microsecond at leftWhole rightWhole
  constructor
  · intro less
    by_contra notLess
    rcases lt_or_eq_of_le (not_lt.mp notLess) with after | equal
    · exact absurd (formatAdmissionTimestamp_lt rightIn leftIn (by omega)) (not_lt.mpr less.le)
    · rw [equal] at less
      exact lt_irrefl _ less
  · intro less
    exact formatAdmissionTimestamp_lt leftIn rightIn (by omega)

def readYear : List Char → ℤ
  | '-' :: magnitude => -value magnitude
  | '+' :: magnitude => value magnitude
  | magnitude => value magnitude

def readDate (text : List Char) : ℤ :=
  let year := readYear (text.take (text.length - 6))
  yearStart year + daysBefore (monthLengths year) 1
    (value ((text.drop (text.length - 5)).take 2)) (value (text.drop (text.length - 2)))

def readMicroseconds : List Char → ℤ :=
  readField 1000000 6 (readField 60 2 (readField 60 2 (readField 24 2 readDate)))

/-- The instant of a text that `formatAdmissionTimestamp` writes; other texts are refused. -/
def readAdmissionTimestamp (raw : String) : Option ℤ :=
  let instant := readMicroseconds raw.toList.dropLast * 1000
  if formatAdmissionTimestamp instant = raw then some instant else none

theorem readYear_digits {year : ℤ} (nonnegative : 0 ≤ year) (fits : year ≤ 9999) :
    readYear (digits 4 year.toNat) = year := by
  have number := @value_digits 4 year.toNat (by omega)
  have first : ∀ sign rest, digits 4 year.toNat = sign :: rest → 48 ≤ sign.toNat := by
    intro sign rest shape
    have head : sign = digit (year.toNat / 10 / 10 / 10) := (List.cons.inj shape).1.symm
    rw [head, toNat_digit]
    exact Nat.le_add_right _ _
  unfold readYear
  split
  · rename_i shape
    exact absurd (first _ _ shape) (by decide)
  · rename_i shape
    exact absurd (first _ _ shape) (by decide)
  · rw [number, Int.toNat_of_nonneg nonnegative]

theorem readDate_dateText {date : ℤ} (valid : FourDigitYear date) :
    readDate (dateText date) = date := by
  have fits := monthDay_fits date
  have starts := (yearOf_spec date).1
  have days := daysBefore_monthDay (monthLengths (yearOf date)) 1
    (date - yearStart (yearOf date)).toNat
  simp only [dateText, yearText_of_fourDigitYear valid]
  generalize monthDay (monthLengths (yearOf date)) 1 (date - yearStart (yearOf date)).toNat = day
    at fits days
  have size : (digits 4 (yearOf date).toNat ++
      '-' :: (digits 2 day.1 ++ '-' :: digits 2 day.2)).length = 10 := by
    simp only [List.length_append, List.length_cons, length_digits]
  have year : (digits 4 (yearOf date).toNat ++
      '-' :: (digits 2 day.1 ++ '-' :: digits 2 day.2)).take 4 = digits 4 (yearOf date).toNat :=
    List.take_left' (length_digits _ _)
  have month : (digits 4 (yearOf date).toNat ++
      '-' :: (digits 2 day.1 ++ '-' :: digits 2 day.2)).drop 5 =
        digits 2 day.1 ++ '-' :: digits 2 day.2 := rfl
  have dayOfMonth : (digits 4 (yearOf date).toNat ++
      '-' :: (digits 2 day.1 ++ '-' :: digits 2 day.2)).drop 8 = digits 2 day.2 := rfl
  unfold readDate
  simp only [size, year, month, dayOfMonth, Nat.reduceSub,
    readYear_digits valid.1 valid.2, List.take_left' (length_digits 2 day.1),
    value_digits fits.1, value_digits fits.2, days]
  omega

theorem readAdmissionTimestamp_format {instant : ℤ} (inYears : InFourDigitYears instant)
    (whole : microsecond ∣ instant) :
    readAdmissionTimestamp (formatAdmissionTimestamp instant) = some instant := by
  have valid := inYears.fourDigitYear
  have read : readMicroseconds (microsecondText (instant / 1000)) = instant / 1000 :=
    readField_field (by decide) (by decide) (readField_field (by decide) (by decide)
      (readField_field (by decide) (by decide) (readField_field (by decide) (by decide)
        (readDate_dateText valid))))
  have multiple : instant / 1000 * 1000 = instant := Int.ediv_mul_cancel whole
  unfold readAdmissionTimestamp
  have text : (formatAdmissionTimestamp instant).toList.dropLast =
      microsecondText (instant / 1000) := by
    unfold formatAdmissionTimestamp
    rw [String.toList_ofList, List.dropLast_concat]
  simp only [text, read, multiple, ↓reduceIte]

end Bitgarth.Accounts
