import Mathlib.Logic.Function.Iterate
import Svindows.Lib.Spans

/-!
# The Gregorian calendar

Dates of the proleptic calendar, each with the day after it. Counting days from the first
of January of some year is the same as going from one day to the next.
-/

namespace Gregorian

def Leap (year : Nat) : Prop := 4 ∣ year ∧ ¬ 100 ∣ year ∨ 400 ∣ year

instance (year : Nat) : Decidable (Leap year) := by
  unfold Leap
  infer_instance

def yearLength (year : Nat) : Nat := if Leap year then 366 else 365

def monthLength (year month : Nat) : Nat :=
  if month = 2 then if Leap year then 29 else 28
  else if month = 4 ∨ month = 6 ∨ month = 9 ∨ month = 11 then 30
  else 31

theorem monthLength_pos (year month : Nat) : 1 ≤ monthLength year month := by
  simp only [monthLength]
  split_ifs <;> decide

@[ext] structure Date where
  year : Nat
  month : Nat
  day : Nat
  month_valid : 1 ≤ month ∧ month ≤ 12
  day_valid : 1 ≤ day ∧ day ≤ monthLength year month

/-- The first of January. -/
def newYear (year : Nat) : Date := ⟨year, 1, 1, by decide, by decide, monthLength_pos year 1⟩

def Date.next (d : Date) : Date :=
  if h : d.day < monthLength d.year d.month then
    ⟨d.year, d.month, d.day + 1, d.month_valid, Nat.le_add_left 1 _, h⟩
  else if h : d.month < 12 then
    ⟨d.year, d.month + 1, 1, ⟨Nat.le_add_left 1 _, h⟩, Nat.le_refl 1, monthLength_pos _ _⟩
  else newYear (d.year + 1)

/-- The date `days` days after the first of January of `year`. -/
def after (year days : Nat) : Date := Date.next^[days] (newYear year)

/-- Weekdays go round, from Sunday as 0. -/
def nextWeekday (weekday : Nat) : Nat := (weekday + 1) % 7

/-- The days from the first of January of `base` to a date. -/
def Date.number (base : Nat) (d : Date) : Nat :=
  Spans.total yearLength base (d.year - base) +
    (Spans.total (monthLength d.year) 1 (d.month - 1) + (d.day - 1))

variable {base : Nat} {d e : Date}

theorem total_months (year : Nat) : Spans.total (monthLength year) 1 12 = yearLength year := by
  by_cases leap : Leap year
  · simp [Spans.total, monthLength, yearLength, leap]
  · simp [Spans.total, monthLength, yearLength, leap]

theorem Date.day_lt (d : Date) :
    Spans.total (monthLength d.year) 1 (d.month - 1) + (d.day - 1) < yearLength d.year := by
  have month := d.month_valid
  have day := d.day_valid
  have whole := Spans.total_succ (monthLength d.year) 1 (d.month - 1)
  rw [show 1 + (d.month - 1) = d.month by omega] at whole
  have mono := Spans.total_mono (monthLength d.year) 1
    (show d.month - 1 + 1 ≤ 12 by omega)
  rw [total_months] at mono
  omega

theorem number_next (from_base : base ≤ d.year) : d.next.number base = d.number base + 1 := by
  have month := d.month_valid
  have day := d.day_valid
  rw [Date.next]
  split_ifs with more later
  · simp only [Date.number]
    omega
  · have whole := Spans.total_succ (monthLength d.year) 1 (d.month - 1)
    rw [show 1 + (d.month - 1) = d.month by omega] at whole
    rw [show d.month - 1 + 1 = d.month by omega] at whole
    simp only [Date.number, Nat.add_sub_cancel]
    omega
  · have december : d.month = 12 := by omega
    have whole := Spans.total_succ (monthLength d.year) 1 11
    rw [total_months, show 1 + 11 = 12 from rfl] at whole
    rw [december] at more day
    have years := Spans.total_succ yearLength base (d.year - base)
    rw [show base + (d.year - base) = d.year by omega] at years
    have january : Spans.total (monthLength (d.year + 1)) 1 0 = 0 := rfl
    simp only [Date.number, newYear, december, Nat.sub_self, january,
      show d.year + 1 - base = d.year - base + 1 by omega, show 12 - 1 = 11 from rfl]
    omega

theorem year_next (d : Date) : d.year ≤ d.next.year := by
  rw [Date.next]
  split_ifs
  · exact Nat.le_refl _
  · exact Nat.le_refl _
  · exact Nat.le_succ _

theorem year_after (base days : Nat) : base ≤ (after base days).year := by
  induction days with
  | zero => exact Nat.le_refl _
  | succ days ih =>
    rw [after, Function.iterate_succ_apply']
    exact Nat.le_trans ih (year_next _)

theorem number_after (base days : Nat) : (after base days).number base = days := by
  induction days with
  | zero => simp [after, Date.number, newYear, Spans.total]
  | succ days ih =>
    have step := number_next (year_after base days)
    rw [ih] at step
    rwa [after, Function.iterate_succ_apply']

/-- A date is known by its number. -/
theorem number_inj (from_base : base ≤ d.year) (from_base' : base ≤ e.year)
    (same : d.number base = e.number base) : d = e := by
  obtain ⟨year, month, day, month_valid, day_valid⟩ := d
  obtain ⟨year', month', day', month_valid', day_valid'⟩ := e
  simp only at from_base from_base'
  obtain ⟨years, rest⟩ := Spans.unique
    (show _ < yearLength (base + (year - base)) by
      rw [Nat.add_sub_cancel' from_base]
      exact Date.day_lt ⟨year, month, day, month_valid, day_valid⟩)
    (show _ < yearLength (base + (year' - base)) by
      rw [Nat.add_sub_cancel' from_base']
      exact Date.day_lt ⟨year', month', day', month_valid', day_valid'⟩) same
  obtain rfl : year = year' := by omega
  obtain ⟨months, days⟩ := Spans.unique
    (show day - 1 < monthLength year (1 + (month - 1)) by
      rw [Nat.add_sub_cancel' month_valid.1]
      omega)
    (show day' - 1 < monthLength year (1 + (month' - 1)) by
      rw [Nat.add_sub_cancel' month_valid'.1]
      omega) rest
  obtain rfl : month = month' := by omega
  obtain rfl : day = day' := by omega
  rfl

/-- The date of a number is that many days after the first of January. -/
theorem eq_after {d : Date} (from_base : base ≤ d.year) : d = after base (d.number base) :=
  number_inj from_base (year_after base _) (number_after base _).symm

theorem weekday_after (days first : Nat) (low : first < 7) :
    nextWeekday^[days] first = (days + first) % 7 := by
  induction days with
  | zero => simp [Nat.mod_eq_of_lt low]
  | succ days ih =>
    rw [Function.iterate_succ_apply', ih, nextWeekday]
    omega

end Gregorian
