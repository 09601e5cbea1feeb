import Mathlib.Tactic.IntervalCases
import Svindows.Lib.Gregorian

/-!
# File times of kernel32

`FileTimeToSystemTime` takes years and months off a count of 100 ns units, and
`fat_datetime_ticks` adds them up for a date and a time of FAT. Both count from
1601-01-01, a Monday. Every field fits its word.
-/

namespace Kernel32

open Gregorian

structure SystemTime where
  year : Nat
  month : Nat
  dayOfWeek : Nat
  day : Nat
  hour : Nat
  minute : Nat
  second : Nat
  milliseconds : Nat
  deriving DecidableEq

def leapYear (year : Nat) : Bool := (year % 4 == 0 && year % 100 != 0) || year % 400 == 0

def monthDays : List Nat := [31, 28, 31, 30, 31, 30, 31, 31, 30, 31, 30, 31]

def yearCount (year : Nat) : Nat := if leapYear year then 366 else 365

def monthCount (year month : Nat) : Nat :=
  monthDays.getD (month - 1) 0 + if month = 2 ∧ leapYear year = true then 1 else 0

/-- `FileTimeToSystemTime` of a time; none if the call fails. -/
def fileTimeToSystemTime (ticks : Nat) : Option SystemTime :=
  let totalSeconds := ticks / 10000000
  let days := totalSeconds / 86400
  let seconds := totalSeconds % 86400
  -- `while (year < 30828)`
  let (year, rest) := Spans.locate yearCount (30828 - 1601) 1601 days
  if year = 30828 then none
  else
    -- `while (month <= 12)`
    let (month, rest) := Spans.locate (monthCount year) 12 1 rest
    some {
      year := year
      month := month
      dayOfWeek := (days + 1) % 7
      day := rest + 1
      hour := seconds / 3600
      minute := seconds / 60 % 60
      second := seconds % 60
      milliseconds := ticks % 10000000 / 10000 }

def fatDatetimeTicks (date time : Nat) : Nat :=
  let year := 1980 + (date >>> 9)
  let month := (date >>> 5) &&& 15
  let day := date &&& 31
  if date = 0 ∨ month < 1 ∨ 12 < month ∨ day < 1 then 0
  else
    let days := Spans.total yearCount 1601 (year - 1601) +
      Spans.total (monthCount year) 1 (month - 1) + (day - 1)
    let seconds := days * 86400 + ((time >>> 11) &&& 31) * 3600 + ((time >>> 5) &&& 63) * 60 +
      (time &&& 31) * 2
    seconds * 10000000

/-- The time is `ticks` units after midnight of Monday, 1601-01-01. -/
structure Denotes (ticks days : Nat) (t : SystemTime) : Prop where
  low : ((((days * 24 + t.hour) * 60 + t.minute) * 60 + t.second) * 1000 + t.milliseconds) * 10000 ≤
    ticks
  high : ticks <
    ((((days * 24 + t.hour) * 60 + t.minute) * 60 + t.second) * 1000 + t.milliseconds + 1) * 10000
  clock : t.hour < 24 ∧ t.minute < 60 ∧ t.second < 60 ∧ t.milliseconds < 1000
  date : t.year = (after 1601 days).year ∧ t.month = (after 1601 days).month ∧
    t.day = (after 1601 days).day
  dayOfWeek : t.dayOfWeek = nextWeekday^[days] 1

theorem leapYear_iff (year : Nat) : leapYear year = true ↔ Leap year := by
  simp only [leapYear, Leap, Bool.or_eq_true, Bool.and_eq_true, beq_iff_eq, bne_iff_ne]
  omega

theorem yearCount_eq : yearCount = yearLength := by
  funext year
  rw [yearCount, yearLength]
  simp only [leapYear_iff]

theorem monthCount_eq (year : Nat) {month : Nat} (low : 1 ≤ month) (high : month ≤ 12) :
    monthCount year month = monthLength year month := by
  simp only [monthCount, monthLength, leapYear_iff]
  interval_cases month <;> simp [monthDays]
  split_ifs <;> rfl

theorem yearLoop_spec {d : Date} {days limit : Nat} (number : d.number 1601 = days)
    (first : 1601 ≤ d.year) (later : 1601 ≤ limit) :
    if d.year < limit then
      Spans.locate yearCount (limit - 1601) 1601 days =
        (d.year, Spans.total (monthLength d.year) 1 (d.month - 1) + (d.day - 1))
    else (Spans.locate yearCount (limit - 1601) 1601 days).1 = limit := by
  have within := d.day_lt
  rw [Date.number] at number
  rw [yearCount_eq]
  obtain ⟨k, r, found, sum, few, stop⟩ := Spans.locate_spec yearLength (limit - 1601) 1601 days
  rw [found]
  have whole := Spans.total_succ yearLength 1601 (d.year - 1601)
  rw [Nat.add_sub_cancel' first] at whole
  split_ifs with early
  · have short : r < yearLength (1601 + k) := by
      refine stop.resolve_right fun last => ?_
      have := Spans.total_mono yearLength 1601
        (show d.year - 1601 + 1 ≤ k by omega)
      omega
    have same := Nat.add_sub_cancel' first
    have here : Spans.total (monthLength d.year) 1 (d.month - 1) + (d.day - 1) <
        yearLength (1601 + (d.year - 1601)) := by
      rw [same]
      exact within
    obtain ⟨years, rest⟩ := Spans.unique short here (sum.trans number.symm)
    rw [years, rest, same]
  · by_contra other
    have less : k < d.year - 1601 := by
      simp only at other
      omega
    have := Spans.total_mono yearLength 1601 (show k + 1 ≤ d.year - 1601 by omega)
    rw [Spans.total_succ] at this
    simp only at other
    omega

theorem monthLoop_spec (d : Date) :
    Spans.locate (monthCount d.year) 12 1
      (Spans.total (monthLength d.year) 1 (d.month - 1) + (d.day - 1)) = (d.month, d.day - 1) := by
  have month := d.month_valid
  have day := d.day_valid
  have within := d.day_lt
  rw [Spans.locate_congr fun j low high => monthCount_eq d.year low (by omega)]
  obtain ⟨k, r, found, sum, few, stop⟩ := Spans.locate_spec (monthLength d.year) 12 1
    (Spans.total (monthLength d.year) 1 (d.month - 1) + (d.day - 1))
  have short : r < monthLength d.year (1 + k) := by
    refine stop.resolve_right fun last => ?_
    rw [last, total_months] at sum
    omega
  have here : d.day - 1 < monthLength d.year (1 + (d.month - 1)) := by
    rw [Nat.add_sub_cancel' month.1]
    omega
  obtain ⟨rfl, rfl⟩ := Spans.unique short here sum
  rw [found, Nat.add_sub_cancel' month.1]

/-- The time that is `ticks` units after the start. -/
def timeAt (ticks : Nat) : SystemTime :=
  let days := ticks / 10000000 / 86400
  let seconds := ticks / 10000000 % 86400
  { year := (after 1601 days).year
    month := (after 1601 days).month
    dayOfWeek := (days + 1) % 7
    day := (after 1601 days).day
    hour := seconds / 3600
    minute := seconds / 60 % 60
    second := seconds % 60
    milliseconds := ticks % 10000000 / 10000 }

theorem fileTimeToSystemTime_eq (ticks : Nat) : fileTimeToSystemTime ticks =
    if (timeAt ticks).year < 30828 then some (timeAt ticks) else none := by
  have years := yearLoop_spec (number_after 1601 (ticks / 10000000 / 86400)) (year_after _ _)
    (show 1601 ≤ 30828 by decide)
  have months := monthLoop_spec (after 1601 (ticks / 10000000 / 86400))
  have day := (after 1601 (ticks / 10000000 / 86400)).day_valid
  simp only [fileTimeToSystemTime]
  by_cases early : (timeAt ticks).year < 30828
  · rw [if_pos (show (after 1601 (ticks / 10000000 / 86400)).year < 30828 from early)] at years
    rw [if_pos early, years]
    simp only [months]
    have other : (after 1601 (ticks / 10000000 / 86400)).year ≠ 30828 := Nat.ne_of_lt early
    rw [if_neg other, Nat.sub_add_cancel day.1]
    rfl
  · rw [if_neg (show ¬ (after 1601 (ticks / 10000000 / 86400)).year < 30828 from early)] at years
    rw [if_neg early, if_pos years]

theorem denotes_iff {ticks days : Nat} {t : SystemTime} :
    Denotes ticks days t ↔ days = ticks / 10000000 / 86400 ∧ t = timeAt ticks := by
  constructor
  · rintro ⟨low, high, ⟨hour, minute, second, milliseconds⟩, ⟨year, month, day⟩, weekday⟩
    rw [weekday_after days 1 (by decide)] at weekday
    have count : days = ticks / 10000000 / 86400 := by omega
    refine ⟨count, ?_⟩
    obtain ⟨y, m, w, d, hr, mi, s, ms⟩ := t
    simp only at *
    simp only [timeAt, ← count, SystemTime.mk.injEq]
    refine ⟨year, month, weekday, day, ?_, ?_, ?_, ?_⟩ <;> omega
  · rintro ⟨rfl, rfl⟩
    refine ⟨?_, ?_, ?_, ⟨rfl, rfl, rfl⟩, (weekday_after _ 1 (by decide)).symm⟩
    · simp only [timeAt]
      omega
    · simp only [timeAt]
      omega
    · simp only [timeAt]
      omega

/-- A day of FAT. -/
theorem fatDatetimeTicks_eq {date time : Nat} (d : Date) (year : d.year = 1980 + (date >>> 9))
    (month : d.month = (date >>> 5) &&& 15) (day : d.day = date &&& 31) :
    fatDatetimeTicks date time = (d.number 1601 * 86400 + ((time >>> 11) &&& 31) * 3600 +
      ((time >>> 5) &&& 63) * 60 + (time &&& 31) * 2) * 10000000 := by
  have month_valid := d.month_valid
  have day_valid := d.day_valid
  have some_ : ¬ (date = 0 ∨ d.month < 1 ∨ 12 < d.month ∨ d.day < 1) := by
    rintro (rfl | none)
    · rw [month] at month_valid
      exact absurd month_valid (by decide)
    · omega
  have months : Spans.total (monthCount d.year) 1 (d.month - 1) =
      Spans.total (monthLength d.year) 1 (d.month - 1) :=
    Spans.total_congr fun j low high => monthCount_eq d.year low (by omega)
  simp only [fatDatetimeTicks, ← year, ← month, ← day, if_neg some_, yearCount_eq, months,
    Date.number, Nat.add_assoc]

theorem Denotes.result {ticks days : Nat} {t : SystemTime} (denotes : Denotes ticks days t) :
    fileTimeToSystemTime ticks = if t.year < 30828 then some t else none := by
  rw [fileTimeToSystemTime_eq, (denotes_iff.mp denotes).2]

/-- Every number of units is one time of the calendar, `FileTimeToSystemTime` returns it if
it is before the year 30828, and a date and time of FAT come back. -/
theorem file_times :
    (∀ ticks, ∃! t, ∃ days, Denotes ticks days t) ∧
    (∀ ticks days t, Denotes ticks days t →
      fileTimeToSystemTime ticks = if t.year < 30828 then some t else none) ∧
    ∀ date time (d : Date), date < 2 ^ 16 → d.year = 1980 + (date >>> 9) →
      d.month = (date >>> 5) &&& 15 → d.day = date &&& 31 → (time >>> 11) &&& 31 < 24 →
      (time >>> 5) &&& 63 < 60 → time &&& 31 < 30 →
      fileTimeToSystemTime (fatDatetimeTicks date time) = some {
        year := d.year
        month := d.month
        dayOfWeek := nextWeekday^[d.number 1601] 1
        day := d.day
        hour := (time >>> 11) &&& 31
        minute := (time >>> 5) &&& 63
        second := (time &&& 31) * 2
        milliseconds := 0 } := by
  refine ⟨fun ticks => ⟨timeAt ticks, ⟨_, denotes_iff.mpr ⟨rfl, rfl⟩⟩, ?_⟩,
    fun _ _ _ => Denotes.result, fun date time d word year month day hour minute second => ?_⟩
  · rintro t ⟨days, denotes⟩
    exact (denotes_iff.mp denotes).2
  · have early : d.year < 30828 := by
      rw [Nat.shiftRight_eq_div_pow] at year
      omega
    have same : d = after 1601 (d.number 1601) := eq_after (by omega)
    have denotes : Denotes (fatDatetimeTicks date time) (d.number 1601) {
        year := d.year
        month := d.month
        dayOfWeek := nextWeekday^[d.number 1601] 1
        day := d.day
        hour := (time >>> 11) &&& 31
        minute := (time >>> 5) &&& 63
        second := (time &&& 31) * 2
        milliseconds := 0 } := by
      rw [fatDatetimeTicks_eq d year month day]
      refine ⟨?_, ?_, ⟨hour, minute, ?_, ?_⟩, ?_, rfl⟩
      · simp only
        omega
      · simp only
        omega
      · simp only
        omega
      · exact Nat.zero_lt_succ _
      · rw [← same]
        exact ⟨rfl, rfl, rfl⟩
    exact denotes.result.trans (if_pos early)

/-- 2024-02-29, 23:59:58, a Thursday. -/
theorem file_times_leap_day : fileTimeToSystemTime (fatDatetimeTicks 0x585D 0xBF7D) =
    some ⟨2024, 2, nextWeekday^[(Date.number 1601 ⟨2024, 2, 29, by decide, by decide⟩)] 1, 29, 23,
      59, 58, 0⟩ :=
  file_times.2.2 0x585D 0xBF7D ⟨2024, 2, 29, by decide, by decide⟩ (by decide) (by decide)
    (by decide) (by decide) (by decide) (by decide) (by decide)

end Kernel32
