import MariaDB.Time.Basic
import MariaDB.Time.Calendar

/-
  Weeks: `calc_weekday` and `calc_week` of sql/sql_time.cc.

  Model. `calcWeekday` is `calc_weekday` on the `long` day number, with C's truncating `%`.
  `calcWeek` is `calc_week`; it returns the week and the year it writes to `*year`. Its
  `ulong` day numbers are `toUnsigned 64` of `calc_daynr`, and its `uint` place in the week,
  count of days and year are `toUnsigned 32` where the C arithmetic could wrap.
  `calcWeekTail` is its part after the case of the first days of January, given the day
  number of January 1 of the year the week is counted in and its place in its week.

  Specification. Day 366, 0001-01-01, was a Monday, so `weekdayOf n`, the days since then
  modulo 7, is the weekday of day `n` with Monday 0; `weekPos` is the place of a day in its
  week when weeks start on Monday, or on Sunday. `weekOneStart` is the first day of week 1 of
  a year as the comment above `calc_week` defines it: the first day that starts a week from
  January 1 on with `WEEK_FIRST_WEEKDAY` (the week of the first first day of a week), and from
  three days before January 1 on otherwise (the first week with four days or more in the
  year).

  Proved:
  * `calcWeekday_eq_weekPos`, `weekdayOf_nextDay`: `calc_weekday` gives the place in the week,
    and the weekday moves on by one from each date to the next, 0001-01-01 a Monday;
  * `weekOneStart_spec`: week 1 starts on the first day that starts a week from its bound on;
  * `calcWeek_eq`: `calc_week` on every date of the years 1 to 9999 and every flag word, in
    terms of the starts of week 1 of the date's year and the years around it;
  * `calcWeek_weekYear`: with `WEEK_YEAR` the year is the one whose week 1 starts on or before
    the date and whose next year's week 1 starts after it, at most a year away, and the week,
    from 1 to 53, is counted from its week 1; `calcWeek_of_not_weekYear`: without it, the week
    is counted in the date's year, from 0 before week 1 to 53;
  * `weekOneStart_iso`: with `WEEK_MONDAY_FIRST` and not `WEEK_FIRST_WEEKDAY`, week 1 is the
    week from Monday that holds January 4, as ISO 8601 has it.
-/

namespace MariaDB.Time

open MariaDB.Lib

/-! ## Model -/

/-- `WEEK_MONDAY_FIRST` of sql/sql_time.h. -/
def weekMondayFirstBit : Nat := 1

/-- `WEEK_YEAR` of sql/sql_time.h. -/
def weekYearBit : Nat := 2

/-- `WEEK_FIRST_WEEKDAY` of sql/sql_time.h. -/
def weekFirstWeekdayBit : Nat := 4

/-- `calc_weekday(daynr, sunday_first_day_of_week)`: 0 for the first day of the week. -/
def calcWeekday (daynr : Int) (sundayFirstDayOfWeek : Bool) : Int :=
  (daynr + 5 + (if sundayFirstDayOfWeek then 1 else 0)).tmod 7

/-- The part of `calc_week` after the first days of January: `firstDaynr` is January 1 of
    the year `year` the week is counted in, `weekday` its place in its week. -/
def calcWeekTail (daynr firstDaynr weekday : Nat) (weekYear firstWeekday : Bool) (year : Nat) :
    Nat × Nat :=
  let days := if (firstWeekday ∧ weekday ≠ 0) ∨ (!firstWeekday ∧ weekday ≥ 4)
    then toUnsigned 32 ((daynr : Int) - ((firstDaynr : Int) + (7 - (weekday : Int))))
    else toUnsigned 32 ((daynr : Int) - ((firstDaynr : Int) - weekday))
  if weekYear ∧ days ≥ 52 * 7 then
    -- the place of January 1 of the next year in its week
    let weekday := (weekday + calcDaysInYear year) % 7
    if (!firstWeekday ∧ weekday < 4) ∨ (firstWeekday ∧ weekday = 0)
    then (1, toUnsigned 32 ((year : Int) + 1))
    else (days / 7 + 1, year)
  else (days / 7 + 1, year)

/-- `calc_week(l_time, week_behaviour, &year)`: the week, and the year written to `*year`. -/
def calcWeek (t : MysqlTime) (weekBehaviour : Nat) : Nat × Nat :=
  let daynr := toUnsigned 64 (calcDaynr t.year t.month t.day)
  let firstDaynr := toUnsigned 64 (calcDaynr t.year 1 1)
  let mondayFirst := weekBehaviour &&& weekMondayFirstBit != 0
  let weekYear := weekBehaviour &&& weekYearBit != 0
  let firstWeekday := weekBehaviour &&& weekFirstWeekdayBit != 0
  let weekday := toUnsigned 32 (calcWeekday firstDaynr (!mondayFirst))
  if t.month = 1 ∧ t.day ≤ 7 - weekday then
    if !weekYear ∧ ((firstWeekday ∧ weekday ≠ 0) ∨ (!firstWeekday ∧ weekday ≥ 4)) then
      (0, t.year)
    else
      -- counted from the year before: `(*year)--`
      let year := toUnsigned 32 ((t.year : Int) - 1)
      let days := calcDaysInYear year
      calcWeekTail daynr (toUnsigned 64 ((firstDaynr : Int) - days))
        ((weekday + 53 * 7 - days) % 7) true firstWeekday year
  else calcWeekTail daynr firstDaynr weekday weekYear firstWeekday t.year

/-! ## Specification -/

/-- The weekday of day number `n`, Monday 0 to Sunday 6: day 366, 0001-01-01, was a Monday. -/
def weekdayOf (n : Int) : Nat := ((n - 366) % 7).toNat

/-- The place of day `n` in its week, from 0, when weeks start on Monday or on Sunday. -/
def weekPos (mondayFirst : Bool) (n : Int) : Nat :=
  if mondayFirst then weekdayOf n else (weekdayOf n + 1) % 7

/-- The first day of week 1 of year `y`: the first day that starts a week from January 1 on
    (`firstWeekday`), or from three days before it on, so that week 1 has four days or more
    of `y`. -/
def weekOneStart (mondayFirst firstWeekday : Bool) (y : Nat) : Int :=
  let a := calcDaynr y 1 1 - if firstWeekday then 0 else 3
  a + (7 - weekPos mondayFirst a) % 7

/-! ## Weekdays -/

section Weekday

/-- The place in the week in the terms `omega` reads. -/
theorem weekPos_cast (mf : Bool) (n : Int) :
    (weekPos mf n : Int) = (n - 366 + if mf then 0 else 1) % 7 := by
  unfold weekPos weekdayOf
  cases mf <;> simp only [if_true, if_false, Bool.false_eq_true] <;> omega

theorem weekPos_lt (mf : Bool) (n : Int) : weekPos mf n < 7 := by
  have := weekPos_cast mf n
  omega

/-- `calc_weekday` of a day number is its place in the week. -/
theorem calcWeekday_eq_weekPos (mf : Bool) {n : Int} (hn : 0 ≤ n) :
    calcWeekday n (!mf) = weekPos mf n := by
  have := weekPos_cast mf n
  unfold calcWeekday
  rw [Int.tmod_eq_emod_of_nonneg (by split <;> omega)]
  cases mf <;> simp only [Bool.not_true, Bool.not_false, if_true, if_false,
    Bool.false_eq_true] at this ⊢ <;> omega

/-- From each date to the next the weekday moves on by one. -/
theorem weekdayOf_nextDay {y m d : Nat} (hv : ValidDate y m d) :
    weekdayOf (calcDaynr (nextDay y m d).1 (nextDay y m d).2.1 (nextDay y m d).2.2) =
      (weekdayOf (calcDaynr y m d) + 1) % 7 := by
  rw [calcDaynr_nextDay hv]
  unfold weekdayOf
  omega

end Weekday

/-! ## Week 1 -/

section WeekOne

/-- Week 1 starts on the first day from its bound on that starts a week. -/
theorem weekOneStart_spec (mf fw : Bool) (y : Nat) :
    weekPos mf (weekOneStart mf fw y) = 0 ∧
      calcDaynr y 1 1 - (if fw then 0 else 3) ≤ weekOneStart mf fw y ∧
      weekOneStart mf fw y < calcDaynr y 1 1 - (if fw then 0 else 3) + 7 := by
  have ha := weekPos_cast mf (calcDaynr y 1 1 - if fw then 0 else 3)
  have hw := weekPos_cast mf (weekOneStart mf fw y)
  unfold weekOneStart at hw ⊢
  dsimp only at hw ⊢
  refine ⟨?_, by omega, by omega⟩
  cases mf <;> simp only [if_true, if_false, Bool.false_eq_true] at ha hw <;> omega

/-- Week 1 from January 1 and its place in the week, in the terms `calc_week` computes it:
    it starts after January 1 when the week of January 1 belongs to the year before. -/
theorem weekOneStart_eq (mf fw : Bool) (y : Nat) :
    weekOneStart mf fw y =
      if (fw ∧ weekPos mf (calcDaynr y 1 1) ≠ 0) ∨ (!fw ∧ weekPos mf (calcDaynr y 1 1) ≥ 4)
      then calcDaynr y 1 1 + (7 - (weekPos mf (calcDaynr y 1 1) : Int))
      else calcDaynr y 1 1 - weekPos mf (calcDaynr y 1 1) := by
  have hj := weekPos_cast mf (calcDaynr y 1 1)
  have ha := weekPos_cast mf (calcDaynr y 1 1 - if fw then 0 else 3)
  unfold weekOneStart
  dsimp only
  cases fw <;> cases mf <;>
    simp only [if_true, if_false, Bool.false_eq_true, Bool.not_false, Bool.not_true, true_and,
      false_and, or_false, false_or, sub_zero] at ha hj ⊢ <;>
    split_ifs <;> omega

/-- With `WEEK_MONDAY_FIRST` and not `WEEK_FIRST_WEEKDAY`, week 1 is the week, from Monday,
    that holds January 4: ISO 8601's week 1. -/
theorem weekOneStart_iso (y : Nat) :
    weekdayOf (weekOneStart true false y) = 0 ∧
      weekOneStart true false y ≤ calcDaynr y 1 1 + 3 ∧
      calcDaynr y 1 1 + 3 < weekOneStart true false y + 7 := by
  obtain ⟨h0, h1, h2⟩ := weekOneStart_spec true false y
  refine ⟨h0, ?_, ?_⟩ <;> simp only [Bool.false_eq_true, if_false] at h1 h2 <;> omega

end WeekOne

/-! ## Day numbers within a year -/

section DayOfYear

theorem calcDaynr_jan1 (y : Nat) : calcDaynr y 1 1 = daysBeforeYear y + 1 := by
  rcases Nat.eq_zero_or_pos y with rfl | hy
  · rw [daysBeforeYear_zero]
    decide
  · rw [calcDaynr_eq_dayNumber 1 hy le_rfl (by norm_num), dayNumber]
    simp [daysBeforeMonth]

theorem calcDaynr_jan1_succ (y : Nat) :
    calcDaynr (y + 1) 1 1 = calcDaynr y 1 1 + calcDaysInYear y := by
  rw [calcDaynr_jan1, calcDaynr_jan1, daysBeforeYear_succ]
  push_cast
  ring

theorem calcDaysInYear_bounds (y : Nat) : 365 ≤ calcDaysInYear y ∧ calcDaysInYear y ≤ 366 := by
  unfold calcDaysInYear
  split <;> omega

theorem daysBeforeMonth_ge {y m : Nat} (h2 : 2 ≤ m) (hm : m ≤ 12) : 31 ≤ daysBeforeMonth y m := by
  rw [daysBeforeMonth_eq y hm]
  interval_cases m <;> simp [daysInMonth] <;> split <;> omega

/-- A date is `daysBeforeMonth y m + d - 1` days after January 1 of its year, inside the year;
    within a week of January 1 only in January. -/
theorem calcDaynr_of_valid {y m d : Nat} (hv : ValidDate y m d) :
    calcDaynr y m d = calcDaynr y 1 1 + ((daysBeforeMonth y m + d - 1 : Nat) : Int) ∧
      1 ≤ daysBeforeMonth y m + d ∧ daysBeforeMonth y m + d ≤ calcDaysInYear y ∧
      ∀ k ≤ 7, (m = 1 ∧ d ≤ k ↔ daysBeforeMonth y m + d ≤ k) := by
  obtain ⟨hy1, -, hm1, hm, hd1, hd⟩ := hv
  have hdn := calcDaynr_eq_dayNumber d hy1 hm1 hm
  have hjan := calcDaynr_eq_dayNumber 1 hy1 le_rfl (by norm_num : 1 ≤ 12)
  have h1 : daysBeforeMonth y 1 = 0 := by simp [daysBeforeMonth]
  unfold dayNumber at hdn hjan
  refine ⟨by omega, by omega, dayOfYear_le hm1 hm hd, fun k hk => ?_⟩
  rcases Nat.lt_or_ge m 2 with h | h
  · obtain rfl : m = 1 := by omega
    rw [h1]
    omega
  · have := daysBeforeMonth_ge (y := y) h hm
    omega

theorem calcDaynr_nonneg {y m d : Nat} (hv : ValidDate y m d) : 0 ≤ calcDaynr y m d := by
  have := (calcDaynr_range hv).1
  omega

end DayOfYear

/-! ## `calc_week` -/

section CalcWeek

/-- Week 1 starts on or before January 1 just when January 1 is early enough in its week:
    the test `calc_week` makes of the next year. -/
theorem weekOneStart_le_iff (mf fw : Bool) (y : Nat) :
    weekOneStart mf fw y ≤ calcDaynr y 1 1 ↔
      (!fw ∧ weekPos mf (calcDaynr y 1 1) < 4) ∨ (fw ∧ weekPos mf (calcDaynr y 1 1) = 0) := by
  have hW := weekOneStart_eq mf fw y
  have hp := weekPos_lt mf (calcDaynr y 1 1)
  cases fw <;>
    simp only [Bool.not_false, Bool.not_true, true_and, false_and, or_false, false_or,
      Bool.false_eq_true] at hW ⊢ <;>
    split_ifs at hW <;> omega

/-- From one year's week 1 to the next there are 52 or 53 weeks, and 52 when the next year's
    week 1 starts on or before its January 1. -/
theorem weekOneStart_succ (mf fw : Bool) (y : Nat) :
    (weekOneStart mf fw (y + 1) = weekOneStart mf fw y + 364 ∨
        weekOneStart mf fw (y + 1) = weekOneStart mf fw y + 371) ∧
      (weekOneStart mf fw (y + 1) ≤ calcDaynr (y + 1) 1 1 →
        weekOneStart mf fw (y + 1) = weekOneStart mf fw y + 364) := by
  have hW := weekOneStart_eq mf fw y
  have hW1 := weekOneStart_eq mf fw (y + 1)
  have hnext := calcDaynr_jan1_succ y
  have hL := calcDaysInYear_bounds y
  have hp := weekPos_cast mf (calcDaynr y 1 1)
  have hp1 := weekPos_cast mf (calcDaynr (y + 1) 1 1)
  cases fw <;> cases mf <;>
    simp only [if_true, if_false, Bool.false_eq_true, Bool.not_false, Bool.not_true, true_and,
      false_and, or_false, false_or] at hW hW1 hp hp1 <;>
    split_ifs at hW hW1 <;> omega

/-- The count of days `calc_week` takes is the distance from the start of week 1. -/
theorem calcWeekTail_days (mf fw : Bool) {Y : Nat} {n : Int}
    (hlo : weekOneStart mf fw Y ≤ n) (hhi : n < weekOneStart mf fw Y + 2 ^ 32) :
    (if (fw ∧ weekPos mf (calcDaynr Y 1 1) ≠ 0) ∨ (!fw ∧ weekPos mf (calcDaynr Y 1 1) ≥ 4)
      then toUnsigned 32 (n - (calcDaynr Y 1 1 + (7 - (weekPos mf (calcDaynr Y 1 1) : Int))))
      else toUnsigned 32 (n - (calcDaynr Y 1 1 - weekPos mf (calcDaynr Y 1 1)))) =
      (n - weekOneStart mf fw Y).toNat := by
  rw [weekOneStart_eq] at hlo hhi ⊢
  split_ifs at hlo hhi ⊢ <;> exact toUnsigned_of_eq_natCast (by omega) (by omega)

/-- `calcWeekTail` counted from year `Y`, for a day from the start of week 1 of `Y` on and
    before the end of the week of January 1 of the next year: with `WEEK_YEAR`, week 1 of the
    next year once that has started; otherwise the week counted from week 1 of `Y`. -/
theorem calcWeekTail_eq (mf fw wy : Bool) {Y : Nat} {n : Int} (hY : Y + 1 < 2 ^ 32)
    (hj : 0 ≤ calcDaynr Y 1 1) (hn : 0 ≤ n) (hlo : weekOneStart mf fw Y ≤ n)
    (hhi : n < calcDaynr (Y + 1) 1 1 + 7 - weekPos mf (calcDaynr (Y + 1) 1 1)) :
    calcWeekTail n.toNat (calcDaynr Y 1 1).toNat (weekPos mf (calcDaynr Y 1 1)) wy fw Y =
      if wy ∧ weekOneStart mf fw (Y + 1) ≤ n then (1, Y + 1)
      else (((n - weekOneStart mf fw Y) / 7).toNat + 1, Y) := by
  obtain ⟨hstep, hstep1⟩ := weekOneStart_succ mf fw Y
  have hbegin := weekOneStart_le_iff mf fw (Y + 1)
  have hW1 := weekOneStart_eq mf fw (Y + 1)
  have hp1 := weekPos_lt mf (calcDaynr (Y + 1) 1 1)
  have hnext := calcDaynr_jan1_succ Y
  have hL := calcDaysInYear_bounds Y
  -- the place of January 1 of the next year, as `calc_week` computes it
  have hw1 : (weekPos mf (calcDaynr Y 1 1) + calcDaysInYear Y) % 7 =
      weekPos mf (calcDaynr (Y + 1) 1 1) := by
    have hp := weekPos_cast mf (calcDaynr Y 1 1)
    have hp1' := weekPos_cast mf (calcDaynr (Y + 1) 1 1)
    omega
  have hY1 : toUnsigned 32 ((Y : Int) + 1) = Y + 1 :=
    toUnsigned_of_eq_natCast (by push_cast; ring) hY
  -- the next year's week 1 starts before the end of its week of January 1
  have hW1le : weekOneStart mf fw (Y + 1) ≤
      calcDaynr (Y + 1) 1 1 + 7 - weekPos mf (calcDaynr (Y + 1) 1 1) := by
    rw [hW1]
    split_ifs <;> omega
  unfold calcWeekTail
  dsimp only
  rw [Int.toNat_of_nonneg hn, Int.toNat_of_nonneg hj, calcWeekTail_days mf fw hlo (by omega),
    hw1, hY1]
  by_cases hc : wy = true ∧ weekOneStart mf fw (Y + 1) ≤ n
  · -- week 1 of the next year: 52 weeks after week 1 of `Y`
    obtain ⟨hwy, hle⟩ := hc
    have hb : weekOneStart mf fw (Y + 1) ≤ calcDaynr (Y + 1) 1 1 := by
      by_contra hb
      rw [hW1] at hb hle
      split_ifs at hb hle <;> omega
    rw [if_pos ⟨hwy, by omega⟩, if_pos (hbegin.mp hb), if_pos ⟨hwy, hle⟩]
  · rw [if_neg hc]
    split_ifs with h1 h2
    · -- not reachable: 52 weeks on, with the next year's week 1 started on January 1
      exact absurd ⟨h1.1, by have := hstep1 (hbegin.mpr h2); omega⟩ hc
    · congr 1
      omega
    · congr 1
      omega

/-- Week 1 starts within three days before and six days after January 1. -/
theorem weekOneStart_bounds (mf fw : Bool) (y : Nat) :
    calcDaynr y 1 1 - 3 ≤ weekOneStart mf fw y ∧ weekOneStart mf fw y ≤ calcDaynr y 1 1 + 6 := by
  obtain ⟨-, h1, h2⟩ := weekOneStart_spec mf fw y
  cases fw <;> simp only [if_true, if_false, Bool.false_eq_true] at h1 h2 <;> omega

/-- `calc_week` on a date of the years 1 to 9999, for every flag word, in terms of week 1 of
    the date's year and of the years around it. -/
theorem calcWeek_eq (t : MysqlTime) (f : Nat) (hv : ValidDate t.year t.month t.day) :
    calcWeek t f =
      let mf := f &&& weekMondayFirstBit != 0
      let fw := f &&& weekFirstWeekdayBit != 0
      let n := calcDaynr t.year t.month t.day
      if f &&& weekYearBit != 0 then
        if weekOneStart mf fw (t.year + 1) ≤ n then (1, t.year + 1)
        else if weekOneStart mf fw t.year ≤ n then
          (((n - weekOneStart mf fw t.year) / 7).toNat + 1, t.year)
        else (((n - weekOneStart mf fw (t.year - 1)) / 7).toNat + 1, t.year - 1)
      else
        (if n < weekOneStart mf fw t.year then 0
          else ((n - weekOneStart mf fw t.year) / 7).toNat + 1, t.year) := by
  obtain ⟨hn, he1, heL, hjan⟩ := calcDaynr_of_valid hv
  have hmax : calcDaynr t.year t.month t.day ≤ 3652424 := (calcDaynr_range hv).2
  obtain ⟨hy1, hy, -⟩ := hv
  generalize hmf : (f &&& weekMondayFirstBit != 0) = mf
  generalize hfw : (f &&& weekFirstWeekdayBit != 0) = fw
  generalize hwy : (f &&& weekYearBit != 0) = wy
  -- January 1 of the date's year and of the years around it
  have hj := calcDaynr_jan1 t.year
  have hsucc := calcDaynr_jan1_succ t.year
  have hprev := calcDaynr_jan1_succ (t.year - 1)
  have hjp1 := calcDaynr_jan1 (t.year - 1)
  rw [Nat.sub_add_cancel hy1] at hprev
  have hL := calcDaysInYear_bounds t.year
  have hLp := calcDaysInYear_bounds (t.year - 1)
  have hj0 : 0 ≤ calcDaynr t.year 1 1 := by omega
  have hn0 : 0 ≤ calcDaynr t.year t.month t.day := by omega
  have hp := weekPos_cast mf (calcDaynr t.year 1 1)
  have hpw := weekPos_lt mf (calcDaynr t.year 1 1)
  have hp1 := weekPos_lt mf (calcDaynr (t.year + 1) 1 1)
  have hW := weekOneStart_eq mf fw t.year
  have hB1 := weekOneStart_bounds mf fw (t.year + 1)
  have hBp := weekOneStart_bounds mf fw (t.year - 1)
  -- the `ulong` and `uint` conversions keep their values
  have hdn : toUnsigned 64 (calcDaynr t.year t.month t.day) =
      (calcDaynr t.year t.month t.day).toNat := toUnsigned_of_eq_natCast (by omega) (by omega)
  have hdj : toUnsigned 64 (calcDaynr t.year 1 1) = (calcDaynr t.year 1 1).toNat :=
    toUnsigned_of_eq_natCast (by omega) (by omega)
  have hwd : toUnsigned 32 (calcWeekday ((calcDaynr t.year 1 1).toNat : Int) (!mf)) =
      weekPos mf (calcDaynr t.year 1 1) := by
    rw [Int.toNat_of_nonneg hj0, calcWeekday_eq_weekPos mf hj0]
    exact toUnsigned_natCast (by omega)
  unfold calcWeek
  simp only [hmf, hfw, hwy]
  rw [hdn, hdj, hwd]
  by_cases hearly : t.month = 1 ∧ t.day ≤ 7 - weekPos mf (calcDaynr t.year 1 1)
  · rw [if_pos hearly]
    have he : daysBeforeMonth t.year t.month + t.day ≤ 7 - weekPos mf (calcDaynr t.year 1 1) :=
      (hjan _ (by omega)).mp hearly
    by_cases hzero : (!wy) = true ∧ ((fw = true ∧ weekPos mf (calcDaynr t.year 1 1) ≠ 0) ∨
        ((!fw) = true ∧ weekPos mf (calcDaynr t.year 1 1) ≥ 4))
    · -- week 0: the date is before week 1 of its year
      rw [if_pos hzero]
      obtain ⟨hnwy, hlate⟩ := hzero
      rw [if_pos hlate] at hW
      simp only [Bool.not_eq_true'] at hnwy
      rw [hnwy, if_neg Bool.false_ne_true, if_pos (by omega)]
    · -- counted from the year before, where it is the last week or week 1 comes next
      rw [if_neg hzero]
      have hY : toUnsigned 32 ((t.year : Int) - 1) = t.year - 1 :=
        toUnsigned_of_eq_natCast (by omega) (by omega)
      have hjp : toUnsigned 64 (((calcDaynr t.year 1 1).toNat : Int) -
          (calcDaysInYear (t.year - 1) : Int)) = (calcDaynr (t.year - 1) 1 1).toNat :=
        toUnsigned_of_eq_natCast (by omega) (by omega)
      have hwp : (weekPos mf (calcDaynr t.year 1 1) + 53 * 7 - calcDaysInYear (t.year - 1)) % 7 =
          weekPos mf (calcDaynr (t.year - 1) 1 1) := by
        have := weekPos_cast mf (calcDaynr (t.year - 1) 1 1)
        omega
      rw [hY, hjp, hwp, calcWeekTail_eq mf fw true (by omega) (by omega) hn0 (by omega)
        (by rw [Nat.sub_add_cancel hy1]; omega), Nat.sub_add_cancel hy1]
      cases wy
      · -- without `WEEK_YEAR`, January 1 is in week 1
        simp only [Bool.not_false, true_and, not_or, not_and, not_le] at hzero
        rw [if_neg Bool.false_ne_true]
        split_ifs at hW with hl
        · rcases hl with ⟨hf, hne⟩ | ⟨hf, hge⟩
          · exact absurd hne (hzero.1 hf)
          · exact absurd (hzero.2 hf) (by omega)
        · rw [if_pos ⟨rfl, by omega⟩, if_neg (by omega)]
          congr 1
          omega
      · rw [if_pos rfl,
          if_neg (show ¬weekOneStart mf fw (t.year + 1) ≤ calcDaynr t.year t.month t.day by omega)]
        by_cases h1 : weekOneStart mf fw t.year ≤ calcDaynr t.year t.month t.day
        · rw [if_pos ⟨rfl, h1⟩, if_pos h1]
          congr 1
          split_ifs at hW <;> omega
        · rw [if_neg (fun h => h1 h.2), if_neg h1]
  · rw [if_neg hearly]
    have he : 7 - weekPos mf (calcDaynr t.year 1 1) < daysBeforeMonth t.year t.month + t.day := by
      by_contra h
      exact hearly ((hjan _ (by omega)).mpr (by omega))
    have hlo : weekOneStart mf fw t.year ≤ calcDaynr t.year t.month t.day := by
      split_ifs at hW <;> omega
    rw [calcWeekTail_eq mf fw wy (by omega) hj0 hn0 hlo (by omega)]
    cases wy
    · rw [if_neg (fun h => Bool.false_ne_true h.1), if_neg Bool.false_ne_true, if_neg (by omega)]
    · rw [if_pos rfl]
      by_cases h1 : weekOneStart mf fw (t.year + 1) ≤ calcDaynr t.year t.month t.day
      · rw [if_pos ⟨rfl, h1⟩, if_pos h1]
      · rw [if_neg (fun h => h1 h.2), if_neg h1, if_pos hlo]

/-- The facts about the years around a date that the bounds on `calc_week` rest on. -/
theorem weekOneStart_around {y m d : Nat} (hv : ValidDate y m d) (mf fw : Bool) :
    let n := calcDaynr y m d
    weekOneStart mf fw (y - 1) ≤ n - 359 ∧ n < weekOneStart mf fw y + 371 ∧
      n + 3 < weekOneStart mf fw (y + 1 + 1) ∧ n ≤ calcDaynr (y + 1) 1 1 - 1 ∧
      calcDaynr (y + 1) 1 1 - 3 ≤ weekOneStart mf fw (y + 1) := by
  obtain ⟨hn, he1, heL, -⟩ := calcDaynr_of_valid hv
  have hy1 := hv.1
  have hsucc := calcDaynr_jan1_succ y
  have hsucc2 := calcDaynr_jan1_succ (y + 1)
  have hprev := calcDaynr_jan1_succ (y - 1)
  rw [Nat.sub_add_cancel hy1] at hprev
  have hL := calcDaysInYear_bounds y
  have hL1 := calcDaysInYear_bounds (y + 1)
  have hLp := calcDaysInYear_bounds (y - 1)
  have hB := weekOneStart_bounds mf fw y
  have hB1 := weekOneStart_bounds mf fw (y + 1)
  have hB2 := weekOneStart_bounds mf fw (y + 1 + 1)
  have hBp := weekOneStart_bounds mf fw (y - 1)
  intro n
  refine ⟨by omega, by omega, by omega, by omega, hB1.1⟩

/-- With `WEEK_YEAR`: the year `calc_week` gives is the date's year or one next to it, the
    one whose week 1 starts on or before the date and whose next year's week 1 starts after
    it, and the week, from 1 to 53, is counted from that week 1. -/
theorem calcWeek_weekYear (t : MysqlTime) (f : Nat) (hv : ValidDate t.year t.month t.day)
    (hwy : f &&& weekYearBit ≠ 0) :
    let mf := f &&& weekMondayFirstBit != 0
    let fw := f &&& weekFirstWeekdayBit != 0
    let n := calcDaynr t.year t.month t.day
    ((calcWeek t f).2 + 1 = t.year ∨ (calcWeek t f).2 = t.year ∨
        (calcWeek t f).2 = t.year + 1) ∧
      weekOneStart mf fw (calcWeek t f).2 ≤ n ∧ n < weekOneStart mf fw ((calcWeek t f).2 + 1) ∧
      (calcWeek t f).1 = ((n - weekOneStart mf fw (calcWeek t f).2) / 7).toNat + 1 ∧
      1 ≤ (calcWeek t f).1 ∧ (calcWeek t f).1 ≤ 53 := by
  have hy1 := hv.1
  rw [calcWeek_eq t f hv]
  simp only [bne_iff_ne.mpr hwy, if_true]
  generalize (f &&& weekMondayFirstBit != 0) = mf
  generalize (f &&& weekFirstWeekdayBit != 0) = fw
  obtain ⟨hprev, hlast, hnext2, hjan, hnext⟩ := weekOneStart_around hv mf fw
  split_ifs with h1 h2
  · -- week 1 of the next year, which starts at most three days before its January 1
    dsimp only
    refine ⟨Or.inr (Or.inr rfl), h1, by omega, by omega, le_rfl, by omega⟩
  · -- counted from week 1 of the date's year
    have hstep := (weekOneStart_succ mf fw t.year).1
    dsimp only
    refine ⟨Or.inr (Or.inl rfl), h2, by omega, rfl, by omega, by omega⟩
  · -- before week 1 of the date's year: counted from week 1 of the year before
    have hstep := (weekOneStart_succ mf fw (t.year - 1)).1
    dsimp only
    rw [Nat.sub_add_cancel hy1] at hstep ⊢
    refine ⟨Or.inl rfl, by omega, by omega, rfl, by omega, by omega⟩

/-- Without `WEEK_YEAR`: the year is the date's year, and the week is 0 before its week 1
    and counted from it after, up to 53. -/
theorem calcWeek_of_not_weekYear (t : MysqlTime) (f : Nat) (hv : ValidDate t.year t.month t.day)
    (hwy : f &&& weekYearBit = 0) :
    let mf := f &&& weekMondayFirstBit != 0
    let fw := f &&& weekFirstWeekdayBit != 0
    let n := calcDaynr t.year t.month t.day
    (calcWeek t f).2 = t.year ∧
      (n < weekOneStart mf fw t.year → (calcWeek t f).1 = 0) ∧
      (weekOneStart mf fw t.year ≤ n →
        (calcWeek t f).1 = ((n - weekOneStart mf fw t.year) / 7).toNat + 1) ∧
      (calcWeek t f).1 ≤ 53 := by
  rw [calcWeek_eq t f hv]
  simp only [hwy, bne_self_eq_false, Bool.false_eq_true, if_false]
  generalize (f &&& weekMondayFirstBit != 0) = mf
  generalize (f &&& weekFirstWeekdayBit != 0) = fw
  obtain ⟨-, hlast, -⟩ := weekOneStart_around hv mf fw
  refine ⟨trivial, fun h => if_pos h, fun h => if_neg (not_lt.mpr h), ?_⟩
  split_ifs <;> omega

end CalcWeek

/-! ## Week numbering -/

theorem calc_week_follows_spec :
    (∀ (t : MysqlTime) (f : Nat), ValidDate t.year t.month t.day → f &&& weekYearBit ≠ 0 →
      let mf := f &&& weekMondayFirstBit != 0
      let fw := f &&& weekFirstWeekdayBit != 0
      let n := calcDaynr t.year t.month t.day
      ((calcWeek t f).2 + 1 = t.year ∨ (calcWeek t f).2 = t.year ∨
          (calcWeek t f).2 = t.year + 1) ∧
        weekOneStart mf fw (calcWeek t f).2 ≤ n ∧ n < weekOneStart mf fw ((calcWeek t f).2 + 1) ∧
        (calcWeek t f).1 = ((n - weekOneStart mf fw (calcWeek t f).2) / 7).toNat + 1 ∧
        1 ≤ (calcWeek t f).1 ∧ (calcWeek t f).1 ≤ 53) ∧
    (∀ (t : MysqlTime) (f : Nat), ValidDate t.year t.month t.day → f &&& weekYearBit = 0 →
      let mf := f &&& weekMondayFirstBit != 0
      let fw := f &&& weekFirstWeekdayBit != 0
      let n := calcDaynr t.year t.month t.day
      (calcWeek t f).2 = t.year ∧
        (n < weekOneStart mf fw t.year → (calcWeek t f).1 = 0) ∧
        (weekOneStart mf fw t.year ≤ n →
          (calcWeek t f).1 = ((n - weekOneStart mf fw t.year) / 7).toNat + 1) ∧
        (calcWeek t f).1 ≤ 53) ∧
    (∀ (mf fw : Bool) (y : Nat),
      weekPos mf (weekOneStart mf fw y) = 0 ∧
        calcDaynr y 1 1 - (if fw then 0 else 3) ≤ weekOneStart mf fw y ∧
        weekOneStart mf fw y < calcDaynr y 1 1 - (if fw then 0 else 3) + 7) ∧
    ((3 &&& weekMondayFirstBit != 0) = true ∧ 3 &&& weekYearBit ≠ 0 ∧
      (3 &&& weekFirstWeekdayBit != 0) = false ∧
      ∀ y : Nat, weekdayOf (weekOneStart true false y) = 0 ∧
        weekOneStart true false y ≤ calcDaynr y 1 1 + 3 ∧
        calcDaynr y 1 1 + 3 < weekOneStart true false y + 7) ∧
    (∀ y m d : Nat, ValidDate y m d →
      calcWeekday (calcDaynr y m d) false = weekdayOf (calcDaynr y m d) ∧
        weekdayOf (calcDaynr (nextDay y m d).1 (nextDay y m d).2.1 (nextDay y m d).2.2) =
          (weekdayOf (calcDaynr y m d) + 1) % 7) ∧
    weekdayOf (calcDaynr 1 1 1) = 0 :=
  ⟨fun t f hv hwy => calcWeek_weekYear t f hv hwy,
    fun t f hv hwy => calcWeek_of_not_weekYear t f hv hwy, weekOneStart_spec,
    ⟨by decide, by decide, by decide, weekOneStart_iso⟩,
    fun _ _ _ hv => ⟨calcWeekday_eq_weekPos true (calcDaynr_nonneg hv), weekdayOf_nextDay hv⟩,
    by decide⟩

/-- 2021-01-01, a Friday, is in the last week of 2020 with `WEEK_YEAR` and in week 0 of 2021
    without it. -/
theorem calc_week_follows_spec_new_year :
    ValidDate 2021 1 1 ∧ 3 &&& weekYearBit ≠ 0 ∧
      weekOneStart true false (calcWeek ⟨2021, 1, 1, 0, 0, 0, 0, false, .date⟩ 3).2 ≤
        calcDaynr 2021 1 1 ∧
      calcDaynr 2021 1 1 <
        weekOneStart true false ((calcWeek ⟨2021, 1, 1, 0, 0, 0, 0, false, .date⟩ 3).2 + 1) ∧
      0 &&& weekYearBit = 0 ∧
      (calcWeek ⟨2021, 1, 1, 0, 0, 0, 0, false, .date⟩ 0).2 = 2021 ∧
      calcWeekday (calcDaynr 2021 1 1) false = weekdayOf (calcDaynr 2021 1 1) :=
  have hv : ValidDate 2021 1 1 := by decide
  have h3 := calc_week_follows_spec.1 ⟨2021, 1, 1, 0, 0, 0, 0, false, .date⟩ 3 hv (by decide)
  ⟨hv, by decide, h3.2.1, h3.2.2.1, by decide,
    (calc_week_follows_spec.2.1 ⟨2021, 1, 1, 0, 0, 0, 0, false, .date⟩ 0 hv (by decide)).1,
    (calc_week_follows_spec.2.2.2.2.1 2021 1 1 hv).1⟩

end MariaDB.Time
