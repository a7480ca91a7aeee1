import MariaDB.Lib.Blocks
import MariaDB.Lib.CArith
import Mathlib.Algebra.BigOperators.Group.Finset.Basic
import Mathlib.Data.List.GetD
import Mathlib.Order.Monotone.Basic
import Mathlib.Tactic.IntervalCases

/-
  Day numbers: `calc_daynr` (`my_time.c`) and its inverse `get_date_from_daynr`
  (`sql_time.cc`).

  Model (read this before the theorems). `isleap`, `calcDaysInYear`, `calcDaysInMonth` and
  the table `daysInMonth` are the source's. `calcDaynr` computes in `Int` with C's truncating
  division (`Int.tdiv`): its `y` goes to -1 for January and February of year 0, where the
  two divisions differ. `getDateFromDaynr` returns `none` where the source returns 1. Its
  `uint` expressions are computed in `Int` and converted by `toUnsigned 32`, which gives C's
  wrapped value; its `while` over the years is `yearLoop`, which also returns the
  `days_in_year` it computed last, and its tail, the leap day and the `for` over
  `month_pos`, is `monthAndDay`, the walk being `Lib.locate` over `daysInMonth`.

  Specification. The calendar counts its own days: `daysBeforeYear y` sums the lengths of
  the years before `y` (year 0 has 365 days, as `isleap 0` is false), `monthLengths y` lists
  the months of `y`, and `dayNumber y m d` is the position of the date in that count.
  `nextDay` is the date after a date.

  Proved:
  * `daysBeforeYear_closed`: the count of days before a year in the closed form
    `365 y + ⌊(y-1)/4⌋ - ⌊3(⌊(y-1)/100⌋+1)/4⌋` that `calc_daynr` evaluates;
  * `calcDaynr_eq_dayNumber`: `calc_daynr` computes the position of every date from year 1 on;
  * `getDateFromDaynr_dayNumber`: `get_date_from_daynr` reads every date of the years 1 to
    9999 back from its position. Its first guess of the year is never late
    (`firstGuess_spec`), the `while` stops at the year of the day (`yearLoop_spec`), and the
    month walk over the common-year table finds month and day, February 29 included
    (`monthAndDay_daysBeforeMonth`);
  * `exists_date_of_range`: every day number from 366 to `MAX_DAY_NUMBER` is the position of
    a date of the years 1 to 9999;
  * `dayNumber_nextDay`: the date after a date has the next position;
  * `daynr_calendar_bijection`: the three together for the source's two functions.
-/

namespace MariaDB.Time

open MariaDB.Lib

/-! ## The source's calendar -/

/-- `isleap(y)` of `my_time.h`. Year 0 is not a leap year. -/
def isleap (y : Nat) : Bool :=
  y &&& 3 == 0 && (y % 100 != 0 || (y % 400 == 0 && y != 0))

/-- `calc_days_in_year`. -/
def calcDaysInYear (year : Nat) : Nat :=
  if isleap year then 366 else 365

/-- `days_in_month[]`, with the 0 that ends it. -/
def daysInMonth : List Nat := [31, 28, 31, 30, 31, 30, 31, 31, 30, 31, 30, 31, 0]

/-- `calc_days_in_month`; its callers pass a month from 1 to 12. -/
def calcDaysInMonth (year month : Nat) : Nat :=
  let days := daysInMonth.getD (month - 1) 0
  if month = 2 ∧ isleap year = true then 29 else days

/-- `calc_daynr`: the days since 0000-00-00. January and February count as months 13 and 14
of the year before, so that the leap-year correction needs no test of the month. -/
def calcDaynr (year month day : Nat) : Int :=
  let y : Int := year
  if y = 0 ∧ month = 0 then 0
  else
    let delsum : Int := 365 * y + 31 * ((month : Int) - 1) + day
    let (y, delsum) :=
      if month ≤ 2 then (y - 1, delsum) else (y, delsum - ((month : Int) * 4 + 23).tdiv 10)
    let temp := ((y.tdiv 100 + 1) * 3).tdiv 4
    delsum + y.tdiv 4 - temp

/-- `MAX_DAY_NUMBER` of `sql_time.cc`: the day number of 9999-12-31. -/
def maxDayNumber : Int := 3652424

theorem calcDaysInYear_pos (year : Nat) : 0 < calcDaysInYear year := by
  unfold calcDaysInYear
  split <;> omega

/-- The `while` of `get_date_from_daynr`: take whole years out of `dayOfYear`. Returns the
year, the day in it and the `days_in_year` computed last. -/
def yearLoop (year dayOfYear : Nat) : Nat × Nat × Nat :=
  let daysInYear := calcDaysInYear year
  if dayOfYear > daysInYear then yearLoop ((year + 1) % 2 ^ 32) (dayOfYear - daysInYear)
  else (year, dayOfYear, daysInYear)
termination_by dayOfYear
decreasing_by
  have := calcDaysInYear_pos year
  omega

/-- The tail of `get_date_from_daynr`: the month and day of day `dayOfYear` of a year of
`daysInYear` days. In a leap year February 29 is taken out first (`leap_day`), so that the
walk can use the table of a common year. -/
def monthAndDay (daysInYear dayOfYear : Nat) : Nat × Nat :=
  let (dayOfYear, leapDay) :=
    if daysInYear = 366 then
      if dayOfYear > 31 + 28 then
        (dayOfYear - 1, if dayOfYear - 1 = 31 + 28 then 1 else 0)
      else (dayOfYear, 0)
    else (dayOfYear, 0)
  let (month, dayOfYear) := locate daysInMonth 1 dayOfYear
  (month, dayOfYear + leapDay)

/-- `get_date_from_daynr`: `none` for a day number out of range (the source returns 1). The
year is first guessed as `daynr / 365.25`, and `temp` corrects the day of the year for the
century years that are not leap years. -/
def getDateFromDaynr (daynr : Int) : Option (Nat × Nat × Nat) :=
  if daynr < 366 ∨ daynr > maxDayNumber then none
  else
    let year := toUnsigned 32 ((daynr * 100).tdiv 36525)
    let temp := (toUnsigned 32 ((year : Int) - 1) / 100 + 1) * 3 / 4
    let dayOfYear := toUnsigned 32 ((toUnsigned 32 (daynr - (year : Int) * 365) : Int) -
      ((toUnsigned 32 ((year : Int) - 1) / 4 : Nat) : Int) + (temp : Int))
    let (year, dayOfYear, daysInYear) := yearLoop year dayOfYear
    let (month, day) := monthAndDay daysInYear dayOfYear
    some (year, month, day)

/-! ## The calendar's own count of days -/

/-- The days of the years before `y`. -/
def daysBeforeYear (y : Nat) : Nat := ∑ j ∈ Finset.range y, calcDaysInYear j

/-- The lengths of the twelve months of year `y`. -/
def monthLengths (y : Nat) : List Nat := (List.range 12).map fun j => calcDaysInMonth y (j + 1)

/-- The days of the months of year `y` before month `m`. -/
def daysBeforeMonth (y m : Nat) : Nat := ((monthLengths y).take (m - 1)).sum

/-- The position of the date `y-m-d` in the count of all days from 0000-01-01, which is
day 1. -/
def dayNumber (y m d : Nat) : Nat := daysBeforeYear y + daysBeforeMonth y m + d

/-- A date of the years that day numbers cover: years 1 to 9999, a month of the year, a day
of the month. -/
def ValidDate (year month day : Nat) : Prop :=
  1 ≤ year ∧ year ≤ 9999 ∧ 1 ≤ month ∧ month ≤ 12 ∧ 1 ≤ day ∧ day ≤ calcDaysInMonth year month

instance (year month day : Nat) : Decidable (ValidDate year month day) :=
  inferInstanceAs (Decidable (_ ∧ _))

/-- The date after `year-month-day`. -/
def nextDay (year month day : Nat) : Nat × Nat × Nat :=
  if day < calcDaysInMonth year month then (year, month, day + 1)
  else if month < 12 then (year, month + 1, 1)
  else (year + 1, 1, 1)

/-! ## Leap years and the lengths of years -/

theorem isleap_iff (y : Nat) :
    isleap y = true ↔ y % 4 = 0 ∧ (y % 100 ≠ 0 ∨ y % 400 = 0 ∧ y ≠ 0) := by
  have h3 : y &&& 3 = y % 4 := Nat.and_two_pow_sub_one_eq_mod y 2
  simp [isleap, h3]

/-- The length of a year, in the terms `omega` reads. -/
theorem calcDaysInYear_cases (y : Nat) :
    (calcDaysInYear y = 366 ∧ y % 4 = 0 ∧ (y % 100 ≠ 0 ∨ y % 400 = 0 ∧ y ≠ 0)) ∨
      (calcDaysInYear y = 365 ∧ ¬(y % 4 = 0 ∧ (y % 100 ≠ 0 ∨ y % 400 = 0 ∧ y ≠ 0))) := by
  unfold calcDaysInYear
  cases h : isleap y
  · right
    rw [← isleap_iff, h]
    simp
  · left
    exact ⟨rfl, (isleap_iff y).mp h⟩

@[simp] theorem daysBeforeYear_zero : daysBeforeYear 0 = 0 := rfl

theorem daysBeforeYear_succ (y : Nat) :
    daysBeforeYear (y + 1) = daysBeforeYear y + calcDaysInYear y :=
  Finset.sum_range_succ _ _

theorem daysBeforeYear_strictMono : StrictMono daysBeforeYear :=
  strictMono_nat_of_lt_succ fun y => by
    rw [daysBeforeYear_succ]
    have := calcDaysInYear_pos y
    omega

theorem daysBeforeYear_ge (y : Nat) : 365 * y ≤ daysBeforeYear y := by
  induction y with
  | zero => simp
  | succ y ih =>
    rw [daysBeforeYear_succ]
    have := calcDaysInYear_cases y
    omega

/-- The days before year `z + 1` by counting leap years: the multiples of 4 up to `z`, less
those of 100, plus those of 400. -/
theorem daysBeforeYear_count (z : Nat) :
    daysBeforeYear (z + 1) = 365 * (z + 1) + z / 4 - z / 100 + z / 400 := by
  induction z with
  | zero => rfl
  | succ z ih =>
    rw [daysBeforeYear_succ, ih]
    have hy := calcDaysInYear_cases (z + 1)
    -- each count grows by one exactly at a multiple, and the multiples nest
    have e4 : ((z + 1) % 4 = 0 ∧ (z + 1) / 4 = z / 4 + 1) ∨
        ((z + 1) % 4 ≠ 0 ∧ (z + 1) / 4 = z / 4) := by omega
    have e100 : ((z + 1) % 100 = 0 ∧ (z + 1) / 100 = z / 100 + 1) ∨
        ((z + 1) % 100 ≠ 0 ∧ (z + 1) / 100 = z / 100) := by omega
    have e400 : ((z + 1) % 400 = 0 ∧ (z + 1) / 400 = z / 400 + 1) ∨
        ((z + 1) % 400 ≠ 0 ∧ (z + 1) / 400 = z / 400) := by omega
    have h100 : (z + 1) % 100 = 0 → (z + 1) % 4 = 0 := by omega
    have h400 : (z + 1) % 400 = 0 → (z + 1) % 100 = 0 := by omega
    have hle : z / 100 ≤ z / 4 := by omega
    omega

/-- The closed form of `calc_daynr`: the century years that are not leap years are
`⌊3(c+1)/4⌋ = c - ⌊c/4⌋` for the `c = ⌊(y-1)/100⌋` centuries before year `y`. -/
theorem daysBeforeYear_closed {y : Nat} (hy : 1 ≤ y) :
    daysBeforeYear y + ((y - 1) / 100 + 1) * 3 / 4 = 365 * y + (y - 1) / 4 := by
  obtain ⟨z, rfl⟩ : ∃ z, y = z + 1 := ⟨y - 1, by omega⟩
  rw [Nat.add_sub_cancel, daysBeforeYear_count]
  have hc : z / 400 = z / 100 / 4 := by omega
  have hle : z / 100 ≤ z / 4 := by omega
  omega

/-- The closed form with the `Int` divisions `calc_daynr` evaluates for January and February. -/
theorem daysBeforeYear_int {y : Nat} (hy : 1 ≤ y) :
    (daysBeforeYear y : Int) = 365 * y + ((y : Int) - 1) / 4 - ((((y : Int) - 1) / 100 + 1) * 3) / 4 := by
  have hD := daysBeforeYear_closed hy
  -- each `Int` division is the `Nat` one
  have e4 : ((y : Int) - 1) / 4 = ((y - 1) / 4 : Nat) := by omega
  have e100 : ((y : Int) - 1) / 100 = ((y - 1) / 100 : Nat) := by omega
  have e3 : (((((y - 1) / 100 : Nat) : Int) + 1) * 3) / 4 = (((y - 1) / 100 + 1) * 3 / 4 : Nat) := by
    omega
  rw [e4, e100, e3]
  omega

/-- The closed form with the `Int` divisions `calc_daynr` evaluates from March on, where the
leap day of year `y` itself counts. -/
theorem daysBeforeYear_int_succ (y : Nat) :
    (daysBeforeYear (y + 1) : Int) = 365 * (y + 1) + (y : Int) / 4 - (((y : Int) / 100 + 1) * 3) / 4 := by
  have hD := daysBeforeYear_closed (show 1 ≤ y + 1 by omega)
  rw [Nat.add_sub_cancel] at hD
  have e4 : (y : Int) / 4 = (y / 4 : Nat) := by omega
  have e100 : (y : Int) / 100 = (y / 100 : Nat) := by omega
  have e3 : ((((y / 100 : Nat) : Int) + 1) * 3) / 4 = ((y / 100 + 1) * 3 / 4 : Nat) := by omega
  rw [e4, e100, e3]
  omega

theorem daysBeforeYear_one : daysBeforeYear 1 = 365 := daysBeforeYear_closed (le_refl 1)

theorem daysBeforeYear_ten_thousand : daysBeforeYear 10000 = 3652424 := by
  have := daysBeforeYear_closed (y := 10000) (by norm_num)
  omega

/-! ## The months -/

theorem monthLengths_of_leap {y : Nat} (h : isleap y = true) :
    monthLengths y = [31, 29, 31, 30, 31, 30, 31, 31, 30, 31, 30, 31] := by
  simp only [monthLengths, calcDaysInMonth, h]
  decide

theorem monthLengths_of_common {y : Nat} (h : isleap y = false) :
    monthLengths y = daysInMonth.take 12 := by
  simp only [monthLengths, calcDaysInMonth, h]
  decide

@[simp] theorem length_monthLengths (y : Nat) : (monthLengths y).length = 12 := by
  simp [monthLengths]

theorem getElem_monthLengths (y k : Nat) (hk : k < (monthLengths y).length) :
    (monthLengths y)[k] = calcDaysInMonth y (k + 1) := by
  simp [monthLengths]

theorem sum_monthLengths (y : Nat) : (monthLengths y).sum = calcDaysInYear y := by
  unfold calcDaysInYear
  cases h : isleap y
  · rw [monthLengths_of_common h]
    rfl
  · rw [monthLengths_of_leap h]
    rfl

/-- The months before `m` in the table of a common year, and the leap day they hold. -/
theorem daysBeforeMonth_eq (y : Nat) {m : Nat} (hm : m ≤ 12) :
    daysBeforeMonth y m =
      (daysInMonth.take (m - 1)).sum + if 2 < m ∧ isleap y = true then 1 else 0 := by
  unfold daysBeforeMonth
  cases h : isleap y
  · rw [monthLengths_of_common h]
    interval_cases m <;> rfl
  · rw [monthLengths_of_leap h]
    interval_cases m <;> rfl

/-- The table sums that `calc_daynr` replaces by `31 (m - 1)`, less `⌊(4m + 23)/10⌋` from
March on. -/
theorem sum_take_daysInMonth {m : Nat} (hm1 : 1 ≤ m) (hm : m ≤ 12) :
    (daysInMonth.take (m - 1)).sum + (if m ≤ 2 then 0 else (m * 4 + 23) / 10) = 31 * (m - 1) := by
  interval_cases m <;> rfl

theorem calcDaysInMonth_eq (y : Nat) {m : Nat} :
    calcDaysInMonth y m = daysInMonth.getD (m - 1) 0 + if m = 2 ∧ isleap y = true then 1 else 0 := by
  unfold calcDaysInMonth
  split_ifs with h
  · rw [h.1]
    rfl
  · rfl

/-- A month ends where the next begins. -/
theorem daysBeforeMonth_add {y m : Nat} (hm1 : 1 ≤ m) (hm : m ≤ 12) :
    daysBeforeMonth y m + calcDaysInMonth y m = ((monthLengths y).take m).sum := by
  have hk : m - 1 < (monthLengths y).length := by
    rw [length_monthLengths]
    omega
  have hget : (monthLengths y)[m - 1] = calcDaysInMonth y m := by
    rw [getElem_monthLengths, Nat.sub_add_cancel hm1]
  rw [daysBeforeMonth, ← hget, ← List.sum_take_succ, Nat.sub_add_cancel hm1]

/-! ## `calc_daynr` computes the position -/

/-- The divisions of `calc_daynr` truncate, but on the dates from year 1 on they divide
non-negative values, where truncation is C's and `Int`'s floor alike. -/
theorem calcDaynr_eq_dayNumber {year month : Nat} (day : Nat) (hy : 1 ≤ year)
    (hm1 : 1 ≤ month) (hm : month ≤ 12) :
    calcDaynr year month day = dayNumber year month day := by
  have hmonth := sum_take_daysInMonth hm1 hm
  rw [dayNumber, daysBeforeMonth_eq year hm]
  unfold calcDaynr
  rw [if_neg (by omega)]
  dsimp only
  by_cases h2 : month ≤ 2
  · -- January and February: the year before, with no correction for the month
    rw [if_pos h2]
    dsimp only
    rw [if_neg (show ¬(2 < month ∧ isleap year = true) by omega)]
    rw [if_pos h2] at hmonth
    simp (disch := omega) only [Int.tdiv_eq_ediv_of_nonneg]
    have hD := daysBeforeYear_int hy
    omega
  · -- from March: the leap day of this year, and the months' shortfall from 31 days
    rw [if_neg h2]
    dsimp only
    rw [if_neg h2] at hmonth
    simp (disch := omega) only [Int.tdiv_eq_ediv_of_nonneg]
    have hD1 := daysBeforeYear_int_succ year
    have hstep := daysBeforeYear_succ year
    have e10 : ((month : Int) * 4 + 23) / 10 = ((month * 4 + 23) / 10 : Nat) := by omega
    have h3 : 2 < month := by omega
    unfold calcDaysInYear at hstep
    cases h : isleap year <;>
      simp only [h, h3, Bool.false_eq_true, and_false, and_true, if_false, if_true] at hstep ⊢ <;>
      omega

/-! ## `get_date_from_daynr` reads the position back -/

theorem yearLoop_stop {year dayOfYear : Nat} (h : dayOfYear ≤ calcDaysInYear year) :
    yearLoop year dayOfYear = (year, dayOfYear, calcDaysInYear year) := by
  rw [yearLoop, if_neg (by omega)]

theorem yearLoop_next {year dayOfYear : Nat} (h : calcDaysInYear year < dayOfYear) :
    yearLoop year dayOfYear =
      yearLoop ((year + 1) % 2 ^ 32) (dayOfYear - calcDaysInYear year) := by
  rw [yearLoop, if_pos h]

/-- The `while` from any year up to the year `y` of day `n` stops at `y`. -/
theorem yearLoop_spec {n y : Nat} (hy : daysBeforeYear y < n) (hn : n ≤ daysBeforeYear (y + 1))
    (hbig : y < 2 ^ 32 - 1) (e : Nat) (he : e ≤ y) :
    yearLoop e (n - daysBeforeYear e) = (y, n - daysBeforeYear y, calcDaysInYear y) := by
  rcases Nat.lt_or_eq_of_le he with hlt | rfl
  · -- the day lies past year `e`: the loop takes that year out
    have hD : daysBeforeYear (e + 1) ≤ daysBeforeYear y :=
      daysBeforeYear_strictMono.monotone hlt
    have hnext := daysBeforeYear_succ e
    rw [yearLoop_next (by omega), Nat.mod_eq_of_lt (by omega),
      show n - daysBeforeYear e - calcDaysInYear e = n - daysBeforeYear (e + 1) by omega]
    exact yearLoop_spec hy hn hbig (e + 1) hlt
  · rw [daysBeforeYear_succ] at hn
    exact yearLoop_stop (by omega)
termination_by y - e

/-- The first guess `daynr / 365.25` of the year: a year that starts before the day. -/
theorem firstGuess_spec {n : Nat} (hn : 366 ≤ n) :
    1 ≤ n * 100 / 36525 ∧ daysBeforeYear (n * 100 / 36525) < n ∧
      365 * (n * 100 / 36525) ≤ daysBeforeYear (n * 100 / 36525) := by
  have he : 1 ≤ n * 100 / 36525 := by omega
  have hD := daysBeforeYear_closed he
  exact ⟨he, by omega, daysBeforeYear_ge _⟩

/-- `get_date_from_daynr` on a day number in range: the `uint` arithmetic of its first guess
computes the guess and the day of its year without wrapping. -/
theorem getDateFromDaynr_eq {n : Nat} (h1 : 366 ≤ n) (h2 : n ≤ 3652424) :
    getDateFromDaynr n =
      match yearLoop (n * 100 / 36525) (n - daysBeforeYear (n * 100 / 36525)) with
      | (year, dayOfYear, daysInYear) =>
        match monthAndDay daysInYear dayOfYear with
        | (month, day) => some (year, month, day) := by
  obtain ⟨he, hlt, hge⟩ := firstGuess_spec h1
  have hD := daysBeforeYear_closed he
  have hyear : toUnsigned 32 (((n : Int) * 100).tdiv 36525) = n * 100 / 36525 := by
    rw [show ((n : Int) * 100) = ((n * 100 : Nat) : Int) by push_cast; rfl,
      show (36525 : Int) = ((36525 : Nat) : Int) from rfl, ← Int.ofNat_tdiv]
    exact toUnsigned_natCast (by omega)
  have hpred : toUnsigned 32 (((n * 100 / 36525 : Nat) : Int) - 1) = n * 100 / 36525 - 1 := by
    rw [show ((n * 100 / 36525 : Nat) : Int) - 1 = ((n * 100 / 36525 - 1 : Nat) : Int) by omega]
    exact toUnsigned_natCast (by omega)
  have hrest : toUnsigned 32 ((n : Int) - ((n * 100 / 36525 : Nat) : Int) * 365) =
      n - n * 100 / 36525 * 365 := by
    rw [show (n : Int) - ((n * 100 / 36525 : Nat) : Int) * 365 =
      ((n - n * 100 / 36525 * 365 : Nat) : Int) by omega]
    exact toUnsigned_natCast (by omega)
  have hday : toUnsigned 32 (((n - n * 100 / 36525 * 365 : Nat) : Int) -
      (((n * 100 / 36525 - 1) / 4 : Nat) : Int) +
        ((((n * 100 / 36525 - 1) / 100 + 1) * 3 / 4 : Nat) : Int)) =
      n - daysBeforeYear (n * 100 / 36525) := by
    rw [show ((n - n * 100 / 36525 * 365 : Nat) : Int) - (((n * 100 / 36525 - 1) / 4 : Nat) : Int) +
        ((((n * 100 / 36525 - 1) / 100 + 1) * 3 / 4 : Nat) : Int) =
      ((n - daysBeforeYear (n * 100 / 36525) : Nat) : Int) by omega]
    exact toUnsigned_natCast (by omega)
  unfold getDateFromDaynr
  rw [if_neg (by unfold maxDayNumber; omega)]
  dsimp only
  rw [hyear, hpred, hrest, hday]

theorem monthAndDay_of_le {daysInYear dayOfYear : Nat} (h : daysInYear ≠ 366 ∨ dayOfYear ≤ 31 + 28) :
    monthAndDay daysInYear dayOfYear = locate daysInMonth 1 dayOfYear := by
  unfold monthAndDay
  rcases h with h | h
  · rw [if_neg h]
    rfl
  · split_ifs <;> first | omega | rfl

theorem monthAndDay_leap_of_gt {dayOfYear : Nat} (h : 31 + 29 < dayOfYear) :
    monthAndDay 366 dayOfYear = locate daysInMonth 1 (dayOfYear - 1) := by
  unfold monthAndDay
  rw [if_pos rfl, if_pos (by omega), if_neg (by omega)]
  rfl

/-- The walk over the common-year table from a day inside month `m`. -/
theorem locate_daysInMonth {m d : Nat} (hm1 : 1 ≤ m) (hm : m ≤ 12) (hd1 : 1 ≤ d)
    (hd : d ≤ daysInMonth.getD (m - 1) 0) :
    locate daysInMonth 1 ((daysInMonth.take (m - 1)).sum + d) = (m, d) := by
  have hk : m - 1 < daysInMonth.length := by
    rw [show daysInMonth.length = 13 from rfl]
    omega
  rw [List.getD_eq_getElem _ 0 hk] at hd
  rw [locate_sum_add daysInMonth 1 (m - 1) d hk hd1 hd]
  congr 1
  omega

/-- `monthAndDay` finds the month and day of every day of a year, February 29 included. -/
theorem monthAndDay_daysBeforeMonth {y m d : Nat} (hm1 : 1 ≤ m) (hm : m ≤ 12) (hd1 : 1 ≤ d)
    (hd : d ≤ calcDaysInMonth y m) :
    monthAndDay (calcDaysInYear y) (daysBeforeMonth y m + d) = (m, d) := by
  rw [daysBeforeMonth_eq y hm]
  rw [calcDaysInMonth_eq] at hd
  have hsum := sum_take_daysInMonth hm1 hm
  unfold calcDaysInYear
  cases hl : isleap y
  · -- a common year: the walk alone
    simp only [hl, Bool.false_eq_true, and_false, if_false, Nat.add_zero] at hd ⊢
    rw [monthAndDay_of_le (Or.inl (by omega))]
    exact locate_daysInMonth hm1 hm hd1 hd
  · simp only [hl, and_true, if_true] at hd ⊢
    by_cases h2 : m ≤ 2
    · rw [if_neg (by omega), Nat.add_zero]
      by_cases hfeb : m = 2 ∧ d = 29
      · -- February 29: the leap day, taken out before the walk and put back after it
        obtain ⟨rfl, rfl⟩ := hfeb
        rfl
      · -- January, and February to the 28th: before the leap day, the walk alone
        have hd' : d ≤ daysInMonth.getD (m - 1) 0 ∧ (daysInMonth.take (m - 1)).sum + d ≤ 31 + 28 := by
          interval_cases m <;> simp [daysInMonth] at hd hfeb ⊢ <;> omega
        rw [monthAndDay_of_le (Or.inr hd'.2)]
        exact locate_daysInMonth hm1 hm hd1 hd'.1
    · -- from March on: one day less in the common-year table
      rw [if_neg (show ¬m = 2 by omega), Nat.add_zero] at hd
      rw [if_neg h2] at hsum
      have hS : 31 + 28 ≤ (daysInMonth.take (m - 1)).sum := by
        interval_cases m <;> omega
      rw [if_pos (by omega), monthAndDay_leap_of_gt (by omega),
        show (daysInMonth.take (m - 1)).sum + 1 + d - 1 = (daysInMonth.take (m - 1)).sum + d by
          omega]
      exact locate_daysInMonth hm1 hm hd1 hd

/-- The day of the year of a date lies inside its year. -/
theorem dayOfYear_le {y m d : Nat} (hm1 : 1 ≤ m) (hm : m ≤ 12) (hd : d ≤ calcDaysInMonth y m) :
    daysBeforeMonth y m + d ≤ calcDaysInYear y := by
  have hadd := daysBeforeMonth_add (y := y) hm1 hm
  have htot := List.sum_take_add_sum_drop (monthLengths y) m
  rw [sum_monthLengths] at htot
  omega

/-- `get_date_from_daynr` reads back the date at every position of the years 1 to 9999. -/
theorem getDateFromDaynr_dayNumber {y m d : Nat} (hv : ValidDate y m d) :
    getDateFromDaynr (dayNumber y m d) = some (y, m, d) := by
  obtain ⟨hy1, hy, hm1, hm, hd1, hd⟩ := hv
  have hin := dayOfYear_le hm1 hm hd
  have hstep := daysBeforeYear_succ y
  have hlo : daysBeforeYear y < dayNumber y m d := by unfold dayNumber; omega
  have hhi : dayNumber y m d ≤ daysBeforeYear (y + 1) := by unfold dayNumber; omega
  -- the day number is in range
  have h1 : 366 ≤ dayNumber y m d := by
    have := daysBeforeYear_strictMono.monotone hy1
    rw [daysBeforeYear_one] at this
    omega
  have h2 : dayNumber y m d ≤ 3652424 := by
    have := daysBeforeYear_strictMono.monotone (show y + 1 ≤ 10000 by omega)
    rw [daysBeforeYear_ten_thousand] at this
    omega
  -- the first guess is not past `y`
  obtain ⟨-, hguess, -⟩ := firstGuess_spec h1
  have he : dayNumber y m d * 100 / 36525 ≤ y :=
    Nat.lt_add_one_iff.mp (daysBeforeYear_strictMono.lt_iff_lt.mp (by omega))
  rw [getDateFromDaynr_eq h1 h2, yearLoop_spec hlo hhi (by omega) _ he]
  dsimp only
  rw [show dayNumber y m d - daysBeforeYear y = daysBeforeMonth y m + d by unfold dayNumber; omega,
    monthAndDay_daysBeforeMonth hm1 hm hd1 hd]

/-- Every day number in range is the position of a date of the years 1 to 9999. -/
theorem exists_date_of_range {n : Nat} (h1 : 366 ≤ n) (h2 : n ≤ 3652424) :
    ∃ y m d, ValidDate y m d ∧ dayNumber y m d = n := by
  have hex : ∃ y, n ≤ daysBeforeYear (y + 1) :=
    ⟨9999, by rw [daysBeforeYear_ten_thousand]; exact h2⟩
  -- the year of day `n`: the first whose end is not before `n`
  have hn : n ≤ daysBeforeYear (Nat.find hex + 1) := Nat.find_spec hex
  have hy : Nat.find hex ≤ 9999 := Nat.find_min' hex (by rw [daysBeforeYear_ten_thousand]; exact h2)
  have hy1 : 1 ≤ Nat.find hex := by
    by_contra h0
    rw [show Nat.find hex = 0 by omega, daysBeforeYear_one] at hn
    omega
  have hlo : daysBeforeYear (Nat.find hex) < n := by
    have := Nat.find_min hex (show Nat.find hex - 1 < Nat.find hex by omega)
    rw [Nat.sub_add_cancel hy1] at this
    omega
  have hstep := daysBeforeYear_succ (Nat.find hex)
  -- the month and day inside that year
  obtain ⟨k, d, hk, hd0, hd, hpos⟩ := exists_block (monthLengths (Nat.find hex))
    (x := n - daysBeforeYear (Nat.find hex)) (by omega) (by rw [sum_monthLengths]; omega)
  rw [length_monthLengths] at hk
  rw [getElem_monthLengths] at hd
  refine ⟨Nat.find hex, k + 1, d, ⟨hy1, hy, by omega, by omega, hd0, hd⟩, ?_⟩
  rw [dayNumber, daysBeforeMonth, Nat.add_sub_cancel]
  omega

/-- The date after a date has the next position. -/
theorem dayNumber_nextDay {y m d : Nat} (hm1 : 1 ≤ m) (hm : m ≤ 12) (hd : d ≤ calcDaysInMonth y m) :
    dayNumber (nextDay y m d).1 (nextDay y m d).2.1 (nextDay y m d).2.2 = dayNumber y m d + 1 := by
  have hadd := daysBeforeMonth_add (y := y) hm1 hm
  unfold nextDay
  split_ifs with hlt h12 <;> dsimp only
  · -- the next day of the month
    unfold dayNumber
    omega
  · -- the first day of the next month
    have hnext : daysBeforeMonth y (m + 1) = ((monthLengths y).take m).sum := rfl
    unfold dayNumber
    omega
  · -- January 1 of the next year
    have h12 : m = 12 := by omega
    subst h12
    rw [List.take_of_length_le (by simp), sum_monthLengths] at hadd
    have hstep := daysBeforeYear_succ y
    have h0 : daysBeforeMonth (y + 1) 1 = 0 := rfl
    unfold dayNumber
    omega

/-! ## The source's functions -/

theorem getDateFromDaynr_eq_none {n : Int} (h : n < 366 ∨ n > maxDayNumber) :
    getDateFromDaynr n = none := by
  rw [getDateFromDaynr, if_pos h]

/-- `get_date_from_daynr` inverts `calc_daynr` on the dates of the years 1 to 9999. -/
theorem getDateFromDaynr_calcDaynr {year month day : Nat} (hv : ValidDate year month day) :
    getDateFromDaynr (calcDaynr year month day) = some (year, month, day) := by
  rw [calcDaynr_eq_dayNumber day hv.1 hv.2.2.1 hv.2.2.2.1]
  exact getDateFromDaynr_dayNumber hv

/-- The day numbers of the dates of the years 1 to 9999 run from 366 to `MAX_DAY_NUMBER`. -/
theorem calcDaynr_range {year month day : Nat} (hv : ValidDate year month day) :
    366 ≤ calcDaynr year month day ∧ calcDaynr year month day ≤ maxDayNumber := by
  by_contra h
  have hnone := getDateFromDaynr_eq_none (n := calcDaynr year month day) (by omega)
  rw [getDateFromDaynr_calcDaynr hv] at hnone
  exact Option.some_ne_none _ hnone

/-- Every day number from 366 to `MAX_DAY_NUMBER` is `calc_daynr` of the date that
`get_date_from_daynr` reads from it. -/
theorem exists_getDateFromDaynr {n : Int} (h1 : 366 ≤ n) (h2 : n ≤ maxDayNumber) :
    ∃ year month day, getDateFromDaynr n = some (year, month, day) ∧ ValidDate year month day ∧
      calcDaynr year month day = n := by
  unfold maxDayNumber at h2
  obtain ⟨year, month, day, hv, hpos⟩ := exists_date_of_range (n := n.toNat) (by omega) (by omega)
  have hcalc : calcDaynr year month day = n := by
    rw [calcDaynr_eq_dayNumber day hv.1 hv.2.2.1 hv.2.2.2.1, hpos]
    omega
  exact ⟨year, month, day, hcalc ▸ getDateFromDaynr_calcDaynr hv, hv, hcalc⟩

/-- The date after a date has the next day number. -/
theorem calcDaynr_nextDay {year month day : Nat} (hv : ValidDate year month day) :
    calcDaynr (nextDay year month day).1 (nextDay year month day).2.1
        (nextDay year month day).2.2 = calcDaynr year month day + 1 := by
  obtain ⟨hy1, -, hm1, hm, -, hd⟩ := hv
  -- the date after stays from year 1 on, in a month from 1 to 12
  have hnext : 1 ≤ (nextDay year month day).1 ∧ 1 ≤ (nextDay year month day).2.1 ∧
      (nextDay year month day).2.1 ≤ 12 := by
    unfold nextDay
    split_ifs <;> simp <;> omega
  rw [calcDaynr_eq_dayNumber _ hnext.1 hnext.2.1 hnext.2.2,
    calcDaynr_eq_dayNumber day hy1 hm1 hm, dayNumber_nextDay hm1 hm hd]
  push_cast
  rfl

/-- Day numbers and the dates of the years 1 to 9999 are in bijection: `get_date_from_daynr`
inverts `calc_daynr` on the dates, every day number from 366 to `MAX_DAY_NUMBER` is
`calc_daynr` of the date it reads, and the day after a date has the next day number. -/
theorem daynr_calendar_bijection :
    (∀ year month day, ValidDate year month day →
        getDateFromDaynr (calcDaynr year month day) = some (year, month, day)) ∧
    (∀ n : Int, 366 ≤ n → n ≤ maxDayNumber → ∃ year month day,
        getDateFromDaynr n = some (year, month, day) ∧ ValidDate year month day ∧
          calcDaynr year month day = n) ∧
    (∀ year month day, ValidDate year month day →
        calcDaynr (nextDay year month day).1 (nextDay year month day).2.1
            (nextDay year month day).2.2 = calcDaynr year month day + 1) :=
  ⟨fun year month day hv => getDateFromDaynr_calcDaynr hv,
    fun n h1 h2 => exists_getDateFromDaynr h1 h2, fun year month day hv => calcDaynr_nextDay hv⟩

theorem daynr_calendar_bijection_leap_day :
    ValidDate 2024 2 29 ∧ getDateFromDaynr (calcDaynr 2024 2 29) = some (2024, 2, 29) ∧
      (366 ≤ (366 : Int) ∧ (366 : Int) ≤ maxDayNumber ∧ ∃ year month day,
        getDateFromDaynr 366 = some (year, month, day) ∧ ValidDate year month day ∧
          calcDaynr year month day = 366) ∧
      calcDaynr (nextDay 2024 2 29).1 (nextDay 2024 2 29).2.1 (nextDay 2024 2 29).2.2 =
        calcDaynr 2024 2 29 + 1 :=
  have hv : ValidDate 2024 2 29 := by decide
  ⟨hv, daynr_calendar_bijection.1 2024 2 29 hv,
    ⟨by decide, by decide, daynr_calendar_bijection.2.1 366 (by decide) (by decide)⟩,
    daynr_calendar_bijection.2.2 2024 2 29 hv⟩

end MariaDB.Time
