import Mathlib.Tactic.Ring

/-
  The server's temporal value `MYSQL_TIME` (`mysql_time.h`) and its range limits
  (`my_time.h`, `check_datetime_range` of `my_time.c`).

  Model. The `unsigned int` and `unsigned long` fields are `Nat`; the functions that compute
  with them in `uint` arithmetic reduce modulo `2^32` where the source's expression can wrap.
  `time_type` is the enumeration `TimestampType`.

  Proved:
  * `checkDatetimeRange_eq_false`: `check_datetime_range` accepts exactly the values whose
    fields are in range, the hour up to `TIME_MAX_HOUR` for TIME values and up to 23 for the
    others.
-/

namespace MariaDB.Time

/-- `enum enum_mysql_timestamp_type`. -/
inductive TimestampType
  | none
  | error
  | date
  | datetime
  | time
  deriving Repr, DecidableEq

/-- `MYSQL_TIME`. For a TIME value `day` and `hour` may exceed a day's range. -/
structure MysqlTime where
  year : Nat
  month : Nat
  day : Nat
  hour : Nat
  minute : Nat
  second : Nat
  secondPart : Nat
  neg : Bool
  timeType : TimestampType
  deriving Repr, DecidableEq

/-- `TIME_MAX_HOUR`. -/
def timeMaxHour : Nat := 838

/-- `TIME_MAX_SECOND_PART`. -/
def timeMaxSecondPart : Nat := 999999

/-- `AUTO_SEC_PART_DIGITS` (`DECIMAL_NOT_SPECIFIED`): as many fraction digits as the value has. -/
def autoSecPartDigits : Nat := 39

/-- `check_datetime_range`: true on error. -/
def checkDatetimeRange (t : MysqlTime) : Bool :=
  t.year > 9999 || t.month > 12 || t.day > 31 || t.minute > 59 || t.second > 59 ||
    t.secondPart > timeMaxSecondPart ||
    t.hour > (if t.timeType = .time then timeMaxHour else 23)

theorem checkDatetimeRange_eq_false (t : MysqlTime) :
    checkDatetimeRange t = false ↔
      t.year ≤ 9999 ∧ t.month ≤ 12 ∧ t.day ≤ 31 ∧ t.minute ≤ 59 ∧ t.second ≤ 59 ∧
        t.secondPart ≤ 999999 ∧ t.hour ≤ (if t.timeType = .time then 838 else 23) := by
  simp [checkDatetimeRange, timeMaxSecondPart, timeMaxHour, and_assoc]

end MariaDB.Time
