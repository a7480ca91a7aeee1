import MariaDB.Time.Calendar
import MariaDB.Time.Datetime

/-
  Adding an interval to a date and time: `date_add_interval` of sql/sql_time.cc.

  Model. `IntervalType` is `enum interval_type` and `Interval` is `INTERVAL` of
  sql/structs.h, its `ulong` and `ulonglong` fields as `UInt64`. `dateAddInterval` returns
  `none` where the source returns 1 (the contents `ltime` is left with are not modelled).
  `sign` is `intervalSign`. The day and time kinds (`addDayTime`) check that the interval is
  at most `MAX_DAY_NUMBER` whole days (`intervalDaysOver`, in `ulonglong`), turn the day of the
  month into the day number, and add `COMBINE` of the two (`combine`), all in `ulonglong` as
  the C types make it: `toUnsigned 64`, then read back as the `longlong` `usec`. `splitUsec`
  is the rest, the `GET_PART`s with C's truncating `%` and `/`, and `get_date_from_daynr`.
  `addWeek`, `addYear` and `addMonth` are the other cases, in their C types; the `(long)`
  and `(longlong)` casts of the `ulong` fields are `toSigned 64`.

  Specification. `datetimeMicro` is the instant of a date and time in microseconds from day
  0, `Interval.micro` the length of an interval (`COMBINE`), and `InDatetimeRange` the instants
  from 0001-01-01 00:00:00 to 9999-12-31 23:59:59.999999. `CalendarDatetime` is a DATETIME
  of a real date, not negative, with its time of day in range.

  Proved:
  * `dateAddInterval_dayTime`: a day or time interval whose signed sum with the instant is a
    `longlong` is added exactly: `date_add_interval` succeeds just when that sum is an
    instant in range, with the DATETIME at that instant; `dateAddInterval_dayTime_inverse`:
    so adding and then subtracting the interval gives the DATETIME back;
  * `dateAddInterval_month`: the month kinds, for intervals below `2^62` months, move the
    month count by the interval, keep the day unless the new month is shorter, and fail
    just when the year leaves 0 to 9999;
  * `date_add_interval_unsigned_wrap`: an interval of `2^64 - 1` microseconds or months, which
    an unsigned integer argument gives, is added as `-1`.
-/

namespace MariaDB.Time

open MariaDB.Lib

/-! ## Model -/

/-- `enum interval_type` of my_time.h. -/
inductive IntervalType
  | year | quarter | month | week | day | hour | minute | second | microsecond
  | yearMonth | dayHour | dayMinute | daySecond | hourMinute | hourSecond | minuteSecond
  | dayMicrosecond | hourMicrosecond | minuteMicrosecond | secondMicrosecond | last
  deriving Repr, DecidableEq

/-- `INTERVAL` of sql/structs.h. -/
structure Interval where
  year : UInt64
  month : UInt64
  day : UInt64
  hour : UInt64
  minute : UInt64
  second : UInt64
  secondPart : UInt64
  neg : Bool
  deriving Repr, DecidableEq

/-- The kinds `date_add_interval` adds as a count of microseconds. -/
def IntervalType.isDayTime : IntervalType → Bool
  | .second | .secondMicrosecond | .microsecond | .minute | .hour | .minuteMicrosecond
  | .minuteSecond | .hourMicrosecond | .hourSecond | .hourMinute | .dayMicrosecond
  | .daySecond | .dayMinute | .dayHour | .day => true
  | _ => false

/-- `sign`: `1` when the interval has the sign of the value, `-1` when not. -/
def intervalSign (interval : Interval) (ltime : MysqlTime) : Int :=
  if interval.neg = ltime.neg then 1 else -1

/-- `COMBINE(X)`: days, hours, minutes, seconds and microseconds as microseconds. -/
def combine (day hour minute second secondPart : Nat) : Nat :=
  (((day * 24 + hour) * 60 + minute) * 60 + second) * 1000000 + secondPart

/-- The bound check of the day and time kinds: the interval's whole days, summed in
    `ulonglong`, are more than `MAX_DAY_NUMBER`. -/
def intervalDaysOver (interval : Interval) : Bool :=
  decide ((((interval.day.toNat + interval.hour.toNat / 24 + interval.minute.toNat / 24 / 60 +
    interval.second.toNat / 24 / 60 / 60) % 2 ^ 64 : Nat) : Int) > maxDayNumber)

/-- The tail of the day and time kinds: the sum `usec` taken apart again, down to the day
    number, and the date read from that. -/
def splitUsec (ltime : MysqlTime) (intType : IntervalType) (usec : Int) : Option MysqlTime :=
  let neg := decide (usec < 0)
  -- `usec= -usec` in `longlong`
  let usec := if usec < 0 then toSigned 64 (toUnsigned 64 (-usec)) else usec
  let secondPart := toUnsigned 64 (usec.tmod 1000000)
  let usec := usec.tdiv 1000000
  let second := toUnsigned 32 (usec.tmod 60)
  let usec := usec.tdiv 60
  let minute := toUnsigned 32 (usec.tmod 60)
  let usec := usec.tdiv 60
  let neg := ltime.neg ^^ neg
  if ltime.timeType = .time then
    if usec > (timeMaxHour : Int) then none
    else
      some { ltime with secondPart := secondPart, second := second, minute := minute,
                        neg := neg, hour := toUnsigned 32 usec, day := 0 }
  else if neg then none
  else
    match getDateFromDaynr (usec.tdiv 24) with
    | none => none
    | some (year, month, day) =>
      some { year := year, month := month, day := day, hour := toUnsigned 32 (usec.tmod 24),
             minute := minute, second := second, secondPart := secondPart, neg := neg,
             timeType := if intType ≠ .day then .datetime else ltime.timeType }

/-- The day and time kinds of `date_add_interval`. -/
def addDayTime (ltime : MysqlTime) (intType : IntervalType) (interval : Interval) (sign : Int) :
    Option MysqlTime :=
  if intervalDaysOver interval then none
  else
    -- `ltime->day+= calc_daynr(ltime->year, ltime->month, 1) - 1` on a date
    let day := if ltime.timeType ≠ .time
      then toUnsigned 32 (ltime.day + calcDaynr ltime.year ltime.month 1 - 1) else ltime.day
    splitUsec ltime intType (toSigned 64 (toUnsigned 64
      (combine day ltime.hour ltime.minute ltime.second ltime.secondPart +
        sign * combine interval.day.toNat interval.hour.toNat interval.minute.toNat
          interval.second.toNat interval.secondPart.toNat)))

/-- `INTERVAL_WEEK`: the interval's days added to the day number. -/
def addWeek (ltime : MysqlTime) (interval : Interval) (sign : Int) : Option MysqlTime :=
  let period := toSigned 64 (toUnsigned 64
    (calcDaynr ltime.year ltime.month ltime.day + sign * toSigned 64 interval.day.toNat))
  if period < 0 ∨ period > 0x7FFFFFFF then none
  else
    match getDateFromDaynr period with
    | none => none
    | some (year, month, day) => some { ltime with year := year, month := month, day := day }

/-- `INTERVAL_YEAR`: February 29 becomes February 28 outside a leap year. -/
def addYear (ltime : MysqlTime) (interval : Interval) (sign : Int) : Option MysqlTime :=
  let year := toUnsigned 32 (ltime.year + sign * toSigned 64 interval.year.toNat)
  if year ≥ 10000 then none
  else
    let day := if ltime.month = 2 ∧ ltime.day = 29 ∧ calcDaysInYear year ≠ 366 then 28
      else ltime.day
    some { ltime with year := year, day := day }

/-- `INTERVAL_YEAR_MONTH`, `INTERVAL_QUARTER` and `INTERVAL_MONTH`: the count of months
    `period`, in `long`; the day is cut to the length of the new month. -/
def addMonth (ltime : MysqlTime) (interval : Interval) (sign : Int) : Option MysqlTime :=
  -- `ltime->year*12` and `ltime->month-1` are `uint`
  let period := toSigned 64 (toUnsigned 64
    ((toUnsigned 32 (ltime.year * 12) : Int) + sign * toSigned 64 interval.year.toNat * 12 +
      (toUnsigned 32 ((ltime.month : Int) - 1) : Int) + sign * toSigned 64 interval.month.toNat))
  let p := toUnsigned 64 period
  if p ≥ 120000 then none
  else
    let year := p / 12
    let month := p % 12 + 1
    let days := daysInMonth.getD (month - 1) 0
    let day := if ltime.day > days
      then (if month = 2 ∧ calcDaysInYear year = 366 then days + 1 else days) else ltime.day
    some { ltime with year := year, month := month, day := day }

/-- `date_add_interval(thd, ltime, int_type, interval, push_warn)`. -/
def dateAddInterval (ltime : MysqlTime) (intType : IntervalType) (interval : Interval) :
    Option MysqlTime :=
  let sign := intervalSign interval ltime
  if intType.isDayTime then addDayTime ltime intType interval sign
  else
    let r := match intType with
      | .week => addWeek ltime interval sign
      | .year => addYear ltime interval sign
      | .yearMonth | .quarter | .month => addMonth ltime interval sign
      | _ => none
    -- `if (ltime->time_type != MYSQL_TIMESTAMP_TIME) return 0;`, else `invalid_date`
    r.filter fun t => t.timeType != .time

/-! ## Specification -/

/-- `micro(x)`: the instant of a date and time in microseconds from day 0. -/
def datetimeMicro (t : MysqlTime) : Int :=
  ((((calcDaynr t.year t.month t.day) * 24 + t.hour) * 60 + t.minute) * 60 + t.second) * 1000000 +
    t.secondPart

/-- The length of an interval in microseconds, `COMBINE(interval)`. -/
def Interval.micro (i : Interval) : Nat :=
  combine i.day.toNat i.hour.toNat i.minute.toNat i.second.toNat i.secondPart.toNat

/-- The instants of DATETIME values: 0001-01-01 00:00:00 to 9999-12-31 23:59:59.999999. -/
def InDatetimeRange (u : Int) : Prop := 366 * 86400000000 ≤ u ∧ u < 3652425 * 86400000000

instance (u : Int) : Decidable (InDatetimeRange u) := inferInstanceAs (Decidable (_ ∧ _))

/-- A DATETIME of a date of the years 1 to 9999, not negative, its time of day in range. -/
structure CalendarDatetime (t : MysqlTime) : Prop where
  date : ValidDate t.year t.month t.day
  hour_lt : t.hour < 24
  minute_lt : t.minute < 60
  second_lt : t.second < 60
  secondPart_lt : t.secondPart < 1000000
  neg_eq : t.neg = false
  timeType_eq : t.timeType = .datetime

theorem intervalSign_cases (i : Interval) (t : MysqlTime) :
    intervalSign i t = 1 ∨ intervalSign i t = -1 := by
  unfold intervalSign
  split_ifs
  · exact Or.inl rfl
  · exact Or.inr rfl

/-! ## The instant of a date and time -/

section Instant

theorem combine_eq_hornerVal (d h mi s sp : Nat) :
    combine d h mi s sp = hornerVal d [(24, h), (60, mi), (60, s), (1000000, sp)] := rfl

/-- Hours, minutes, seconds and microseconds below their radices: a count of microseconds
    has one reading. -/
theorem combine_inj {d h mi s sp d' h' mi' s' sp' : Nat} (hh : h < 24) (hmi : mi < 60)
    (hs : s < 60) (hsp : sp < 1000000) (hh' : h' < 24) (hmi' : mi' < 60) (hs' : s' < 60)
    (hsp' : sp' < 1000000) (heq : combine d h mi s sp = combine d' h' mi' s' sp') :
    d = d' ∧ h = h' ∧ mi = mi' ∧ s = s' ∧ sp = sp' := by
  have hb : DigitsBelow [(24, h), (60, mi), (60, s), (1000000, sp)] := by
    simp [DigitsBelow, hh, hmi, hs, hsp]
  have hb' : DigitsBelow [(24, h'), (60, mi'), (60, s'), (1000000, sp')] := by
    simp [DigitsBelow, hh', hmi', hs', hsp']
  rw [combine_eq_hornerVal, combine_eq_hornerVal, hornerVal_eq_iff d d' (by rfl) hb hb'] at heq
  simpa using heq

/-- A count of microseconds taken apart into days, hours, minutes, seconds and
    microseconds. -/
theorem combine_split (U : Nat) :
    combine (U / 86400000000) (U / 3600000000 % 24) (U / 60000000 % 60) (U / 1000000 % 60)
      (U % 1000000) = U := by
  unfold combine
  omega

theorem datetimeMicro_eq {t : MysqlTime} (ht : ValidDate t.year t.month t.day) :
    datetimeMicro t =
      combine (calcDaynr t.year t.month t.day).toNat t.hour t.minute t.second t.secondPart := by
  have := (calcDaynr_range ht).1
  unfold datetimeMicro combine
  push_cast
  rw [Int.toNat_of_nonneg (by omega)]

/-- The instant of a DATETIME is in range. -/
theorem CalendarDatetime.inDatetimeRange {t : MysqlTime} (ht : CalendarDatetime t) :
    InDatetimeRange (datetimeMicro t) := by
  have := calcDaynr_range ht.date
  have := ht.hour_lt; have := ht.minute_lt; have := ht.second_lt; have := ht.secondPart_lt
  unfold InDatetimeRange datetimeMicro
  unfold maxDayNumber at *
  omega

/-- Two DATETIMEs at one instant are one DATETIME. -/
theorem datetimeMicro_inj {a b : MysqlTime} (ha : CalendarDatetime a) (hb : CalendarDatetime b)
    (h : datetimeMicro a = datetimeMicro b) : a = b := by
  rw [datetimeMicro_eq ha.date, datetimeMicro_eq hb.date, Nat.cast_inj] at h
  obtain ⟨hd, hh, hmi, hs, hsp⟩ := combine_inj ha.hour_lt ha.minute_lt ha.second_lt
    ha.secondPart_lt hb.hour_lt hb.minute_lt hb.second_lt hb.secondPart_lt h
  -- one day number reads back as one date
  have hn : calcDaynr a.year a.month a.day = calcDaynr b.year b.month b.day := by
    have := (calcDaynr_range ha.date).1
    have := (calcDaynr_range hb.date).1
    omega
  have hdate := getDateFromDaynr_calcDaynr ha.date
  rw [hn, getDateFromDaynr_calcDaynr hb.date] at hdate
  simp only [Option.some.injEq, Prod.mk.injEq] at hdate
  obtain ⟨hy, hm, hd'⟩ := hdate
  have hneg := ha.neg_eq.trans hb.neg_eq.symm
  have htt := ha.timeType_eq.trans hb.timeType_eq.symm
  cases a
  cases b
  simp only [MysqlTime.mk.injEq]
  exact ⟨hy.symm, hm.symm, hd'.symm, hh, hmi, hs, hsp, hneg, htt⟩

end Instant

/-! ## The day and time kinds -/

section DayTime

/-- A non-negative `usec` on a date: the `GET_PART`s divide non-negative values, and the date
    is read from the whole days. -/
theorem splitUsec_natCast {ltime : MysqlTime} {k : IntervalType} (hty : ltime.timeType ≠ .time)
    (hneg : ltime.neg = false) (U : Nat) :
    splitUsec ltime k U =
      match getDateFromDaynr (U / 86400000000 : Nat) with
      | none => none
      | some (year, month, day) =>
        some { year := year, month := month, day := day, hour := U / 3600000000 % 24,
               minute := U / 60000000 % 60, second := U / 1000000 % 60,
               secondPart := U % 1000000, neg := false,
               timeType := if k ≠ .day then .datetime else ltime.timeType } := by
  have h0 : ¬(U : Int) < 0 := by omega
  unfold splitUsec
  simp only [h0, decide_false, if_false, hneg, Bool.xor_false, hty, Bool.false_eq_true]
  simp (disch := omega) only [Int.tdiv_eq_ediv_of_nonneg, Int.tmod_eq_emod_of_nonneg]
  -- each part is a small non-negative number
  have e1 : toUnsigned 64 ((U : Int) % 1000000) = U % 1000000 :=
    toUnsigned_of_eq_natCast (by omega) (by omega)
  have e2 : toUnsigned 32 ((U : Int) / 1000000 % 60) = U / 1000000 % 60 :=
    toUnsigned_of_eq_natCast (by omega) (by omega)
  have e3 : toUnsigned 32 ((U : Int) / 1000000 / 60 % 60) = U / 60000000 % 60 :=
    toUnsigned_of_eq_natCast (by omega) (by omega)
  have e4 : toUnsigned 32 ((U : Int) / 1000000 / 60 / 60 % 24) = U / 3600000000 % 24 :=
    toUnsigned_of_eq_natCast (by omega) (by omega)
  have e5 : (U : Int) / 1000000 / 60 / 60 / 24 = ((U / 86400000000 : Nat) : Int) := by omega
  rw [e1, e2, e3, e4, e5]

/-- A negative `usec` on a non-negative date: the result would be negative. -/
theorem splitUsec_of_neg {ltime : MysqlTime} {k : IntervalType} (hty : ltime.timeType ≠ .time)
    (hneg : ltime.neg = false) {u : Int} (hu : u < 0) : splitUsec ltime k u = none := by
  unfold splitUsec
  simp only [hu, decide_true, hneg, Bool.false_xor, hty, if_false, if_true]

/-- `splitUsec` on a DATETIME: it succeeds just when `usec` is an instant in range, and
    gives the DATETIME at that instant. -/
theorem splitUsec_datetime (ltime : MysqlTime) (k : IntervalType) (u : Int)
    (hty : ltime.timeType = .datetime) (hneg : ltime.neg = false) :
    ((∃ r, splitUsec ltime k u = some r) ↔ InDatetimeRange u) ∧
      ∀ r, splitUsec ltime k u = some r → CalendarDatetime r ∧ datetimeMicro r = u := by
  have hty' : ltime.timeType ≠ .time := by rw [hty]; decide
  rcases lt_or_ge u 0 with hu | hu
  · rw [splitUsec_of_neg hty' hneg hu]
    refine ⟨iff_of_false (by simp) ?_, by simp⟩
    unfold InDatetimeRange
    omega
  obtain ⟨U, rfl⟩ := Int.eq_ofNat_of_zero_le hu
  rw [splitUsec_natCast hty' hneg U]
  by_cases hr : InDatetimeRange U
  · unfold InDatetimeRange at hr
    obtain ⟨y, m, d, hget, hv, hcalc⟩ :=
      exists_getDateFromDaynr (n := ((U / 86400000000 : Nat) : Int)) (by omega)
        (by unfold maxDayNumber; omega)
    rw [hget]
    dsimp only
    have htt : (if k ≠ .day then TimestampType.datetime else ltime.timeType) = .datetime := by
      rw [hty]
      exact ite_self _
    -- the DATETIME at instant `U`
    have hc : CalendarDatetime
        { year := y, month := m, day := d, hour := U / 3600000000 % 24,
          minute := U / 60000000 % 60, second := U / 1000000 % 60, secondPart := U % 1000000,
          neg := false, timeType := if k ≠ .day then .datetime else ltime.timeType } :=
      ⟨hv, Nat.mod_lt _ (by norm_num), Nat.mod_lt _ (by norm_num), Nat.mod_lt _ (by norm_num),
        Nat.mod_lt _ (by norm_num), rfl, htt⟩
    refine ⟨iff_of_true ⟨_, rfl⟩ hr, ?_⟩
    rintro r ⟨⟩
    refine ⟨hc, ?_⟩
    rw [datetimeMicro_eq hv]
    dsimp only
    rw [hcalc, Int.toNat_natCast, combine_split]
  · rw [getDateFromDaynr_eq_none (by unfold InDatetimeRange at hr; unfold maxDayNumber; omega)]
    exact ⟨iff_of_false (by simp) hr, by simp⟩

/-- On a DATETIME, `ltime->day+= calc_daynr(year, month, 1) - 1` gives the day number, and
    `COMBINE(ltime)` the instant. -/
theorem addDayTime_calendar {t : MysqlTime} (ht : CalendarDatetime t) {i : Interval}
    (hover : intervalDaysOver i = false) (k : IntervalType) (s : Int) :
    addDayTime t k i s = splitUsec t k (toSigned 64 (toUnsigned 64 (datetimeMicro t + s * i.micro))) := by
  obtain ⟨hy1, -, hm1, hm, -, -⟩ := ht.date
  have hd := calcDaynr_eq_dayNumber t.day hy1 hm1 hm
  have h1 := calcDaynr_eq_dayNumber 1 hy1 hm1 hm
  have hrange := calcDaynr_range ht.date
  unfold dayNumber at hd h1
  unfold maxDayNumber at hrange
  have hday : toUnsigned 32 ((t.day : Int) + calcDaynr t.year t.month 1 - 1) =
      (calcDaynr t.year t.month t.day).toNat :=
    toUnsigned_of_eq_natCast (by omega) (by omega)
  unfold addDayTime
  rw [if_neg (by rw [hover]; decide), if_pos (by rw [ht.timeType_eq]; decide), hday]
  dsimp only
  rw [← datetimeMicro_eq ht.date]
  rfl

/-- An interval of more than `MAX_DAY_NUMBER` whole days is as long as the whole range. -/
theorem micro_of_intervalDaysOver {i : Interval} (h : intervalDaysOver i = true) :
    3652425 * 86400000000 ≤ i.micro := by
  have hmod := Nat.mod_le (i.day.toNat + i.hour.toNat / 24 + i.minute.toNat / 24 / 60 +
    i.second.toNat / 24 / 60 / 60) (2 ^ 64)
  unfold intervalDaysOver maxDayNumber at h
  simp only [decide_eq_true_eq] at h
  unfold Interval.micro combine
  omega

/-- The day and time kinds on a DATETIME, for an interval that, signed and added to the
    instant, stays inside `longlong`: `date_add_interval` succeeds just when that sum is an
    instant in range, and gives the DATETIME at that instant. -/
theorem dateAddInterval_dayTime {t : MysqlTime} {k : IntervalType} {i : Interval}
    (ht : CalendarDatetime t) (hk : k.isDayTime = true)
    (hfit : FitsSigned 64 (datetimeMicro t + intervalSign i t * i.micro)) :
    ((∃ r, dateAddInterval t k i = some r) ↔
        InDatetimeRange (datetimeMicro t + intervalSign i t * i.micro)) ∧
      ∀ r, dateAddInterval t k i = some r →
        CalendarDatetime r ∧ datetimeMicro r = datetimeMicro t + intervalSign i t * i.micro := by
  unfold dateAddInterval
  rw [if_pos hk]
  cases hover : intervalDaysOver i
  · rw [addDayTime_calendar ht hover, toSigned_toUnsigned (by norm_num) hfit.1 hfit.2]
    exact splitUsec_datetime t k _ ht.timeType_eq ht.neg_eq
  · -- the check fails, and the instant is out of range anyway
    have hlong := micro_of_intervalDaysOver hover
    have hrange := ht.inDatetimeRange
    unfold InDatetimeRange at hrange ⊢
    rw [addDayTime, if_pos hover]
    refine ⟨iff_of_false (by simp) ?_, by simp⟩
    rcases intervalSign_cases i t with hs | hs <;> rw [hs] <;> omega

/-- Adding a day or time interval and then subtracting it gives the DATETIME back. -/
theorem dateAddInterval_dayTime_inverse {t r : MysqlTime} {k : IntervalType} {i : Interval}
    (ht : CalendarDatetime t) (hk : k.isDayTime = true)
    (hfit : FitsSigned 64 (datetimeMicro t + intervalSign i t * i.micro))
    (hr : dateAddInterval t k i = some r) :
    dateAddInterval r k { i with neg := !i.neg } = some t := by
  obtain ⟨hrc, hrm⟩ := (dateAddInterval_dayTime ht hk hfit).2 r hr
  have hsign : intervalSign { i with neg := !i.neg } r = -intervalSign i t := by
    unfold intervalSign
    rw [hrc.neg_eq, ht.neg_eq]
    cases i.neg <;> rfl
  -- subtracting the interval comes back to the instant of `t`
  have hback : datetimeMicro r + intervalSign { i with neg := !i.neg } r *
      Interval.micro { i with neg := !i.neg } = datetimeMicro t := by
    rw [hsign, show Interval.micro { i with neg := !i.neg } = i.micro from rfl, hrm]
    ring
  have hrange := ht.inDatetimeRange
  have hfit' : FitsSigned 64 (datetimeMicro r + intervalSign { i with neg := !i.neg } r *
      Interval.micro { i with neg := !i.neg }) := by
    unfold InDatetimeRange at hrange
    rw [hback]
    constructor <;> norm_num <;> omega
  obtain ⟨hiff, hspec⟩ := dateAddInterval_dayTime hrc hk hfit'
  obtain ⟨r', hr'⟩ := hiff.mpr (hback ▸ hrange)
  obtain ⟨hc', hm'⟩ := hspec r' hr'
  rw [hr', datetimeMicro_inj hc' ht (hm'.trans hback)]

end DayTime

/-! ## The month kinds -/

section Month

/-- The day `addMonth` keeps: the old day, cut to the length of the new month, February of a
    leap year included. -/
theorem monthDay_eq_min (y m d : Nat) :
    (if d > daysInMonth.getD (m - 1) 0 then
        (if m = 2 ∧ calcDaysInYear y = 366 then daysInMonth.getD (m - 1) 0 + 1
          else daysInMonth.getD (m - 1) 0)
      else d) = min d (calcDaysInMonth y m) := by
  have hleap : calcDaysInYear y = 366 ↔ isleap y = true := by
    unfold calcDaysInYear
    cases isleap y <;> simp
  unfold calcDaysInMonth
  dsimp only
  simp only [hleap]
  by_cases h : m = 2 ∧ isleap y = true
  · obtain ⟨rfl, hl⟩ := h
    simp only [hl, and_self, if_true, show daysInMonth.getD (2 - 1) 0 = 28 from rfl]
    split_ifs <;> omega
  · simp only [h, if_false]
    split_ifs <;> omega

/-- The month kinds on a date of the years 0 to 9999, for an interval of fewer than `2^62`
    months: the count of months moves by the signed interval, the day is cut to the new
    month, and the new year has to be 0 to 9999. -/
theorem addMonth_eq {t : MysqlTime} {i : Interval} {s : Int} (hs : s = 1 ∨ s = -1)
    (hy : t.year ≤ 9999) (hm1 : 1 ≤ t.month) (hm : t.month ≤ 12)
    (hfit : 12 * i.year.toNat + i.month.toNat < 2 ^ 62) :
    addMonth t i s =
      let p : Int := t.year * 12 + t.month - 1 + s * (12 * i.year.toNat + i.month.toNat)
      if 0 ≤ p / 12 ∧ p / 12 ≤ 9999 then
        some { t with year := (p / 12).toNat, month := (p % 12).toNat + 1,
                      day := min t.day (calcDaysInMonth (p / 12).toNat ((p % 12).toNat + 1)) }
      else none := by
  have hy12 : toUnsigned 32 ((t.year : Int) * 12) = t.year * 12 :=
    toUnsigned_of_eq_natCast (by push_cast; ring) (by omega)
  have hm' : toUnsigned 32 ((t.month : Int) - 1) = t.month - 1 :=
    toUnsigned_of_eq_natCast (by omega) (by omega)
  have hiy : toSigned 64 i.year.toNat = i.year.toNat := toSigned_of_lt (by omega)
  have him : toSigned 64 i.month.toNat = i.month.toNat := toSigned_of_lt (by omega)
  unfold addMonth
  rw [hy12, hm', hiy, him]
  dsimp only
  -- the `long` sum is the count of months: it does not wrap
  generalize hp : (t.year * 12 + t.month - 1 + s * (12 * i.year.toNat + i.month.toNat) : Int) = p
  have hsum : ((t.year * 12 : Nat) : Int) + s * (i.year.toNat : Int) * 12 +
      ((t.month - 1 : Nat) : Int) + s * (i.month.toNat : Int) = p := by
    rw [← hp]
    push_cast [Nat.cast_sub hm1]
    ring
  have hpb : -2 ^ 63 ≤ p ∧ p < 2 ^ 63 := by rcases hs with rfl | rfl <;> omega
  rw [hsum, toSigned_toUnsigned (by norm_num) (by omega) (by omega)]
  have hP := toUnsigned_cast 64 p
  by_cases hin : 0 ≤ p ∧ p < 120000
  · have hPn : toUnsigned 64 p = p.toNat := by omega
    rw [if_neg (show ¬toUnsigned 64 p ≥ 120000 by omega),
      if_pos (show 0 ≤ p / 12 ∧ p / 12 ≤ 9999 by omega), hPn,
      show p.toNat / 12 = (p / 12).toNat by omega, show p.toNat % 12 = (p % 12).toNat by omega,
      monthDay_eq_min]
  · rw [if_pos (show toUnsigned 64 p ≥ 120000 by omega),
      if_neg (show ¬(0 ≤ p / 12 ∧ p / 12 ≤ 9999) by omega)]

/-- The month kinds of `date_add_interval` on a DATE or DATETIME of the years 0 to 9999. -/
theorem dateAddInterval_month {t : MysqlTime} {k : IntervalType} {i : Interval}
    (hty : t.timeType ≠ .time) (hy : t.year ≤ 9999) (hm1 : 1 ≤ t.month) (hm : t.month ≤ 12)
    (hk : k = .month ∨ k = .quarter ∨ k = .yearMonth)
    (hfit : 12 * i.year.toNat + i.month.toNat < 2 ^ 62) :
    dateAddInterval t k i =
      let p : Int :=
        t.year * 12 + t.month - 1 + intervalSign i t * (12 * i.year.toNat + i.month.toNat)
      if 0 ≤ p / 12 ∧ p / 12 ≤ 9999 then
        some { t with year := (p / 12).toNat, month := (p % 12).toNat + 1,
                      day := min t.day (calcDaysInMonth (p / 12).toNat ((p % 12).toNat + 1)) }
      else none := by
  have hmonth : dateAddInterval t k i =
      (addMonth t i (intervalSign i t)).filter fun r => r.timeType != .time := by
    rcases hk with rfl | rfl | rfl <;> rfl
  rw [hmonth, addMonth_eq (intervalSign_cases i t) hy hm1 hm hfit]
  dsimp only
  split_ifs
  · rw [Option.filter_some, if_pos (by simpa using hty)]
  · rfl

end Month

/-- `INTERVAL 18446744073709551615 MICROSECOND` and `INTERVAL 18446744073709551615 MONTH`: an
    unsigned argument gives the field `2^64 - 1`, which the `ulonglong` sum and the `(long)`
    cast turn into `-1`. The value moves one microsecond or one month back, where the exact
    instant or month is far past 9999. -/
theorem date_add_interval_unsigned_wrap :
    dateAddInterval ⟨2000, 1, 1, 0, 0, 0, 0, false, .datetime⟩ .microsecond
        ⟨0, 0, 0, 0, 0, 0, 18446744073709551615, false⟩ =
      some ⟨1999, 12, 31, 23, 59, 59, 999999, false, .datetime⟩ ∧
    ¬InDatetimeRange (datetimeMicro ⟨2000, 1, 1, 0, 0, 0, 0, false, .datetime⟩ +
      intervalSign ⟨0, 0, 0, 0, 0, 0, 18446744073709551615, false⟩
          ⟨2000, 1, 1, 0, 0, 0, 0, false, .datetime⟩ *
        Interval.micro ⟨0, 0, 0, 0, 0, 0, 18446744073709551615, false⟩) ∧
    dateAddInterval ⟨2000, 3, 15, 0, 0, 0, 0, false, .datetime⟩ .month
        ⟨0, 18446744073709551615, 0, 0, 0, 0, 0, false⟩ =
      some ⟨2000, 2, 15, 0, 0, 0, 0, false, .datetime⟩ := by
  have ht : CalendarDatetime ⟨2000, 1, 1, 0, 0, 0, 0, false, .datetime⟩ :=
    ⟨by decide, by decide, by decide, by decide, by decide, rfl, rfl⟩
  have hr : CalendarDatetime ⟨1999, 12, 31, 23, 59, 59, 999999, false, .datetime⟩ :=
    ⟨by decide, by decide, by decide, by decide, by decide, rfl, rfl⟩
  refine ⟨?_, by decide, by decide⟩
  -- the `ulonglong` sum wraps to one microsecond before the value
  have hwrap : toSigned 64 (toUnsigned 64 (datetimeMicro ⟨2000, 1, 1, 0, 0, 0, 0, false, .datetime⟩ +
      intervalSign ⟨0, 0, 0, 0, 0, 0, 18446744073709551615, false⟩
          ⟨2000, 1, 1, 0, 0, 0, 0, false, .datetime⟩ *
        Interval.micro ⟨0, 0, 0, 0, 0, 0, 18446744073709551615, false⟩)) =
      datetimeMicro ⟨1999, 12, 31, 23, 59, 59, 999999, false, .datetime⟩ := by
    decide
  obtain ⟨hiff, hspec⟩ := splitUsec_datetime ⟨2000, 1, 1, 0, 0, 0, 0, false, .datetime⟩ .microsecond
    (datetimeMicro ⟨1999, 12, 31, 23, 59, 59, 999999, false, .datetime⟩) rfl rfl
  obtain ⟨r, hsome⟩ := hiff.mpr hr.inDatetimeRange
  obtain ⟨hc, hm⟩ := hspec r hsome
  unfold dateAddInterval
  dsimp only
  rw [if_pos (show IntervalType.microsecond.isDayTime = true from rfl), addDayTime_calendar ht rfl,
    hwrap, hsome, datetimeMicro_inj hc hr hm]

end MariaDB.Time
