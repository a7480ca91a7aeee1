import MariaDB.Time.Datetime

/-
  The in-memory packed number of a `MYSQL_TIME`: `pack_time`, `unpack_time` and
  `my_time_compare` of sql/sql_time.cc.

  Model. `pack_time` computes in `ulonglong` the fields as one mixed-radix number, with the
  radices 13, 32, 24, 60, 60 and 10^6 below the year, multiplies it by `neg ? -1 : 1` (an
  `int`, so `-1` becomes `2^64 - 1`) and returns a `longlong`: `toUnsigned 64`, then
  `toSigned 64`. `unpack_time` takes the absolute value, peels the fields off with `%` and `/`
  (`get_one`), and then, by the type it is given, folds the day and month digits back into
  the hours (TIME) or clears the time (DATE); it sets every field of its result.
  `my_time_compare` keeps both packed numbers in `ulonglong` variables and compares those.

  The packed numbers order values as their signs and fields do (`packTime_lt_iff`), but a
  negative number is stored `2^64` higher in a `ulonglong`, so `my_time_compare` ranks every
  negative value above every non-negative one (`myTimeCompare_eq`).

  Proved:
  * `packTime_eq`: a value whose number fits a `longlong` packs to its signed mixed-radix
    value (`packMag`);
  * `unpackTime_packTime_datetime`, `unpackTime_packTime_date`, `unpackTime_packTime_time`:
    `unpack_time` gives the value back, up to the sign of zero: DATETIME and DATE values with
    their fields in range, TIME values of up to 838 hours with no day or month;
  * `packTime_lt_iff`: non-negative values in range compare as their fields do, in order;
  * `myTimeCompare_eq`: `my_time_compare` is the comparison of the packed numbers when they
    have one sign, and its reverse when they do not; `myTimeCompare_of_nonneg`: so it orders
    DATETIME and DATE values by their fields;
  * `my_time_compare_mixed_signs`: TIME `-00:00:01` compares above `00:00:01`.
-/

namespace MariaDB.Time

open MariaDB.Lib

/-! ## Model -/

/-- `pack_time`. -/
def packTime (t : MysqlTime) : Int :=
  toSigned 64 (toUnsigned 64
    (((((((t.year * 13 + t.month) * 32 + t.day) * 24 + t.hour) * 60 + t.minute) * 60 +
        t.second) * 1000000 + t.secondPart : Nat) * (if t.neg then -1 else 1)))

/-- `unpack_time(packed, my_time, ts_type)`. A type other than TIME, DATE and DATETIME fails
    the `DBUG_ASSERT` and falls through to DATETIME. -/
def unpackTime (packed : Int) (tsType : TimestampType) : MysqlTime :=
  -- `if ((my_time->neg= packed < 0)) packed= -packed;`
  let p := packed.natAbs
  let t : MysqlTime :=
    { secondPart := p % 1000000
      second := p / 1000000 % 60
      minute := p / 1000000 / 60 % 60
      hour := p / 1000000 / 60 / 60 % 24
      day := p / 1000000 / 60 / 60 / 24 % 32
      month := p / 1000000 / 60 / 60 / 24 / 32 % 13
      year := p / 1000000 / 60 / 60 / 24 / 32 / 13 % 2 ^ 32
      neg := decide (packed < 0)
      timeType := tsType }
  match tsType with
  | .time =>
    { t with hour := (t.hour + (t.month * 32 + t.day) * 24) % 2 ^ 32, month := 0, day := 0 }
  | .date => { t with hour := 0, minute := 0, second := 0, secondPart := 0 }
  | _ => t

/-- `my_time_compare(a, b)`: `-1`, `0` or `1`. -/
def myTimeCompare (a b : MysqlTime) : Int :=
  let aT := toUnsigned 64 (packTime a)
  let bT := toUnsigned 64 (packTime b)
  if aT < bT then -1 else if aT > bT then 1 else 0

/-- The fields below the year as `(radix, digit)` pairs, in `pack_time`'s radices. -/
def packDigits (t : MysqlTime) : List (Nat × Nat) :=
  [(13, t.month), (32, t.day), (24, t.hour), (60, t.minute), (60, t.second),
    (1000000, t.secondPart)]

/-- The magnitude `pack_time` computes. -/
def packMag (t : MysqlTime) : Nat := hornerVal t.year (packDigits t)

/-- Fields each below its radix in `pack_time`'s number, and the number a `longlong`. -/
structure PackFields (t : MysqlTime) : Prop where
  month_lt : t.month < 13
  day_lt : t.day < 32
  hour_lt : t.hour < 24
  minute_lt : t.minute < 60
  second_lt : t.second < 60
  secondPart_lt : t.secondPart < 1000000
  fits : packMag t < 2 ^ 63

/-! ## The packed number -/

theorem packMag_eq (t : MysqlTime) :
    packMag t = (((((t.year * 13 + t.month) * 32 + t.day) * 24 + t.hour) * 60 + t.minute) * 60 +
      t.second) * 1000000 + t.secondPart := rfl

/-- `pack_time` of a value whose number fits a `longlong` is that number with the sign. -/
theorem packTime_eq {t : MysqlTime} (h : packMag t < 2 ^ 63) :
    packTime t = signMag t.neg (packMag t) := by
  have h' : ((packMag t : Nat) : Int) < 2 ^ 63 := by exact_mod_cast h
  unfold packTime
  rw [← packMag_eq]
  cases t.neg
  -- not `rfl`: the kernel would unfold the products of the number
  · rw [if_neg Bool.false_ne_true, mul_one,
      toSigned_toUnsigned (by norm_num) (by omega) (by omega), signMag, if_neg Bool.false_ne_true]
  · rw [if_pos rfl, mul_neg_one,
      toSigned_toUnsigned (by norm_num) (by omega) (by omega), signMag, if_pos rfl]

theorem natAbs_signMag (neg : Bool) (v : Nat) : (signMag neg v).natAbs = v := by
  cases neg <;> simp [signMag]

theorem signMag_neg_iff (neg : Bool) (v : Nat) :
    decide (signMag neg v < 0) = (neg && decide (v ≠ 0)) := by
  cases neg
  · simp [signMag]
  · simp only [signMag, if_true, Bool.true_and]
    exact decide_eq_decide.mpr (by omega)

/-! ## `unpack_time` gives the value back -/

section Unpack

variable {t : MysqlTime}

/-- The year of a number that fits a `longlong` is below `2^32`: `(uint)packed` keeps it. -/
theorem PackFields.year_lt (h : PackFields t) : t.year < 2 ^ 32 := by
  have := h.fits
  rw [packMag_eq] at this
  omega

/-- DATETIME: every field comes back; the sign of zero is lost. -/
theorem unpackTime_packTime_datetime (h : PackFields t) (ht : t.timeType = .datetime) :
    unpackTime (packTime t) .datetime = { t with neg := t.neg && decide (packMag t ≠ 0) } := by
  rw [packTime_eq h.fits]
  unfold unpackTime
  simp only [natAbs_signMag, signMag_neg_iff]
  -- peel the digits off the number, the least significant first
  simp only [packMag_eq, mul_add_div_of_lt h.secondPart_lt, mul_add_div_of_lt h.second_lt,
    mul_add_div_of_lt h.minute_lt, mul_add_div_of_lt h.hour_lt, mul_add_div_of_lt h.day_lt,
    mul_add_div_of_lt h.month_lt, Nat.mul_add_mod_of_lt h.secondPart_lt,
    Nat.mul_add_mod_of_lt h.second_lt, Nat.mul_add_mod_of_lt h.minute_lt,
    Nat.mul_add_mod_of_lt h.hour_lt, Nat.mul_add_mod_of_lt h.day_lt,
    Nat.mul_add_mod_of_lt h.month_lt, Nat.mod_eq_of_lt h.year_lt, ← ht]

/-- DATE, with no time of day: every field comes back; the sign of zero is lost. -/
theorem unpackTime_packTime_date (h : PackFields t) (ht : t.timeType = .date)
    (hz : t.hour = 0 ∧ t.minute = 0 ∧ t.second = 0 ∧ t.secondPart = 0) :
    unpackTime (packTime t) .date = { t with neg := t.neg && decide (packMag t ≠ 0) } := by
  obtain ⟨h0, m0, s0, f0⟩ := hz
  rw [packTime_eq h.fits]
  unfold unpackTime
  simp only [natAbs_signMag, signMag_neg_iff]
  simp only [packMag_eq, mul_add_div_of_lt h.secondPart_lt, mul_add_div_of_lt h.second_lt,
    mul_add_div_of_lt h.minute_lt, mul_add_div_of_lt h.hour_lt, mul_add_div_of_lt h.day_lt,
    mul_add_div_of_lt h.month_lt, Nat.mul_add_mod_of_lt h.day_lt,
    Nat.mul_add_mod_of_lt h.month_lt, Nat.mod_eq_of_lt h.year_lt, ← ht]
  simp only [h0, m0, s0, f0]

/-- TIME, with no day or month and up to 838 hours: the hours spill into the day and month
    digits of the number, and `unpack_time` folds them back; the sign of zero is lost. -/
theorem unpackTime_packTime_time (ht : t.timeType = .time) (hmo : t.month = 0) (hd : t.day = 0)
    (hh : t.hour ≤ 838) (hm : t.minute < 60) (hs : t.second < 60) (hf : t.secondPart < 1000000)
    (hfit : packMag t < 2 ^ 63) :
    unpackTime (packTime t) .time = { t with neg := t.neg && decide (packMag t ≠ 0) } := by
  have hy : t.year < 2 ^ 32 := by
    rw [packMag_eq] at hfit
    omega
  rw [packTime_eq hfit]
  unfold unpackTime
  simp only [natAbs_signMag, signMag_neg_iff]
  simp only [packMag_eq, mul_add_div_of_lt hf, mul_add_div_of_lt hs, mul_add_div_of_lt hm,
    Nat.mul_add_mod_of_lt hf, Nat.mul_add_mod_of_lt hs, Nat.mul_add_mod_of_lt hm, hmo, hd, ← ht]
  -- the hours are `year * 9984 + hour`, in the radices 24, 32 and 13 over the year
  have hH : ((t.year * 13 + 0) * 32 + 0) * 24 + t.hour = t.year * 9984 + t.hour := by ring
  rw [hH]
  have hq : (t.year * 9984 + t.hour) / 24 / 32 / 13 = t.year := by omega
  have hr : ((t.year * 9984 + t.hour) % 24 + ((t.year * 9984 + t.hour) / 24 / 32 % 13 * 32 +
      (t.year * 9984 + t.hour) / 24 % 32) * 24) = t.hour := by omega
  rw [hq, hr, Nat.mod_eq_of_lt hy, Nat.mod_eq_of_lt (by omega : t.hour < 2 ^ 32)]

end Unpack

/-! ## Order -/

section Order

/-- Non-negative values with their fields in range: the packed numbers compare as the fields
    do, year first. -/
theorem packTime_lt_iff {a b : MysqlTime} (ha : PackFields a) (hb : PackFields b)
    (hna : a.neg = false) (hnb : b.neg = false) :
    packTime a < packTime b ↔ datetimeFields a < datetimeFields b := by
  have hda : DigitsBelow (packDigits a) := by
    simp [DigitsBelow, packDigits, ha.month_lt, ha.day_lt, ha.hour_lt, ha.minute_lt,
      ha.second_lt, ha.secondPart_lt]
  have hdb : DigitsBelow (packDigits b) := by
    simp [DigitsBelow, packDigits, hb.month_lt, hb.day_lt, hb.hour_lt, hb.minute_lt,
      hb.second_lt, hb.secondPart_lt]
  rw [packTime_eq ha.fits, packTime_eq hb.fits, hna, hnb]
  simp only [signMag, Bool.false_eq_true, if_false, Nat.cast_lt]
  exact hornerVal_lt_iff a.year b.year rfl hda hdb

/-- `(ulonglong) x` of a `longlong`: itself when not negative, `2^64` higher when negative. -/
theorem toUnsigned_longlong {x : Int} (h1 : -2 ^ 63 ≤ x) (h2 : x < 2 ^ 63) :
    (toUnsigned 64 x : Int) = if x < 0 then x + 2 ^ 64 else x := by
  rw [toUnsigned_cast]
  split_ifs with hx
  · rw [← Int.add_emod_right, Int.emod_eq_of_lt (by omega) (by omega)]
  · exact Int.emod_eq_of_lt (by omega) (by omega)

/-- `my_time_compare`'s answer for two `ulonglong`s is the sign of their difference. -/
theorem ite_lt_eq_sign (m n : Nat) :
    (if m < n then -1 else if m > n then 1 else 0 : Int) = ((m : Int) - n).sign := by
  split_ifs with h1 h2
  · exact (Int.sign_eq_neg_one_of_neg (by omega)).symm
  · exact (Int.sign_eq_one_of_pos (by omega)).symm
  · rw [show (m : Int) - n = 0 by omega, Int.sign_zero]

/-- `my_time_compare` of two values whose numbers fit a `longlong`: the sign of
    `pack_time(a) - pack_time(b)` when the two numbers have one sign, and of
    `pack_time(b) - pack_time(a)` when they do not. -/
theorem myTimeCompare_eq {a b : MysqlTime} (ha : packMag a < 2 ^ 63) (hb : packMag b < 2 ^ 63) :
    myTimeCompare a b =
      if (packTime a < 0 ↔ packTime b < 0) then (packTime a - packTime b).sign
      else (packTime b - packTime a).sign := by
  have hra : -2 ^ 63 ≤ packTime a ∧ packTime a < 2 ^ 63 := by
    rw [packTime_eq ha]
    have : ((packMag a : Nat) : Int) < 2 ^ 63 := by exact_mod_cast ha
    cases a.neg <;> simp only [signMag, Bool.false_eq_true, if_true, if_false] <;> omega
  have hrb : -2 ^ 63 ≤ packTime b ∧ packTime b < 2 ^ 63 := by
    rw [packTime_eq hb]
    have : ((packMag b : Nat) : Int) < 2 ^ 63 := by exact_mod_cast hb
    cases b.neg <;> simp only [signMag, Bool.false_eq_true, if_true, if_false] <;> omega
  unfold myTimeCompare
  dsimp only
  rw [ite_lt_eq_sign, toUnsigned_longlong hra.1 hra.2, toUnsigned_longlong hrb.1 hrb.2]
  generalize packTime a = x at *
  generalize packTime b = y at *
  -- a negative number is stored `2^64` higher: by the signs of the two
  by_cases hx : x < 0 <;> by_cases hy : y < 0
  · rw [if_pos (iff_of_true hx hy), if_pos hx, if_pos hy]
    congr 1
    ring
  · rw [if_neg (show ¬(x < 0 ↔ y < 0) by tauto), if_pos hx, if_neg hy, Int.sign_eq_one_of_pos (by omega),
      Int.sign_eq_one_of_pos (by omega)]
  · rw [if_neg (show ¬(x < 0 ↔ y < 0) by tauto), if_neg hx, if_pos hy, Int.sign_eq_neg_one_of_neg (by omega),
      Int.sign_eq_neg_one_of_neg (by omega)]
  · rw [if_pos (iff_of_false hx hy), if_neg hx, if_neg hy]

/-- Non-negative values with their fields in range, such as DATETIME and DATE values:
    `my_time_compare` orders them by their fields. -/
theorem myTimeCompare_of_nonneg {a b : MysqlTime} (ha : PackFields a) (hb : PackFields b)
    (hna : a.neg = false) (hnb : b.neg = false) :
    myTimeCompare a b =
      if datetimeFields a < datetimeFields b then -1
      else if datetimeFields b < datetimeFields a then 1 else 0 := by
  have hpa : 0 ≤ packTime a := by
    rw [packTime_eq ha.fits, hna]
    exact Int.natCast_nonneg _
  have hpb : 0 ≤ packTime b := by
    rw [packTime_eq hb.fits, hnb]
    exact Int.natCast_nonneg _
  have h1 := packTime_lt_iff ha hb hna hnb
  have h2 := packTime_lt_iff hb ha hnb hna
  rw [myTimeCompare_eq ha.fits hb.fits, if_pos (iff_of_false (by omega) (by omega))]
  split_ifs with hab hba
  · exact Int.sign_eq_neg_one_of_neg (by have := h1.mpr hab; omega)
  · exact Int.sign_eq_one_of_pos (by have := h2.mpr hba; omega)
  · have := mt h1.mp hab
    have := mt h2.mp hba
    rw [show packTime a - packTime b = 0 by omega, Int.sign_zero]

end Order

/-- TIME `-00:00:01` and `00:00:01`: `pack_time` gives `-1000000` and `1000000`, in order,
    but `my_time_compare` sees `2^64 - 1000000` against `1000000` and answers that the first
    is the greater. -/
theorem my_time_compare_mixed_signs :
    packTime ⟨0, 0, 0, 0, 0, 1, 0, true, .time⟩ = -1000000 ∧
      packTime ⟨0, 0, 0, 0, 0, 1, 0, false, .time⟩ = 1000000 ∧
      myTimeCompare ⟨0, 0, 0, 0, 0, 1, 0, true, .time⟩ ⟨0, 0, 0, 0, 0, 1, 0, false, .time⟩ = 1 := by
  decide

end MariaDB.Time
