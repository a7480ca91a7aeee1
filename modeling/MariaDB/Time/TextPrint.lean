import MariaDB.Time.Basic
import MariaDB.Lib.Radix

/-
  The text form of temporal values (`sql-common/my_time.c`): `my_time_to_str`,
  `my_date_to_str`, `my_datetime_to_str` and the number printers they use.

  `fmt_number2` copies two bytes of the table `two_digit_numbers` with `int2store`, the low
  byte first; the table, copied here, holds the two digits of 0 to 99 and `XX` above. The
  casts `(uint8)` and `(uint16)` of the source are reductions modulo `2^8` and `2^16`.

  Proved: every printer writes the zero-padded decimal digits `decChars` of its fields
  (`fmtNumber2_table`, `fmtUsec_eq`, `longlong10ToStr_eq`), so that the printed forms are
  `myDatetimeToStr_eq`, `myDateToStr_eq` and `myTimeToStr_eq`.
-/

namespace MariaDB.Time

/-- `two_digit_numbers[256]`, each entry two characters with the first in the low byte. -/
def twoDigitNumbers : List Nat :=
  [0x3030, 0x3130, 0x3230, 0x3330, 0x3430, 0x3530, 0x3630, 0x3730, 0x3830, 0x3930,
    0x3031, 0x3131, 0x3231, 0x3331, 0x3431, 0x3531, 0x3631, 0x3731, 0x3831, 0x3931,
    0x3032, 0x3132, 0x3232, 0x3332, 0x3432, 0x3532, 0x3632, 0x3732, 0x3832, 0x3932,
    0x3033, 0x3133, 0x3233, 0x3333, 0x3433, 0x3533, 0x3633, 0x3733, 0x3833, 0x3933,
    0x3034, 0x3134, 0x3234, 0x3334, 0x3434, 0x3534, 0x3634, 0x3734, 0x3834, 0x3934,
    0x3035, 0x3135, 0x3235, 0x3335, 0x3435, 0x3535, 0x3635, 0x3735, 0x3835, 0x3935,
    0x3036, 0x3136, 0x3236, 0x3336, 0x3436, 0x3536, 0x3636, 0x3736, 0x3836, 0x3936,
    0x3037, 0x3137, 0x3237, 0x3337, 0x3437, 0x3537, 0x3637, 0x3737, 0x3837, 0x3937,
    0x3038, 0x3138, 0x3238, 0x3338, 0x3438, 0x3538, 0x3638, 0x3738, 0x3838, 0x3938,
    0x3039, 0x3139, 0x3239, 0x3339, 0x3439, 0x3539, 0x3639, 0x3739, 0x3839, 0x3939,
    0x5858, 0x5858, 0x5858, 0x5858, 0x5858, 0x5858, 0x5858, 0x5858, 0x5858, 0x5858,
    0x5858, 0x5858, 0x5858, 0x5858, 0x5858, 0x5858, 0x5858, 0x5858, 0x5858, 0x5858,
    0x5858, 0x5858, 0x5858, 0x5858, 0x5858, 0x5858, 0x5858, 0x5858, 0x5858, 0x5858,
    0x5858, 0x5858, 0x5858, 0x5858, 0x5858, 0x5858, 0x5858, 0x5858, 0x5858, 0x5858,
    0x5858, 0x5858, 0x5858, 0x5858, 0x5858, 0x5858, 0x5858, 0x5858, 0x5858, 0x5858,
    0x5858, 0x5858, 0x5858, 0x5858, 0x5858, 0x5858, 0x5858, 0x5858, 0x5858, 0x5858,
    0x5858, 0x5858, 0x5858, 0x5858, 0x5858, 0x5858, 0x5858, 0x5858, 0x5858, 0x5858,
    0x5858, 0x5858, 0x5858, 0x5858, 0x5858, 0x5858, 0x5858, 0x5858, 0x5858, 0x5858,
    0x5858, 0x5858, 0x5858, 0x5858, 0x5858, 0x5858, 0x5858, 0x5858, 0x5858, 0x5858,
    0x5858, 0x5858, 0x5858, 0x5858, 0x5858, 0x5858, 0x5858, 0x5858, 0x5858, 0x5858,
    0x5858, 0x5858, 0x5858, 0x5858, 0x5858, 0x5858, 0x5858, 0x5858, 0x5858, 0x5858,
    0x5858, 0x5858, 0x5858, 0x5858, 0x5858, 0x5858, 0x5858, 0x5858, 0x5858, 0x5858,
    0x5858, 0x5858, 0x5858, 0x5858, 0x5858, 0x5858, 0x5858, 0x5858, 0x5858, 0x5858,
    0x5858, 0x5858, 0x5858, 0x5858, 0x5858, 0x5858, 0x5858, 0x5858, 0x5858, 0x5858,
    0x5858, 0x5858, 0x5858, 0x5858, 0x5858, 0x5858, 0x5858, 0x5858, 0x5858, 0x5858,
    0x5858, 0x5858, 0x5858, 0x5858, 0x5858, 0x5858]

/-- `fmt_number2((uint8) val, out)`: `int2store(out, two_digit_numbers[val])`. -/
def fmtNumber2 (val : Nat) : List UInt8 :=
  let w := twoDigitNumbers.getD (val % 2 ^ 8) 0
  [(w % 256).toUInt8, (w / 256).toUInt8]

/-- `fmt_number4((uint16) val, out)`. -/
def fmtNumber4 (val : Nat) : List UInt8 :=
  let val := val % 2 ^ 16
  fmtNumber2 (val / 100) ++ fmtNumber2 (val % 100)

/-- `fmt_number6(val, out)`. -/
def fmtNumber6 (val : Nat) : List UInt8 :=
  let val := val % 2 ^ 32
  fmtNumber2 (val / 10000) ++ fmtNumber2 (val % 10000 / 100) ++ fmtNumber2 (val % 10000 % 100)

/-- `'0' + d` for a digit `d`. -/
def digitChar (d : Nat) : UInt8 := ('0'.toNat + d).toUInt8

/-- `fmt_usec(val, out, digits)`: `digits` digits of the fraction. -/
def fmtUsec (val digits : Nat) : List UInt8 :=
  match digits with
  | 1 => [digitChar (val % 10)]
  | 2 => fmtNumber2 val
  | 3 => digitChar (val / 100 % 10) :: fmtNumber2 (val % 100)
  | 4 => fmtNumber4 val
  | 5 => digitChar (val / 10000 % 10) :: fmtNumber4 (val % 10000)
  | 6 => fmtNumber6 val
  | _ => []

/-- `log_10_int[n]`. -/
def log10Int (n : Nat) : Nat := 10 ^ n

/-- `sec_part_shift(second_part, digits)`. -/
def secPartShift (secondPart digits : Nat) : Nat := secondPart / log10Int (6 - digits)

/-- `my_mmssff_to_str(ltime, to, fsp)`: `MM:SS` and, for `fsp` digits, `.ffffff`. -/
def myMmssffToStr (t : MysqlTime) (fsp : Nat) : List UInt8 :=
  let fsp := if fsp = autoSecPartDigits then (if t.secondPart ≠ 0 then 6 else 0) else fsp
  fmtNumber2 t.minute ++ [':'.toUInt8] ++ fmtNumber2 t.second ++
    (if fsp ≠ 0 then '.'.toUInt8 :: fmtUsec (secPartShift t.secondPart fsp) fsp else [])

/-- `longlong10_to_str(val, dst, 10)` for a value that is not negative: its decimal digits. -/
def longlong10ToStr (uval : Nat) : List UInt8 := (Nat.toDigits 10 uval).map Char.toUInt8

/-- `my_time_to_str(l_time, to, digits)`: `[-]hh:MM:SS[.ffffff]`, the days counted in the hours
when the value has no year and month. -/
def myTimeToStr (t : MysqlTime) (digits : Nat) : List UInt8 :=
  let day := if t.year ≠ 0 ∨ t.month ≠ 0 then 0 else t.day
  let hour := (day * 24 + t.hour) % 2 ^ 32
  (if t.neg then ['-'.toUInt8] else []) ++
    (if hour > 99 then longlong10ToStr hour else fmtNumber2 hour) ++ [':'.toUInt8] ++
    myMmssffToStr t digits

/-- `my_date_to_str(l_time, to)`: `YYYY-MM-DD`. -/
def myDateToStr (t : MysqlTime) : List UInt8 :=
  fmtNumber4 t.year ++ ['-'.toUInt8] ++ fmtNumber2 t.month ++ ['-'.toUInt8] ++ fmtNumber2 t.day

/-- `my_datetime_to_str(l_time, to, digits)`: `YYYY-MM-DD hh:MM:SS[.ffffff]`. -/
def myDatetimeToStr (t : MysqlTime) (digits : Nat) : List UInt8 :=
  fmtNumber4 t.year ++ ['-'.toUInt8] ++ fmtNumber2 t.month ++ ['-'.toUInt8] ++ fmtNumber2 t.day ++
    [' '.toUInt8] ++ fmtNumber2 t.hour ++ [':'.toUInt8] ++ myMmssffToStr t digits

/-! ## The printed digits -/

open MariaDB.Lib

/-- The `w` low decimal digits of `v` as characters, the most significant first. -/
def decChars (w v : Nat) : List UInt8 := (digitsOf 10 w v).map digitChar

@[simp] theorem length_decChars (w v : Nat) : (decChars w v).length = w := by
  simp [decChars]

theorem decChars_succ (w v : Nat) :
    decChars (w + 1) v = decChars w (v / 10) ++ [digitChar (v % 10)] := by
  simp [decChars, digitsOf]

theorem decChars_add (n k v : Nat) :
    decChars (n + k) v = decChars n (v / 10 ^ k) ++ decChars k v := by
  simp [decChars, digitsOf_add]

theorem decChars_mod_pow (n v : Nat) : decChars n (v % 10 ^ n) = decChars n v := by
  rw [decChars, digitsOf_mod_pow, decChars]

set_option maxRecDepth 4096 in
/-- `two_digit_numbers` holds the two digits of every number below 100. -/
theorem fmtNumber2_table : ∀ v < 100, fmtNumber2 v = decChars 2 v := by
  decide

theorem fmtNumber2_eq (v : Nat) : fmtNumber2 (v % 100) = decChars 2 v := by
  rw [fmtNumber2_table _ (Nat.mod_lt _ (by norm_num))]
  exact decChars_mod_pow 2 v

theorem fmtNumber4_eq {v : Nat} (hv : v < 10000) : fmtNumber4 v = decChars 4 v := by
  have hdiv : v / 100 % 100 = v / 100 := Nat.mod_eq_of_lt (by omega)
  rw [fmtNumber4, Nat.mod_eq_of_lt (by omega), fmtNumber2_eq, ← hdiv, fmtNumber2_eq]
  exact (decChars_add 2 2 v).symm

theorem fmtNumber6_eq {v : Nat} (hv : v < 1000000) : fmtNumber6 v = decChars 6 v := by
  have hdiv : v / 10000 % 100 = v / 10000 := Nat.mod_eq_of_lt (by omega)
  have hmid : v % 10000 / 100 % 100 = v % 10000 / 100 := Nat.mod_eq_of_lt (by omega)
  -- the four low digits are those of `v % 10000`
  have hlow : decChars 2 (v % 10000 / 100) ++ decChars 2 (v % 10000) = decChars 4 v := by
    rw [← decChars_mod_pow 4 v]
    exact (decChars_add 2 2 _).symm
  rw [fmtNumber6, Nat.mod_eq_of_lt (by omega), fmtNumber2_eq, ← hmid, fmtNumber2_eq, ← hdiv,
    fmtNumber2_eq, List.append_assoc, hlow]
  exact (decChars_add 2 4 v).symm

theorem fmtUsec_eq {v digits : Nat} (hd : 1 ≤ digits) (hd6 : digits ≤ 6) (hv : v < 10 ^ digits) :
    fmtUsec v digits = decChars digits v := by
  match digits, hd, hd6 with
  | 1, _, _ => simp [fmtUsec, decChars, digitsOf]
  | 2, _, _ =>
    rw [fmtUsec, ← fmtNumber2_eq, Nat.mod_eq_of_lt (show v < 100 from hv)]
  | 3, _, _ =>
    rw [fmtUsec, fmtNumber2_eq, decChars_add 1 2, decChars, digitsOf, digitsOf]
    rfl
  | 4, _, _ => exact fmtNumber4_eq hv
  | 5, _, _ =>
    rw [fmtUsec, fmtNumber4_eq (Nat.mod_lt _ (by norm_num)), show v % 10000 = v % 10 ^ 4 from rfl,
      decChars_mod_pow 4 v, decChars_add 1 4, decChars, digitsOf, digitsOf]
    rfl
  | 6, _, _ => exact fmtNumber6_eq hv

/-- The digit characters agree with `Nat.digitChar`. -/
theorem toUInt8_digitChar : ∀ d < 10, (Nat.digitChar d).toUInt8 = digitChar d := by
  decide

/-- `longlong10_to_str` of a number of `k + 1` digits. Induction on `k`, one digit a step. -/
theorem longlong10ToStr_eq {k v : Nat} (hlo : 10 ^ k ≤ v) (hhi : v < 10 ^ (k + 1)) :
    longlong10ToStr v = decChars (k + 1) v := by
  induction k generalizing v with
  | zero =>
    rw [longlong10ToStr, Nat.toDigits_of_lt_base (by simpa using hhi), decChars_succ,
      Nat.mod_eq_of_lt (by simpa using hhi)]
    simp [decChars, digitsOf, toUInt8_digitChar v (by simpa using hhi)]
  | succ k ih =>
    have hdiv := Nat.div_add_mod v 10
    have hlo' : 10 ^ k ≤ v / 10 := by
      rw [Nat.le_div_iff_mul_le (by norm_num)]; rw [pow_succ] at hlo; exact hlo
    have hhi' : v / 10 < 10 ^ (k + 1) := by
      rw [Nat.div_lt_iff_lt_mul (by norm_num)]; rw [pow_succ] at hhi; exact hhi
    rw [longlong10ToStr, ← hdiv, ← Nat.toDigits_append_toDigits (by norm_num)
      (Nat.lt_of_lt_of_le (Nat.pow_pos (by norm_num)) hlo') (Nat.mod_lt _ (by norm_num)),
      List.map_append, ← longlong10ToStr, ih hlo' hhi', Nat.toDigits_of_lt_base (Nat.mod_lt _ (by norm_num)),
      decChars_succ (k + 1), hdiv]
    simp [toUInt8_digitChar (v % 10) (Nat.mod_lt _ (by norm_num))]

/-- The fraction `my_mmssff_to_str` prints for `digits` digits: nothing, or a `.` and the
`digits` leading digits of the six. -/
def fracText (digits secondPart : Nat) : List UInt8 :=
  if digits ≠ 0 then '.'.toUInt8 :: decChars digits (secondPart / 10 ^ (6 - digits)) else []

/-- The leading `digits` of a microsecond count are below `10 ^ digits`. -/
theorem secPartShift_lt {secondPart digits : Nat} (hd : digits ≤ 6) (hsp : secondPart ≤ 999999) :
    secondPart / 10 ^ (6 - digits) < 10 ^ digits := by
  rw [Nat.div_lt_iff_lt_mul (Nat.pow_pos (by norm_num)), ← pow_add, Nat.add_sub_cancel' hd]
  omega

theorem myMmssffToStr_eq {t : MysqlTime} {digits : Nat} (hd : digits ≤ 6) (hm : t.minute < 100)
    (hs : t.second < 100) (hsp : t.secondPart ≤ 999999) :
    myMmssffToStr t digits =
      decChars 2 t.minute ++ ':'.toUInt8 :: decChars 2 t.second ++ fracText digits t.secondPart := by
  have hauto : digits ≠ autoSecPartDigits := by unfold autoSecPartDigits; omega
  rw [myMmssffToStr, if_neg hauto, ← Nat.mod_eq_of_lt hm, fmtNumber2_eq, ← Nat.mod_eq_of_lt hs,
    fmtNumber2_eq, Nat.mod_eq_of_lt hm, Nat.mod_eq_of_lt hs, fracText]
  by_cases h0 : digits = 0
  · simp [h0]
  · rw [if_pos h0, if_pos h0, secPartShift, log10Int,
      fmtUsec_eq (by omega) hd (secPartShift_lt hd hsp)]
    simp

/-- The width `my_time_to_str` prints an hour below 1000 in. -/
def hourWidth (hour : Nat) : Nat := if hour > 99 then 3 else 2

theorem myTimeToStr_eq {t : MysqlTime} {digits : Nat} (hd : digits ≤ 6)
    (hdate : t.year = 0 ∧ t.month = 0 ∧ t.day = 0) (hh : t.hour < 1000) (hm : t.minute < 100)
    (hs : t.second < 100) (hsp : t.secondPart ≤ 999999) :
    myTimeToStr t digits =
      (if t.neg then ['-'.toUInt8] else []) ++ decChars (hourWidth t.hour) t.hour ++
        ':'.toUInt8 :: decChars 2 t.minute ++ ':'.toUInt8 :: decChars 2 t.second ++
          fracText digits t.secondPart := by
  obtain ⟨hy, hmo, hday⟩ := hdate
  have hhour : (0 * 24 + t.hour) % 2 ^ 32 = t.hour := by omega
  have htext : (if t.hour > 99 then longlong10ToStr t.hour else fmtNumber2 t.hour) =
      decChars (hourWidth t.hour) t.hour := by
    unfold hourWidth
    split_ifs with h99
    · exact longlong10ToStr_eq (k := 2) (by norm_num; omega) (by norm_num; omega)
    · rw [← Nat.mod_eq_of_lt (show t.hour < 100 by omega), fmtNumber2_eq,
        Nat.mod_eq_of_lt (show t.hour < 100 by omega)]
  rw [myTimeToStr, myMmssffToStr_eq hd hm hs hsp]
  simp only [hy, hmo, hday, ne_eq, not_true_eq_false, or_self, if_false, hhour, htext]
  simp

theorem myDateToStr_eq {t : MysqlTime} (hy : t.year < 10000) (hm : t.month < 100)
    (hday : t.day < 100) :
    myDateToStr t =
      decChars 4 t.year ++ '-'.toUInt8 :: decChars 2 t.month ++ '-'.toUInt8 :: decChars 2 t.day := by
  rw [myDateToStr, fmtNumber4_eq hy, ← Nat.mod_eq_of_lt hm, fmtNumber2_eq, ← Nat.mod_eq_of_lt hday,
    fmtNumber2_eq, Nat.mod_eq_of_lt hm, Nat.mod_eq_of_lt hday]
  simp

theorem myDatetimeToStr_eq {t : MysqlTime} {digits : Nat} (hd : digits ≤ 6) (hy : t.year < 10000)
    (hm : t.month < 100) (hday : t.day < 100) (hh : t.hour < 100) (hmi : t.minute < 100)
    (hs : t.second < 100) (hsp : t.secondPart ≤ 999999) :
    myDatetimeToStr t digits =
      decChars 4 t.year ++ '-'.toUInt8 :: decChars 2 t.month ++ '-'.toUInt8 :: decChars 2 t.day ++
        ' '.toUInt8 :: decChars 2 t.hour ++ ':'.toUInt8 :: decChars 2 t.minute ++
          ':'.toUInt8 :: decChars 2 t.second ++ fracText digits t.secondPart := by
  have hdate := myDateToStr_eq hy hm hday
  rw [myDateToStr] at hdate
  rw [myDatetimeToStr, hdate, myMmssffToStr_eq hd hmi hs hsp, ← Nat.mod_eq_of_lt hh, fmtNumber2_eq,
    Nat.mod_eq_of_lt hh]
  simp

end MariaDB.Time
