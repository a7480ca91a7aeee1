import MariaDB.Time.TextParse
import MariaDB.Time.TextPrint
import MariaDB.Time.Datetime

/-
  The text forms read back (`sql-common/my_time.c`): what `my_datetime_to_str`,
  `my_date_to_str` and `my_time_to_str` print, `str_to_datetime_or_date` and
  `str_to_datetime_or_date_or_time` read as the same value, with no warning.

  A printed text is a row of fields `decChars` with `-`, ` ` and `:` between them and maybe a
  fraction `fracText` (`TextPrint`). Each step of the parsers is stated here on such a row
  (`numberStep_decChars`, `punctStep_punct`, `ddHmsLoop_printed`, ...) and the round trips are
  chained from them.

  A printed TIME of twelve characters or more is first tried as a date: the date grammar reads
  its hours, minutes and seconds as year, month and day and stops at the `.` of the fraction
  with no field counted (`delimitedSteps_time`), so the value is of no type and the text is read
  again as a time, from the same body (`strToDatetimeOrDateOrTimeBody_time`).

  Proved: `temporal_text_round_trip`, for every `err_hour` at or above the value's hour (the
  callers pass `UINT_MAX32`) and every `mode`.
-/

namespace MariaDB.Time

open MariaDB.Lib

/-! ## The printed characters -/

theorem digitChar_table : ∀ d < 10, myIsdigit (digitChar d) = true ∧ digitOf (digitChar d) = d := by
  decide

theorem digits_decChars (w v : Nat) : ∀ c ∈ decChars w v, myIsdigit c = true := by
  intro c hc
  obtain ⟨d, hd, rfl⟩ := List.mem_map.mp hc
  exact (digitChar_table d (digitsLt_digitsOf (by norm_num) w v d hd)).1

theorem digitRun_decChars {w : Nat} (hw : w ≠ 0) (v : Nat) : DigitRun (decChars w v) :=
  ⟨List.ne_nil_of_length_pos (by simpa using Nat.pos_of_ne_zero hw), digits_decChars w v⟩

/-- The digits printed for `v` read back as `v` modulo `10 ^ w`. -/
theorem runValue_decChars (w v : Nat) : runValue (decChars w v) = v % 10 ^ w := by
  have hmap : (decChars w v).map digitOf = digitsOf 10 w v := by
    rw [decChars, List.map_map]
    conv_rhs => rw [← List.map_id (digitsOf 10 w v)]
    exact List.map_congr_left fun d hd =>
      (digitChar_table d (digitsLt_digitsOf (by norm_num) w v d hd)).2
  rw [runValue, hmap, digitsVal_digitsOf]

theorem noDigitAhead_fracText (digits secondPart : Nat) :
    NoDigitAhead (fracText digits secondPart) := by
  unfold fracText
  split_ifs
  · exact noDigitAhead_cons _ separator_classes.2.2.2.2.2.1
  · exact noDigitAhead_nil

/-! ## The body of the text -/

/-- The last character of a text is a digit. -/
def EndsInDigit (s : List UInt8) : Prop := ∀ c ∈ s.getLast?, myIsdigit c = true

theorem getSuffix_of_endsInDigit {s : List UInt8} (hs : EndsInDigit s) :
    getSuffix s = (false, s.length) := by
  rcases List.eq_nil_or_concat s with rfl | ⟨pre, c, rfl⟩
  · rfl
  · have hc : myIsdigit c = true := hs c (by simp)
    simp [getSuffix, getSuffixLoop, hc]

theorem findBody_printed (neg : Bool) {body : List UInt8}
    (hhead : ∀ c ∈ body.head?, myIsdigit c = true) (hne : body ≠ []) (hlast : EndsInDigit body) :
    findBody ((if neg then ['-'.toUInt8] else []) ++ body) = (false, neg, 0, body) := by
  obtain ⟨d, rest, rfl⟩ := List.exists_cons_of_ne_nil hne
  have hd := hhead d rfl
  obtain ⟨hpd, hsd, -, -⟩ := digit_classes hd
  have hskip : (d :: rest).dropWhile myIsspace = d :: rest := by simp [hsd]
  -- a digit is no sign: both signs are punctuation
  have hsign : getSign (d :: rest) = (false, d :: rest) := by
    have hminus : d ≠ '-'.toUInt8 := fun h => by rw [h] at hpd; exact absurd hpd (by decide)
    have hplus : d ≠ '+'.toUInt8 := fun h => by rw [h] at hpd; exact absurd hpd (by decide)
    simp [getSign, hminus, hplus]
  have hbody : findBody (d :: rest) = (false, false, 0, d :: rest) := by
    simp [findBody, hskip, hsign, getSuffix_of_endsInDigit hlast, hd]
  cases neg with
  | false => exact hbody
  | true =>
    have hm : myIsspace '-'.toUInt8 = false := by decide
    simp [findBody, hm, getSign, hskip, getSuffix_of_endsInDigit hlast, hd]

/-! ## The date grammar on printed fields -/

theorem DateField.set_get (f : DateField) (t : MysqlTime) : f.set t (f.get t) = t := by
  cases f <;> rfl

theorem chainSteps_cons_of_ok {σ : Type} {f : σ → Bool × σ} (fs : List (σ → Bool × σ))
    {s s' : σ} (h : f s = (false, s')) : chainSteps (f :: fs) s = chainSteps fs s' := by
  rw [chainSteps, h]
  rfl

/-- `get_number` on a printed field sets the field to the printed value. -/
theorem numberStep_decChars (f : DateField) (t : MysqlTime) (n : Nat) {w v : Nat}
    {rest : List UInt8} (hw : w ≠ 0) (hv : v < 10 ^ w) (hv32 : v < 2 ^ 32)
    (hrest : NoDigitAhead rest) :
    numberStep f ⟨t, n, decChars w v ++ rest⟩ = (false, ⟨f.set t v, n + 1, rest⟩) := by
  rw [numberStep]
  dsimp only
  rw [getNumber_digits _ _ (digitRun_decChars hw v) hrest, runValue_decChars,
    Nat.mod_eq_of_lt hv, Nat.mod_eq_of_lt hv32]

/-- At the end of the text a field keeps its value and is not counted. -/
theorem numberStep_nil (f : DateField) (t : MysqlTime) (n : Nat) :
    numberStep f ⟨t, n, []⟩ = (false, ⟨t, n, []⟩) := by
  simp [numberStep, getNumber, DateField.set_get]

theorem punctStep_punct (t : MysqlTime) (n : Nat) {c : UInt8} (s : List UInt8)
    (hc : myIspunct c = true) : punctStep ⟨t, n, c :: s⟩ = (false, ⟨t, n, s⟩) := by
  simp [punctStep, getPunct, hc]

theorem punctStep_nil (t : MysqlTime) (n : Nat) : punctStep ⟨t, n, []⟩ = (false, ⟨t, n, []⟩) :=
  rfl

/-- A space between the date and the time, before a digit. -/
theorem separatorStep_space (t : MysqlTime) (n : Nat) {s : List UInt8}
    (hs : ∀ c ∈ s.head?, myIsdigit c = true) :
    separatorStep true ⟨t, n, ' '.toUInt8 :: s⟩ = (false, ⟨t, n, s⟩) := by
  have hdrop : s.dropWhile myIsspace = s := by
    cases s with
    | nil => rfl
    | cons c s => simp [(digit_classes (hs c rfl)).2.1]
  have hT : ' '.toUInt8 ≠ 'T'.toUInt8 := by decide
  simp [separatorStep, getDateTimeSeparator, hT, separator_classes, hdrop]

theorem separatorStep_nil (p : Bool) (t : MysqlTime) (n : Nat) :
    separatorStep p ⟨t, n, []⟩ = (false, ⟨t, n, []⟩) :=
  rfl

/-- A text that starts with a field and a separator other than `T` and `.` is read in the
delimited format, the first field as the year and its length as the year's. -/
theorem strToDatetimeOrDateBody_delimited (flags : Nat) (p : Bool) (status : TimeStatus)
    {w v : Nat} {c : UInt8} {R : List UInt8} (hw : w ≠ 0) (hv : v < 10 ^ w) (hv32 : v < 2 ^ 32)
    (hc : myIsdigit c = false) (hT : c ≠ 'T'.toUInt8) (hdot : c ≠ '.'.toUInt8) :
    strToDatetimeOrDateBody (decChars w v ++ c :: R) flags p status =
      finishDateBody flags w
        (if (chainSteps (delimitedSteps p) ⟨⟨v, 0, 0, 0, 0, 0, 0, false, .date⟩, 1, c :: R⟩).1 then
          mysqlTimeWarnTruncated else 0) status
        (chainSteps (delimitedSteps p) ⟨⟨v, 0, 0, 0, 0, 0, 0, false, .date⟩, 1, c :: R⟩).2 := by
  have hrest := noDigitAhead_cons R hc
  have hlen : (decChars w v ++ c :: R).length - (c :: R).length = w := by simp
  rw [strToDatetimeOrDateBody, skipDigits_digits (digits_decChars w v) hrest]
  simp only [hT, hdot, if_false, false_and, reduceCtorEq]
  rw [numberStep_decChars .year bzeroTime 0 hw hv hv32 hrest]
  simp only [hlen]
  rfl

theorem chainSteps_cons_of_error {σ : Type} {f : σ → Bool × σ} (fs : List (σ → Bool × σ))
    {s s' : σ} (h : f s = (true, s')) : chainSteps (f :: fs) s = (true, s') := by
  rw [chainSteps, h]
  rfl

theorem head_decChars_append {w : Nat} (hw : w ≠ 0) (v : Nat) (s : List UInt8) :
    ∀ c ∈ (decChars w v ++ s).head?, myIsdigit c = true := by
  intro c hc
  rw [List.head?_append_of_ne_nil _ (digitRun_decChars hw v).1] at hc
  exact digits_decChars w v c (List.mem_of_mem_head? hc)

/-- The delimited steps after the year on a printed `-MM-DD hh:mm:ss`: six fields, and the
rest is what followed the seconds. -/
theorem delimitedSteps_datetime (t : MysqlTime) {mo d h mi s : Nat} (hmo : mo < 100)
    (hd : d < 100) (hh : h < 100) (hmi : mi < 100) (hs : s < 100) {F : List UInt8}
    (hF : NoDigitAhead F) :
    chainSteps (delimitedSteps true)
        ⟨t, 1, '-'.toUInt8 :: (decChars 2 mo ++ '-'.toUInt8 :: (decChars 2 d ++ ' '.toUInt8 ::
          (decChars 2 h ++ ':'.toUInt8 :: (decChars 2 mi ++ ':'.toUInt8 :: (decChars 2 s ++ F)))))⟩ =
      (false, ⟨{ t with month := mo, day := d, hour := h, minute := mi, second := s }, 6, F⟩) := by
  obtain ⟨hpm, hpc, -, hdm, hdc, -, hds, -⟩ := separator_classes
  rw [delimitedSteps, chainSteps_cons_of_ok _ (punctStep_punct _ _ _ hpm),
    chainSteps_cons_of_ok _ (numberStep_decChars .month _ _ (by norm_num) hmo (by omega)
      (noDigitAhead_cons _ hdm)),
    chainSteps_cons_of_ok _ (punctStep_punct _ _ _ hpm),
    chainSteps_cons_of_ok _ (numberStep_decChars .day _ _ (by norm_num) hd (by omega)
      (noDigitAhead_cons _ hds)),
    chainSteps_cons_of_ok _ (separatorStep_space _ _ (head_decChars_append (by norm_num) h _)),
    chainSteps_cons_of_ok _ (numberStep_decChars .hour _ _ (by norm_num) hh (by omega)
      (noDigitAhead_cons _ hdc)),
    chainSteps_cons_of_ok _ (punctStep_punct _ _ _ hpc),
    chainSteps_cons_of_ok _ (numberStep_decChars .minute _ _ (by norm_num) hmi (by omega)
      (noDigitAhead_cons _ hdc)),
    chainSteps_cons_of_ok _ (punctStep_punct _ _ _ hpc),
    chainSteps_cons_of_ok _ (numberStep_decChars .second _ _ (by norm_num) hs (by omega) hF)]
  rfl

/-- The delimited steps after the year on a printed `-MM-DD`: three fields, and the steps of
the time read nothing at the end of the text. -/
theorem delimitedSteps_date (t : MysqlTime) {mo d : Nat} (hmo : mo < 100) (hd : d < 100) :
    chainSteps (delimitedSteps true)
        ⟨t, 1, '-'.toUInt8 :: (decChars 2 mo ++ '-'.toUInt8 :: decChars 2 d)⟩ =
      (false, ⟨{ t with month := mo, day := d }, 3, []⟩) := by
  obtain ⟨hpm, -, -, hdm, -⟩ := separator_classes
  rw [← List.append_nil (decChars 2 d), delimitedSteps,
    chainSteps_cons_of_ok _ (punctStep_punct _ _ _ hpm),
    chainSteps_cons_of_ok _ (numberStep_decChars .month _ _ (by norm_num) hmo (by omega)
      (noDigitAhead_cons _ hdm)),
    chainSteps_cons_of_ok _ (punctStep_punct _ _ _ hpm),
    chainSteps_cons_of_ok _ (numberStep_decChars .day _ _ (by norm_num) hd (by omega)
      noDigitAhead_nil),
    chainSteps_cons_of_ok _ (separatorStep_nil _ _ _), chainSteps_cons_of_ok _ (numberStep_nil _ _ _),
    chainSteps_cons_of_ok _ (punctStep_nil _ _), chainSteps_cons_of_ok _ (numberStep_nil _ _ _),
    chainSteps_cons_of_ok _ (punctStep_nil _ _), chainSteps_cons_of_ok _ (numberStep_nil _ _ _)]
  rfl

/-! ## The fraction -/

/-- `get_microseconds` on a run of at most six digits: the run scaled to microseconds, its
length as the precision, and no warning. -/
theorem getMicroseconds_digits (status : TimeStatus) (n : Nat) {cs : List UInt8}
    (hcs : DigitRun cs) (hlen : cs.length ≤ 6) :
    getMicroseconds status n cs =
      (runValue cs % 2 ^ 32 * 10 ^ (6 - cs.length), { status with precision := cs.length },
        n + 1, []) := by
  have hd := getDigits_digits 0 n hcs hlen noDigitAhead_nil
  rw [List.append_nil] at hd
  have hscale : (if cs.length < 6 then runValue cs % 2 ^ 32 * 10 ^ (6 - cs.length)
      else runValue cs % 2 ^ 32) = runValue cs % 2 ^ 32 * 10 ^ (6 - cs.length) := by
    split_ifs with h6
    · rfl
    · rw [show 6 - cs.length = 0 by omega, pow_zero, mul_one]
  simp only [getMicroseconds, hd, Bool.false_eq_true, if_false, List.length_nil, Nat.sub_zero, hscale]
  rfl

/-- The printed leading digits of a fraction, scaled back, are the fraction, when it is a
multiple of the unit of its last digit. -/
theorem fracValue_eq {digits secondPart : Nat} (hd : digits ≤ 6) (hsp : secondPart ≤ 999999)
    (hdvd : 10 ^ (6 - digits) ∣ secondPart) :
    runValue (decChars digits (secondPart / 10 ^ (6 - digits))) % 2 ^ 32 * 10 ^ (6 - digits) =
      secondPart := by
  have hlt := secPartShift_lt hd hsp
  have h32 : secondPart / 10 ^ (6 - digits) < 2 ^ 32 := by
    have : 10 ^ digits ≤ 10 ^ 6 := Nat.pow_le_pow_right (by norm_num) hd
    omega
  rw [runValue_decChars, Nat.mod_eq_of_lt hlt, Nat.mod_eq_of_lt h32, Nat.div_mul_cancel hdvd]

/-- The fraction of a `DATE` or `DATETIME` text: the `.` and its digits are read into
`second_part` and counted as a field, with no warning. -/
theorem dateFraction_fracText (status : TimeStatus) (tm : MysqlTime) (n : Nat)
    {digits secondPart : Nat} (hd : digits ≤ 6) (hsp : secondPart ≤ 999999)
    (hdvd : 10 ^ (6 - digits) ∣ secondPart) (h0 : tm.secondPart = 0) :
    ∃ st, dateFraction 0 status ⟨tm, n, fracText digits secondPart⟩ =
        ({ tm with secondPart := secondPart }, st, if digits = 0 then n else n + 1, []) ∧
      st.warnings = status.warnings := by
  by_cases hz : digits = 0
  · -- no fraction: the microseconds are a multiple of `10 ^ 6`, so zero
    have hsp0 : secondPart = 0 := by
      rw [hz] at hdvd
      exact Nat.eq_zero_of_dvd_of_lt hdvd (by norm_num; omega)
    have heta : { tm with secondPart := 0 } = tm := by
      cases tm
      simp_all
    refine ⟨status, ?_, rfl⟩
    rw [fracText, if_neg (by simpa using hz), hsp0, if_pos hz, heta]
    rfl
  · refine ⟨{ status with precision := digits }, ?_, rfl⟩
    rw [fracText, if_pos hz, dateFraction, if_neg hz]
    simp only [true_and, if_true]
    rw [getMicroseconds_digits _ _ (digitRun_decChars hz _) (by simpa using hd), length_decChars,
      fracValue_eq hd hsp hdvd]

/-! ## The checks of a date -/

/-- The day of a value fits its month, when month and day are given. -/
def DayFitsMonth (t : MysqlTime) : Prop :=
  t.month ≠ 0 → t.day ≠ 0 → t.day ≤ calcDaysInMonth t.year t.month

instance (t : MysqlTime) : Decidable (DayFitsMonth t) := by
  unfold DayFitsMonth
  infer_instance

/-- `check_date` with no flags passes a date that is not negative and whose day fits its month:
the 29th of February passes in a leap year only. -/
theorem checkDate_of_fits {t : MysqlTime} (nz : Bool) (wasCut : Nat) (htype : t.timeType ≠ .time)
    (hneg : t.neg = false) (hfits : DayFitsMonth t) : checkDate t nz 0 wasCut = (false, wasCut) := by
  have hbad : ¬(t.month ≠ 0 ∧ t.day > daysInMonth.getD (t.month - 1) 0 ∧
      (t.month ≠ 2 ∨ calcDaysInYear t.year ≠ 366 ∨ t.day ≠ 29)) := by
    rintro ⟨hm, hgt, hfeb⟩
    have hle := hfits hm (by omega)
    rw [calcDaysInMonth_eq] at hle
    split_ifs at hle with hleap
    · -- a leap February: the day is the 29th, which `calc_days_in_year` allows
      have hyear : calcDaysInYear t.year = 366 := by simp [calcDaysInYear, hleap.2]
      rw [hleap.1] at hgt hle
      have h28 : daysInMonth.getD (2 - 1) 0 = 28 := rfl
      omega
    · omega
  unfold checkDate
  rw [if_neg htype]
  split_ifs with hnz hcond hzero
  · exfalso
    rcases hcond with h | h | h
    · simp [cTimeNoZeroInDate] at h
    · simp [hneg] at h
    · exact hbad h.2
  · rfl
  · simp [cTimeNoZeroDate] at hzero
  · rfl

/-- The end of the date grammar on a date in range with nothing left: no error, and the type by
the number of fields. -/
theorem dateChecks_printed (status : TimeStatus) {yearLength : Nat} (hyl : yearLength ≠ 2)
    (n : Nat) (tm : MysqlTime) (hrange : tm.year ≤ 9999 ∧ tm.month ≤ 12 ∧ tm.day ≤ 31 ∧
      tm.hour ≤ 23 ∧ tm.minute ≤ 59 ∧ tm.second ≤ 59)
    (htype : tm.timeType ≠ .time) (hneg : tm.neg = false) (hfits : DayFitsMonth tm) :
    dateChecks 0 yearLength tm status n [] =
      ⟨false, { tm with timeType := if n ≤ 3 then .date else .datetime }, status, n, []⟩ := by
  obtain ⟨hy, hm, hd, hh, hmi, hs⟩ := hrange
  have hout : ¬(tm.year > 9999 ∨ tm.month > 12 ∨ tm.day > 31 ∨ tm.hour > 23 ∨ tm.minute > 59 ∨
      tm.second > 59) := by omega
  simp only [dateChecks, hyl, false_and, if_false, hout, checkDate_of_fits _ _ htype hneg hfits,
    ne_eq, not_true_eq_false]
  rfl

theorem TimeStatus.warn_zero (st : TimeStatus) : st.warn 0 = st := by
  cases st
  simp [TimeStatus.warn]

/-- `set_neg` of a value read without a sign. -/
theorem setNeg_false (st : TimeStatus) (t : MysqlTime) :
    setNeg false st t = (false, st, { t with neg := false }) := by
  simp [setNeg]

/-! ## Printed text ends in a digit -/

theorem endsInDigit_append_decChars (pre : List UInt8) {w : Nat} (hw : w ≠ 0) (v : Nat) :
    EndsInDigit (pre ++ decChars w v) := by
  intro c hc
  rw [List.getLast?_append_of_ne_nil _ (digitRun_decChars hw v).1] at hc
  exact digits_decChars w v c (List.mem_of_getLast? hc)

theorem endsInDigit_append_cons_decChars (pre : List UInt8) (c : UInt8) {w : Nat} (hw : w ≠ 0)
    (v : Nat) : EndsInDigit (pre ++ c :: decChars w v) := by
  rw [List.append_cons]
  exact endsInDigit_append_decChars _ hw _

/-- A printed text ends with a field and, maybe, a fraction: its last character is a digit. -/
theorem endsInDigit_printed (pre : List UInt8) (c : UInt8) {w : Nat} (hw : w ≠ 0)
    (v digits secondPart : Nat) :
    EndsInDigit (pre ++ c :: decChars w v ++ fracText digits secondPart) := by
  unfold fracText
  split_ifs with hz
  · rw [List.append_cons _ '.'.toUInt8]
    exact endsInDigit_append_decChars _ hz _
  · rw [List.append_nil]
    exact endsInDigit_append_cons_decChars _ _ hw _

/-! ## The round trips -/

/-- A parse returned no error, the value `t` and no warning. -/
def ReadsBack (r : Bool × MysqlTime × TimeStatus) (t : MysqlTime) : Prop :=
  r.1 = false ∧ r.2.1 = t ∧ r.2.2.warnings = 0

/-- `str_to_datetime_or_date` on a printed body that ends in a digit: the body is read by
`str_to_datetime_or_date_body`, and only its result remains to be seen. -/
theorem strToDatetimeOrDate_printed {body : List UInt8} {w v : Nat} (hw : w ≠ 0) (R : List UInt8)
    (hbody : body = decChars w v ++ R) (hlast : EndsInDigit body) :
    strToDatetimeOrDate body 0 =
      let r := strToDatetimeOrDateBody body 0 true myTimeStatusInit
      if r.ret then (true, r.time, r.status) else
        let (e, st, t) := setNeg false r.status r.time
        (e, t, st) := by
  have hne : body ≠ [] := by
    rw [hbody]
    exact List.append_ne_nil_of_left_ne_nil (digitRun_decChars hw v).1 R
  have hhead : ∀ c ∈ body.head?, myIsdigit c = true := by
    rw [hbody]
    exact head_decChars_append hw v R
  have hfind := findBody_printed false hhead hne hlast
  simp only [Bool.false_eq_true, if_false, List.nil_append] at hfind
  rw [strToDatetimeOrDate, hfind]
  rfl

/-- A DATETIME printed with `digits` fraction digits reads back as itself. -/
theorem datetime_reads_back {t : MysqlTime} {digits : Nat} (hv : DatetimeValid t)
    (hfits : DayFitsMonth t) (hd : digits ≤ 6) (hdvd : 10 ^ (6 - digits) ∣ t.secondPart) :
    ReadsBack (strToDatetimeOrDate (myDatetimeToStr t digits) 0) t := by
  obtain ⟨hy, hmo, hday, hmi, hs, hsp, hh⟩ := hv.bounds
  obtain ⟨-, -, -, hdm, -, -, -, -, -, -, -⟩ := separator_classes
  have htext := myDatetimeToStr_eq hd (by omega) (by omega) (by omega) (by omega) (by omega)
    (by omega) hsp
  have hlast : EndsInDigit (myDatetimeToStr t digits) := by
    rw [htext]
    exact endsInDigit_printed _ _ (by norm_num) _ _ _
  simp only [List.append_assoc, List.cons_append] at htext
  rw [strToDatetimeOrDate_printed (by norm_num : 4 ≠ 0) _ htext hlast, htext,
    strToDatetimeOrDateBody_delimited 0 true _ (by norm_num) (by omega) (by omega) hdm
      (by decide) (by decide),
    delimitedSteps_datetime _ (by omega) (by omega) (by omega) (by omega) (by omega)
      (noDigitAhead_fracText digits t.secondPart)]
  obtain ⟨st, hfrac, hst⟩ := dateFraction_fracText myTimeStatusInit
    ⟨t.year, t.month, t.day, t.hour, t.minute, t.second, 0, false, .date⟩ 6 hd hsp hdvd rfl
  have hn : ¬(if digits = 0 then 6 else 6 + 1) ≤ 3 := by split_ifs <;> omega
  have hfew : ¬6 < 3 := by decide
  simp only [Bool.false_eq_true, if_false, finishDateBody, TimeStatus.warn_zero, hfrac, hfew]
  rw [dateChecks_printed _ (by norm_num) _
    ⟨t.year, t.month, t.day, t.hour, t.minute, t.second, t.secondPart, false, .date⟩
    ⟨hy, hmo, hday, hh, hmi, hs⟩ (by simp) rfl hfits]
  simp only [hn, if_false, setNeg_false]
  refine ⟨rfl, ?_, hst⟩
  obtain ⟨hneg, htype, -⟩ := hv
  cases t
  simp_all

/-- A DATE value: not negative, in range, with no time of day. -/
structure DateValid (t : MysqlTime) : Prop where
  neg_eq : t.neg = false
  timeType_eq : t.timeType = .date
  range_ok : checkDatetimeRange t = false
  time_zero : t.hour = 0 ∧ t.minute = 0 ∧ t.second = 0 ∧ t.secondPart = 0

/-- A DATE printed by `my_date_to_str` reads back as itself. -/
theorem date_reads_back {t : MysqlTime} (hv : DateValid t) (hfits : DayFitsMonth t) :
    ReadsBack (strToDatetimeOrDate (myDateToStr t) 0) t := by
  obtain ⟨hy, hmo, hday, -, -, -, -⟩ := (checkDatetimeRange_eq_false t).mp hv.range_ok
  obtain ⟨-, -, -, hdm, -⟩ := separator_classes
  have htext := myDateToStr_eq (t := t) (by omega) (by omega) (by omega)
  have hlast : EndsInDigit (myDateToStr t) := by
    rw [htext]
    exact endsInDigit_append_cons_decChars _ _ (by norm_num) _
  simp only [List.append_assoc, List.cons_append] at htext
  rw [strToDatetimeOrDate_printed (by norm_num : 4 ≠ 0) _ htext hlast, htext,
    strToDatetimeOrDateBody_delimited 0 true _ (by norm_num) (by omega) (by omega) hdm
      (by decide) (by decide),
    delimitedSteps_date _ (by omega) (by omega)]
  have hfew : ¬3 < 3 := by decide
  simp only [Bool.false_eq_true, if_false, finishDateBody, TimeStatus.warn_zero, hfew, dateFraction]
  rw [dateChecks_printed _ (by norm_num) _ ⟨t.year, t.month, t.day, 0, 0, 0, 0, false, .date⟩
    ⟨hy, hmo, hday, Nat.zero_le _, Nat.zero_le _, Nat.zero_le _⟩ (by simp) rfl hfits]
  simp only [le_refl, if_true, setNeg_false]
  refine ⟨rfl, ?_, rfl⟩
  obtain ⟨hneg, htype, -, hh, hmi, hs, hsp⟩ := hv
  cases t
  simp_all

/-! ## The time grammar on printed fields -/

theorem runValue_cons (c : UInt8) (cs : List UInt8) :
    runValue (c :: cs) = digitOf c * 10 ^ cs.length + runValue cs := by
  simp [runValue, digitsVal_cons]

/-- The days loop over a run of digits whose value stays below its bound. Induction on the run;
every value on the way is below the last. -/
theorem ddDaysLoop_digits {v : Nat} {cs rest : List UInt8} (hcs : ∀ c ∈ cs, myIsdigit c = true)
    (hrest : NoDigitAhead rest) (hv : v * 10 ^ cs.length + runValue cs < 42949672955959) :
    ddDaysLoop v (cs ++ rest) = .ok (v * 10 ^ cs.length + runValue cs, rest) := by
  induction cs generalizing v with
  | nil =>
    have hloop : ddDaysLoop v rest = .ok (v, rest) := by
      cases rest with
      | nil => rfl
      | cons c rest => simp [ddDaysLoop, hrest c rfl]
    simpa [runValue] using hloop
  | cons c cs ih =>
    have hc := hcs c (by simp)
    have hsplit : (v * 10 + digitOf c) * 10 ^ cs.length + runValue cs =
        v * 10 ^ (c :: cs).length + runValue (c :: cs) := by
      rw [runValue_cons, List.length_cons, pow_succ]
      ring
    have hle : v * 10 + digitOf c ≤ (v * 10 + digitOf c) * 10 ^ cs.length + runValue cs :=
      le_add_right (Nat.le_mul_of_pos_right _ (Nat.pow_pos (by norm_num)))
    rw [List.cons_append, ddDaysLoop, if_pos hc]
    dsimp only
    rw [if_neg (by omega), ih (fun x hx => hcs x (by simp [hx])) (by omega), hsplit]

/-- The loop of the hours, minutes and seconds over a run of digits, modulo `2^64`. -/
theorem ddValueLoop_digits {a : Nat} (ha : a < 2 ^ 64) {cs rest : List UInt8}
    (hcs : ∀ c ∈ cs, myIsdigit c = true) (hrest : NoDigitAhead rest) :
    ddValueLoop a (cs ++ rest) = ((a * 10 ^ cs.length + runValue cs) % 2 ^ 64, rest) := by
  induction cs generalizing a with
  | nil =>
    have hloop : ddValueLoop a rest = (a, rest) := by
      cases rest with
      | nil => rfl
      | cons c rest => simp [ddValueLoop, hrest c rfl]
    simp only [List.nil_append, hloop, List.length_nil, pow_zero, mul_one, runValue, List.map_nil,
      digitsVal_nil, add_zero, Nat.mod_eq_of_lt ha]
  | cons c cs ih =>
    have hc := hcs c (by simp)
    rw [List.cons_append, ddValueLoop, if_pos hc,
      ih (Nat.mod_lt _ (by norm_num)) (fun x hx => hcs x (by simp [hx])), mod_mul_add_mod,
      runValue_cons, List.length_cons, pow_succ]
    congr 2
    ring

/-- A printed field read by the loop of the hours, minutes and seconds. -/
theorem ddValueLoop_decChars {w v : Nat} (hv : v < 10 ^ w) (hv64 : v < 2 ^ 64) {rest : List UInt8}
    (hrest : NoDigitAhead rest) : ddValueLoop 0 (decChars w v ++ rest) = (v, rest) := by
  rw [ddValueLoop_digits (by norm_num) (digits_decChars w v) hrest, runValue_decChars,
    Nat.mod_eq_of_lt hv, zero_mul, zero_add, Nat.mod_eq_of_lt hv64]

/-- The loop from the minutes on over a printed `MM:SS`: it reads both and stops in state 4. -/
theorem ddHmsLoop_printed (date : List Nat) {mi s : Nat} (hmi : mi < 100) (hs : s < 100)
    {F : List UInt8} (hF : NoDigitAhead F) :
    ddHmsLoop 2 date 2 (decChars 2 mi ++ ':'.toUInt8 :: (decChars 2 s ++ F)) =
      ((date.set 2 mi).set 3 s, 4, F) := by
  obtain ⟨-, -, -, -, hdc, -⟩ := separator_classes
  -- the seconds follow the colon
  have hnext : myIsdigit ((':'.toUInt8 :: (decChars 2 s ++ F)).getD 1 0) = true := by
    obtain ⟨c, rest, hcs⟩ := List.exists_cons_of_ne_nil
      (List.append_ne_nil_of_left_ne_nil (digitRun_decChars (by norm_num : 2 ≠ 0) s).1 F)
    have hc := head_decChars_append (by norm_num : 2 ≠ 0) s F c (by rw [hcs]; rfl)
    rw [hcs]
    exact hc
  have hgo : ¬(2 + 1 = 4 ∨ (':'.toUInt8 :: (decChars 2 s ++ F)).length < 2 ∨
      (':'.toUInt8 :: (decChars 2 s ++ F)).head? ≠ some ':'.toUInt8 ∨
      !myIsdigit ((':'.toUInt8 :: (decChars 2 s ++ F)).getD 1 0)) := by
    rintro (h | h | h | h)
    · omega
    · simp only [List.length_cons, List.length_append, length_decChars] at h
      omega
    · exact h rfl
    · rw [hnext] at h
      exact absurd h (by decide)
  rw [ddHmsLoop]
  dsimp only
  rw [ddValueLoop_decChars hmi (by omega) (noDigitAhead_cons _ hdc), if_neg hgo, List.drop_one,
    List.tail_cons, ddHmsLoop]
  dsimp only
  rw [ddValueLoop_decChars hs (by omega) hF, if_pos (Or.inl rfl)]

/-- `check_time_range_internal` passes a TIME value with no days, minutes and seconds below 60
and an hour up to `max_hour` and `err_hour`. -/
theorem checkTimeRangeInternal_ok {t : MysqlTime} {maxHour errHour : Nat} (w : Nat)
    (hm : t.minute < 60) (hs : t.second < 60) (hmax : t.hour ≤ maxHour) (herr : t.hour ≤ errHour)
    (hday : t.day = 0) (hsp : t.secondPart ≤ 999999) :
    checkTimeRangeInternal t maxHour errHour 6 w = (false, t, w) := by
  have hauto : (6 : Nat) ≠ autoSecPartDigits := by decide
  have hsec : maxSecPart.getD 6 0 = 999999 := rfl
  rw [checkTimeRangeInternal, if_neg (by omega), if_neg hauto]
  dsimp only
  rw [hday, hsec, if_pos (by omega)]

/-- The fraction of a printed TIME and the end of `str_to_DDhhmmssff_internal`: the fields
are taken as they were read, with no warning. -/
theorem ddFractional_printed (t : MysqlTime) {maxHour errHour : Nat} (status : TimeStatus)
    {h mi s digits secondPart : Nat} (hh : h < 1000) (hmax : h ≤ maxHour) (herr : h ≤ errHour)
    (hmi : mi < 60) (hs : s < 60) (hd : digits ≤ 6) (hsp : secondPart ≤ 999999)
    (hdvd : 10 ^ (6 - digits) ∣ secondPart) :
    ∃ st, ddFractional t maxHour errHour status [0, h, mi, s, 0] (fracText digits secondPart) =
        ⟨false, ⟨0, 0, 0, h, mi, s, secondPart, t.neg, .time⟩, st, []⟩ ∧
      st.warnings = status.warnings := by
  have hall : [0, h, mi, s, secondPart].any (· > uintMax32) = false := by
    simp [uintMax32]
    omega
  have hhours : ¬([0, h, mi, s, secondPart].getD 0 0 * 24 + [0, h, mi, s, secondPart].getD 1 0 >
      uintMax32) := by
    simp [uintMax32]
    omega
  have hrange := checkTimeRangeInternal_ok (t := ⟨0, 0, 0, h, mi, s, secondPart, t.neg, .time⟩)
    status.warnings hmi hs (by simpa using hmax) (by simpa using herr) rfl hsp
  by_cases hz : digits = 0
  · have hsp0 : secondPart = 0 := by
      rw [hz] at hdvd
      exact Nat.eq_zero_of_dvd_of_lt hdvd (by norm_num; omega)
    subst hsp0
    refine ⟨status, ?_, rfl⟩
    simp only [fracText, hz, ne_eq, not_true_eq_false, if_false]
    unfold ddFractional
    simp only [List.set, List.length_nil, gt_iff_lt, Nat.not_lt_zero, false_and, if_false,
      internalFormatPositions7, ne_eq, not_true_eq_false, hall, Bool.false_eq_true, hhours]
    simp [hrange]
  · refine ⟨{ status with precision := digits }, ?_, rfl⟩
    simp only [fracText, hz, ne_eq, not_false_eq_true, if_true]
    unfold ddFractional
    simp only [if_true]
    rw [getMicroseconds_digits _ _ (digitRun_decChars hz _) (by simpa using hd), length_decChars,
      fracValue_eq hd hsp hdvd]
    simp only [List.set, List.length_nil, gt_iff_lt, Nat.not_lt_zero, false_and, if_false,
      internalFormatPositions7, ne_eq, not_true_eq_false, hall, Bool.false_eq_true, hhours]
    simp [hrange]

/-- `str_to_DDhhmmssff_internal` on a printed `hh:MM:SS` and fraction: the hours are found
after the first field, and every field is read as printed. -/
theorem strToDDhhmmssffInternal_printed (lTime : MysqlTime) {maxHour errHour : Nat}
    (status : TimeStatus) {w h mi s digits secondPart : Nat} (hhw : h < 10 ^ w)
    (hh : h < 1000) (hmax : h ≤ maxHour) (herr : h ≤ errHour) (hmi : mi < 60) (hs : s < 60)
    (hd : digits ≤ 6) (hsp : secondPart ≤ 999999) (hdvd : 10 ^ (6 - digits) ∣ secondPart) :
    ∃ st, strToDDhhmmssffInternal false (decChars w h ++ ':'.toUInt8 :: (decChars 2 mi ++
        ':'.toUInt8 :: (decChars 2 s ++ fracText digits secondPart))) lTime maxHour errHour status =
        ⟨false, ⟨0, 0, 0, h, mi, s, secondPart, false, .time⟩, st, []⟩ ∧
      st.warnings = status.warnings := by
  obtain ⟨-, -, -, -, hdc, -, -, -, -, -, hsc⟩ := separator_classes
  have hdays : ddDaysLoop 0 (decChars w h ++ ':'.toUInt8 :: (decChars 2 mi ++
      ':'.toUInt8 :: (decChars 2 s ++ fracText digits secondPart))) =
      .ok (h, ':'.toUInt8 :: (decChars 2 mi ++
        ':'.toUInt8 :: (decChars 2 s ++ fracText digits secondPart))) := by
    rw [ddDaysLoop_digits (digits_decChars w h) (noDigitAhead_cons _ hdc)
      (by rw [runValue_decChars, Nat.mod_eq_of_lt hhw]; omega), runValue_decChars,
      Nat.mod_eq_of_lt hhw, zero_mul, zero_add]
  -- the minutes follow the colon
  have hnext : myIsdigit ((':'.toUInt8 :: (decChars 2 mi ++
      ':'.toUInt8 :: (decChars 2 s ++ fracText digits secondPart))).getD 1 0) = true := by
    obtain ⟨c, rest, hcs⟩ := List.exists_cons_of_ne_nil
      (List.append_ne_nil_of_left_ne_nil (digitRun_decChars (by norm_num : 2 ≠ 0) mi).1
        (':'.toUInt8 :: (decChars 2 s ++ fracText digits secondPart)))
    rw [List.getD_cons_succ, hcs]
    exact head_decChars_append (by norm_num : 2 ≠ 0) mi _ c (by rw [hcs]; rfl)
  have hhours : ((([0, 0, 0, 0, 0].set 0 0).set 1 h).set 2 mi).set 3 s = [0, h, mi, s, 0] := rfl
  unfold strToDDhhmmssffInternal
  rw [hdays]
  dsimp only
  rw [List.dropWhile_cons_of_neg (by simp [hsc]), if_neg (by simp), if_pos ⟨by simp, rfl, hnext⟩,
    if_neg (by unfold uintMax32; omega), List.drop_one, List.tail_cons,
    ddHmsLoop_printed _ (by omega) (by omega) (noDigitAhead_fracText digits secondPart), hhours]
  exact ddFractional_printed _ status hh hmax herr hmi hs hd hsp hdvd

/-! ## Telling a printed TIME from a date -/

/-- No character of the text is `T` or a space, the two that can separate a date from a time. -/
def NoDateSeparator (s : List UInt8) : Prop := ∀ c ∈ s, c ≠ 'T'.toUInt8 ∧ c ≠ ' '.toUInt8

theorem noDateSeparator_append {s t : List UInt8} (hs : NoDateSeparator s)
    (ht : NoDateSeparator t) : NoDateSeparator (s ++ t) := by
  intro c hc
  rcases List.mem_append.mp hc with hc | hc
  · exact hs c hc
  · exact ht c hc

theorem noDateSeparator_cons {c : UInt8} {s : List UInt8} (hc : c ≠ 'T'.toUInt8 ∧ c ≠ ' '.toUInt8)
    (hs : NoDateSeparator s) : NoDateSeparator (c :: s) := by
  intro x hx
  rcases List.mem_cons.mp hx with rfl | hx
  · exact hc
  · exact hs x hx

theorem noDateSeparator_decChars (w v : Nat) : NoDateSeparator (decChars w v) := by
  intro c hc
  have hd := digits_decChars w v c hc
  refine ⟨(digit_classes hd).2.2.1, ?_⟩
  rintro rfl
  exact absurd hd (by decide)

theorem noDateSeparator_fracText (digits secondPart : Nat) :
    NoDateSeparator (fracText digits secondPart) := by
  unfold fracText
  split_ifs
  · exact noDateSeparator_cons (by decide) (noDateSeparator_decChars _ _)
  · intro c hc
    simp at hc

/-- Without `T` and spaces, `is_datetime_body_candidate` finds no date in the loop. Induction on
the text, the count of punctuation being any. -/
theorem isDatetimeBodyCandidateLoop_false :
    ∀ (s : List UInt8) (countPunct : Nat), NoDateSeparator s →
      isDatetimeBodyCandidateLoop false false s countPunct = false
  | [], _, _ => rfl
  | c :: s, countPunct, hs => by
    have hc := hs c (by simp)
    have ht : NoDateSeparator s := fun x hx => hs x (by simp [hx])
    rw [isDatetimeBodyCandidateLoop, if_neg hc.1, if_neg hc.2]
    by_cases hp : myIspunct c = true
    · rw [if_pos hp, if_neg (by simp)]
      exact isDatetimeBodyCandidateLoop_false s _ ht
    · rw [if_neg hp]
      exact isDatetimeBodyCandidateLoop_false s _ ht

/-- A text without `T` and spaces is a candidate for a date only when it has twelve
characters or more. -/
theorem length_of_isDatetimeBodyCandidate {s : List UInt8} (hs : NoDateSeparator s)
    (h : isDatetimeBodyCandidate s false false = true) : 12 ≤ s.length := by
  by_contra hlt
  rw [isDatetimeBodyCandidate, if_neg hlt] at h
  simp [isDatetimeBodyCandidateLoop_false s 0 hs] at h

/-- A punctuation character where the date grammar wants the space before the time is a hard
error, and the fields read so far are forgotten. -/
theorem separatorStep_punct (t : MysqlTime) (n : Nat) {c : UInt8} (s : List UInt8)
    (hc : myIspunct c = true) (hT : c ≠ 'T'.toUInt8) :
    separatorStep false ⟨t, n, c :: s⟩ = (true, ⟨t, 0, c :: s⟩) := by
  simp [separatorStep, getDateTimeSeparator, hT, hc]

/-- The delimited steps after the first field of a printed `hh:MM:SS.ff`: the minutes and
seconds are read as month and day, and the `.` stops the grammar with no field counted. -/
theorem delimitedSteps_time (t : MysqlTime) {mi s : Nat} (hmi : mi < 100) (hs : s < 100)
    (D : List UInt8) :
    chainSteps (delimitedSteps false)
        ⟨t, 1, ':'.toUInt8 :: (decChars 2 mi ++ ':'.toUInt8 :: (decChars 2 s ++ '.'.toUInt8 :: D))⟩ =
      (true, ⟨{ t with month := mi, day := s }, 0, '.'.toUInt8 :: D⟩) := by
  obtain ⟨-, hpc, hpd, -, hdc, hdd, -⟩ := separator_classes
  rw [delimitedSteps, chainSteps_cons_of_ok _ (punctStep_punct _ _ _ hpc),
    chainSteps_cons_of_ok _ (numberStep_decChars .month _ _ (by norm_num) hmi (by omega)
      (noDigitAhead_cons _ hdc)),
    chainSteps_cons_of_ok _ (punctStep_punct _ _ _ hpc),
    chainSteps_cons_of_ok _ (numberStep_decChars .day _ _ (by norm_num) hs (by omega)
      (noDigitAhead_cons _ hdd)),
    chainSteps_cons_of_error _ (separatorStep_punct _ _ _ hpd (by decide))]
  rfl

/-- `str_to_datetime_or_date_or_time_body` on the body of a printed TIME: a long body is tried as
a date and given up at the `.` of its fraction, and either way the time grammar reads it. -/
theorem strToDatetimeOrDateOrTimeBody_time (fuzzydate : Nat) {maxHour errHour : Nat}
    {w h mi s digits secondPart : Nat} (hw : w ≠ 0) (hw3 : w ≤ 3) (hhw : h < 10 ^ w)
    (hmax : h ≤ maxHour) (herr : h ≤ errHour) (hmi : mi < 60) (hs : s < 60) (hd : digits ≤ 6)
    (hsp : secondPart ≤ 999999) (hdvd : 10 ^ (6 - digits) ∣ secondPart) :
    ∃ st, strToDatetimeOrDateOrTimeBody (decChars w h ++ ':'.toUInt8 :: (decChars 2 mi ++
        ':'.toUInt8 :: (decChars 2 s ++ fracText digits secondPart))) bzeroTime fuzzydate
        myTimeStatusInit maxHour errHour false false =
        (false, ⟨0, 0, 0, h, mi, s, secondPart, false, .time⟩, st) ∧ st.warnings = 0 := by
  have hh : h < 1000 := lt_of_lt_of_le hhw (Nat.pow_le_pow_right (by norm_num) hw3)
  have hsep : NoDateSeparator (decChars w h ++ ':'.toUInt8 :: (decChars 2 mi ++
      ':'.toUInt8 :: (decChars 2 s ++ fracText digits secondPart))) :=
    noDateSeparator_append (noDateSeparator_decChars w h) (noDateSeparator_cons (by decide)
      (noDateSeparator_append (noDateSeparator_decChars 2 mi) (noDateSeparator_cons (by decide)
        (noDateSeparator_append (noDateSeparator_decChars 2 s) (noDateSeparator_fracText _ _)))))
  unfold strToDatetimeOrDateOrTimeBody
  by_cases hcand : isDatetimeBodyCandidate (decChars w h ++ ':'.toUInt8 :: (decChars 2 mi ++
      ':'.toUInt8 :: (decChars 2 s ++ fracText digits secondPart))) false false = true
  · -- twelve characters need a fraction, and the date grammar stops at its `.`
    have hlong := length_of_isDatetimeBodyCandidate hsep hcand
    have hz : digits ≠ 0 := by
      intro hz
      simp [fracText, hz] at hlong
      omega
    obtain ⟨-, -, -, -, hdc, -⟩ := separator_classes
    have hdate := strToDatetimeOrDateBody_delimited fuzzydate false myTimeStatusInit
      (R := decChars 2 mi ++ ':'.toUInt8 :: (decChars 2 s ++ fracText digits secondPart))
      hw hhw (by omega) hdc (by decide) (by decide)
    rw [fracText, if_pos hz, delimitedSteps_time _ (by omega) (by omega)] at hdate
    rw [if_pos hcand, fracText, if_pos hz, hdate]
    obtain ⟨st, hdd, hst⟩ := strToDDhhmmssffInternal_printed
      ⟨h, mi, s, 0, 0, 0, 0, false, .none⟩
      ⟨myTimeStatusInit.warnings, myTimeStatusInit.precision, myTimeStatusInit.nanoseconds⟩
      hhw hh hmax herr hmi hs hd hsp hdvd
    rw [fracText, if_pos hz] at hdd
    refine ⟨st, ?_, hst⟩
    simp [finishDateBody, hdd]
  · obtain ⟨st, hdd, hst⟩ := strToDDhhmmssffInternal_printed bzeroTime myTimeStatusInit
      hhw hh hmax herr hmi hs hd hsp hdvd
    refine ⟨st, ?_, hst⟩
    rw [if_neg hcand]
    simp [hdd]

theorem setNeg_time (neg : Bool) (st : TimeStatus) {t : MysqlTime} (ht : t.timeType = .time) :
    setNeg neg st t = (false, st, { t with neg := neg }) := by
  simp [setNeg, ht]

/-- A TIME value as the parser makes it: no date part, and the fields in range (the hour up to
`TIME_MAX_HOUR`). -/
structure TimeValid (t : MysqlTime) : Prop where
  timeType_eq : t.timeType = .time
  date_zero : t.year = 0 ∧ t.month = 0 ∧ t.day = 0
  range_ok : checkDatetimeRange t = false

theorem hourWidth_spec (hour : Nat) (hh : hour < 1000) :
    hourWidth hour ≠ 0 ∧ hourWidth hour ≤ 3 ∧ hour < 10 ^ hourWidth hour := by
  unfold hourWidth
  split_ifs <;> simp <;> omega

/-- A TIME printed by `my_time_to_str`, its sign included, reads back as itself through
`str_to_datetime_or_date_or_time`, for every `err_hour` at or above its hour. -/
theorem time_reads_back {t : MysqlTime} {digits : Nat} (mode errHour : Nat) (hv : TimeValid t)
    (hd : digits ≤ 6) (hdvd : 10 ^ (6 - digits) ∣ t.secondPart) (herr : t.hour ≤ errHour) :
    ReadsBack (strToDatetimeOrDateOrTime (myTimeToStr t digits) mode timeMaxHour errHour) t := by
  have hr := (checkDatetimeRange_eq_false t).mp hv.range_ok
  rw [hv.timeType_eq, if_pos rfl] at hr
  obtain ⟨-, -, -, hmi, hs, hsp, hh⟩ := hr
  obtain ⟨hw, hw3, hhw⟩ := hourWidth_spec t.hour (by omega)
  have htext := myTimeToStr_eq hd hv.date_zero (by omega) (by omega) (by omega) hsp
  -- the body without its sign, and its last character
  have hlast : EndsInDigit (decChars (hourWidth t.hour) t.hour ++ ':'.toUInt8 :: (decChars 2 t.minute ++
      ':'.toUInt8 :: (decChars 2 t.second ++ fracText digits t.secondPart))) := by
    have := endsInDigit_printed (decChars (hourWidth t.hour) t.hour ++ ':'.toUInt8 :: decChars 2 t.minute)
      ':'.toUInt8 (by norm_num : 2 ≠ 0) t.second digits t.secondPart
    simpa only [List.append_assoc, List.cons_append] using this
  simp only [List.append_assoc, List.cons_append] at htext
  have hfind := findBody_printed t.neg (head_decChars_append hw t.hour _)
    (List.append_ne_nil_of_left_ne_nil (digitRun_decChars hw t.hour).1 _) hlast
  obtain ⟨st, hbody, hst⟩ := strToDatetimeOrDateOrTimeBody_time mode hw hw3 hhw
    (show t.hour ≤ timeMaxHour by unfold timeMaxHour; omega) herr (show t.minute < 60 by omega)
    (show t.second < 60 by omega) hd hsp hdvd
  have hinit : ({ myTimeStatusInit with warnings := 0 } : TimeStatus) = myTimeStatusInit := rfl
  rw [strToDatetimeOrDateOrTime, htext, hfind]
  dsimp only
  rw [if_neg (by decide), hinit, hbody, if_neg Bool.false_ne_true, setNeg_time _ _ rfl]
  refine ⟨rfl, ?_, hst⟩
  obtain ⟨htype, ⟨hy, hmo, hday⟩, -⟩ := hv
  cases t
  simp_all

/-- The text forms of `DATETIME`, `DATE` and `TIME` values read back as the values. -/
theorem temporal_text_round_trip :
    (∀ (t : MysqlTime) (digits : Nat), DatetimeValid t → DayFitsMonth t → digits ≤ 6 →
        10 ^ (6 - digits) ∣ t.secondPart →
        ReadsBack (strToDatetimeOrDate (myDatetimeToStr t digits) 0) t) ∧
      (∀ t : MysqlTime, DateValid t → DayFitsMonth t →
        ReadsBack (strToDatetimeOrDate (myDateToStr t) 0) t) ∧
      (∀ (t : MysqlTime) (digits mode errHour : Nat), TimeValid t → digits ≤ 6 →
        10 ^ (6 - digits) ∣ t.secondPart → t.hour ≤ errHour →
        ReadsBack (strToDatetimeOrDateOrTime (myTimeToStr t digits) mode timeMaxHour errHour) t) :=
  ⟨fun _ _ hv hfits hd hdvd => datetime_reads_back hv hfits hd hdvd,
    fun _ hv hfits => date_reads_back hv hfits,
    fun _ _ mode errHour hv hd hdvd herr => time_reads_back mode errHour hv hd hdvd herr⟩

theorem temporal_text_round_trip_leap_day :
    ReadsBack (strToDatetimeOrDate (myDatetimeToStr ⟨2024, 2, 29, 23, 59, 58, 120000, false, .datetime⟩ 2)
        0) ⟨2024, 2, 29, 23, 59, 58, 120000, false, .datetime⟩ ∧
      ReadsBack (strToDatetimeOrDate (myDateToStr ⟨2024, 2, 29, 0, 0, 0, 0, false, .date⟩) 0)
        ⟨2024, 2, 29, 0, 0, 0, 0, false, .date⟩ ∧
      ReadsBack (strToDatetimeOrDateOrTime (myTimeToStr ⟨0, 0, 0, 838, 59, 59, 999999, true, .time⟩ 6)
        0 timeMaxHour uintMax32) ⟨0, 0, 0, 838, 59, 59, 999999, true, .time⟩ :=
  ⟨temporal_text_round_trip.1 _ 2 ⟨rfl, rfl, by decide⟩ (by decide) (by decide) (by decide),
    temporal_text_round_trip.2.1 _ ⟨rfl, rfl, by decide, ⟨rfl, rfl, rfl, rfl⟩⟩ (by decide),
    temporal_text_round_trip.2.2 _ 6 0 uintMax32 ⟨rfl, ⟨rfl, rfl, rfl⟩, by decide⟩ (by decide)
      (by decide) (by decide)⟩

end MariaDB.Time
