import MariaDB.Time.Packed

/-
  The MySQL 5.6 DATETIME format (`compat56.cc`): the packed `longlong` and its disk form.

  Model. The conventions are those of `MariaDB.Time.Packed`. The packed number holds
  `year * 13 + month`, the day, the hour, the minute and the second in fields of 17, 5, 5, 6
  and 6 bits, above 24 bits of microseconds. The disk form is the integer part plus the offset
  `DATETIMEF_INT_OFS` in five bytes, then the fraction in `(dec + 1) / 2` bytes, which the
  reader loads as signed numbers.

  Proved:
  * `timeToLonglongDatetimePacked_eq`: the packed number is the mixed-radix value
    (`hornerVal`) of the fields;
  * `timeFromLonglongDatetimePacked_signMag`: the decoder reads the fields back;
  * `beVal_myDatetimePackedToBinary`: as a big-endian number the disk form is
    `(I + 2^39) · 256^w + f / 10^(6-2w)`. The stored fraction units stay below half of
    their range, so the reader's signed loads never see a negative pattern, and
    `myDatetimePackedFromBinary_toBinary` reads the value back;
  * `datetime_packed_lossless_ordered`: the format is lossless, and both the packed numbers
    and `memcmp` on the disk forms order datetimes lexicographically by their fields.
-/

namespace MariaDB.Time

open MariaDB.Lib

/-! ## Model -/

/-- `TIME_to_longlong_datetime_packed`. -/
def timeToLonglongDatetimePacked (t : MysqlTime) : Int :=
  let ymd : Nat := ((t.year * 13 + t.month) <<< 5 ||| t.day) % 2 ^ 32
  let hms : Nat := (t.hour <<< 12 ||| t.minute <<< 6 ||| t.second) % 2 ^ 32
  let tmp := packedTimeMake (ymd <<< 17 ||| hms : Nat) t.secondPart
  if t.neg then -tmp else tmp

/-- `TIME_from_longlong_datetime_packed`. -/
def timeFromLonglongDatetimePacked (tmp : Int) : MysqlTime :=
  let neg := decide (tmp < 0)
  let tmp := tmp.natAbs
  let secondPart := tmp % 2 ^ 24
  let ymdhms := tmp >>> 24
  let ymd := ymdhms >>> 17
  let ym := ymd >>> 5
  let hms := ymdhms % 2 ^ 17
  { year := ym / 13 % 2 ^ 32
    month := ym % 13
    day := ymd % 2 ^ 5
    hour := (hms >>> 12) % 2 ^ 32
    minute := (hms >>> 6) % 2 ^ 6
    second := hms % 2 ^ 6
    secondPart := secondPart
    neg := neg
    timeType := .datetime }

/-- `my_datetime_binary_length`. -/
def myDatetimeBinaryLength (dec : Nat) : Nat := 5 + (dec + 1) / 2

/-- `DATETIMEF_INT_OFS`. -/
def datetimefIntOfs : Int := 0x8000000000

/-- `my_datetime_packed_from_binary`: the fraction is read with signed loads. -/
def myDatetimePackedFromBinary (ptr : List UInt8) (dec : Nat) : Int :=
  let intpart : Int := (miUint5korr ptr : Int) - datetimefIntOfs
  match dec with
  | 1 | 2 => packedTimeMake intpart (toSigned 8 (ptr.getD 5 0).toNat * 10000)
  | 3 | 4 => packedTimeMake intpart (miSint2korr (ptr.drop 5) * 100)
  | 5 | 6 => packedTimeMake intpart (miSint3korr (ptr.drop 5))
  | _ => packedTimeMakeInt intpart

/-- `my_datetime_packed_to_binary`. -/
def myDatetimePackedToBinary (nr : Int) (dec : Nat) : List UInt8 :=
  miInt5store (packedTimeGetIntPart nr + datetimefIntOfs) ++
    match dec with
    | 1 | 2 => [UInt8.ofNat (toUnsigned 8 ((packedTimeGetFracPart nr).tdiv 10000))]
    | 3 | 4 => miInt2store ((packedTimeGetFracPart nr).tdiv 100)
    | 5 | 6 => miInt3store (packedTimeGetFracPart nr)
    | _ => []
/-- The fields below the year as `(radix, digit)` pairs, in the radices the packed number
gives them, down to the second. -/
def datetimeDigits (t : MysqlTime) : List (Nat × Nat) :=
  [(13, t.month), (32, t.day), (32, t.hour), (64, t.minute), (64, t.second)]

/-- The fields in the order a DATETIME sorts by. -/
def datetimeFields (t : MysqlTime) : List Nat :=
  [t.year, t.month, t.day, t.hour, t.minute, t.second, t.secondPart]

/-- A DATETIME that `check_datetime_range` accepts, not negative. -/
structure DatetimeValid (t : MysqlTime) : Prop where
  neg_eq : t.neg = false
  timeType_eq : t.timeType = .datetime
  range_ok : checkDatetimeRange t = false

/-! ## The packed number -/

theorem DatetimeValid.bounds {t : MysqlTime} (h : DatetimeValid t) :
    t.year ≤ 9999 ∧ t.month ≤ 12 ∧ t.day ≤ 31 ∧ t.minute ≤ 59 ∧ t.second ≤ 59 ∧
      t.secondPart ≤ 999999 ∧ t.hour ≤ 23 := by
  have hr := (checkDatetimeRange_eq_false t).mp h.range_ok
  rwa [h.timeType_eq, if_neg (by decide)] at hr

/-- `TIME_to_longlong_datetime_packed` is the mixed-radix value of the fields, with the sign. -/
theorem timeToLonglongDatetimePacked_eq {t : MysqlTime} (hym : t.year * 13 + t.month < 2 ^ 17)
    (hd : t.day < 2 ^ 5) (hh : t.hour < 2 ^ 5) (hm : t.minute < 2 ^ 6) (hs : t.second < 2 ^ 6)
    (hf : t.secondPart < 2 ^ 24) :
    timeToLonglongDatetimePacked t =
      signMag t.neg (hornerVal t.year (datetimeDigits t) * 2 ^ 24 + t.secondPart) := by
  have hymd : (t.year * 13 + t.month) <<< 5 ||| t.day = (t.year * 13 + t.month) * 2 ^ 5 + t.day :=
    shiftLeft_or_of_lt hd
  have hhms : t.hour <<< 12 ||| t.minute <<< 6 ||| t.second = (t.hour * 2 ^ 6 + t.minute) * 2 ^ 6 + t.second := by
    rw [shiftLeft_or_shiftLeft (m := 6) (k := 6) rfl hm, shiftLeft_or_of_lt hs]
  have hval : hornerVal t.year (datetimeDigits t) =
      ((t.year * 13 + t.month) * 2 ^ 5 + t.day) * 2 ^ 17 + ((t.hour * 2 ^ 6 + t.minute) * 2 ^ 6 + t.second) := by
    simp only [datetimeDigits, hornerVal]
    ring
  unfold timeToLonglongDatetimePacked
  dsimp only
  rw [hymd, hhms, Nat.mod_eq_of_lt (by omega), Nat.mod_eq_of_lt (by omega),
    shiftLeft_or_of_lt (by omega), packedTimeMake_eq (by omega) (by omega), hval]
  cases t.neg <;> simp [signMag]

/-- `TIME_from_longlong_datetime_packed` reads the fields back; the sign of zero is lost. -/
theorem timeFromLonglongDatetimePacked_signMag (neg : Bool) {t : MysqlTime}
    (hy : t.year < 2 ^ 32) (hmo : t.month < 13) (hd : t.day < 2 ^ 5) (hh : t.hour < 2 ^ 5)
    (hm : t.minute < 2 ^ 6) (hs : t.second < 2 ^ 6) (hf : t.secondPart < 2 ^ 24) :
    timeFromLonglongDatetimePacked
        (signMag neg (hornerVal t.year (datetimeDigits t) * 2 ^ 24 + t.secondPart)) =
      { t with neg := neg && decide (hornerVal t.year (datetimeDigits t) * 2 ^ 24 + t.secondPart ≠ 0),
               timeType := .datetime } := by
  have habs : (signMag neg (hornerVal t.year (datetimeDigits t) * 2 ^ 24 + t.secondPart)).natAbs =
      hornerVal t.year (datetimeDigits t) * 2 ^ 24 + t.secondPart := by
    cases neg <;> simp only [signMag, Bool.false_eq_true, if_true, if_false, Int.natAbs_neg,
      Int.natAbs_natCast]
  have hneg : decide (signMag neg (hornerVal t.year (datetimeDigits t) * 2 ^ 24 + t.secondPart) < 0) =
      (neg && decide (hornerVal t.year (datetimeDigits t) * 2 ^ 24 + t.secondPart ≠ 0)) := by
    cases neg
    · simp only [signMag, Bool.false_eq_true, if_false, Bool.false_and, decide_eq_false_iff_not]
      omega
    · simp only [signMag, if_true, Bool.true_and]
      exact decide_eq_decide.mpr (by omega)
  -- the integer part and its two halves, date above time of day
  have hint : (hornerVal t.year (datetimeDigits t) * 2 ^ 24 + t.secondPart) / 2 ^ 24 =
      ((t.year * 13 + t.month) * 2 ^ 5 + t.day) * 2 ^ 17 + ((t.hour * 2 ^ 6 + t.minute) * 2 ^ 6 + t.second) := by
    simp only [datetimeDigits, hornerVal]
    omega
  unfold timeFromLonglongDatetimePacked
  dsimp only
  rw [habs, hneg]
  simp only [Nat.shiftRight_eq_div_pow, hint]
  cases t
  simp only [MysqlTime.mk.injEq, and_true] at *
  refine ⟨?_, ?_, ?_, ?_, ?_, ?_, ?_⟩ <;> omega

/-! ## The disk form -/

@[simp] theorem miIntStore_zero (a : Int) : miIntStore 0 a = [] := rfl

/-- At every precision the writer stores five bytes of integer part, then `(dec + 1) / 2`
bytes of fraction in units of `10 ^ (6 - 2 ((dec + 1) / 2))` microseconds. -/
theorem myDatetimePackedToBinary_eq {dec : Nat} (hdec : dec ≤ 6) (nr : Int) :
    myDatetimePackedToBinary nr dec = miInt5store (packedTimeGetIntPart nr + datetimefIntOfs) ++
      miIntStore ((dec + 1) / 2) ((packedTimeGetFracPart nr).tdiv (10 ^ (6 - 2 * ((dec + 1) / 2)))) := by
  interval_cases dec <;> simp [myDatetimePackedToBinary, byteStore_eq, miInt2store, miInt3store]

theorem length_myDatetimePackedToBinary {dec : Nat} (hdec : dec ≤ 6) (nr : Int) :
    (myDatetimePackedToBinary nr dec).length = myDatetimeBinaryLength dec := by
  rw [myDatetimePackedToBinary_eq hdec, List.length_append, length_miInt5store, length_miIntStore,
    myDatetimeBinaryLength]

/-- The units a fraction below a second is stored in stay below half of their bytes' range. -/
theorem fracUnits_lt_half {dec f : Nat} (hdec : dec ≤ 6) (hf : f < 10 ^ 6) :
    f / 10 ^ (6 - 2 * ((dec + 1) / 2)) < 2 ^ (8 * ((dec + 1) / 2) - 1) := by
  have hcw : 10 ^ 6 ≤ 10 ^ (6 - 2 * ((dec + 1) / 2)) * 2 ^ (8 * ((dec + 1) / 2) - 1) := by
    interval_cases dec <;> norm_num
  rw [Nat.div_lt_iff_lt_mul (by positivity), Nat.mul_comm]
  omega

/-- The five bytes of integer part hold it with the offset `2^39`. -/
theorem beVal_miInt5store_intPart {I f : Nat} (hI : I < 2 ^ 39) (hf : f < 2 ^ 24) :
    beVal (miInt5store (packedTimeGetIntPart (signMag false (I * 2 ^ 24 + f)) + datetimefIntOfs)) =
      I + 2 ^ 39 := by
  have h := beVal_miIntStore_of_lt (n := 5) (by norm_num)
    (a := packedTimeGetIntPart (signMag false (I * 2 ^ 24 + f)) + datetimefIntOfs)
  rw [packedTimeGetIntPart_signMag false I hf, if_neg Bool.false_ne_true, datetimefIntOfs] at h ⊢
  exact_mod_cast h (by omega) (by omega)

/-- The fraction bytes hold the fraction's units. -/
theorem beVal_fracStore {dec I f : Nat} (hdec : dec ≤ 6) (hf : f < 10 ^ 6) :
    beVal (miIntStore ((dec + 1) / 2) ((packedTimeGetFracPart
      (signMag false (I * 2 ^ 24 + f))).tdiv (10 ^ (6 - 2 * ((dec + 1) / 2))))) =
      f / 10 ^ (6 - 2 * ((dec + 1) / 2)) := by
  have hk := fracUnits_lt_half hdec hf
  have hhalf : 2 ^ (8 * ((dec + 1) / 2) - 1) ≤ 2 ^ (8 * ((dec + 1) / 2)) :=
    Nat.pow_le_pow_right (by norm_num) (by omega)
  have hu := fracUnits_signMag false I (10 ^ (6 - 2 * ((dec + 1) / 2))) (by omega : f < 2 ^ 24)
  simp only [Nat.cast_pow, Nat.cast_ofNat] at hu
  have h := beVal_miIntStore_of_lt (n := (dec + 1) / 2) (by omega)
    (a := ↑(f / 10 ^ (6 - 2 * ((dec + 1) / 2)))) (Int.natCast_nonneg _)
    (by exact_mod_cast (show f / 10 ^ (6 - 2 * ((dec + 1) / 2)) < 2 ^ (8 * ((dec + 1) / 2)) by omega))
  rw [hu, signMag, if_neg Bool.false_ne_true]
  exact_mod_cast h

/-- The DATETIME disk form as a big-endian number: the integer part with the offset `2^39`
above `w` bytes of fraction units. -/
theorem beVal_myDatetimePackedToBinary {dec : Nat} (hdec : dec ≤ 6) {I f : Nat}
    (hI : I < 2 ^ 39) (hf : f < 10 ^ 6) :
    beVal (myDatetimePackedToBinary (signMag false (I * 2 ^ 24 + f)) dec) =
      (I + 2 ^ 39) * 256 ^ ((dec + 1) / 2) + f / 10 ^ (6 - 2 * ((dec + 1) / 2)) := by
  rw [myDatetimePackedToBinary_eq hdec, beVal_append, length_miIntStore,
    beVal_miInt5store_intPart hI (by omega), beVal_fracStore hdec hf]

/-- The signed three-byte load of a pattern below `2^23` is its unsigned value. -/
theorem miSint3korr_of_lt {F : List UInt8} (hF : F.length = 3) (h : beVal F < 2 ^ 23) :
    miSint3korr F = beVal F := by
  obtain ⟨b, bs, rfl⟩ := List.exists_cons_of_ne_nil (List.ne_nil_of_length_pos (by omega : 0 < F.length))
  have hb : b.toNat < 128 := head_lt_of_beVal_lt (by rw [hF]; exact h)
  rw [miSint3korr, List.getD_cons_zero, and_top_of_lt _ hb, if_neg (by decide), miUint3korr,
    miUintKorr_of_length hF, toSigned_of_lt (by norm_num; omega)]

/-- The reader at the precisions with a fraction, when the stored units are below half of
their range: the signed loads then read them as they are. -/
theorem myDatetimePackedFromBinary_frac {dec : Nat} (h1 : 1 ≤ dec) (h6 : dec ≤ 6)
    {A F : List UInt8} (hA : A.length = 5) (hF : F.length = (dec + 1) / 2)
    (hhalf : beVal F < 2 ^ (8 * ((dec + 1) / 2) - 1)) :
    myDatetimePackedFromBinary (A ++ F) dec = packedTimeMake ((beVal A : Int) - datetimefIntOfs)
      (beVal F * 10 ^ (6 - 2 * ((dec + 1) / 2))) := by
  have hkorr : miUint5korr (A ++ F) = beVal A := miUintKorr_append hA F
  have hdrop : (A ++ F).drop 5 = F := List.drop_left' hA
  have hbyte : (A ++ F).getD 5 0 = F.getD 0 0 := by
    rw [List.getD_append_right _ _ _ _ (by omega), hA]
  interval_cases dec
  all_goals simp only [myDatetimePackedFromBinary, hkorr, hdrop, hbyte]
  all_goals norm_num at hF hhalf ⊢
  · -- one byte, loaded as a `signed char`
    obtain ⟨b, rfl⟩ := List.length_eq_one_iff.mp hF
    rw [beVal_singleton] at hhalf ⊢
    rw [List.getElem?_cons_zero, Option.getD_some, toSigned_of_lt (by norm_num; omega)]
  · obtain ⟨b, rfl⟩ := List.length_eq_one_iff.mp hF
    rw [beVal_singleton] at hhalf ⊢
    rw [List.getElem?_cons_zero, Option.getD_some, toSigned_of_lt (by norm_num; omega)]
  · -- two bytes, loaded as an `int16`
    rw [miSint2korr, miUint2korr, miUintKorr_of_length hF, toSigned_of_lt (by norm_num; omega)]
  · rw [miSint2korr, miUint2korr, miUintKorr_of_length hF, toSigned_of_lt (by norm_num; omega)]
  · -- three bytes, sign-extended into an `int32`
    rw [miSint3korr_of_lt hF hhalf]
  · rw [miSint3korr_of_lt hF hhalf]

/-- `my_datetime_packed_from_binary` reads back what `my_datetime_packed_to_binary` wrote, at
every precision, for every value whose fraction has no more digits than the precision keeps. -/
theorem myDatetimePackedFromBinary_toBinary {dec : Nat} (hdec : dec ≤ 6) {I f : Nat}
    (hI : I < 2 ^ 39) (hf : f < 10 ^ 6) (hdvd : 10 ^ (6 - dec) ∣ f) :
    myDatetimePackedFromBinary (myDatetimePackedToBinary (signMag false (I * 2 ^ 24 + f)) dec) dec =
      signMag false (I * 2 ^ 24 + f) := by
  have hA := beVal_miInt5store_intPart hI (by omega : f < 2 ^ 24)
  rw [myDatetimePackedToBinary_eq hdec]
  rcases Nat.eq_zero_or_pos dec with rfl | h1
  · -- no fraction bytes: the integer part, shifted back
    have hf0 : f = 0 := Nat.eq_zero_of_dvd_of_lt hdvd hf
    subst hf0
    simp only [show (0 + 1) / 2 = 0 from rfl, miIntStore_zero, List.append_nil,
      myDatetimePackedFromBinary]
    rw [miUint5korr, miUintKorr_of_length (length_miInt5store _), hA, packedTimeMakeInt_eq] <;>
      simp [signMag, datetimefIntOfs] <;> omega
  · -- the fraction units, read by the signed loads as they are
    obtain ⟨hcf, -⟩ := timeFracUnits hdec hf hdvd
    have hF := beVal_fracStore (I := I) hdec hf
    rw [myDatetimePackedFromBinary_frac h1 hdec (length_miInt5store _) (length_miIntStore _ _)
      (by rw [hF]; exact fracUnits_lt_half hdec hf), hA, hF]
    have hmul : ((f / 10 ^ (6 - 2 * ((dec + 1) / 2)) : Nat) : Int) * 10 ^ (6 - 2 * ((dec + 1) / 2)) = f := by
      exact_mod_cast Nat.div_mul_cancel hcf
    rw [hmul, packedTimeMake_eq] <;> simp [signMag, datetimefIntOfs] <;> omega

/-! ## Order -/

theorem DatetimeValid.intPart_lt {t : MysqlTime} (h : DatetimeValid t) :
    hornerVal t.year (datetimeDigits t) < 2 ^ 39 := by
  obtain ⟨hy, hmo, hd, hm, hs, -, hh⟩ := h.bounds
  simp only [datetimeDigits, hornerVal]
  omega

theorem DatetimeValid.packed_eq {t : MysqlTime} (h : DatetimeValid t) :
    timeToLonglongDatetimePacked t =
      signMag false (hornerVal t.year (datetimeDigits t) * 2 ^ 24 + t.secondPart) := by
  obtain ⟨hy, hmo, hd, hm, hs, hf, hh⟩ := h.bounds
  rw [timeToLonglongDatetimePacked_eq (by omega) (by omega) (by omega) (by omega) (by omega)
    (by omega), h.neg_eq]

theorem DatetimeValid.digitsBelow {t : MysqlTime} (h : DatetimeValid t) :
    DigitsBelow (datetimeDigits t ++ [(2 ^ 24, t.secondPart)]) := by
  obtain ⟨-, hmo, hd, hm, hs, hf, hh⟩ := h.bounds
  simp only [DigitsBelow, datetimeDigits, List.cons_append, List.nil_append, List.mem_cons,
    List.not_mem_nil, forall_eq_or_imp, or_false, forall_eq]
  omega

/-- Every datetime has the same radices. -/
theorem map_fst_datetimeDigits (t1 t2 : MysqlTime) :
    (datetimeDigits t1 ++ [(2 ^ 24, t1.secondPart)]).map Prod.fst =
      (datetimeDigits t2 ++ [(2 ^ 24, t2.secondPart)]).map Prod.fst := rfl

/-- The packed magnitudes of valid datetimes are in the order of their fields... -/
theorem packedNat_lt_iff_fields {t1 t2 : MysqlTime} (h1 : DatetimeValid t1) (h2 : DatetimeValid t2) :
    hornerVal t1.year (datetimeDigits t1) * 2 ^ 24 + t1.secondPart <
        hornerVal t2.year (datetimeDigits t2) * 2 ^ 24 + t2.secondPart ↔
      datetimeFields t1 < datetimeFields t2 := by
  rw [← hornerVal_append_singleton, ← hornerVal_append_singleton,
    hornerVal_lt_iff _ _ (map_fst_datetimeDigits t1 t2) h1.digitsBelow h2.digitsBelow]
  rfl

/-- ... and equal only when the fields are. -/
theorem packedNat_eq_iff_fields {t1 t2 : MysqlTime} (h1 : DatetimeValid t1) (h2 : DatetimeValid t2) :
    hornerVal t1.year (datetimeDigits t1) * 2 ^ 24 + t1.secondPart =
        hornerVal t2.year (datetimeDigits t2) * 2 ^ 24 + t2.secondPart ↔
      datetimeFields t1 = datetimeFields t2 := by
  rw [← hornerVal_append_singleton, ← hornerVal_append_singleton,
    hornerVal_eq_iff _ _ (map_fst_datetimeDigits t1 t2) h1.digitsBelow h2.digitsBelow]
  rfl

theorem packed_lt_iff_fields {t1 t2 : MysqlTime} (h1 : DatetimeValid t1) (h2 : DatetimeValid t2) :
    timeToLonglongDatetimePacked t1 < timeToLonglongDatetimePacked t2 ↔
      datetimeFields t1 < datetimeFields t2 := by
  rw [h1.packed_eq, h2.packed_eq, signMag, signMag, if_neg Bool.false_ne_true,
    if_neg Bool.false_ne_true, Nat.cast_lt, packedNat_lt_iff_fields h1 h2]

theorem packed_eq_iff_fields {t1 t2 : MysqlTime} (h1 : DatetimeValid t1) (h2 : DatetimeValid t2) :
    timeToLonglongDatetimePacked t1 = timeToLonglongDatetimePacked t2 ↔
      datetimeFields t1 = datetimeFields t2 := by
  rw [h1.packed_eq, h2.packed_eq, signMag, signMag, if_neg Bool.false_ne_true,
    if_neg Bool.false_ne_true, Nat.cast_inj, packedNat_eq_iff_fields h1 h2]

/-- The disk forms compare as big-endian numbers like the packed values. -/
theorem beVal_myDatetimePackedToBinary_lt_iff {dec : Nat} (hdec : dec ≤ 6) {I1 I2 f1 f2 : Nat}
    (hI1 : I1 < 2 ^ 39) (hI2 : I2 < 2 ^ 39) (hf1 : f1 < 10 ^ 6) (hf2 : f2 < 10 ^ 6)
    (hd1 : 10 ^ (6 - dec) ∣ f1) (hd2 : 10 ^ (6 - dec) ∣ f2) :
    beVal (myDatetimePackedToBinary (signMag false (I1 * 2 ^ 24 + f1)) dec) <
        beVal (myDatetimePackedToBinary (signMag false (I2 * 2 ^ 24 + f2)) dec) ↔
      I1 * 2 ^ 24 + f1 < I2 * 2 ^ 24 + f2 := by
  rw [beVal_myDatetimePackedToBinary hdec hI1 hf1, beVal_myDatetimePackedToBinary hdec hI2 hf2]
  obtain ⟨⟨k1, rfl⟩, hk1⟩ := timeFracUnits hdec hf1 hd1
  obtain ⟨⟨k2, rfl⟩, hk2⟩ := timeFracUnits hdec hf2 hd2
  have hc : 0 < 10 ^ (6 - 2 * ((dec + 1) / 2)) := by positivity
  rw [Nat.mul_div_cancel_left k1 hc] at hk1 ⊢
  rw [Nat.mul_div_cancel_left k2 hc] at hk2 ⊢
  -- the offset is common to both sides
  rw [Nat.add_mul I1, Nat.add_mul I2, Nat.add_assoc, Nat.add_assoc, Nat.add_comm _ k1,
    Nat.add_comm _ k2, ← Nat.add_assoc, ← Nat.add_assoc, Nat.add_lt_add_iff_right,
    mul_add_mul_lt_iff hc (by omega) (by omega) hk1 hk2]

/-! ## The format -/

/-- The decoder gives a valid datetime back. -/
theorem DatetimeValid.fromPacked_toPacked {t : MysqlTime} (h : DatetimeValid t) :
    timeFromLonglongDatetimePacked (timeToLonglongDatetimePacked t) = t := by
  obtain ⟨hy, hmo, hd, hm, hs, hf, hh⟩ := h.bounds
  rw [h.packed_eq, timeFromLonglongDatetimePacked_signMag false (by omega) (by omega) (by omega)
    (by omega) (by omega) (by omega) (by omega), Bool.false_and, ← h.neg_eq, ← h.timeType_eq]

/-- The MySQL 5.6 DATETIME format: a valid non-negative datetime decodes back from its packed
number; at every precision up to 6 the disk form of a datetime whose fraction has at most
`dec` digits has the stated length and reads back; and both the packed numbers and `memcmp`
on the disk forms order such datetimes lexicographically by their fields. -/
theorem datetime_packed_lossless_ordered :
    (∀ t, DatetimeValid t → timeFromLonglongDatetimePacked (timeToLonglongDatetimePacked t) = t) ∧
    (∀ t1 t2, DatetimeValid t1 → DatetimeValid t2 →
      (timeToLonglongDatetimePacked t1 < timeToLonglongDatetimePacked t2 ↔
        datetimeFields t1 < datetimeFields t2) ∧
      (timeToLonglongDatetimePacked t1 = timeToLonglongDatetimePacked t2 ↔
        datetimeFields t1 = datetimeFields t2)) ∧
    ∀ dec, dec ≤ 6 →
      (∀ t, DatetimeValid t → 10 ^ (6 - dec) ∣ t.secondPart →
        (myDatetimePackedToBinary (timeToLonglongDatetimePacked t) dec).length =
          myDatetimeBinaryLength dec ∧
        myDatetimePackedFromBinary (myDatetimePackedToBinary (timeToLonglongDatetimePacked t) dec)
          dec = timeToLonglongDatetimePacked t) ∧
      ∀ t1 t2, DatetimeValid t1 → DatetimeValid t2 → 10 ^ (6 - dec) ∣ t1.secondPart →
        10 ^ (6 - dec) ∣ t2.secondPart →
        (memcmp (myDatetimePackedToBinary (timeToLonglongDatetimePacked t1) dec)
            (myDatetimePackedToBinary (timeToLonglongDatetimePacked t2) dec)
            (myDatetimeBinaryLength dec) < 0 ↔ datetimeFields t1 < datetimeFields t2) ∧
        (memcmp (myDatetimePackedToBinary (timeToLonglongDatetimePacked t1) dec)
            (myDatetimePackedToBinary (timeToLonglongDatetimePacked t2) dec)
            (myDatetimeBinaryLength dec) = 0 ↔ datetimeFields t1 = datetimeFields t2) := by
  refine ⟨fun t h => h.fromPacked_toPacked,
    fun t1 t2 h1 h2 => ⟨packed_lt_iff_fields h1 h2, packed_eq_iff_fields h1 h2⟩,
    fun dec hdec => ⟨fun t h hd => ⟨length_myDatetimePackedToBinary hdec _, ?_⟩,
      fun t1 t2 h1 h2 hd1 hd2 => ?_⟩⟩
  · have := h.bounds
    rw [h.packed_eq]
    exact myDatetimePackedFromBinary_toBinary hdec h.intPart_lt (by omega) hd
  · -- the disk forms compare like the packed magnitudes, which compare like the fields
    have b1 := h1.bounds
    have b2 := h2.bounds
    have hb12 := beVal_myDatetimePackedToBinary_lt_iff hdec h1.intPart_lt h2.intPart_lt
      (by omega) (by omega) hd1 hd2
    have hb21 := beVal_myDatetimePackedToBinary_lt_iff hdec h2.intPart_lt h1.intPart_lt
      (by omega) (by omega) hd2 hd1
    have hl1 := length_myDatetimePackedToBinary hdec (timeToLonglongDatetimePacked t1)
    have hl2 := length_myDatetimePackedToBinary hdec (timeToLonglongDatetimePacked t2)
    rw [memcmp_neg_iff hl1 hl2, memcmp_eq_zero_iff hl1 hl2, h1.packed_eq, h2.packed_eq, hb12,
      packedNat_lt_iff_fields h1 h2, ← packedNat_eq_iff_fields h1 h2]
    exact ⟨Iff.rfl, by omega⟩

/-- At five digits, the last moment of 2023 reads back from its disk form and sorts before
the first of 2024. -/
theorem datetime_packed_lossless_ordered_new_year :
    myDatetimePackedFromBinary (myDatetimePackedToBinary (timeToLonglongDatetimePacked
        ⟨2023, 12, 31, 23, 59, 59, 999990, false, .datetime⟩) 5) 5 =
      timeToLonglongDatetimePacked ⟨2023, 12, 31, 23, 59, 59, 999990, false, .datetime⟩ ∧
    memcmp (myDatetimePackedToBinary (timeToLonglongDatetimePacked
        ⟨2023, 12, 31, 23, 59, 59, 999990, false, .datetime⟩) 5)
      (myDatetimePackedToBinary (timeToLonglongDatetimePacked
        ⟨2024, 1, 1, 0, 0, 0, 0, false, .datetime⟩) 5) (myDatetimeBinaryLength 5) < 0 := by
  have h1 : DatetimeValid ⟨2023, 12, 31, 23, 59, 59, 999990, false, .datetime⟩ :=
    ⟨rfl, rfl, by decide⟩
  have h2 : DatetimeValid ⟨2024, 1, 1, 0, 0, 0, 0, false, .datetime⟩ := ⟨rfl, rfl, by decide⟩
  have hfmt := datetime_packed_lossless_ordered.2.2 5 (by decide)
  exact ⟨(hfmt.1 _ h1 (by decide)).2,
    ((hfmt.2 _ _ h1 h2 (by decide) (by decide)).1).mpr (by decide)⟩

end MariaDB.Time
