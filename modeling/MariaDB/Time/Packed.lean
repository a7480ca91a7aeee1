import MariaDB.Time.Basic
import MariaDB.Lib.BigEndian
import MariaDB.Lib.CArith
import MariaDB.Lib.Radix
import Mathlib.Data.List.GetD
import Mathlib.Tactic.IntervalCases

/-
  The MySQL 5.6 packed TIME format (`compat56.cc`), and the big-endian fields of
  `myisampack.h` that it and DATETIME (`MariaDB.Time.Datetime`) are stored with.

  Model (read this before the theorems). A packed value is a `longlong`: the integer part
  (hours, minutes and seconds, and for DATETIME also the date) above 24 bits of microseconds,
  negated for a negative TIME. `MY_PACKED_TIME_GET_INT_PART` is the arithmetic shift `>>> 24`
  (a floor), and `MY_PACKED_TIME_GET_FRAC_PART` is C's `%`, which truncates (`Int.tmod`).
  `MY_PACKED_TIME_MAKE` adds in `ulonglong` and returns a `longlong` (`toUnsigned 64`, then
  `toSigned 64`). The `uint` expressions that assemble the fields reduce modulo `2^32`. The
  decoders take the absolute value of their argument as a `Nat`, which is C's negation except
  at `LLONG_MIN`, where that is undefined. The disk forms are byte lists: `mi_intNstore` is
  `beBytes N` of the two's complement, `mi_uintNkorr` is `beVal` of the first `N` bytes, and
  the signed loads are `toSigned`.

  Proved:
  * `timeToLonglongTimePacked_eq`: the packed number is the signed mixed-radix value of the
    fields;
  * `beVal_myTimePackedToBinary`: as a big-endian number the disk form is
    `2^23 · 256^w ± (I · 256^w + f / 10^(6-2w))`, for the integer part `I`, the microseconds `f`
    and `w` fraction bytes. A negative value with a fraction is stored one integer lower, with
    the fraction's complement;
  * `myTimePackedFromBinary_toBinary`: the decoder undoes exactly that, at every precision;
  * `time_packed_lossless_ordered`: the format is lossless, and `memcmp` orders the disk forms
    as the signed packed values.
-/

namespace MariaDB.Time

open MariaDB.Lib

/-! ## `myisampack.h` -/

/-- `mi_uintNkorr`: the first `n` bytes, big-endian. -/
def miUintKorr (n : Nat) (ptr : List UInt8) : Nat := beVal (ptr.take n)

/-- `mi_uint2korr`. -/
def miUint2korr (ptr : List UInt8) : Nat := miUintKorr 2 ptr

/-- `mi_uint3korr`. -/
def miUint3korr (ptr : List UInt8) : Nat := miUintKorr 3 ptr

/-- `mi_uint5korr`. -/
def miUint5korr (ptr : List UInt8) : Nat := miUintKorr 5 ptr

/-- `mi_uint6korr`. -/
def miUint6korr (ptr : List UInt8) : Nat := miUintKorr 6 ptr

/-- `mi_sint2korr`: two bytes as an `int16`. -/
def miSint2korr (ptr : List UInt8) : Int := toSigned 16 (miUint2korr ptr)

/-- `mi_sint3korr`: three bytes, their top bit copied into the top byte of an `int32`. -/
def miSint3korr (ptr : List UInt8) : Int :=
  toSigned 32 (if (ptr.getD 0 0).toNat &&& 128 ≠ 0 then 255 <<< 24 ||| miUint3korr ptr
    else miUint3korr ptr)

/-- `mi_intNstore`: the low `n` bytes of `a`, big-endian. -/
def miIntStore (n : Nat) (a : Int) : List UInt8 := beBytes n (toUnsigned 64 a)

/-- `mi_int2store`. -/
def miInt2store (a : Int) : List UInt8 := miIntStore 2 a

/-- `mi_int3store`. -/
def miInt3store (a : Int) : List UInt8 := miIntStore 3 a

/-- `mi_int5store`. -/
def miInt5store (a : Int) : List UInt8 := miIntStore 5 a

/-- `mi_int6store`. -/
def miInt6store (a : Int) : List UInt8 := miIntStore 6 a

/-! ## The packed numbers -/

/-- `MY_PACKED_TIME_GET_INT_PART`. -/
def packedTimeGetIntPart (x : Int) : Int := x >>> (24 : Nat)

/-- `MY_PACKED_TIME_GET_FRAC_PART`: C's `%`, with the sign of `x`. -/
def packedTimeGetFracPart (x : Int) : Int := x.tmod (2 ^ 24)

/-- `MY_PACKED_TIME_MAKE`, returned as a `longlong`. -/
def packedTimeMake (i f : Int) : Int := toSigned 64 (toUnsigned 64 (i * 2 ^ 24 + f))

/-- `MY_PACKED_TIME_MAKE_INT`, returned as a `longlong`. -/
def packedTimeMakeInt (i : Int) : Int := toSigned 64 (toUnsigned 64 (i * 2 ^ 24))

/-! ## TIME -/

/-- `TIME_to_longlong_time_packed`: days fold into hours. -/
def timeToLonglongTimePacked (t : MysqlTime) : Int :=
  let hms : Nat := ((t.day * 24 + t.hour) <<< 12 ||| t.minute <<< 6 ||| t.second) % 2 ^ 32
  let tmp := packedTimeMake hms t.secondPart
  if t.neg then -tmp else tmp

/-- `TIME_from_longlong_time_packed`. -/
def timeFromLonglongTimePacked (tmp : Int) : MysqlTime :=
  let neg := decide (tmp < 0)
  let tmp := tmp.natAbs
  let hms := tmp >>> 24
  { year := 0, month := 0, day := 0
    hour := (hms >>> 12) % 2 ^ 32 % 2 ^ 10
    minute := (hms >>> 6) % 2 ^ 32 % 2 ^ 6
    second := hms % 2 ^ 32 % 2 ^ 6
    secondPart := tmp % 2 ^ 24
    neg := neg
    timeType := .time }

/-- `my_time_binary_length`. -/
def myTimeBinaryLength (dec : Nat) : Nat := 3 + (dec + 1) / 2

/-- `TIMEF_OFS`. -/
def timefOfs : Int := 0x800000000000

/-- `TIMEF_INT_OFS`. -/
def timefIntOfs : Int := 0x800000

/-- `my_time_packed_to_binary`. -/
def myTimePackedToBinary (nr : Int) (dec : Nat) : List UInt8 :=
  match dec with
  | 1 | 2 =>
    miInt3store (timefIntOfs + packedTimeGetIntPart nr) ++
      [UInt8.ofNat (toUnsigned 8 ((packedTimeGetFracPart nr).tdiv 10000))]
  | 3 | 4 =>
    miInt3store (timefIntOfs + packedTimeGetIntPart nr) ++
      miInt2store ((packedTimeGetFracPart nr).tdiv 100)
  | 5 | 6 => miInt6store (nr + timefOfs)
  | _ => miInt3store (timefIntOfs + packedTimeGetIntPart nr)

/-- The two fractional cases of `my_time_packed_from_binary`, for a fraction of `width`
bytes in units of `scale` microseconds. A negative value with a fraction is stored one
integer lower, with the complement of its fraction to `0x100 ^ width`. -/
def timeFracFromBinary (intpart frac : Int) (width scale : Nat) : Int :=
  let (intpart, frac) :=
    if intpart < 0 ∧ frac ≠ 0 then (intpart + 1, frac - 256 ^ width) else (intpart, frac)
  packedTimeMake intpart (frac * scale)

/-- `my_time_packed_from_binary`. -/
def myTimePackedFromBinary (ptr : List UInt8) (dec : Nat) : Int :=
  match dec with
  | 1 | 2 =>
    timeFracFromBinary ((miUint3korr ptr : Int) - timefIntOfs) (ptr.getD 3 0).toNat 1 10000
  | 3 | 4 =>
    timeFracFromBinary ((miUint3korr ptr : Int) - timefIntOfs) (miUint2korr (ptr.drop 3)) 2 100
  | 5 | 6 => (miUint6korr ptr : Int) - timefOfs
  | _ => packedTimeMakeInt ((miUint3korr ptr : Int) - timefIntOfs)

/-! ## Byte fields -/

@[simp] theorem length_miIntStore (n : Nat) (a : Int) : (miIntStore n a).length = n :=
  beBytes_length _ _

@[simp] theorem length_miInt2store (a : Int) : (miInt2store a).length = 2 := length_miIntStore 2 a

@[simp] theorem length_miInt3store (a : Int) : (miInt3store a).length = 3 := length_miIntStore 3 a

@[simp] theorem length_miInt5store (a : Int) : (miInt5store a).length = 5 := length_miIntStore 5 a

@[simp] theorem length_miInt6store (a : Int) : (miInt6store a).length = 6 := length_miIntStore 6 a

theorem miUintKorr_append {n : Nat} {bs : List UInt8} (h : bs.length = n) (rest : List UInt8) :
    miUintKorr n (bs ++ rest) = beVal bs := by
  rw [miUintKorr, List.take_left' h]

/-- What `mi_intNstore` stores, read as a number: `a` modulo `256 ^ n`. -/
theorem beVal_miIntStore {n : Nat} (hn : n ≤ 8) (a : Int) :
    beVal (miIntStore n a) = toUnsigned (8 * n) a := by
  rw [miIntStore, beVal_beBytes, show (256 : Nat) ^ n = 2 ^ (8 * n) by rw [pow_mul]; norm_num,
    toUnsigned_mod (by omega)]

/-- ... and as an integer: `a` reduced modulo `256 ^ n`. -/
theorem beVal_miIntStore_emod {n : Nat} (hn : n ≤ 8) (a : Int) :
    (beVal (miIntStore n a) : Int) = a % 256 ^ n := by
  rw [beVal_miIntStore hn, toUnsigned_cast, pow_mul]
  norm_num

/-- A non-negative value that fits in `n` bytes is stored as itself. -/
theorem beVal_miIntStore_of_lt {n : Nat} (hn : n ≤ 8) {a : Int} (h0 : 0 ≤ a)
    (h : a < 2 ^ (8 * n)) : (beVal (miIntStore n a) : Int) = a := by
  rw [beVal_miIntStore hn, toUnsigned_of_lt h0 h]

/-- The single fraction byte `(unsigned char) (char) x` is `mi_int1store`. -/
theorem byteStore_eq (u : Int) : [UInt8.ofNat (toUnsigned 8 u)] = miIntStore 1 u := by
  rw [miIntStore, beBytes_succ, beBytes_zero, List.nil_append]
  congr 1
  apply UInt8.toNat_inj.mp
  simp only [UInt8.toNat_ofNat']
  rw [toUnsigned_mod (by norm_num) u, ← toUnsigned_mod (show 8 ≤ 64 by norm_num) u]

/-! ## The packed numbers -/

theorem packedTimeMake_eq {i f : Int} (h1 : -2 ^ 63 ≤ i * 2 ^ 24 + f) (h2 : i * 2 ^ 24 + f < 2 ^ 63) :
    packedTimeMake i f = i * 2 ^ 24 + f :=
  toSigned_toUnsigned (by norm_num) h1 h2

theorem packedTimeMakeInt_eq {i : Int} (h1 : -2 ^ 63 ≤ i * 2 ^ 24) (h2 : i * 2 ^ 24 < 2 ^ 63) :
    packedTimeMakeInt i = i * 2 ^ 24 :=
  toSigned_toUnsigned (by norm_num) h1 h2

/-- The integer part of a signed packed number rounds down: one lower for a negative value
with a fraction. -/
theorem packedTimeGetIntPart_signMag (neg : Bool) (I : Nat) {f : Nat} (hf : f < 2 ^ 24) :
    packedTimeGetIntPart (signMag neg (I * 2 ^ 24 + f)) =
      if neg then -(I : Int) - (if f = 0 then 0 else 1) else I := by
  rw [packedTimeGetIntPart, Int.shiftRight_eq_div_pow]
  cases neg
  · simp only [signMag, Bool.false_eq_true, if_false]
    push_cast
    omega
  · simp only [signMag, if_true]
    push_cast
    split_ifs <;> omega

/-- The fractional part of a signed packed number keeps the sign. -/
theorem packedTimeGetFracPart_signMag (neg : Bool) (I : Nat) {f : Nat} (hf : f < 2 ^ 24) :
    packedTimeGetFracPart (signMag neg (I * 2 ^ 24 + f)) = signMag neg f := by
  rw [packedTimeGetFracPart]
  cases neg
  · simp only [signMag, Bool.false_eq_true, if_false]
    rw [Int.tmod_eq_emod_of_nonneg (by omega)]
    push_cast
    omega
  · simp only [signMag, if_true]
    rw [Int.neg_tmod, Int.tmod_eq_emod_of_nonneg (by omega)]
    push_cast
    omega

theorem fracUnits_signMag (neg : Bool) (I : Nat) {f : Nat} (c : Nat) (hf : f < 2 ^ 24) :
    (packedTimeGetFracPart (signMag neg (I * 2 ^ 24 + f))).tdiv c = signMag neg (f / c) := by
  rw [packedTimeGetFracPart_signMag neg I hf]
  cases neg
  · simp [signMag]
  · simp [signMag, Int.neg_tdiv]

/-! ## TIME: the packed number -/

/-- The integer part of a packed TIME: the hours with the days folded in, the minutes and the
seconds, in fields of 10, 6 and 6 bits. -/
def timeHms (t : MysqlTime) : Nat := (t.day * 24 + t.hour) * 4096 + t.minute * 64 + t.second

/-- A TIME value of the range the packed TIME format holds at precision `dec`. -/
structure TimePackable (dec : Nat) (t : MysqlTime) : Prop where
  hours_le : t.day * 24 + t.hour ≤ 838
  minute_le : t.minute ≤ 59
  second_le : t.second ≤ 59
  secondPart_lt : t.secondPart < 10 ^ 6
  secondPart_dvd : 10 ^ (6 - dec) ∣ t.secondPart

theorem TimePackable.timeHms_lt {dec : Nat} {t : MysqlTime} (h : TimePackable dec t) :
    timeHms t < 2 ^ 22 := by
  have := h.hours_le
  have := h.minute_le
  have := h.second_le
  unfold timeHms
  omega

theorem timeToLonglongTimePacked_eq {t : MysqlTime} (hh : t.day * 24 + t.hour < 2 ^ 10)
    (hm : t.minute < 2 ^ 6) (hs : t.second < 2 ^ 6) (hf : t.secondPart < 2 ^ 24) :
    timeToLonglongTimePacked t = signMag t.neg (timeHms t * 2 ^ 24 + t.secondPart) := by
  have hor : (t.day * 24 + t.hour) <<< 12 ||| t.minute <<< 6 ||| t.second = timeHms t := by
    rw [shiftLeft_or_shiftLeft (m := 6) (k := 6) rfl hm, shiftLeft_or_of_lt hs]
    unfold timeHms
    ring
  have hlt : timeHms t < 2 ^ 22 := by
    unfold timeHms
    omega
  unfold timeToLonglongTimePacked
  dsimp only
  rw [hor, Nat.mod_eq_of_lt (by omega), packedTimeMake_eq (by omega) (by omega)]
  cases t.neg <;> simp [signMag]

/-- `TIME_from_longlong_time_packed` reads the fields back, the days as hours; the sign of
zero is lost. -/
theorem timeFromLonglongTimePacked_signMag (neg : Bool) {t : MysqlTime}
    (hh : t.day * 24 + t.hour < 2 ^ 10) (hm : t.minute < 2 ^ 6) (hs : t.second < 2 ^ 6)
    (hf : t.secondPart < 2 ^ 24) :
    timeFromLonglongTimePacked (signMag neg (timeHms t * 2 ^ 24 + t.secondPart)) =
      { year := 0, month := 0, day := 0, hour := t.day * 24 + t.hour, minute := t.minute,
        second := t.second, secondPart := t.secondPart,
        neg := neg && decide (timeHms t * 2 ^ 24 + t.secondPart ≠ 0), timeType := .time } := by
  have habs : (signMag neg (timeHms t * 2 ^ 24 + t.secondPart)).natAbs =
      timeHms t * 2 ^ 24 + t.secondPart := by
    cases neg <;> simp only [signMag, Bool.false_eq_true, if_true, if_false, Int.natAbs_neg,
      Int.natAbs_natCast]
  have hneg : decide (signMag neg (timeHms t * 2 ^ 24 + t.secondPart) < 0) =
      (neg && decide (timeHms t * 2 ^ 24 + t.secondPart ≠ 0)) := by
    cases neg
    · simp only [signMag, Bool.false_eq_true, if_false, Bool.false_and, decide_eq_false_iff_not]
      omega
    · simp only [signMag, if_true, Bool.true_and]
      exact decide_eq_decide.mpr (by omega)
  unfold timeFromLonglongTimePacked
  dsimp only
  rw [habs, hneg]
  simp only [Nat.shiftRight_eq_div_pow, MysqlTime.mk.injEq, true_and, and_true]
  unfold timeHms
  exact ⟨by omega, by omega, by omega, by omega⟩

/-! ## TIME: the disk form -/

theorem miUintKorr_of_length {n : Nat} {bs : List UInt8} (h : bs.length = n) :
    miUintKorr n bs = beVal bs := by
  rw [miUintKorr, List.take_of_length_le (by omega)]

theorem neg_emod_of_lt {k B : Int} (h0 : 0 < k) (h : k < B) : (-k) % B = B - k := by
  rw [show -k = (B - k) + (-1) * B by ring, Int.add_mul_emod_self_right,
    Int.emod_eq_of_lt (by omega) (by omega)]

/-- The fraction units of a signed value as the decoder reads them, unsigned: the units
themselves, or for a negative value with a fraction their complement. -/
theorem signMag_emod (neg : Bool) {k : Nat} {B : Int} (hk : (k : Int) < B) :
    signMag neg k % B = if neg ∧ k ≠ 0 then B - k else k := by
  cases neg
  · simp only [signMag, Bool.false_eq_true, if_false, false_and]
    exact Int.emod_eq_of_lt (by omega) hk
  · by_cases hk0 : k = 0
    · subst hk0
      simp [signMag]
    · simp only [signMag, if_true, true_and, if_pos hk0]
      exact neg_emod_of_lt (by omega) hk

/-- The fractional forms read back: for a negative value with a fraction the integer part is
one lower and the fraction complemented, and `timeFracFromBinary` undoes both. The value has
`k` units of `c` microseconds. -/
theorem timeFracFromBinary_signMag (neg : Bool) {I k c w : Nat} (hI : I < 2 ^ 22)
    (hc : 0 < c) (hf : k * c < 2 ^ 24) (hk : k < 256 ^ w) :
    timeFracFromBinary (packedTimeGetIntPart (signMag neg (I * 2 ^ 24 + k * c)))
      (signMag neg k % (256 ^ w : Int)) w c = signMag neg (I * 2 ^ 24 + k * c) := by
  have hk' : (k : Int) < 256 ^ w := by exact_mod_cast hk
  have hf' : (k : Int) * c < 2 ^ 24 := by exact_mod_cast hf
  rw [packedTimeGetIntPart_signMag neg I hf, signMag_emod neg hk']
  unfold timeFracFromBinary
  cases neg
  · -- a value from zero up is stored as it is
    simp only [Bool.false_eq_true, false_and, if_false]
    rw [if_neg (by omega)]
    dsimp only
    rw [packedTimeMake_eq (by omega) (by omega), signMag, if_neg Bool.false_ne_true]
    push_cast
    ring
  · by_cases hk0 : k = 0
    · -- a whole number of seconds: the integer part as it is
      subst hk0
      simp only [ne_eq, not_true_eq_false, if_false, Nat.cast_zero, zero_mul, add_zero,
        sub_zero, and_false]
      rw [packedTimeMake_eq (by omega) (by omega), signMag, if_pos rfl]
      push_cast
      ring
    · -- with a fraction: back up one integer, and take the fraction from its complement
      have hc0 : c ≠ 0 := Nat.pos_iff_ne_zero.mp hc
      simp only [true_and, ne_eq, hk0, not_false_eq_true, if_true, Nat.mul_eq_zero, hc0,
        or_self, if_false, sub_add_cancel]
      rw [if_pos ⟨by omega, sub_ne_zero.mpr (ne_of_gt hk')⟩]
      dsimp only
      have e : ∀ B : Int, (B - k - B) * c = -((k : Int) * c) := fun B => by ring
      rw [e, packedTimeMake_eq (by omega) (by omega), signMag, if_pos rfl]
      push_cast
      ring

/-- The two fractional precisions' writer: three bytes of integer part, then `(dec + 1) / 2`
bytes of fraction in units of `10 ^ (6 - 2 ((dec + 1) / 2))` microseconds. -/
theorem myTimePackedToBinary_frac {dec : Nat} (h1 : 1 ≤ dec) (h4 : dec ≤ 4) (nr : Int) :
    myTimePackedToBinary nr dec = miInt3store (timefIntOfs + packedTimeGetIntPart nr) ++
      miIntStore ((dec + 1) / 2) ((packedTimeGetFracPart nr).tdiv (10 ^ (6 - 2 * ((dec + 1) / 2)))) := by
  interval_cases dec <;> simp [myTimePackedToBinary, byteStore_eq, miInt2store]

/-- ... and its reader. -/
theorem myTimePackedFromBinary_frac {dec : Nat} (h1 : 1 ≤ dec) (h4 : dec ≤ 4) {A F : List UInt8}
    (hA : A.length = 3) (hF : F.length = (dec + 1) / 2) :
    myTimePackedFromBinary (A ++ F) dec = timeFracFromBinary ((beVal A : Int) - timefIntOfs)
      (beVal F) ((dec + 1) / 2) (10 ^ (6 - 2 * ((dec + 1) / 2))) := by
  have hkorr : miUint3korr (A ++ F) = beVal A := miUintKorr_append hA F
  interval_cases dec
  all_goals simp only [myTimePackedFromBinary, hkorr]
  all_goals norm_num at hF ⊢
  · obtain ⟨b, rfl⟩ := List.length_eq_one_iff.mp hF
    rw [List.getElem?_append_right (by omega), hA]
    rw [beVal_singleton]
    simp
  · obtain ⟨b, rfl⟩ := List.length_eq_one_iff.mp hF
    rw [List.getElem?_append_right (by omega), hA]
    rw [beVal_singleton]
    simp
  · rw [miUint2korr, List.drop_left' hA, miUintKorr_of_length hF]
  · rw [miUint2korr, List.drop_left' hA, miUintKorr_of_length hF]

/-- The three bytes of integer part hold it as it is: it lies within `2^22` of zero. -/
theorem beVal_miInt3store_intPart (neg : Bool) {X f : Nat} (hX : X < 2 ^ 22) (hf : f < 2 ^ 24) :
    (beVal (miInt3store (timefIntOfs + packedTimeGetIntPart (signMag neg (X * 2 ^ 24 + f)))) : Int) =
      timefIntOfs + packedTimeGetIntPart (signMag neg (X * 2 ^ 24 + f)) := by
  have hint := packedTimeGetIntPart_signMag neg X hf
  apply beVal_miIntStore_of_lt (by norm_num)
  · rw [hint, timefIntOfs]
    split_ifs <;> omega
  · rw [hint, timefIntOfs]
    split_ifs <;> omega

/-- The fraction's units as the precision keeps them: for `dec` digits the disk form has
`w = (dec + 1) / 2` bytes of units of `10 ^ (6 - 2 w)` microseconds, which divide a fraction
of `dec` digits, and the units of a fraction below a second fit in the `w` bytes. -/
theorem timeFracUnits {dec f : Nat} (hdec : dec ≤ 6) (hf : f < 10 ^ 6) (hdvd : 10 ^ (6 - dec) ∣ f) :
    10 ^ (6 - 2 * ((dec + 1) / 2)) ∣ f ∧ f / 10 ^ (6 - 2 * ((dec + 1) / 2)) < 256 ^ ((dec + 1) / 2) := by
  have hcw : 10 ^ 6 ≤ 10 ^ (6 - 2 * ((dec + 1) / 2)) * 256 ^ ((dec + 1) / 2) := by
    interval_cases dec <;> norm_num
  refine ⟨dvd_trans (Nat.pow_dvd_pow 10 (by omega)) hdvd, ?_⟩
  rw [Nat.div_lt_iff_lt_mul (by positivity), Nat.mul_comm]
  omega

/-- The fractional forms as big-endian numbers: the integer part one lower and the fraction
complemented is the same number as the magnitude subtracted from the offset. -/
theorem beVal_timeFracBinary (neg : Bool) {X k w c : Nat} (hX : X < 2 ^ 22) (hw : w ≤ 8)
    (hc : 0 < c) (hkc : k * c < 2 ^ 24) (hk : k < 256 ^ w) :
    (beVal (miInt3store (timefIntOfs + packedTimeGetIntPart (signMag neg (X * 2 ^ 24 + k * c))) ++
        miIntStore w ((packedTimeGetFracPart (signMag neg (X * 2 ^ 24 + k * c))).tdiv c)) : Int) =
      2 ^ 23 * 256 ^ w + signMag neg (X * 256 ^ w + k) := by
  have hk' : (k : Int) < 256 ^ w := by exact_mod_cast hk
  rw [beVal_append, length_miIntStore, Nat.cast_add, Nat.cast_mul, Nat.cast_pow,
    beVal_miInt3store_intPart neg hX hkc, packedTimeGetIntPart_signMag neg X hkc,
    fracUnits_signMag neg X c hkc, Nat.mul_div_cancel k hc, beVal_miIntStore_emod hw,
    signMag_emod neg hk', timefIntOfs]
  cases neg
  · simp only [signMag, Bool.false_eq_true, if_false, false_and]
    push_cast
    ring
  · by_cases hk0 : k = 0
    · -- no fraction: the integer part is the magnitude's
      subst hk0
      simp only [signMag, if_true, ne_eq, not_true_eq_false, and_false, if_false, Nat.zero_mul,
        Nat.cast_zero, sub_zero, add_zero]
      push_cast
      ring
    · -- one integer lower, and the complement of the fraction
      simp only [signMag, if_true, ne_eq, hk0, not_false_eq_true, and_self, if_true,
        Nat.mul_eq_zero, Nat.pos_iff_ne_zero.mp hc, or_self, if_false]
      push_cast
      ring

/-- The whole-value form of precisions 5 and 6 holds the value with the offset as it is. -/
theorem beVal_miInt6store_packed (neg : Bool) {X f : Nat} (hX : X < 2 ^ 22) (hf : f < 2 ^ 24) :
    (beVal (miInt6store (signMag neg (X * 2 ^ 24 + f) + timefOfs)) : Int) =
      signMag neg (X * 2 ^ 24 + f) + timefOfs := by
  apply beVal_miIntStore_of_lt (by norm_num)
  · cases neg <;> simp only [signMag, timefOfs, Bool.false_eq_true, if_true, if_false] <;> omega
  · cases neg <;> simp only [signMag, timefOfs, Bool.false_eq_true, if_true, if_false] <;> omega

/-- The TIME disk form as a big-endian number: the offset `2^23` above `w` bytes, plus or
minus the integer part and the fraction's units. -/
theorem beVal_myTimePackedToBinary {dec : Nat} (hdec : dec ≤ 6) (neg : Bool) {X f : Nat}
    (hX : X < 2 ^ 22) (hf : f < 10 ^ 6) (hdvd : 10 ^ (6 - dec) ∣ f) :
    (beVal (myTimePackedToBinary (signMag neg (X * 2 ^ 24 + f)) dec) : Int) =
      2 ^ 23 * 256 ^ ((dec + 1) / 2) +
        signMag neg (X * 256 ^ ((dec + 1) / 2) + f / 10 ^ (6 - 2 * ((dec + 1) / 2))) := by
  obtain ⟨hcf, hk⟩ := timeFracUnits hdec hf hdvd
  rcases (show dec = 0 ∨ (1 ≤ dec ∧ dec ≤ 4) ∨ (dec = 5 ∨ dec = 6) by omega)
    with rfl | ⟨h1, h4⟩ | h56
  · -- no fraction: three bytes of integer part
    have hf0 : f = 0 := Nat.eq_zero_of_dvd_of_lt hdvd hf
    subst hf0
    have hint : packedTimeGetIntPart (signMag neg (X * 2 ^ 24 + 0)) = signMag neg X := by
      rw [packedTimeGetIntPart_signMag neg X (by norm_num)]
      cases neg <;> simp [signMag]
    simp only [myTimePackedToBinary]
    rw [beVal_miInt3store_intPart neg hX (by norm_num), hint, timefIntOfs]
    simp
  · -- one or two bytes of fraction units
    obtain ⟨k, hfk⟩ := hcf
    have hc : 0 < 10 ^ (6 - 2 * ((dec + 1) / 2)) := by positivity
    rw [hfk, Nat.mul_div_cancel_left k hc] at hk ⊢
    rw [Nat.mul_comm _ k] at hfk ⊢
    rw [myTimePackedToBinary_frac h1 h4]
    exact beVal_timeFracBinary neg hX (by omega) hc (by omega) hk
  · -- the whole value in six bytes
    have hw : (dec + 1) / 2 = 3 := by omega
    have hc : 6 - 2 * 3 = 0 := rfl
    have hbin : myTimePackedToBinary (signMag neg (X * 2 ^ 24 + f)) dec =
        miInt6store (signMag neg (X * 2 ^ 24 + f) + timefOfs) := by
      rcases h56 with rfl | rfl <;> rfl
    rw [hbin, beVal_miInt6store_packed neg hX (by omega), hw, hc, pow_zero, Nat.div_one, timefOfs]
    cases neg <;> simp only [signMag, Bool.false_eq_true, if_true, if_false] <;> push_cast <;> ring

theorem length_myTimePackedToBinary {dec : Nat} (hdec : dec ≤ 6) (nr : Int) :
    (myTimePackedToBinary nr dec).length = myTimeBinaryLength dec := by
  interval_cases dec <;> simp [myTimePackedToBinary, myTimeBinaryLength, miInt3store, miInt2store,
    miInt6store]

/-- `my_time_packed_from_binary` reads back what `my_time_packed_to_binary` wrote, at every
precision, for every value whose fraction has no more digits than the precision keeps. -/
theorem myTimePackedFromBinary_toBinary {dec : Nat} (hdec : dec ≤ 6) (neg : Bool) {X f : Nat}
    (hX : X < 2 ^ 22) (hf : f < 10 ^ 6) (hdvd : 10 ^ (6 - dec) ∣ f) :
    myTimePackedFromBinary (myTimePackedToBinary (signMag neg (X * 2 ^ 24 + f)) dec) dec =
      signMag neg (X * 2 ^ 24 + f) := by
  obtain ⟨hcf, hk⟩ := timeFracUnits hdec hf hdvd
  rcases (show dec = 0 ∨ (1 ≤ dec ∧ dec ≤ 4) ∨ (dec = 5 ∨ dec = 6) by omega)
    with rfl | ⟨h1, h4⟩ | h56
  · -- the integer part, shifted back
    have hf0 : f = 0 := Nat.eq_zero_of_dvd_of_lt hdvd hf
    subst hf0
    have hint : packedTimeGetIntPart (signMag neg (X * 2 ^ 24 + 0)) = signMag neg X := by
      rw [packedTimeGetIntPart_signMag neg X (by norm_num)]
      cases neg <;> simp [signMag]
    have hread : (miUint3korr (miInt3store (timefIntOfs + signMag neg X)) : Int) - timefIntOfs =
        signMag neg X := by
      rw [miUint3korr, miUintKorr_of_length (length_miInt3store _),
        ← hint,
        beVal_miInt3store_intPart neg hX (by norm_num)]
      ring
    simp only [myTimePackedToBinary, myTimePackedFromBinary]
    rw [hint, hread, packedTimeMakeInt_eq] <;> cases neg <;> simp [signMag] <;> omega
  · -- the fraction units, and the carry back for a negative value
    obtain ⟨k, hfk⟩ := hcf
    have hc : 0 < 10 ^ (6 - 2 * ((dec + 1) / 2)) := by positivity
    rw [hfk, Nat.mul_div_cancel_left k hc] at hk
    rw [hfk, Nat.mul_comm _ k] at hf ⊢
    have hkc : k * 10 ^ (6 - 2 * ((dec + 1) / 2)) < 2 ^ 24 := by omega
    -- the writer divides by the units as an `Int` power
    have hu := fracUnits_signMag neg X (10 ^ (6 - 2 * ((dec + 1) / 2))) hkc
    simp only [Nat.cast_pow, Nat.cast_ofNat] at hu
    rw [myTimePackedToBinary_frac h1 h4, myTimePackedFromBinary_frac h1 h4
      (length_miInt3store _) (length_miIntStore _ _), beVal_miInt3store_intPart neg hX hkc,
      add_sub_cancel_left, beVal_miIntStore_emod (by omega), hu,
      Nat.mul_div_cancel k hc]
    exact timeFracFromBinary_signMag neg hX hc hkc hk
  · -- the whole value less the offset
    have hbin : myTimePackedFromBinary (myTimePackedToBinary (signMag neg (X * 2 ^ 24 + f)) dec) dec =
        (miUint6korr (miInt6store (signMag neg (X * 2 ^ 24 + f) + timefOfs)) : Int) - timefOfs := by
      rcases h56 with rfl | rfl <;> rfl
    rw [hbin, miUint6korr, miUintKorr_of_length (length_miInt6store _),
      beVal_miInt6store_packed neg hX (by omega)]
    ring

/-- `memcmp` orders the TIME disk forms as the packed values: both are the magnitudes with
the sign, the disk form's magnitude with the fraction in its units. -/
theorem memcmp_myTimePackedToBinary {dec : Nat} (hdec : dec ≤ 6) (n1 n2 : Bool)
    {X1 X2 f1 f2 : Nat} (hX1 : X1 < 2 ^ 22) (hX2 : X2 < 2 ^ 22) (hf1 : f1 < 10 ^ 6)
    (hf2 : f2 < 10 ^ 6) (hd1 : 10 ^ (6 - dec) ∣ f1) (hd2 : 10 ^ (6 - dec) ∣ f2) :
    (memcmp (myTimePackedToBinary (signMag n1 (X1 * 2 ^ 24 + f1)) dec)
        (myTimePackedToBinary (signMag n2 (X2 * 2 ^ 24 + f2)) dec) (myTimeBinaryLength dec)).sign =
      (signMag n1 (X1 * 2 ^ 24 + f1) - signMag n2 (X2 * 2 ^ 24 + f2)).sign := by
  rw [memcmp_sign _ _ _ (length_myTimePackedToBinary hdec _) (length_myTimePackedToBinary hdec _),
    beVal_myTimePackedToBinary hdec n1 hX1 hf1 hd1, beVal_myTimePackedToBinary hdec n2 hX2 hf2 hd2,
    add_sub_add_left_eq_sub]
  obtain ⟨⟨k1, rfl⟩, hk1⟩ := timeFracUnits hdec hf1 hd1
  obtain ⟨⟨k2, rfl⟩, hk2⟩ := timeFracUnits hdec hf2 hd2
  have hc : 0 < 10 ^ (6 - 2 * ((dec + 1) / 2)) := by positivity
  have hR : 10 ^ 6 < 2 ^ 24 := by norm_num
  rw [Nat.mul_div_cancel_left k1 hc] at hk1 ⊢
  rw [Nat.mul_div_cancel_left k2 hc] at hk2 ⊢
  apply sign_signMag_sub
  · exact mul_add_mul_lt_iff hc (by omega) (by omega) hk1 hk2
  · exact mul_add_mul_lt_iff hc (by omega) (by omega) hk2 hk1
  · exact mul_add_mul_eq_zero_iff (by positivity) (by positivity) hc
  · exact mul_add_mul_eq_zero_iff (by positivity) (by positivity) hc

/-! ## TIME: the format -/

/-- A packable TIME packs to its integer part above its microseconds, with its sign. -/
theorem TimePackable.packed_eq {dec : Nat} {t : MysqlTime} (h : TimePackable dec t) :
    timeToLonglongTimePacked t = signMag t.neg (timeHms t * 2 ^ 24 + t.secondPart) := by
  have := h.hours_le
  have := h.minute_le
  have := h.second_le
  have := h.secondPart_lt
  exact timeToLonglongTimePacked_eq (by omega) (by omega) (by omega) (by omega)

/-- The MySQL 5.6 TIME format at each precision up to 6: the disk form has the stated
length, reads back to the packed value, the packed value decodes to the time with its days
folded into hours (a zero time loses its sign), and `memcmp` on disk forms orders them as
the signed packed values. -/
theorem time_packed_lossless_ordered {dec : Nat} (hdec : dec ≤ 6) :
    (∀ t, TimePackable dec t →
      (myTimePackedToBinary (timeToLonglongTimePacked t) dec).length = myTimeBinaryLength dec ∧
      myTimePackedFromBinary (myTimePackedToBinary (timeToLonglongTimePacked t) dec) dec =
        timeToLonglongTimePacked t ∧
      (¬(t.day = 0 ∧ t.hour = 0 ∧ t.minute = 0 ∧ t.second = 0 ∧ t.secondPart = 0) →
        timeFromLonglongTimePacked (timeToLonglongTimePacked t) =
          { t with year := 0, month := 0, day := 0, hour := t.day * 24 + t.hour,
                   timeType := .time })) ∧
    ∀ t1 t2, TimePackable dec t1 → TimePackable dec t2 →
      (memcmp (myTimePackedToBinary (timeToLonglongTimePacked t1) dec)
          (myTimePackedToBinary (timeToLonglongTimePacked t2) dec) (myTimeBinaryLength dec)).sign =
        (timeToLonglongTimePacked t1 - timeToLonglongTimePacked t2).sign := by
  refine ⟨fun t ht => ⟨length_myTimePackedToBinary hdec _, ?_, fun hnz => ?_⟩,
    fun t1 t2 h1 h2 => ?_⟩
  · rw [ht.packed_eq]
    exact myTimePackedFromBinary_toBinary hdec t.neg ht.timeHms_lt ht.secondPart_lt
      ht.secondPart_dvd
  · -- a non-zero time keeps its sign
    have hne : timeHms t * 2 ^ 24 + t.secondPart ≠ 0 := by
      unfold timeHms
      omega
    have := ht.hours_le
    have := ht.minute_le
    have := ht.second_le
    have := ht.secondPart_lt
    rw [ht.packed_eq, timeFromLonglongTimePacked_signMag t.neg (by omega) (by omega) (by omega)
      (by omega), decide_eq_true hne, Bool.and_true]
  · rw [h1.packed_eq, h2.packed_eq]
    exact memcmp_myTimePackedToBinary hdec t1.neg t2.neg h1.timeHms_lt h2.timeHms_lt
      h1.secondPart_lt h2.secondPart_lt h1.secondPart_dvd h2.secondPart_dvd

/-- At two digits, a negative time with a fraction, `-12:30:45.50`, whose integer part the
disk form stores one lower: it reads back, and it sorts below `-12:30:45.40`. -/
theorem time_packed_lossless_ordered_negative_half :
    myTimePackedFromBinary (myTimePackedToBinary (timeToLonglongTimePacked
        ⟨0, 0, 0, 12, 30, 45, 500000, true, .time⟩) 2) 2 =
      timeToLonglongTimePacked ⟨0, 0, 0, 12, 30, 45, 500000, true, .time⟩ ∧
    (memcmp (myTimePackedToBinary (timeToLonglongTimePacked ⟨0, 0, 0, 12, 30, 45, 500000, true, .time⟩) 2)
        (myTimePackedToBinary (timeToLonglongTimePacked ⟨0, 0, 0, 12, 30, 45, 400000, true, .time⟩) 2)
        (myTimeBinaryLength 2)).sign = -1 := by
  have h1 : TimePackable 2 ⟨0, 0, 0, 12, 30, 45, 500000, true, .time⟩ :=
    ⟨by decide, by decide, by decide, by decide, by decide⟩
  have h2 : TimePackable 2 ⟨0, 0, 0, 12, 30, 45, 400000, true, .time⟩ :=
    ⟨by decide, by decide, by decide, by decide, by decide⟩
  refine ⟨((time_packed_lossless_ordered (by decide)).1 _ h1).2.1, ?_⟩
  rw [(time_packed_lossless_ordered (by decide)).2 _ _ h1 h2]
  decide

end MariaDB.Time
