import MariaDB.Decimal.Bin
import MariaDB.Lib.Buffer
import MariaDB.Lib.CArith
import Mathlib.Data.Nat.Digits.Lemmas
import Mathlib.Data.Nat.Log
import Mathlib.Data.Rat.Floor

/-
  Conversions between `decimal_t` and the 64-bit integer types: `ull2dec`,
  `ulonglong2decimal`, `longlong2decimal`, `decimal2ulonglong` and `decimal2longlong` of
  strings/decimal.c.

  Model. `from` is a `ulonglong`, a `Nat` below `2^64`, or a `longlong`, an `Int` between
  `LONGLONG_MIN` and `LONGLONG_MAX`. Each loop of the source is its own function: the count of
  the words of `from` (`countWords`), the count of the digits of its leading word
  (`countDigits`), the store of its words (`storeWords`), and the accumulations of the two
  readers (`ulonglongLoop`, `longlongLoop`), which test for overflow before each
  `x*DIG_BASE`. A word `*buf` is a `dec1`, its 32-bit pattern read as signed; the
  accumulators wrap as their C types do. `decimal2longlong` accumulates `-|from|`, so that
  `LONGLONG_MIN` is reached, and treats `9223372036854775808` apart.

  `truncToZero` states what the readers are for: the value truncated toward zero.

  Proved:
  * `ulonglongLoop_eq`, `longlongLoop_eq`: the accumulations give the integer part when it
    is in range and return early exactly when it is not;
  * `decimal2ulonglong_eq`, `decimal2longlong_eq`: on every well-formed decimal, the value
    truncated toward zero, or the bound by sign with `E_DEC_OVERFLOW`, and `E_DEC_TRUNCATED`
    exactly when the fraction is not zero;
  * `ull2dec_spec`: a non-zero `from` whose words fit is stored exactly, well-formed and
    consistent, with no fraction;
  * `decimal_int_conversions`: the round trips through `longlong2decimal` and
    `ulonglong2decimal` into a buffer of three words or more; in a smaller one the words of
    `from` are cut (`longlong2decimal_short_buffer`).
-/

namespace MariaDB.Decimal

open MariaDB.Lib

/-- `LONGLONG_MIN`. -/
def longlongMin : Int := -2 ^ 63

/-- `LONGLONG_MAX`. -/
def longlongMax : Int := 2 ^ 63 - 1

/-- `ULONGLONG_MAX`. -/
def ulonglongMax : Nat := 2 ^ 64 - 1

/-! ## Integer to decimal -/

/-- `for (intg1=1; from >= DIG_BASE; intg1++, from/=DIG_BASE) {}` from `intg1`, with `fuel`
    bounding the turns: the final `intg1` and `from`. -/
def countWords : Nat → Nat → Nat → Nat × Nat
  | 0, intg1, frm => (intg1, frm)
  | fuel + 1, intg1, frm =>
    if frm ≥ 1000000000 then countWords fuel (intg1 + 1) (frm / 1000000000) else (intg1, frm)

/-- `for (to->intg= (intg1-1)*DIG_PER_DEC1; from; to->intg++, from/=10) {}` from `intg`. -/
def countDigits : Nat → Nat → Nat → Nat
  | 0, intg, _ => intg
  | fuel + 1, intg, frm => if frm ≠ 0 then countDigits fuel (intg + 1) (frm / 10) else intg

/-- `for (buf=to->buf+intg1; intg1; intg1--) { y=x/DIG_BASE; *--buf=(dec1)(x-y*DIG_BASE);
    x=y; }`: the `intg1` low words of `x`, the last one first. -/
def storeWords (buf : List Nat) : Nat → Nat → List Nat
  | 0, _ => buf
  | intg1 + 1, x =>
    storeWords (buf.set intg1 (x - x / 1000000000 * 1000000000)) intg1 (x / 1000000000)

/-- `ull2dec(from, to)`. Each turn of the two counting loops divides `from`, so `from` turns
    are more than they make. -/
def ull2dec (frm : Nat) (dst : DecimalT) : DecimalT × DecErr :=
  if frm = 0 then (decimalMakeZero dst, .ok)
  else
    let counted := countWords frm 1 frm
    -- `if (intg1 > to->len) { intg1=to->len; error=E_DEC_OVERFLOW; }`
    let intg1 := if counted.1 > dst.len then dst.len else counted.1
    let intg := countDigits counted.2 ((intg1 - 1) * 9) counted.2
    ({ dst with frac := 0, intg := intg, buf := storeWords dst.buf intg1 frm },
      if counted.1 > dst.len then .overflow else .ok)

/-- `ulonglong2decimal(from, to)`. -/
def ulonglong2decimal (frm : Nat) (dst : DecimalT) : DecimalT × DecErr :=
  ull2dec frm { dst with sign := false }

/-- `longlong2decimal(from, to)`: the sign, then the magnitude as a `ulonglong`. -/
def longlong2decimal (frm : Int) (dst : DecimalT) : DecimalT × DecErr :=
  if frm < 0 then
    -- `if (from == LONGLONG_MIN) return ull2dec((ulonglong)LONGLONG_MIN, to);`
    if frm = longlongMin then ull2dec (toUnsigned 64 longlongMin) { dst with sign := true }
    else ull2dec (toUnsigned 64 (-frm)) { dst with sign := true }
  else ull2dec (toUnsigned 64 frm) { dst with sign := false }

/-! ## Decimal to integer -/

/-- The integer loop of `decimal2ulonglong` over the `ROUND_UP(intg)` words it reads: the
    overflow test before `x=x*DIG_BASE + *buf++`, and `none` for the early return. -/
def ulonglongLoop : List Nat → Nat → Option Nat
  | [], x => some x
  | w :: ws, x =>
    if x ≥ ulonglongMax / 1000000000 ∧
        (x > ulonglongMax / 1000000000 ∨
          toSigned 32 w > ((ulonglongMax % 1000000000 : Nat) : Int)) then none
    else ulonglongLoop ws (toUnsigned 64 (x * 1000000000 + toSigned 32 w))

/-- `decimal2ulonglong(from, &to)`: the result and the code. -/
def decimal2ulonglong (d : DecimalT) : Nat × DecErr :=
  if d.sign then (0, .overflow)
  else match ulonglongLoop d.intWords 0 with
    | none => (ulonglongMax, .overflow)
    | some x => (x, if d.fracWords.any (· != 0) then .truncated else .ok)

/-- The integer loop of `decimal2longlong`, accumulating `-|from|`: the overflow test before
    `x=x*DIG_BASE - *buf++`, and `none` for the early return. -/
def longlongLoop : List Nat → Int → Option Int
  | [], x => some x
  | w :: ws, x =>
    if x ≤ longlongMin.tdiv 1000000000 ∧
        (x < longlongMin.tdiv 1000000000 ∨
          toSigned 32 w > -longlongMin.tmod 1000000000) then none
    else longlongLoop ws (toSigned 64 (toUnsigned 64 (x * 1000000000 - toSigned 32 w)))

/-- `decimal2longlong(from, &to)`: the result and the code. -/
def decimal2longlong (d : DecimalT) : Int × DecErr :=
  match longlongLoop d.intWords 0 with
  | none => (if d.sign then longlongMin else longlongMax, .overflow)
  | some x =>
    -- the boundary case `9223372036854775808`
    if d.sign = false ∧ x = longlongMin then (longlongMax, .overflow)
    else (if d.sign then x else -x, if d.fracWords.any (· != 0) then .truncated else .ok)

/-- The value truncated toward zero. -/
def truncToZero (q : ℚ) : Int := if 0 ≤ q then ⌊q⌋ else ⌈q⌉

theorem truncToZero_intCast (n : Int) : truncToZero n = n := by
  unfold truncToZero
  split <;> simp

/-! ## The accumulations -/

section Loops

/-- The overflow test of `decimal2ulonglong` on a word below `DIG_BASE`: the next `x` would
    pass `ULONGLONG_MAX`. -/
theorem ulonglong_test_iff (x : Nat) {w : Nat} (hw : w < 1000000000) :
    (x ≥ ulonglongMax / 1000000000 ∧
        (x > ulonglongMax / 1000000000 ∨
          toSigned 32 w > ((ulonglongMax % 1000000000 : Nat) : Int))) ↔
      ulonglongMax < x * 1000000000 + w := by
  rw [toSigned_of_lt (by omega), show ulonglongMax = 18446744073709551615 from rfl]
  omega

/-- The overflow test of `decimal2longlong` on a word below `DIG_BASE`: the next `x` would
    be below `LONGLONG_MIN`. -/
theorem longlong_test_iff (x : Int) {w : Nat} (hw : w < 1000000000) :
    (x ≤ longlongMin.tdiv 1000000000 ∧
        (x < longlongMin.tdiv 1000000000 ∨ toSigned 32 w > -longlongMin.tmod 1000000000)) ↔
      x * 1000000000 - w < longlongMin := by
  have hq : longlongMin.tdiv 1000000000 = -9223372036 := by decide
  have hr : longlongMin.tmod 1000000000 = -854775808 := by decide
  rw [toSigned_of_lt (by omega), hq, hr, show longlongMin = -9223372036854775808 from rfl]
  omega

/-- `decimal2ulonglong`'s loop from `x` in range, over words below `DIG_BASE`: the exact
    `x * DIG_BASE^n + words` when it fits, else the early return. Each turn only raises `x`,
    so a turn that would pass the bound means the end would too. -/
theorem ulonglongLoop_eq : ∀ {ws : List Nat} {x : Nat}, DigitsLt 1000000000 ws →
    x ≤ ulonglongMax →
    ulonglongLoop ws x =
      if x * 1000000000 ^ ws.length + digitsVal 1000000000 ws ≤ ulonglongMax then
        some (x * 1000000000 ^ ws.length + digitsVal 1000000000 ws)
      else none
  | [], x, _, h => by simp [ulonglongLoop, h]
  | w :: ws, x, hws, h => by
    obtain ⟨hw, hrest⟩ := digitsLt_cons.mp hws
    -- the end value is the next `x` shifted past the other words, plus them
    have hend : x * 1000000000 ^ (w :: ws).length + digitsVal 1000000000 (w :: ws) =
        (x * 1000000000 + w) * 1000000000 ^ ws.length + digitsVal 1000000000 ws := by
      rw [List.length_cons, digitsVal_cons]
      ring
    rw [ulonglongLoop, hend]
    by_cases hov : ulonglongMax < x * 1000000000 + w
    · -- past the bound already, and the other words only raise it
      have hp : 1 ≤ 1000000000 ^ ws.length := Nat.one_le_pow _ _ (by norm_num)
      have hle : x * 1000000000 + w ≤ (x * 1000000000 + w) * 1000000000 ^ ws.length :=
        Nat.le_mul_of_pos_right _ hp
      rw [if_pos ((ulonglong_test_iff x hw).mpr hov), if_neg (by omega)]
    · have hwrap : toUnsigned 64 (x * 1000000000 + toSigned 32 w) = x * 1000000000 + w := by
        rw [toSigned_of_lt (by omega)]
        exact_mod_cast toUnsigned_natCast (show x * 1000000000 + w < 2 ^ 64 by
          rw [show ulonglongMax = 2 ^ 64 - 1 from rfl] at hov
          omega)
      rw [if_neg (fun h => hov ((ulonglong_test_iff x hw).mp h)), hwrap]
      exact ulonglongLoop_eq hrest (by omega)

/-- `decimal2longlong`'s loop from `x` in range and not positive, over words below
    `DIG_BASE`: the exact `x * DIG_BASE^n - words` when it is not below `LONGLONG_MIN`, else
    the early return. Each turn only lowers `x`, so a turn that would pass the bound means the
    end would too. -/
theorem longlongLoop_eq : ∀ {ws : List Nat} {x : Int}, DigitsLt 1000000000 ws →
    longlongMin ≤ x → x ≤ 0 →
    longlongLoop ws x =
      if longlongMin ≤ x * 1000000000 ^ ws.length - digitsVal 1000000000 ws then
        some (x * 1000000000 ^ ws.length - digitsVal 1000000000 ws)
      else none
  | [], x, _, h1, _ => by simp [longlongLoop, h1]
  | w :: ws, x, hws, h1, h0 => by
    obtain ⟨hw, hrest⟩ := digitsLt_cons.mp hws
    have hend : x * 1000000000 ^ (w :: ws).length - (digitsVal 1000000000 (w :: ws) : Int) =
        (x * 1000000000 - w) * 1000000000 ^ ws.length - digitsVal 1000000000 ws := by
      rw [List.length_cons, digitsVal_cons]
      push_cast
      ring
    rw [longlongLoop, hend]
    by_cases hov : x * 1000000000 - w < longlongMin
    · -- below the bound already, and the other words only lower it
      have hp : (1 : Int) ≤ 1000000000 ^ ws.length := one_le_pow₀ (by norm_num)
      have hv : (0 : Int) ≤ digitsVal 1000000000 ws := Int.natCast_nonneg _
      have hle : (x * 1000000000 - w) * 1000000000 ^ ws.length ≤ x * 1000000000 - w := by
        nlinarith
      rw [if_pos ((longlong_test_iff x hw).mpr hov), if_neg (by omega)]
    · have hwrap : toSigned 64 (toUnsigned 64 (x * 1000000000 - toSigned 32 w)) =
          x * 1000000000 - w := by
        rw [toSigned_of_lt (show w < 2 ^ (32 - 1) by omega)]
        rw [show longlongMin = -2 ^ 63 from rfl] at hov h1
        exact toSigned_toUnsigned (by norm_num) (by norm_num; omega) (by norm_num; omega)
      rw [if_neg (fun h => hov ((longlong_test_iff x hw).mp h)), hwrap]
      exact longlongLoop_eq hrest (by omega) (by omega)

end Loops

/-! ## The readers -/

section Readers

variable {d : DecimalT}

/-- Truncated toward zero, the value of a well-formed decimal is its integer words with the
    sign: the fraction words add less than one. -/
theorem truncToZero_val (hw : d.WellFormed) :
    truncToZero d.val = if d.sign then -(digitsVal 1000000000 d.intWords : Int)
      else digitsVal 1000000000 d.intWords := by
  have h0 := digitsFrac_nonneg 1000000000 d.fracWords
  have h1 := digitsFrac_lt_one (digitsLt_fracWords hw)
  have hI : (0 : ℚ) ≤ digitsVal 1000000000 d.intWords := Nat.cast_nonneg _
  unfold truncToZero DecimalT.val DecimalT.absVal
  cases d.sign
  · rw [if_neg Bool.false_ne_true, if_pos (by positivity), if_neg Bool.false_ne_true,
      Int.floor_eq_iff]
    push_cast
    constructor <;> linarith
  · rw [if_pos rfl, if_pos rfl]
    split_ifs
    · -- only zero is both negative and not: the words are zeros
      rw [Int.floor_eq_iff]
      push_cast
      constructor <;> linarith
    · rw [Int.ceil_eq_iff]
      push_cast
      constructor <;> linarith

/-- The value is an integer exactly when no fraction word is non-zero. -/
theorem truncToZero_eq_val_iff (hw : d.WellFormed) :
    (truncToZero d.val : ℚ) = d.val ↔ d.fracWords.any (· != 0) = false := by
  have hf : digitsFrac 1000000000 d.fracWords = 0 ↔ d.fracWords.any (· != 0) = false := by
    rw [digitsFrac, div_eq_zero_iff, Nat.cast_eq_zero, digitsVal_eq_zero_iff (by norm_num)]
    simp
  rw [truncToZero_val hw, ← hf]
  unfold DecimalT.val DecimalT.absVal
  cases d.sign <;> simp

/-- `decimal2longlong` on a well-formed decimal: the value truncated toward zero when it is a
    `longlong`, with `E_DEC_TRUNCATED` when that drops a fraction, and the bound on the side of
    the sign with `E_DEC_OVERFLOW` when it is not. -/
theorem decimal2longlong_eq (hw : d.WellFormed) :
    decimal2longlong d =
      if longlongMin ≤ truncToZero d.val ∧ truncToZero d.val ≤ longlongMax then
        (truncToZero d.val, if (truncToZero d.val : ℚ) = d.val then .ok else .truncated)
      else (if d.sign then longlongMin else longlongMax, .overflow) := by
  have hloop := longlongLoop_eq (digitsLt_intWords hw) (x := 0) (by decide) le_rfl
  rw [zero_mul, zero_sub] at hloop
  have hfrac := truncToZero_eq_val_iff hw
  have htrunc := truncToZero_val hw
  have hI : (0 : Int) ≤ digitsVal 1000000000 d.intWords := Int.natCast_nonneg _
  unfold decimal2longlong
  rw [hloop]
  generalize truncToZero d.val = t at hfrac htrunc ⊢
  generalize (digitsVal 1000000000 d.intWords : Int) = I at htrunc hI ⊢
  subst htrunc
  -- the code: `E_DEC_TRUNCATED` exactly when the value is not an integer
  have hcode : (if d.fracWords.any (· != 0) then DecErr.truncated else .ok) =
      if ((if d.sign then -I else I : Int) : ℚ) = d.val then .ok else .truncated := by
    by_cases hz : d.fracWords.any (· != 0) = true
    · rw [if_pos hz, if_neg (fun h => by simp [hfrac.mp h] at hz)]
    · rw [if_neg hz, if_pos (hfrac.mpr (by simpa using hz))]
  rw [hcode]
  unfold longlongMin longlongMax
  -- the integer part is below `2^63`, at it, or above it
  rcases lt_trichotomy I (2 ^ 63) with hlt | heq | hgt
  · -- in range on both sides
    have hb : ¬ (-I = -2 ^ 63) := by omega
    have hp : -2 ^ 63 ≤ I ∧ I ≤ 2 ^ 63 - 1 := by omega
    have hn : -2 ^ 63 ≤ -I ∧ -I ≤ 2 ^ 63 - 1 := by omega
    rw [if_pos (show -2 ^ 63 ≤ -I by omega)]
    cases d.sign
    · simp only [Bool.false_eq_true, if_false, true_and, neg_neg]
      rw [if_neg hb, if_pos hp]
    · simp only [if_true, Bool.true_eq_false, false_and, if_false]
      rw [if_pos hn]
  · -- `-2^63` is a `longlong`, `2^63` is not
    have hp : ¬ (-2 ^ 63 ≤ I ∧ I ≤ 2 ^ 63 - 1) := by omega
    have hn : -2 ^ 63 ≤ -I ∧ -I ≤ 2 ^ 63 - 1 := by omega
    rw [if_pos (show -2 ^ 63 ≤ -I by omega)]
    cases d.sign
    · simp only [Bool.false_eq_true, if_false, true_and]
      rw [if_pos (show -I = -2 ^ 63 by omega), if_neg hp]
    · simp only [if_true, Bool.true_eq_false, false_and, if_false]
      rw [if_pos hn]
  · -- out of range on both sides
    have hp : ¬ (-2 ^ 63 ≤ I ∧ I ≤ 2 ^ 63 - 1) := by omega
    have hn : ¬ (-2 ^ 63 ≤ -I ∧ -I ≤ 2 ^ 63 - 1) := by omega
    rw [if_neg (show ¬ (-2 ^ 63 ≤ -I) by omega)]
    cases d.sign
    · simp only [Bool.false_eq_true, if_false]
      rw [if_neg hp]
    · simp only [if_true]
      rw [if_neg hn]

/-- `decimal2ulonglong` on a well-formed decimal: `E_DEC_OVERFLOW` and `0` for a negative
    sign, else the value truncated toward zero when it is a `ulonglong`, with
    `E_DEC_TRUNCATED` when that drops a fraction, and `ULONGLONG_MAX` with `E_DEC_OVERFLOW`
    when it is not. -/
theorem decimal2ulonglong_eq (hw : d.WellFormed) :
    decimal2ulonglong d =
      if d.sign then (0, .overflow)
      else if truncToZero d.val ≤ ulonglongMax then
        ((truncToZero d.val).toNat, if (truncToZero d.val : ℚ) = d.val then .ok else .truncated)
      else (ulonglongMax, .overflow) := by
  have hloop := ulonglongLoop_eq (digitsLt_intWords hw) (x := 0) (Nat.zero_le _)
  rw [zero_mul, zero_add] at hloop
  have hfrac := truncToZero_eq_val_iff hw
  have htrunc := truncToZero_val hw
  unfold decimal2ulonglong
  cases hs : d.sign
  · rw [hs, if_neg Bool.false_ne_true] at htrunc
    rw [if_neg Bool.false_ne_true, if_neg Bool.false_ne_true, hloop, htrunc]
    rw [htrunc] at hfrac
    -- the code: `E_DEC_TRUNCATED` exactly when the value is not an integer
    have hcode : (if d.fracWords.any (· != 0) then DecErr.truncated else .ok) =
        if ((digitsVal 1000000000 d.intWords : Int) : ℚ) = d.val then .ok else .truncated := by
      by_cases hz : d.fracWords.any (· != 0) = true
      · rw [if_pos hz, if_neg (fun h => by simp [hfrac.mp h] at hz)]
      · rw [if_neg hz, if_pos (hfrac.mpr (by simpa using hz))]
    rw [hcode]
    by_cases hI : digitsVal 1000000000 d.intWords ≤ ulonglongMax
    · have hI' : ((digitsVal 1000000000 d.intWords : Nat) : Int) ≤ (ulonglongMax : Nat) := by
        exact_mod_cast hI
      rw [if_pos hI, if_pos hI', Int.toNat_natCast]
    · have hI' : ¬ ((digitsVal 1000000000 d.intWords : Nat) : Int) ≤ (ulonglongMax : Nat) := by
        exact_mod_cast hI
      rw [if_neg hI, if_neg hI']
  · rfl

end Readers

/-! ## The writer -/

section Writer

/-- The word count from `v` with `j` words past the first: `j` turns, then the leading word. -/
theorem countWords_eq : ∀ (j fuel i v : Nat), 1000000000 ^ j ≤ v → v < 1000000000 ^ (j + 1) →
    j ≤ fuel → countWords fuel i v = (i + j, v / 1000000000 ^ j)
  | 0, fuel, i, v, _, h2, _ => by
    cases fuel <;> simp_all [countWords]
  | j + 1, 0, _, _, _, _, hf => absurd hf (by omega)
  | j + 1, fuel + 1, i, v, h1, h2, hf => by
    -- one more word: divide and count it
    have hB : 1000000000 ≤ v := le_trans (Nat.le_self_pow (by omega) _) h1
    have h1' : 1000000000 ^ j ≤ v / 1000000000 := by
      rw [Nat.le_div_iff_mul_le (by norm_num), ← pow_succ]; exact h1
    have h2' : v / 1000000000 < 1000000000 ^ (j + 1) := by
      rw [Nat.div_lt_iff_lt_mul (by norm_num), ← pow_succ]; exact h2
    rw [countWords, if_pos hB, countWords_eq j fuel (i + 1) (v / 1000000000) h1' h2' (by omega),
      Nat.div_div_eq_div_mul, ← pow_succ', Nat.add_assoc, Nat.add_comm 1 j]

/-- The digit count from `v`: one turn per decimal digit. -/
theorem countDigits_eq : ∀ (fuel intg v : Nat), (Nat.digits 10 v).length ≤ fuel →
    countDigits fuel intg v = intg + (Nat.digits 10 v).length
  | 0, intg, v, h => by
    have hv : v = 0 := by
      rcases Nat.eq_zero_or_pos v with hv | hv
      · exact hv
      · rw [Nat.digits_def' (by norm_num) hv] at h
        simp at h
    simp [countDigits, hv]
  | fuel + 1, intg, v, h => by
    rcases Nat.eq_zero_or_pos v with hv | hv
    · simp [countDigits, hv]
    · rw [Nat.digits_def' (by norm_num) hv, List.length_cons] at h ⊢
      rw [countDigits, if_pos hv.ne', countDigits_eq fuel (intg + 1) (v / 10) (by omega)]
      omega

/-- The store loop writes the `intg1` low words of `x` at the start of the buffer. -/
theorem storeWords_eq : ∀ (n : Nat) (buf : List Nat) (x : Nat), n ≤ buf.length →
    storeWords buf n x = writeAt buf 0 (digitsOf 1000000000 n x)
  | 0, buf, _, _ => by simp [storeWords, digitsOf]
  | n + 1, buf, x, h => by
    rw [storeWords, storeWords_eq n _ _ (by rw [List.length_set]; omega),
      writeAt_set (by omega) (digitsOf_length _ _ _), digitsOf]
    congr 3
    omega

/-- `ull2dec` of a non-zero `from` whose words fit: `E_DEC_OK`, the words of `from` in front,
    `intg` its digit count and no fraction. -/
theorem ull2dec_spec {frm : Nat} (hpos : 0 < frm) {dst : DecimalT}
    (hlen : Nat.log 1000000000 frm + 1 ≤ dst.len) :
    (ull2dec frm dst).2 = .ok ∧ (ull2dec frm dst).1.WellFormed ∧
      (ull2dec frm dst).1.DigitsConsistent ∧ (ull2dec frm dst).1.frac = 0 ∧
      (ull2dec frm dst).1.sign = dst.sign ∧ (ull2dec frm dst).1.absVal = frm := by
  -- `from` has `j + 1` words, the leading one `top`
  set j := Nat.log 1000000000 frm with hj
  have hj1 : 1000000000 ^ j ≤ frm := Nat.pow_log_le_self _ hpos.ne'
  have hj2 : frm < 1000000000 ^ (j + 1) := Nat.lt_pow_succ_log_self (by norm_num) frm
  have hjf : j ≤ frm := (Nat.lt_pow_self (by norm_num : 1 < 1000000000)).le.trans hj1
  set top := frm / 1000000000 ^ j with htop
  have ht0 : 0 < top := Nat.div_pos hj1 (by positivity)
  have htB : top < 1000000000 := by
    rw [htop, Nat.div_lt_iff_lt_mul (by positivity), ← pow_succ']
    exact hj2
  -- `top` has `L` digits, between one and nine
  set L := (Nat.digits 10 top).length with hL
  have hL1 : 1 ≤ L := (Nat.lt_digits_length_iff (by norm_num) top).mpr (by rw [pow_zero]; exact ht0)
  have hL9 : L ≤ 9 := (Nat.digits_length_le_iff (by norm_num) top).mpr (by simpa using htB)
  have htL : top < 10 ^ L := Nat.lt_base_pow_length_digits (by norm_num)
  have hLf : L ≤ top := (Nat.digits_length_le_iff (by norm_num) top).mpr
    (Nat.lt_pow_self (by norm_num))
  have hcw : countWords frm 1 frm = (1 + j, top) := countWords_eq j frm 1 frm hj1 hj2 hjf
  have hcd : countDigits top ((1 + j - 1) * 9) top = j * 9 + L := by
    rw [countDigits_eq top _ top hLf, Nat.add_sub_cancel_left]
  have hst : storeWords dst.buf (1 + j) frm = writeAt dst.buf 0 (digitsOf 1000000000 (1 + j) frm) :=
    storeWords_eq _ _ _ (by unfold DecimalT.len at hlen; omega)
  have hfit : ¬ 1 + j > dst.len := by omega
  -- the result, its integer words, and its leading word
  have hr : ull2dec frm dst =
      ({ dst with
          frac := 0, intg := j * 9 + L, buf := writeAt dst.buf 0 (digitsOf 1000000000 (1 + j) frm) },
        .ok) := by
    unfold ull2dec
    rw [if_neg hpos.ne']
    simp only [hcw, if_neg hfit, hcd, hst]
  have hru : roundUp (j * 9 + L) = 1 + j := by rw [roundUp_eq]; omega
  have htake : (writeAt dst.buf 0 (digitsOf 1000000000 (1 + j) frm)).take (1 + j) =
      digitsOf 1000000000 (1 + j) frm := by
    have h := take_writeAt (digitsOf 1000000000 (1 + j) frm) (l := dst.buf) (Nat.zero_le _)
    rwa [digitsOf_length, Nat.zero_add, List.take_zero, List.nil_append] at h
  have hlead : (writeAt dst.buf 0 (digitsOf 1000000000 (1 + j) frm)).getD 0 0 = top := by
    rw [digitsOf_add, writeAt]
    simpa [digitsOf, htop] using htB
  have hlenw : (writeAt dst.buf 0 (digitsOf 1000000000 (1 + j) frm)).length = dst.len :=
    length_writeAt (by rw [digitsOf_length]; unfold DecimalT.len at hlen; omega)
  rw [hr]
  refine ⟨rfl, ⟨?_, ?_⟩, ⟨fun hm => ?_, fun hm => absurd rfl hm⟩, rfl, rfl, ?_⟩
  · show roundUp (j * 9 + L) + roundUp 0 ≤ _
    rw [hru, DecimalT.len, hlenw]
    simpa using hfit
  · show DigitsLt 1000000000 ((writeAt dst.buf 0 _).take (roundUp (j * 9 + L) + roundUp 0))
    rw [hru, roundUp_eq, Nat.add_zero, htake]
    exact digitsLt_digitsOf (by norm_num) _ _
  · -- a leading word of fewer than nine digits has at most `intg % 9`
    have hm' : (j * 9 + L) % 9 ≠ 0 := hm
    show (writeAt dst.buf 0 _).getD 0 0 < 10 ^ ((j * 9 + L) % 9)
    rw [hlead, show (j * 9 + L) % 9 = L by omega]
    exact htL
  · show digitsVal 1000000000 ((writeAt dst.buf 0 _).take (roundUp (j * 9 + L))) +
      digitsFrac 1000000000 (((writeAt dst.buf 0 _).drop (roundUp (j * 9 + L))).take (roundUp 0)) = _
    rw [hru, htake, digitsVal_digitsOf, Nat.mod_eq_of_lt (by rw [Nat.add_comm]; exact hj2)]
    simp

end Writer

/-! ## Round trips -/

section RoundTrip

/-- `ull2dec` of any `from` below `2^64` into three words or more: `E_DEC_OK` and a well-formed
    decimal of value `from`, with the sign `to` had unless it is zero. -/
theorem ull2dec_val {frm : Nat} (hfrm : frm < 2 ^ 64) {dst : DecimalT} (hlen : 3 ≤ dst.len) :
    (ull2dec frm dst).2 = .ok ∧ (ull2dec frm dst).1.WellFormed ∧
      (ull2dec frm dst).1.sign = (dst.sign && frm != 0) ∧
      (ull2dec frm dst).1.val = if dst.sign then -(frm : ℚ) else frm := by
  rcases Nat.eq_zero_or_pos frm with h0 | hpos
  · -- zero: `decimal_make_zero`
    subst h0
    obtain ⟨hw, hz⟩ := decimalMakeZero_wellFormed (d := dst) (by omega)
    unfold ull2dec
    rw [if_pos rfl]
    refine ⟨rfl, hw, by simp, ?_⟩
    simp [DecimalT.val, hz]
  · -- below `2^64`, at most three words
    have hlog : Nat.log 1000000000 frm + 1 ≤ dst.len := by
      have := Nat.log_lt_of_lt_pow hpos.ne' (show frm < 1000000000 ^ 3 from
        lt_trans hfrm (by norm_num))
      omega
    obtain ⟨hok, hw, -, -, hs, hv⟩ := ull2dec_spec hpos hlog
    refine ⟨hok, hw, by simp [hs, hpos.ne'], ?_⟩
    rw [DecimalT.val, hs, hv]

/-- `longlong2decimal` of any `longlong` into three words or more: `E_DEC_OK` and a
    well-formed decimal of that value. -/
theorem longlong2decimal_val {n : Int} (h1 : longlongMin ≤ n) (h2 : n ≤ longlongMax)
    {dst : DecimalT} (hlen : 3 ≤ dst.len) :
    (longlong2decimal n dst).2 = .ok ∧ (longlong2decimal n dst).1.WellFormed ∧
      (longlong2decimal n dst).1.val = n := by
  unfold longlong2decimal
  split_ifs with hneg hmin
  · -- `LONGLONG_MIN`, whose magnitude is `(ulonglong)LONGLONG_MIN = 2^63`
    obtain ⟨hok, hw, -, hv⟩ := @ull2dec_val (toUnsigned 64 longlongMin) (toUnsigned_lt 64 _)
      { dst with sign := true } hlen
    refine ⟨hok, hw, ?_⟩
    rw [hv, hmin, show toUnsigned 64 longlongMin = 2 ^ 63 from rfl]
    simp [longlongMin]
  · -- a negative `from`: the magnitude `-from`
    have hu : (toUnsigned 64 (-n) : Int) = -n :=
      toUnsigned_of_lt (by omega) (by unfold longlongMin at h1; omega)
    obtain ⟨hok, hw, -, hv⟩ := @ull2dec_val (toUnsigned 64 (-n)) (toUnsigned_lt 64 _)
      { dst with sign := true } hlen
    refine ⟨hok, hw, ?_⟩
    have hq : ((toUnsigned 64 (-n) : Nat) : ℚ) = ((-n : Int) : ℚ) := by exact_mod_cast hu
    rw [hv, if_pos rfl, hq]
    push_cast
    ring
  · have hu : (toUnsigned 64 n : Int) = n :=
      toUnsigned_of_lt (by omega) (by unfold longlongMax at h2; omega)
    obtain ⟨hok, hw, -, hv⟩ := @ull2dec_val (toUnsigned 64 n) (toUnsigned_lt 64 _)
      { dst with sign := false } hlen
    refine ⟨hok, hw, ?_⟩
    have hq : ((toUnsigned 64 n : Nat) : ℚ) = ((n : Int) : ℚ) := by exact_mod_cast hu
    rw [hv, if_neg Bool.false_ne_true, hq]

end RoundTrip

/-- The conversions between `decimal_t` and the 64-bit integers. Every `longlong` and every
    `ulonglong` goes through a decimal of three words or more and back unchanged, with
    `E_DEC_OK` both ways; and `decimal2longlong` of any well-formed decimal is its value
    truncated toward zero, `E_DEC_TRUNCATED` when that drops a fraction, or the bound by sign
    with `E_DEC_OVERFLOW` when it is not a `longlong`. -/
theorem decimal_int_conversions :
    (∀ (n : Int) (dst : DecimalT), longlongMin ≤ n → n ≤ longlongMax → 3 ≤ dst.len →
      (longlong2decimal n dst).2 = .ok ∧
        decimal2longlong (longlong2decimal n dst).1 = (n, .ok)) ∧
    (∀ (n : Nat) (dst : DecimalT), n ≤ ulonglongMax → 3 ≤ dst.len →
      (ulonglong2decimal n dst).2 = .ok ∧
        decimal2ulonglong (ulonglong2decimal n dst).1 = (n, .ok)) ∧
    (∀ d : DecimalT, d.WellFormed →
      decimal2longlong d =
        if longlongMin ≤ truncToZero d.val ∧ truncToZero d.val ≤ longlongMax then
          (truncToZero d.val, if (truncToZero d.val : ℚ) = d.val then .ok else .truncated)
        else (if d.sign then longlongMin else longlongMax, .overflow)) := by
  refine ⟨fun n dst h1 h2 hlen => ?_, fun n dst h hlen => ?_, fun d hw => decimal2longlong_eq hw⟩
  · obtain ⟨hok, hw, hv⟩ := longlong2decimal_val h1 h2 hlen
    refine ⟨hok, ?_⟩
    rw [decimal2longlong_eq hw, hv, truncToZero_intCast, if_pos ⟨h1, h2⟩, if_pos rfl]
  · obtain ⟨hok, hw, hs, hv⟩ := @ull2dec_val n (by unfold ulonglongMax at h; omega)
      { dst with sign := false } hlen
    refine ⟨hok, ?_⟩
    have hn : (n : ℚ) = ((n : Int) : ℚ) := rfl
    have hle : (n : Int) ≤ (ulonglongMax : Nat) := by exact_mod_cast h
    unfold ulonglong2decimal
    rw [decimal2ulonglong_eq hw, hs, hv, if_neg (by simp), if_neg Bool.false_ne_true, hn,
      truncToZero_intCast, if_pos hle, if_pos rfl, Int.toNat_natCast]

/-- A `longlong` whose words do not fit: `10^9` into a buffer of one word keeps its low word
    with `E_DEC_OVERFLOW`, and that decimal reads back as `0` with `E_DEC_OK`. -/
theorem longlong2decimal_short_buffer :
    longlong2decimal 1000000000 ⟨0, 0, false, [0]⟩ = (⟨1, 0, false, [0]⟩, .overflow) ∧
      decimal2longlong ⟨1, 0, false, [0]⟩ = (0, .ok) := by
  decide

end MariaDB.Decimal
