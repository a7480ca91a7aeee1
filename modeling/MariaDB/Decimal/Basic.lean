import MariaDB.Lib.Radix
import Mathlib.Data.List.TakeWhile
import Mathlib.Data.Nat.Digits.Lemmas
import Mathlib.Tactic.IntervalCases

/-
  `decimal_t` of strings/decimal.c: a sign, a count `intg` of decimal digits before the point,
  a count `frac` after it, and a buffer of base-`10^9` words (`DIG_BASE`, `DIG_PER_DEC1 = 9`
  digits a word). The first `ROUND_UP(intg)` words hold the integer part, the next
  `ROUND_UP(frac)` the fraction, most significant word first; `len` is the buffer length.
  A word is kept as its 32-bit pattern (`decimal_digit_t` is `int32`), so a word some routine
  leaves negative on an error path is a pattern `≥ 2^31`.

  `val` is the exact rational value the words denote. `WellFormed` is the representation
  invariant of the comment at the top of decimal.c (used words fit the buffer and are below
  `DIG_BASE`); `DigitsConsistent` adds that the partial words agree with the digit counts:
  the leading word has at most `intg % 9` digits and the trailing fraction word has zeros
  below its last counted digit.

  Modelled here: `remove_leading_zeroes` (as `removeLeadingZeroes`) with `decimal_intg`, and
  `decimal_make_zero`. `removeLeadingZeroes_spec` says what the first returns on a
  consistent decimal: the index of the first non-zero integer word and the number of
  significant integer digits.
-/

namespace MariaDB.Decimal

open MariaDB.Lib

/-- `ROUND_UP(x)`: the number of words holding `x` digits. -/
def roundUp (x : Nat) : Nat := (x + (if 0 < x then 9 - 1 else 0)) / 9

/-- `dig2bytes[i]`: the bytes needed for a field of `i` decimal digits. -/
def dig2bytes : Nat → Nat
  | 1 => 1 | 2 => 1 | 3 => 2 | 4 => 2 | 5 => 3 | 6 => 3 | 7 => 4 | 8 => 4 | 9 => 4
  | _ => 0

/-- `decimal_t`. `buf` is the allocated buffer, so `len` is its length. -/
structure DecimalT where
  intg : Nat
  frac : Nat
  sign : Bool
  buf : List Nat
  deriving Repr, DecidableEq

namespace DecimalT

/-- `len`: the allocated words. -/
def len (d : DecimalT) : Nat := d.buf.length

/-- The integer words: the first `ROUND_UP(intg)` words. -/
def intWords (d : DecimalT) : List Nat := d.buf.take (roundUp d.intg)

/-- The fraction words: the `ROUND_UP(frac)` words after the integer words. -/
def fracWords (d : DecimalT) : List Nat := (d.buf.drop (roundUp d.intg)).take (roundUp d.frac)

/-- The magnitude the words denote. -/
def absVal (d : DecimalT) : ℚ :=
  digitsVal 1000000000 d.intWords + digitsFrac 1000000000 d.fracWords

/-- The value the decimal denotes. -/
def val (d : DecimalT) : ℚ := if d.sign then -d.absVal else d.absVal

/-- The representation invariant of `decimal_t`. -/
structure WellFormed (d : DecimalT) : Prop where
  /-- `ROUND_UP(intg) + ROUND_UP(frac) ≤ len`. -/
  fits : roundUp d.intg + roundUp d.frac ≤ d.len
  /-- Every used word is below `DIG_BASE`. -/
  words : DigitsLt 1000000000 (d.buf.take (roundUp d.intg + roundUp d.frac))

/-- The partial words agree with the digit counts. -/
structure DigitsConsistent (d : DecimalT) : Prop where
  /-- The leading integer word has at most `intg % 9` digits. -/
  lead : d.intg % 9 ≠ 0 → d.buf.getD 0 0 < 10 ^ (d.intg % 9)
  /-- The last fraction word is zero below its `frac % 9` counted digits. -/
  trail : d.frac % 9 ≠ 0 →
    10 ^ (9 - d.frac % 9) ∣ d.buf.getD (roundUp d.intg + roundUp d.frac - 1) 0

instance (d : DecimalT) : Decidable d.WellFormed :=
  decidable_of_iff (roundUp d.intg + roundUp d.frac ≤ d.len ∧
      DigitsLt 1000000000 (d.buf.take (roundUp d.intg + roundUp d.frac)))
    ⟨fun h => ⟨h.1, h.2⟩, fun h => ⟨h.1, h.2⟩⟩

instance (d : DecimalT) : Decidable d.DigitsConsistent :=
  decidable_of_iff ((d.intg % 9 ≠ 0 → d.buf.getD 0 0 < 10 ^ (d.intg % 9)) ∧
      (d.frac % 9 ≠ 0 →
        10 ^ (9 - d.frac % 9) ∣ d.buf.getD (roundUp d.intg + roundUp d.frac - 1) 0))
    ⟨fun h => ⟨h.1, h.2⟩, fun h => ⟨h.1, h.2⟩⟩

/-- A negative sign on the value zero. -/
def NegZero (d : DecimalT) : Prop := d.sign = true ∧ d.absVal = 0

end DecimalT

/-! ## Basic arithmetic of the layout -/

@[simp] theorem roundUp_eq (x : Nat) : roundUp x = (x + 8) / 9 := by
  unfold roundUp
  split <;> omega

theorem roundUp_eq_div_add (x : Nat) : roundUp x = x / 9 + (if x % 9 = 0 then 0 else 1) := by
  rw [roundUp_eq]
  split <;> omega

theorem dig2bytes_le_four (i : Nat) : dig2bytes i ≤ 4 := by
  unfold dig2bytes
  split <;> omega

/-- A field of `i ≤ 9` digits fits its `dig2bytes[i]` bytes with the top bit clear. -/
theorem pow_lt_dig2bytes (i : Nat) (hi : i ≤ 9) : 10 ^ i ≤ 2 ^ (8 * dig2bytes i - 1) ∨ i = 0 := by
  interval_cases i <;> simp [dig2bytes]

theorem dig2bytes_mono {i j : Nat} (h : i ≤ j) (hj : j ≤ 9) : dig2bytes i ≤ dig2bytes j := by
  interval_cases j <;> interval_cases i <;> simp [dig2bytes]

/-! ## The integer and fraction words -/

open DecimalT

/-- The integer words after the leading zero words `do_sub` skips. -/
def sigWords (d : DecimalT) : List Nat := d.intWords.dropWhile (· == 0)

theorem intWords_eq_takeWhile_append (d : DecimalT) :
    d.intWords = d.intWords.takeWhile (· == 0) ++ sigWords d :=
  (List.takeWhile_append_dropWhile).symm

theorem digitsVal_sigWords (b : Nat) (d : DecimalT) :
    digitsVal b (sigWords d) = digitsVal b d.intWords :=
  digitsVal_dropWhile_zero b d.intWords

theorem take_roundUp_intg (d : DecimalT) : d.buf.take (roundUp d.intg) = d.intWords := rfl

theorem take_intg_frac (d : DecimalT) :
    d.buf.take (roundUp d.intg + roundUp d.frac) = d.intWords ++ d.fracWords := by
  rw [List.take_add]
  rfl

theorem intWords_length {d : DecimalT} (hd : d.WellFormed) :
    d.intWords.length = roundUp d.intg := by
  have := hd.fits
  simp only [DecimalT.len] at this
  simp only [intWords, List.length_take]
  omega

theorem fracWords_length {d : DecimalT} (hd : d.WellFormed) :
    d.fracWords.length = roundUp d.frac := by
  have := hd.fits
  simp only [DecimalT.len] at this
  simp only [fracWords, List.length_take, List.length_drop]
  omega

theorem sigWords_length {d : DecimalT} (hd : d.WellFormed) :
    (sigWords d).length = roundUp d.intg - (d.intWords.takeWhile (· == 0)).length := by
  have := congrArg List.length (intWords_eq_takeWhile_append d)
  rw [List.length_append, intWords_length hd] at this
  omega

theorem digitsLt_intWords {d : DecimalT} (hd : d.WellFormed) :
    DigitsLt 1000000000 d.intWords := by
  have h := hd.words
  rw [take_intg_frac, digitsLt_append] at h
  exact h.1

theorem digitsLt_fracWords {d : DecimalT} (hd : d.WellFormed) :
    DigitsLt 1000000000 d.fracWords := by
  have h := hd.words
  rw [take_intg_frac, digitsLt_append] at h
  exact h.2

theorem digitsLt_sigWords {d : DecimalT} (hd : d.WellFormed) :
    DigitsLt 1000000000 (sigWords d) :=
  fun w hw => digitsLt_intWords hd w (List.dropWhile_sublist _ |>.subset hw)

/-! ## `remove_leading_zeroes` and `decimal_intg` -/

/-- The word loop of `remove_leading_zeroes`: while digits remain and the word is zero, drop
    the word and its digits; `i` digits are in the current word. Returns the words skipped
    and the digits left. -/
def skipZeroWords : List Nat → Nat → Nat → Nat × Nat
  | w :: ws, intg, i =>
    if 0 < intg ∧ w = 0 then
      let r := skipZeroWords ws (intg - i) 9
      (r.1 + 1, r.2)
    else (0, intg)
  | [], intg, _ => (0, intg)

/-- The digit loop of `remove_leading_zeroes`: while the leading word is below `10^i`, count
    one digit less, `i` running down. The loop is entered only at a non-zero word, so the
    test against `powers10[0] = 1` ends it. -/
def trimLeadDigits (w : Nat) : Nat → Nat → Nat
  | 0, intg => intg
  | i + 1, intg => if w < 10 ^ (i + 1) then trimLeadDigits w i (intg - 1) else intg

/-- `remove_leading_zeroes`: the index of the first significant word and the number of
    significant integer digits. -/
def removeLeadingZeroes (d : DecimalT) : Nat × Nat :=
  let r := skipZeroWords d.buf d.intg ((d.intg - 1) % 9 + 1)
  if 0 < r.2 then (r.1, trimLeadDigits (d.buf.getD r.1 0) ((r.2 - 1) % 9) r.2)
  else (r.1, 0)

/-- `decimal_intg`: the number of significant integer digits. -/
def decimalIntg (d : DecimalT) : Nat := (removeLeadingZeroes d).2

/-- `decimal_make_zero`. -/
def decimalMakeZero (d : DecimalT) : DecimalT :=
  { d with buf := d.buf.set 0 0, intg := 1, frac := 0, sign := false }

@[simp] theorem decimalMakeZero_sign (d : DecimalT) : (decimalMakeZero d).sign = false := rfl

@[simp] theorem decimalMakeZero_frac (d : DecimalT) : (decimalMakeZero d).frac = 0 := rfl

/-- `decimal_make_zero` on a buffer of at least one word leaves a well-formed zero. -/
theorem decimalMakeZero_wellFormed {d : DecimalT} (h : 0 < d.len) :
    (decimalMakeZero d).WellFormed ∧ (decimalMakeZero d).absVal = 0 := by
  obtain ⟨intg, frac, sign, buf⟩ := d
  cases buf with
  | nil => exact absurd h (by simp [DecimalT.len])
  | cons b bs =>
    -- one integer word, zero, and no fraction words
    have hi : (decimalMakeZero ⟨intg, frac, sign, b :: bs⟩).intWords = [0] := by
      simp [decimalMakeZero, DecimalT.intWords]
    have hf : (decimalMakeZero ⟨intg, frac, sign, b :: bs⟩).fracWords = [] := by
      simp [decimalMakeZero, DecimalT.fracWords]
    refine ⟨⟨by simp [decimalMakeZero, DecimalT.len], ?_⟩, ?_⟩
    · simp [decimalMakeZero, DigitsLt]
    · rw [DecimalT.absVal, hi, hf]
      simp [digitsVal_cons]

/-- The number of decimal digits of `v`, as `Nat.digits` counts them (none for zero). -/
theorem digits_length_eq {v L : Nat} (hL : 0 < L) (h1 : 10 ^ (L - 1) ≤ v) (h2 : v < 10 ^ L) :
    (Nat.digits 10 v).length = L := by
  have hle := (Nat.digits_length_le_iff (by norm_num) v).2 h2
  have hlt := (Nat.lt_digits_length_iff (by norm_num) v).2 h1
  omega

/-- A non-zero leading word followed by full words: its digits and nine per word. -/
theorem digits_length_digitsVal_cons {w : Nat} (hw : w ≠ 0) {ws : List Nat}
    (h : DigitsLt 1000000000 ws) :
    (Nat.digits 10 (digitsVal 1000000000 (w :: ws))).length =
      (Nat.digits 10 w).length + 9 * ws.length := by
  set L := (Nat.digits 10 w).length
  have hL0 : 0 < L := (Nat.lt_digits_length_iff (by norm_num) w).2 (by simp; omega)
  have hL1 : 10 ^ (L - 1) ≤ w := (Nat.lt_digits_length_iff (by norm_num) w).1 (by omega)
  have hL2 : w < 10 ^ L := (Nat.digits_length_le_iff (by norm_num) w).1 le_rfl
  have hB : (1000000000 : Nat) ^ ws.length = 10 ^ (9 * ws.length) := by
    rw [pow_mul]; norm_num
  have hr := digitsVal_lt h
  rw [hB] at hr
  rw [digitsVal_cons, hB]
  apply digits_length_eq (by omega)
  · calc 10 ^ (L + 9 * ws.length - 1) = 10 ^ (L - 1) * 10 ^ (9 * ws.length) := by
          rw [← pow_add]; congr 1; omega
      _ ≤ w * 10 ^ (9 * ws.length) := Nat.mul_le_mul_right _ hL1
      _ ≤ _ := Nat.le_add_right _ _
  · calc w * 10 ^ (9 * ws.length) + digitsVal 1000000000 ws
          < w * 10 ^ (9 * ws.length) + 10 ^ (9 * ws.length) := Nat.add_lt_add_left hr _
      _ = (w + 1) * 10 ^ (9 * ws.length) := (Nat.succ_mul _ _).symm
      _ ≤ 10 ^ L * 10 ^ (9 * ws.length) := Nat.mul_le_mul_right _ hL2
      _ = 10 ^ (L + 9 * ws.length) := (pow_add _ _ _).symm

theorem skipZeroWords_zero (ws : List Nat) (i : Nat) : skipZeroWords ws 0 i = (0, 0) := by
  cases ws <;> simp [skipZeroWords]

/-- The word loop skips the leading zero words among the first `m`, when `intg` counts `i`
    digits in the first word and nine in each other; the digits of the skipped words go. -/
theorem skipZeroWords_spec : ∀ (ws : List Nat) (m i intg : Nat), 0 < m → m ≤ ws.length →
    0 < i → i ≤ 9 → intg = 9 * m + i - 9 →
    skipZeroWords ws intg i =
      (((ws.take m).takeWhile (· == 0)).length,
        if ((ws.take m).takeWhile (· == 0)).length = 0 then intg
        else 9 * (m - ((ws.take m).takeWhile (· == 0)).length))
  | [], _, _, _, hm, hl, _, _, _ => by simp at hl; omega
  | w :: ws, m, i, intg, hm, hl, hi, hi9, hintg => by
    obtain ⟨m, rfl⟩ : ∃ m', m = m' + 1 := ⟨m - 1, by omega⟩
    by_cases hw : w = 0
    · subst hw
      have hpos : 0 < intg := by omega
      simp only [skipZeroWords, hpos, true_and, if_true, List.take_succ_cons,
        List.takeWhile_cons, beq_self_eq_true, List.length_cons]
      rcases Nat.eq_zero_or_pos m with rfl | hm'
      · -- the only word was zero: no digits are left
        simp [show intg - i = 0 by omega, skipZeroWords_zero]
      · -- the rest starts on a word boundary, nine digits a word
        rw [skipZeroWords_spec ws m 9 (intg - i) hm' (by simp at hl; omega) (by omega) le_rfl
          (by omega)]
        simp only [Prod.mk.injEq, Nat.add_eq_zero_iff, one_ne_zero, and_false, if_false,
          true_and]
        split <;> omega
    · have hz : ((w :: ws).take (m + 1)).takeWhile (· == 0) = [] := by
        simp [List.take_succ_cons, hw]
      simp [skipZeroWords, hw]

/-- The digit loop: on a non-zero word below `10^(j+1)`, `j + 1` digit places are trimmed to
    the word's own digits. -/
theorem trimLeadDigits_eq {w : Nat} (hw : 0 < w) :
    ∀ j n, w < 10 ^ (j + 1) → trimLeadDigits w j n = n + (Nat.digits 10 w).length - (j + 1)
  | 0, n, h => by
    have hL : (Nat.digits 10 w).length = 1 := digits_length_eq (by norm_num) (by simpa) h
    simp [trimLeadDigits, hL]
  | j + 1, n, h => by
    have hle := (Nat.digits_length_le_iff (by norm_num) w).2 h
    simp only [trimLeadDigits]
    split
    · rename_i hlt
      have hle' := (Nat.digits_length_le_iff (by norm_num) w).2 hlt
      rw [trimLeadDigits_eq hw j (n - 1) hlt]
      have hL0 : 0 < (Nat.digits 10 w).length :=
        (Nat.lt_digits_length_iff (by norm_num) w).2 (by simp; omega)
      omega
    · rename_i hge
      have hgt := (Nat.lt_digits_length_iff (by norm_num) w).2 (Nat.le_of_not_lt hge)
      omega

/-- The first significant integer word sits in the buffer right after the zero words. -/
theorem buf_getD_takeWhile {d : DecimalT} {w : Nat} {rest : List Nat}
    (h : sigWords d = w :: rest) : d.buf.getD (d.intWords.takeWhile (· == 0)).length 0 = w := by
  have hbuf : d.buf = d.intWords.takeWhile (· == 0) ++ (w :: rest ++ d.buf.drop (roundUp d.intg)) := by
    rw [← List.append_assoc, ← h, ← intWords_eq_takeWhile_append, intWords, List.take_append_drop]
  rw [hbuf]
  simp [List.getD_eq_getElem?_getD]

theorem head_sigWords_ne_zero {d : DecimalT} {w : Nat} {rest : List Nat}
    (h : sigWords d = w :: rest) : w ≠ 0 := by
  have hne : sigWords d ≠ [] := by simp [h]
  have := List.head_dropWhile_not (· == 0) hne
  simp only [sigWords] at h
  simp only [h, List.head_cons] at this
  simpa using this

/-- `remove_leading_zeroes` on a consistent decimal: the index of the first non-zero integer
    word, and the number of decimal digits of the integer part. -/
theorem removeLeadingZeroes_eq {d : DecimalT} (hw : d.WellFormed) (hc : d.DigitsConsistent) :
    removeLeadingZeroes d = ((d.intWords.takeWhile (· == 0)).length,
      (Nat.digits 10 (digitsVal 1000000000 d.intWords)).length) := by
  rcases Nat.eq_zero_or_pos d.intg with h0 | hpos
  · have hnil : d.intWords = [] := by simp [intWords, h0]
    simp [removeLeadingZeroes, h0, skipZeroWords_zero, hnil]
  have hm : 0 < roundUp d.intg := by rw [roundUp_eq]; omega
  have hl : roundUp d.intg ≤ d.buf.length := by
    have := hw.fits
    simp only [len] at this
    omega
  have hs := skipZeroWords_spec d.buf (roundUp d.intg) ((d.intg - 1) % 9 + 1) d.intg hm hl
    (by omega) (by omega) (by rw [roundUp_eq]; omega)
  rw [take_roundUp_intg] at hs
  have hsig := sigWords_length hw
  unfold removeLeadingZeroes
  rw [hs]
  generalize hz : (d.intWords.takeWhile (· == 0)).length = z at hsig ⊢
  cases hsw : sigWords d with
  | nil =>
    -- every integer word is zero
    have hv : digitsVal 1000000000 d.intWords = 0 := by
      rw [← digitsVal_sigWords, hsw]
      rfl
    have hzm : z = roundUp d.intg := by
      have : z ≤ roundUp d.intg := by
        rw [← hz, ← intWords_length hw]
        exact (List.takeWhile_sublist _).length_le
      rw [hsw, List.length_nil] at hsig
      omega
    rw [hzm, if_neg (Nat.pos_iff_ne_zero.mp hm), Nat.sub_self, Nat.mul_zero,
      if_neg (lt_irrefl 0), hv]
    rfl
  | cons w rest =>
    rw [hsw] at hsig
    simp only [List.length_cons] at hsig
    have hw0 := head_sigWords_ne_zero hsw
    have hget : d.buf.getD z 0 = w := hz ▸ buf_getD_takeWhile hsw
    have hwlt : w < 10 ^ 9 := digitsLt_sigWords hw w (by simp [hsw])
    have hdig : (Nat.digits 10 (digitsVal 1000000000 d.intWords)).length =
        (Nat.digits 10 w).length + 9 * rest.length := by
      rw [← digitsVal_sigWords, hsw]
      exact digits_length_digitsVal_cons hw0
        ((digitsLt_cons.mp (hsw ▸ digitsLt_sigWords hw)).2)
    -- the digits left after the word loop, and the bound the digit loop starts from
    have hr : ∀ r, r = (if z = 0 then d.intg else 9 * (roundUp d.intg - z)) →
        0 < r ∧ r - ((r - 1) % 9 + 1) = 9 * rest.length ∧ w < 10 ^ ((r - 1) % 9 + 1) := by
      rintro r rfl
      split
      · rename_i hz0
        rw [roundUp_eq] at hsig
        refine ⟨hpos, by omega, ?_⟩
        by_cases h9 : d.intg % 9 = 0
        · rwa [show (d.intg - 1) % 9 + 1 = 9 by omega]
        · rw [show (d.intg - 1) % 9 + 1 = d.intg % 9 by omega, ← hget, hz0]
          exact hc.lead h9
      · refine ⟨by omega, by omega, ?_⟩
        rwa [show (9 * (roundUp d.intg - z) - 1) % 9 + 1 = 9 by omega]
    obtain ⟨hr0, hrw, hrb⟩ := hr _ rfl
    rw [if_pos hr0, hget, trimLeadDigits_eq (Nat.pos_of_ne_zero hw0) _ _ hrb, hdig]
    congr 1
    omega

/-- `decimal_intg` counts the decimal digits of the integer part. -/
theorem decimalIntg_eq {d : DecimalT} (hw : d.WellFormed) (hc : d.DigitsConsistent) :
    decimalIntg d = (Nat.digits 10 (digitsVal 1000000000 d.intWords)).length := by
  rw [decimalIntg, removeLeadingZeroes_eq hw hc]

/-- Fitting `n` integer digits is a bound on the integer part. -/
theorem decimalIntg_le_iff {d : DecimalT} (hw : d.WellFormed) (hc : d.DigitsConsistent)
    (n : Nat) : decimalIntg d ≤ n ↔ digitsVal 1000000000 d.intWords < 10 ^ n := by
  rw [decimalIntg_eq hw hc]
  exact Nat.digits_length_le_iff (by norm_num) _

/-- Past the leading zero words the buffer holds the significant integer words, then the
    fraction words. -/
theorem drop_takeWhile_buf (d : DecimalT) :
    d.buf.drop (d.intWords.takeWhile (· == 0)).length = sigWords d ++ d.buf.drop (roundUp d.intg) := by
  have h := intWords_eq_takeWhile_append d
  generalize d.intWords.takeWhile (· == 0) = tw at h ⊢
  conv_lhs => rw [← List.take_append_drop (roundUp d.intg) d.buf, take_roundUp_intg, h,
    List.append_assoc]
  rw [List.drop_left]

/-- The significant integer words are as many as the significant digits need. -/
theorem sigWords_length_eq {d : DecimalT} (hw : d.WellFormed) (hc : d.DigitsConsistent) :
    (sigWords d).length = roundUp (decimalIntg d) := by
  rw [decimalIntg_eq hw hc, ← digitsVal_sigWords]
  cases hsw : sigWords d with
  | nil => rfl
  | cons w rest =>
    have hw0 := head_sigWords_ne_zero hsw
    have hlt := digitsLt_cons.mp (hsw ▸ digitsLt_sigWords hw)
    rw [digits_length_digitsVal_cons hw0 hlt.2, roundUp_eq]
    have hL0 : 0 < (Nat.digits 10 w).length :=
      (Nat.lt_digits_length_iff (by norm_num) w).2 (by simp; omega)
    have hL9 : (Nat.digits 10 w).length ≤ 9 :=
      (Nat.digits_length_le_iff (by norm_num) w).2 (by simpa using hlt.1)
    simp only [List.length_cons]
    omega

theorem digitsVal_sigWords_lt {d : DecimalT} (hw : d.WellFormed) (hc : d.DigitsConsistent) :
    digitsVal 1000000000 (sigWords d) < 10 ^ decimalIntg d := by
  rw [digitsVal_sigWords]
  exact (decimalIntg_le_iff hw hc _).mp le_rfl

end MariaDB.Decimal
