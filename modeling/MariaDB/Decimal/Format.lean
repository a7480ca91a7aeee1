import MariaDB.Decimal.Bin
import Mathlib.Data.Nat.Cast.Field
import Mathlib.Data.Rat.Cast.Order
import Mathlib.Tactic.FieldSimp
import Mathlib.Tactic.NormNum

/-
  The binary format of DECIMAL(precision, scale) as one row of mixed-radix fields
  (`mrEncode`), and the number that row stores.

  Model. With `intg = precision - scale`, the row `binFields precision scale` lists, from the
  least significant field up: the trailing field of `scale % 9` digits in
  `dig2bytes[scale % 9]` bytes, `scale / 9` fraction words, `intg / 9` integer words of four
  bytes, and the leading field of `intg % 9` digits. A partial field of no digits is the
  field of radix 1 and width 0, which writes nothing, so every split of `precision` and
  `scale` modulo 9 has the same shape. The number stored, `scaledAbs d scale`, is the
  magnitude times `10^scale`: the integer words, then the fraction words padded with zeros or
  cut to `scale` digits (`fracScaled`).

  Proved:
  * `widthSum_binFields`, `radixProd_binFields`, `fieldsHalf_binFields`: the row has
    `decimal_bin_size` bytes, holds the numbers below `10^precision`, and every field keeps
    its top bit clear;
  * `scaledAbs_cast`: when the fraction has at most `scale` digits, the stored number is
    exactly `|d| * 10^scale`;
  * `mrEncode_intFields_pad`: more room for integer digits adds zero bytes in front;
  * `mrEncode_intFields_sig`, `mrEncode_fracFields_pad`, `mrEncode_fracFields_trail`: the
    fields of the significant integer words, and of a fraction padded with zero words or cut
    inside its last word, as `decimal2bin` writes them.
-/

namespace MariaDB.Decimal

open MariaDB.Lib DecimalT

/-! ## The row of fields -/

/-- The field of the `x % 9` digits not in a full word: `dig2bytes[x % 9]` bytes. -/
def binField (x : Nat) : Nat × Nat := (10 ^ (x % 9), dig2bytes (x % 9))

/-- A full word: nine digits in four bytes. -/
def wordField : Nat × Nat := (1000000000, 4)

/-- The integer part: full words, and the leading partial field on top. -/
def intFields (intg : Nat) : List (Nat × Nat) :=
  List.replicate (intg / 9) wordField ++ [binField intg]

/-- The fraction part: the trailing partial field, and full words above it. -/
def fracFields (scale : Nat) : List (Nat × Nat) :=
  binField scale :: List.replicate (scale / 9) wordField

/-- DECIMAL(precision, scale), least significant field first. -/
def binFields (precision scale : Nat) : List (Nat × Nat) :=
  fracFields scale ++ intFields (precision - scale)

/-- The bytes of `x` digits: `x / 9` words and the partial field. -/
def digitsSize (x : Nat) : Nat := x / 9 * 4 + dig2bytes (x % 9)

theorem widthSum_replicate (n : Nat) (p : Nat × Nat) :
    widthSum (List.replicate n p) = n * p.2 := by
  simp [widthSum]

theorem radixProd_replicate (n : Nat) (p : Nat × Nat) :
    radixProd (List.replicate n p) = p.1 ^ n := by
  simp [radixProd]

theorem widthSum_intFields (intg : Nat) : widthSum (intFields intg) = digitsSize intg := by
  simp [intFields, widthSum, digitsSize, binField, wordField, Nat.mul_comm]

theorem widthSum_fracFields (scale : Nat) : widthSum (fracFields scale) = digitsSize scale := by
  simp [fracFields, widthSum, digitsSize, binField, wordField, Nat.mul_comm, Nat.add_comm]

theorem decimalBinSize_eq (precision scale : Nat) :
    decimalBinSize precision scale = digitsSize (precision - scale) + digitsSize scale := by
  simp only [decimalBinSize, digitsSize]
  omega

theorem widthSum_binFields (precision scale : Nat) :
    widthSum (binFields precision scale) = decimalBinSize precision scale := by
  rw [binFields, widthSum, List.map_append, List.sum_append, ← widthSum, ← widthSum,
    widthSum_intFields, widthSum_fracFields, decimalBinSize_eq, Nat.add_comm]

theorem pow_nine_mul (n : Nat) : (1000000000 : Nat) ^ n = 10 ^ (9 * n) := by
  rw [pow_mul]
  norm_num

/-- `n` digits are `n / 9` words and `n % 9` digits. -/
theorem pow_nine_div_mul_mod (n : Nat) : (1000000000 : Nat) ^ (n / 9) * 10 ^ (n % 9) = 10 ^ n := by
  rw [pow_nine_mul, ← pow_add, Nat.div_add_mod]

/-- A word is `10^x` units of `10^(9 - x)`. -/
theorem pow_mul_pow_sub_nine {x : Nat} (hx : x ≤ 9) : 10 ^ x * 10 ^ (9 - x) = 1000000000 := by
  rw [← pow_add, Nat.add_sub_cancel' hx]
  norm_num

theorem radixProd_intFields (intg : Nat) : radixProd (intFields intg) = 10 ^ intg := by
  rw [intFields, radixProd_append, radixProd_replicate, radixProd_cons, radixProd_nil]
  simp only [wordField, binField, Nat.mul_one]
  exact pow_nine_div_mul_mod intg

theorem radixProd_fracFields (scale : Nat) : radixProd (fracFields scale) = 10 ^ scale := by
  rw [fracFields, radixProd_cons, radixProd_replicate]
  simp only [wordField, binField]
  rw [Nat.mul_comm, pow_nine_div_mul_mod]

theorem radixProd_binFields {precision scale : Nat} (h : scale ≤ precision) :
    radixProd (binFields precision scale) = 10 ^ precision := by
  rw [binFields, radixProd_append, radixProd_fracFields, radixProd_intFields, ← pow_add,
    Nat.add_sub_cancel' h]

theorem binField_half (x : Nat) :
    0 < (binField x).1 ∧ (binField x).1 ≤ 2 ^ (8 * (binField x).2 - 1) := by
  refine ⟨by simp only [binField]; positivity, ?_⟩
  rcases pow_lt_dig2bytes (x % 9) (by omega) with h | h
  · exact h
  · simp [binField, h, dig2bytes]

theorem wordField_half : 0 < wordField.1 ∧ wordField.1 ≤ 2 ^ (8 * wordField.2 - 1) := by
  simp [wordField]

theorem fieldsHalf_binFields (precision scale : Nat) : FieldsHalf (binFields precision scale) := by
  intro f hf
  simp only [binFields, fracFields, intFields, List.cons_append, List.mem_cons, List.mem_append,
    List.mem_replicate, List.not_mem_nil, or_false] at hf
  rcases hf with rfl | ⟨_, rfl⟩ | ⟨_, rfl⟩ | rfl
  · exact binField_half _
  · exact wordField_half
  · exact wordField_half
  · exact binField_half _

/-! ## The number stored -/

/-- The fraction words brought to `scale` digits: padded with zeros, or cut. -/
def fracScaled (ws : List Nat) (scale : Nat) : Nat :=
  digitsVal 1000000000 ws * 10 ^ scale / 10 ^ (9 * ws.length)

/-- The magnitude of `d` times `10^scale`, as the binary format of scale `scale` stores it. -/
def scaledAbs (d : DecimalT) (scale : Nat) : Nat :=
  digitsVal 1000000000 d.intWords * 10 ^ scale + fracScaled d.fracWords scale

theorem fracScaled_lt {ws : List Nat} (h : DigitsLt 1000000000 ws) (scale : Nat) :
    fracScaled ws scale < 10 ^ scale := by
  have hv := digitsVal_lt h
  rw [pow_nine_mul] at hv
  apply (Nat.div_lt_iff_lt_mul (by positivity)).mpr
  rw [Nat.mul_comm (10 ^ scale)]
  exact Nat.mul_lt_mul_of_pos_right hv (by positivity)

theorem scaledAbs_div {d : DecimalT} (hw : d.WellFormed) (scale : Nat) :
    scaledAbs d scale / 10 ^ scale = digitsVal 1000000000 d.intWords := by
  rw [scaledAbs, Nat.add_comm, Nat.add_mul_div_right _ _ (by positivity),
    Nat.div_eq_of_lt (fracScaled_lt (digitsLt_fracWords hw) _), Nat.zero_add]

theorem scaledAbs_mod {d : DecimalT} (hw : d.WellFormed) (scale : Nat) :
    scaledAbs d scale % 10 ^ scale = fracScaled d.fracWords scale := by
  rw [scaledAbs, Nat.add_comm, Nat.add_mul_mod_self_right,
    Nat.mod_eq_of_lt (fracScaled_lt (digitsLt_fracWords hw) _)]

/-- A fraction of at most `scale / 9` words is padded with zero digits. -/
theorem fracScaled_pad {ws : List Nat} {scale : Nat} (h : 9 * ws.length ≤ scale) :
    fracScaled ws scale = digitsVal 1000000000 ws * 10 ^ (scale - 9 * ws.length) := by
  rw [fracScaled, ← Nat.add_sub_cancel' h, pow_add, Nat.add_sub_cancel_left, ← Nat.mul_assoc,
    Nat.mul_comm _ (10 ^ (9 * ws.length)), Nat.mul_assoc,
    Nat.mul_div_cancel_left _ (by positivity)]

/-- A fraction whose last word is zero below `x` digits, cut to those digits. -/
theorem fracScaled_trail {ws : List Nat} {c x : Nat} (hx : x ≤ 9) (hc : 10 ^ (9 - x) ∣ c) :
    fracScaled (ws ++ [c]) (9 * ws.length + x) =
      digitsVal 1000000000 ws * 10 ^ x + c / 10 ^ (9 - x) := by
  obtain ⟨c', rfl⟩ := hc
  have h9 : (1000000000 : Nat) = 10 ^ x * 10 ^ (9 - x) := (pow_mul_pow_sub_nine hx).symm
  have hnum : digitsVal 1000000000 (ws ++ [10 ^ (9 - x) * c']) * 10 ^ (9 * ws.length + x) =
      (digitsVal 1000000000 ws * 10 ^ x + c') * 10 ^ (9 * (ws ++ [10 ^ (9 - x) * c']).length) := by
    rw [digitsVal_append_singleton, List.length_append, List.length_singleton,
      show 9 * (ws.length + 1) = 9 * ws.length + x + (9 - x) by omega, pow_add, pow_add]
    generalize digitsVal 1000000000 ws = v
    rw [h9]
    ring
  rw [fracScaled, hnum, Nat.mul_div_cancel _ (by positivity),
    Nat.mul_div_cancel_left _ (by positivity)]

/-- The last fraction word is the word `DigitsConsistent.trail` speaks of. -/
theorem fracWords_eq_append_last {d : DecimalT} (hw : d.WellFormed) (h : d.frac % 9 ≠ 0) :
    ∃ ws, d.fracWords = ws ++ [d.buf.getD (roundUp d.intg + roundUp d.frac - 1) 0] ∧
      ws.length = d.frac / 9 := by
  have hlen := fracWords_length hw
  have hr : roundUp d.frac = d.frac / 9 + 1 := by rw [roundUp_eq_div_add, if_neg h]
  have hfits := hw.fits
  simp only [len] at hfits
  have hne : d.fracWords ≠ [] := by
    rw [← List.length_pos_iff, hlen, hr]
    omega
  refine ⟨d.fracWords.dropLast, ?_, by rw [List.length_dropLast, hlen, hr, Nat.add_sub_cancel]⟩
  conv_lhs => rw [← List.dropLast_append_getLast hne]
  congr 2
  rw [List.getLast_eq_getElem, List.getD_eq_getElem?_getD]
  simp only [fracWords, List.getElem_take, List.getElem_drop, List.length_take, List.length_drop]
  rw [List.getElem?_eq_getElem (by omega)]
  simp only [Option.getD_some]
  congr 1
  omega

/-- The fraction words, shifted to `frac` digits, are an integer. -/
theorem pow_dvd_fracWords {d : DecimalT} (hw : d.WellFormed) (hc : d.DigitsConsistent) :
    10 ^ (9 * d.fracWords.length) ∣ digitsVal 1000000000 d.fracWords * 10 ^ d.frac := by
  rw [fracWords_length hw]
  by_cases h : d.frac % 9 = 0
  · rw [roundUp_eq_div_add, if_pos h, Nat.add_zero, Nat.mul_div_cancel' (Nat.dvd_of_mod_eq_zero h)]
    exact Dvd.intro_left _ rfl
  · obtain ⟨ws, hF, hlen⟩ := fracWords_eq_append_last hw h
    obtain ⟨c', hc'⟩ := hc.trail h
    rw [hF, digitsVal_append_singleton, hc', roundUp_eq_div_add, if_neg h]
    generalize digitsVal 1000000000 ws = v
    have hsplit : 10 ^ d.frac = 10 ^ (9 * (d.frac / 9)) * 10 ^ (d.frac % 9) := by
      rw [← pow_add, Nat.div_add_mod]
    have hword : 10 ^ (9 * (d.frac / 9 + 1)) =
        10 ^ (9 * (d.frac / 9)) * 10 ^ (d.frac % 9) * 10 ^ (9 - d.frac % 9) := by
      rw [← pow_add, ← pow_add]
      congr 1
      omega
    have hB : (1000000000 : Nat) = 10 ^ (d.frac % 9) * 10 ^ (9 - d.frac % 9) :=
      (pow_mul_pow_sub_nine (by omega)).symm
    rw [hsplit, hword, hB]
    exact ⟨v * 10 ^ (d.frac % 9) + c', by ring⟩

/-- The fraction brought to `scale ≥ frac` digits, as a rational. -/
theorem fracScaled_cast {d : DecimalT} (hw : d.WellFormed) (hc : d.DigitsConsistent)
    {scale : Nat} (hf : d.frac ≤ scale) :
    (fracScaled d.fracWords scale : ℚ) = digitsFrac 1000000000 d.fracWords * 10 ^ scale := by
  have hdvd : 10 ^ (9 * d.fracWords.length) ∣ digitsVal 1000000000 d.fracWords * 10 ^ scale := by
    rw [← Nat.add_sub_cancel' hf, pow_add, ← Nat.mul_assoc]
    exact Dvd.dvd.mul_right (pow_dvd_fracWords hw hc) _
  rw [fracScaled, Nat.cast_div hdvd (by positivity), digitsFrac]
  push_cast
  rw [pow_mul]
  norm_num
  ring

/-- The stored number is the magnitude times `10^scale`, when the fraction fits. -/
theorem scaledAbs_cast {d : DecimalT} (hw : d.WellFormed) (hc : d.DigitsConsistent)
    {scale : Nat} (hf : d.frac ≤ scale) :
    (scaledAbs d scale : ℚ) = d.absVal * 10 ^ scale := by
  rw [scaledAbs, Nat.cast_add, fracScaled_cast hw hc hf, absVal]
  push_cast
  ring

/-! ## The fields `decimal2bin` writes -/

theorem digitsSize_le_succ (a : Nat) : digitsSize a ≤ digitsSize (a + 1) := by
  unfold digitsSize
  by_cases h : (a + 1) % 9 = 0
  · have := dig2bytes_le_four (a % 9)
    rw [h, show (a + 1) / 9 = a / 9 + 1 by omega]
    omega
  · rw [show (a + 1) / 9 = a / 9 by omega, show (a + 1) % 9 = a % 9 + 1 by omega]
    have := dig2bytes_mono (Nat.le_add_right (a % 9) 1) (by omega)
    omega

theorem digitsSize_mono {a b : Nat} (h : a ≤ b) : digitsSize a ≤ digitsSize b := by
  induction b with
  | zero => rw [Nat.le_zero.mp h]
  | succ b ih =>
    rcases Nat.lt_or_eq_of_le h with hlt | rfl
    · exact Nat.le_trans (ih (by omega)) (digitsSize_le_succ b)
    · exact le_rfl

theorem radixProd_words_mul (a : Nat) :
    radixProd (List.replicate (a / 9) wordField) * 10 ^ (a % 9) = 10 ^ a := by
  rw [radixProd_replicate, wordField, pow_nine_div_mul_mod]

theorem binField_fits (x : Nat) : 10 ^ (x % 9) ≤ 256 ^ dig2bytes (x % 9) :=
  Nat.le_trans (binField_half x).2 (half_le_pow _)

/-- One more integer digit of room: zero bytes on top, if any. -/
theorem mrEncode_intFields_succ {a v : Nat} (hv : v < 10 ^ a) :
    mrEncode (intFields (a + 1)) v =
      List.replicate (digitsSize (a + 1) - digitsSize a) 0 ++ mrEncode (intFields a) v := by
  have hm : v < radixProd (List.replicate (a / 9) wordField) * 10 ^ (a % 9) := by
    rwa [radixProd_words_mul]
  by_cases h : (a + 1) % 9 = 0
  · -- a new full word replaces the leading field of eight digits
    have h8 : a % 9 = 8 := by omega
    have hq : (a + 1) / 9 = a / 9 + 1 := by omega
    have hsz : digitsSize (a + 1) - digitsSize a = 0 := by
      simp only [digitsSize, h, hq, h8, dig2bytes]
      omega
    have hR : 0 < radixProd (List.replicate (a / 9) wordField) := by
      rw [radixProd_replicate]
      simp [wordField]
    have ht : v / radixProd (List.replicate (a / 9) wordField) < 10 ^ 8 :=
      (Nat.div_lt_iff_lt_mul hR).mpr (by rw [← h8, Nat.mul_comm]; exact hm)
    rw [hsz, List.replicate_zero, List.nil_append, intFields, intFields, hq,
      List.replicate_succ', List.append_assoc, mrEncode_append (List.replicate (a / 9) wordField),
      mrEncode_append (List.replicate (a / 9) wordField)]
    congr 1
    generalize v / radixProd (List.replicate (a / 9) wordField) = t at ht ⊢
    have ht9 : t < 1000000000 := Nat.lt_trans ht (by norm_num)
    simp only [List.singleton_append, mrEncode_cons, binField, h, h8, wordField, dig2bytes,
      Nat.mod_eq_of_lt ht9, Nat.mod_eq_of_lt ht]
    rfl
  · -- the leading field gains a digit
    have hq : (a + 1) / 9 = a / 9 := by omega
    have hr : (a + 1) % 9 = a % 9 + 1 := by omega
    rw [intFields, intFields, hq, binField, binField, hr,
      show digitsSize (a + 1) - digitsSize a = dig2bytes (a % 9 + 1) - dig2bytes (a % 9) by
        simp only [digitsSize, hq, hr]; omega]
    exact mrEncode_widen_top hm (Nat.pow_le_pow_right (by norm_num) (Nat.le_succ _))
      (binField_fits a) (dig2bytes_mono (Nat.le_succ _) (by omega))

/-- Room for more integer digits than the value has: zero bytes in front (the padding
    `decimal2bin` writes when `isize0 > isize1`). -/
theorem mrEncode_intFields_pad {b v : Nat} (hv : v < 10 ^ b) :
    ∀ n, mrEncode (intFields (b + n)) v =
      List.replicate (digitsSize (b + n) - digitsSize b) 0 ++ mrEncode (intFields b) v
  | 0 => by simp
  | n + 1 => by
    have hv' : v < 10 ^ (b + n) := Nat.lt_of_lt_of_le hv (Nat.pow_le_pow_right (by norm_num)
      (Nat.le_add_right _ _))
    have h1 := digitsSize_mono (Nat.le_add_right b n)
    have h2 := digitsSize_le_succ (b + n)
    rw [← Nat.add_assoc, mrEncode_intFields_succ hv', mrEncode_intFields_pad hv n,
      ← List.append_assoc, List.replicate_append_replicate]
    congr 2
    omega

/-- The fields of the significant integer words: the leading field (its word taken modulo
    `10^(intg % 9)`) and the full words. -/
theorem mrEncode_intFields_sig {fi : Nat} {sig : List Nat} (hl : sig.length = roundUp fi)
    (hs : DigitsLt 1000000000 sig) :
    mrEncode (intFields fi) (digitsVal 1000000000 sig) =
      (if 0 < fi % 9 then beBytes (dig2bytes (fi % 9)) (sig.getD 0 0 % 10 ^ (fi % 9)) else []) ++
        ((sig.drop (if 0 < fi % 9 then 1 else 0)).map (beBytes 4)).flatten := by
  rw [intFields, mrEncode_append, radixProd_replicate, wordField]
  dsimp only
  by_cases h : fi % 9 = 0
  · have hl' : sig.length = fi / 9 := by rw [hl, roundUp_eq_div_add, if_pos h, Nat.add_zero]
    have hv := digitsVal_lt hs
    rw [hl'] at hv
    have h0 : ¬ 0 < fi % 9 := by omega
    rw [Nat.div_eq_of_lt hv, Nat.mod_eq_of_lt hv, ← hl', mrEncode_replicate _ _ _ hs]
    simp [mrEncode_cons, binField, h, dig2bytes]
  · obtain ⟨w, rest, rfl⟩ := List.exists_cons_of_ne_nil (show sig ≠ [] by
      rintro rfl
      rw [List.length_nil, roundUp_eq_div_add, if_neg h] at hl
      omega)
    have hl' : rest.length = fi / 9 := by
      rw [List.length_cons, roundUp_eq_div_add, if_neg h] at hl
      omega
    rw [digitsLt_cons] at hs
    have hv := digitsVal_lt hs.2
    have h1 : 0 < fi % 9 := by omega
    rw [digitsVal_cons, ← hl', Nat.add_comm, Nat.add_mul_div_right _ _ (by positivity),
      Nat.div_eq_of_lt hv, Nat.zero_add, Nat.add_mul_mod_self_right, Nat.mod_eq_of_lt hv,
      mrEncode_replicate _ _ _ hs.2]
    simp [h1, mrEncode_cons, binField]

/-- A fraction of whole words, padded with zero words to `scale` digits. -/
theorem mrEncode_fracFields_pad {scale : Nat} {ws : List Nat} (hl : ws.length ≤ scale / 9)
    (h : DigitsLt 1000000000 ws) :
    mrEncode (fracFields scale) (digitsVal 1000000000 ws * 10 ^ (scale - 9 * ws.length)) =
      (ws.map (beBytes 4)).flatten ++ List.replicate (digitsSize scale - 4 * ws.length) 0 := by
  set k := scale / 9 - ws.length
  have hval : digitsVal 1000000000 ws * 10 ^ (scale - 9 * ws.length) =
      digitsVal 1000000000 (ws ++ List.replicate k 0) * 10 ^ (scale % 9) := by
    rw [digitsVal_append, digitsVal_replicate_zero, Nat.add_zero, List.length_replicate,
      pow_nine_mul, Nat.mul_assoc, ← pow_add]
    congr 2
    omega
  have hlt : DigitsLt 1000000000 (ws ++ List.replicate k 0) :=
    digitsLt_append.mpr ⟨h, fun d hd => by rw [(List.mem_replicate.mp hd).2]; norm_num⟩
  have hlen : (ws ++ List.replicate k 0).length = scale / 9 := by
    simp only [List.length_append, List.length_replicate, k]
    omega
  rw [hval, fracFields, mrEncode_cons, binField, Nat.mul_div_cancel _ (by positivity),
    Nat.mul_mod_left, beBytes_zero_value, wordField, ← hlen, mrEncode_replicate _ _ _ hlt,
    List.map_append, List.flatten_append, List.map_replicate, beBytes_zero_value,
    List.flatten_replicate_replicate, List.append_assoc, List.replicate_append_replicate]
  congr 2
  simp only [digitsSize, k]
  omega

/-- A fraction cut inside its last word `c` to `scale` digits: the full words, then the
    digits of `c` the trailing field keeps. -/
theorem mrEncode_fracFields_trail {scale c : Nat} {ws : List Nat} (hl : ws.length = scale / 9)
    (h : DigitsLt 1000000000 ws) (hc : c < 1000000000) :
    mrEncode (fracFields scale)
        (digitsVal 1000000000 ws * 10 ^ (scale % 9) + c / 10 ^ (9 - scale % 9)) =
      (ws.map (beBytes 4)).flatten ++ beBytes (dig2bytes (scale % 9)) (c / 10 ^ (9 - scale % 9)) := by
  have ht : c / 10 ^ (9 - scale % 9) < 10 ^ (scale % 9) := by
    apply (Nat.div_lt_iff_lt_mul (by positivity)).mpr
    rw [← pow_add, Nat.add_sub_cancel' (by omega)]
    exact hc
  rw [fracFields, mrEncode_cons, binField, Nat.add_comm, Nat.add_mul_div_right _ _ (by positivity),
    Nat.div_eq_of_lt ht, Nat.zero_add, Nat.add_mul_mod_self_right, Nat.mod_eq_of_lt ht, ← hl,
    wordField, mrEncode_replicate _ _ _ h]

/-! ## Masking and the top bit -/

theorem maskByte_false : maskByte false = id := funext fun _ => rfl

theorem flatten_map_storeMasked (mask : Bool) (ws : List Nat) :
    (ws.map (storeMasked 4 mask)).flatten = ((ws.map (beBytes 4)).flatten).map (maskByte mask) := by
  rw [List.map_flatten, List.map_map]
  rfl

theorem maskByte_toNat (mask : Bool) (b : UInt8) :
    (maskByte mask b).toNat = if mask then 255 - b.toNat else b.toNat := by
  cases mask <;> simp [maskByte, UInt8.toNat_not]

@[simp] theorem length_flipFirst (bs : List UInt8) : (flipFirst bs).length = bs.length := by
  cases bs <;> rfl

theorem flipFirst_flipFirst (bs : List UInt8) : flipFirst (flipFirst bs) = bs := by
  cases bs with
  | nil => rfl
  | cons b bs => simp [flipFirst, UInt8.xor_assoc]

/-- Flipping the top bit of a first byte below `0x80` adds half the range. -/
theorem beVal_flipFirst_of_lt {b : UInt8} (bs : List UInt8) (h : b.toNat < 128) :
    beVal (flipFirst (b :: bs)) = beVal (b :: bs) + 2 ^ (8 * (b :: bs).length - 1) := by
  have hx : (b ^^^ 0x80).toNat = b.toNat + 128 := by
    rw [UInt8.toNat_xor]
    exact xor_top_of_lt _ h
  rw [flipFirst, beVal_cons, beVal_cons, hx, List.length_cons,
    show 8 * (bs.length + 1) - 1 = 7 + 8 * bs.length by omega, pow_add, pow_mul]
  norm_num
  ring

/-- Flipping the top bit of a first byte from `0x80` up takes half the range off. -/
theorem beVal_flipFirst_of_ge {b : UInt8} (bs : List UInt8) (h : 128 ≤ b.toNat) :
    beVal (flipFirst (b :: bs)) + 2 ^ (8 * (b :: bs).length - 1) = beVal (b :: bs) := by
  have hx : (b ^^^ 0x80).toNat = b.toNat - 128 := by
    rw [UInt8.toNat_xor]
    exact xor_top_of_ge b.toNat_lt h
  rw [flipFirst, beVal_cons, beVal_cons, hx, List.length_cons,
    show 8 * (bs.length + 1) - 1 = 7 + 8 * bs.length by omega, pow_add, pow_mul]
  norm_num
  have : (b.toNat - 128) * 256 ^ bs.length + 128 * 256 ^ bs.length = b.toNat * 256 ^ bs.length := by
    rw [← Nat.add_mul, Nat.sub_add_cancel h]
  omega

/-- The stored bytes read as one number: the row's value above half the range for a
    positive number, mirrored below it for a negative one. -/
theorem beVal_signed {E : List UInt8} (hn : 0 < E.length) (hE : beVal E < 2 ^ (8 * E.length - 1))
    (sign : Bool) :
    beVal (flipFirst (E.map (maskByte sign))) =
      if sign then 2 ^ (8 * E.length - 1) - 1 - beVal E else 2 ^ (8 * E.length - 1) + beVal E := by
  obtain ⟨b, bs, rfl⟩ := List.exists_cons_of_ne_nil (List.ne_nil_of_length_pos hn)
  have hb := head_lt_of_beVal_lt hE
  cases sign with
  | false =>
    rw [maskByte_false, List.map_id, beVal_flipFirst_of_lt bs hb, if_neg Bool.false_ne_true,
      Nat.add_comm]
  | true =>
    have hnot : (b :: bs).map (maskByte true) = (b :: bs).map (~~~·) := by simp [maskByte]
    have hhead : 128 ≤ (~~~b).toNat := by
      simp [UInt8.toNat_not]
      omega
    have key := beVal_flipFirst_of_ge (bs.map (~~~·)) hhead
    have hv : beVal (~~~b :: bs.map (~~~·)) = 256 ^ (bs.length + 1) - 1 - beVal (b :: bs) := by
      rw [← List.map_cons, beVal_map_not, List.length_cons]
    have hhalf : 256 ^ (bs.length + 1) = 2 * 2 ^ (8 * (bs.length + 1) - 1) := by
      rw [show (256 : Nat) = 2 ^ 8 by norm_num, ← pow_mul, ← pow_succ']
      congr 1
    rw [hnot, if_pos rfl, List.map_cons]
    simp only [List.length_cons, List.length_map] at key ⊢
    rw [hv] at key
    omega

/-- The reader takes the sign from the top bit of the first byte. -/
theorem signBit_eq {E : List UInt8} (hn : 0 < E.length) (hE : beVal E < 2 ^ (8 * E.length - 1))
    (sign : Bool) :
    decide (((flipFirst (E.map (maskByte sign))).headD 0 &&& 0x80) = 0) = sign := by
  obtain ⟨b, bs, rfl⟩ := List.exists_cons_of_ne_nil (List.ne_nil_of_length_pos hn)
  have hb := head_lt_of_beVal_lt hE
  have hiff : ∀ x : UInt8, (x &&& 0x80) = 0 ↔ x.toNat &&& 128 = 0 := by
    intro x
    rw [← UInt8.toNat_inj, UInt8.toNat_and]
    rfl
  simp only [List.map_cons, flipFirst, List.headD_cons]
  cases sign with
  | false =>
    have : (maskByte false b ^^^ 0x80).toNat = b.toNat + 128 := by
      rw [UInt8.toNat_xor, maskByte_toNat, if_neg Bool.false_ne_true]
      exact xor_top_of_lt _ hb
    rw [decide_eq_false_iff_not, hiff, this, and_top_of_ge (by omega) (by omega)]
    omega
  | true =>
    have : (maskByte true b ^^^ 0x80).toNat = 127 - b.toNat := by
      rw [UInt8.toNat_xor, maskByte_toNat, if_pos rfl]
      show (255 - b.toNat) ^^^ 128 = 127 - b.toNat
      rw [xor_top_of_ge (by omega) (by omega)]
      omega
    rw [decide_eq_true_iff, hiff, this, and_top_of_lt _ (by omega)]

end MariaDB.Decimal
