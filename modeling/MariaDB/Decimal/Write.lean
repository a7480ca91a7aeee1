import MariaDB.Decimal.Format
import Mathlib.Tactic.IntervalCases

/-
  What `decimal2bin` writes, for a decimal that fits the target DECIMAL(precision, scale).

  `decimal2bin_eq` is the closed form: for a well-formed, consistent decimal without a
  negative zero whose significant integer digits fit `precision - scale` and whose fraction
  fits `scale`, the result is `E_DEC_OK` and the bytes are the row `binFields precision scale`
  holding `scaledAbs d scale`, each byte complemented for a negative number, with the top
  bit of the first byte flipped.

  The proof follows the writer's blocks. The integer part is the padding, the leading field
  of the significant words and their full words (`mrEncode_intFields_pad`,
  `mrEncode_intFields_sig`). The fraction takes one of three paths, by the digits `frac` of
  the decimal against the scale: whole words padded with zero bytes (`frac % 9 = 0`, or a
  partial last word widened to a full one), or a partial last word widened or kept inside
  the trailing field (`frac / 9 = scale / 9`). The widening loop runs to its limit
  (`widenDigits_eq_lim`) because `dig2bytes` is monotone.
-/

namespace MariaDB.Decimal

open MariaDB.Lib DecimalT

/-! ## Masks and the widening loop -/

theorem length_flatten_storeMasked (mask : Bool) (ws : List Nat) :
    (ws.map (storeMasked 4 mask)).flatten.length = 4 * ws.length := by
  rw [flatten_map_storeMasked, List.length_map, List.length_flatten, List.map_map]
  simp [Function.comp_def, Nat.mul_comm]

@[simp] theorem dig2bytes_zero : dig2bytes 0 = 0 := rfl

theorem dig2bytes_pos {i : Nat} (h0 : 0 < i) (h9 : i ≤ 9) : 0 < dig2bytes i := by
  interval_cases i <;> simp [dig2bytes]

/-- Only seven to nine digits take four bytes. -/
theorem dig2bytes_eq_four {i : Nat} (h : dig2bytes i = 4) (h9 : i ≤ 9) : 7 ≤ i := by
  interval_cases i <;> simp [dig2bytes] at h ⊢

/-- The loop stops at once when it starts at its limit. -/
theorem widenDigits_of_le {i lim x : Nat} (h : lim ≤ x) : ∀ fuel, widenDigits i lim fuel x = x
  | 0 => rfl
  | fuel + 1 => by simp [widenDigits, Nat.not_lt.mpr h]

/-- With enough fuel, and every digit count up to the limit fitting the same bytes, the loop
    runs to its limit. -/
theorem widenDigits_eq_lim {i lim : Nat} :
    ∀ fuel x, x ≤ lim → lim - x ≤ fuel → (∀ y, x ≤ y → y < lim → dig2bytes y = i) →
      widenDigits i lim fuel x = lim
  | 0, x, hx, hf, _ => by
    rw [widenDigits]
    omega
  | fuel + 1, x, hx, hf, hy => by
    rw [widenDigits]
    by_cases hlt : x < lim
    · rw [if_pos ⟨hlt, hy x le_rfl hlt⟩]
      exact widenDigits_eq_lim fuel (x + 1) (by omega) (by omega)
        (fun y h1 h2 => hy y (by omega) h2)
    · rw [if_neg (fun h => hlt h.1)]
      omega

/-! ## The integer part -/

theorem take_add_of_length {l1 l2 : List Nat} {n : Nat} (h : l1.length = n) (k : Nat) :
    (l1 ++ l2).take (n + k) = l1 ++ l2.take k := by
  subst h
  exact List.take_length_add_append k

theorem getD_add_of_length {l1 l2 : List Nat} {n : Nat} (h : l1.length = n) (k : Nat) :
    (l1 ++ l2).getD (n + k) 0 = l2.getD k 0 := by
  subst h
  simp [List.getD_eq_getElem?_getD, List.getElem?_append_right]

/-- The significant integer words after the leading word the writer takes apart. -/
def sigFull (d : DecimalT) : List Nat :=
  (sigWords d).drop (if 0 < decimalIntg d % 9 then 1 else 0)

theorem sigFull_length {d : DecimalT} (hw : d.WellFormed) (hc : d.DigitsConsistent) :
    (sigFull d).length = decimalIntg d / 9 := by
  rw [sigFull, List.length_drop, sigWords_length_eq hw hc, roundUp_eq_div_add]
  split <;> split <;> omega

/-- The integer bytes `decimal2bin` writes: the padding, the leading field and the full
    words, all masked, are the integer fields of the magnitude. -/
theorem intBytes_eq {d : DecimalT} (hw : d.WellFormed) (hc : d.DigitsConsistent)
    {intg : Nat} (hi : decimalIntg d ≤ intg) (mask : Bool) :
    (List.replicate (intg / 9 * 4 + dig2bytes (intg % 9) -
          (decimalIntg d / 9 * 4 + dig2bytes (decimalIntg d % 9))) (maskByte mask 0) ++
        (if 0 < decimalIntg d % 9 then
          storeMasked (dig2bytes (decimalIntg d % 9)) mask
            ((sigWords d).getD 0 0 % 10 ^ (decimalIntg d % 9))
        else [])) ++ ((sigFull d).map (storeMasked 4 mask)).flatten =
      (mrEncode (intFields intg) (digitsVal 1000000000 d.intWords)).map (maskByte mask) := by
  have hpad := mrEncode_intFields_pad (digitsVal_sigWords_lt hw hc) (intg - decimalIntg d)
  rw [Nat.add_sub_cancel' hi, mrEncode_intFields_sig (sigWords_length_eq hw hc)
    (digitsLt_sigWords hw)] at hpad
  rw [← digitsVal_sigWords, hpad, List.map_append, List.map_append, List.map_replicate,
    flatten_map_storeMasked, sigFull, List.append_assoc]
  congr 2
  split <;> rfl

/-! ## The fraction part -/

/-- Whole fraction words and zero bytes up to the scale, masked: the fraction fields of the
    fraction padded with zero digits. -/
theorem padBytes_eq {ws : List Nat} {scale n : Nat} (hl : ws.length ≤ scale / 9)
    (h : DigitsLt 1000000000 ws) (hn : n = digitsSize scale - 4 * ws.length) (mask : Bool) :
    (ws.map (storeMasked 4 mask)).flatten ++ List.replicate n (maskByte mask 0) =
      (mrEncode (fracFields scale) (fracScaled ws scale)).map (maskByte mask) := by
  rw [fracScaled_pad (by omega), mrEncode_fracFields_pad hl h, List.map_append,
    List.map_replicate, flatten_map_storeMasked, hn]

/-- Whole fraction words and the digits of the last word `c` the trailing field keeps,
    masked: the fraction fields of the fraction cut to the scale. -/
theorem trailBytes_eq {ws : List Nat} {scale c : Nat} (hl : ws.length = scale / 9)
    (h : DigitsLt 1000000000 ws) (hc : c < 1000000000) (hdvd : 10 ^ (9 - scale % 9) ∣ c)
    (mask : Bool) :
    (ws.map (storeMasked 4 mask)).flatten ++
        storeMasked (dig2bytes (scale % 9)) mask (c / 10 ^ (9 - scale % 9)) =
      (mrEncode (fracFields scale) (fracScaled (ws ++ [c]) scale)).map (maskByte mask) := by
  have hs : scale = 9 * ws.length + scale % 9 := by omega
  rw [hs, fracScaled_trail (by omega) hdvd, ← hs, mrEncode_fracFields_trail hl h hc,
    List.map_append, flatten_map_storeMasked]
  rfl

theorem take_succ_getD {R : List Nat} {k : Nat} (h : k < R.length) :
    R.take (k + 1) = R.take k ++ [R.getD k 0] := by
  rw [List.take_add_one, List.getElem?_eq_getElem h, List.getD_eq_getElem?_getD,
    List.getElem?_eq_getElem h]
  rfl

/-! ## The closed form -/

/-- `decimal2bin` on a decimal that fits DECIMAL(precision, scale): `E_DEC_OK`, and the
    row of fields holding the scaled magnitude, masked by the sign, top bit flipped. -/
theorem decimal2bin_eq {d : DecimalT} {precision scale : Nat} (hw : d.WellFormed)
    (hc : d.DigitsConsistent) (hn : ¬ d.NegZero) (hi : decimalIntg d ≤ precision - scale)
    (hf : d.frac ≤ scale) :
    decimal2bin d precision scale =
      (.ok, flipFirst ((mrEncode (binFields precision scale) (scaledAbs d scale)).map
        (maskByte d.sign))) := by
  have hrz : removeLeadingZeroes d = ((d.intWords.takeWhile (· == 0)).length, decimalIntg d) := by
    rw [removeLeadingZeroes_eq hw hc, decimalIntg_eq hw hc]
  have hovf : ¬ precision - scale < decimalIntg d := Nat.not_lt.mpr hi
  have htr : ¬ scale / 9 * 4 + dig2bytes (scale % 9) < d.frac / 9 * 4 + dig2bytes (d.frac % 9) := by
    have := digitsSize_mono hf
    simp only [digitsSize] at this
    omega
  have hmask : (if decimalIntg d + (d.frac / 9 * 4 + dig2bytes (d.frac % 9)) = 0 then false
      else d.sign) = d.sign := by
    split
    · -- no integer digits and no fraction bytes: the value is zero, so the sign is clear
      rename_i h0
      have hf0 : d.frac = 0 := by
        by_contra hne
        have := dig2bytes_pos (i := d.frac % 9) (by omega) (by omega)
        omega
      have hv : digitsVal 1000000000 d.intWords = 0 := by
        have := (decimalIntg_le_iff hw hc 0).mp (by omega)
        rwa [pow_zero, Nat.lt_one_iff] at this
      have habs : d.absVal = 0 := by
        simp [absVal, hv, fracWords, hf0]
      cases hs : d.sign
      · rfl
      · exact absurd ⟨hs, habs⟩ hn
    · rfl
  simp only [decimal2bin, hrz, hmask, hovf, htr, decide_false, if_false, Bool.false_eq_true]
  rw [drop_takeWhile_buf]
  -- the words after the significant integer words: the fraction words first
  generalize hR : d.buf.drop (roundUp d.intg) = R
  have hne : 0 < decimalIntg d % 9 → sigWords d ≠ [] := by
    intro h h0
    have := sigWords_length_eq hw hc
    rw [h0, List.length_nil, roundUp_eq] at this
    omega
  have hlead : ∀ n e, (if 0 < decimalIntg d % 9 then
      storeMasked n d.sign ((sigWords d ++ R).getD 0 0 % e) else []) =
      (if 0 < decimalIntg d % 9 then storeMasked n d.sign ((sigWords d).getD 0 0 % e) else []) := by
    intro n e
    split
    · rename_i h
      obtain ⟨w, rest, hwr⟩ := List.exists_cons_of_ne_nil (hne h)
      rw [hwr]
      rfl
    · rfl
  have hW : (if 0 < decimalIntg d % 9 then (sigWords d ++ R).drop 1 else sigWords d ++ R) =
      sigFull d ++ R := by
    unfold sigFull
    split
    · rename_i h
      rw [List.drop_append_of_le_length (List.length_pos_iff.mpr (hne h))]
    · rfl
  rw [hlead, hW, take_add_of_length (sigFull_length hw hc),
    getD_add_of_length (sigFull_length hw hc), List.map_append, List.flatten_append,
    ← List.append_assoc, intBytes_eq hw hc hi]
  rw [binFields, mrEncode_append, radixProd_fracFields, scaledAbs_div hw, scaledAbs_mod hw,
    List.map_append]
  have hF : d.fracWords = R.take (roundUp d.frac) := by
    rw [← hR]
    rfl
  have hRlen : roundUp d.frac ≤ R.length := by
    rw [← hR, List.length_drop]
    have := hw.fits
    simp only [len] at this
    omega
  have hFlt := digitsLt_fracWords hw
  simp only [List.length_append, List.length_map, mrEncode_length, widthSum_intFields,
    length_flatten_storeMasked, List.length_take, digitsSize]
  rw [List.append_assoc, List.append_assoc]
  congr 2
  congr 1
  have hfs := digitsSize_mono hf
  simp only [digitsSize] at hfs
  have hd4 := dig2bytes_le_four (d.frac % 9)
  rcases Nat.eq_zero_or_pos (d.frac % 9) with hf0 | hf0
  · -- whole fraction words, padded with zero bytes
    have hr : roundUp d.frac = d.frac / 9 := by rw [roundUp_eq_div_add, if_pos hf0, Nat.add_zero]
    simp only [hf0, Nat.lt_irrefl, decide_false, Bool.and_false, Bool.false_and,
      Bool.false_eq_true, if_false, dig2bytes_zero, Nat.add_zero, List.length_nil,
      List.nil_append]
    have hmin : min (d.frac / 9) R.length = d.frac / 9 := Nat.min_eq_left (by rw [← hr]; exact hRlen)
    have hl : d.fracWords.length = d.frac / 9 := by rw [fracWords_length hw, hr]
    rw [show R.take (d.frac / 9) = d.fracWords by rw [hF, hr], hmin]
    split
    · exact padBytes_eq (by omega) hFlt (by simp only [digitsSize]; omega) d.sign
    · have h0 := padBytes_eq (show d.fracWords.length ≤ scale / 9 by omega) hFlt
        (show 0 = digitsSize scale - 4 * d.fracWords.length by simp only [digitsSize]; omega) d.sign
      rw [List.replicate_zero, List.append_nil] at h0
      rw [List.append_nil]
      exact h0
  · -- a partial last fraction word
    have hr : roundUp d.frac = d.frac / 9 + 1 := by rw [roundUp_eq_div_add, if_neg (by omega)]
    have hq : d.frac / 9 ≤ scale / 9 := Nat.div_le_div_right hf
    have hlenF : d.fracWords.length = d.frac / 9 + 1 := by rw [fracWords_length hw, hr]
    have hRk : d.frac / 9 < R.length := by omega
    have hFsplit : d.fracWords = R.take (d.frac / 9) ++ [R.getD (d.frac / 9) 0] := by
      rw [hF, hr, take_succ_getD hRk]
    have hGlt : DigitsLt 1000000000 (R.take (d.frac / 9)) :=
      (digitsLt_append.mp (hFsplit ▸ hFlt)).1
    have hclt : R.getD (d.frac / 9) 0 < 1000000000 :=
      (digitsLt_append.mp (hFsplit ▸ hFlt)).2 _ (by simp)
    have hcdvd : 10 ^ (9 - d.frac % 9) ∣ R.getD (d.frac / 9) 0 := by
      have h := hc.trail (by omega)
      rwa [← hR, List.getD_eq_getElem?_getD, List.getElem?_drop, ← List.getD_eq_getElem?_getD,
        show roundUp d.intg + d.frac / 9 = roundUp d.intg + roundUp d.frac - 1 by omega]
    have hGl : (R.take (d.frac / 9)).length = d.frac / 9 := by
      rw [List.length_take, Nat.min_eq_left hRk.le]
    have hB : decide (0 < d.frac % 9) = true := decide_eq_true hf0
    simp only [hB, Bool.and_true]
    by_cases hA : d.frac / 9 * 4 + dig2bytes (d.frac % 9) < scale / 9 * 4 + dig2bytes (scale % 9)
    <;> by_cases hC : scale / 9 = d.frac / 9
    · -- widened inside the trailing field of the scale
      have hs9 : d.frac % 9 ≤ scale % 9 := by omega
      simp only [hA, decide_true, Bool.true_and, if_true]
      simp only [hC, ne_eq, not_true, decide_false, decide_true, Bool.false_eq_true, if_true,
        if_false, Nat.lt_irrefl, show 0 < scale % 9 by omega,
        widenDigits_of_le (le_refl (scale % 9)), List.append_nil]
      rw [hFsplit]
      exact trailBytes_eq (by rw [hGl, hC]) hGlt hclt
        (Nat.dvd_trans (Nat.pow_dvd_pow 10 (by omega)) hcdvd) d.sign
    · -- widened to one more full word, then zero bytes
      simp only [hA, decide_true, Bool.true_and, if_true]
      simp only [hC, ne_eq, not_false_eq_true, decide_true, decide_false, Bool.false_eq_true,
        if_true, if_false, Nat.lt_irrefl, List.length_nil, Nat.add_zero, List.nil_append, hA]
      rw [show R.take (d.frac / 9 + 1) = d.fracWords by rw [hF, hr],
        Nat.min_eq_left (show d.frac / 9 + 1 ≤ R.length by omega)]
      refine padBytes_eq ?_ hFlt ?_ d.sign
      · omega
      · simp only [digitsSize]
        omega
    · -- the same bytes: the last word kept in a field of the same width
      have hd : dig2bytes (d.frac % 9) = dig2bytes (scale % 9) := by omega
      have hs9 : d.frac % 9 ≤ scale % 9 := by omega
      have hwid : widenDigits (dig2bytes (d.frac % 9)) (scale % 9) (scale % 9) (d.frac % 9) =
          scale % 9 := by
        refine widenDigits_eq_lim _ _ hs9 (by omega) (fun y h1 h2 => ?_)
        have := dig2bytes_mono h1 (by omega)
        have := dig2bytes_mono (Nat.le_of_lt h2) (by omega)
        omega
      simp only [hA, decide_false, Bool.false_and, Bool.false_eq_true, if_false]
      simp only [hC, Nat.lt_irrefl, if_false, hf0, if_true, hwid, List.append_nil]
      rw [hFsplit, hd]
      exact trailBytes_eq (by rw [hGl, hC]) hGlt hclt
        (Nat.dvd_trans (Nat.pow_dvd_pow 10 (by omega)) hcdvd) d.sign
    · -- a last word of seven or eight digits widened to a full word
      have hd4 : dig2bytes (d.frac % 9) = 4 := by omega
      have h7 := dig2bytes_eq_four hd4 (by omega)
      have hs0 : scale % 9 = 0 := by
        by_contra h
        have := dig2bytes_pos (Nat.pos_of_ne_zero h) (by omega : scale % 9 ≤ 9)
        omega
      have hwid : widenDigits (dig2bytes (d.frac % 9)) 9 9 (d.frac % 9) = 9 := by
        refine widenDigits_eq_lim _ _ (by omega) (by omega) (fun y h1 h2 => ?_)
        rw [hd4]
        interval_cases y <;> first | omega | rfl
      simp only [hA, decide_false, Bool.false_and, Bool.false_eq_true, if_false]
      simp only [hf0, if_true, show d.frac / 9 < scale / 9 by omega, hwid, Nat.sub_self, pow_zero,
        Nat.div_one, List.append_nil]
      rw [hd4]
      have h0 := padBytes_eq (show d.fracWords.length ≤ scale / 9 by omega) hFlt
        (show 0 = digitsSize scale - 4 * d.fracWords.length by simp only [digitsSize]; omega) d.sign
      rw [List.replicate_zero, List.append_nil] at h0
      rw [show (List.map (storeMasked 4 d.sign) (R.take (d.frac / 9))).flatten ++
          storeMasked 4 d.sign (R.getD (d.frac / 9) 0) =
          (d.fracWords.map (storeMasked 4 d.sign)).flatten by
        rw [hFsplit, List.map_append, List.flatten_append, List.map_singleton,
          List.flatten_singleton]]
      exact h0

end MariaDB.Decimal
