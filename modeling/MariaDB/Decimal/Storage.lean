import MariaDB.Decimal.Cmp
import MariaDB.Decimal.Write
import MariaDB.Decimal.Read

/-
  The binary format of DECIMAL(precision, scale) as a whole: what `decimal2bin` writes,
  `bin2decimal` reads back and `memcmp` orders.

  Model. `signedRow precision scale sign M` is the format holding `±M / 10^scale`: the row
  `binFields precision scale` holding `M`, every byte complemented for a negative number, the
  top bit of the first byte flipped. `Fits d precision scale` collects what a decimal needs to
  be stored without loss: well formed, consistent, no negative zero, its significant integer
  digits and its fraction digits within the type. For such a decimal, `decimal2bin` writes
  `signedRow` of its sign and `scaledAbs d scale` (`decimal2bin_eq`), and `bin2decimal` reads
  any `signedRow` back (`bin2decimal_encoded`).

  Proved:
  * `beVal_signedRow`: read as one big-endian number, a row is offset binary around the
    middle of its range, below it for a negative number;
  * `signedRow_lt_of_lt`, `signedRow_eq_of_eq`: rows order as the signed numbers they hold;
  * `decimal_storage_round_trip`: a decimal that fits is written as `E_DEC_OK` in
    `decimal_bin_size(precision, scale)` bytes and read back as `E_DEC_OK`, with `scale`
    fraction digits, the same sign and the same value (so `decimal_cmp` says equal);
  * `decimal_key_order`: `memcmp` of the rows of two decimals that fit has the sign of
    `decimal_cmp`, and decimals of one value, in any layouts, have one row.
-/

namespace MariaDB.Decimal

open MariaDB.Lib DecimalT

/-! ## Rows of signed numbers -/

/-- The number `±M` a row holds, before it is divided by `10^scale`. -/
def signedMag (sign : Bool) (M : Nat) : ℚ := if sign then -(M : ℚ) else M

/-- The bytes of `±M` in the format of DECIMAL(precision, scale). -/
def signedRow (precision scale : Nat) (sign : Bool) (M : Nat) : List UInt8 :=
  flipFirst ((mrEncode (binFields precision scale) M).map (maskByte sign))

@[simp] theorem length_signedRow (precision scale : Nat) (sign : Bool) (M : Nat) :
    (signedRow precision scale sign M).length = decimalBinSize precision scale := by
  rw [signedRow, length_flipFirst, List.length_map, mrEncode_length, widthSum_binFields]

theorem beVal_binFields_lt_half (precision scale M : Nat) :
    beVal (mrEncode (binFields precision scale) M) <
      2 ^ (8 * decimalBinSize precision scale - 1) := by
  have h := beVal_mrEncode_lt_half (fieldsHalf_binFields precision scale) M
  rwa [widthSum_binFields] at h

/-- A row read as one big-endian number: offset binary around `H = 2^(8 n - 1)`, `n` the
    size of the format, above `H` for a non-negative number and below it for a negative
    one. -/
theorem beVal_signedRow {precision : Nat} (scale : Nat) (hp : 0 < precision) (sign : Bool)
    (M : Nat) :
    beVal (signedRow precision scale sign M) =
      if sign then
        2 ^ (8 * decimalBinSize precision scale - 1) - 1 -
          beVal (mrEncode (binFields precision scale) M)
      else
        2 ^ (8 * decimalBinSize precision scale - 1) +
          beVal (mrEncode (binFields precision scale) M) := by
  have hlen : (mrEncode (binFields precision scale) M).length =
      decimalBinSize precision scale := by
    rw [mrEncode_length, widthSum_binFields]
  have hE := beVal_binFields_lt_half precision scale M
  rw [← hlen] at hE
  rw [signedRow, beVal_signed (hlen ▸ decimalBinSize_pos hp) hE sign, hlen]

/-- Rows order as the signed numbers they hold. -/
theorem signedRow_lt_of_lt {precision scale : Nat} (hp : 0 < precision)
    (hs : scale ≤ precision) {sign1 sign2 : Bool} {M1 M2 : Nat} (hM1 : M1 < 10 ^ precision)
    (hM2 : M2 < 10 ^ precision) (h : signedMag sign1 M1 < signedMag sign2 M2) :
    beVal (signedRow precision scale sign1 M1) < beVal (signedRow precision scale sign2 M2) := by
  -- the row of the magnitude is strictly monotone below `10^precision`
  have hmono : ∀ {m1 m2 : Nat}, m1 < m2 → m2 < 10 ^ precision →
      beVal (mrEncode (binFields precision scale) m1) <
        beVal (mrEncode (binFields precision scale) m2) := fun h12 h2 =>
    beVal_mrEncode_lt_of_lt (fieldsHalf_binFields precision scale).fieldsFit h12
      (by rw [radixProd_binFields hs]; exact h2)
  have hH1 := beVal_binFields_lt_half precision scale M1
  have hH2 := beVal_binFields_lt_half precision scale M2
  have hq1 : (0 : ℚ) ≤ M1 := Nat.cast_nonneg M1
  have hq2 : (0 : ℚ) ≤ M2 := Nat.cast_nonneg M2
  rw [beVal_signedRow scale hp, beVal_signedRow scale hp]
  cases sign1 <;> cases sign2 <;>
    simp only [signedMag, if_true, if_false, Bool.false_eq_true] at h ⊢
  · -- two non-negative numbers: the magnitudes order the rows
    have := hmono (by exact_mod_cast h) hM2
    omega
  · -- a non-negative number is never below a negative one
    linarith
  · -- a negative row is below the middle, a non-negative one above
    omega
  · -- two negative numbers: the complement reverses the order of the magnitudes
    have := hmono (by exact_mod_cast neg_lt_neg_iff.mp h) hM1
    omega

/-- Rows holding one signed number are one row, when neither is a negative zero. -/
theorem signedRow_eq_of_eq {precision scale : Nat} {sign1 sign2 : Bool} {M1 M2 : Nat}
    (hz1 : sign1 = true → 0 < M1) (hz2 : sign2 = true → 0 < M2)
    (h : signedMag sign1 M1 = signedMag sign2 M2) :
    signedRow precision scale sign1 M1 = signedRow precision scale sign2 M2 := by
  have hq1 : (0 : ℚ) ≤ M1 := Nat.cast_nonneg M1
  have hq2 : (0 : ℚ) ≤ M2 := Nat.cast_nonneg M2
  cases sign1 <;> cases sign2 <;>
    simp only [signedMag, if_true, if_false, Bool.false_eq_true] at h
  · rw [Nat.cast_inj.mp h]
  · have : (0 : ℚ) < M2 := by exact_mod_cast hz2 rfl
    linarith
  · have : (0 : ℚ) < M1 := by exact_mod_cast hz1 rfl
    linarith
  · rw [Nat.cast_inj.mp (neg_inj.mp h)]

/-! ## Decimals that fit the type -/

/-- `d` can be stored as DECIMAL(precision, scale) without loss. -/
structure DecimalT.Fits (d : DecimalT) (precision scale : Nat) : Prop where
  wellFormed : d.WellFormed
  consistent : d.DigitsConsistent
  notNegZero : ¬ d.NegZero
  /-- `decimal_intg(d) <= precision - scale`. -/
  intg_le : decimalIntg d ≤ precision - scale
  frac_le : d.frac ≤ scale

namespace DecimalT.Fits

variable {d : DecimalT} {precision scale : Nat}

theorem scaledAbs_lt (h : d.Fits precision scale) (hs : scale ≤ precision) :
    scaledAbs d scale < 10 ^ precision := by
  have hI := (decimalIntg_le_iff h.wellFormed h.consistent _).mp h.intg_le
  rw [← scaledAbs_div h.wellFormed scale] at hI
  have hlt := (Nat.div_lt_iff_lt_mul (by positivity)).mp hI
  rwa [← pow_add, Nat.sub_add_cancel hs] at hlt

theorem scaledAbs_pos (h : d.Fits precision scale) (hsg : d.sign = true) :
    0 < scaledAbs d scale := by
  have hpos := absVal_pos_of_sign h.notNegZero hsg
  have hq : (0 : ℚ) < scaledAbs d scale := by
    rw [scaledAbs_cast h.wellFormed h.consistent h.frac_le]
    positivity
  exact_mod_cast hq

theorem val_eq (h : d.Fits precision scale) :
    d.val = signedMag d.sign (scaledAbs d scale) / 10 ^ scale := by
  rw [signedMag, scaledAbs_cast h.wellFormed h.consistent h.frac_le, DecimalT.val]
  split <;> field_simp

/-- What `decimal2bin` writes for a decimal that fits. -/
theorem decimal2bin_signedRow (h : d.Fits precision scale) :
    decimal2bin d precision scale = (.ok, signedRow precision scale d.sign (scaledAbs d scale)) :=
  decimal2bin_eq h.wellFormed h.consistent h.notNegZero h.intg_le h.frac_le

end DecimalT.Fits

/-- Two decimals of one value, neither a negative zero, have one sign. -/
theorem sign_eq_of_val_eq {d1 d2 : DecimalT} (n1 : ¬ d1.NegZero) (n2 : ¬ d2.NegZero)
    (h : d1.val = d2.val) : d1.sign = d2.sign := by
  have a1 := absVal_nonneg d1
  have a2 := absVal_nonneg d2
  unfold DecimalT.val at h
  -- equal signs close by `rfl`; opposite signs put a positive magnitude below zero
  cases hs1 : d1.sign <;> cases hs2 : d2.sign <;> rw [hs1, hs2] at h
  · have := absVal_pos_of_sign n2 hs2
    simp only [if_true, if_false, Bool.false_eq_true] at h
    linarith
  · have := absVal_pos_of_sign n1 hs1
    simp only [if_true, if_false, Bool.false_eq_true] at h
    linarith

/-! ## The round trip -/

/-- A decimal that fits DECIMAL(precision, scale) is written in `decimal_bin_size` bytes and
    read back, into a buffer long enough, with `scale` fraction digits, its sign and its
    value. -/
theorem decimal_storage_round_trip {d : DecimalT} {precision scale : Nat} (hp : 0 < precision)
    (hs : scale ≤ precision) (hd : d.Fits precision scale) (dst : DecimalT)
    (hlen : roundUp (precision - scale) + roundUp scale ≤ dst.len) :
    (decimal2bin d precision scale).1 = .ok ∧
      (decimal2bin d precision scale).2.length = decimalBinSize precision scale ∧
      (bin2decimal (decimal2bin d precision scale).2 dst precision scale).1 = .ok ∧
      (bin2decimal (decimal2bin d precision scale).2 dst precision scale).2.frac = scale ∧
      decimalCmp (bin2decimal (decimal2bin d precision scale).2 dst precision scale).2 d = 0 ∧
      (bin2decimal (decimal2bin d precision scale).2 dst precision scale).2.sign = d.sign ∧
      (bin2decimal (decimal2bin d precision scale).2 dst precision scale).2.val = d.val := by
  obtain ⟨r, hr, hfr, hwr, hnr, hvr⟩ := bin2decimal_encoded d.sign hp hs (hd.scaledAbs_lt hs)
    hd.scaledAbs_pos hlen
  have hr' : bin2decimal (signedRow precision scale d.sign (scaledAbs d scale)) dst precision
      scale = (.ok, r) := hr
  have hv : r.val = d.val := by
    rw [hvr, hd.val_eq, signedMag]
  rw [hd.decimal2bin_signedRow]
  dsimp only
  rw [hr']
  refine ⟨rfl, length_signedRow _ _ _ _, rfl, hfr, ?_, sign_eq_of_val_eq hnr hd.notNegZero hv, hv⟩
  rw [decimalCmp_eq_compare hwr hd.wellFormed hnr hd.notNegZero, if_neg (not_lt.mpr hv.ge),
    if_pos hv]

/-- 1.5 as DECIMAL(3, 2), read back into a buffer of two words. -/
theorem decimal_storage_round_trip_one_point_five :
    DecimalT.Fits ⟨1, 1, false, [1, 500000000]⟩ 3 2 ∧
      roundUp (3 - 2) + roundUp 2 ≤ DecimalT.len ⟨0, 0, false, [0, 0]⟩ ∧
      decimalCmp (bin2decimal (decimal2bin ⟨1, 1, false, [1, 500000000]⟩ 3 2).2
        ⟨0, 0, false, [0, 0]⟩ 3 2).2 ⟨1, 1, false, [1, 500000000]⟩ = 0 := by
  have hd : DecimalT.Fits ⟨1, 1, false, [1, 500000000]⟩ 3 2 :=
    ⟨by decide, by decide, fun h => Bool.false_ne_true h.1, by decide, by decide⟩
  exact ⟨hd, by decide,
    (decimal_storage_round_trip (by decide) (by decide) hd ⟨0, 0, false, [0, 0]⟩
      (by decide)).2.2.2.2.1⟩

/-! ## The order of the rows -/

/-- `memcmp` over `decimal_bin_size` bytes orders the rows of two decimals that fit as
    `decimal_cmp` orders the decimals; decimals of one value have one row. -/
theorem decimal_key_order {d1 d2 : DecimalT} {precision scale : Nat} (hp : 0 < precision)
    (hs : scale ≤ precision) (h1 : d1.Fits precision scale) (h2 : d2.Fits precision scale) :
    (memcmp (decimal2bin d1 precision scale).2 (decimal2bin d2 precision scale).2
        (decimalBinSize precision scale)).sign = decimalCmp d1 d2 ∧
      (d1.val = d2.val → (decimal2bin d1 precision scale).2 = (decimal2bin d2 precision scale).2) := by
  have hq : (0 : ℚ) < 10 ^ scale := by positivity
  have heq : d1.val = d2.val → signedRow precision scale d1.sign (scaledAbs d1 scale) =
      signedRow precision scale d2.sign (scaledAbs d2 scale) := by
    intro hv
    rw [h1.val_eq, h2.val_eq] at hv
    exact signedRow_eq_of_eq h1.scaledAbs_pos h2.scaledAbs_pos ((div_left_inj' hq.ne').mp hv)
  have hlt : ∀ {e1 e2 : DecimalT}, e1.Fits precision scale → e2.Fits precision scale →
      e1.val < e2.val → beVal (signedRow precision scale e1.sign (scaledAbs e1 scale)) <
        beVal (signedRow precision scale e2.sign (scaledAbs e2 scale)) := by
    intro e1 e2 f1 f2 hv
    rw [f1.val_eq, f2.val_eq] at hv
    exact signedRow_lt_of_lt hp hs (f1.scaledAbs_lt hs) (f2.scaledAbs_lt hs)
      ((div_lt_div_iff_of_pos_right hq).mp hv)
  rw [h1.decimal2bin_signedRow, h2.decimal2bin_signedRow]
  dsimp only
  refine ⟨?_, heq⟩
  rw [memcmp_sign _ _ _ (length_signedRow _ _ _ _) (length_signedRow _ _ _ _),
    decimalCmp_eq_compare h1.wellFormed h2.wellFormed h1.notNegZero h2.notNegZero]
  rcases lt_trichotomy d1.val d2.val with hv | hv | hv
  · rw [if_pos hv]
    have := hlt h1 h2 hv
    exact Int.sign_eq_neg_one_of_neg (by omega)
  · rw [if_neg (not_lt.mpr hv.ge), if_pos hv, heq hv, sub_self, Int.sign_zero]
  · rw [if_neg (not_lt.mpr hv.le), if_neg hv.ne']
    have := hlt h2 h1 hv
    exact Int.sign_eq_one_of_pos (by omega)

/-- 1.5 with one integer word and 1.50 with a leading zero word, as DECIMAL(3, 2): one row. -/
theorem decimal_key_order_layouts :
    DecimalT.Fits ⟨1, 1, false, [1, 500000000]⟩ 3 2 ∧
      DecimalT.Fits ⟨10, 2, false, [0, 1, 500000000]⟩ 3 2 ∧
      (memcmp (decimal2bin ⟨1, 1, false, [1, 500000000]⟩ 3 2).2
          (decimal2bin ⟨10, 2, false, [0, 1, 500000000]⟩ 3 2).2 (decimalBinSize 3 2)).sign =
        decimalCmp ⟨1, 1, false, [1, 500000000]⟩ ⟨10, 2, false, [0, 1, 500000000]⟩ := by
  have h1 : DecimalT.Fits ⟨1, 1, false, [1, 500000000]⟩ 3 2 :=
    ⟨by decide, by decide, fun h => Bool.false_ne_true h.1, by decide, by decide⟩
  have h2 : DecimalT.Fits ⟨10, 2, false, [0, 1, 500000000]⟩ 3 2 :=
    ⟨by decide, by decide, fun h => Bool.false_ne_true h.1, by decide, by decide⟩
  exact ⟨h1, h2, (decimal_key_order (by decide) (by decide) h1 h2).1⟩

end MariaDB.Decimal
