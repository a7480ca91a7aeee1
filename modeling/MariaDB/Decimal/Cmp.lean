import MariaDB.Decimal.Basic
import Mathlib.Data.List.DropRight
import Mathlib.Tactic.Linarith
import Mathlib.Tactic.FieldSimp
import Mathlib.Tactic.Positivity
import Mathlib.Tactic.NormNum

/-
  `decimal_cmp` of strings/decimal.c, which is `do_sub` run with `to == 0`.

  `do_sub` first skips the leading zero words of both integer parts. The side with more
  integer words left is the larger; with equally many it drops trailing zero words from
  both word strings and scans them from the left (`cmpScan`). The result is `none` when the
  two are equal, else the carry: whether the second operand has the larger magnitude.
  `decimal_cmp` turns the carry and the common sign into `-1`/`1`, and compares signs when
  they differ.

  `doSubCarry_spec`: on well-formed operands the carry orders the magnitudes `absVal`
  exactly, whatever their layouts (leading zero words, trailing zero fraction words, any
  `intg`/`frac`). `decimalCmp_eq_compare` lifts this to the signed values.
-/

namespace MariaDB.Decimal

open MariaDB.Lib DecimalT

/-- The left-to-right scan of `do_sub` over two trimmed word strings: equal words advance
    both; `none` when both end together, else the carry (the second string is larger). -/
def cmpScan : List Nat → List Nat → Option Bool
  | [], [] => none
  | [], _ :: _ => some true
  | _ :: _, [] => some false
  | a :: as, c :: cs => if a = c then cmpScan as cs else some (decide (a < c))

/-- The comparison part of `do_sub`: `none` when `d1` and `d2` have equal magnitudes, else
    `some carry` with `carry` set when `d2` has the larger one. -/
def doSubCarry (d1 d2 : DecimalT) : Option Bool :=
  let intg1 := roundUp d1.intg
  let intg2 := roundUp d2.intg
  let frac1 := roundUp d1.frac
  let frac2 := roundUp d2.frac
  -- leading zero words of the integer parts
  let z1 := (d1.intWords.takeWhile (· == 0)).length
  let z2 := (d2.intWords.takeWhile (· == 0)).length
  if intg1 - z1 < intg2 - z2 then some true
  else if intg1 - z1 = intg2 - z2 then
    cmpScan (((d1.buf.take (intg1 + frac1)).drop z1).rdropWhile (· == 0))
      (((d2.buf.take (intg2 + frac2)).drop z2).rdropWhile (· == 0))
  else some false

/-- `decimal_cmp`: `-1`, `0` or `1`. -/
def decimalCmp (d1 d2 : DecimalT) : Int :=
  if d1.sign = d2.sign then
    match doSubCarry d1 d2 with
    | none => 0
    | some carry => if carry = d1.sign then 1 else -1
  else if d1.sign && !d2.sign then -1 else 1

/-! ## What a carry says -/

/-- The order a result of the scan asserts between two numbers. -/
def CarrySays : Option Bool → ℚ → ℚ → Prop
  | none, x, y => x = y
  | some true, x, y => x < y
  | some false, x, y => y < x

theorem carrySays_mul {r : Option Bool} {x y c : ℚ} (hc : 0 < c) (h : CarrySays r x y) :
    CarrySays r (c * x) (c * y) := by
  match r, h with
  | none, h => simp only [CarrySays] at h ⊢; rw [h]
  | some true, h => exact mul_lt_mul_of_pos_left h hc
  | some false, h => exact mul_lt_mul_of_pos_left h hc

theorem carrySays_add {r : Option Bool} {x y : ℚ} (c : ℚ) (h : CarrySays r x y) :
    CarrySays r (c + x) (c + y) := by
  match r, h with
  | none, h => simp only [CarrySays] at h ⊢; rw [h]
  | some true, h => have h' : x < y := h; show c + x < c + y; linarith
  | some false, h => have h' : y < x := h; show c + y < c + x; linarith

/-! ## The scan -/

/-- A word string without trailing zero words. -/
def LastNonzero (ws : List Nat) : Prop := ∀ h : ws ≠ [], ws.getLast h ≠ 0

theorem lastNonzero_tail {a : Nat} {as : List Nat} (h : LastNonzero (a :: as)) :
    LastNonzero as := by
  intro hne
  have := h (List.cons_ne_nil a as)
  rwa [List.getLast_cons hne] at this

theorem lastNonzero_rdropWhile (ws : List Nat) : LastNonzero (ws.rdropWhile (· == 0)) := by
  intro hne
  have := List.rdropWhile_last_not (· == 0) ws hne
  simpa using this

theorem digitsFrac_pos_of_lastNonzero {b : Nat} (hb : 0 < b) {ws : List Nat}
    (h : LastNonzero ws) (hne : ws ≠ []) : 0 < digitsFrac b ws := by
  rw [← List.dropLast_append_getLast hne]
  exact digitsFrac_pos hb _ _ (h hne)

/-- Dropping trailing zero words keeps the fraction. -/
theorem digitsFrac_rdropWhile {b : Nat} (hb : 0 < b) (ws : List Nat) :
    digitsFrac b (ws.rdropWhile (· == 0)) = digitsFrac b ws := by
  induction ws using List.reverseRecOn with
  | nil => simp
  | append_singleton ws w ih =>
    by_cases hw : w = 0
    · rw [List.rdropWhile_concat_pos _ _ _ (by simp [hw]), ih, hw, digitsFrac_append_zero hb]
    · rw [List.rdropWhile_concat_neg _ _ _ (by simp [hw])]

theorem digitsLt_rdropWhile {b : Nat} {ws : List Nat} (h : DigitsLt b ws) :
    DigitsLt b (ws.rdropWhile (· == 0)) :=
  fun d hd => h d ((List.rdropWhile_prefix _ _).subset hd)

/-- The scan decides the order of two fractions without trailing zero digits. -/
theorem cmpScan_spec {b : Nat} (hb : 0 < b) :
    ∀ {xs ys : List Nat}, DigitsLt b xs → DigitsLt b ys → LastNonzero xs → LastNonzero ys →
      CarrySays (cmpScan xs ys) (digitsFrac b xs) (digitsFrac b ys)
  | [], [], _, _, _, _ => by simp [cmpScan, CarrySays]
  | [], c :: cs, _, _, _, hy => by
    simp only [cmpScan, CarrySays, digitsFrac_nil]
    exact digitsFrac_pos_of_lastNonzero hb hy (List.cons_ne_nil c cs)
  | a :: as, [], _, _, hx, _ => by
    simp only [cmpScan, CarrySays, digitsFrac_nil]
    exact digitsFrac_pos_of_lastNonzero hb hx (List.cons_ne_nil a as)
  | a :: as, c :: cs, hxl, hyl, hx, hy => by
    rw [digitsLt_cons] at hxl hyl
    simp only [cmpScan]
    by_cases hac : a = c
    · -- equal words: the tails decide, and `(a + ·) / b` keeps their order
      rw [if_pos hac, digitsFrac_cons hb, digitsFrac_cons hb, hac]
      have ih := cmpScan_spec hb hxl.2 hyl.2 (lastNonzero_tail hx) (lastNonzero_tail hy)
      have hbq : (0 : ℚ) < b := by exact_mod_cast hb
      have key := carrySays_mul (inv_pos.mpr hbq) (carrySays_add (c : ℚ) ih)
      simpa [div_eq_inv_mul, mul_add] using key
    · rw [if_neg hac]
      rcases Nat.lt_or_gt_of_ne hac with hlt | hgt
      · simp only [hlt, decide_true, CarrySays]
        exact digitsFrac_lt_of_head_lt hb hlt hxl.2 cs
      · simp only [Nat.not_lt.mpr hgt.le, decide_false, CarrySays]
        exact digitsFrac_lt_of_head_lt hb hgt hyl.2 as

/-! ## Layout of the operands -/

/-- The words `do_sub` scans: the significant integer words and the fraction words. -/
theorem scanWords_eq (d : DecimalT) :
    (d.buf.take (roundUp d.intg + roundUp d.frac)).drop (d.intWords.takeWhile (· == 0)).length
      = sigWords d ++ d.fracWords := by
  have h := intWords_eq_takeWhile_append d
  rw [take_intg_frac]
  generalize d.intWords.takeWhile (· == 0) = z at h ⊢
  rw [h]
  simp

theorem absVal_eq_sig (d : DecimalT) :
    d.absVal = digitsVal 1000000000 (sigWords d) + digitsFrac 1000000000 d.fracWords := by
  rw [absVal, digitsVal_sigWords]

/-- The magnitude is the scanned words read as a fraction, shifted past the significant
    integer words. -/
theorem absVal_eq_frac (d : DecimalT) :
    d.absVal = (1000000000 : ℚ) ^ (sigWords d).length *
      digitsFrac 1000000000 (sigWords d ++ d.fracWords) := by
  rw [absVal_eq_sig, digitsFrac_append (by norm_num)]
  push_cast
  field_simp

/-- A non-empty significant part is at least `DIG_BASE ^ (its length - 1)`. -/
theorem pow_le_digitsVal_sigWords (d : DecimalT) (h : sigWords d ≠ []) :
    1000000000 ^ ((sigWords d).length - 1) ≤ digitsVal 1000000000 (sigWords d) := by
  obtain ⟨w, ws, hw⟩ := List.exists_cons_of_ne_nil h
  have hne := head_sigWords_ne_zero hw
  rw [hw, digitsVal_cons, List.length_cons, Nat.add_sub_cancel]
  have : 1 * 1000000000 ^ ws.length ≤ w * 1000000000 ^ ws.length :=
    Nat.mul_le_mul_right _ (Nat.one_le_iff_ne_zero.mpr hne)
  omega

/-- An operand with fewer significant integer words has the smaller magnitude. -/
theorem absVal_lt_of_sigWords_lt {d1 d2 : DecimalT} (h1 : d1.WellFormed)
    (hlt : (sigWords d1).length < (sigWords d2).length) : d1.absVal < d2.absVal := by
  have hne : sigWords d2 ≠ [] := by
    intro h; rw [h] at hlt; simp at hlt
  have hv1 := digitsVal_lt (digitsLt_sigWords h1)
  have hf1 := digitsFrac_lt_one (digitsLt_fracWords h1)
  have hv2 := pow_le_digitsVal_sigWords d2 hne
  have hpow : 1000000000 ^ (sigWords d1).length ≤ 1000000000 ^ ((sigWords d2).length - 1) :=
    Nat.pow_le_pow_right (by norm_num) (by omega)
  have hf2 := digitsFrac_nonneg 1000000000 d2.fracWords
  -- the integer words of `d1` stay at least one below `d2`'s
  have hint : digitsVal 1000000000 (sigWords d1) + 1 ≤ digitsVal 1000000000 (sigWords d2) := by
    omega
  have hint' : ((digitsVal 1000000000 (sigWords d1) : Nat) : ℚ) + 1
      ≤ ((digitsVal 1000000000 (sigWords d2) : Nat) : ℚ) := by exact_mod_cast hint
  rw [absVal_eq_sig, absVal_eq_sig]
  linarith

/-- `do_sub`'s carry orders the magnitudes of two well-formed decimals exactly. -/
theorem doSubCarry_spec {d1 d2 : DecimalT} (h1 : d1.WellFormed) (h2 : d2.WellFormed) :
    CarrySays (doSubCarry d1 d2) d1.absVal d2.absVal := by
  have hl1 := sigWords_length h1
  have hl2 := sigWords_length h2
  simp only [doSubCarry, scanWords_eq, ← hl1, ← hl2]
  by_cases hlt : (sigWords d1).length < (sigWords d2).length
  · rw [if_pos hlt]
    exact absVal_lt_of_sigWords_lt h1 hlt
  rw [if_neg hlt]
  by_cases hn : (sigWords d1).length = (sigWords d2).length
  · -- as many significant integer words: the fractions decide
    rw [if_pos hn]
    have hd1 : DigitsLt 1000000000 (sigWords d1 ++ d1.fracWords) :=
      digitsLt_append.mpr ⟨digitsLt_sigWords h1, digitsLt_fracWords h1⟩
    have hd2 : DigitsLt 1000000000 (sigWords d2 ++ d2.fracWords) :=
      digitsLt_append.mpr ⟨digitsLt_sigWords h2, digitsLt_fracWords h2⟩
    have hs := cmpScan_spec (by norm_num) (digitsLt_rdropWhile hd1) (digitsLt_rdropWhile hd2)
      (lastNonzero_rdropWhile _) (lastNonzero_rdropWhile _)
    rw [digitsFrac_rdropWhile (by norm_num), digitsFrac_rdropWhile (by norm_num)] at hs
    rw [absVal_eq_frac d1, absVal_eq_frac d2, ← hn]
    exact carrySays_mul (by positivity) hs
  · rw [if_neg hn]
    exact absVal_lt_of_sigWords_lt h2 (by omega)

/-! ## `decimal_cmp` -/

theorem absVal_nonneg (d : DecimalT) : 0 ≤ d.absVal := by
  rw [absVal]
  have := digitsFrac_nonneg 1000000000 d.fracWords
  positivity

theorem absVal_pos_of_sign {d : DecimalT} (hn : ¬ d.NegZero) (hs : d.sign = true) :
    0 < d.absVal :=
  lt_of_le_of_ne (absVal_nonneg d) (fun h => hn ⟨hs, h.symm⟩)

/-- `decimal_cmp` compares the exact values of two well-formed decimals that are not negative
    zeros: `-1`, `0` or `1` as the first is below, equal to or above the second. -/
theorem decimalCmp_eq_compare {d1 d2 : DecimalT} (h1 : d1.WellFormed) (h2 : d2.WellFormed)
    (n1 : ¬ d1.NegZero) (n2 : ¬ d2.NegZero) :
    decimalCmp d1 d2 = if d1.val < d2.val then -1 else if d1.val = d2.val then 0 else 1 := by
  have a1 := absVal_nonneg d1
  have a2 := absVal_nonneg d2
  unfold decimalCmp
  by_cases hs : d1.sign = d2.sign
  · -- one sign: the carry orders the magnitudes, the sign orients them
    rw [if_pos hs]
    have hc := doSubCarry_spec h1 h2
    cases hr : doSubCarry d1 d2 with
    | none =>
      rw [hr] at hc
      simp only [CarrySays] at hc
      simp [val, hs, hc]
    | some carry =>
      rw [hr] at hc
      have hv2 : d2.val = if d1.sign then -d2.absVal else d2.absVal := by rw [hs]; rfl
      rw [hv2]
      cases carry <;> cases hsg : d1.sign <;> simp only [CarrySays] at hc <;>
        simp only [val, hsg, Bool.false_eq_true, Bool.true_eq_false, if_true, if_false] <;>
        split_ifs <;> first | rfl | linarith
  · -- opposite signs: the negative side is below, as it is not a zero
    rw [if_neg hs]
    cases hsg1 : d1.sign <;> cases hsg2 : d2.sign
    · exact absurd (hsg1.trans hsg2.symm) hs
    · have p2 := absVal_pos_of_sign n2 hsg2
      simp only [val, hsg1, hsg2, Bool.false_eq_true, if_true, if_false, Bool.false_and]
      split_ifs <;> first | rfl | linarith
    · have p1 := absVal_pos_of_sign n1 hsg1
      simp only [val, hsg1, hsg2, Bool.false_eq_true, if_true, if_false, Bool.true_and,
        Bool.not_false]
      split_ifs <;> first | rfl | linarith
    · exact absurd (hsg1.trans hsg2.symm) hs

/-- `decimal_cmp` is the exact comparison of values, for every layout of two well-formed
    decimals that are not negative zeros. -/
theorem decimal_cmp_exact (d1 d2 : DecimalT) (h1 : d1.WellFormed) (h2 : d2.WellFormed)
    (n1 : ¬ d1.NegZero) (n2 : ¬ d2.NegZero) :
    (decimalCmp d1 d2 = -1 ↔ d1.val < d2.val) ∧ (decimalCmp d1 d2 = 0 ↔ d1.val = d2.val) ∧
      (decimalCmp d1 d2 = 1 ↔ d2.val < d1.val) := by
  rw [decimalCmp_eq_compare h1 h2 n1 n2]
  rcases lt_trichotomy d1.val d2.val with hlt | heq | hgt
  · have hne : d1.val ≠ d2.val := ne_of_lt hlt
    have hng : ¬ d2.val < d1.val := not_lt.mpr hlt.le
    simp [hlt, hne, hng]
  · simp [heq]
  · have hnl : ¬ d1.val < d2.val := not_lt.mpr hgt.le
    have hne : d1.val ≠ d2.val := ne_of_gt hgt
    simp [hnl, hne, hgt]

/-- `1.5` against `01.50` stored with a leading zero word and a wider fraction. -/
theorem decimal_cmp_exact_layouts :
    (decimalCmp ⟨1, 1, false, [1, 500000000]⟩ ⟨10, 2, false, [0, 1, 500000000]⟩ = 0 ↔
      DecimalT.val ⟨1, 1, false, [1, 500000000]⟩ = DecimalT.val ⟨10, 2, false, [0, 1, 500000000]⟩) :=
  (decimal_cmp_exact ⟨1, 1, false, [1, 500000000]⟩ ⟨10, 2, false, [0, 1, 500000000]⟩
    (by decide) (by decide) (fun h => Bool.false_ne_true h.1)
    (fun h => Bool.false_ne_true h.1)).2.1

end MariaDB.Decimal
