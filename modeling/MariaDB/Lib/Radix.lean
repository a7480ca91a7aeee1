import MariaDB.Lib.BigEndian
import Mathlib.Algebra.BigOperators.Group.List.Basic
import Mathlib.Data.List.Induction
import Mathlib.Data.List.TakeWhile
import Mathlib.Algebra.Order.Field.Basic
import Mathlib.Data.Rat.Defs
import Mathlib.Tactic.FieldSimp
import Mathlib.Tactic.Linarith

/-
  Digit strings and fixed-width mixed-radix byte fields.

  `digitsVal b ds` is the value of the digit string `ds` in base `b`, most significant digit
  first (a buffer of base-`10^9` words, say). `mrEncode specs m` writes `m` as a row of
  fixed-width big-endian byte fields: `specs` lists `(radix, width)` from the least
  significant field up, and field `i` holds the `i`-th digit of `m` in that mixed radix.

  Results:
  * `digitsVal_append`, `digitsVal_lt`, `digitsVal_inj`, `digitsVal_dropWhile_zero`: the
    digit-string arithmetic, leading zeros not counting;
  * `digitsOf`, `digitsVal_digitsOf`, `digitsOf_digitsVal`: the `n` low digits of a number,
    inverse to `digitsVal` on strings of `n` digits; `digitsOf_add` splits them;
  * `mrEncode_append`: a row of fields splits at any field boundary;
  * `mrEncode_replicate_eq`: with one radix `b` and width `k` throughout, the row is the
    digit string `digitsOf b n m`, each digit in `k` bytes; `mrEncode_widen_top`: a top field
    widened to a larger radix of the same width writes the same bytes;
  * `beVal_mrEncode_lt_of_lt`: when every radix fits its width, the row read as one
    big-endian number is strictly monotone in `m` below the product of the radices. With
    `memcmp_sign` this makes such rows comparable with `memcmp`; `beVal_mrEncode_lt_half`:
    when every radix is at most half its range, the row stays below half of its range, so
    its top bit is clear;
  * `digitsFrac_lt_of_head_lt`, `digitsFrac_append`, `digitsFrac_append_zero`: a digit string
    read as the fraction `0.ds` compares by its first differing digit, and trailing zeros do
    not change it;
  * `mul_add_mul_lt_iff`: a low digit kept in units of `c` compares like the units;
  * `hornerVal_lt_iff`, `hornerVal_eq_iff`: a mixed-radix number (Horner's rule over
    `(radix, digit)` pairs) compares like its digits, lexicographically, when every digit is
    below its radix.
-/

namespace MariaDB.Lib

/-! ## Digit strings -/

/-- One step of reading digits: shift by the base and add the next digit. -/
def digitStep (b acc d : Nat) : Nat := acc * b + d

/-- Value of a digit string in base `b`, most significant digit first. -/
def digitsVal (b : Nat) (ds : List Nat) : Nat := ds.foldl (digitStep b) 0

theorem foldl_digitStep (b : Nat) (ds : List Nat) (acc : Nat) :
    ds.foldl (digitStep b) acc = acc * b ^ ds.length + digitsVal b ds := by
  induction ds generalizing acc with
  | nil => simp [digitsVal]
  | cons d ds ih =>
    simp only [List.foldl_cons, digitsVal, List.length_cons]
    rw [ih, ih (digitStep b 0 d)]
    simp only [digitStep, Nat.pow_succ]
    ring

@[simp] theorem digitsVal_nil (b : Nat) : digitsVal b [] = 0 := rfl

theorem digitsVal_cons (b d : Nat) (ds : List Nat) :
    digitsVal b (d :: ds) = d * b ^ ds.length + digitsVal b ds := by
  rw [digitsVal, List.foldl_cons, foldl_digitStep]
  simp [digitStep]

theorem digitsVal_append (b : Nat) (xs ys : List Nat) :
    digitsVal b (xs ++ ys) = digitsVal b xs * b ^ ys.length + digitsVal b ys := by
  rw [digitsVal, List.foldl_append, foldl_digitStep]
  rfl

theorem digitsVal_append_singleton (b : Nat) (xs : List Nat) (d : Nat) :
    digitsVal b (xs ++ [d]) = digitsVal b xs * b + d := by
  simp [digitsVal_append, digitsVal_cons]

/-- All digits are below the base. -/
def DigitsLt (b : Nat) (ds : List Nat) : Prop := ∀ d ∈ ds, d < b

instance (b : Nat) (ds : List Nat) : Decidable (DigitsLt b ds) :=
  inferInstanceAs (Decidable (∀ d ∈ ds, d < b))

theorem digitsLt_cons {b d : Nat} {ds : List Nat} :
    DigitsLt b (d :: ds) ↔ d < b ∧ DigitsLt b ds := by
  simp [DigitsLt]

theorem digitsLt_append {b : Nat} {xs ys : List Nat} :
    DigitsLt b (xs ++ ys) ↔ DigitsLt b xs ∧ DigitsLt b ys := by
  simp only [DigitsLt, List.mem_append]
  constructor
  · intro h
    exact ⟨fun d hd => h d (Or.inl hd), fun d hd => h d (Or.inr hd)⟩
  · rintro ⟨h1, h2⟩ d (hd | hd)
    · exact h1 d hd
    · exact h2 d hd

theorem digitsVal_lt {b : Nat} {ds : List Nat} (h : DigitsLt b ds) :
    digitsVal b ds < b ^ ds.length := by
  induction ds with
  | nil => simp
  | cons d ds ih =>
    rw [digitsLt_cons] at h
    have hr := ih h.2
    rw [digitsVal_cons, List.length_cons, Nat.pow_succ]
    calc d * b ^ ds.length + digitsVal b ds
        < d * b ^ ds.length + b ^ ds.length := by omega
      _ = (d + 1) * b ^ ds.length := by ring
      _ ≤ b * b ^ ds.length := Nat.mul_le_mul_right _ h.1
      _ = b ^ ds.length * b := Nat.mul_comm _ _

/-- Two digit strings of one length, with digits below the base and one value, are equal. -/
theorem digitsVal_inj {b : Nat} {xs ys : List Nat} (hx : DigitsLt b xs) (hy : DigitsLt b ys)
    (hl : xs.length = ys.length) (hv : digitsVal b xs = digitsVal b ys) : xs = ys := by
  induction xs generalizing ys with
  | nil => cases ys with
    | nil => rfl
    | cons _ _ => simp at hl
  | cons x xs ih => cases ys with
    | nil => simp at hl
    | cons y ys =>
      rw [digitsLt_cons] at hx hy
      simp only [List.length_cons, Nat.add_right_cancel_iff] at hl
      rw [digitsVal_cons, digitsVal_cons, hl] at hv
      have hxl := digitsVal_lt hx.2
      rw [hl] at hxl
      obtain ⟨hq, hr⟩ := eq_of_mul_add_eq hxl (digitsVal_lt hy.2) hv
      rw [hq, ih hx.2 hy.2 hl hr]

theorem digitsVal_replicate_zero (b k : Nat) : digitsVal b (List.replicate k 0) = 0 := by
  induction k with
  | zero => rfl
  | succ k ih => simp [List.replicate_succ, digitsVal_cons, ih]

theorem digitsVal_eq_zero_of_forall {b : Nat} {ws : List Nat} (h : ∀ w ∈ ws, w = 0) :
    digitsVal b ws = 0 := by
  induction ws with
  | nil => rfl
  | cons w ws ih =>
    rw [digitsVal_cons, h w (by simp), ih (fun x hx => h x (by simp [hx]))]
    simp

/-- In a positive base, the digits of zero are zeros. -/
theorem digitsVal_eq_zero_iff {b : Nat} (hb : 0 < b) {ws : List Nat} :
    digitsVal b ws = 0 ↔ ∀ w ∈ ws, w = 0 := by
  refine ⟨fun h => ?_, digitsVal_eq_zero_of_forall⟩
  induction ws with
  | nil => simp
  | cons w ws ih =>
    rw [digitsVal_cons, Nat.add_eq_zero_iff, Nat.mul_eq_zero] at h
    obtain ⟨hw | hp, hr⟩ := h
    · exact List.forall_mem_cons.mpr ⟨hw, ih hr⟩
    · exact absurd hp (pow_pos hb _).ne'

/-- Leading zero digits do not count. -/
theorem digitsVal_dropWhile_zero (b : Nat) (ws : List Nat) :
    digitsVal b (ws.dropWhile (· == 0)) = digitsVal b ws := by
  conv_rhs => rw [← List.takeWhile_append_dropWhile (p := (· == 0)) (l := ws), digitsVal_append]
  have hz : digitsVal b (ws.takeWhile (· == 0)) = 0 :=
    digitsVal_eq_zero_of_forall fun w hw => by simpa using List.mem_takeWhile_imp hw
  rw [hz]
  simp

/-- The `n` low digits of `m` in base `b`, most significant first. -/
def digitsOf (b : Nat) : Nat → Nat → List Nat
  | 0, _ => []
  | n + 1, m => digitsOf b n (m / b) ++ [m % b]

@[simp] theorem digitsOf_length (b n m : Nat) : (digitsOf b n m).length = n := by
  induction n generalizing m with
  | zero => rfl
  | succ n ih => simp [digitsOf, ih]

theorem digitsLt_digitsOf {b : Nat} (hb : 0 < b) (n m : Nat) : DigitsLt b (digitsOf b n m) := by
  induction n generalizing m with
  | zero => intro d hd; simp [digitsOf] at hd
  | succ n ih =>
    rw [digitsOf, digitsLt_append]
    exact ⟨ih _, fun d hd => by simp at hd; rw [hd]; exact Nat.mod_lt _ hb⟩

theorem digitsVal_digitsOf (b n m : Nat) : digitsVal b (digitsOf b n m) = m % b ^ n := by
  induction n generalizing m with
  | zero => simp [digitsOf, Nat.mod_one]
  | succ n ih =>
    rw [digitsOf, digitsVal_append_singleton, ih, pow_succ', Nat.mod_mul]
    ring

/-- Digit strings with digits below the base are the digits of their value. -/
theorem digitsOf_digitsVal {b : Nat} {ds : List Nat} (h : DigitsLt b ds) :
    digitsOf b ds.length (digitsVal b ds) = ds := by
  have hb : 0 < b ∨ ds = [] := by
    cases ds with
    | nil => exact Or.inr rfl
    | cons d _ => exact Or.inl (Nat.lt_of_le_of_lt (Nat.zero_le d) (h d (by simp)))
  rcases hb with hb | rfl
  · apply digitsVal_inj (digitsLt_digitsOf hb _ _) h (digitsOf_length _ _ _)
    rw [digitsVal_digitsOf, Nat.mod_eq_of_lt (digitsVal_lt h)]
  · rfl

/-- The `n + k` low digits are the `n` digits above the `k` low ones, then those. -/
theorem digitsOf_add (b n k m : Nat) :
    digitsOf b (n + k) m = digitsOf b n (m / b ^ k) ++ digitsOf b k m := by
  induction k generalizing m with
  | zero => simp [digitsOf]
  | succ k ih =>
    rw [← Nat.add_assoc, digitsOf, ih, digitsOf, List.append_assoc, Nat.div_div_eq_div_mul,
      ← pow_succ']

/-- The `n` low digits depend on the number modulo `b ^ n` only. -/
theorem digitsOf_mod_pow (b n m : Nat) : digitsOf b n (m % b ^ n) = digitsOf b n m := by
  induction n generalizing m with
  | zero => rfl
  | succ n ih =>
    rw [digitsOf, digitsOf, pow_succ', Nat.mod_mul_right_div_self, ih, Nat.mod_mul_right_mod]

/-! ## Mixed-radix byte fields -/

/-- Fixed-width mixed-radix encoding: `specs` lists `(radix, width)` from the least
    significant field up; each digit is written big-endian in its width, the most
    significant field first. -/
def mrEncode : List (Nat × Nat) → Nat → List UInt8
  | [], _ => []
  | (r, w) :: specs, m => mrEncode specs (m / r) ++ beBytes w (m % r)

/-- Product of the radices of a row of fields. -/
def radixProd (specs : List (Nat × Nat)) : Nat := (specs.map Prod.fst).prod

/-- Total width of a row of fields. -/
def widthSum (specs : List (Nat × Nat)) : Nat := (specs.map Prod.snd).sum

/-- Every field's radix is positive and fits its bytes. -/
def FieldsFit (specs : List (Nat × Nat)) : Prop := ∀ p ∈ specs, 0 < p.1 ∧ p.1 ≤ 256 ^ p.2

@[simp] theorem radixProd_nil : radixProd [] = 1 := rfl

@[simp] theorem radixProd_cons (p : Nat × Nat) (specs : List (Nat × Nat)) :
    radixProd (p :: specs) = p.1 * radixProd specs := by
  simp [radixProd]

theorem radixProd_append (s1 s2 : List (Nat × Nat)) :
    radixProd (s1 ++ s2) = radixProd s1 * radixProd s2 := by
  simp [radixProd]

@[simp] theorem widthSum_nil : widthSum [] = 0 := rfl

@[simp] theorem widthSum_cons (p : Nat × Nat) (specs : List (Nat × Nat)) :
    widthSum (p :: specs) = p.2 + widthSum specs := by
  simp [widthSum]

theorem fieldsFit_cons {p : Nat × Nat} {specs : List (Nat × Nat)} :
    FieldsFit (p :: specs) ↔ (0 < p.1 ∧ p.1 ≤ 256 ^ p.2) ∧ FieldsFit specs := by
  simp [FieldsFit]

@[simp] theorem mrEncode_nil (m : Nat) : mrEncode [] m = [] := rfl

theorem mrEncode_cons (r w : Nat) (specs : List (Nat × Nat)) (m : Nat) :
    mrEncode ((r, w) :: specs) m = mrEncode specs (m / r) ++ beBytes w (m % r) := rfl

@[simp] theorem mrEncode_length (specs : List (Nat × Nat)) (m : Nat) :
    (mrEncode specs m).length = widthSum specs := by
  induction specs generalizing m with
  | nil => rfl
  | cons p specs ih =>
    obtain ⟨r, w⟩ := p
    simp [mrEncode_cons, ih, Nat.add_comm]

/-- A row of fields splits at a field boundary. -/
theorem mrEncode_append (s1 s2 : List (Nat × Nat)) (m : Nat) :
    mrEncode (s1 ++ s2) m = mrEncode s2 (m / radixProd s1) ++ mrEncode s1 (m % radixProd s1) := by
  induction s1 generalizing m with
  | nil => simp [mrEncode]
  | cons p s1 ih =>
    obtain ⟨r, w⟩ := p
    rw [List.cons_append, mrEncode_cons, ih, mrEncode_cons, radixProd_cons,
      Nat.div_div_eq_div_mul, Nat.mod_mul_right_div_self, Nat.mod_mul_right_mod,
      List.append_assoc]

theorem mrEncode_zero (specs : List (Nat × Nat)) :
    mrEncode specs 0 = List.replicate (widthSum specs) 0 := by
  induction specs with
  | nil => rfl
  | cons p specs ih =>
    obtain ⟨r, w⟩ := p
    apply beVal_inj (by simp)
    rw [mrEncode_cons, Nat.zero_div, Nat.zero_mod, ih, beVal_append, beVal_replicate_zero,
      beVal_beBytes, Nat.zero_mod, beVal_replicate_zero]
    simp

/-- A row of fields of one radix `b` and width `k` is the digits of `m` in base `b`, each in
    `k` bytes. -/
theorem mrEncode_replicate_eq (b k n m : Nat) :
    mrEncode (List.replicate n (b, k)) m = ((digitsOf b n m).map (beBytes k)).flatten := by
  induction n generalizing m with
  | zero => rfl
  | succ n ih => simp [List.replicate_succ, mrEncode_cons, digitsOf, ih]

/-- With one radix `b` and width `k` throughout, the row of fields is the digit string in
    base `b`, each digit in `k` bytes. -/
theorem mrEncode_replicate (b k : Nat) (ds : List Nat) (h : DigitsLt b ds) :
    mrEncode (List.replicate ds.length (b, k)) (digitsVal b ds) = (ds.map (beBytes k)).flatten := by
  rw [mrEncode_replicate_eq, digitsOf_digitsVal h]

/-- Widening the most significant field of a row adds zero bytes in front, as long as the
    value fits the narrower row. -/
theorem mrEncode_widen_top {specs : List (Nat × Nat)} {r w r' w' m : Nat}
    (hm : m < radixProd specs * r) (hr : r ≤ r') (hrw : r ≤ 256 ^ w) (hw : w ≤ w') :
    mrEncode (specs ++ [(r', w')]) m =
      List.replicate (w' - w) 0 ++ mrEncode (specs ++ [(r, w)]) m := by
  have hR : 0 < radixProd specs := Nat.pos_of_ne_zero (by rintro h; simp [h] at hm)
  have ht : m / radixProd specs < r := (Nat.div_lt_iff_lt_mul hR).mpr (by
    rwa [Nat.mul_comm])
  have htop : ∀ r'' w'', r ≤ r'' →
      mrEncode [(r'', w'')] (m / radixProd specs) = beBytes w'' (m / radixProd specs) := by
    intro r'' w'' h
    rw [mrEncode_cons, Nat.mod_eq_of_lt (Nat.lt_of_lt_of_le ht h)]
    rfl
  rw [mrEncode_append, mrEncode_append, htop r' w' hr, htop r w le_rfl,
    show w' = (w' - w) + w by omega, beBytes_add_of_lt (Nat.lt_of_lt_of_le ht hrw),
    List.append_assoc, Nat.add_sub_cancel]

/-- Reading a row of fields: the most significant fields, shifted past the last field's
    bytes, plus the last field's digit. -/
theorem beVal_mrEncode_cons {r w : Nat} (specs : List (Nat × Nat)) (m : Nat)
    (hr : 0 < r) (hrw : r ≤ 256 ^ w) :
    beVal (mrEncode ((r, w) :: specs) m) = beVal (mrEncode specs (m / r)) * 256 ^ w + m % r := by
  rw [mrEncode_cons, beVal_append, beBytes_length,
    beVal_beBytes_of_lt (Nat.lt_of_lt_of_le (Nat.mod_lt _ hr) hrw)]

/-- When every radix fits its width, the row read as one big-endian number is strictly
    monotone below the product of the radices. -/
theorem beVal_mrEncode_lt_of_lt {specs : List (Nat × Nat)} (hfit : FieldsFit specs) :
    ∀ {m1 m2 : Nat}, m1 < m2 → m2 < radixProd specs →
      beVal (mrEncode specs m1) < beVal (mrEncode specs m2) := by
  induction specs with
  | nil => intro m1 m2 h12 h2; simp at h2; omega
  | cons p specs ih =>
    obtain ⟨r, w⟩ := p
    intro m1 m2 h12 h2
    obtain ⟨⟨hr, hrw⟩, hfit'⟩ := fieldsFit_cons.mp hfit
    dsimp only at hr hrw
    rw [beVal_mrEncode_cons specs m1 hr hrw, beVal_mrEncode_cons specs m2 hr hrw]
    rw [radixProd_cons] at h2
    dsimp only at h2
    have hq2 : m2 / r < radixProd specs := (Nat.div_lt_iff_lt_mul hr).mpr (by
      simpa [Nat.mul_comm] using h2)
    have hq : m1 / r ≤ m2 / r := Nat.div_le_div_right (Nat.le_of_lt h12)
    have ha1 := Nat.mod_lt m1 hr
    have ha2 := Nat.mod_lt m2 hr
    rcases Nat.lt_or_eq_of_le hq with hlt | heq
    · -- the more significant fields already differ
      have hx := ih hfit' hlt hq2
      have hstep : (beVal (mrEncode specs (m1 / r)) + 1) * 256 ^ w
          ≤ beVal (mrEncode specs (m2 / r)) * 256 ^ w := Nat.mul_le_mul_right _ hx
      rw [Nat.succ_mul] at hstep
      omega
    · -- equal high fields: the last digits decide
      have e1 := Nat.div_add_mod m1 r
      have e2 := Nat.div_add_mod m2 r
      rw [heq]
      rw [heq] at e1
      omega

/-- Every field's radix is positive and fits its bytes with the top bit clear. -/
def FieldsHalf (specs : List (Nat × Nat)) : Prop :=
  ∀ p ∈ specs, 0 < p.1 ∧ p.1 ≤ 2 ^ (8 * p.2 - 1)

theorem fieldsHalf_cons {p : Nat × Nat} {specs : List (Nat × Nat)} :
    FieldsHalf (p :: specs) ↔ (0 < p.1 ∧ p.1 ≤ 2 ^ (8 * p.2 - 1)) ∧ FieldsHalf specs := by
  simp [FieldsHalf]

theorem half_le_pow (w : Nat) : 2 ^ (8 * w - 1) ≤ 256 ^ w := by
  rw [show (256 : Nat) = 2 ^ 8 by norm_num, ← pow_mul]
  exact Nat.pow_le_pow_right (by norm_num) (by omega)

/-- Fields below half their byte range fit their bytes. -/
theorem FieldsHalf.fieldsFit {specs : List (Nat × Nat)} (h : FieldsHalf specs) :
    FieldsFit specs :=
  fun p hp => ⟨(h p hp).1, (h p hp).2.trans (half_le_pow p.2)⟩

/-- A row whose fields keep their top bits clear reads below half its range: its first byte
    is below `0x80`. -/
theorem beVal_mrEncode_lt_half {specs : List (Nat × Nat)} (h : FieldsHalf specs) (m : Nat) :
    beVal (mrEncode specs m) < 2 ^ (8 * widthSum specs - 1) := by
  induction specs generalizing m with
  | nil => simp [mrEncode]
  | cons p specs ih =>
    obtain ⟨r, w⟩ := p
    obtain ⟨⟨hr, hrw⟩, hrest⟩ := fieldsHalf_cons.mp h
    dsimp only at hr hrw
    rw [beVal_mrEncode_cons specs m hr (Nat.le_trans hrw (half_le_pow w)), widthSum_cons]
    dsimp only
    have hmod : m % r < 2 ^ (8 * w - 1) := Nat.lt_of_lt_of_le (Nat.mod_lt _ hr) hrw
    rcases Nat.eq_zero_or_pos (widthSum specs) with h0 | hpos
    · -- nothing above the last field
      have hnil : mrEncode specs (m / r) = [] :=
        List.eq_nil_of_length_eq_zero (by rw [mrEncode_length, h0])
      rw [hnil, beVal_nil, Nat.zero_mul, Nat.zero_add, h0, Nat.add_zero]
      exact hmod
    · have hx := ih hrest (m / r)
      have hlast : m % r < 256 ^ w := Nat.lt_of_lt_of_le hmod (half_le_pow w)
      have h256 : (256 : Nat) ^ w = 2 ^ (8 * w) := by
        rw [show (256 : Nat) = 2 ^ 8 by norm_num, ← pow_mul]
      calc beVal (mrEncode specs (m / r)) * 256 ^ w + m % r
          < (beVal (mrEncode specs (m / r)) + 1) * 256 ^ w := by rw [Nat.succ_mul]; omega
        _ ≤ 2 ^ (8 * widthSum specs - 1) * 256 ^ w := Nat.mul_le_mul_right _ hx
        _ = 2 ^ (8 * (w + widthSum specs) - 1) := by
          rw [h256, ← pow_add]
          congr 1
          omega

/-! ## Digit strings as fractions

  `digitsFrac b ds` reads `ds` as the fraction `0.ds` in base `b`. Two such fractions
  compare like their digit strings compared from the left, a proper prefix being smaller
  unless the rest is zeros. -/

/-- The digit string `ds` read as the base-`b` fraction `0.ds`. -/
def digitsFrac (b : Nat) (ds : List Nat) : ℚ := (digitsVal b ds : ℚ) / (b : ℚ) ^ ds.length

@[simp] theorem digitsFrac_nil (b : Nat) : digitsFrac b [] = 0 := by simp [digitsFrac]

theorem digitsFrac_cons {b : Nat} (hb : 0 < b) (d : Nat) (ds : List Nat) :
    digitsFrac b (d :: ds) = (d + digitsFrac b ds) / b := by
  have hb' : (b : ℚ) ≠ 0 := by exact_mod_cast hb.ne'
  simp only [digitsFrac, digitsVal_cons, List.length_cons, pow_succ]
  push_cast
  field_simp

theorem digitsFrac_append {b : Nat} (hb : 0 < b) (xs ys : List Nat) :
    digitsFrac b (xs ++ ys) = (digitsVal b xs + digitsFrac b ys) / (b : ℚ) ^ xs.length := by
  have hb' : (b : ℚ) ≠ 0 := by exact_mod_cast hb.ne'
  simp only [digitsFrac, digitsVal_append, List.length_append, pow_add]
  push_cast
  field_simp

theorem digitsFrac_nonneg (b : Nat) (ds : List Nat) : 0 ≤ digitsFrac b ds := by
  unfold digitsFrac
  positivity

theorem digitsFrac_lt_one {b : Nat} {ds : List Nat} (h : DigitsLt b ds) :
    digitsFrac b ds < 1 := by
  rcases ds with _ | ⟨d, ds⟩
  · simp
  · have hb : 0 < b := Nat.lt_of_le_of_lt (Nat.zero_le d) (h d (by simp))
    have hp : (0 : ℚ) < (b : ℚ) ^ (d :: ds).length := by positivity
    have hv : ((digitsVal b (d :: ds) : Nat) : ℚ) < ((b ^ (d :: ds).length : Nat) : ℚ) := by
      exact_mod_cast digitsVal_lt h
    rw [digitsFrac, div_lt_one hp]
    simpa using hv

theorem digitsFrac_append_zero {b : Nat} (hb : 0 < b) (ds : List Nat) :
    digitsFrac b (ds ++ [0]) = digitsFrac b ds := by
  have h0 : digitsFrac b [0] = 0 := by simp [digitsFrac, digitsVal_cons]
  rw [digitsFrac_append hb, h0, add_zero, digitsFrac]

/-- A digit string ending in a non-zero digit is a positive fraction. -/
theorem digitsFrac_pos {b : Nat} (hb : 0 < b) (ds : List Nat) (d : Nat) (hd : d ≠ 0) :
    0 < digitsFrac b (ds ++ [d]) := by
  have hv : 0 < digitsVal b (ds ++ [d]) := by
    rw [digitsVal_append_singleton]; omega
  unfold digitsFrac
  have : (0 : ℚ) < digitsVal b (ds ++ [d]) := by exact_mod_cast hv
  positivity

/-- The first differing digit decides between two fractions. -/
theorem digitsFrac_lt_of_head_lt {b a c : Nat} {as : List Nat} (hb : 0 < b) (hac : a < c)
    (has : DigitsLt b as) (cs : List Nat) : digitsFrac b (a :: as) < digitsFrac b (c :: cs) := by
  rw [digitsFrac_cons hb, digitsFrac_cons hb]
  have hbq : (0 : ℚ) < b := by exact_mod_cast hb
  have h1 := digitsFrac_lt_one has
  have h2 := digitsFrac_nonneg b cs
  have hac' : (a : ℚ) + 1 ≤ c := by exact_mod_cast hac
  apply div_lt_div_of_pos_right _ hbq
  linarith

/-! ## Mixed-radix numbers -/

/-- With both low digits below the radix, `a * r + d` compares first by `a`, then by `d`. -/
theorem mul_add_lt_mul_add_iff {r a b d e : Nat} (hd : d < r) (he : e < r) :
    a * r + d < b * r + e ↔ a < b ∨ a = b ∧ d < e := by
  constructor
  · intro h
    rcases lt_trichotomy a b with hab | rfl | hab
    · exact Or.inl hab
    · exact Or.inr ⟨rfl, by omega⟩
    · have := Nat.mul_le_mul_right r (show b + 1 ≤ a by omega)
      rw [Nat.add_mul, Nat.one_mul] at this
      omega
  · rintro (hab | ⟨rfl, hde⟩)
    · have := Nat.mul_le_mul_right r (show a + 1 ≤ b by omega)
      rw [Nat.add_mul, Nat.one_mul] at this
      omega
    · omega

/-- A low digit scaled by `c` inside the radix `r` compares, and vanishes, like the digit
itself inside the radix `s`. -/
theorem mul_add_mul_lt_iff {r s c a b d e : Nat} (hc : 0 < c) (hd : c * d < r) (he : c * e < r)
    (hd' : d < s) (he' : e < s) :
    a * r + c * d < b * r + c * e ↔ a * s + d < b * s + e := by
  rw [mul_add_lt_mul_add_iff hd he, mul_add_lt_mul_add_iff hd' he', Nat.mul_lt_mul_left hc]

theorem mul_add_mul_eq_zero_iff {r s c a d : Nat} (hr : 0 < r) (hs : 0 < s) (hc : 0 < c) :
    a * r + c * d = 0 ↔ a * s + d = 0 := by
  simp only [Nat.add_eq_zero_iff, Nat.mul_eq_zero, hr.ne', hs.ne', hc.ne', or_false, false_or]

/-- Dividing the last digit off a number: the rest of its digits. -/
theorem mul_add_div_of_lt {a b c : Nat} (h : c < b) : (a * b + c) / b = a := by
  rw [Nat.add_comm, Nat.add_mul_div_right _ _ (by omega), Nat.div_eq_of_lt h, Nat.zero_add]

/-- Horner's rule over `(radix, digit)` pairs, most significant first, after digits of
value `acc`. -/
def hornerVal (acc : Nat) : List (Nat × Nat) → Nat
  | [] => acc
  | (r, d) :: ds => hornerVal (acc * r + d) ds

theorem hornerVal_append_singleton : ∀ (a : Nat) (xs : List (Nat × Nat)) (r d : Nat),
    hornerVal a (xs ++ [(r, d)]) = hornerVal a xs * r + d
  | _, [], _, _ => rfl
  | a, (r', d') :: xs, r, d => hornerVal_append_singleton (a * r' + d') xs r d

/-- Every digit is below its radix. -/
def DigitsBelow (ds : List (Nat × Nat)) : Prop := ∀ p ∈ ds, p.2 < p.1

theorem digitsBelow_cons {r d : Nat} {ds : List (Nat × Nat)} :
    DigitsBelow ((r, d) :: ds) ↔ d < r ∧ DigitsBelow ds := by
  simp [DigitsBelow]

/-- Digits in one row of radices, each below its radix, compare like their values:
lexicographically, from the leading value `acc`. -/
theorem hornerVal_lt_iff : ∀ {xs ys : List (Nat × Nat)} (a b : Nat),
    xs.map Prod.fst = ys.map Prod.fst → DigitsBelow xs → DigitsBelow ys →
    (hornerVal a xs < hornerVal b ys ↔ a :: xs.map Prod.snd < b :: ys.map Prod.snd)
  | [], [], a, b, _, _, _ => by
    rw [hornerVal, hornerVal, List.map_nil, List.cons_lt_cons_iff]
    have := List.not_lt_nil ([] : List Nat)
    tauto
  | [], _ :: _, _, _, hr, _, _ => by simp at hr
  | _ :: _, [], _, _, hr, _, _ => by simp at hr
  | (r, d) :: xs, (r', e) :: ys, a, b, hr, hx, hy => by
    simp only [List.map_cons, List.cons.injEq] at hr
    obtain ⟨rfl, hr⟩ := hr
    obtain ⟨hd, hx⟩ := digitsBelow_cons.mp hx
    obtain ⟨he, hy⟩ := digitsBelow_cons.mp hy
    have heq : a * r + d = b * r + e ↔ a = b ∧ d = e :=
      ⟨eq_of_mul_add_eq hd he, fun h => by rw [h.1, h.2]⟩
    rw [hornerVal, hornerVal, hornerVal_lt_iff (a * r + d) (b * r + e) hr hx hy,
      List.map_cons, List.map_cons, List.cons_lt_cons_iff, List.cons_lt_cons_iff,
      List.cons_lt_cons_iff, mul_add_lt_mul_add_iff hd he, heq]
    -- regroup `(a, d)` before the rest, and the rest after `a = b`
    constructor
    · rintro ((h | ⟨rfl, h⟩) | ⟨⟨rfl, rfl⟩, h⟩)
      · exact Or.inl h
      · exact Or.inr ⟨rfl, Or.inl h⟩
      · exact Or.inr ⟨rfl, Or.inr ⟨rfl, h⟩⟩
    · rintro (h | ⟨rfl, h | ⟨rfl, h⟩⟩)
      · exact Or.inl (Or.inl h)
      · exact Or.inl (Or.inr ⟨rfl, h⟩)
      · exact Or.inr ⟨⟨rfl, rfl⟩, h⟩

/-- Digits in one row of radices, each below its radix, have one value only if they agree. -/
theorem hornerVal_eq_iff {xs ys : List (Nat × Nat)} (a b : Nat)
    (hr : xs.map Prod.fst = ys.map Prod.fst) (hx : DigitsBelow xs) (hy : DigitsBelow ys) :
    hornerVal a xs = hornerVal b ys ↔ a :: xs.map Prod.snd = b :: ys.map Prod.snd := by
  have h1 := hornerVal_lt_iff a b hr hx hy
  have h2 := hornerVal_lt_iff b a hr.symm hy hx
  constructor
  · intro h
    rcases Std.lt_trichotomy (a :: xs.map Prod.snd) (b :: ys.map Prod.snd) with hl | hl | hl
    · exact absurd (h1.mpr hl) (by omega)
    · exact hl
    · exact absurd (h2.mpr hl) (by omega)
  · intro h
    rcases lt_trichotomy (hornerVal a xs) (hornerVal b ys) with hl | hl | hl
    · exact absurd (h ▸ h1.mp hl) (List.lt_irrefl _)
    · exact hl
    · exact absurd (h ▸ h2.mp hl) (List.lt_irrefl _)

end MariaDB.Lib
