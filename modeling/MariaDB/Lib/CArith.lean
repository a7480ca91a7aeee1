import Mathlib.Tactic.Ring
import Mathlib.Tactic.Linarith

/-
  C integer conversions.

  `toSigned w v` reads a `w`-bit pattern as a signed number in two's complement, as C's
  conversions to signed types and its signed loads do. `toUnsigned w x` is what C's conversion of an integer value `x` to a `w`-bit unsigned type
  gives: `x` modulo `2^w`. An expression of unsigned type that C evaluates with wrap-around
  is modelled by computing it in `Int` and converting once at the end, which gives the same
  value because reduction modulo `2^w` commutes with `+`, `-` and `*`.

  Results:
  * `toUnsigned_cast`: the conversion is reduction modulo `2^w`;
  * `toUnsigned_of_lt`, `toUnsigned_natCast`: a value that fits is unchanged;
  * `toUnsigned_mod`: a narrower conversion is the wider one reduced;
  * `toUnsigned_lt`: the result fits;
  * `toSigned`, `toSigned_of_lt`, `toSigned_toUnsigned`: a `w`-bit pattern read as a signed
    number, and the conversions between the two types inverse on the signed range;
  * `FitsSigned`: a value that a signed type holds, for stating that C arithmetic does not
    overflow;
  * `sign_signMag_sub`: numbers kept as sign and magnitude compare like their magnitudes do.
  Nothing here names one program.
-/

namespace MariaDB.Lib

/-- The integer `x` converted to a `w`-bit unsigned type. -/
def toUnsigned (w : Nat) (x : Int) : Nat := (x % 2 ^ w).toNat

theorem toUnsigned_cast (w : Nat) (x : Int) : (toUnsigned w x : Int) = x % 2 ^ w :=
  Int.toNat_of_nonneg (Int.emod_nonneg _ (by positivity))

theorem toUnsigned_of_lt {w : Nat} {x : Int} (h0 : 0 ≤ x) (h : x < 2 ^ w) :
    (toUnsigned w x : Int) = x := by
  rw [toUnsigned_cast, Int.emod_eq_of_lt h0 h]

theorem toUnsigned_natCast {w a : Nat} (h : a < 2 ^ w) : toUnsigned w a = a := by
  have h' : (a : Int) < 2 ^ w := by exact_mod_cast h
  exact_mod_cast toUnsigned_of_lt (Int.natCast_nonneg a) h'

theorem toUnsigned_of_eq_natCast {w a : Nat} {x : Int} (hx : x = a) (h : a < 2 ^ w) :
    toUnsigned w x = a := by
  rw [hx]
  exact toUnsigned_natCast h

/-- A narrower conversion is the wider one reduced. -/
theorem toUnsigned_mod {v w : Nat} (h : v ≤ w) (x : Int) :
    toUnsigned w x % 2 ^ v = toUnsigned v x := by
  have e : ((toUnsigned w x % 2 ^ v : Nat) : Int) = (toUnsigned v x : Int) := by
    push_cast
    rw [toUnsigned_cast, toUnsigned_cast, Int.emod_emod_of_dvd _ (pow_dvd_pow 2 h)]
  exact_mod_cast e

theorem toUnsigned_lt (w : Nat) (x : Int) : toUnsigned w x < 2 ^ w := by
  have h : (toUnsigned w x : Int) < 2 ^ w := by
    rw [toUnsigned_cast]
    exact Int.emod_lt_of_pos x (by positivity)
  exact_mod_cast h

/-- The `w`-bit pattern `v` (below `2^w`) read as a signed number: two's complement. -/
def toSigned (w : Nat) (v : Nat) : Int :=
  if v < 2 ^ (w - 1) then v else (v : Int) - 2 ^ w

theorem toSigned_of_lt {w v : Nat} (h : v < 2 ^ (w - 1)) : toSigned w v = v := by
  rw [toSigned, if_pos h]

/-- A value of the signed range converted to unsigned and back is unchanged. -/
theorem toSigned_toUnsigned {w : Nat} {x : Int} (hw : 0 < w) (h1 : -2 ^ (w - 1) ≤ x)
    (h2 : x < 2 ^ (w - 1)) : toSigned w (toUnsigned w x) = x := by
  have hpow : (2 : Int) ^ w = 2 * 2 ^ (w - 1) := by
    rw [← pow_succ', Nat.sub_add_cancel hw]
  have hpos : (0 : Int) < 2 ^ (w - 1) := by positivity
  rcases le_or_gt 0 x with hx | hx
  · -- a non-negative value is its own pattern
    have hu : (toUnsigned w x : Int) = x := toUnsigned_of_lt hx (by omega)
    have hlt : toUnsigned w x < 2 ^ (w - 1) := by
      have : (toUnsigned w x : Int) < 2 ^ (w - 1) := by rw [hu]; exact h2
      exact_mod_cast this
    rw [toSigned_of_lt hlt, hu]
  · -- a negative value is stored `2^w` higher
    have hu : (toUnsigned w x : Int) = x + 2 ^ w := by
      rw [toUnsigned_cast, ← Int.add_emod_right, Int.emod_eq_of_lt (by omega) (by omega)]
    have hge : ¬ toUnsigned w x < 2 ^ (w - 1) := by
      intro h
      have : (toUnsigned w x : Int) < 2 ^ (w - 1) := by exact_mod_cast h
      omega
    rw [toSigned, if_neg hge, hu]
    ring

/-- `x` is a value of the `w`-bit signed type: an operation of that type whose exact result
is `x` does not overflow. -/
def FitsSigned (w : Nat) (x : Int) : Prop := -2 ^ (w - 1) ≤ x ∧ x < 2 ^ (w - 1)

instance (w : Nat) (x : Int) : Decidable (FitsSigned w x) :=
  inferInstanceAs (Decidable (_ ∧ _))

/-- The number of sign `neg` and magnitude `x`: how C stores a value whose sign it handles
apart, as `neg ? -x : x`. -/
def signMag (neg : Bool) (x : Nat) : Int := if neg then -(x : Int) else x

theorem sign_eq_sign {a b : Int} (hneg : a < 0 ↔ b < 0) (hzero : a = 0 ↔ b = 0) :
    a.sign = b.sign := by
  rcases lt_trichotomy b 0 with hb | hb | hb
  · rw [Int.sign_eq_neg_one_of_neg (hneg.mpr hb), Int.sign_eq_neg_one_of_neg hb]
  · rw [hzero.mpr hb, hb]
  · have ha : 0 < a := by
      rcases lt_trichotomy a 0 with ha | ha | ha
      · exact absurd (hneg.mp ha) (by omega)
      · exact absurd (hzero.mp ha) (by omega)
      · exact ha
    rw [Int.sign_eq_one_of_pos ha, Int.sign_eq_one_of_pos hb]

/-- Two sign-magnitude numbers compare like two others with the same signs when their
magnitudes compare alike and vanish together. -/
theorem sign_signMag_sub {x1 x2 y1 y2 : Nat} (hlt : x1 < x2 ↔ y1 < y2) (hgt : x2 < x1 ↔ y2 < y1)
    (h1 : x1 = 0 ↔ y1 = 0) (h2 : x2 = 0 ↔ y2 = 0) (n1 n2 : Bool) :
    (signMag n1 y1 - signMag n2 y2).sign = (signMag n1 x1 - signMag n2 x2).sign := by
  apply sign_eq_sign
  · cases n1 <;> cases n2 <;> simp only [signMag, Bool.false_eq_true, if_true, if_false] <;> omega
  · cases n1 <;> cases n2 <;> simp only [signMag, Bool.false_eq_true, if_true, if_false] <;> omega

end MariaDB.Lib
