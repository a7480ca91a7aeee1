import Mathlib.Data.List.Basic
import Mathlib.Tactic.Ring

/-
  Fixed-width big-endian byte strings, and C's byte-wise comparison `memcmp`.

  `beBytes w v` is the `w`-byte big-endian image of `v` (what `mi_int4store` and its
  relatives write: the low `w` bytes, most significant first), `beVal` reads a byte string
  back most significant byte first, and `memcmp` compares unsigned bytes up to the first
  difference. Used downstream:
  * `beVal_beBytes`, `beVal_lt`, `beVal_inj`: `beBytes w` and `beVal` are inverse on
    `v < 256 ^ w`;
  * `beVal_append`, `beVal_cons`: reading a concatenation; `take_beBytes`: the first bytes
    of an image are the image of its high part;
  * `beBytes_add_of_lt`: a wider field holding a small value is zero bytes in front;
  * `beVal_map_not`: complementing every byte mirrors the value;
  * `memcmp_sign`, `memcmp_neg_iff`, `memcmp_eq_zero_iff`: on two strings of one length
    `memcmp` has the sign of the difference of their values, so a fixed-width big-endian
    field compares like a number;
  * `memcmp_append`, `memcmp_take`, `memcmp_comm`, `memcmp_self`: `memcmp` of concatenations
    is decided by the heads first, reads only its `n` bytes, and is antisymmetric;
  * `head_lt_of_beVal_lt`, `and_top_of_lt`: a string below half its range has its top bit
    clear;
  * `shiftLeft_or_of_lt`, `shiftLeft_or_shiftLeft`, `or_tag`: bytes assembled with `<<` and `|`
    as C does it are a sum of multiples of powers of two.
  Nothing here names one program.
-/

namespace MariaDB.Lib

/-- The low `w` bytes of `v`, most significant first. -/
def beBytes : Nat → Nat → List UInt8
  | 0, _ => []
  | w + 1, v => beBytes w (v / 256) ++ [UInt8.ofNat v]

/-- One step of reading big-endian: shift the value so far and add the next byte. -/
def beStep (acc : Nat) (b : UInt8) : Nat := acc * 256 + b.toNat

/-- The value of a byte string read most significant byte first. -/
def beVal (bs : List UInt8) : Nat := bs.foldl beStep 0

/-- C `memcmp` over `n` bytes: the difference of the first differing pair of unsigned
    bytes, `0` when the first `n` bytes agree. -/
def memcmp : List UInt8 → List UInt8 → Nat → Int
  | a :: as, b :: bs, n + 1 => if a = b then memcmp as bs n else (a.toNat : Int) - b.toNat
  | _, _, _ => 0

/-! ## Writing -/

@[simp] theorem beBytes_zero (v : Nat) : beBytes 0 v = [] := rfl

theorem beBytes_succ (w v : Nat) :
    beBytes (w + 1) v = beBytes w (v / 256) ++ [UInt8.ofNat v] := rfl

@[simp] theorem beBytes_length (w v : Nat) : (beBytes w v).length = w := by
  induction w generalizing v with
  | zero => rfl
  | succ w ih => simp [beBytes_succ, ih]

/-! ## Reading -/

theorem foldl_beStep (ys : List UInt8) (acc : Nat) :
    ys.foldl beStep acc = acc * 256 ^ ys.length + beVal ys := by
  induction ys generalizing acc with
  | nil => simp [beVal]
  | cons y ys ih =>
    simp only [List.foldl_cons, beVal, List.length_cons]
    rw [ih, ih (beStep 0 y)]
    simp only [beStep, Nat.pow_succ]
    ring

@[simp] theorem beVal_nil : beVal [] = 0 := rfl

theorem beVal_cons (b : UInt8) (bs : List UInt8) :
    beVal (b :: bs) = b.toNat * 256 ^ bs.length + beVal bs := by
  rw [beVal, List.foldl_cons, foldl_beStep]
  simp [beStep]

theorem beVal_append (xs ys : List UInt8) :
    beVal (xs ++ ys) = beVal xs * 256 ^ ys.length + beVal ys := by
  rw [beVal, List.foldl_append, foldl_beStep]
  rfl

@[simp] theorem beVal_singleton (b : UInt8) : beVal [b] = b.toNat := by
  simp [beVal_cons]

theorem beVal_lt (bs : List UInt8) : beVal bs < 256 ^ bs.length := by
  induction bs with
  | nil => simp
  | cons b bs ih =>
    rw [beVal_cons, List.length_cons, Nat.pow_succ]
    have hb : b.toNat ≤ 255 := by have := b.toNat_lt; omega
    calc b.toNat * 256 ^ bs.length + beVal bs
        < b.toNat * 256 ^ bs.length + 256 ^ bs.length := by omega
      _ = (b.toNat + 1) * 256 ^ bs.length := by ring
      _ ≤ 256 * 256 ^ bs.length := Nat.mul_le_mul_right _ (by omega)
      _ = 256 ^ bs.length * 256 := Nat.mul_comm _ _

theorem beVal_beBytes (w v : Nat) : beVal (beBytes w v) = v % 256 ^ w := by
  induction w generalizing v with
  | zero => simp [Nat.mod_one]
  | succ w ih =>
    have hb : (UInt8.ofNat v).toNat = v % 256 := by simp
    rw [beBytes_succ, beVal_append, ih, beVal_singleton, hb, Nat.pow_succ,
      Nat.mul_comm (256 ^ w) 256, Nat.mod_mul]
    simp only [List.length_singleton, Nat.pow_one]
    ring

theorem beVal_beBytes_of_lt {w v : Nat} (h : v < 256 ^ w) : beVal (beBytes w v) = v := by
  rw [beVal_beBytes, Nat.mod_eq_of_lt h]

/-- The first `j` bytes of a `w`-byte image are the `j`-byte image of its high part. -/
theorem take_beBytes {j w : Nat} (h : j ≤ w) (v : Nat) :
    (beBytes w v).take j = beBytes j (v / 256 ^ (w - j)) := by
  induction w generalizing v with
  | zero =>
    obtain rfl : j = 0 := by omega
    rfl
  | succ w ih =>
    rcases Nat.eq_or_lt_of_le h with rfl | h
    · rw [Nat.sub_self, Nat.pow_zero, Nat.div_one, List.take_of_length_le (by simp)]
    · rw [beBytes_succ, List.take_append_of_le_length (by simp; omega), ih (by omega),
        Nat.div_div_eq_div_mul, ← Nat.pow_succ', show w + 1 - j = w - j + 1 by omega]

/-- The quotient and remainder of `x * P + a` by `P` recover `x` and `a`. -/
theorem eq_of_mul_add_eq {P a b x y : Nat} (ha : a < P) (hb : b < P)
    (h : x * P + a = y * P + b) : x = y ∧ a = b := by
  have hP : 0 < P := by omega
  have h1 := (Nat.div_mod_unique hP).mpr ⟨show a + P * x = x * P + a by ring, ha⟩
  have h2 := (Nat.div_mod_unique hP).mpr ⟨show b + P * y = x * P + a by rw [h]; ring, hb⟩
  exact ⟨h1.1.symm.trans h2.1, h1.2.symm.trans h2.2⟩

/-- Two byte strings of one length with one value are equal. -/
theorem beVal_inj {xs ys : List UInt8} (hl : xs.length = ys.length)
    (hv : beVal xs = beVal ys) : xs = ys := by
  induction xs generalizing ys with
  | nil => cases ys with
    | nil => rfl
    | cons _ _ => simp at hl
  | cons x xs ih => cases ys with
    | nil => simp at hl
    | cons y ys =>
      simp only [List.length_cons, Nat.add_right_cancel_iff] at hl
      rw [beVal_cons, beVal_cons, hl] at hv
      have hx := beVal_lt xs
      rw [hl] at hx
      obtain ⟨hq, hr⟩ := eq_of_mul_add_eq hx (beVal_lt ys) hv
      rw [UInt8.toNat_inj.mp hq, ih hl hr]

theorem beBytes_beVal (bs : List UInt8) : beBytes bs.length (beVal bs) = bs :=
  beVal_inj (by simp) (by rw [beVal_beBytes, Nat.mod_eq_of_lt (beVal_lt bs)])

theorem beVal_replicate_zero (k : Nat) : beVal (List.replicate k 0) = 0 := by
  induction k with
  | zero => rfl
  | succ k ih => simp [List.replicate_succ, beVal_cons, ih]

/-- A `k + w`-byte field holding a value below `256 ^ w` is `k` zero bytes in front of the
    `w`-byte field. -/
theorem beBytes_add_of_lt {k w v : Nat} (h : v < 256 ^ w) :
    beBytes (k + w) v = List.replicate k 0 ++ beBytes w v := by
  apply beVal_inj (by simp)
  have hkw : v < 256 ^ (k + w) :=
    Nat.lt_of_lt_of_le h (Nat.pow_le_pow_right (by omega) (by omega))
  rw [beVal_beBytes_of_lt hkw, beVal_append, beVal_replicate_zero, beVal_beBytes_of_lt h]
  simp

theorem beBytes_zero_value (w : Nat) : beBytes w 0 = List.replicate w 0 := by
  have h := beBytes_add_of_lt (k := w) (w := 0) (v := 0) (by norm_num)
  rwa [Nat.add_zero, beBytes_zero, List.append_nil] at h

/-- Complementing every byte mirrors the value inside `[0, 256 ^ n)`. -/
theorem beVal_map_not (bs : List UInt8) :
    beVal (bs.map (~~~·)) = 256 ^ bs.length - 1 - beVal bs := by
  induction bs with
  | nil => simp
  | cons b bs ih =>
    have hb := b.toNat_lt
    have hlt := beVal_lt bs
    rw [List.map_cons, beVal_cons, beVal_cons, ih, List.length_map, UInt8.toNat_not,
      List.length_cons, Nat.pow_succ]
    have hp : 0 < 256 ^ bs.length := Nat.pos_of_ne_zero (by simp)
    simp only [UInt8.size]
    have e : (256 - 1 - b.toNat) * 256 ^ bs.length
        = 255 * 256 ^ bs.length - b.toNat * 256 ^ bs.length := by
      rw [show 256 - 1 - b.toNat = 255 - b.toNat by omega, Nat.sub_mul]
    have hmul : b.toNat * 256 ^ bs.length ≤ 255 * 256 ^ bs.length :=
      Nat.mul_le_mul_right _ (by omega)
    rw [e]
    have : 256 ^ bs.length * 256 = 255 * 256 ^ bs.length + 256 ^ bs.length := by ring
    omega

/-! ## `memcmp` -/

/-- On two strings of length `n`, `memcmp` has the sign of the difference of their values. -/
theorem memcmp_sign : ∀ (n : Nat) (xs ys : List UInt8), xs.length = n → ys.length = n →
    (memcmp xs ys n).sign = ((beVal xs : Int) - beVal ys).sign
  | 0, [], [], _, _ => by simp [memcmp]
  | n + 1, x :: xs, y :: ys, hx, hy => by
    simp only [List.length_cons, Nat.add_right_cancel_iff] at hx hy
    rw [beVal_cons, beVal_cons, hx, hy]
    have hxl := beVal_lt xs
    have hyl := beVal_lt ys
    rw [hx] at hxl
    rw [hy] at hyl
    simp only [memcmp]
    by_cases hxy : x = y
    · rw [if_pos hxy, memcmp_sign n xs ys hx hy, hxy]
      congr 1
      push_cast
      ring
    · rw [if_neg hxy]
      have hne : x.toNat ≠ y.toNat := fun h => hxy (UInt8.toNat_inj.mp h)
      rcases Nat.lt_or_gt_of_ne hne with hlt | hgt
      · have h1 : x.toNat * 256 ^ n + beVal xs < y.toNat * 256 ^ n + beVal ys := by
          have := Nat.mul_le_mul_right (256 ^ n) (Nat.succ_le_of_lt hlt)
          rw [Nat.succ_mul] at this
          omega
        rw [Int.sign_eq_neg_one_of_neg (by omega), Int.sign_eq_neg_one_of_neg (by omega)]
      · have h1 : y.toNat * 256 ^ n + beVal ys < x.toNat * 256 ^ n + beVal xs := by
          have := Nat.mul_le_mul_right (256 ^ n) (Nat.succ_le_of_lt hgt)
          rw [Nat.succ_mul] at this
          omega
        rw [Int.sign_eq_one_of_pos (by omega), Int.sign_eq_one_of_pos (by omega)]

/-- Swapping the operands negates `memcmp`. -/
theorem memcmp_comm : ∀ (xs ys : List UInt8) (n : Nat), memcmp ys xs n = -memcmp xs ys n
  | x :: xs, y :: ys, n + 1 => by
    simp only [memcmp]
    by_cases hxy : x = y
    · rw [if_pos hxy.symm, if_pos hxy, memcmp_comm xs ys n]
    · rw [if_neg (Ne.symm hxy), if_neg hxy]
      omega
  | [], _, _ | _ :: _, [], _ | _ :: _, _ :: _, 0 => by simp [memcmp]

theorem memcmp_self : ∀ (xs : List UInt8) (n : Nat), memcmp xs xs n = 0
  | x :: xs, n + 1 => by simp only [memcmp, if_true, memcmp_self xs n]
  | [], _ | _ :: _, 0 => by simp [memcmp]

/-- `memcmp` reads only its first `n` bytes. -/
theorem memcmp_take : ∀ (xs ys : List UInt8) (n : Nat), memcmp (xs.take n) (ys.take n) n = memcmp xs ys n
  | x :: xs, y :: ys, n + 1 => by
    simp only [List.take_succ_cons, memcmp, memcmp_take xs ys n]
  | [], _, _ | _ :: _, [], _ | _ :: _, _ :: _, 0 => by simp [memcmp]

/-- `memcmp` over two concatenations of equal-length heads: the heads decide unless they
agree. -/
theorem memcmp_append : ∀ {xs ys : List UInt8} {n : Nat}, xs.length = n → ys.length = n →
    ∀ (xs' ys' : List UInt8) (m : Nat),
      memcmp (xs ++ xs') (ys ++ ys') (n + m) =
        if memcmp xs ys n = 0 then memcmp xs' ys' m else memcmp xs ys n
  | [], [], 0, _, _, xs', ys', m => by simp [memcmp]
  | x :: xs, y :: ys, n + 1, hx, hy, xs', ys', m => by
    simp only [List.length_cons, Nat.add_right_cancel_iff] at hx hy
    rw [show n + 1 + m = n + m + 1 by omega]
    simp only [List.cons_append, memcmp]
    by_cases hxy : x = y
    · simp only [if_pos hxy]
      exact memcmp_append hx hy xs' ys' m
    · have hne : (x.toNat : Int) - y.toNat ≠ 0 := by
        have : x.toNat ≠ y.toNat := fun h => hxy (UInt8.toNat_inj.mp h)
        omega
      simp only [if_neg hxy, if_neg hne]

theorem memcmp_neg_iff {n : Nat} {xs ys : List UInt8} (hx : xs.length = n) (hy : ys.length = n) :
    memcmp xs ys n < 0 ↔ beVal xs < beVal ys := by
  rw [← Int.sign_eq_neg_one_iff_neg, memcmp_sign n xs ys hx hy, Int.sign_eq_neg_one_iff_neg]
  omega

theorem memcmp_eq_zero_iff {n : Nat} {xs ys : List UInt8} (hx : xs.length = n) (hy : ys.length = n) :
    memcmp xs ys n = 0 ↔ beVal xs = beVal ys := by
  rw [← Int.sign_eq_zero_iff_zero, memcmp_sign n xs ys hx hy, Int.sign_eq_zero_iff_zero]
  omega

/-! ## The top bit -/

theorem xor_top_of_lt : ∀ n, n < 128 → n ^^^ 128 = n + 128 := by decide

theorem xor_top_add : ∀ m, m < 128 → (m + 128) ^^^ 128 = m := by decide

theorem xor_top_of_ge {n : Nat} (h1 : n < 256) (h2 : 128 ≤ n) : n ^^^ 128 = n - 128 := by
  have := xor_top_add (n - 128) (by omega)
  rwa [Nat.sub_add_cancel h2] at this

theorem and_top_of_lt : ∀ n, n < 128 → n &&& 128 = 0 := by decide

theorem and_top_add : ∀ m, m < 128 → (m + 128) &&& 128 = 128 := by decide

theorem and_top_of_ge {n : Nat} (h1 : n < 256) (h2 : 128 ≤ n) : n &&& 128 = 128 := by
  have := and_top_add (n - 128) (by omega)
  rwa [Nat.sub_add_cancel h2] at this

/-- A byte string below half its range starts with a byte below `0x80`. -/
theorem head_lt_of_beVal_lt {b : UInt8} {bs : List UInt8}
    (h : beVal (b :: bs) < 2 ^ (8 * (b :: bs).length - 1)) : b.toNat < 128 := by
  rw [beVal_cons, List.length_cons, show 8 * (bs.length + 1) - 1 = 7 + 8 * bs.length by omega,
    pow_add, pow_mul] at h
  norm_num at h
  by_contra hge
  have : 128 * 256 ^ bs.length ≤ b.toNat * 256 ^ bs.length :=
    Nat.mul_le_mul_right _ (by omega)
  omega

/-! ## Assembling with shifts -/

/-- `a << k | b` with `b` below `2^k` is a sum. -/
theorem shiftLeft_or_of_lt {a b k : Nat} (hb : b < 2 ^ k) : a <<< k ||| b = a * 2 ^ k + b := by
  rw [Nat.shiftLeft_eq, Nat.mul_comm, Nat.two_pow_add_eq_or_of_lt hb]

/-- A tag above the low `j` bits, or-ed in, is added. -/
theorem or_tag {n j T : Nat} (t : Nat) (hT : T = 2 ^ j * t) (h : n < 2 ^ j) : n ||| T = T + n := by
  rw [hT, Nat.or_comm, Nat.two_pow_add_eq_or_of_lt h]

/-- Two shifted fields that do not overlap are one shifted field. -/
theorem shiftLeft_or_shiftLeft {a b m k n : Nat} (hn : n = m + k) (hb : b < 2 ^ m) :
    a <<< n ||| b <<< k = (a * 2 ^ m + b) <<< k := by
  rw [← shiftLeft_or_of_lt hb, Nat.shiftLeft_or_distrib, hn, Nat.shiftLeft_add]

end MariaDB.Lib
