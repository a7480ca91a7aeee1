import Mathlib

/-
  Numbers as strings of bytes, and the parallel bit count.

  `bitCount m x` is the number of set bits among the low `m` bits of `x`. A function `f v k`
  of a number `v` read as `k` bytes is bytewise (`IsBytewise`) when its value on `k + 1`
  bytes is its value on the low byte plus 256 times its value on the bytes above: it acts on
  each byte alone, so what holds of it on one byte, a fact about 256 values that the kernel
  decides, holds of every byte. The closure lemmas build such functions from sums,
  differences without borrow, `&`, and shifts followed by a mask `rep m k` that keeps each
  byte's bits inside it.

  The parallel bit count ("counting bits set, in parallel") is three bytewise stages:
  `countPairs` leaves in every 2-bit field the number of its set bits, `countNibbles` does
  the same for 4-bit fields and `countBytes` for bytes.

  Proved:
  * `bitCount_add`, `bitCount_byte`: the count splits at any bit, and at a byte;
  * `IsBytewise.add`, `.sub`, `.land`, `.shiftRight_land_rep`: the closure lemmas;
    `IsBytewise.lt`, `IsBytewise.le_rep`: a bound on one byte bounds every byte;
  * `isBytewise_countBytes`, `countBytes_byte`: the last stage acts on each byte alone and
    leaves in it the byte's bit count.
  Nothing here names one program.
-/

namespace MariaDB.Lib

/-- The number of set bits among the low `m` bits of `x`. -/
def bitCount (m x : Nat) : Nat := (List.range m).countP x.testBit

theorem bitCount_add (a b x : Nat) :
    bitCount (a + b) x = bitCount a x + bitCount b (x >>> a) := by
  simp only [bitCount, List.range_add, List.countP_append, List.countP_map]
  congr 1
  apply List.countP_congr
  intro j _
  simp [Nat.testBit_shiftRight]

theorem bitCount_mod_two_pow (m x : Nat) : bitCount m (x % 2 ^ m) = bitCount m x := by
  apply List.countP_congr
  intro j hj
  rw [List.mem_range] at hj
  simp [Nat.testBit_mod_two_pow, hj]

/-- The count over `k + 1` bytes is that of the low byte plus that of the `k` bytes above. -/
theorem bitCount_byte (k x : Nat) :
    bitCount (8 * (k + 1)) x = bitCount 8 (x % 256) + bitCount (8 * k) (x / 256) := by
  rw [show 8 * (k + 1) = 8 + 8 * k by ring, bitCount_add, Nat.shiftRight_eq_div_pow,
    ← bitCount_mod_two_pow 8 x]
  rfl

/-- The `k`-byte number whose bytes are all `b`. -/
def rep (b : Nat) : Nat → Nat
  | 0 => 0
  | k + 1 => b + 256 * rep b k

@[simp] theorem rep_zero (b : Nat) : rep b 0 = 0 := rfl

@[simp] theorem rep_succ (b k : Nat) : rep b (k + 1) = b + 256 * rep b k := rfl

theorem rep_shiftLeft (b k s : Nat) : rep b k <<< s = rep (b <<< s) k := by
  simp only [Nat.shiftLeft_eq]
  induction k with
  | zero => simp
  | succ k ih => rw [rep_succ, rep_succ, Nat.add_mul, Nat.mul_assoc, ih]

/-- `&` acts on the low bytes and on the bytes above apart. -/
theorem land_byte_split {lo hi lo' hi' : Nat} (hlo : lo < 256) (hlo' : lo' < 256) :
    (lo + 256 * hi) &&& (lo' + 256 * hi') = (lo &&& lo') + 256 * (hi &&& hi') := by
  have hx := Nat.mod_add_div ((lo + 256 * hi) &&& (lo' + 256 * hi')) (2 ^ 8)
  rw [Nat.and_mod_two_pow, Nat.and_div_two_pow] at hx
  rw [← hx]
  have e1 : (lo + 256 * hi) % 2 ^ 8 = lo := by omega
  have e2 : (lo' + 256 * hi') % 2 ^ 8 = lo' := by omega
  have e3 : (lo + 256 * hi) / 2 ^ 8 = hi := by omega
  have e4 : (lo' + 256 * hi') / 2 ^ 8 = hi' := by omega
  rw [e1, e2, e3, e4]
  rfl

theorem shiftLeft_land_shiftRight (x m s : Nat) : (x >>> s &&& m) <<< s = x &&& m <<< s := by
  apply Nat.eq_of_testBit_eq
  intro j
  by_cases h : s ≤ j
  · simp [Nat.testBit_shiftLeft, Nat.testBit_and, Nat.testBit_shiftRight, h,
      Nat.add_sub_cancel' h]
  · simp [Nat.testBit_shiftLeft, Nat.testBit_and, h]

/-! ## Bytewise functions -/

/-- `f v k`, a function of `v` read as `k` bytes, acts on each byte alone. -/
def IsBytewise (f : Nat → Nat → Nat) : Prop :=
  ∀ v k, f v (k + 1) = f (v % 256) 1 + 256 * f (v / 256) k

section Bytewise

variable {f g : Nat → Nat → Nat} {m s : Nat}

theorem isBytewise_id : IsBytewise fun v _ => v := fun v _ => (Nat.mod_add_div v 256).symm

theorem isBytewise_rep (b : Nat) : IsBytewise fun _ k => rep b k := fun _ k => by simp

theorem IsBytewise.add (hf : IsBytewise f) (hg : IsBytewise g) :
    IsBytewise fun v k => f v k + g v k := by
  intro v k
  have h1 := hf v k
  have h2 := hg v k
  dsimp only
  omega

/-- A difference is bytewise when no byte borrows from the next. -/
theorem IsBytewise.sub (hf : IsBytewise f) (hg : IsBytewise g) (hle : ∀ v k, g v k ≤ f v k) :
    IsBytewise fun v k => f v k - g v k := by
  intro v k
  have h1 := hf v k
  have h2 := hg v k
  have h3 := hle (v % 256) 1
  have h4 := hle (v / 256) k
  dsimp only
  omega

theorem IsBytewise.land (hf : IsBytewise f) (hg : IsBytewise g)
    (hf1 : ∀ v < 256, f v 1 < 256) (hg1 : ∀ v < 256, g v 1 < 256) :
    IsBytewise fun v k => f v k &&& g v k := by
  intro v k
  have hv : v % 256 < 256 := Nat.mod_lt _ (by decide)
  dsimp only
  rw [hf v k, hg v k, land_byte_split (hf1 _ hv) (hg1 _ hv)]

theorem IsBytewise.of_shiftLeft (h : IsBytewise fun v k => f v k <<< s) : IsBytewise f := by
  intro v k
  apply Nat.eq_of_mul_eq_mul_right (Nat.two_pow_pos s)
  simpa only [Nat.shiftLeft_eq, Nat.add_mul, Nat.mul_assoc] using h v k

/-- A shift followed by a mask that keeps every byte's bits inside it is bytewise. -/
theorem IsBytewise.shiftRight_land_rep (hf : IsBytewise f) (hf1 : ∀ v < 256, f v 1 < 256)
    (hms : m <<< s < 256) : IsBytewise fun v k => f v k >>> s &&& rep m k := by
  apply IsBytewise.of_shiftLeft (s := s)
  have h := hf.land (isBytewise_rep (m <<< s)) hf1 (fun _ _ => by simpa using hms)
  simpa only [shiftLeft_land_shiftRight, rep_shiftLeft] using h

/-- Below 256 on one byte, below `256 ^ k` on `k` bytes. -/
theorem IsBytewise.lt (hf : IsBytewise f) (h0 : ∀ v, f v 0 = 0)
    (h1 : ∀ v < 256, f v 1 < 256) (v k : Nat) : f v k < 256 ^ k := by
  induction k generalizing v with
  | zero => simp [h0]
  | succ k ih =>
    have hlo := h1 (v % 256) (Nat.mod_lt _ (by decide))
    have hhi := ih (v / 256)
    rw [hf v k, Nat.pow_succ]
    omega

/-- At most `b` on one byte, at most `b` on every byte. -/
theorem IsBytewise.le_rep (hf : IsBytewise f) (h0 : ∀ v, f v 0 = 0) {b : Nat}
    (h1 : ∀ v < 256, f v 1 ≤ b) (v k : Nat) : f v k ≤ rep b k := by
  induction k generalizing v with
  | zero => simp [h0]
  | succ k ih =>
    have hlo := h1 (v % 256) (Nat.mod_lt _ (by decide))
    have hhi := ih (v / 256)
    rw [hf v k, rep_succ]
    omega

end Bytewise

/-! ## The parallel bit count -/

/-- Every 2-bit field replaced by the number of its set bits: `v - ((v >> 1) & 0x55..)`. -/
def countPairs (v k : Nat) : Nat := v - (v >>> 1 &&& rep 0x55 k)

/-- Every 4-bit field replaced by the sum of its two 2-bit counts. -/
def countNibbles (v k : Nat) : Nat :=
  (countPairs v k &&& rep 0x33 k) + (countPairs v k >>> 2 &&& rep 0x33 k)

/-- Every byte replaced by the sum of its two 4-bit counts. -/
def countBytes (v k : Nat) : Nat := (countNibbles v k + countNibbles v k >>> 4) &&& rep 0x0F k

@[simp] theorem countPairs_zero (v : Nat) : countPairs v 0 = v := by simp [countPairs]

@[simp] theorem countNibbles_zero (v : Nat) : countNibbles v 0 = 0 := by simp [countNibbles]

@[simp] theorem countBytes_zero (v : Nat) : countBytes v 0 = 0 := by simp [countBytes]

set_option maxRecDepth 8192 in
/-- The stages on one byte: no field overflows, and the last holds the byte's bit count. -/
theorem count_byte_pipeline : ∀ v : Fin 256,
    countPairs v 1 < 256 ∧ countNibbles v 1 ≤ 68 ∧ countNibbles v 1 % 16 ≤ 4 ∧
      countBytes v 1 = bitCount 8 v := by
  decide +kernel

theorem count_byte {v : Nat} (hv : v < 256) :
    countPairs v 1 < 256 ∧ countNibbles v 1 ≤ 68 ∧ countNibbles v 1 % 16 ≤ 4 ∧
      countBytes v 1 = bitCount 8 v :=
  count_byte_pipeline ⟨v, hv⟩

theorem isBytewise_countPairs : IsBytewise countPairs :=
  isBytewise_id.sub (isBytewise_id.shiftRight_land_rep (fun _ h => h) (by decide))
    fun _ _ => Nat.le_trans Nat.and_le_left (Nat.shiftRight_le _ _)

theorem isBytewise_countNibbles : IsBytewise countNibbles := by
  have h1 : ∀ v < 256, countPairs v 1 < 256 := fun _ hv => (count_byte hv).1
  exact (isBytewise_countPairs.land (isBytewise_rep _) h1 fun _ _ => by decide).add
    (isBytewise_countPairs.shiftRight_land_rep h1 (by decide))

theorem countNibbles_mod_16 (v k : Nat) : countNibbles v k % 16 ≤ 4 := by
  cases k with
  | zero => simp
  | succ k =>
    have h := (count_byte (Nat.mod_lt v (by decide : 0 < 256))).2.2.1
    rw [isBytewise_countNibbles v k]
    omega

/-- Adding the upper nibble and masking stays inside each byte: a byte of `countNibbles` is
    at most 68, so nothing carries, and its low nibble is at most 4, so the nibble shifted
    in from the byte above is cut off by the mask. -/
theorem isBytewise_countBytes : IsBytewise countBytes := by
  intro v k
  have hlo := (count_byte (Nat.mod_lt v (by decide : 0 < 256))).2.1
  have hhi := countNibbles_mod_16 (v / 256) k
  simp only [countBytes, rep_succ, rep_zero, Nat.mul_zero, Nat.add_zero]
  rw [isBytewise_countNibbles v k]
  generalize countNibbles (v % 256) 1 = lo at hlo ⊢
  generalize countNibbles (v / 256) k = hi at hhi ⊢
  simp only [Nat.shiftRight_eq_div_pow]
  have e1 : lo + 256 * hi + (lo + 256 * hi) / 2 ^ 4 =
      (lo + lo / 2 ^ 4 + 16 * (hi % 16)) + 256 * (hi + hi / 2 ^ 4) := by omega
  have e2 : (lo + lo / 2 ^ 4 + 16 * (hi % 16)) &&& 0x0F = (lo + lo / 2 ^ 4) &&& 0x0F := by
    rw [show (0x0F : Nat) = 2 ^ 4 - 1 from rfl, Nat.and_two_pow_sub_one_eq_mod,
      Nat.and_two_pow_sub_one_eq_mod]
    omega
  rw [e1, land_byte_split (by omega) (by decide), e2]

/-- Every byte of `countBytes v k` is the bit count of that byte of `v`. -/
theorem countBytes_byte (v k : Nat) :
    countBytes v (k + 1) = bitCount 8 (v % 256) + 256 * countBytes (v / 256) k := by
  rw [isBytewise_countBytes v k, (count_byte (Nat.mod_lt v (by decide : 0 < 256))).2.2.2]

end MariaDB.Lib
