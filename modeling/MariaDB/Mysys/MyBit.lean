import MariaDB.Lib.Bytewise
import MariaDB.Lib.WordBits
import Mathlib

/-
  The bit functions of include/my_bit.h that the bitmap scans call.

  Model. `my_count_bits_uint32` is the parallel bit count on a `uint32`, in `UInt32`
  arithmetic as C does it, and `my_count_bits` adds the counts of the two halves of a
  `ulonglong`. `my_find_first_bit` returns `__builtin_ctzll(n)`, the number of the lowest set
  bit, and 64 for zero.

  Proved:
  * `myCountBitsUint32_toNat`: no stage of `my_count_bits_uint32` overflows its `uint32`, and
    it returns the number of set bits of its argument; `myCountBits_eq`: so does
    `my_count_bits` on 64 bits. The stages are the library's `countPairs`, `countNibbles` and
    `countBytes` on four bytes; `countBytes_mul_rep_four` is the last multiplication, which
    adds the four byte counts into the top byte;
  * `myFindFirstBit_spec`: for a nonzero word, `my_find_first_bit` is a set bit below 64 with
    none set below it.
-/

namespace MariaDB.Mysys

open MariaDB.Lib

/-- `my_count_bits_uint32`. -/
def myCountBitsUint32 (v : UInt32) : UInt32 :=
  let v := v - ((v >>> 1) &&& (0x55555555 : UInt32))
  let v := (v &&& (0x33333333 : UInt32)) + ((v >>> 2) &&& (0x33333333 : UInt32))
  (((v + (v >>> 4)) &&& (0xF0F0F0F : UInt32)) * 0x1010101) >>> 24

/-- `my_count_bits`: the counts of the low and the high 32 bits. -/
def myCountBits (x : UInt64) : Nat :=
  (myCountBitsUint32 x.toUInt32).toNat + (myCountBitsUint32 (x >>> 32).toUInt32).toNat

/-- `my_find_first_bit`: `__builtin_ctzll(n)`, the number of the lowest set bit; 64 when no
    bit is set. -/
def myFindFirstBit (n : UInt64) : Nat :=
  if n = 0 then 64 else ((List.range 64).find? (wordBit n)).getD 64

/-! ## `my_count_bits` -/

theorem bitCount_le (m x : Nat) : bitCount m x ≤ m := by
  have h := List.countP_le_length (p := x.testBit) (l := List.range m)
  rwa [List.length_range] at h

/-- The multiplication by `0x1010101` adds the four byte counts of `countBytes V 4` into the
    top byte: the running sums stay below 256, so no byte carries. -/
theorem countBytes_mul_rep_four (V : Nat) :
    countBytes V 4 * 0x1010101 % 2 ^ 32 / 2 ^ 24 = bitCount 32 V := by
  have hc : countBytes V 4 = bitCount 8 (V % 256) + 256 * (bitCount 8 (V / 256 % 256) +
      256 * (bitCount 8 (V / 256 / 256 % 256) + 256 * bitCount 8 (V / 256 / 256 / 256 % 256))) := by
    rw [countBytes_byte V 3, countBytes_byte _ 2, countBytes_byte _ 1, countBytes_byte _ 0,
      countBytes_zero, Nat.mul_zero, Nat.add_zero]
  have hb : bitCount 32 V = bitCount 8 (V % 256) + bitCount 8 (V / 256 % 256) +
      bitCount 8 (V / 256 / 256 % 256) + bitCount 8 (V / 256 / 256 / 256 % 256) := by
    rw [show (32 : Nat) = 8 * (3 + 1) from rfl, bitCount_byte, bitCount_byte, bitCount_byte,
      bitCount_byte]
    simp [bitCount]
    omega
  have h0 := bitCount_le 8 (V % 256)
  have h1 := bitCount_le 8 (V / 256 % 256)
  have h2 := bitCount_le 8 (V / 256 / 256 % 256)
  have h3 := bitCount_le 8 (V / 256 / 256 / 256 % 256)
  rw [hc, hb]
  generalize bitCount 8 (V % 256) = c0 at h0 ⊢
  generalize bitCount 8 (V / 256 % 256) = c1 at h1 ⊢
  generalize bitCount 8 (V / 256 / 256 % 256) = c2 at h2 ⊢
  generalize bitCount 8 (V / 256 / 256 / 256 % 256) = c3 at h3 ⊢
  have hsplit : (c0 + 256 * (c1 + 256 * (c2 + 256 * c3))) * 0x1010101 =
      (c0 + 256 * (c0 + c1) + 65536 * (c0 + c1 + c2) + 16777216 * (c0 + c1 + c2 + c3)) +
        2 ^ 32 * (c1 + c2 + c3 + 256 * (c2 + c3) + 65536 * c3) := by ring
  rw [hsplit, Nat.add_mul_mod_self_left, Nat.mod_eq_of_lt (by omega)]
  omega

/-- `my_count_bits_uint32` counts the set bits of its argument; each `uint32` stage holds the
    library stage on four bytes, with no overflow. -/
theorem myCountBitsUint32_toNat (v : UInt32) :
    (myCountBitsUint32 v).toNat = bitCount 32 v.toNat := by
  have hm1 : (0x55555555 : UInt32).toNat = rep 0x55 4 := by decide
  have hm2 : (0x33333333 : UInt32).toNat = rep 0x33 4 := by decide
  have hm4 : (0xF0F0F0F : UInt32).toNat = rep 0x0F 4 := by decide
  have hle : (v >>> 1) &&& (0x55555555 : UInt32) ≤ v := by
    rw [UInt32.le_iff_toNat_le, UInt32.toNat_and, UInt32.toNat_shiftRight]
    exact Nat.le_trans Nat.and_le_left (Nat.shiftRight_le _ _)
  have hA : (v - ((v >>> 1) &&& (0x55555555 : UInt32))).toNat = countPairs v.toNat 4 := by
    rw [UInt32.toNat_sub_of_le _ _ hle, UInt32.toNat_and, UInt32.toNat_shiftRight, hm1]
    rfl
  simp only [myCountBitsUint32]
  generalize v - ((v >>> 1) &&& (0x55555555 : UInt32)) = a at hA ⊢
  have hNlt : countNibbles v.toNat 4 < 2 ^ 32 :=
    isBytewise_countNibbles.lt countNibbles_zero
      (fun _ hw => Nat.lt_of_le_of_lt (count_byte hw).2.1 (by decide)) _ 4
  have hB : ((a &&& (0x33333333 : UInt32)) + ((a >>> 2) &&& (0x33333333 : UInt32))).toNat =
      countNibbles v.toNat 4 := by
    rw [UInt32.toNat_add, UInt32.toNat_and, UInt32.toNat_and, UInt32.toNat_shiftRight, hA, hm2]
    exact Nat.mod_eq_of_lt hNlt
  generalize (a &&& (0x33333333 : UInt32)) + ((a >>> 2) &&& (0x33333333 : UInt32)) = b at hB ⊢
  have hNle : countNibbles v.toNat 4 ≤ rep 68 4 :=
    isBytewise_countNibbles.le_rep countNibbles_zero (fun _ hw => (count_byte hw).2.1) _ 4
  have hC : ((b + (b >>> 4)) &&& (0xF0F0F0F : UInt32)).toNat = countBytes v.toNat 4 := by
    have hlt : countNibbles v.toNat 4 + countNibbles v.toNat 4 >>> 4 < 2 ^ 32 := by
      simp only [rep_succ, rep_zero] at hNle
      rw [Nat.shiftRight_eq_div_pow]
      omega
    rw [UInt32.toNat_and, UInt32.toNat_add, UInt32.toNat_shiftRight, hB, hm4,
      show (4 : UInt32).toNat % 32 = 4 from rfl, Nat.mod_eq_of_lt hlt]
    rfl
  generalize (b + (b >>> 4)) &&& (0xF0F0F0F : UInt32) = c at hC ⊢
  rw [UInt32.toNat_shiftRight, UInt32.toNat_mul, hC, ← countBytes_mul_rep_four,
    Nat.shiftRight_eq_div_pow]
  rfl

/-- `my_count_bits` counts the set bits of a 64-bit word. -/
theorem myCountBits_eq (x : UInt64) : myCountBits x = bitCount 64 x.toNat := by
  have hhi : ((x >>> 32).toUInt32).toNat = x.toNat >>> 32 := by
    rw [UInt64.toNat_toUInt32, UInt64.toNat_shiftRight]
    apply Nat.mod_eq_of_lt
    have := x.toNat_lt
    rw [show (32 : UInt64).toNat % 64 = 32 from rfl, Nat.shiftRight_eq_div_pow]
    omega
  rw [myCountBits, myCountBitsUint32_toNat, myCountBitsUint32_toNat, UInt64.toNat_toUInt32,
    bitCount_mod_two_pow, hhi, show (64 : Nat) = 32 + 32 from rfl, bitCount_add]

/-- The bits of a word counted by `bitCount` are its `wordBit`s. -/
theorem bitCount_toNat (w : UInt64) :
    bitCount 64 w.toNat = ((List.range 64).filter (wordBit w)).length := by
  rw [bitCount, List.countP_eq_length_filter]
  rfl

/-! ## `my_find_first_bit` -/

@[simp] theorem myFindFirstBit_zero : myFindFirstBit 0 = 64 := rfl

/-- For a nonzero word, `my_find_first_bit` is its lowest set bit. -/
theorem myFindFirstBit_spec {n : UInt64} (hn : n ≠ 0) :
    myFindFirstBit n < 64 ∧ wordBit n (myFindFirstBit n) = true ∧
      ∀ j < myFindFirstBit n, wordBit n j = false := by
  obtain ⟨j, hj, hbit⟩ : ∃ j < 64, wordBit n j = true := by
    by_contra h
    exact hn ((eq_zero_iff n).mpr fun j hj => Bool.eq_false_iff.mpr fun hb => h ⟨j, hj, hb⟩)
  cases hf : (List.range 64).find? (wordBit n) with
  | none =>
    have := List.find?_range_eq_none.mp hf j hj
    simp [hbit] at this
  | some i =>
    obtain ⟨hi, hmem, hbelow⟩ := List.find?_range_eq_some.mp hf
    rw [myFindFirstBit, if_neg hn, hf, Option.getD_some]
    exact ⟨List.mem_range.mp hmem, hi, fun k hk => by simpa using hbelow k hk⟩

end MariaDB.Mysys
