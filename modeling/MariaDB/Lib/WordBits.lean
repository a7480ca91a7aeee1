import Mathlib.Data.Nat.Bitwise
import Mathlib.Tactic.Ring

/-
  The bits of a 64-bit machine word.

  `wordBit w j` is bit `j` of `w`, counted from the least significant. The lemmas push C's
  word operators (`|`, `&`, `^`, `~`, `1ULL << k`, `(1ULL << k) - 1`) down to Boolean
  operations on single bits, so that a statement about words becomes one about the bits
  `j < 64`:
  * `wordBit_or`, `wordBit_and`, `wordBit_xor`, `wordBit_not`, `wordBit_zero`: the simp set;
  * `wordBit_shiftLeft_one`, `wordBit_lowMask`: a single bit and the mask of the low `k`
    bits, for `k < 64`;
  * `word_ext`, `eq_allOnes_iff`, `eq_zero_iff`: a word is decided by its 64 bits;
    `wordBit_neg_one` reads the all-ones word in the form simp gives `~~~0`;
  * `and_shiftLeft_one_ne_zero`: C's single-bit test;
  * `getD_modify_of_lt`, `getD_set_of_lt`: a word of a buffer after one word is written;
    `forall_lt_mul_iff`: the bits of the first `L` words, bit by bit or word by word, and
    `countP_range_mul`: the set bits among them, counted word by word;
  * `find?_range_reverse_eq_some`, `_none`: a search from the last index down;
    `filter_range_eq_cons`: the indices below `n` where `p` holds start with the least;
  * `log2_eq_log2_div_add`: dropping the low `x` bits of a number of at least `2 ^ x` bits
    takes `x` off its `log2`.
  Nothing here names one program.
-/

namespace MariaDB.Lib

/-- Bit `j` of a 64-bit word, counted from the least significant. -/
def wordBit (w : UInt64) (j : Nat) : Bool := w.toNat.testBit j

theorem wordBit_eq_getLsbD (w : UInt64) (j : Nat) : wordBit w j = w.toBitVec.getLsbD j := by
  rw [wordBit, ← UInt64.toNat_toBitVec]
  exact BitVec.testBit_toNat w.toBitVec

@[simp] theorem wordBit_or (a b : UInt64) (j : Nat) :
    wordBit (a ||| b) j = (wordBit a j || wordBit b j) := by
  simp [wordBit, UInt64.toNat_or, Nat.testBit_or]

@[simp] theorem wordBit_and (a b : UInt64) (j : Nat) :
    wordBit (a &&& b) j = (wordBit a j && wordBit b j) := by
  simp [wordBit, UInt64.toNat_and, Nat.testBit_and]

@[simp] theorem wordBit_xor (a b : UInt64) (j : Nat) :
    wordBit (a ^^^ b) j = (wordBit a j ^^ wordBit b j) := by
  simp [wordBit, UInt64.toNat_xor, Nat.testBit_xor]

@[simp] theorem wordBit_not (a : UInt64) (j : Nat) :
    wordBit (~~~a) j = (decide (j < 64) && !wordBit a j) := by
  simp [wordBit_eq_getLsbD, BitVec.getLsbD_not]

@[simp] theorem wordBit_zero (j : Nat) : wordBit 0 j = false := by
  simp [wordBit]

theorem lt_of_wordBit {w : UInt64} {j : Nat} (h : wordBit w j = true) : j < 64 := by
  rw [wordBit_eq_getLsbD] at h
  exact BitVec.lt_of_getLsbD h

theorem word_ext {a b : UInt64} (h : ∀ j < 64, wordBit a j = wordBit b j) : a = b := by
  apply UInt64.toBitVec_inj.mp
  apply BitVec.eq_of_getLsbD_eq
  intro j hj
  simpa [wordBit_eq_getLsbD] using h j hj

/-- All ones, which simp writes `-1`. -/
@[simp] theorem wordBit_neg_one (j : Nat) : wordBit (-1) j = decide (j < 64) := by
  show wordBit (~~~0) j = _
  rw [wordBit_not, wordBit_zero, Bool.not_false, Bool.and_true]

/-- A word is all ones iff each of its 64 bits is set. -/
theorem eq_allOnes_iff (w : UInt64) : w = ~~~0 ↔ ∀ j < 64, wordBit w j = true := by
  constructor
  · rintro rfl j hj
    simp [hj]
  · intro h
    exact word_ext fun j hj => by simp [h j hj, hj]

/-- A word is zero iff none of its bits is set. -/
theorem eq_zero_iff (w : UInt64) : w = 0 ↔ ∀ j < 64, wordBit w j = false := by
  constructor
  · rintro rfl j _
    exact wordBit_zero j
  · intro h
    exact word_ext fun j hj => by simp [h j hj]

theorem toNat_one_shiftLeft {k : Nat} (hk : k < 64) :
    (1 <<< k.toUInt64 : UInt64).toNat = 2 ^ k := by
  have hk' : k.toUInt64.toNat = k := by simp; omega
  have hlt : 2 ^ k < 2 ^ 64 := Nat.pow_lt_pow_right (by decide) hk
  rw [UInt64.toNat_shiftLeft, hk', Nat.mod_eq_of_lt hk, UInt64.toNat_one, Nat.shiftLeft_eq,
    one_mul]
  exact Nat.mod_eq_of_lt hlt

/-- `1ULL << k` has bit `k` alone. -/
@[simp] theorem wordBit_shiftLeft_one {k : Nat} (hk : k < 64) (j : Nat) :
    wordBit (1 <<< k.toUInt64) j = decide (j = k) := by
  rw [wordBit, toNat_one_shiftLeft hk, Nat.testBit_two_pow]
  simp [eq_comm]

/-- `(1ULL << k) - 1` has the low `k` bits. -/
@[simp] theorem wordBit_lowMask {k : Nat} (hk : k < 64) (j : Nat) :
    wordBit ((1 <<< k.toUInt64) - 1) j = decide (j < k) := by
  have hpos : (1 : UInt64) ≤ 1 <<< k.toUInt64 := by
    rw [UInt64.le_iff_toNat_le, toNat_one_shiftLeft hk, UInt64.toNat_one]
    exact Nat.one_le_two_pow
  rw [wordBit, UInt64.toNat_sub_of_le _ _ hpos, toNat_one_shiftLeft hk, UInt64.toNat_one,
    Nat.testBit_two_pow_sub_one]

/-- The C test `(w & (1ULL << k)) != 0` reads bit `k`. -/
theorem and_shiftLeft_one_ne_zero {k : Nat} (hk : k < 64) (w : UInt64) :
    (w &&& 1 <<< k.toUInt64 != 0) = wordBit w k := by
  cases hb : wordBit w k
  · -- no bit of the conjunction is set
    have h0 : w &&& 1 <<< k.toUInt64 = 0 := (eq_zero_iff _).mpr fun j _ => by
      by_cases hjk : j = k
      · simp [hjk, hb]
      · simp [wordBit_shiftLeft_one hk, hjk]
    simp [h0]
  · have h0 : w &&& 1 <<< k.toUInt64 ≠ 0 := fun h0 => by
      have := (eq_zero_iff _).mp h0 k hk
      simp [wordBit_shiftLeft_one hk, hb] at this
    simp [h0]

/-! ## Word arrays

  A buffer of words is a list; `l.getD k 0` is the C access `buf[k]`. -/

theorem getD_modify_of_lt {α : Type} (l : List α) (f : α → α) (k : Nat) {i : Nat}
    (hi : i < l.length) (d : α) :
    (l.modify k f).getD i d = if k = i then f (l.getD i d) else l.getD i d := by
  simp only [List.getD_eq_getElem?_getD, List.getElem?_modify, List.getElem?_eq_getElem hi]
  split <;> rfl

theorem getD_set_of_lt {α : Type} (l : List α) (a : α) (k : Nat) {i : Nat}
    (hi : i < l.length) (d : α) :
    (l.set k a).getD i d = if k = i then a else l.getD i d := by
  by_cases hk : k = i
  · subst hk
    simp [List.getD_eq_getElem?_getD, hi]
  · simp [List.getD_eq_getElem?_getD, hk]

/-- Bit `i` of a word array is bit `i mod 64` of word `i / 64`: a statement over the bits
    below `64 * L` is one over the bits of the first `L` words. -/
theorem forall_lt_mul_iff (L : Nat) (P : Nat → Nat → Prop) :
    (∀ i < 64 * L, P (i / 64) (i % 64)) ↔ ∀ k < L, ∀ j < 64, P k j := by
  constructor
  · intro h k hk j hj
    have hkj := h (64 * k + j) (by omega)
    rwa [show (64 * k + j) / 64 = k by omega, show (64 * k + j) % 64 = j by omega] at hkj
  · intro h i hi
    exact h _ (by omega) _ (Nat.mod_lt _ (by decide))

/-- Counting the bits of the first `m` words: the count of each word, summed. -/
theorem countP_range_mul (m : Nat) (f : Nat → Nat → Bool) :
    (List.range (64 * m)).countP (fun i => f (i / 64) (i % 64)) =
      ((List.range m).map fun k => (List.range 64).countP (f k)).sum := by
  induction m with
  | zero => rfl
  | succ m ih =>
    rw [show 64 * (m + 1) = 64 * m + 64 by ring, List.range_add, List.countP_append, ih,
      @List.range_succ m, List.map_append, List.sum_append, List.countP_map]
    simp only [List.map_cons, List.map_nil, List.sum_cons, List.sum_nil, Nat.add_zero]
    congr 1
    apply List.countP_congr
    intro j hj
    rw [List.mem_range] at hj
    simp only [Function.comp_apply, show (64 * m + j) / 64 = m by omega,
      show (64 * m + j) % 64 = j by omega]

/-- The last index below `m` where `p` holds. -/
theorem find?_range_reverse_eq_some {m k : Nat} {p : Nat → Bool} :
    (List.range m).reverse.find? p = some k ↔
      p k = true ∧ k < m ∧ ∀ j, k < j → j < m → p j = false := by
  induction m with
  | zero => simp
  | succ m ih =>
    rw [List.range_succ, List.reverse_append, List.reverse_singleton, List.singleton_append,
      List.find?_cons]
    cases hm : p m
    · rw [ih]
      constructor
      · rintro ⟨hk, hlt, hj⟩
        refine ⟨hk, by omega, fun j h1 h2 => ?_⟩
        rcases Nat.lt_succ_iff_lt_or_eq.mp h2 with h2 | rfl
        · exact hj j h1 h2
        · exact hm
      · rintro ⟨hk, hlt, hj⟩
        have hkm : k ≠ m := by rintro rfl; rw [hm] at hk; exact Bool.false_ne_true hk
        exact ⟨hk, by omega, fun j h1 h2 => hj j h1 (by omega)⟩
    · simp only [Option.some.injEq]
      constructor
      · rintro rfl
        exact ⟨hm, by omega, fun j h1 h2 => absurd h2 (by omega)⟩
      · rintro ⟨hk, hlt, hj⟩
        by_contra hkm
        have := hj m (by omega) (by omega)
        rw [hm] at this
        exact absurd this (by decide)

theorem find?_range_reverse_eq_none {m : Nat} {p : Nat → Bool} :
    (List.range m).reverse.find? p = none ↔ ∀ i < m, p i = false := by
  rw [List.find?_eq_none]
  simp

/-- The indices below `n` where `p` holds are the least of them, `e`, followed by those above
    `e`. -/
theorem filter_range_eq_cons {n e : Nat} {p : Nat → Bool} (he : e < n) (hpe : p e = true)
    (hlt : ∀ i < e, p i = false) :
    (List.range n).filter p = e :: (List.range n).filter fun i => decide (e < i) && p i := by
  induction n, he using Nat.le_induction with
  | base =>
    have h1 : (List.range e).filter p = [] :=
      List.filter_eq_nil_iff.mpr fun i hi => by simp [hlt i (List.mem_range.mp hi)]
    have h2 : (List.range e).filter (fun i => decide (e < i) && p i) = [] :=
      List.filter_eq_nil_iff.mpr fun i hi => by simp [hlt i (List.mem_range.mp hi)]
    simp [List.range_succ, List.filter_append, h1, h2, hpe]
  | succ n hn ih =>
    have hen : e < n := hn
    rw [List.range_succ, List.filter_append, List.filter_append, ih]
    simp [List.filter_cons, hen]

/-- A number of at least `x + 1` bits loses `x` from its `log2` with its low `x` bits. -/
theorem log2_eq_log2_div_add {m x : Nat} (h : 2 ^ x ≤ m) : m.log2 = (m / 2 ^ x).log2 + x := by
  have hx : 0 < 2 ^ x := Nat.two_pow_pos x
  have hq : m / 2 ^ x ≠ 0 := by
    rw [Ne, Nat.div_eq_zero_iff]
    omega
  have hlo := Nat.log2_self_le hq
  have hhi := Nat.lt_log2_self (n := m / 2 ^ x)
  rw [Nat.log2_eq_iff (by omega)]
  constructor
  · rw [Nat.pow_add]
    exact (Nat.le_div_iff_mul_le hx).mp hlo
  · rw [Nat.add_right_comm, Nat.pow_add]
    exact (Nat.div_lt_iff_lt_mul hx).mp hhi

end MariaDB.Lib
