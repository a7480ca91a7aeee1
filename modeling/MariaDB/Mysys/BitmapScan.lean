import MariaDB.Mysys.Bitmap
import MariaDB.Mysys.MyBit
import Mathlib

/-
  The scans of mysys/my_bitmap.c: `bitmap_bits_set`, `bitmap_get_first_set`,
  `bitmap_get_last_set` (with `get_last_bit`), `bitmap_get_next_set`,
  `bitmap_get_first_clear`, `bitmap_is_prefix`, `bitmap_cmp` and
  `bitmap_exists_intersection`.

  Model. Each word loop is a search over the word numbers up to `last_word_ptr`
  (`List.find?`, `List.all`, `List.any`); the loop of `bitmap_get_next_set`, which carries
  `bitmap_bit` from word to word, is the recursion `nextSetLoop`. Bit numbers are `uint` in
  C: `bitmap_bit++` wraps (`% 2 ^ 32`), and `MY_BIT_NONE` is `2 ^ 32 - 1`.

  What a scan answers is stated on the set of the map: `leastOr s d` is the least element of
  `s`, or `d` when `s` is empty, and `greatestOr` the greatest.

  Proved, for a valid map:
  * `Valid.wordBit_iff_mem`: bit `j` of word `k` is set iff `64 k + j` is in the set, for
    every `k`; the scans read words and this turns what they read into the set;
  * `bitmapGetFirstSet_eq`, `bitmapGetLastSet_eq`, `bitmapGetFirstClear_eq`: the least and
    the greatest element, and the least bit below `n_bits` not in the set, or `MY_BIT_NONE`;
    `getLastBit_eq`: the six steps of `get_last_bit` compute `log2`;
  * `bitmapGetNextSet_eq`: the least element from `bitmap_bit + 1` on (wrapped);
  * `bitmapBitsSet_eq`: `bitmap_bits_set` is the number of elements;
  * `bitmapIsPrefix_iff`, `bitmapCmp_iff`, `bitmapExistsIntersection_iff`: the tests answer
    for the sets.
-/

namespace MariaDB.Mysys

open MariaDB.Lib MyBitmap

/-- `MY_BIT_NONE`: `~(uint) 0`. -/
def myBitNone : Nat := 2 ^ 32 - 1

/-- `~x` on a `uint`. -/
def uintNot (x : Nat) : Nat := 2 ^ 32 - 1 - x

/-- `first_bit_mask_inv`: the bits of a word from `bits mod 64` up. -/
def firstBitMaskInv (bits : Nat) : UInt64 :=
  let bitsInLastMap := bits &&& (myBitmapMapBits - 1)
  ~~~((1 <<< bitsInLastMap.toUInt64) - 1)

/-- `bitmap_bits_set`: the bit counts of the words up to `last_word_ptr`. -/
def bitmapBitsSet (map : MyBitmap) : Nat :=
  ((List.range (map.lastWordPtr + 1)).map fun k => myCountBits (map.word k)).sum

/-- `bitmap_get_first_set`: the first nonzero word up to `last_word_ptr`. -/
def bitmapGetFirstSet (map : MyBitmap) : Nat :=
  match (List.range (map.lastWordPtr + 1)).find? (fun i => map.word i != 0) with
  | some i => myFindFirstBit (map.word i) + i * myBitmapMapBits
  | none => myBitNone

/-- `step(x)` of `get_last_bit`: `if (n >= 1ULL << x) { bit += x; n >>= x; }`. -/
def getLastBitStep (s : Nat × UInt64) (x : Nat) : Nat × UInt64 :=
  if s.2 ≥ 1 <<< x.toUInt64 then (s.1 + x, s.2 >>> x.toUInt64) else s

/-- `get_last_bit`: `step(32); step(16); step(8); step(4); step(2); step(1)`. -/
def getLastBit (n : UInt64) : Nat := ([32, 16, 8, 4, 2, 1].foldl getLastBitStep (0, n)).1

/-- `bitmap_get_last_set`: the loop runs from `last_word_ptr` down to the first word. -/
def bitmapGetLastSet (map : MyBitmap) : Nat :=
  match (List.range (map.lastWordPtr + 1)).reverse.find? (fun k => map.word k != 0) with
  | some k => k * myBitmapMapBits + getLastBit (map.word k)
  | none => myBitNone

/-- The word loop of `bitmap_get_next_set`: `fuel` words are left up to `last_word_ptr`,
    `k` is the next one, and `bitmap_bit` steps by 64 with it. -/
def nextSetLoop (map : MyBitmap) : Nat → Nat → Nat → Nat
  | 0, _, _ => myBitNone
  | fuel + 1, k, bitmapBit =>
    let bitmapBit := bitmapBit + 64
    if map.word k ≠ 0 then
      myFindFirstBit (map.word k) + (bitmapBit &&& uintNot (myBitmapMapBits - 1))
    else nextSetLoop map fuel (k + 1) bitmapBit

/-- `bitmap_get_next_set`. -/
def bitmapGetNextSet (map : MyBitmap) (bitmapBit : Nat) : Nat :=
  let bitmapBit := (bitmapBit + 1) % 2 ^ 32
  if bitmapBit ≥ map.nBits then myBitNone
  else
    let wordPos := bitmapBit / 64
    let firstWord := map.word wordPos &&& firstBitMaskInv bitmapBit
    if firstWord ≠ 0 then
      -- the common case: the next bit itself is set
      if firstWord &&& (1 <<< (bitmapBit &&& (myBitmapMapBits - 1)).toUInt64) ≠ 0 then bitmapBit
      else myFindFirstBit firstWord + (bitmapBit &&& uintNot (myBitmapMapBits - 1))
    else nextSetLoop map (map.lastWordPtr - wordPos) (wordPos + 1) bitmapBit

/-- `bitmap_get_first_clear`: the first word before `last_word_ptr` that is not all ones
    (`goto found`), else the last word unless it is full outside `last_bit_mask`. -/
def bitmapGetFirstClear (map : MyBitmap) : Nat :=
  match (List.range map.lastWordPtr).find? (fun i => map.word i != ~~~0) with
  | some i => myFindFirstBit (~~~map.word i) + i * myBitmapMapBits
  | none =>
    if (map.word map.lastWordPtr ||| map.lastBitMask) = ~~~0 then myBitNone
    else myFindFirstBit (~~~map.word map.lastWordPtr) + map.lastWordPtr * myBitmapMapBits

/-- `bitmap_is_prefix`: the words below `prefix_size / 64` are all ones, the next holds
    `(1 << prefix_bits) - 1` if `prefix_bits` is not 0, and the rest up to `last_word_ptr` are
    zero; an empty prefix is always a prefix. -/
def bitmapIsPrefix (map : MyBitmap) (prefixSize : Nat) : Bool :=
  let prefixWords := prefixSize / myBitmapMapBits
  let prefixBits := prefixSize &&& (myBitmapMapBits - 1)
  let zerosFrom (value : Nat) :=
    (List.range' value (map.lastWordPtr + 1 - value)).all fun k => map.word k == 0
  if prefixSize = 0 then true
  else
    (List.range prefixWords).all (fun k => map.word k == ~~~0) &&
      if prefixBits ≠ 0 then
        map.word prefixWords == (1 <<< prefixBits.toUInt64) - 1 && zerosFrom (prefixWords + 1)
      else zerosFrom prefixWords

/-- `bitmap_cmp`: `memcmp` of the `my_bitmap_buffer_size(map1)` bytes, the words of a map of
    `n_bits` bits. -/
def bitmapCmp (map1 map2 : MyBitmap) : Bool :=
  (List.range (noWordsInMap map1.nBits)).all fun k => map1.word k == map2.word k

/-- The inner loop of `bitmap_exists_intersection`: `cur_res &= bitmap_array[j]->bitmap[i]`
    over the maps while `cur_res` is not zero. -/
def andWords (maps : List MyBitmap) (curRes : UInt64) (i : Nat) : UInt64 :=
  maps.foldl (fun c m => if c ≠ 0 then c &&& m.word i else c) curRes

/-- `bitmap_exists_intersection`: the words from `start_idx` before `end_idx`, the first
    masked from `start_bit` up, and then the word `end_idx` masked up to `end_bit`. -/
def bitmapExistsIntersection (maps : List MyBitmap) (startBit endBit : Nat) : Bool :=
  let startIdx := startBit / 8 / 8
  let endIdx := endBit / 8 / 8
  let firstMap := firstBitMaskInv startBit
  (List.range' startIdx (endIdx - startIdx)).any
      (fun i => andWords maps (if i = startIdx then firstMap else ~~~0) i != 0) ||
    let curRes := ~~~lastBitMask (endBit + 1)
    andWords maps (if startIdx = endIdx then curRes &&& firstMap else curRes) endIdx != 0

/-- The client loop `for (i= bitmap_get_first_set(map); i != MY_BIT_NONE;
    i= bitmap_get_next_set(map, i))` from `i`, for at most `fuel` rounds: the bits it visits. -/
def setBitsFrom (map : MyBitmap) : Nat → Nat → List Nat
  | 0, _ => []
  | fuel + 1, i => if i = myBitNone then [] else i :: setBitsFrom map fuel (bitmapGetNextSet map i)

/-! ## The set, word by word -/

section Valid

variable {map : MyBitmap} (hv : map.Valid)
include hv

theorem MyBitmap.Valid.length_eq_succ : map.bitmap.length = map.lastWordPtr + 1 := by
  have := hv.lastWordPtr_lt
  have hL := hv.lastWordPtr_eq
  have hlen := hv.length_eq
  omega

/-- The words past `last_word_ptr` read as zero. -/
theorem MyBitmap.Valid.word_eq_zero {k : Nat} (hk : map.lastWordPtr < k) : map.word k = 0 :=
  List.getD_eq_default _ _ (by rw [hv.length_eq_succ]; omega)

/-- A set bit stands below `n_bits`. -/
theorem MyBitmap.Valid.lt_nBits_of_wordBit {k j : Nat} (h : wordBit (map.word k) j = true) :
    64 * k + j < map.nBits := by
  have hj := lt_of_wordBit h
  have hL := hv.mul_lastWordPtr_lt
  have hL' : map.lastWordPtr = (map.nBits + 63) / 64 - 1 := hv.lastWordPtr_eq
  rcases lt_trichotomy k map.lastWordPtr with hk | rfl | hk
  · omega
  · by_contra hn
    have hm : wordBit map.lastBitMask j = true := by
      rw [hv.lastBitMask_eq, wordBit_lastBitMask, decide_eq_true_iff]
      omega
    rw [hv.unused_bit hm] at h
    exact Bool.false_ne_true h
  · rw [hv.word_eq_zero hk, wordBit_zero] at h
    exact absurd h Bool.false_ne_true

/-- Bit `j` of word `k` is set iff `64 k + j` is in the set. -/
theorem MyBitmap.Valid.wordBit_iff_mem {k j : Nat} (hj : j < 64) :
    wordBit (map.word k) j = true ↔ 64 * k + j ∈ map.toSet := by
  rw [mem_toSet_iff_word, show (64 * k + j) / 64 = k by omega, show (64 * k + j) % 64 = j by omega]
  exact ⟨fun h => ⟨hv.lt_nBits_of_wordBit h, h⟩, And.right⟩

theorem MyBitmap.Valid.mem_iff_wordBit {i : Nat} :
    i ∈ map.toSet ↔ wordBit (map.word (i / 64)) (i % 64) = true := by
  rw [hv.wordBit_iff_mem (Nat.mod_lt _ (by decide)), Nat.div_add_mod]

/-- Bit `j` of `last_bit_mask` is set iff bit `j` of the last word stands at or past
    `n_bits`. -/
theorem MyBitmap.Valid.lastBitMask_bit_iff {j : Nat} (hj : j < 64) :
    wordBit map.lastBitMask j = true ↔ map.nBits ≤ 64 * map.lastWordPtr + j := by
  have hL : map.lastWordPtr = (map.nBits + 63) / 64 - 1 := hv.lastWordPtr_eq
  have hn := hv.nBits_pos
  rw [hv.lastBitMask_eq, wordBit_lastBitMask, decide_eq_true_iff]
  omega

theorem MyBitmap.Valid.div_le_lastWordPtr {i : Nat} (hi : i < map.nBits) :
    i / 64 ≤ map.lastWordPtr := by
  have hL : map.lastWordPtr = (map.nBits + 63) / 64 - 1 := hv.lastWordPtr_eq
  omega

theorem MyBitmap.Valid.lt_of_mem {i : Nat} (hi : i ∈ map.toSet) : i < 64 * (map.lastWordPtr + 1) := by
  have := hv.div_le_lastWordPtr hi.1
  omega

theorem MyBitmap.Valid.word_ne_zero_of_mem {i : Nat} (hi : i ∈ map.toSet) : map.word (i / 64) ≠ 0 := by
  intro h0
  have hb := hv.mem_iff_wordBit.mp hi
  rw [h0, wordBit_zero] at hb
  exact Bool.false_ne_true hb

/-- A valid map stands for a set `s` of bits below `n_bits` iff every bit of every word up to
    `last_word_ptr` says whether its number is in `s`. -/
theorem MyBitmap.Valid.toSet_eq_iff {s : Set Nat} (hs : s ⊆ Set.Iio map.nBits) :
    map.toSet = s ↔ ∀ k ≤ map.lastWordPtr, ∀ j < 64, (wordBit (map.word k) j = true ↔ 64 * k + j ∈ s) := by
  constructor
  · rintro rfl k _ j hj
    exact hv.wordBit_iff_mem hj
  · intro h
    ext i
    rw [hv.mem_iff_wordBit]
    by_cases hi : i / 64 ≤ map.lastWordPtr
    · rw [h _ hi _ (Nat.mod_lt _ (by decide)), Nat.div_add_mod]
    · have hL : map.lastWordPtr = (map.nBits + 63) / 64 - 1 := hv.lastWordPtr_eq
      rw [hv.word_eq_zero (by omega), wordBit_zero]
      exact ⟨fun h => absurd h Bool.false_ne_true, fun his => absurd (hs his) (by
        simp only [Set.mem_Iio]
        omega)⟩

end Valid

/-! ## The least and the greatest element -/

open Classical in
/-- The least element of `s`, or `d` when `s` is empty. -/
noncomputable def leastOr (s : Set Nat) (d : Nat) : Nat := if s.Nonempty then sInf s else d

open Classical in
/-- The greatest element of `s`, or `d` when `s` is empty. -/
noncomputable def greatestOr (s : Set Nat) (d : Nat) : Nat := if s.Nonempty then sSup s else d

theorem leastOr_of_isLeast {s : Set Nat} {a : Nat} (h : IsLeast s a) (d : Nat) :
    leastOr s d = a := by
  rw [leastOr, if_pos ⟨a, h.1⟩, h.csInf_eq]

theorem greatestOr_of_isGreatest {s : Set Nat} {a : Nat} (h : IsGreatest s a) (d : Nat) :
    greatestOr s d = a := by
  rw [greatestOr, if_pos ⟨a, h.1⟩, h.csSup_eq]

@[simp] theorem leastOr_empty (d : Nat) : leastOr ∅ d = d := by
  simp [leastOr]

@[simp] theorem greatestOr_empty (d : Nat) : greatestOr ∅ d = d := by
  simp [greatestOr]

/-- The lowest set bit of a nonzero word `k` of a valid map is its least element from `64 k`
    on. -/
theorem isLeast_of_word {map : MyBitmap} (hv : map.Valid) {k : Nat} {s : Set Nat}
    (hs : ∀ i, i ∈ s ↔ i ∈ map.toSet ∧ 64 * k ≤ i) (hk : map.word k ≠ 0) :
    IsLeast s (myFindFirstBit (map.word k) + k * myBitmapMapBits) := by
  obtain ⟨hlt, hbit, hbelow⟩ := myFindFirstBit_spec hk
  refine ⟨(hs _).mpr ⟨?_, ?_⟩, fun i hi => ?_⟩
  · rw [myBitmapMapBits, Nat.add_comm, Nat.mul_comm]
    exact (hv.wordBit_iff_mem hlt).mp hbit
  · rw [myBitmapMapBits]
    omega
  · obtain ⟨hmem, hki⟩ := (hs i).mp hi
    rw [myBitmapMapBits]
    by_contra hlt'
    have hdiv : i / 64 = k := by omega
    have hb := hv.mem_iff_wordBit.mp hmem
    rw [hdiv, hbelow (i % 64) (by omega)] at hb
    exact Bool.false_ne_true hb

/-! ## The first and the last set bit -/

section Scans

variable {map : MyBitmap}

/-- `bitmap_get_first_set` returns the least element, or `MY_BIT_NONE` for the empty set. -/
theorem bitmapGetFirstSet_eq (hv : map.Valid) :
    bitmapGetFirstSet map = leastOr map.toSet myBitNone := by
  cases hf : (List.range (map.lastWordPtr + 1)).find? (fun i => map.word i != 0) with
  | none =>
    have hz := List.find?_range_eq_none.mp hf
    have hempty : map.toSet = ∅ := Set.eq_empty_of_forall_notMem fun i hi => by
      have := hz (i / 64) (Nat.lt_succ_of_le (hv.div_le_lastWordPtr hi.1))
      simp [hv.word_ne_zero_of_mem hi] at this
    simp only [bitmapGetFirstSet, hf, hempty, leastOr_empty]
  | some k =>
    obtain ⟨hk, -, hbefore⟩ := List.find?_range_eq_some.mp hf
    simp only [bitmapGetFirstSet, hf]
    -- the words before `k` are zero, so every element lies in word `k` or later
    refine (leastOr_of_isLeast (isLeast_of_word hv (fun i => ⟨fun hi => ⟨hi, ?_⟩, And.left⟩)
      (by simpa using hk)) _).symm
    by_contra hlt
    have := hbefore (i / 64) (by omega)
    simp [hv.word_ne_zero_of_mem hi] at this

/-- One `step(x)`: `bit + log2 n` is kept, and `n` drops below `2 ^ x` when it was below
    `2 ^ (x + x)`. -/
theorem getLastBitStep_spec {s : Nat × UInt64} {x : Nat} (hx : x < 64)
    (hs : s.2.toNat < 2 ^ (x + x)) :
    (getLastBitStep s x).1 + (getLastBitStep s x).2.toNat.log2 = s.1 + s.2.toNat.log2 ∧
      (getLastBitStep s x).2.toNat < 2 ^ x := by
  obtain ⟨bit, n⟩ := s
  have hshift : (1 <<< x.toUInt64 : UInt64).toNat = 2 ^ x := toNat_one_shiftLeft hx
  have hxs : x.toUInt64.toNat % 64 = x := by simp; omega
  unfold getLastBitStep
  split
  · rename_i hge
    rw [ge_iff_le, UInt64.le_iff_toNat_le, hshift] at hge
    dsimp only at hs hge ⊢
    rw [UInt64.toNat_shiftRight, hxs, Nat.shiftRight_eq_div_pow, log2_eq_log2_div_add hge]
    refine ⟨by omega, ?_⟩
    rw [Nat.pow_add] at hs
    exact (Nat.div_lt_iff_lt_mul (Nat.two_pow_pos x)).mpr hs
  · rename_i hlt
    rw [ge_iff_le, UInt64.le_iff_toNat_le, hshift, not_le] at hlt
    exact ⟨rfl, hlt⟩

/-- `get_last_bit` returns `log2 n`: each `step(x)` keeps `bit + log2 n` and leaves `n` below
    `2 ^ x`, so after `step(1)` the word is 0 or 1. -/
theorem getLastBit_eq (n : UInt64) : getLastBit n = n.toNat.log2 := by
  simp only [getLastBit, List.foldl_cons, List.foldl_nil]
  obtain ⟨e1, h1⟩ := getLastBitStep_spec (s := (0, n)) (x := 32) (by decide) n.toNat_lt
  generalize getLastBitStep (0, n) 32 = s1 at e1 h1 ⊢
  obtain ⟨e2, h2⟩ := getLastBitStep_spec (s := s1) (x := 16) (by decide) h1
  generalize getLastBitStep s1 16 = s2 at e2 h2 ⊢
  obtain ⟨e3, h3⟩ := getLastBitStep_spec (s := s2) (x := 8) (by decide) h2
  generalize getLastBitStep s2 8 = s3 at e3 h3 ⊢
  obtain ⟨e4, h4⟩ := getLastBitStep_spec (s := s3) (x := 4) (by decide) h3
  generalize getLastBitStep s3 4 = s4 at e4 h4 ⊢
  obtain ⟨e5, h5⟩ := getLastBitStep_spec (s := s4) (x := 2) (by decide) h4
  generalize getLastBitStep s4 2 = s5 at e5 h5 ⊢
  obtain ⟨e6, h6⟩ := getLastBitStep_spec (s := s5) (x := 1) (by decide) h5
  generalize getLastBitStep s5 1 = s6 at e6 h6 ⊢
  have hlast : s6.2.toNat.log2 = 0 := by
    by_cases h0 : s6.2.toNat = 0
    · rw [h0, Nat.log2_zero]
    · have := (Nat.log2_lt h0).mpr h6
      omega
  dsimp only at e1
  omega

/-- The highest set bit of a nonzero word `k` of a valid map is its greatest element below
    `64 (k + 1)`. -/
theorem isGreatest_of_word (hv : map.Valid) {k : Nat} {s : Set Nat}
    (hs : ∀ i, i ∈ s ↔ i ∈ map.toSet ∧ i < 64 * (k + 1)) (hk : map.word k ≠ 0) :
    IsGreatest s (k * myBitmapMapBits + getLastBit (map.word k)) := by
  have hw : (map.word k).toNat ≠ 0 := fun h => hk (UInt64.toNat_inj.mp (by rw [h]; rfl))
  have hbit : wordBit (map.word k) (map.word k).toNat.log2 = true := Nat.testBit_log2 hw
  have hL : (map.word k).toNat.log2 < 64 := (Nat.log2_lt hw).mpr (map.word k).toNat_lt
  have habove : ∀ j, (map.word k).toNat.log2 < j → wordBit (map.word k) j = false := fun j hj =>
    Nat.testBit_lt_two_pow (Nat.lt_of_lt_of_le Nat.lt_log2_self (Nat.pow_le_pow_right (by decide) hj))
  rw [getLastBit_eq, myBitmapMapBits]
  refine ⟨(hs _).mpr ⟨?_, by omega⟩, fun i hi => ?_⟩
  · rw [Nat.mul_comm]
    exact (hv.wordBit_iff_mem hL).mp hbit
  · obtain ⟨hmem, hlt⟩ := (hs i).mp hi
    by_contra hgt
    have hdiv : i / 64 = k := by omega
    have hb := hv.mem_iff_wordBit.mp hmem
    rw [hdiv, habove (i % 64) (by omega)] at hb
    exact Bool.false_ne_true hb

/-- `bitmap_get_last_set` returns the greatest element, or `MY_BIT_NONE` for the empty set. -/
theorem bitmapGetLastSet_eq (hv : map.Valid) :
    bitmapGetLastSet map = greatestOr map.toSet myBitNone := by
  cases hf : (List.range (map.lastWordPtr + 1)).reverse.find? (fun k => map.word k != 0) with
  | none =>
    have hz := find?_range_reverse_eq_none.mp hf
    have hempty : map.toSet = ∅ := Set.eq_empty_of_forall_notMem fun i hi => by
      have := hz (i / 64) (Nat.lt_succ_of_le (hv.div_le_lastWordPtr hi.1))
      simp [hv.word_ne_zero_of_mem hi] at this
    simp only [bitmapGetLastSet, hf, hempty, greatestOr_empty]
  | some k =>
    obtain ⟨hk, hkL, hafter⟩ := find?_range_reverse_eq_some.mp hf
    simp only [bitmapGetLastSet, hf]
    -- the words after `k` are zero, so every element lies in word `k` or before
    refine (greatestOr_of_isGreatest (isGreatest_of_word hv
      (fun i => ⟨fun hi => ⟨hi, ?_⟩, And.left⟩) (by simpa using hk)) _).symm
    by_contra hlt
    have := hafter (i / 64) (by omega) (Nat.lt_succ_of_le (hv.div_le_lastWordPtr hi.1))
    simp [hv.word_ne_zero_of_mem hi] at this

/-! ## The first clear bit -/

/-- The lowest clear bit of word `k` of a valid map, if it lies below `n_bits`, is the least
    bit from `64 k` on that is not in the set. -/
theorem isLeast_clear_of_word (hv : map.Valid) {k : Nat} {s : Set Nat}
    (hs : ∀ i, i ∈ s ↔ (i ∈ Set.Iio map.nBits \ map.toSet) ∧ 64 * k ≤ i) (hk : map.word k ≠ ~~~0)
    (hin : 64 * k + myFindFirstBit (~~~map.word k) < map.nBits) :
    IsLeast s (myFindFirstBit (~~~map.word k) + k * myBitmapMapBits) := by
  have hnot : ~~~map.word k ≠ 0 := fun h => hk (by rw [← h, UInt64.not_not])
  obtain ⟨hlt, hbit, hbelow⟩ := myFindFirstBit_spec hnot
  rw [wordBit_not] at hbit
  rw [myBitmapMapBits]
  refine ⟨(hs _).mpr ⟨⟨by simpa [Nat.add_comm, Nat.mul_comm] using hin, ?_⟩, by omega⟩,
    fun i hi => ?_⟩
  · rw [Nat.add_comm, Nat.mul_comm, ← hv.wordBit_iff_mem hlt]
    simp only [decide_eq_true hlt, Bool.true_and, Bool.not_eq_true'] at hbit
    simp [hbit]
  · obtain ⟨⟨-, hout⟩, hki⟩ := (hs i).mp hi
    by_contra hlt'
    have hdiv : i / 64 = k := by omega
    have hb := hbelow (i % 64) (by omega)
    rw [wordBit_not, decide_eq_true (Nat.mod_lt i (by decide)), Bool.true_and, Bool.not_eq_false',
      ← hdiv] at hb
    exact hout (hv.mem_iff_wordBit.mpr hb)

/-- `bitmap_get_first_clear` returns the least bit below `n_bits` not in the set, or
    `MY_BIT_NONE` when every bit is set. -/
theorem bitmapGetFirstClear_eq (hv : map.Valid) :
    bitmapGetFirstClear map = leastOr (Set.Iio map.nBits \ map.toSet) myBitNone := by
  have hL := hv.mul_lastWordPtr_lt
  -- a bit of a full word before `last_word_ptr` is in the set
  have hfull : ∀ k < map.lastWordPtr, map.word k = ~~~0 → ∀ j < 64, 64 * k + j ∈ map.toSet :=
    fun k _ hk j hj => (hv.wordBit_iff_mem hj).mp (by rw [hk]; simp [hj])
  cases hf : (List.range map.lastWordPtr).find? (fun i => map.word i != ~~~0) with
  | some k =>
    obtain ⟨hk, hkL, hbefore⟩ := List.find?_range_eq_some.mp hf
    rw [List.mem_range] at hkL
    have hk' : map.word k ≠ ~~~0 := by simpa using hk
    have hlt := (myFindFirstBit_spec (fun h => hk' (by rw [← h, UInt64.not_not]))).1
    simp only [bitmapGetFirstClear, hf]
    refine (leastOr_of_isLeast (isLeast_clear_of_word hv
      (fun i => ⟨fun hi => ⟨hi, ?_⟩, And.left⟩) hk' (by omega)) _).symm
    by_contra hlt'
    have hw : map.word (i / 64) = ~~~0 := by simpa using hbefore (i / 64) (by omega)
    exact hi.2 (by simpa [Nat.div_add_mod] using hfull (i / 64) (by omega) hw (i % 64) (Nat.mod_lt _ (by decide)))
  | none =>
    have hz : ∀ k < map.lastWordPtr, map.word k = ~~~0 := fun k hk => by
      simpa using List.find?_range_eq_none.mp hf k hk
    -- every bit before the last word is set
    have hbefore : ∀ i < 64 * map.lastWordPtr, i ∈ map.toSet := fun i hi => by
      simpa [Nat.div_add_mod] using
        hfull (i / 64) (by omega) (hz (i / 64) (by omega)) (i % 64) (Nat.mod_lt _ (by decide))
    have hmask : ∀ j < 64, wordBit map.lastBitMask j = false →
        64 * map.lastWordPtr + j < map.nBits := fun j hj hm => by
      have hL' : map.lastWordPtr = (map.nBits + 63) / 64 - 1 := hv.lastWordPtr_eq
      rw [hv.lastBitMask_eq, wordBit_lastBitMask, decide_eq_false_iff_not] at hm
      omega
    simp only [bitmapGetFirstClear, hf]
    split
    · rename_i hall
      have hempty : Set.Iio map.nBits \ map.toSet = ∅ := by
        refine Set.eq_empty_of_forall_notMem fun i hi' => hi'.2 ?_
        have hi : i < map.nBits := hi'.1
        rcases Nat.lt_or_ge i (64 * map.lastWordPtr) with h | h
        · exact hbefore i h
        · -- the last word: a bit below `n_bits` is outside the mask, so the word has it
          have hk : i / 64 = map.lastWordPtr := by
            have := hv.div_le_lastWordPtr hi
            omega
          have hb := (eq_allOnes_iff _).mp hall (i % 64) (Nat.mod_lt _ (by decide))
          rw [wordBit_or, hv.lastBitMask_bit_of_lt hi hk, Bool.or_false] at hb
          exact hv.mem_iff_wordBit.mpr (by rwa [hk])
      rw [hempty, leastOr_empty]
    · rename_i hnfull
      obtain ⟨j, hj, hjb⟩ : ∃ j < 64, wordBit (map.word map.lastWordPtr ||| map.lastBitMask) j = false := by
        by_contra h
        exact hnfull ((eq_allOnes_iff _).mpr fun j hj => Bool.not_eq_false _ |>.mp fun hb => h ⟨j, hj, hb⟩)
      rw [wordBit_or, Bool.or_eq_false_iff] at hjb
      have hk' : map.word map.lastWordPtr ≠ ~~~0 := fun h => by
        rw [h] at hjb
        simp [hj] at hjb
      obtain ⟨-, -, hbelow⟩ := myFindFirstBit_spec (fun h => hk' (by rw [← h, UInt64.not_not]))
      -- the lowest clear bit is at most `j`, which lies below `n_bits`
      have hle : myFindFirstBit (~~~map.word map.lastWordPtr) ≤ j := by
        by_contra hgt
        have := hbelow j (by omega)
        simp [hj, hjb.1] at this
      refine (leastOr_of_isLeast (isLeast_clear_of_word hv (fun i => ⟨fun hi => ⟨hi, ?_⟩, And.left⟩)
        hk' (by have := hmask j hj hjb.2; omega)) _).symm
      by_contra hlt
      exact hi.2 (hbefore i (by omega))

/-! ## The number of elements -/

theorem toSet_ncard (map : MyBitmap) :
    map.toSet.ncard = (List.range map.nBits).countP (bitmapIsSet map) := by
  have hset : map.toSet = ↑((List.range map.nBits).filter (bitmapIsSet map)).toFinset := by
    ext i
    simp [toSet]
  rw [hset, Set.ncard_coe_finset, List.toFinset_card_of_nodup (List.nodup_range.filter _),
    List.countP_eq_length_filter]

/-- `bitmap_bits_set` counts the elements: the counts of the words up to `last_word_ptr` add
    up to the set bits among their `64 (last_word_ptr + 1)` bits, and those past `n_bits` are
    clear. -/
theorem bitmapBitsSet_eq (hv : map.Valid) : bitmapBitsSet map = map.toSet.ncard := by
  have hwords : bitmapBitsSet map = (List.range (64 * (map.lastWordPtr + 1))).countP
      (fun i => wordBit (map.word (i / 64)) (i % 64)) := by
    refine Eq.trans ?_ (countP_range_mul (map.lastWordPtr + 1) fun k j => wordBit (map.word k) j).symm
    rw [bitmapBitsSet]
    congr 1
    apply List.map_congr_left
    intro k _
    rw [myCountBits_eq]
    rfl
  have hL : map.lastWordPtr = (map.nBits + 63) / 64 - 1 := hv.lastWordPtr_eq
  have hn := hv.nBits_pos
  have hsplit : 64 * (map.lastWordPtr + 1) = map.nBits + (64 * (map.lastWordPtr + 1) - map.nBits) := by
    omega
  -- no bit from `n_bits` on is set
  have htail : ((List.range (64 * (map.lastWordPtr + 1) - map.nBits)).map (map.nBits + ·)).countP
      (fun i => wordBit (map.word (i / 64)) (i % 64)) = 0 := by
    rw [List.countP_eq_zero]
    intro i hi hb
    obtain ⟨d, -, rfl⟩ := List.mem_map.mp hi
    have := hv.lt_nBits_of_wordBit hb
    rw [Nat.div_add_mod] at this
    omega
  rw [hwords, hsplit, List.range_add, List.countP_append, htail, Nat.add_zero, toSet_ncard]
  apply List.countP_congr
  intro i _
  rw [bitmapIsSet_eq]

/-! ## The next set bit -/

/-- `bitmap_bit & ~(my_bitmap_map_bits - 1)` on a `uint`: the first bit of its word. -/
theorem and_uintNot_eq {x : Nat} (hx : x < 2 ^ 32) :
    x &&& uintNot (myBitmapMapBits - 1) = x / 64 * 64 := by
  have hc : uintNot (myBitmapMapBits - 1) = (2 ^ 26 - 1) <<< 6 := by decide
  have hq : x >>> 6 < 2 ^ 26 := by
    rw [Nat.shiftRight_eq_div_pow]
    omega
  rw [hc, ← shiftLeft_land_shiftRight, Nat.and_two_pow_sub_one_eq_mod, Nat.mod_eq_of_lt hq,
    Nat.shiftLeft_eq, Nat.shiftRight_eq_div_pow]

@[simp] theorem wordBit_firstBitMaskInv (bits j : Nat) :
    wordBit (firstBitMaskInv bits) j = decide (j < 64 ∧ bits % 64 ≤ j) := by
  rw [firstBitMaskInv, and_myBitmapMapBits, wordBit_not, wordBit_lowMask (Nat.mod_lt _ (by decide)),
    Bool.eq_iff_iff]
  simp only [Bool.and_eq_true, decide_eq_true_eq, Bool.not_eq_true', decide_eq_false_iff_not]
  omega

theorem leastOr_congr {p q : Nat → Prop} (h : ∀ i, p i ↔ q i) (d : Nat) :
    leastOr {i | p i} d = leastOr {i | q i} d := by
  rw [Set.ext h]

/-- The loop of `bitmap_get_next_set` from word `k` returns the least element from `64 k` on:
    `bitmap_bit` stays in the word before `k`, below `2 ^ 32`. -/
theorem nextSetLoop_eq (hv : map.Valid) (hn : map.nBits < 2 ^ 32) (fuel : Nat) :
    ∀ k bitmapBit, bitmapBit / 64 + 1 = k → k + fuel = map.lastWordPtr + 1 →
      nextSetLoop map fuel k bitmapBit = leastOr {i | i ∈ map.toSet ∧ 64 * k ≤ i} myBitNone := by
  have hL := hv.mul_lastWordPtr_lt
  induction fuel with
  | zero =>
    intro k bitmapBit _ hk
    have hempty : {i | i ∈ map.toSet ∧ 64 * k ≤ i} = ∅ :=
      Set.eq_empty_of_forall_notMem fun i hi => by
        have h1 := hv.lt_of_mem hi.1
        have h2 : 64 * k ≤ i := hi.2
        omega
    rw [nextSetLoop, hempty, leastOr_empty]
  | succ fuel ih =>
    intro k bitmapBit hb hk
    simp only [nextSetLoop]
    split
    · rename_i hw
      rw [and_uintNot_eq (by omega), show (bitmapBit + 64) / 64 * 64 = k * myBitmapMapBits by
        rw [myBitmapMapBits]; omega]
      exact (leastOr_of_isLeast (isLeast_of_word hv (fun _ => Iff.rfl) hw) _).symm
    · rename_i hw
      rw [ih (k + 1) (bitmapBit + 64) (by omega) (by omega)]
      -- word `k` is zero, so no element lies in it
      refine leastOr_congr (fun i => ⟨fun h => ⟨h.1, by have := h.2; omega⟩, fun h => ⟨h.1, ?_⟩⟩) _
      obtain ⟨hi, hki⟩ := h
      by_contra hlt
      exact hv.word_ne_zero_of_mem hi (by rw [show i / 64 = k by omega]; exact not_not.mp hw)

/-- `bitmap_get_next_set` returns the least element from `bitmap_bit + 1` on, where the `uint`
    increment wraps `MY_BIT_NONE` to 0, or `MY_BIT_NONE` if there is none. -/
theorem bitmapGetNextSet_eq (hv : map.Valid) (hn : map.nBits < 2 ^ 32) (bitmapBit : Nat) :
    bitmapGetNextSet map bitmapBit =
      leastOr {i | i ∈ map.toSet ∧ (bitmapBit + 1) % 2 ^ 32 ≤ i} myBitNone := by
  have hL := hv.mul_lastWordPtr_lt
  simp only [bitmapGetNextSet]
  generalize hb : (bitmapBit + 1) % 2 ^ 32 = b
  have hb32 : b < 2 ^ 32 := hb ▸ Nat.mod_lt _ (by decide)
  split
  · rename_i hge
    have hempty : {i | i ∈ map.toSet ∧ b ≤ i} = ∅ :=
      Set.eq_empty_of_forall_notMem fun i hi => by
        have h1 := hi.1.1
        have h2 : b ≤ i := hi.2
        omega
    rw [hempty, leastOr_empty]
  · rename_i hlt
    have hwp := hv.div_le_lastWordPtr (not_le.mp hlt)
    -- the bits of the first word from `b` on are those of `first_word`
    have hfirst : ∀ j < 64, wordBit (map.word (b / 64) &&& firstBitMaskInv b) j = true ↔
        64 * (b / 64) + j ∈ map.toSet ∧ b % 64 ≤ j := fun j hj => by
      rw [wordBit_and, wordBit_firstBitMaskInv, Bool.and_eq_true, hv.wordBit_iff_mem hj]
      simp [hj]
    split
    · rename_i hfw
      split
      · rename_i hbit
        rw [and_myBitmapMapBits] at hbit
        have hbit' := and_shiftLeft_one_ne_zero (Nat.mod_lt b (by decide))
          (map.word (b / 64) &&& firstBitMaskInv b)
        rw [bne_iff_ne.mpr hbit] at hbit'
        have hmem := ((hfirst _ (Nat.mod_lt _ (by decide))).mp hbit'.symm).1
        rw [Nat.div_add_mod] at hmem
        exact (leastOr_of_isLeast (s := {i | i ∈ map.toSet ∧ b ≤ i})
          ⟨⟨hmem, le_rfl⟩, fun i hi => hi.2⟩ _).symm
      · obtain ⟨hlt64, hset, hbelow⟩ := myFindFirstBit_spec hfw
        obtain ⟨hmem, hge⟩ := (hfirst _ hlt64).mp hset
        rw [and_uintNot_eq hb32]
        refine (leastOr_of_isLeast (s := {i | i ∈ map.toSet ∧ b ≤ i})
          ⟨⟨by rwa [Nat.add_comm, Nat.mul_comm], by omega⟩, fun i hi' => ?_⟩ _).symm
        obtain ⟨hi, hbi⟩ := hi'
        by_contra hlt'
        have hdiv : i / 64 = b / 64 := by omega
        have h := (hfirst (i % 64) (Nat.mod_lt _ (by decide))).mpr
          ⟨by rwa [← hdiv, Nat.div_add_mod], by omega⟩
        rw [hbelow (i % 64) (by omega)] at h
        exact Bool.false_ne_true h
    · rename_i hfw
      rw [nextSetLoop_eq hv hn _ (b / 64 + 1) b rfl (by omega)]
      -- nothing from `b` to the end of its word is in the set
      refine leastOr_congr (fun i => ⟨fun h => ⟨h.1, by have := h.2; omega⟩, fun h => ⟨h.1, ?_⟩⟩) _
      obtain ⟨hi, hbi⟩ := h
      by_contra hlt'
      have hdiv : i / 64 = b / 64 := by omega
      have h := (hfirst (i % 64) (Nat.mod_lt _ (by decide))).mpr
        ⟨by rwa [← hdiv, Nat.div_add_mod], by omega⟩
      rw [not_not.mp hfw, wordBit_zero] at h
      exact Bool.false_ne_true h

/-! ## Prefixes, equality and intersections -/

/-- Word `k` of the map of the first `p` bits: all ones before word `p / 64`, the low
    `p mod 64` bits in it, zero after. -/
def prefixWord (p k : Nat) : UInt64 :=
  if k < p / 64 then ~~~0 else if k = p / 64 then (1 <<< (p % 64).toUInt64) - 1 else 0

theorem wordBit_prefixWord (p k j : Nat) :
    wordBit (prefixWord p k) j = decide (j < 64 ∧ 64 * k + j < p) := by
  have hp := Nat.mod_lt p (show 0 < 64 by decide)
  unfold prefixWord
  split
  · rw [wordBit_not, wordBit_zero, Bool.not_false, Bool.and_true, Bool.eq_iff_iff]
    simp only [decide_eq_true_eq]
    omega
  · split
    · rw [wordBit_lowMask hp, Bool.eq_iff_iff]
      simp only [decide_eq_true_eq]
      omega
    · rw [wordBit_zero, Bool.eq_iff_iff]
      simp only [Bool.false_eq_true, decide_eq_true_eq, false_iff]
      omega

/-- `bitmap_is_prefix` answers whether the set is the first `prefix_size` bits, for
    `0 < prefix_size ≤ n_bits` (what its `DBUG_ASSERT` allows); an empty prefix answers 1. -/
theorem bitmapIsPrefix_iff (hv : map.Valid) {prefixSize : Nat} (hp : 0 < prefixSize)
    (hpn : prefixSize ≤ map.nBits) :
    bitmapIsPrefix map prefixSize = true ↔ map.toSet = Set.Iio prefixSize := by
  have hL : map.lastWordPtr = (map.nBits + 63) / 64 - 1 := hv.lastWordPtr_eq
  -- the set is the prefix iff every word up to `last_word_ptr` is `prefixWord`
  have hwords : map.toSet = Set.Iio prefixSize ↔
      ∀ k ≤ map.lastWordPtr, map.word k = prefixWord prefixSize k := by
    rw [hv.toSet_eq_iff (Set.Iio_subset_Iio hpn)]
    refine forall₂_congr fun k _ => ⟨fun h => word_ext fun j hj => ?_, fun h j hj => ?_⟩
    · rw [wordBit_prefixWord, Bool.eq_iff_iff, h j hj]
      simp [hj]
    · rw [h, wordBit_prefixWord]
      simp [hj]
  rw [hwords]
  simp only [bitmapIsPrefix, and_myBitmapMapBits]
  simp only [myBitmapMapBits, Nat.pos_iff_ne_zero.mp hp, if_false, Bool.and_eq_true,
    List.all_eq_true, List.mem_range, beq_iff_eq]
  have hfull : ∀ k < prefixSize / 64, prefixWord prefixSize k = ~~~0 := fun k hk => if_pos hk
  have hzero : ∀ k, prefixSize / 64 < k → prefixWord prefixSize k = 0 := fun k hk => by
    rw [prefixWord, if_neg (by omega), if_neg (by omega)]
  have hpart : prefixWord prefixSize (prefixSize / 64) = (1 <<< (prefixSize % 64).toUInt64) - 1 := by
    rw [prefixWord, if_neg (lt_irrefl _), if_pos rfl]
  by_cases hpb : prefixSize % 64 = 0
  · -- no partial word: the full words, then zeros from word `prefix_size / 64` on
    have hpart0 : prefixWord prefixSize (prefixSize / 64) = 0 := by
      rw [hpart, hpb]
      rfl
    simp only [hpb, ne_eq, not_true_eq_false, if_false, List.all_eq_true, List.mem_range'_1,
      beq_iff_eq]
    constructor
    · rintro ⟨h1, h2⟩ k hk
      rcases Nat.lt_or_ge k (prefixSize / 64) with h | h
      · rw [h1 k h, hfull k h]
      · rw [h2 k ⟨h, by omega⟩]
        rcases Nat.lt_or_eq_of_le h with h | h
        · rw [hzero k h]
        · rw [← h, hpart0]
    · intro h
      refine ⟨fun k hk => by rw [h k (by omega), hfull k hk], fun k hk => ?_⟩
      obtain ⟨hk1, hk2⟩ := hk
      rw [h k (by omega)]
      rcases Nat.lt_or_eq_of_le hk1 with h' | h'
      · rw [hzero k h']
      · rw [← h', hpart0]
  · -- the partial word `prefix_size / 64` lies at or before `last_word_ptr`
    have hpL : prefixSize / 64 ≤ map.lastWordPtr := by omega
    simp only [hpb, ne_eq, not_false_eq_true, if_true, Bool.and_eq_true, beq_iff_eq,
      List.all_eq_true, List.mem_range'_1]
    constructor
    · rintro ⟨h1, h2, h3⟩ k hk
      rcases lt_trichotomy k (prefixSize / 64) with h | rfl | h
      · rw [h1 k h, hfull k h]
      · rw [h2, hpart]
      · rw [h3 k ⟨h, by omega⟩, hzero k h]
    · intro h
      exact ⟨fun k hk => by rw [h k (by omega), hfull k hk], by rw [h _ hpL, hpart],
        fun k hk => by
          obtain ⟨hk1, hk2⟩ := hk
          rw [h k (by omega), hzero k (by omega)]⟩

/-- `bitmap_cmp` answers whether two valid maps of one size hold the same set. -/
theorem bitmapCmp_iff {map1 map2 : MyBitmap} (hv1 : map1.Valid) (hv2 : map2.Valid)
    (hn : map2.nBits = map1.nBits) : bitmapCmp map1 map2 = true ↔ map1.toSet = map2.toSet := by
  have hL : map1.lastWordPtr = map2.lastWordPtr := by rw [hv1.lastWordPtr_eq, hv2.lastWordPtr_eq, hn]
  rw [hv1.toSet_eq_iff (fun i hi => hn ▸ hi.1)]
  simp only [bitmapCmp, List.all_eq_true, List.mem_range, beq_iff_eq]
  have hw : noWordsInMap map1.nBits = map1.lastWordPtr + 1 := by
    have := hv1.nBits_pos
    rw [hv1.lastWordPtr_eq, noWordsInMap, myBitmapMapBits]
    omega
  rw [hw]
  constructor
  · intro h k hk j hj
    rw [h k (by omega), hv2.wordBit_iff_mem hj]
  · intro h k hk
    exact word_ext fun j hj => Bool.eq_iff_iff.mpr
      ((h k (by omega) j hj).trans (hv2.wordBit_iff_mem hj).symm)

theorem wordBit_andWords (maps : List MyBitmap) (c : UInt64) (i j : Nat) :
    wordBit (andWords maps c i) j = (wordBit c j && maps.all fun m => wordBit (m.word i) j) := by
  induction maps generalizing c with
  | nil => simp [andWords]
  | cons m ms ih =>
    show wordBit (andWords ms (if c ≠ 0 then c &&& m.word i else c) i) j = _
    rw [ih, List.all_cons]
    split
    · rw [wordBit_and, Bool.and_assoc]
    · rename_i hc
      rw [not_not.mp hc, wordBit_zero, Bool.false_and, Bool.false_and]

/-- `~last_bit_mask(end_bit + 1)` keeps the bits of the word of `end_bit` up to it. -/
theorem wordBit_not_lastBitMask_succ (e j : Nat) :
    wordBit (~~~lastBitMask (e + 1)) j = decide (j < 64 ∧ j ≤ e % 64) := by
  rw [wordBit_not, wordBit_lastBitMask, Bool.eq_iff_iff]
  simp only [Bool.and_eq_true, decide_eq_true_eq, Bool.not_eq_true', decide_eq_false_iff_not]
  omega

theorem ne_zero_iff_exists_wordBit (w : UInt64) : w ≠ 0 ↔ ∃ j < 64, wordBit w j = true := by
  rw [ne_eq, eq_zero_iff]
  push Not
  simp

/-- `bitmap_exists_intersection` answers whether some bit from `start_bit` to `end_bit` is in
    every map (`DBUG_ASSERT(end_bit >= start_bit)`). -/
theorem bitmapExistsIntersection_iff {maps : List MyBitmap} (hv : ∀ m ∈ maps, m.Valid)
    {startBit endBit : Nat} (hse : startBit ≤ endBit) :
    bitmapExistsIntersection maps startBit endBit = true ↔
      ∃ b, startBit ≤ b ∧ b ≤ endBit ∧ ∀ m ∈ maps, b ∈ m.toSet := by
  -- bit `j` of word `i` is set in every map iff `64 i + j` is in every set
  have hall : ∀ i j, j < 64 → ((maps.all fun m => wordBit (m.word i) j) = true ↔
      ∀ m ∈ maps, 64 * i + j ∈ m.toSet) := fun i j hj => by
    rw [List.all_eq_true]
    exact forall₂_congr fun m hm => (hv m hm).wordBit_iff_mem hj
  simp only [bitmapExistsIntersection, Bool.or_eq_true, List.any_eq_true, bne_iff_ne,
    ne_zero_iff_exists_wordBit, wordBit_andWords, List.mem_range'_1, Bool.and_eq_true]
  constructor
  · rintro (⟨i, ⟨hi1, hi2⟩, j, hj, hmask, hbits⟩ | ⟨j, hj, hmask, hbits⟩)
    · refine ⟨64 * i + j, ?_, by omega, (hall i j hj).mp hbits⟩
      split at hmask
      · rw [wordBit_firstBitMaskInv, decide_eq_true_iff] at hmask
        omega
      · omega
    · refine ⟨64 * (endBit / 8 / 8) + j, ?_, ?_, (hall _ j hj).mp hbits⟩
      · split at hmask
        · rw [wordBit_and, wordBit_firstBitMaskInv, Bool.and_eq_true, decide_eq_true_iff] at hmask
          omega
        · omega
      · have := hmask
        split at this
        · rw [wordBit_and, Bool.and_eq_true, wordBit_not_lastBitMask_succ,
            decide_eq_true_iff] at this
          omega
        · rw [wordBit_not_lastBitMask_succ, decide_eq_true_iff] at this
          omega
  · rintro ⟨b, hsb, hbe, hb⟩
    have hj : b % 64 < 64 := Nat.mod_lt _ (by decide)
    have hbits := (hall (b / 64) (b % 64) hj).mpr (by rwa [Nat.div_add_mod])
    rcases Nat.lt_or_ge (b / 64) (endBit / 8 / 8) with h | h
    · left
      refine ⟨b / 64, ⟨by omega, by omega⟩, b % 64, hj, ?_, hbits⟩
      split
      · rw [wordBit_firstBitMaskInv, decide_eq_true_iff]
        omega
      · simp [hj]
    · right
      have hk : b / 64 = endBit / 8 / 8 := by omega
      refine ⟨b % 64, hj, ?_, hk ▸ hbits⟩
      split
      · rw [wordBit_and, Bool.and_eq_true, wordBit_not_lastBitMask_succ, wordBit_firstBitMaskInv,
          decide_eq_true_iff, decide_eq_true_iff]
        omega
      · rw [wordBit_not_lastBitMask_succ, decide_eq_true_iff]
        omega

/-! ## Iterating with `bitmap_get_next_set` -/

/-- The elements from `lo` on, in increasing order. -/
def elemsFrom (map : MyBitmap) (lo : Nat) : List Nat :=
  (List.range map.nBits).filter fun i => decide (lo ≤ i) && bitmapIsSet map i

theorem elemsFrom_eq_nil {lo : Nat} (h : {i | i ∈ map.toSet ∧ lo ≤ i} = ∅) : elemsFrom map lo = [] := by
  refine List.filter_eq_nil_iff.mpr fun i hi hp => ?_
  rw [Bool.and_eq_true, decide_eq_true_iff] at hp
  exact Set.eq_empty_iff_forall_notMem.mp h i ⟨⟨List.mem_range.mp hi, hp.2⟩, hp.1⟩

/-- The least element `e` from `lo` on comes first, then the elements from `e + 1` on. -/
theorem elemsFrom_eq_cons {lo e : Nat} (h : IsLeast {i | i ∈ map.toSet ∧ lo ≤ i} e) :
    elemsFrom map lo = e :: elemsFrom map (e + 1) := by
  obtain ⟨⟨⟨hen, hset⟩, hle⟩, hleast⟩ := h
  rw [elemsFrom, filter_range_eq_cons hen (by simp [hle, hset]) fun i hi => ?_]
  · congr 1
    apply List.filter_congr
    intro i _
    by_cases hi : e < i
    · simp [hi, show lo ≤ i by omega, show e + 1 ≤ i by omega]
    · simp [hi, show ¬ e + 1 ≤ i by omega]
  · by_contra hp
    rw [Bool.not_eq_false, Bool.and_eq_true, decide_eq_true_iff] at hp
    have := hleast ⟨⟨by omega, hp.2⟩, hp.1⟩
    omega

/-- From the least element from `lo` on, the loop visits the elements from `lo` on in
    increasing order and stops at `MY_BIT_NONE`, when its rounds suffice. -/
theorem setBitsFrom_leastOr (hv : map.Valid) (hn : map.nBits < 2 ^ 32) (fuel : Nat) :
    ∀ lo, (elemsFrom map lo).length ≤ fuel →
      setBitsFrom map fuel (leastOr {i | i ∈ map.toSet ∧ lo ≤ i} myBitNone) = elemsFrom map lo := by
  induction fuel with
  | zero =>
    intro lo hlen
    rw [Nat.le_zero, List.length_eq_zero_iff] at hlen
    rw [hlen, setBitsFrom]
  | succ fuel ih =>
    intro lo hlen
    by_cases hne : {i | i ∈ map.toSet ∧ lo ≤ i}.Nonempty
    · -- the least element `e` is below `n_bits`, so it is not `MY_BIT_NONE`
      have hmin : IsLeast {i | i ∈ map.toSet ∧ lo ≤ i} (sInf {i | i ∈ map.toSet ∧ lo ≤ i}) :=
        ⟨Nat.sInf_mem hne, fun i hi => Nat.sInf_le hi⟩
      set e := sInf {i | i ∈ map.toSet ∧ lo ≤ i}
      have hen : e < map.nBits := hmin.1.1.1
      have hcons := elemsFrom_eq_cons hmin
      rw [leastOr_of_isLeast hmin, hcons, setBitsFrom, if_neg (by rw [myBitNone]; omega),
        bitmapGetNextSet_eq hv hn, Nat.mod_eq_of_lt (by omega)]
      rw [hcons, List.length_cons] at hlen
      rw [ih (e + 1) (by omega)]
    · rw [Set.not_nonempty_iff_eq_empty] at hne
      rw [hne, leastOr_empty, elemsFrom_eq_nil hne, setBitsFrom, if_pos rfl]

/-- The client loop over a valid map, from `bitmap_get_first_set` on through
    `bitmap_get_next_set`, visits every element once, in increasing order, and stops: with as
    many rounds as there are elements, it returns the bits below `n_bits` that are set. -/
theorem bitmap_iteration_in_order (hv : map.Valid) (hn : map.nBits < 2 ^ 32) (fuel : Nat)
    (hfuel : ((List.range map.nBits).filter (bitmapIsSet map)).length ≤ fuel) :
    setBitsFrom map fuel (bitmapGetFirstSet map) = (List.range map.nBits).filter (bitmapIsSet map) := by
  have h0 : elemsFrom map 0 = (List.range map.nBits).filter (bitmapIsSet map) := by
    simp [elemsFrom]
  have hset : map.toSet = {i | i ∈ map.toSet ∧ 0 ≤ i} := by simp
  rw [← h0] at hfuel ⊢
  rw [bitmapGetFirstSet_eq hv, hset, setBitsFrom_leastOr hv hn fuel 0 hfuel]

end Scans

end MariaDB.Mysys
