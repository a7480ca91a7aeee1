import MariaDB.Lib.WordBits
import Mathlib

/-
  `MY_BITMAP` (mysys/my_bitmap.c, include/my_bitmap.h): a set of bit numbers below `n_bits`
  kept in 64-bit words, bit `i` at bit `i mod 64` of word `i / 64`. `create_last_bit_mask`
  records `last_word_ptr`, the last word in use, and `last_bit_mask`, the bits of that word
  past `n_bits`, and clears them; the operations keep them clear and lean on that.

  Model. `MyBitmap` holds the words of the buffer; `last_word_ptr` is an index into them.
  `MyBitmap.Valid` is what `my_bitmap_init` establishes (`valid_myBitmapInit`), and
  `MyBitmap.toSet` the set `{i < n_bits | bit i set}` the map stands for.

  Proved:
  * `mem_toSet_iff_word`, `forall_lt_nBits_iff`: a statement over the bits below `n_bits` is
    one over the full words before `last_word_ptr` and the bits of the last word outside
    `last_bit_mask`; every word-level proof below goes through them;
  * `valid_updateBitWord`, `bitmapIsSet_updateBitWord`: `bitmap_set_bit`, `bitmap_clear_bit`
    and `bitmap_flip_bit` (one word update, `updateBitWord`, with the bit operation as a
    parameter) keep the map valid and change the one bit; `toSet_bitmapSetBit`,
    `toSet_bitmapClearBit`, `toSet_bitmapFlipBit` insert, erase or flip it, and
    `toSet_bitmapSetAll`, `toSet_bitmapClearAll` give the full and the empty set;
  * `BitmapOp.step`, `runOps_spec`, `myBitmapInit_runOps`: every run of these writes from
    `my_bitmap_init` keeps the unused bits zero and computes the set operations;
  * `bitmapIsSetAll_iff`, `bitmapIsClearAll_iff`, `bitmapIsSubset_iff`,
    `bitmapIsOverlapping_iff`: the tests answer for the sets;
  * `bitmapUnionIsSetAll_iff`: `bitmap_union_is_set_all` ends with `!=` where
    `bitmap_is_set_all` has `==`, so it answers TRUE iff the words before the last are
    covered and the last one is NOT; `bitmapUnionIsSetAll_of_union_full`: it answers FALSE
    whenever the union is the whole range, for every `n_bits`.
-/

namespace MariaDB.Mysys

open MariaDB.Lib

/-- `my_bitmap_map_bits`: a map word is a `ulonglong`. -/
def myBitmapMapBits : Nat := 64

/-- `last_bit_mask`: the bits of the last word from `bits mod 64` up, which lie past the end
    of a map of `bits` bits; zero when the last word is full. -/
def lastBitMask (bits : Nat) : UInt64 :=
  let bitsInLastMap := bits &&& (myBitmapMapBits - 1)
  if bitsInLastMap ≠ 0 then ~~~((1 <<< bitsInLastMap.toUInt64) - 1) else 0

/-- `no_words_in_map`. -/
def noWordsInMap (nBits : Nat) : Nat := (nBits + (myBitmapMapBits - 1)) / myBitmapMapBits

/-- `MY_BITMAP`: the words of `bitmap`, `last_word_ptr` as an index into them,
    `last_bit_mask` and `n_bits`. -/
structure MyBitmap where
  bitmap : List UInt64
  lastWordPtr : Nat
  lastBitMask : UInt64
  nBits : Nat
  deriving Repr, DecidableEq

namespace MyBitmap

/-- `map->bitmap[k]`. -/
def word (map : MyBitmap) (k : Nat) : UInt64 := map.bitmap.getD k 0

end MyBitmap

/-- `create_last_bit_mask`. -/
def createLastBitMask (map : MyBitmap) : MyBitmap :=
  let mask := lastBitMask map.nBits
  let map := { map with lastBitMask := mask, lastWordPtr := max (noWordsInMap map.nBits) 1 - 1 }
  if map.nBits > 0 then
    -- `*map->last_word_ptr &= ~mask`: the bits past the end start at zero
    { map with bitmap := map.bitmap.modify map.lastWordPtr (· &&& ~~~mask) }
  else map

/-- `bitmap_clear_all`: `memset` of the `my_bitmap_buffer_size(map)` bytes to zero. -/
def bitmapClearAll (map : MyBitmap) : MyBitmap :=
  let n := noWordsInMap map.nBits
  { map with bitmap := List.replicate n 0 ++ map.bitmap.drop n }

/-- `my_bitmap_init` on the buffer `buf` (the caller's, or the one it allocates, whose
    contents `bitmap_clear_all` overwrites). -/
def myBitmapInit (buf : List UInt64) (nBits : Nat) : MyBitmap :=
  bitmapClearAll (createLastBitMask ⟨buf, 0, 0, nBits⟩)

/-- `bitmap_is_set`. -/
def bitmapIsSet (map : MyBitmap) (bit : Nat) : Bool :=
  (map.word (bit / myBitmapMapBits) &&& (1 <<< (bit &&& (myBitmapMapBits - 1)).toUInt64)) != 0

/-- The word update of `bitmap_set_bit`, `bitmap_clear_bit` and `bitmap_flip_bit`: `op` of
    the bit's word and `1ULL << (bit & 63)`. -/
def updateBitWord (op : UInt64 → UInt64 → UInt64) (map : MyBitmap) (bit : Nat) : MyBitmap :=
  let mask : UInt64 := 1 <<< (bit &&& (myBitmapMapBits - 1)).toUInt64
  { map with bitmap := map.bitmap.modify (bit / myBitmapMapBits) (fun w => op w mask) }

/-- `bitmap_set_bit`. -/
def bitmapSetBit (map : MyBitmap) (bit : Nat) : MyBitmap := updateBitWord (· ||| ·) map bit

/-- `bitmap_clear_bit`. -/
def bitmapClearBit (map : MyBitmap) (bit : Nat) : MyBitmap :=
  updateBitWord (fun w m => w &&& ~~~m) map bit

/-- `bitmap_flip_bit`. -/
def bitmapFlipBit (map : MyBitmap) (bit : Nat) : MyBitmap := updateBitWord (· ^^^ ·) map bit

/-- `bitmap_set_all`: every word before the last to all ones, the last to `~last_bit_mask`. -/
def bitmapSetAll (map : MyBitmap) : MyBitmap :=
  if map.nBits ≠ 0 then
    let n := noWordsInMap map.nBits - 1
    { map with bitmap :=
        (List.replicate n (~~~0) ++ map.bitmap.drop n).set map.lastWordPtr (~~~map.lastBitMask) }
  else map

/-- `bitmap_is_set_all`. -/
def bitmapIsSetAll (map : MyBitmap) : Bool :=
  (List.range map.lastWordPtr).all (fun k => map.word k == ~~~0) &&
    (map.word map.lastWordPtr ||| map.lastBitMask) == ~~~0

/-- `bitmap_is_clear_all`: the loop runs to `last_word_ptr` inclusive. -/
def bitmapIsClearAll (map : MyBitmap) : Bool :=
  (List.range (map.lastWordPtr + 1)).all (fun k => map.word k == 0)

/-- `bitmap_is_subset`. -/
def bitmapIsSubset (map1 map2 : MyBitmap) : Bool :=
  (List.range (map1.lastWordPtr + 1)).all (fun k => (map1.word k &&& ~~~map2.word k) == 0)

/-- `bitmap_is_overlapping`. -/
def bitmapIsOverlapping (map1 map2 : MyBitmap) : Bool :=
  (List.range (map1.lastWordPtr + 1)).any (fun k => (map1.word k &&& map2.word k) != 0)

/-- `bitmap_union_is_set_all`: the words before the last as in `bitmap_is_set_all`; the last
    test is `!=` where `bitmap_is_set_all` has `==`. -/
def bitmapUnionIsSetAll (map1 map2 : MyBitmap) : Bool :=
  (List.range map1.lastWordPtr).all (fun k => (map1.word k ||| map2.word k) == ~~~0) &&
    (map1.word map1.lastWordPtr ||| map2.word map1.lastWordPtr ||| map1.lastBitMask) != ~~~0

/-! ## The set a map stands for -/

namespace MyBitmap

/-- What `create_last_bit_mask` establishes: the buffer holds the map's words, the last one
    at `last_word_ptr`, and its bits in `last_bit_mask` are zero. -/
structure Valid (map : MyBitmap) : Prop where
  nBits_pos : 0 < map.nBits
  length_eq : map.bitmap.length = noWordsInMap map.nBits
  lastWordPtr_eq : map.lastWordPtr = noWordsInMap map.nBits - 1
  lastBitMask_eq : map.lastBitMask = Mysys.lastBitMask map.nBits
  unused_zero : map.word map.lastWordPtr &&& map.lastBitMask = 0

/-- The bits below `n_bits` that are set. -/
def toSet (map : MyBitmap) : Set Nat := {i | i < map.nBits ∧ bitmapIsSet map i = true}

end MyBitmap

open MyBitmap

theorem and_myBitmapMapBits (bit : Nat) : bit &&& (myBitmapMapBits - 1) = bit % 64 :=
  Nat.and_two_pow_sub_one_eq_mod bit 6

@[simp] theorem wordBit_lastBitMask (bits j : Nat) :
    wordBit (lastBitMask bits) j = decide (j < 64 ∧ bits % 64 ≠ 0 ∧ bits % 64 ≤ j) := by
  have hk : bits % 64 < 64 := Nat.mod_lt _ (by decide)
  rw [lastBitMask, and_myBitmapMapBits]
  by_cases h : bits % 64 = 0
  · simp [h]
  · simp only [ne_eq, h, not_false_eq_true, if_true, wordBit_not, wordBit_lowMask hk]
    rw [Bool.eq_iff_iff]
    simp

/-- Bit `i` is bit `i mod 64` of word `i / 64`. -/
theorem bitmapIsSet_eq (map : MyBitmap) (i : Nat) :
    bitmapIsSet map i = wordBit (map.word (i / 64)) (i % 64) := by
  rw [bitmapIsSet, and_myBitmapMapBits]
  exact and_shiftLeft_one_ne_zero (Nat.mod_lt _ (by decide)) _

theorem mem_toSet_iff_word {map : MyBitmap} {i : Nat} :
    i ∈ map.toSet ↔ i < map.nBits ∧ wordBit (map.word (i / 64)) (i % 64) = true := by
  show _ ∧ _ ↔ _
  rw [bitmapIsSet_eq]

/-! ## The bits below `n_bits`, word by word -/

section Valid

variable {map : MyBitmap} (hv : map.Valid)
include hv

theorem MyBitmap.Valid.lastWordPtr_lt : map.lastWordPtr < map.bitmap.length := by
  have hn := hv.nBits_pos
  rw [hv.lastWordPtr_eq, hv.length_eq, noWordsInMap, myBitmapMapBits]
  omega

/-- The map's words before `last_word_ptr` are full; the last one ends where
    `last_bit_mask` starts. -/
theorem MyBitmap.Valid.mul_lastWordPtr_lt : 64 * map.lastWordPtr < map.nBits := by
  have hn := hv.nBits_pos
  rw [hv.lastWordPtr_eq, noWordsInMap, myBitmapMapBits]
  omega

/-- The bits past `64 * last_word_ptr` below `n_bits` are those of the last word outside
    `last_bit_mask`. -/
theorem MyBitmap.Valid.forall_lastWord_iff (P : Nat → Nat → Prop) :
    (∀ i, 64 * map.lastWordPtr ≤ i → i < map.nBits → P (i / 64) (i % 64)) ↔
      ∀ j < 64, wordBit map.lastBitMask j = false → P map.lastWordPtr j := by
  have hn := hv.nBits_pos
  have hL : map.lastWordPtr = (map.nBits + 63) / 64 - 1 := hv.lastWordPtr_eq
  simp only [hv.lastBitMask_eq, wordBit_lastBitMask, decide_eq_false_iff_not]
  constructor
  · intro h j hj hm
    have hkj := h (64 * map.lastWordPtr + j) (by omega) (by omega)
    rwa [show (64 * map.lastWordPtr + j) / 64 = map.lastWordPtr by omega,
      show (64 * map.lastWordPtr + j) % 64 = j by omega] at hkj
  · intro h i hi hin
    have hk : i / 64 = map.lastWordPtr := by omega
    rw [hk]
    exact h _ (Nat.mod_lt _ (by decide)) (by omega)

/-- A statement over the bits below `n_bits` is one over the words before `last_word_ptr`
    and the bits of the last word outside `last_bit_mask`. -/
theorem MyBitmap.Valid.forall_lt_nBits_iff (P : Nat → Nat → Prop) :
    (∀ i < map.nBits, P (i / 64) (i % 64)) ↔
      (∀ k < map.lastWordPtr, ∀ j < 64, P k j) ∧
        ∀ j < 64, wordBit map.lastBitMask j = false → P map.lastWordPtr j := by
  have hL := hv.mul_lastWordPtr_lt
  rw [← forall_lt_mul_iff, ← hv.forall_lastWord_iff]
  constructor
  · intro h
    exact ⟨fun i hi => h i (by omega), fun i _ hi => h i hi⟩
  · rintro ⟨hfull, hlast⟩ i hi
    rcases Nat.lt_or_ge i (64 * map.lastWordPtr) with h | h
    · exact hfull i h
    · exact hlast i h hi

/-- A bit below `n_bits` in the last word lies outside `last_bit_mask`. -/
theorem MyBitmap.Valid.lastBitMask_bit_of_lt {i : Nat} (hi : i < map.nBits)
    (hk : i / 64 = map.lastWordPtr) : wordBit map.lastBitMask (i % 64) = false := by
  have hL : map.lastWordPtr = (map.nBits + 63) / 64 - 1 := hv.lastWordPtr_eq
  rw [hv.lastBitMask_eq, wordBit_lastBitMask, decide_eq_false_iff_not]
  omega

/-- The word of a bit below `n_bits` is in the buffer. -/
theorem MyBitmap.Valid.div_lt_length {i : Nat} (hi : i < map.nBits) :
    i / 64 < map.bitmap.length := by
  have hL : map.lastWordPtr = (map.nBits + 63) / 64 - 1 := hv.lastWordPtr_eq
  have := hv.lastWordPtr_lt
  omega

/-- The bits of the last word in `last_bit_mask` are zero. -/
theorem MyBitmap.Valid.unused_bit {j : Nat} (hj : wordBit map.lastBitMask j = true) :
    wordBit (map.word map.lastWordPtr) j = false := by
  have h := (eq_zero_iff _).mp hv.unused_zero j (lt_of_wordBit hj)
  simpa [hj] using h

end Valid

/-! ## The tests -/

section Tests

variable {map map1 map2 : MyBitmap}

theorem toSet_eq_Iio_iff :
    map.toSet = Set.Iio map.nBits ↔ ∀ i < map.nBits, wordBit (map.word (i / 64)) (i % 64) = true := by
  simp only [Set.ext_iff, mem_toSet_iff_word, Set.mem_Iio]
  exact ⟨fun h i hi => ((h i).mpr hi).2, fun h i => ⟨And.left, fun hi => ⟨hi, h i hi⟩⟩⟩

theorem toSet_eq_empty_iff :
    map.toSet = ∅ ↔ ∀ i < map.nBits, wordBit (map.word (i / 64)) (i % 64) = false := by
  simp only [Set.eq_empty_iff_forall_notMem, mem_toSet_iff_word, not_and, Bool.not_eq_true]

/-- `bitmap_is_set_all` answers whether every bit below `n_bits` is set. -/
theorem bitmapIsSetAll_iff (hv : map.Valid) :
    bitmapIsSetAll map = true ↔ map.toSet = Set.Iio map.nBits := by
  rw [toSet_eq_Iio_iff, hv.forall_lt_nBits_iff fun k j => wordBit (map.word k) j = true]
  simp only [bitmapIsSetAll, Bool.and_eq_true, List.all_eq_true, List.mem_range, beq_iff_eq,
    eq_allOnes_iff, wordBit_or]
  refine and_congr Iff.rfl (forall₂_congr fun j _ => ?_)
  cases wordBit map.lastBitMask j <;> simp

/-- `bitmap_is_clear_all` answers whether no bit below `n_bits` is set: the loop reads the
    last word whole, which is right because its bits past `n_bits` are zero. -/
theorem bitmapIsClearAll_iff (hv : map.Valid) :
    bitmapIsClearAll map = true ↔ map.toSet = ∅ := by
  rw [toSet_eq_empty_iff, hv.forall_lt_nBits_iff fun k j => wordBit (map.word k) j = false]
  simp only [bitmapIsClearAll, List.range_succ, List.all_append, List.all_cons, List.all_nil,
    Bool.and_true, Bool.and_eq_true, List.all_eq_true, List.mem_range, beq_iff_eq, eq_zero_iff]
  refine and_congr Iff.rfl (forall₂_congr fun j _ => ?_)
  cases hm : wordBit map.lastBitMask j
  · simp
  · simp [hv.unused_bit hm]

/-- `bitmap_is_subset` answers whether the first set is inside the second. -/
theorem bitmapIsSubset_iff (hv1 : map1.Valid) (hn : map2.nBits = map1.nBits) :
    bitmapIsSubset map1 map2 = true ↔ map1.toSet ⊆ map2.toSet := by
  have hset : map1.toSet ⊆ map2.toSet ↔ ∀ i < map1.nBits,
      wordBit (map1.word (i / 64)) (i % 64) = true →
        wordBit (map2.word (i / 64)) (i % 64) = true := by
    simp only [Set.subset_def, mem_toSet_iff_word, hn]
    exact ⟨fun h i hi hb => (h i ⟨hi, hb⟩).2, fun h i ⟨hi, hb⟩ => ⟨hi, h i hi hb⟩⟩
  rw [hset, hv1.forall_lt_nBits_iff fun k j =>
    wordBit (map1.word k) j = true → wordBit (map2.word k) j = true]
  simp only [bitmapIsSubset, List.range_succ, List.all_append, List.all_cons, List.all_nil,
    Bool.and_true, Bool.and_eq_true, List.all_eq_true, List.mem_range, beq_iff_eq, eq_zero_iff,
    wordBit_and, wordBit_not]
  refine and_congr (forall₂_congr fun k _ => forall₂_congr fun j hj => ?_)
    (forall₂_congr fun j hj => ?_)
  · simp [hj]
  · -- a bit of the last word past `n_bits` is clear in the first map: nothing to check
    cases hm : wordBit map1.lastBitMask j
    · simp [hj]
    · simp [hv1.unused_bit hm]

/-- `bitmap_is_overlapping` answers whether the two sets meet. -/
theorem bitmapIsOverlapping_iff (hv1 : map1.Valid) (hn : map2.nBits = map1.nBits) :
    bitmapIsOverlapping map1 map2 = true ↔ (map1.toSet ∩ map2.toSet).Nonempty := by
  have hset : map1.toSet ∩ map2.toSet = ∅ ↔ ∀ i < map1.nBits,
      (wordBit (map1.word (i / 64)) (i % 64) && wordBit (map2.word (i / 64)) (i % 64)) = false := by
    simp only [Set.eq_empty_iff_forall_notMem, Set.mem_inter_iff, mem_toSet_iff_word, hn]
    refine forall_congr' fun i => ?_
    by_cases hi : i < map1.nBits <;> simp [hi]
  rw [← not_iff_not, Bool.not_eq_true, Set.not_nonempty_iff_eq_empty, hset,
    hv1.forall_lt_nBits_iff fun k j => (wordBit (map1.word k) j && wordBit (map2.word k) j) = false]
  simp only [bitmapIsOverlapping, List.range_succ, List.any_append, List.any_cons, List.any_nil,
    Bool.or_false, Bool.or_eq_false_iff, List.any_eq_false, List.mem_range, bne_iff_ne, ne_eq,
    bne_eq_false_iff_eq, Decidable.not_not, eq_zero_iff, wordBit_and]
  refine and_congr Iff.rfl (forall₂_congr fun j _ => ?_)
  cases hm : wordBit map1.lastBitMask j
  · simp
  · simp [hv1.unused_bit hm]

theorem mem_union_toSet_iff (hn : map2.nBits = map1.nBits) {i : Nat} :
    i ∈ map1.toSet ∪ map2.toSet ↔ i < map1.nBits ∧
      (wordBit (map1.word (i / 64)) (i % 64) || wordBit (map2.word (i / 64)) (i % 64)) = true := by
  simp only [Set.mem_union, mem_toSet_iff_word, hn, Bool.or_eq_true]
  exact and_or_left.symm

/-- `bitmap_union_is_set_all` answers TRUE iff the union covers every bit of the words before
    `last_word_ptr` and MISSES one of the last word: its last test is the negation of the one
    `bitmap_is_set_all` makes. -/
theorem bitmapUnionIsSetAll_iff (hv1 : map1.Valid) (hn : map2.nBits = map1.nBits) :
    bitmapUnionIsSetAll map1 map2 = true ↔
      (∀ i < 64 * map1.lastWordPtr, i ∈ map1.toSet ∪ map2.toSet) ∧
        ¬ ∀ i, 64 * map1.lastWordPtr ≤ i → i < map1.nBits → i ∈ map1.toSet ∪ map2.toSet := by
  have hL := hv1.mul_lastWordPtr_lt
  have hfull : (∀ i < 64 * map1.lastWordPtr, i ∈ map1.toSet ∪ map2.toSet) ↔
      ∀ k < map1.lastWordPtr, (map1.word k ||| map2.word k) = ~~~0 := by
    rw [show (∀ i < 64 * map1.lastWordPtr, i ∈ map1.toSet ∪ map2.toSet) ↔
        ∀ i < 64 * map1.lastWordPtr,
          (wordBit (map1.word (i / 64)) (i % 64) || wordBit (map2.word (i / 64)) (i % 64)) = true
        from forall₂_congr fun i hi => by rw [mem_union_toSet_iff hn]; exact and_iff_right (by omega),
      forall_lt_mul_iff (P := fun k j => (wordBit (map1.word k) j || wordBit (map2.word k) j) = true)]
    simp only [eq_allOnes_iff, wordBit_or]
  have hlast : (∀ i, 64 * map1.lastWordPtr ≤ i → i < map1.nBits → i ∈ map1.toSet ∪ map2.toSet) ↔
      (map1.word map1.lastWordPtr ||| map2.word map1.lastWordPtr ||| map1.lastBitMask) = ~~~0 := by
    rw [show (∀ i, 64 * map1.lastWordPtr ≤ i → i < map1.nBits → i ∈ map1.toSet ∪ map2.toSet) ↔
        ∀ i, 64 * map1.lastWordPtr ≤ i → i < map1.nBits →
          (wordBit (map1.word (i / 64)) (i % 64) || wordBit (map2.word (i / 64)) (i % 64)) = true
        from forall_congr' fun i => forall₂_congr fun _ hi => by
          rw [mem_union_toSet_iff hn]; exact and_iff_right hi,
      hv1.forall_lastWord_iff (fun k j => (wordBit (map1.word k) j || wordBit (map2.word k) j) = true)]
    simp only [eq_allOnes_iff, wordBit_or]
    refine forall₂_congr fun j _ => ?_
    cases wordBit map1.lastBitMask j <;> simp
  rw [hfull, hlast]
  simp [bitmapUnionIsSetAll, List.all_eq_true]

/-- Whenever the union of two maps of one size is the whole range, `bitmap_union_is_set_all`
    answers FALSE. -/
theorem bitmapUnionIsSetAll_of_union_full (hv1 : map1.Valid) (hn : map2.nBits = map1.nBits)
    (h : map1.toSet ∪ map2.toSet = Set.Iio map1.nBits) :
    bitmapUnionIsSetAll map1 map2 = false := by
  rw [Bool.eq_false_iff, ne_eq, bitmapUnionIsSetAll_iff hv1 hn, h]
  rintro ⟨-, hlast⟩
  exact hlast fun i _ hi => hi

end Tests

/-! ## The operations that write a map -/

section Update

variable {map : MyBitmap}

/-- The three single-bit writes change the bit's word and no field of the map. -/
@[simp] theorem updateBitWord_nBits (op : UInt64 → UInt64 → UInt64) (bit : Nat) :
    (updateBitWord op map bit).nBits = map.nBits := rfl

@[simp] theorem updateBitWord_lastWordPtr (op : UInt64 → UInt64 → UInt64) (bit : Nat) :
    (updateBitWord op map bit).lastWordPtr = map.lastWordPtr := rfl

@[simp] theorem updateBitWord_lastBitMask (op : UInt64 → UInt64 → UInt64) (bit : Nat) :
    (updateBitWord op map bit).lastBitMask = map.lastBitMask := rfl

@[simp] theorem length_updateBitWord (op : UInt64 → UInt64 → UInt64) (bit : Nat) :
    (updateBitWord op map bit).bitmap.length = map.bitmap.length :=
  List.length_modify _ _ _

theorem word_updateBitWord (op : UInt64 → UInt64 → UInt64) (bit : Nat) {k : Nat}
    (hk : k < map.bitmap.length) :
    (updateBitWord op map bit).word k =
      if bit / 64 = k then op (map.word k) (1 <<< (bit % 64).toUInt64) else map.word k := by
  rw [updateBitWord, and_myBitmapMapBits]
  exact getD_modify_of_lt _ _ _ hk 0

/-- The Boolean function `g` a word operator `op` computes bit by bit; `g x false = x` says
    that bits outside the written one keep their value. -/
def BitwiseBy (op : UInt64 → UInt64 → UInt64) (g : Bool → Bool → Bool) : Prop :=
  (∀ w m j, wordBit (op w m) j = g (wordBit w j) (wordBit m j)) ∧ ∀ x, g x false = x

theorem bitwiseBy_or : BitwiseBy (· ||| ·) (· || ·) :=
  ⟨wordBit_or, Bool.or_false⟩

theorem bitwiseBy_andNot : BitwiseBy (fun w m => w &&& ~~~m) (fun x y => x && !y) :=
  ⟨fun w m j => by
    cases hj : decide (j < 64)
    · have : ¬ wordBit w j = true := fun h => by simp [lt_of_wordBit h] at hj
      simp_all
    · simp_all, fun x => by simp⟩

theorem bitwiseBy_xor : BitwiseBy (· ^^^ ·) (· ^^ ·) :=
  ⟨wordBit_xor, Bool.xor_false⟩

variable {op : UInt64 → UInt64 → UInt64} {g : Bool → Bool → Bool}

/-- The bits of the written word: only bit `bit mod 64` can change. -/
theorem wordBit_updateBitWord (hop : BitwiseBy op g) (bit : Nat) (w : UInt64) (j : Nat) :
    wordBit (op w (1 <<< (bit % 64).toUInt64)) j =
      if j = bit % 64 then g (wordBit w j) true else wordBit w j := by
  rw [hop.1, wordBit_shiftLeft_one (Nat.mod_lt _ (by decide))]
  split <;> simp_all [hop.2]

/-- A single-bit write below `n_bits` keeps the bits past it zero. -/
theorem valid_updateBitWord (hop : BitwiseBy op g) (hv : map.Valid) {bit : Nat}
    (hb : bit < map.nBits) : (updateBitWord op map bit).Valid := by
  refine ⟨hv.nBits_pos, by simpa using hv.length_eq, hv.lastWordPtr_eq, hv.lastBitMask_eq, ?_⟩
  simp only [updateBitWord_lastWordPtr, updateBitWord_lastBitMask,
    word_updateBitWord op bit hv.lastWordPtr_lt]
  refine (eq_zero_iff _).mpr fun j _ => ?_
  rw [wordBit_and]
  cases hm : wordBit map.lastBitMask j
  · exact Bool.and_false _
  · -- a masked bit is not the written one, so it keeps its value, which is zero
    have hold := hv.unused_bit hm
    split
    · have hj : j ≠ bit % 64 := fun hj => by
        rw [hj, hv.lastBitMask_bit_of_lt hb (by omega)] at hm
        exact Bool.false_ne_true hm
      rw [wordBit_updateBitWord hop, if_neg hj, hold, Bool.false_and]
    · rw [hold, Bool.false_and]

/-- A single-bit write changes bit `bit` by `g _ true` and no other. -/
theorem bitmapIsSet_updateBitWord (hop : BitwiseBy op g) (hv : map.Valid) (bit : Nat) {i : Nat}
    (hi : i < map.nBits) :
    bitmapIsSet (updateBitWord op map bit) i =
      if i = bit then g (bitmapIsSet map i) true else bitmapIsSet map i := by
  rw [bitmapIsSet_eq, bitmapIsSet_eq, word_updateBitWord op bit (hv.div_lt_length hi)]
  by_cases hk : bit / 64 = i / 64
  · rw [if_pos hk, wordBit_updateBitWord hop]
    by_cases hib : i = bit
    · subst hib
      simp
    · have hj : i % 64 ≠ bit % 64 := fun hj => hib (by omega)
      simp [hib, hj]
  · have hib : i ≠ bit := fun hib => hk (by rw [hib])
    simp [hk, hib]

theorem mem_toSet_updateBitWord (hop : BitwiseBy op g) (hv : map.Valid) (bit : Nat) {i : Nat} :
    i ∈ (updateBitWord op map bit).toSet ↔
      i < map.nBits ∧ (if i = bit then g (bitmapIsSet map i) true else bitmapIsSet map i) = true := by
  show _ ∧ _ ↔ _
  rw [updateBitWord_nBits]
  exact and_congr_right fun hi => by rw [bitmapIsSet_updateBitWord hop hv bit hi]

theorem toSet_bitmapSetBit (hv : map.Valid) (bit : Nat) :
    (bitmapSetBit map bit).toSet = if bit < map.nBits then insert bit map.toSet else map.toSet := by
  ext i
  rw [bitmapSetBit, mem_toSet_updateBitWord bitwiseBy_or hv]
  by_cases hib : i = bit
  · subst hib
    by_cases hi : i < map.nBits <;> simp [hi, mem_toSet_iff_word, bitmapIsSet_eq]
  · simp only [hib, if_false]
    split <;> simp [hib, toSet]

theorem toSet_bitmapClearBit (hv : map.Valid) (bit : Nat) :
    (bitmapClearBit map bit).toSet = map.toSet \ {bit} := by
  ext i
  rw [bitmapClearBit, mem_toSet_updateBitWord bitwiseBy_andNot hv]
  by_cases hib : i = bit <;> simp [hib, toSet]

theorem toSet_bitmapFlipBit (hv : map.Valid) (bit : Nat) :
    (bitmapFlipBit map bit).toSet =
      if bit < map.nBits then symmDiff map.toSet {bit} else map.toSet := by
  ext i
  rw [bitmapFlipBit, mem_toSet_updateBitWord bitwiseBy_xor hv]
  by_cases hib : i = bit
  · subst hib
    by_cases hi : i < map.nBits <;> simp [hi, toSet, Set.mem_symmDiff]
  · simp only [hib, if_false]
    split <;> simp [hib, toSet, Set.mem_symmDiff]

/-- `bitmap_set_all` writes all ones before the last word and `~last_bit_mask` into it. -/
theorem word_bitmapSetAll (hv : map.Valid) {k : Nat} (hk : k ≤ map.lastWordPtr) :
    (bitmapSetAll map).word k = if k = map.lastWordPtr then ~~~map.lastBitMask else ~~~0 := by
  have hL := hv.lastWordPtr_eq
  have hlen := hv.length_eq
  have hlt := hv.lastWordPtr_lt
  rw [bitmapSetAll, if_pos (Nat.pos_iff_ne_zero.mp hv.nBits_pos)]
  simp only [MyBitmap.word]
  rw [getD_set_of_lt _ _ _ (by simp; omega)]
  by_cases hkL : k = map.lastWordPtr
  · simp [hkL]
  · have hk' : k < noWordsInMap map.nBits - 1 := by omega
    rw [if_neg (Ne.symm hkL), if_neg hkL]
    simp [List.getD_eq_getElem?_getD, List.getElem?_append, hk']

@[simp] theorem bitmapSetAll_nBits : (bitmapSetAll map).nBits = map.nBits := by
  unfold bitmapSetAll; split <;> rfl

@[simp] theorem bitmapSetAll_lastWordPtr : (bitmapSetAll map).lastWordPtr = map.lastWordPtr := by
  unfold bitmapSetAll; split <;> rfl

@[simp] theorem bitmapSetAll_lastBitMask : (bitmapSetAll map).lastBitMask = map.lastBitMask := by
  unfold bitmapSetAll; split <;> rfl

theorem valid_bitmapSetAll (hv : map.Valid) : (bitmapSetAll map).Valid := by
  have hlen : (bitmapSetAll map).bitmap.length = map.bitmap.length := by
    have hL := hv.lastWordPtr_eq
    have := hv.length_eq
    rw [bitmapSetAll, if_pos (Nat.pos_iff_ne_zero.mp hv.nBits_pos)]
    simp
    omega
  refine ⟨by simpa using hv.nBits_pos, by simpa [hlen] using hv.length_eq,
    by simpa using hv.lastWordPtr_eq, by simpa using hv.lastBitMask_eq, ?_⟩
  rw [bitmapSetAll_lastWordPtr, bitmapSetAll_lastBitMask, word_bitmapSetAll hv le_rfl, if_pos rfl]
  exact (eq_zero_iff _).mpr fun j _ => by cases wordBit map.lastBitMask j <;> simp

theorem toSet_bitmapSetAll (hv : map.Valid) : (bitmapSetAll map).toSet = Set.Iio map.nBits := by
  rw [← bitmapSetAll_nBits, toSet_eq_Iio_iff, bitmapSetAll_nBits,
    hv.forall_lt_nBits_iff fun k j => wordBit ((bitmapSetAll map).word k) j = true]
  refine ⟨fun k hk j hj => ?_, fun j hj hm => ?_⟩
  · rw [word_bitmapSetAll hv hk.le, if_neg (Nat.ne_of_lt hk)]
    simp [hj]
  · rw [word_bitmapSetAll hv le_rfl, if_pos rfl]
    simp [hj, hm]

/-- `bitmap_clear_all` zeroes the map's words. -/
theorem word_bitmapClearAll {k : Nat} (hk : k < noWordsInMap map.nBits) :
    (bitmapClearAll map).word k = 0 := by
  simp [bitmapClearAll, MyBitmap.word, List.getD_eq_getElem?_getD, List.getElem?_append, hk]

@[simp] theorem bitmapClearAll_nBits : (bitmapClearAll map).nBits = map.nBits := rfl

@[simp] theorem bitmapClearAll_lastWordPtr :
    (bitmapClearAll map).lastWordPtr = map.lastWordPtr := rfl

@[simp] theorem bitmapClearAll_lastBitMask :
    (bitmapClearAll map).lastBitMask = map.lastBitMask := rfl

theorem valid_bitmapClearAll (hv : map.Valid) : (bitmapClearAll map).Valid := by
  have hL := hv.lastWordPtr_eq
  have hlt := hv.lastWordPtr_lt
  have hlen := hv.length_eq
  refine ⟨hv.nBits_pos, ?_, hv.lastWordPtr_eq, hv.lastBitMask_eq, ?_⟩
  · simp [bitmapClearAll, hv.length_eq]
  · show (bitmapClearAll map).word map.lastWordPtr &&& map.lastBitMask = 0
    rw [word_bitmapClearAll (by omega), UInt64.zero_and]

theorem toSet_bitmapClearAll : (bitmapClearAll map).toSet = ∅ := by
  rw [toSet_eq_empty_iff, bitmapClearAll_nBits]
  intro i hi
  rw [word_bitmapClearAll (by show i / 64 < (map.nBits + 63) / 64; omega), wordBit_zero]

/-! ## `my_bitmap_init` -/

@[simp] theorem createLastBitMask_nBits : (createLastBitMask map).nBits = map.nBits := by
  rw [createLastBitMask]; dsimp only; split <;> rfl

@[simp] theorem createLastBitMask_lastWordPtr :
    (createLastBitMask map).lastWordPtr = max (noWordsInMap map.nBits) 1 - 1 := by
  rw [createLastBitMask]; dsimp only; split <;> rfl

@[simp] theorem createLastBitMask_lastBitMask :
    (createLastBitMask map).lastBitMask = lastBitMask map.nBits := by
  rw [createLastBitMask]; dsimp only; split <;> rfl

@[simp] theorem length_createLastBitMask :
    (createLastBitMask map).bitmap.length = map.bitmap.length := by
  rw [createLastBitMask]; dsimp only; split <;> simp

/-- `my_bitmap_init` on a buffer of `no_words_in_map(n_bits)` words gives a valid map. -/
theorem valid_myBitmapInit {buf : List UInt64} {nBits : Nat} (hn : 0 < nBits)
    (hbuf : buf.length = noWordsInMap nBits) : (myBitmapInit buf nBits).Valid := by
  have hw : 1 ≤ noWordsInMap nBits := by
    rw [noWordsInMap, myBitmapMapBits]
    omega
  have hL : max (noWordsInMap nBits) 1 - 1 = noWordsInMap nBits - 1 := by omega
  rw [myBitmapInit]
  refine ⟨by simpa using hn, ?_, by simpa using hL, by simp, ?_⟩
  · simp [bitmapClearAll, hbuf]
  · rw [word_bitmapClearAll (by simp; omega), UInt64.zero_and]

@[simp] theorem myBitmapInit_nBits (buf : List UInt64) (nBits : Nat) :
    (myBitmapInit buf nBits).nBits = nBits := by
  simp [myBitmapInit]

theorem toSet_myBitmapInit (buf : List UInt64) (nBits : Nat) :
    (myBitmapInit buf nBits).toSet = ∅ :=
  toSet_bitmapClearAll

end Update

/-- A map of one bit, set in the first map and clear in the second: their union is the whole
    range and `bitmap_is_set_all` says the first map alone is full, but
    `bitmap_union_is_set_all` answers FALSE. -/
theorem bitmap_union_is_set_all_inverted :
    (bitmapSetBit (myBitmapInit [0] 1) 0).toSet ∪ (myBitmapInit [0] 1).toSet = Set.Iio 1 ∧
      bitmapIsSetAll (bitmapSetBit (myBitmapInit [0] 1) 0) = true ∧
      bitmapUnionIsSetAll (bitmapSetBit (myBitmapInit [0] 1) 0) (myBitmapInit [0] 1) = false := by
  have hv : (myBitmapInit [0] 1).Valid := valid_myBitmapInit (by decide) rfl
  refine ⟨?_, by decide, by decide⟩
  rw [toSet_bitmapSetBit hv, toSet_myBitmapInit, myBitmapInit_nBits, if_pos Nat.one_pos]
  ext i
  simp [Nat.lt_one_iff]

/-! ## Runs of writes -/

/-- A write a client makes on a map. -/
inductive BitmapOp where
  | setBit (bit : Nat)
  | clearBit (bit : Nat)
  | flipBit (bit : Nat)
  | setAll
  | clearAll
  deriving Repr, DecidableEq

namespace BitmapOp

/-- The call that makes the write. -/
def apply : BitmapOp → MyBitmap → MyBitmap
  | setBit bit, map => bitmapSetBit map bit
  | clearBit bit, map => bitmapClearBit map bit
  | flipBit bit, map => bitmapFlipBit map bit
  | setAll, map => bitmapSetAll map
  | clearAll, map => bitmapClearAll map

/-- What the write does to the set of a map of `n` bits. -/
def onSet (n : Nat) : BitmapOp → Set Nat → Set Nat
  | setBit bit, s => insert bit s
  | clearBit bit, s => s \ {bit}
  | flipBit bit, s => symmDiff s {bit}
  | setAll, _ => Set.Iio n
  | clearAll, _ => ∅

/-- The `DBUG_ASSERT(bit < map->n_bits)` of the single-bit calls. -/
def InRange (n : Nat) : BitmapOp → Prop
  | setBit bit | clearBit bit | flipBit bit => bit < n
  | setAll | clearAll => True

/-- One write keeps the map valid and of its size, and does to its set what `onSet` says. -/
theorem step {map : MyBitmap} (hv : map.Valid) {op : BitmapOp} (hop : op.InRange map.nBits) :
    (op.apply map).Valid ∧ (op.apply map).nBits = map.nBits ∧
      (op.apply map).toSet = op.onSet map.nBits map.toSet := by
  cases op with
  | setBit bit =>
    refine ⟨valid_updateBitWord bitwiseBy_or hv hop, rfl, ?_⟩
    rw [apply, toSet_bitmapSetBit hv, if_pos (show bit < map.nBits from hop), onSet]
  | clearBit bit =>
    exact ⟨valid_updateBitWord bitwiseBy_andNot hv hop, rfl, toSet_bitmapClearBit hv bit⟩
  | flipBit bit =>
    refine ⟨valid_updateBitWord bitwiseBy_xor hv hop, rfl, ?_⟩
    rw [apply, toSet_bitmapFlipBit hv, if_pos (show bit < map.nBits from hop), onSet]
  | setAll => exact ⟨valid_bitmapSetAll hv, bitmapSetAll_nBits, toSet_bitmapSetAll hv⟩
  | clearAll => exact ⟨valid_bitmapClearAll hv, rfl, toSet_bitmapClearAll⟩

end BitmapOp

/-- The map after a run of writes. -/
def runOps (ops : List BitmapOp) (map : MyBitmap) : MyBitmap :=
  ops.foldl (fun m op => op.apply m) map

/-- Every run of writes in range from a valid map keeps it valid, of its size, and with the
    set the writes make of the set it started from. -/
theorem runOps_spec : ∀ (ops : List BitmapOp) {map : MyBitmap}, map.Valid →
    (∀ op ∈ ops, op.InRange map.nBits) →
      (runOps ops map).Valid ∧ (runOps ops map).nBits = map.nBits ∧
        (runOps ops map).toSet = ops.foldl (fun s op => op.onSet map.nBits s) map.toSet
  | [], _, hv, _ => ⟨hv, rfl, rfl⟩
  | op :: ops, map, hv, hops => by
    obtain ⟨hv', hn, hs⟩ := BitmapOp.step hv (hops op List.mem_cons_self)
    obtain ⟨hvr, hnr, hsr⟩ :=
      runOps_spec ops hv' fun o ho => hn ▸ hops o (List.mem_cons_of_mem _ ho)
    refine ⟨hvr, hnr.trans hn, ?_⟩
    rw [runOps, List.foldl_cons, List.foldl_cons, ← hs, ← hn]
    exact hsr

/-- Every map reached from `my_bitmap_init` by writes in range keeps its unused bits zero and
    holds the set the writes make of the empty one. -/
theorem myBitmapInit_runOps {buf : List UInt64} {nBits : Nat} (hn : 0 < nBits)
    (hbuf : buf.length = noWordsInMap nBits) (ops : List BitmapOp)
    (hops : ∀ op ∈ ops, op.InRange nBits) :
    (runOps ops (myBitmapInit buf nBits)).Valid ∧
      (runOps ops (myBitmapInit buf nBits)).toSet = ops.foldl (fun s op => op.onSet nBits s) ∅ := by
  have hops' : ∀ op ∈ ops, op.InRange (myBitmapInit buf nBits).nBits := by
    rw [myBitmapInit_nBits]
    exact hops
  obtain ⟨hv, -, hs⟩ := runOps_spec ops (valid_myBitmapInit hn hbuf) hops'
  exact ⟨hv, by rw [hs, toSet_myBitmapInit, myBitmapInit_nBits]⟩

end MariaDB.Mysys
