import MariaDB.Mysys.BitmapScan
import Mathlib

/-
  The writes of mysys/my_bitmap.c that change many words: `bitmap_set_prefix`,
  `bitmap_invert`, `bitmap_intersect`, `bitmap_subtract`, `bitmap_union`, `bitmap_xor`,
  `bitmap_copy`, and the single-bit calls that also answer: `bitmap_test_and_set`,
  `bitmap_test_and_clear` and `bitmap_set_next`.

  Model. Every loop `while (to < end) *to++ op= ...` is `writeWords lo hi f`, which rewrites
  the words from `lo` below `hi`, and a single `*to op= ...` is `writeWord k f`. The calls
  that take a second map read its words; `bitmap_intersect`, `bitmap_union` and `bitmap_copy`
  allow it to have another size (`DBUG_ASSERT_DIFFERENT_BITMAPS`), `bitmap_subtract` and
  `bitmap_xor` assert the same size (`DBUG_ASSERT_IDENTICAL_BITMAPS`).

  Every proof goes through `valid_of_bits`: a map with the fields of a valid map whose words
  up to `last_word_ptr` hold exactly the bits of a set `s` below `n_bits` is valid and stands
  for `s`. So a write is proved by computing bit `j` of each word it leaves.

  Proved, for valid maps:
  * `bitmapSetPrefix_spec`: the first `min prefix_size n_bits` bits;
  * `bitmapInvert_spec`: the complement below `n_bits`;
  * `bitmapIntersect_spec`: the intersection, for any size of the second map;
  * `bitmapSubtract_spec`, `bitmapXor_spec`: difference and symmetric difference;
  * `bitmapUnion_spec`: the union with the part of the second set below `n_bits`;
  * `bitmapCopy_spec`: the second set below `n_bits`, and above the second map's size the
    bits the map had (the tail is left unchanged when the source is shorter);
  * `bitmapTestAndSet_spec`, `bitmapTestAndClear_spec`, `bitmapSetNext_spec`: the old bit or
    the first clear bit, and the set with it added or removed.
-/

namespace MariaDB.Mysys

open MariaDB.Lib MyBitmap

/-- The loops `while (to < end) *to++ op= ...`: words `lo` to `hi - 1` become `f k` of what
    they held. -/
def writeWords (lo hi : Nat) (f : Nat → UInt64 → UInt64) (map : MyBitmap) : MyBitmap :=
  { map with bitmap := map.bitmap.mapIdx fun k w => if lo ≤ k ∧ k < hi then f k w else w }

/-- One word rewritten: `*to op= ...`. -/
def writeWord (k : Nat) (f : UInt64 → UInt64) (map : MyBitmap) : MyBitmap :=
  { map with bitmap := map.bitmap.modify k f }

/-- `bitmap_set_prefix`: `prefix_size` is cut to `n_bits`; the words below
    `prefix_size / 64` get all ones, the next `(1 << prefix_bits) - 1` if `prefix_bits` is not
    0, and the rest up to `last_word_ptr` zero. -/
def bitmapSetPrefix (map : MyBitmap) (prefixSize : Nat) : MyBitmap :=
  let prefixSize := min prefixSize map.nBits
  let prefixWords := prefixSize / myBitmapMapBits
  let prefixBits := prefixSize &&& (myBitmapMapBits - 1)
  let map := writeWords 0 prefixWords (fun _ _ => ~~~0) map
  if prefixBits ≠ 0 then
    writeWords (prefixWords + 1) (map.lastWordPtr + 1) (fun _ _ => 0)
      (writeWord prefixWords (fun _ => (1 <<< prefixBits.toUInt64) - 1) map)
  else writeWords prefixWords (map.lastWordPtr + 1) (fun _ _ => 0) map

/-- `bitmap_invert`: the words before `last_word_ptr` flipped, the last one outside
    `last_bit_mask`. -/
def bitmapInvert (map : MyBitmap) : MyBitmap :=
  writeWord map.lastWordPtr (· ^^^ (~~~0 &&& ~~~map.lastBitMask))
    (writeWords 0 map.lastWordPtr (fun _ w => w ^^^ ~~~0) map)

/-- `bitmap_intersect`: the words both maps have are and-ed; if `map2` is not longer, its last
    word is taken without its bits past its end (`to[-1] &= ~map2->last_bit_mask`) and the
    words of `map` past it are zeroed. -/
def bitmapIntersect (map map2 : MyBitmap) : MyBitmap :=
  let len := noWordsInMap map.nBits
  let len2 := noWordsInMap map2.nBits
  let map := writeWords 0 (min len len2) (fun k w => w &&& map2.word k) map
  if len2 ≤ len then
    writeWords len2 len (fun _ _ => 0) (writeWord (len2 - 1) (· &&& ~~~map2.lastBitMask) map)
  else map

/-- `bitmap_subtract`: to `last_word_ptr` inclusive. -/
def bitmapSubtract (map map2 : MyBitmap) : MyBitmap :=
  writeWords 0 (map.lastWordPtr + 1) (fun k w => w &&& ~~~map2.word k) map

/-- `bitmap_union`: the words before the last one the maps share are or-ed; into that last
    one go the bits of `map2` below `num_bits`, the smaller size. -/
def bitmapUnion (map map2 : MyBitmap) : MyBitmap :=
  let len := noWordsInMap map.nBits
  let len2 := noWordsInMap map2.nBits
  let numBits := min map.nBits map2.nBits
  let e := min len len2 - 1
  writeWord e (· ||| (map2.word e &&& ~~~lastBitMask numBits))
    (writeWords 0 e (fun k w => w ||| map2.word k) map)

/-- `bitmap_xor`: to `last_word_ptr` inclusive. -/
def bitmapXor (map map2 : MyBitmap) : MyBitmap :=
  writeWords 0 (map.lastWordPtr + 1) (fun k w => w ^^^ map2.word k) map

/-- `bitmap_copy`: the words before `MY_MIN(len, len2 - 1)` are copied; if `map2` is not
    longer, its last word's bits below its end replace those of the word there; then the last
    word of `map` is cut at `n_bits`. -/
def bitmapCopy (map map2 : MyBitmap) : MyBitmap :=
  let len := noWordsInMap map.nBits
  let len2 := noWordsInMap map2.nBits
  let e := min len (len2 - 1)
  let map := writeWords 0 e (fun k _ => map2.word k) map
  let map := if len2 ≤ len then
      writeWord e (fun w => (map2.word e &&& ~~~map2.lastBitMask) ||| (w &&& map2.lastBitMask)) map
    else map
  writeWord map.lastWordPtr (· &&& ~~~map.lastBitMask) map

/-- `bitmap_fast_test_and_set`: whether the bit was set, and the map with `*value |= bit`,
    the write of `bitmap_set_bit`. -/
def bitmapFastTestAndSet (map : MyBitmap) (bitmapBit : Nat) : Bool × MyBitmap :=
  let bit : UInt64 := 1 <<< (bitmapBit &&& (myBitmapMapBits - 1)).toUInt64
  let res := map.word (bitmapBit / myBitmapMapBits) &&& bit
  (res != 0, bitmapSetBit map bitmapBit)

/-- `bitmap_test_and_set`. -/
def bitmapTestAndSet (map : MyBitmap) (bitmapBit : Nat) : Bool × MyBitmap :=
  bitmapFastTestAndSet map bitmapBit

/-- `bitmap_fast_test_and_clear`: whether the bit was set, and the map with
    `*value &= ~bit`, the write of `bitmap_clear_bit`. -/
def bitmapFastTestAndClear (map : MyBitmap) (bitmapBit : Nat) : Bool × MyBitmap :=
  let bit : UInt64 := 1 <<< (bitmapBit &&& (myBitmapMapBits - 1)).toUInt64
  let res := map.word (bitmapBit / myBitmapMapBits) &&& bit
  (res != 0, bitmapClearBit map bitmapBit)

/-- `bitmap_test_and_clear`. -/
def bitmapTestAndClear (map : MyBitmap) (bitmapBit : Nat) : Bool × MyBitmap :=
  bitmapFastTestAndClear map bitmapBit

/-- `bitmap_set_next`: the first clear bit, set, or `MY_BIT_NONE` and the map unchanged. -/
def bitmapSetNext (map : MyBitmap) : Nat × MyBitmap :=
  let bitFound := bitmapGetFirstClear map
  if bitFound ≠ myBitNone then (bitFound, bitmapSetBit map bitFound) else (bitFound, map)

/-! ## Word writes -/

section Words

variable {map : MyBitmap}

@[simp] theorem writeWords_nBits (lo hi : Nat) (f : Nat → UInt64 → UInt64) :
    (writeWords lo hi f map).nBits = map.nBits := rfl

@[simp] theorem writeWords_lastWordPtr (lo hi : Nat) (f : Nat → UInt64 → UInt64) :
    (writeWords lo hi f map).lastWordPtr = map.lastWordPtr := rfl

@[simp] theorem writeWords_lastBitMask (lo hi : Nat) (f : Nat → UInt64 → UInt64) :
    (writeWords lo hi f map).lastBitMask = map.lastBitMask := rfl

@[simp] theorem length_writeWords (lo hi : Nat) (f : Nat → UInt64 → UInt64) :
    (writeWords lo hi f map).bitmap.length = map.bitmap.length := List.length_mapIdx

@[simp] theorem writeWord_nBits (k : Nat) (f : UInt64 → UInt64) :
    (writeWord k f map).nBits = map.nBits := rfl

@[simp] theorem writeWord_lastWordPtr (k : Nat) (f : UInt64 → UInt64) :
    (writeWord k f map).lastWordPtr = map.lastWordPtr := rfl

@[simp] theorem writeWord_lastBitMask (k : Nat) (f : UInt64 → UInt64) :
    (writeWord k f map).lastBitMask = map.lastBitMask := rfl

@[simp] theorem length_writeWord (k : Nat) (f : UInt64 → UInt64) :
    (writeWord k f map).bitmap.length = map.bitmap.length := List.length_modify _ _ _

theorem word_writeWords (lo hi : Nat) (f : Nat → UInt64 → UInt64) {k : Nat}
    (hk : k < map.bitmap.length) :
    (writeWords lo hi f map).word k = if lo ≤ k ∧ k < hi then f k (map.word k) else map.word k := by
  simp only [writeWords, MyBitmap.word, List.getD_eq_getElem?_getD, List.getElem?_mapIdx,
    List.getElem?_eq_getElem hk, Option.map_some, Option.getD_some]

theorem word_writeWord (i : Nat) (f : UInt64 → UInt64) {k : Nat} (hk : k < map.bitmap.length) :
    (writeWord i f map).word k = if i = k then f (map.word k) else map.word k :=
  getD_modify_of_lt _ _ _ hk 0

/-- `map'` has the buffer length and the fields of `map`: the writes change words only. -/
structure SameShape (map' map : MyBitmap) : Prop where
  length_eq : map'.bitmap.length = map.bitmap.length
  lastWordPtr_eq : map'.lastWordPtr = map.lastWordPtr
  lastBitMask_eq : map'.lastBitMask = map.lastBitMask
  nBits_eq : map'.nBits = map.nBits

theorem SameShape.rfl : SameShape map map := ⟨Eq.refl _, Eq.refl _, Eq.refl _, Eq.refl _⟩

theorem SameShape.writeWords {map' : MyBitmap} {lo hi : Nat} {f : Nat → UInt64 → UInt64}
    (h : SameShape map' map) : SameShape (writeWords lo hi f map') map :=
  ⟨by rw [length_writeWords, h.length_eq], h.lastWordPtr_eq, h.lastBitMask_eq, h.nBits_eq⟩

theorem SameShape.writeWord {map' : MyBitmap} {k : Nat} {f : UInt64 → UInt64}
    (h : SameShape map' map) : SameShape (writeWord k f map') map :=
  ⟨by rw [length_writeWord, h.length_eq], h.lastWordPtr_eq, h.lastBitMask_eq, h.nBits_eq⟩

/-- A map of the shape of a valid map, whose words up to `last_word_ptr` hold exactly the
    bits of a set `s` below `n_bits`, is valid and stands for `s`. -/
theorem valid_of_bits (hv : map.Valid) {map' : MyBitmap} (hsh : SameShape map' map)
    {s : Set Nat} (hs : s ⊆ Set.Iio map.nBits)
    (hbits : ∀ k ≤ map.lastWordPtr, ∀ j < 64,
      (wordBit (map'.word k) j = true ↔ 64 * k + j ∈ s)) :
    map'.Valid ∧ map'.toSet = s := by
  obtain ⟨hlen, hptr, hmask, hn⟩ := hsh
  have hL : map.lastWordPtr = (map.nBits + 63) / 64 - 1 := hv.lastWordPtr_eq
  have hv' : map'.Valid := by
    refine ⟨hn ▸ hv.nBits_pos, by rw [hlen, hn, hv.length_eq], by rw [hptr, hn, hv.lastWordPtr_eq],
      by rw [hmask, hn, hv.lastBitMask_eq], ?_⟩
    -- a bit of the last word in `last_bit_mask` stands at or past `n_bits`, outside `s`
    refine (eq_zero_iff _).mpr fun j hj => ?_
    rw [wordBit_and, hptr, hmask]
    cases hm : wordBit map.lastBitMask j
    · exact Bool.and_false _
    · rw [hv.lastBitMask_bit_iff hj] at hm
      rw [Bool.and_true, Bool.eq_false_iff, ne_eq, hbits _ le_rfl j hj]
      intro hmem
      have := hs hmem
      simp only [Set.mem_Iio] at this
      omega
  refine ⟨hv', (hv'.toSet_eq_iff (hn ▸ hs)).mpr ?_⟩
  rw [hptr]
  exact hbits

end Words

/-! ## The writes -/

section Specs

variable {map map2 : MyBitmap}

/-- Words `lo` to `hi - 1` of a write over the whole of a valid map. -/
theorem MyBitmap.Valid.word_writeWords_of_le (hv : map.Valid) (lo hi : Nat) (f : Nat → UInt64 → UInt64)
    {k : Nat} (hk : k ≤ map.lastWordPtr) :
    (writeWords lo hi f map).word k = if lo ≤ k ∧ k < hi then f k (map.word k) else map.word k :=
  word_writeWords lo hi f (by rw [hv.length_eq_succ]; omega)

theorem MyBitmap.Valid.word_writeWord_of_le (hv : map.Valid) (i : Nat) (f : UInt64 → UInt64) {k : Nat}
    (hk : k ≤ map.lastWordPtr) :
    (writeWord i f map).word k = if i = k then f (map.word k) else map.word k :=
  word_writeWord i f (by rw [hv.length_eq_succ]; omega)

theorem MyBitmap.Valid.noWordsInMap_eq (hv : map.Valid) :
    noWordsInMap map.nBits = map.lastWordPtr + 1 := by
  have := hv.nBits_pos
  rw [hv.lastWordPtr_eq, noWordsInMap, myBitmapMapBits]
  omega

/-- Bit `j` of `last_bit_mask(bits)` is set iff bit `j` of the last word of a map of `bits`
    bits stands at or past `bits`. -/
theorem lastBitMask_bit_iff {bits j : Nat} (hb : 0 < bits) (hj : j < 64) :
    wordBit (lastBitMask bits) j = true ↔ bits ≤ 64 * ((bits + 63) / 64 - 1) + j := by
  rw [wordBit_lastBitMask, decide_eq_true_iff]
  omega

/-- `bitmap_set_prefix` writes the words of the first `min prefix_size n_bits` bits. -/
theorem word_bitmapSetPrefix (hv : map.Valid) (prefixSize : Nat) {k : Nat}
    (hk : k ≤ map.lastWordPtr) :
    (bitmapSetPrefix map prefixSize).word k = prefixWord (min prefixSize map.nBits) k := by
  have hL : map.lastWordPtr = (map.nBits + 63) / 64 - 1 := hv.lastWordPtr_eq
  have hlen : ∀ m : MyBitmap, m.bitmap.length = map.bitmap.length → k < m.bitmap.length :=
    fun m hm => by rw [hm, hv.length_eq_succ]; omega
  simp only [bitmapSetPrefix, writeWords_lastWordPtr]
  rw [and_myBitmapMapBits, myBitmapMapBits]
  unfold prefixWord
  by_cases hb : min prefixSize map.nBits % 64 = 0
  · rw [if_neg (not_not.mpr hb), word_writeWords _ _ _ (hlen _ (by simp)),
      word_writeWords _ _ _ (hlen _ rfl)]
    rcases lt_trichotomy k (min prefixSize map.nBits / 64) with h | h | h
    · simp [h, show ¬ min prefixSize map.nBits / 64 ≤ k by omega]
    · -- no partial word: the word at `prefix_size / 64` is zeroed, as `(1 << 0) - 1`
      rw [if_pos ⟨h.ge, by omega⟩, if_neg (by omega : ¬ k < min prefixSize map.nBits / 64),
        if_pos h, hb]
      rfl
    · simp [show ¬ k < min prefixSize map.nBits / 64 by omega, Nat.ne_of_gt h,
        show min prefixSize map.nBits / 64 ≤ k by omega, show k < map.lastWordPtr + 1 by omega]
  · rw [if_pos hb, word_writeWords _ _ _ (hlen _ (by simp)), word_writeWord _ _ (hlen _ (by simp)),
      word_writeWords _ _ _ (hlen _ rfl)]
    rcases lt_trichotomy k (min prefixSize map.nBits / 64) with h | h | h
    · simp [h, show ¬ min prefixSize map.nBits / 64 + 1 ≤ k by omega, Nat.ne_of_gt h]
    · simp [h]
    · simp [show ¬ k < min prefixSize map.nBits / 64 by omega,
        show k ≠ min prefixSize map.nBits / 64 by omega,
        show min prefixSize map.nBits / 64 + 1 ≤ k by omega, show k < map.lastWordPtr + 1 by omega]

theorem sameShape_bitmapSetPrefix (prefixSize : Nat) :
    SameShape (bitmapSetPrefix map prefixSize) map := by
  simp only [bitmapSetPrefix]
  split
  exacts [SameShape.rfl.writeWords.writeWord.writeWords, SameShape.rfl.writeWords.writeWords]

/-- `bitmap_set_prefix` leaves the first `min prefix_size n_bits` bits. -/
theorem bitmapSetPrefix_spec (hv : map.Valid) (prefixSize : Nat) :
    (bitmapSetPrefix map prefixSize).Valid ∧
      (bitmapSetPrefix map prefixSize).toSet = Set.Iio (min prefixSize map.nBits) := by
  refine valid_of_bits hv (sameShape_bitmapSetPrefix prefixSize)
    (Set.Iio_subset_Iio (min_le_right _ _)) fun k hk j hj => ?_
  rw [word_bitmapSetPrefix hv prefixSize hk, wordBit_prefixWord]
  simp [hj]

/-- `bitmap_invert` leaves the bits below `n_bits` that were clear. -/
theorem bitmapInvert_spec (hv : map.Valid) :
    (bitmapInvert map).Valid ∧ (bitmapInvert map).toSet = Set.Iio map.nBits \ map.toSet := by
  refine valid_of_bits hv SameShape.rfl.writeWords.writeWord (fun i hi => hi.1) fun k hk j hj => ?_
  have hL := hv.mul_lastWordPtr_lt
  rw [word_writeWord _ _ (by simp [hv.length_eq_succ]; omega),
    hv.word_writeWords_of_le _ _ _ hk, Set.mem_sdiff, Set.mem_Iio, ← hv.wordBit_iff_mem hj]
  rcases Nat.lt_or_eq_of_le hk with hk | rfl
  · -- a word before the last is flipped whole; its bits stand below `n_bits`
    rw [if_neg (Nat.ne_of_gt hk), if_pos ⟨Nat.zero_le _, hk⟩]
    simp [hj, show 64 * k + j < map.nBits by omega]
  · rw [if_pos rfl, if_neg (by omega)]
    by_cases hm : wordBit map.lastBitMask j = true
    · simp [hm, hv.unused_bit hm, (hv.lastBitMask_bit_iff hj).mp hm]
    · have : 64 * map.lastWordPtr + j < map.nBits := by
        rw [hv.lastBitMask_bit_iff hj] at hm
        omega
      simp [hj, hm, this]

/-- `bitmap_subtract` leaves the difference. -/
theorem bitmapSubtract_spec (hv : map.Valid) (hv2 : map2.Valid) :
    (bitmapSubtract map map2).Valid ∧
      (bitmapSubtract map map2).toSet = map.toSet \ map2.toSet := by
  refine valid_of_bits hv SameShape.rfl.writeWords (fun i hi => hi.1.1) fun k hk j hj => ?_
  rw [hv.word_writeWords_of_le _ _ _ hk, if_pos ⟨Nat.zero_le _, by omega⟩, wordBit_and,
    wordBit_not, Set.mem_sdiff, ← hv.wordBit_iff_mem hj, ← hv2.wordBit_iff_mem hj]
  simp [hj]

/-- `bitmap_xor` of maps of one size leaves the symmetric difference. -/
theorem bitmapXor_spec (hv : map.Valid) (hv2 : map2.Valid) (hn : map2.nBits = map.nBits) :
    (bitmapXor map map2).Valid ∧ (bitmapXor map map2).toSet = symmDiff map.toSet map2.toSet := by
  refine valid_of_bits hv SameShape.rfl.writeWords
    (fun i hi => by rcases hi with hi | hi; exacts [hi.1.1, hn ▸ hi.1.1]) fun k hk j hj => ?_
  rw [hv.word_writeWords_of_le _ _ _ hk, if_pos ⟨Nat.zero_le _, by omega⟩, wordBit_xor,
    Set.mem_symmDiff, ← hv.wordBit_iff_mem hj, ← hv2.wordBit_iff_mem hj]
  cases wordBit (map.word k) j <;> cases wordBit (map2.word k) j <;> simp

theorem sameShape_bitmapIntersect : SameShape (bitmapIntersect map map2) map := by
  simp only [bitmapIntersect]
  split
  exacts [SameShape.rfl.writeWords.writeWord.writeWords, SameShape.rfl.writeWords]

/-- `bitmap_intersect` leaves the intersection, whatever the size of the second map. -/
theorem bitmapIntersect_spec (hv : map.Valid) (hv2 : map2.Valid) :
    (bitmapIntersect map map2).Valid ∧
      (bitmapIntersect map map2).toSet = map.toSet ∩ map2.toSet := by
  have hw := hv.noWordsInMap_eq
  have hw2 := hv2.noWordsInMap_eq
  refine valid_of_bits hv sameShape_bitmapIntersect (fun i hi => hi.1.1) fun k hk j hj => ?_
  have hlen := hv.length_eq_succ
  rw [Set.mem_inter_iff, ← hv.wordBit_iff_mem hj, ← hv2.wordBit_iff_mem hj]
  simp only [bitmapIntersect, hw, hw2]
  split
  · rename_i h2
    rw [word_writeWords _ _ _ (by simp; omega), word_writeWord _ _ (by simp; omega),
      hv.word_writeWords_of_le _ _ _ hk]
    rcases lt_trichotomy k map2.lastWordPtr with h | rfl | h
    · simp [show ¬ map2.lastWordPtr + 1 ≤ k by omega, show map2.lastWordPtr ≠ k by omega, hk,
        h.le]
    · -- the last word of `map2` loses its bits past `map2`'s end, which are zero already
      simp only [show ¬ map2.lastWordPtr + 1 ≤ map2.lastWordPtr by omega, false_and, if_false,
        show map2.lastWordPtr + 1 - 1 = map2.lastWordPtr by omega, if_true, Nat.zero_le, true_and,
        show map2.lastWordPtr < min (map.lastWordPtr + 1) (map2.lastWordPtr + 1) by omega,
        wordBit_and, wordBit_not, decide_eq_true hj, Bool.true_and, Bool.and_eq_true]
      cases hm : wordBit map2.lastBitMask j
      · simp
      · simp [hv2.unused_bit hm]
    · -- past `map2`'s end: zeroed, and no bit of `map2` there
      simp [show map2.lastWordPtr + 1 ≤ k by omega, show k < map.lastWordPtr + 1 by omega,
        hv2.word_eq_zero h]
  · rw [hv.word_writeWords_of_le _ _ _ hk,
      if_pos ⟨Nat.zero_le _, by omega⟩, wordBit_and, Bool.and_eq_true]

/-- `bitmap_union` leaves the union with the part of the second set below `n_bits`, whatever
    the size of the second map. -/
theorem bitmapUnion_spec (hv : map.Valid) (hv2 : map2.Valid) :
    (bitmapUnion map map2).Valid ∧
      (bitmapUnion map map2).toSet = map.toSet ∪ (map2.toSet ∩ Set.Iio map.nBits) := by
  have hw := hv.noWordsInMap_eq
  have hw2 := hv2.noWordsInMap_eq
  have hL : map.lastWordPtr = (map.nBits + 63) / 64 - 1 := hv.lastWordPtr_eq
  have hL2 : map2.lastWordPtr = (map2.nBits + 63) / 64 - 1 := hv2.lastWordPtr_eq
  have hpos := hv.nBits_pos
  have hpos2 := hv2.nBits_pos
  have hm1 := hv.mul_lastWordPtr_lt
  refine valid_of_bits hv SameShape.rfl.writeWords.writeWord
    (fun i hi => by rcases hi with hi | hi; exacts [hi.1, hi.2]) fun k hk j hj => ?_
  have hlen := hv.length_eq_succ
  rw [hw, hw2, word_writeWord _ _ (by simp; omega), hv.word_writeWords_of_le _ _ _ hk,
    Set.mem_union, Set.mem_inter_iff, Set.mem_Iio, ← hv.wordBit_iff_mem hj,
    ← hv2.wordBit_iff_mem hj]
  have he : min (map.lastWordPtr + 1) (map2.lastWordPtr + 1) - 1 = min map.lastWordPtr map2.lastWordPtr := by
    omega
  rw [he]
  rcases lt_trichotomy k (min map.lastWordPtr map2.lastWordPtr) with h | h | h
  · -- a word both maps fill: or-ed; its bits stand below `n_bits`
    simp [Nat.ne_of_gt h, h, show 64 * k + j < map.nBits by omega]
  · -- the last word they share: the bits of `map2` below the smaller size
    subst h
    have hmask : wordBit (lastBitMask (min map.nBits map2.nBits)) j = true ↔
        min map.nBits map2.nBits ≤ 64 * min map.lastWordPtr map2.lastWordPtr + j := by
      rw [lastBitMask_bit_iff (lt_min hpos hpos2) hj]
      omega
    have hB : wordBit (map2.word (min map.lastWordPtr map2.lastWordPtr)) j = true →
        64 * min map.lastWordPtr map2.lastWordPtr + j < map2.nBits :=
      hv2.lt_nBits_of_wordBit
    simp only [if_true, lt_irrefl, and_false, if_false, wordBit_or, wordBit_and,
      wordBit_not, decide_eq_true hj, Bool.true_and, Bool.or_eq_true, Bool.and_eq_true,
      Bool.not_eq_true']
    rw [Bool.eq_false_iff, ne_eq, hmask]
    constructor
    · rintro (h | ⟨h1, h2⟩)
      · exact Or.inl h
      · exact Or.inr ⟨h1, by omega⟩
    · rintro (h | ⟨h1, h2⟩)
      · exact Or.inl h
      · exact Or.inr ⟨h1, by have := hB h1; omega⟩
  · -- past the words of `map2`: `map` keeps its bits, and `map2` has none there
    have hk2 : map2.lastWordPtr < k := by omega
    simp [Nat.ne_of_lt h, show ¬ k < min map.lastWordPtr map2.lastWordPtr by omega,
      hv2.word_eq_zero hk2]

/-- The last step of `bitmap_copy`, `*(map->last_word_ptr) &= ~map->last_bit_mask`: a word
    whose bits below `n_bits` are those of a set `s` (of bits below `n_bits`) holds exactly `s`
    once the last word is cut. -/
theorem bits_cutLastWord (hv : map.Valid) {m : MyBitmap} (hsh : SameShape m map) {s : Set Nat}
    (hs : s ⊆ Set.Iio map.nBits)
    (hpre : ∀ k ≤ map.lastWordPtr, ∀ j < 64, 64 * k + j < map.nBits →
      (wordBit (m.word k) j = true ↔ 64 * k + j ∈ s))
    {k j : Nat} (hk : k ≤ map.lastWordPtr) (hj : j < 64) :
    wordBit ((writeWord m.lastWordPtr (· &&& ~~~m.lastBitMask) m).word k) j = true ↔
      64 * k + j ∈ s := by
  have hL := hv.mul_lastWordPtr_lt
  rw [word_writeWord _ _ (by rw [hsh.length_eq, hv.length_eq_succ]; omega), hsh.lastWordPtr_eq,
    hsh.lastBitMask_eq]
  split
  · rename_i hkL
    subst hkL
    rw [wordBit_and, wordBit_not, decide_eq_true hj, Bool.true_and]
    by_cases hm : wordBit map.lastBitMask j = true
    · have hge := (hv.lastBitMask_bit_iff hj).mp hm
      rw [hm, Bool.not_true, Bool.and_false]
      exact ⟨fun h => absurd h Bool.false_ne_true, fun h => absurd (hs h) (by simp; omega)⟩
    · rw [Bool.not_eq_true] at hm
      rw [hm, Bool.not_false, Bool.and_true]
      exact hpre _ le_rfl j hj (by rw [← Bool.not_eq_true, hv.lastBitMask_bit_iff hj] at hm; omega)
  · rename_i hkL
    exact hpre k hk j hj (by omega)

theorem sameShape_bitmapCopy : SameShape (bitmapCopy map map2) map := by
  simp only [bitmapCopy]
  split
  exacts [SameShape.rfl.writeWords.writeWord.writeWord, SameShape.rfl.writeWords.writeWord]

/-- `bitmap_copy` leaves the second set below `n_bits` and, from the second map's size on,
    the bits the map had: a shorter source leaves the tail of the map unchanged. -/
theorem bitmapCopy_spec (hv : map.Valid) (hv2 : map2.Valid) :
    (bitmapCopy map map2).Valid ∧ (bitmapCopy map map2).toSet =
      (map2.toSet ∩ Set.Iio map.nBits) ∪ (map.toSet \ Set.Iio map2.nBits) := by
  have hw := hv.noWordsInMap_eq
  have hw2 := hv2.noWordsInMap_eq
  have hL := hv.mul_lastWordPtr_lt
  have hL2 := hv2.mul_lastWordPtr_lt
  have hL' : map.lastWordPtr = (map.nBits + 63) / 64 - 1 := hv.lastWordPtr_eq
  have hL2' : map2.lastWordPtr = (map2.nBits + 63) / 64 - 1 := hv2.lastWordPtr_eq
  have hlen := hv.length_eq_succ
  have hs : (map2.toSet ∩ Set.Iio map.nBits) ∪ (map.toSet \ Set.Iio map2.nBits) ⊆
      Set.Iio map.nBits := fun i hi => by rcases hi with hi | hi; exacts [hi.2, hi.1.1]
  simp only [bitmapCopy, hw, hw2]
  split
  · rename_i hc
    have he : min (map.lastWordPtr + 1) (map2.lastWordPtr + 1 - 1) = map2.lastWordPtr := by omega
    rw [he]
    refine valid_of_bits hv SameShape.rfl.writeWords.writeWord.writeWord hs fun k hk j hj =>
      bits_cutLastWord hv SameShape.rfl.writeWords.writeWord hs (fun k hk j hj hkn => ?_) hk hj
    rw [word_writeWord _ _ (by simp; omega), hv.word_writeWords_of_le _ _ _ hk, Set.mem_union,
      Set.mem_inter_iff, Set.mem_sdiff, Set.mem_Iio, Set.mem_Iio, ← hv.wordBit_iff_mem hj,
      ← hv2.wordBit_iff_mem hj]
    rcases lt_trichotomy k map2.lastWordPtr with h | rfl | h
    · -- a word of `map2` before its last: copied, and its bits stand below both sizes
      simp [Nat.ne_of_gt h, h, hkn, show 64 * k + j < map2.nBits by omega]
    · -- the last word of `map2`: its bits below its end, the map's bits past it
      simp only [if_true, lt_irrefl, and_false, if_false, wordBit_or, wordBit_and, wordBit_not,
        decide_eq_true hj, Bool.true_and, Bool.or_eq_true, Bool.and_eq_true, Bool.not_eq_true']
      by_cases hm : wordBit map2.lastBitMask j = true
      · have hge := (hv2.lastBitMask_bit_iff hj).mp hm
        have hB : wordBit (map2.word map2.lastWordPtr) j = false := hv2.unused_bit hm
        simp [hm, hB, hge, hkn]
      · rw [Bool.not_eq_true] at hm
        have hlt : 64 * map2.lastWordPtr + j < map2.nBits := by
          rw [← Bool.not_eq_true, hv2.lastBitMask_bit_iff hj] at hm
          omega
        simp [hm, hlt, hkn]
    · -- past the words of `map2`: the map keeps its bits
      simp [Nat.ne_of_lt h, show ¬ k < map2.lastWordPtr by omega, hv2.word_eq_zero h,
        show map2.nBits ≤ 64 * k + j by omega]
  · rename_i hc
    have he : min (map.lastWordPtr + 1) (map2.lastWordPtr + 1 - 1) = map.lastWordPtr + 1 := by
      omega
    rw [he]
    refine valid_of_bits hv SameShape.rfl.writeWords.writeWord hs fun k hk j hj =>
      bits_cutLastWord hv SameShape.rfl.writeWords hs (fun k hk j hj hkn => ?_) hk hj
    -- `map2` is longer: every word is copied, and every bit below `n_bits` is below its size
    rw [hv.word_writeWords_of_le _ _ _ hk, if_pos ⟨Nat.zero_le _, by omega⟩, Set.mem_union,
      Set.mem_inter_iff, Set.mem_sdiff, Set.mem_Iio, Set.mem_Iio, ← hv2.wordBit_iff_mem hj]
    simp [hkn, show 64 * k + j < map2.nBits by omega]

/-! ## The calls that answer and write -/

/-- The answer of the two test-and-write calls is `bitmap_is_set`. -/
theorem bitmapIsSet_iff_mem (map : MyBitmap) {bit : Nat} (hb : bit < map.nBits) :
    bitmapIsSet map bit = true ↔ bit ∈ map.toSet :=
  ⟨fun h => ⟨hb, h⟩, And.right⟩

/-- `bitmap_test_and_set` answers whether the bit was in the set, and adds it. -/
theorem bitmapTestAndSet_spec (hv : map.Valid) {bit : Nat} (hb : bit < map.nBits) :
    ((bitmapTestAndSet map bit).1 = true ↔ bit ∈ map.toSet) ∧ (bitmapTestAndSet map bit).2.Valid ∧
      (bitmapTestAndSet map bit).2.toSet = insert bit map.toSet := by
  refine ⟨bitmapIsSet_iff_mem map hb, valid_updateBitWord bitwiseBy_or hv hb, ?_⟩
  show (bitmapSetBit map bit).toSet = _
  rw [toSet_bitmapSetBit hv, if_pos hb]

/-- `bitmap_test_and_clear` answers whether the bit was in the set, and removes it. -/
theorem bitmapTestAndClear_spec (hv : map.Valid) {bit : Nat} (hb : bit < map.nBits) :
    ((bitmapTestAndClear map bit).1 = true ↔ bit ∈ map.toSet) ∧
      (bitmapTestAndClear map bit).2.Valid ∧
      (bitmapTestAndClear map bit).2.toSet = map.toSet \ {bit} :=
  ⟨bitmapIsSet_iff_mem map hb, valid_updateBitWord bitwiseBy_andNot hv hb, toSet_bitmapClearBit hv bit⟩

theorem bitmapSetNext_nBits : (bitmapSetNext map).2.nBits = map.nBits := by
  simp only [bitmapSetNext]
  split <;> rfl

/-- `bitmap_set_next` answers the least bit below `n_bits` not in the set, which it adds, or
    `MY_BIT_NONE` when the map is full, and then leaves it unchanged. -/
theorem bitmapSetNext_spec (hv : map.Valid) (hn : map.nBits < 2 ^ 32) :
    (bitmapSetNext map).1 = leastOr (Set.Iio map.nBits \ map.toSet) myBitNone ∧
      (bitmapSetNext map).2.Valid ∧
      (bitmapSetNext map).2.toSet = map.toSet ∪
        ({leastOr (Set.Iio map.nBits \ map.toSet) myBitNone} ∩ Set.Iio map.nBits) := by
  have hfirst := bitmapGetFirstClear_eq hv
  simp only [bitmapSetNext]
  split
  · rename_i hne
    -- the set has a clear bit, so `leastOr` is one, below `n_bits`
    have hC : (Set.Iio map.nBits \ map.toSet).Nonempty := by
      by_contra hC
      rw [Set.not_nonempty_iff_eq_empty] at hC
      rw [hfirst, hC, leastOr_empty] at hne
      exact hne rfl
    have hmin : IsLeast (Set.Iio map.nBits \ map.toSet) (sInf (Set.Iio map.nBits \ map.toSet)) :=
      ⟨Nat.sInf_mem hC, fun i hi => Nat.sInf_le hi⟩
    have hlt : sInf (Set.Iio map.nBits \ map.toSet) < map.nBits := hmin.1.1
    rw [hfirst, leastOr_of_isLeast hmin]
    refine ⟨rfl, valid_updateBitWord bitwiseBy_or hv hlt, ?_⟩
    rw [toSet_bitmapSetBit hv, if_pos hlt,
      Set.singleton_inter_of_mem (show _ ∈ Set.Iio map.nBits from hlt), Set.union_singleton]
  · rename_i hnone
    rw [not_not] at hnone
    refine ⟨hnone ▸ hfirst, hv, ?_⟩
    rw [← hfirst, hnone, Set.singleton_inter_of_notMem (by simp [myBitNone]; omega), Set.union_empty]

end Specs

end MariaDB.Mysys
