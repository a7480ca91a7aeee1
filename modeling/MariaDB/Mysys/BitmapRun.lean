import MariaDB.Mysys.BitmapWrite
import MariaDB.Lib.Machine
import Mathlib

/-
  A map as its clients use it: the calls of mysys/my_bitmap.c and include/my_bitmap.h on one
  `MY_BITMAP`, as one machine that answers, and the set of numbers it stands for.

  Model. `BitmapCall` is a call with its arguments; `BitmapCall.run` makes it on the map and
  gives what it returns (`BitmapReply`: nothing for a `void` call, a `my_bool`, or a `uint`).
  The calls that take a second map take the map itself. `BitmapCall.onSet n` is the same call
  on a set of numbers below `n`, what a bitmap is for: the writes are set operations, the
  scans least and greatest elements (`MY_BIT_NONE` when there is none), `bitmap_bits_set` the
  number of elements, and the tests decide equalities and inclusions of sets.
  `BitmapCall.Allowed n` is what the call's `DBUG_ASSERT`s ask of its arguments on a map of `n`
  bits: a bit below `n_bits`, a valid second map, of the same size where the code asserts
  `DBUG_ASSERT_IDENTICAL_BITMAPS` (and in `bitmap_cmp`).

  Proved:
  * `BitmapCall.simulates`: `Represents n`, "a valid map of `n` bits that holds the set", is a
    forward simulation of the map machine by the set machine, for `n < 2 ^ 32`: from a map that
    holds `s`, an allowed call returns what the set machine answers on `s` and leaves a valid
    map of `n` bits holding the set the set machine leaves. One case per call, each closed by
    the spec lemma of that call;
  * `bitmap_calls_refine_sets`: every run of allowed calls on a map from `my_bitmap_init`
    returns, call by call, the answers of the set machine started from the empty set, and ends
    in a valid map of the set that machine ends in.
-/

namespace MariaDB.Mysys

open MariaDB.Lib MyBitmap

/-- A call on a map, with its arguments. -/
inductive BitmapCall where
  | write (op : BitmapOp)
  | setPrefix (prefixSize : Nat)
  | invert
  | intersect (map2 : MyBitmap)
  | subtract (map2 : MyBitmap)
  | union (map2 : MyBitmap)
  | xor (map2 : MyBitmap)
  | copy (map2 : MyBitmap)
  | testAndSet (bit : Nat)
  | testAndClear (bit : Nat)
  | setNext
  | isSet (bit : Nat)
  | bitsSet
  | getFirstSet
  | getLastSet
  | getNextSet (bit : Nat)
  | getFirstClear
  | isPrefix (prefixSize : Nat)
  | isSetAll
  | isClearAll
  | isSubset (map2 : MyBitmap)
  | isOverlapping (map2 : MyBitmap)
  | cmp (map2 : MyBitmap)
  deriving Repr, DecidableEq

/-- What a call returns: nothing, a `my_bool` (or the `0`/`1` of `bitmap_is_set`), or a
    `uint`. -/
inductive BitmapReply where
  | none
  | flag (b : Bool)
  | uint (v : Nat)
  deriving Repr, DecidableEq

namespace BitmapCall

/-- The call made on the map: what it returns and the map it leaves. -/
def run : BitmapCall → MyBitmap → BitmapReply × MyBitmap
  | write op, map => (.none, op.apply map)
  | setPrefix prefixSize, map => (.none, bitmapSetPrefix map prefixSize)
  | invert, map => (.none, bitmapInvert map)
  | intersect map2, map => (.none, bitmapIntersect map map2)
  | subtract map2, map => (.none, bitmapSubtract map map2)
  | union map2, map => (.none, bitmapUnion map map2)
  | xor map2, map => (.none, bitmapXor map map2)
  | copy map2, map => (.none, bitmapCopy map map2)
  | testAndSet bit, map => (.flag (bitmapTestAndSet map bit).1, (bitmapTestAndSet map bit).2)
  | testAndClear bit, map =>
    (.flag (bitmapTestAndClear map bit).1, (bitmapTestAndClear map bit).2)
  | setNext, map => (.uint (bitmapSetNext map).1, (bitmapSetNext map).2)
  | isSet bit, map => (.flag (bitmapIsSet map bit), map)
  | bitsSet, map => (.uint (bitmapBitsSet map), map)
  | getFirstSet, map => (.uint (bitmapGetFirstSet map), map)
  | getLastSet, map => (.uint (bitmapGetLastSet map), map)
  | getNextSet bit, map => (.uint (bitmapGetNextSet map bit), map)
  | getFirstClear, map => (.uint (bitmapGetFirstClear map), map)
  | isPrefix prefixSize, map => (.flag (bitmapIsPrefix map prefixSize), map)
  | isSetAll, map => (.flag (bitmapIsSetAll map), map)
  | isClearAll, map => (.flag (bitmapIsClearAll map), map)
  | isSubset map2, map => (.flag (bitmapIsSubset map map2), map)
  | isOverlapping map2, map => (.flag (bitmapIsOverlapping map map2), map)
  | cmp map2, map => (.flag (bitmapCmp map map2), map)

open Classical in
/-- The call on a set of numbers below `n`. -/
noncomputable def onSet (n : Nat) : BitmapCall → Set Nat → BitmapReply × Set Nat
  | write op, s => (.none, op.onSet n s)
  | setPrefix prefixSize, _ => (.none, Set.Iio (min prefixSize n))
  | invert, s => (.none, Set.Iio n \ s)
  | intersect map2, s => (.none, s ∩ map2.toSet)
  | subtract map2, s => (.none, s \ map2.toSet)
  | union map2, s => (.none, s ∪ (map2.toSet ∩ Set.Iio n))
  | xor map2, s => (.none, symmDiff s map2.toSet)
  | copy map2, s => (.none, (map2.toSet ∩ Set.Iio n) ∪ (s \ Set.Iio map2.nBits))
  | testAndSet bit, s => (.flag (decide (bit ∈ s)), insert bit s)
  | testAndClear bit, s => (.flag (decide (bit ∈ s)), s \ {bit})
  | setNext, s =>
    (.uint (leastOr (Set.Iio n \ s) myBitNone),
      s ∪ ({leastOr (Set.Iio n \ s) myBitNone} ∩ Set.Iio n))
  | isSet bit, s => (.flag (decide (bit ∈ s)), s)
  | bitsSet, s => (.uint s.ncard, s)
  | getFirstSet, s => (.uint (leastOr s myBitNone), s)
  | getLastSet, s => (.uint (greatestOr s myBitNone), s)
  | getNextSet bit, s => (.uint (leastOr {i | i ∈ s ∧ (bit + 1) % 2 ^ 32 ≤ i} myBitNone), s)
  | getFirstClear, s => (.uint (leastOr (Set.Iio n \ s) myBitNone), s)
  | isPrefix prefixSize, s => (.flag (decide (prefixSize = 0 ∨ s = Set.Iio prefixSize)), s)
  | isSetAll, s => (.flag (decide (s = Set.Iio n)), s)
  | isClearAll, s => (.flag (decide (s = ∅)), s)
  | isSubset map2, s => (.flag (decide (s ⊆ map2.toSet)), s)
  | isOverlapping map2, s => (.flag (decide (s ∩ map2.toSet).Nonempty), s)
  | cmp map2, s => (.flag (decide (s = map2.toSet)), s)

/-- What the call's `DBUG_ASSERT`s ask of its arguments on a map of `n` bits. -/
def Allowed (n : Nat) : BitmapCall → Prop
  | write op => op.InRange n
  | intersect map2 | union map2 | copy map2 => map2.Valid
  | subtract map2 | xor map2 | isSubset map2 | isOverlapping map2 | cmp map2 =>
    map2.Valid ∧ map2.nBits = n
  | testAndSet bit | testAndClear bit | isSet bit => bit < n
  | isPrefix prefixSize => prefixSize ≤ n
  | setPrefix _ | invert | setNext | bitsSet | getFirstSet | getLastSet | getNextSet _
  | getFirstClear | isSetAll | isClearAll => True

end BitmapCall

/-- `map` is a valid map of `n` bits that holds the set `s`. -/
structure Represents (n : Nat) (map : MyBitmap) (s : Set Nat) : Prop where
  valid : map.Valid
  nBits_eq : map.nBits = n
  toSet_eq : map.toSet = s

section Simulation

variable {map : MyBitmap}

/-- A write of the shape of `map` that leaves a valid map of `t`. -/
theorem Represents.of_spec {map' : MyBitmap} {t : Set Nat} (h : map'.Valid ∧ map'.toSet = t)
    (hsh : SameShape map' map) : Represents map.nBits map' t :=
  ⟨h.1, hsh.nBits_eq, h.2⟩

/-- A test that leaves the map, whose `my_bool` is `true` exactly when the set has the
    property the set machine decides. -/
theorem Represents.test {p : Prop} [Decidable p] (hv : map.Valid) {b : Bool} (h : b = true ↔ p) :
    BitmapReply.flag b = .flag (decide p) ∧ Represents map.nBits map map.toSet :=
  ⟨congrArg _ (Bool.eq_iff_iff.mpr (h.trans decide_eq_true_iff.symm)), hv, rfl, rfl⟩

/-- A scan that leaves the map and returns `v`. -/
theorem Represents.scan (hv : map.Valid) {v w : Nat} (h : v = w) :
    BitmapReply.uint v = .uint w ∧ Represents map.nBits map map.toSet :=
  ⟨congrArg _ h, hv, rfl, rfl⟩

/-- `bitmap_is_prefix` with the empty prefix, which always answers 1. -/
theorem bitmapIsPrefix_iff_or (hv : map.Valid) {prefixSize : Nat} (hpn : prefixSize ≤ map.nBits) :
    bitmapIsPrefix map prefixSize = true ↔ prefixSize = 0 ∨ map.toSet = Set.Iio prefixSize := by
  rcases Nat.eq_zero_or_pos prefixSize with rfl | hp
  · simp [bitmapIsPrefix]
  · rw [bitmapIsPrefix_iff hv hp hpn, or_iff_right (Nat.pos_iff_ne_zero.mp hp)]

open Classical in
/-- Each allowed call on a map that holds `s` answers what the set machine answers on `s` and
    leaves a map that holds what it leaves. -/
theorem BitmapCall.simulates {n : Nat} (hn : n < 2 ^ 32) :
    Simulates BitmapCall.run (BitmapCall.onSet n) (fun _ c => c.Allowed n) (Represents n) := by
  rintro map s c ⟨hv, rfl, rfl⟩ hc
  cases c with
  | write op =>
    obtain ⟨hv', hn', hs'⟩ := BitmapOp.step hv hc
    exact ⟨rfl, hv', hn', hs'⟩
  | setPrefix prefixSize =>
    exact ⟨rfl, .of_spec (bitmapSetPrefix_spec hv prefixSize) (sameShape_bitmapSetPrefix _)⟩
  | invert => exact ⟨rfl, .of_spec (bitmapInvert_spec hv) SameShape.rfl.writeWords.writeWord⟩
  | intersect map2 => exact ⟨rfl, .of_spec (bitmapIntersect_spec hv hc) sameShape_bitmapIntersect⟩
  | subtract map2 =>
    obtain ⟨hv2, -⟩ := hc
    exact ⟨rfl, .of_spec (bitmapSubtract_spec hv hv2) SameShape.rfl.writeWords⟩
  | union map2 => exact ⟨rfl, .of_spec (bitmapUnion_spec hv hc) SameShape.rfl.writeWords.writeWord⟩
  | xor map2 =>
    obtain ⟨hv2, hn2⟩ := hc
    exact ⟨rfl, .of_spec (bitmapXor_spec hv hv2 hn2) SameShape.rfl.writeWords⟩
  | copy map2 => exact ⟨rfl, .of_spec (bitmapCopy_spec hv hc) sameShape_bitmapCopy⟩
  | testAndSet bit =>
    obtain ⟨hr, hv', hs'⟩ := bitmapTestAndSet_spec hv hc
    exact ⟨(Represents.test hv hr).1, hv', rfl, hs'⟩
  | testAndClear bit =>
    obtain ⟨hr, hv', hs'⟩ := bitmapTestAndClear_spec hv hc
    exact ⟨(Represents.test hv hr).1, hv', rfl, hs'⟩
  | setNext =>
    obtain ⟨hr, hv', hs'⟩ := bitmapSetNext_spec hv hn
    exact ⟨congrArg _ hr, hv', bitmapSetNext_nBits, hs'⟩
  | isSet bit => exact Represents.test hv (bitmapIsSet_iff_mem map hc)
  | bitsSet => exact Represents.scan hv (bitmapBitsSet_eq hv)
  | getFirstSet => exact Represents.scan hv (bitmapGetFirstSet_eq hv)
  | getLastSet => exact Represents.scan hv (bitmapGetLastSet_eq hv)
  | getNextSet bit => exact Represents.scan hv (bitmapGetNextSet_eq hv hn bit)
  | getFirstClear => exact Represents.scan hv (bitmapGetFirstClear_eq hv)
  | isPrefix prefixSize => exact Represents.test hv (bitmapIsPrefix_iff_or hv hc)
  | isSetAll => exact Represents.test hv (bitmapIsSetAll_iff hv)
  | isClearAll => exact Represents.test hv (bitmapIsClearAll_iff hv)
  | isSubset map2 =>
    obtain ⟨-, hn2⟩ := hc
    exact Represents.test hv (bitmapIsSubset_iff hv hn2)
  | isOverlapping map2 =>
    obtain ⟨-, hn2⟩ := hc
    exact Represents.test hv (bitmapIsOverlapping_iff hv hn2)
  | cmp map2 =>
    obtain ⟨hv2, hn2⟩ := hc
    exact Represents.test hv (bitmapCmp_iff hv hv2 hn2)

end Simulation

/-- Every run of allowed calls on a map from `my_bitmap_init` returns, call by call, what the
    set machine answers from the empty set, and ends in a valid map of the set it ends in. -/
theorem bitmap_calls_refine_sets {buf : List UInt64} {nBits : Nat} (hn : 0 < nBits)
    (hn32 : nBits < 2 ^ 32) (hbuf : buf.length = noWordsInMap nBits) (calls : List BitmapCall)
    (hcalls : ∀ c ∈ calls, c.Allowed nBits) :
    (runReplies BitmapCall.run calls (myBitmapInit buf nBits)).1 =
        (runReplies (BitmapCall.onSet nBits) calls ∅).1 ∧
      Represents nBits (runReplies BitmapCall.run calls (myBitmapInit buf nBits)).2
        (runReplies (BitmapCall.onSet nBits) calls ∅).2 := by
  have hinit : Represents nBits (myBitmapInit buf nBits) ∅ :=
    ⟨valid_myBitmapInit hn hbuf, myBitmapInit_nBits buf nBits, toSet_myBitmapInit buf nBits⟩
  exact (BitmapCall.simulates hn32).run calls _ ∅ hinit (runAllowed_of_forall calls ∅ hcalls)

/-- A map of 100 bits in two words: set bit 70, then ask for the first set bit and the number
    of bits set. -/
theorem bitmap_calls_refine_sets_two_words :
    0 < 100 ∧ 100 < 2 ^ 32 ∧ [(0 : UInt64), 0].length = noWordsInMap 100 ∧
      (∀ c ∈ [BitmapCall.testAndSet 70, .getFirstSet, .bitsSet], c.Allowed 100) ∧
      ((runReplies BitmapCall.run [.testAndSet 70, .getFirstSet, .bitsSet]
          (myBitmapInit [0, 0] 100)).1 =
        (runReplies (BitmapCall.onSet 100) [.testAndSet 70, .getFirstSet, .bitsSet] ∅).1 ∧
      Represents 100 (runReplies BitmapCall.run [.testAndSet 70, .getFirstSet, .bitsSet]
          (myBitmapInit [0, 0] 100)).2
        (runReplies (BitmapCall.onSet 100) [.testAndSet 70, .getFirstSet, .bitsSet] ∅).2) := by
  have hcalls : ∀ c ∈ [BitmapCall.testAndSet 70, .getFirstSet, .bitsSet], c.Allowed 100 := by
    simp [BitmapCall.Allowed]
  exact ⟨by decide, by decide, rfl, hcalls,
    bitmap_calls_refine_sets (by decide) (by decide) rfl _ hcalls⟩

end MariaDB.Mysys
