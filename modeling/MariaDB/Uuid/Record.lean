import MariaDB.Lib.Buffer
import MariaDB.Uuid.Parse

/-
  The in-record form of a UUID and the `Field_fbt` store and read paths
  (`plugin/type_uuid/sql_type_uuid.h`, `UUID::Segment` to `record_to_memory`;
  `sql/sql_type_fixedbin.h`, `Fbt::binary_to_fbt`, `Field_fbt::store_*`, `val_native`).

  A UUID is kept in memory as `llllllll-mmmm-Vhhh-vsss-nnnnnnnnnnnn` and, so that records sort
  by time, in the record as `nnnnnnnnnnnn-vsss-Vhhh-mmmm-llllllll`: five segments are copied
  to new places. `UUID<1>` (`Type_handler_uuid_old`) always swaps. `UUID<0>`
  (`Type_handler_uuid_new`) swaps only a value that looks like a time-based UUID
  (`mem_need_swap`: version 1 to 5, variant bit set), and on the way back un-swaps a record
  image when `rec_need_swap` holds, a test on other bytes (`r[6] & -r[8] & 0x80`).

  `char` arithmetic: the tests promote `char` to `int`. Only bit 7 of the results is used,
  and it is the same for a signed and an unsigned `char`, and the same as in `UInt8`
  arithmetic (`-b` is `0 - b` modulo 256); `s[6] > 0 && s[6] < 0x60` is `0 < s[6] < 0x60`
  on bytes either way.

  Results:
  * `memoryToRecord_swap`, `recordToMemory_swap` and the copy cases: the two conversions
    on 16-byte buffers, whatever the target held;
  * `recordToMemory_memoryToRecord_forceSwap`: `UUID<1>` reads back every value;
  * `recNeedSwap_memoryToRecord`, `recordToMemory_memoryToRecord_of_check`: for `UUID<0>`
    the record test agrees with the memory test, and the value reads back, on the values
    that pass the final check of `ascii_to_fbt`;
  * `valNative_storeText`: a value stored from text reads back through `val_native` and
    `val_str`, for both types;
  * `valNative_storeBinary`: what `UUID<0>` reads back after a binary store, for every
    16-byte string; a value failing the check is read back un-swapped.
-/

namespace MariaDB.Uuid

open MariaDB.Lib

/-! ## Segments -/

/-- `UUID::Segment`: `m_length` bytes at `m_memory_pos` in memory and `m_record_pos` in the
record. -/
structure Segment where
  memoryPos : Nat
  recordPos : Nat
  length : Nat
  deriving Repr, DecidableEq

/-- `Segment::mem2rec`: `memcpy(to + m_record_pos, from + m_memory_pos, m_length)`. -/
def Segment.mem2rec (g : Segment) (dst src : List UInt8) : List UInt8 :=
  writeAt dst g.recordPos (readAt src g.memoryPos g.length)

/-- `Segment::rec2mem`: `memcpy(to + m_memory_pos, from + m_record_pos, m_length)`. -/
def Segment.rec2mem (g : Segment) (dst src : List UInt8) : List UInt8 :=
  writeAt dst g.memoryPos (readAt src g.recordPos g.length)

/-- The table `segments[]` of `UUID::segment(i)`. -/
def segments : List Segment :=
  [⟨0, 12, 4⟩, ⟨4, 10, 2⟩, ⟨6, 8, 2⟩, ⟨8, 6, 2⟩, ⟨10, 0, 6⟩]

/-- `mem_need_swap`: version 1 to 5 (`0 < s[6] < 0x60`) and the variant bit `s[8] & 0x80`. -/
def memNeedSwap (s : List UInt8) : Bool :=
  0 < s.getD 6 0 && s.getD 6 0 < 0x60 && s.getD 8 0 &&& 0x80 != 0

/-- `rec_need_swap`: `s[6] & -s[8] & 0x80`. -/
def recNeedSwap (s : List UInt8) : Bool :=
  s.getD 6 0 &&& -s.getD 8 0 &&& 0x80 != 0

/-- `UUID<force_swap>::memory_to_record(to, from)`: `segment(0)` to `segment(4)` in turn, or
one `memcpy` of `binary_length()` bytes. -/
def memoryToRecord (forceSwap : Bool) (dst src : List UInt8) : List UInt8 :=
  if forceSwap || memNeedSwap src then segments.foldl (fun dst g => g.mem2rec dst src) dst
  else writeAt dst 0 (readAt src 0 binaryLength)

/-- `UUID<force_swap>::record_to_memory(to, from)`. -/
def recordToMemory (forceSwap : Bool) (dst src : List UInt8) : List UInt8 :=
  if forceSwap || recNeedSwap src then segments.foldl (fun dst g => g.rec2mem dst src) dst
  else writeAt dst 0 (readAt src 0 binaryLength)

/-! ## The field -/

/-- What the store and read paths of a `Field_fbt` touch: the record image at `ptr`, of
`binary_length()` bytes, and the field's null bit. -/
structure FieldFbt where
  ptr : List UInt8
  null : Bool
  deriving Repr, DecidableEq

/-- `Fbt::binary_to_fbt`: a binary string of exactly `binary_length()` bytes, copied. -/
def binaryToFbt (str : List UInt8) : Option (List UInt8) :=
  if str.length ≠ binaryLength then none else some str

/-- `Fbt::character_string_to_fbt` for a character set without `MY_CS_NONASCII`. -/
def characterStringToFbt (str : List UInt8) : Option (List UInt8) := asciiToFbt str

/-- `Field_fbt::store_fbt_null_with_warn`: a NULL value sets the null bit of a nullable field
and the minimum value (all zero bytes, `set_min_value`) of another; both return 1. A value is
stored through `Fbt::to_record`, that is `memory_to_record`. The warnings are not modelled. -/
def storeFbtNullWithWarn (forceSwap maybeNull : Bool) (f : FieldFbt) (fbt : Option (List UInt8)) :
    Int × FieldFbt :=
  match fbt with
  | none =>
    if maybeNull then (1, { f with null := true })
    else (1, { f with ptr := writeAt f.ptr 0 (List.replicate binaryLength 0) })
  | some m => (0, { f with ptr := memoryToRecord forceSwap f.ptr m })

/-- `Field_fbt::store_text`. -/
def storeText (forceSwap maybeNull : Bool) (f : FieldFbt) (str : List UInt8) : Int × FieldFbt :=
  storeFbtNullWithWarn forceSwap maybeNull f (characterStringToFbt str)

/-- `Field_fbt::store_binary`. -/
def storeBinary (forceSwap maybeNull : Bool) (f : FieldFbt) (str : List UInt8) : Int × FieldFbt :=
  storeFbtNullWithWarn forceSwap maybeNull f (binaryToFbt str)

/-- `Field_fbt::store_hex_hybrid`, a hexadecimal literal: as `store_binary`. -/
def storeHexHybrid (forceSwap maybeNull : Bool) (f : FieldFbt) (str : List UInt8) : Int × FieldFbt :=
  storeBinary forceSwap maybeNull f str

/-- `Field_fbt::store(str, length, cs)`: binary for `my_charset_bin`, text otherwise. -/
def store (forceSwap maybeNull : Bool) (f : FieldFbt) (str : List UInt8) (csIsBin : Bool) :
    Int × FieldFbt :=
  if csIsBin then storeBinary forceSwap maybeNull f str else storeText forceSwap maybeNull f str

/-- `Field_fbt::val_native`: `record_to_memory` into a fresh buffer of `binary_length()` bytes
(taken zero here; every byte of it is written). -/
def valNative (forceSwap : Bool) (f : FieldFbt) : List UInt8 :=
  recordToMemory forceSwap (List.replicate binaryLength 0) f.ptr

/-- `Field_fbt::val_str`: `to_fbt().to_string()`, which prints with `my_uuid2str(.., 1)`. -/
def valStr (forceSwap : Bool) (f : FieldFbt) : List UInt8 :=
  myUuid2str (valNative forceSwap f) true

/-! ## The two layouts -/

/-- The in-record layout `nnnnnnnnnnnn-vsss-Vhhh-mmmm-llllllll` of the in-memory value
`llllllll-mmmm-Vhhh-vsss-nnnnnnnnnnnn`, as the source's comment draws it. -/
def swapImage (m : List UInt8) : List UInt8 :=
  readAt m 10 6 ++ readAt m 8 2 ++ readAt m 6 2 ++ readAt m 4 2 ++ readAt m 0 4

/-- The in-memory value of an in-record layout. -/
def unswapImage (r : List UInt8) : List UInt8 :=
  readAt r 12 4 ++ readAt r 10 2 ++ readAt r 8 2 ++ readAt r 6 2 ++ readAt r 0 6

/-- A buffer of `binary_length()` bytes, byte by byte. -/
theorem eq_of_length_eq_binaryLength {α : Type} : ∀ (m : List α), m.length = binaryLength →
    ∃ a0 a1 a2 a3 a4 a5 a6 a7 a8 a9 a10 a11 a12 a13 a14 a15,
      m = [a0, a1, a2, a3, a4, a5, a6, a7, a8, a9, a10, a11, a12, a13, a14, a15]
  | [a0, a1, a2, a3, a4, a5, a6, a7, a8, a9, a10, a11, a12, a13, a14, a15], _ =>
    ⟨a0, a1, a2, a3, a4, a5, a6, a7, a8, a9, a10, a11, a12, a13, a14, a15, rfl⟩

/-- The five `mem2rec` copies, whatever the record buffer held before. -/
theorem foldl_mem2rec {dst m : List UInt8} (hdst : dst.length = binaryLength)
    (hm : m.length = binaryLength) :
    segments.foldl (fun dst g => g.mem2rec dst m) dst = swapImage m := by
  obtain ⟨a0, a1, a2, a3, a4, a5, a6, a7, a8, a9, a10, a11, a12, a13, a14, a15, rfl⟩ :=
    eq_of_length_eq_binaryLength m hm
  obtain ⟨b0, b1, b2, b3, b4, b5, b6, b7, b8, b9, b10, b11, b12, b13, b14, b15, rfl⟩ :=
    eq_of_length_eq_binaryLength dst hdst
  rfl

/-- The five `rec2mem` copies, whatever the memory buffer held before. -/
theorem foldl_rec2mem {dst r : List UInt8} (hdst : dst.length = binaryLength)
    (hr : r.length = binaryLength) :
    segments.foldl (fun dst g => g.rec2mem dst r) dst = unswapImage r := by
  obtain ⟨a0, a1, a2, a3, a4, a5, a6, a7, a8, a9, a10, a11, a12, a13, a14, a15, rfl⟩ :=
    eq_of_length_eq_binaryLength r hr
  obtain ⟨b0, b1, b2, b3, b4, b5, b6, b7, b8, b9, b10, b11, b12, b13, b14, b15, rfl⟩ :=
    eq_of_length_eq_binaryLength dst hdst
  rfl

/-- One `memcpy` of `binary_length()` bytes over a buffer of that size. -/
theorem writeAt_readAt_binaryLength {dst m : List UInt8} (hdst : dst.length = binaryLength)
    (hm : m.length = binaryLength) : writeAt dst 0 (readAt m 0 binaryLength) = m := by
  have hr : readAt m 0 binaryLength = m := by
    rw [readAt, List.drop_zero, List.take_of_length_le (by omega)]
  rw [hr, writeAt, List.take_zero, List.nil_append, hm, Nat.zero_add, List.drop_of_length_le (by omega),
    List.append_nil]

theorem unswapImage_swapImage {m : List UInt8} (hm : m.length = binaryLength) :
    unswapImage (swapImage m) = m := by
  obtain ⟨a0, a1, a2, a3, a4, a5, a6, a7, a8, a9, a10, a11, a12, a13, a14, a15, rfl⟩ :=
    eq_of_length_eq_binaryLength m hm
  rfl

theorem length_swapImage {m : List UInt8} (hm : m.length = binaryLength) :
    (swapImage m).length = binaryLength := by
  obtain ⟨a0, a1, a2, a3, a4, a5, a6, a7, a8, a9, a10, a11, a12, a13, a14, a15, rfl⟩ :=
    eq_of_length_eq_binaryLength m hm
  rfl

/-- The swap exchanges bytes 6 and 8, the two bytes the tests read. -/
theorem getD_swapImage {m : List UInt8} (hm : m.length = binaryLength) :
    (swapImage m).getD 6 0 = m.getD 8 0 ∧ (swapImage m).getD 8 0 = m.getD 6 0 := by
  obtain ⟨a0, a1, a2, a3, a4, a5, a6, a7, a8, a9, a10, a11, a12, a13, a14, a15, rfl⟩ :=
    eq_of_length_eq_binaryLength m hm
  exact ⟨rfl, rfl⟩

/-! ## The two tests -/

set_option maxRecDepth 4096 in
theorem and_top_table : ∀ n < 256, (n &&& 128 = if 128 ≤ n then 128 else 0) := by
  decide

/-- `b & 0x80` keeps only the top bit. -/
theorem and_top (b : UInt8) : b &&& 0x80 = if 0x80 ≤ b then 0x80 else 0 := by
  have h := and_top_table b.toNat b.toNat_lt
  rw [← UInt8.toNat_inj, UInt8.toNat_and]
  split_ifs at h ⊢ with h1 h2 h2 <;> simp_all [UInt8.le_iff_toNat_le]

theorem and_top_ne_zero (b : UInt8) : b &&& 0x80 ≠ 0 ↔ 0x80 ≤ b := by
  rw [and_top]
  split_ifs with hb <;> simp [hb]

/-- `a & b & 0x80` is set exactly when both top bits are. -/
theorem and_and_top_ne_zero (a b : UInt8) : a &&& b &&& 0x80 ≠ 0 ↔ 0x80 ≤ a ∧ 0x80 ≤ b := by
  rw [UInt8.and_assoc, and_top b]
  split_ifs with hb
  · rw [and_top_ne_zero]
    simp [hb]
  · simp [hb]

/-- The top bit of `-b` is set for `b` from 1 to `0x80`. -/
theorem top_le_neg (b : UInt8) : 0x80 ≤ -b ↔ 1 ≤ b ∧ b ≤ 0x80 := by
  have := b.toNat_lt
  simp only [UInt8.le_iff_toNat_le, UInt8.toNat_neg, UInt8.size, UInt8.reduceToNat]
  omega

/-- `rec_need_swap`: the top bit of byte 6, and byte 8 from 1 to `0x80`. -/
theorem recNeedSwap_iff (s : List UInt8) :
    recNeedSwap s = true ↔ 0x80 ≤ s.getD 6 0 ∧ 1 ≤ s.getD 8 0 ∧ s.getD 8 0 ≤ 0x80 := by
  rw [recNeedSwap, bne_iff_ne, and_and_top_ne_zero, top_le_neg]

/-- `mem_need_swap`: byte 6 from 1 to `0x5F`, and the top bit of byte 8. -/
theorem memNeedSwap_iff (s : List UInt8) :
    memNeedSwap s = true ↔ 0 < s.getD 6 0 ∧ s.getD 6 0 < 0x60 ∧ 0x80 ≤ s.getD 8 0 := by
  simp only [memNeedSwap, Bool.and_eq_true, decide_eq_true_eq, bne_iff_ne, and_top_ne_zero, and_assoc]

/-- A value that `mem_need_swap` swaps is a record image that `rec_need_swap` un-swaps. -/
theorem recNeedSwap_swapImage {m : List UInt8} (hm : m.length = binaryLength)
    (hs : memNeedSwap m = true) : recNeedSwap (swapImage m) = true := by
  obtain ⟨h6, h8⟩ := getD_swapImage hm
  rw [memNeedSwap_iff] at hs
  rw [recNeedSwap_iff, h6, h8]
  obtain ⟨hpos, hlt, htop⟩ := hs
  refine ⟨htop, ?_, ?_⟩
  · simp only [UInt8.lt_iff_toNat_lt, UInt8.le_iff_toNat_le, UInt8.reduceToNat] at hpos ⊢
    omega
  · simp only [UInt8.lt_iff_toNat_lt, UInt8.le_iff_toNat_le, UInt8.reduceToNat] at hlt ⊢
    omega

/-- The final check of `ascii_to_fbt` is `rec_need_swap` on the value. -/
theorem recNeedSwap_eq_false_iff (m : List UInt8) :
    recNeedSwap m = false ↔ ¬(m.getD 6 0 &&& -m.getD 8 0 &&& 0x80 ≠ 0) := by
  simp [recNeedSwap]

/-! ## The conversions -/

section Conversions

variable {dst m : List UInt8}

theorem memoryToRecord_swap {forceSwap : Bool} (hs : (forceSwap || memNeedSwap m) = true)
    (hdst : dst.length = binaryLength) (hm : m.length = binaryLength) :
    memoryToRecord forceSwap dst m = swapImage m := by
  rw [memoryToRecord, if_pos hs, foldl_mem2rec hdst hm]

theorem memoryToRecord_copy {forceSwap : Bool} (hs : (forceSwap || memNeedSwap m) = false)
    (hdst : dst.length = binaryLength) (hm : m.length = binaryLength) :
    memoryToRecord forceSwap dst m = m := by
  rw [memoryToRecord, if_neg (by simp [hs]), writeAt_readAt_binaryLength hdst hm]

theorem recordToMemory_swap {forceSwap : Bool} (hs : (forceSwap || recNeedSwap m) = true)
    (hdst : dst.length = binaryLength) (hm : m.length = binaryLength) :
    recordToMemory forceSwap dst m = unswapImage m := by
  rw [recordToMemory, if_pos hs, foldl_rec2mem hdst hm]

theorem recordToMemory_copy {forceSwap : Bool} (hs : (forceSwap || recNeedSwap m) = false)
    (hdst : dst.length = binaryLength) (hm : m.length = binaryLength) :
    recordToMemory forceSwap dst m = m := by
  rw [recordToMemory, if_neg (by simp [hs]), writeAt_readAt_binaryLength hdst hm]

theorem length_memoryToRecord (forceSwap : Bool) (hdst : dst.length = binaryLength)
    (hm : m.length = binaryLength) : (memoryToRecord forceSwap dst m).length = binaryLength := by
  cases hs : (forceSwap || memNeedSwap m)
  · rw [memoryToRecord_copy hs hdst hm, hm]
  · rw [memoryToRecord_swap hs hdst hm, length_swapImage hm]

variable {dst' : List UInt8}

/-- `UUID<1>` swaps both ways, so every value reads back. -/
theorem recordToMemory_memoryToRecord_forceSwap (hdst : dst.length = binaryLength)
    (hdst' : dst'.length = binaryLength) (hm : m.length = binaryLength) :
    recordToMemory true dst' (memoryToRecord true dst m) = m := by
  rw [memoryToRecord_swap rfl hdst hm, recordToMemory_swap rfl hdst' (length_swapImage hm),
    unswapImage_swapImage hm]

/-- For `UUID<0>`, on a value that passes the final check of `ascii_to_fbt`, the record test
says "swapped" exactly when the memory test swapped. -/
theorem recNeedSwap_memoryToRecord (hdst : dst.length = binaryLength)
    (hm : m.length = binaryLength) (hc : recNeedSwap m = false) :
    recNeedSwap (memoryToRecord false dst m) = memNeedSwap m := by
  cases hs : memNeedSwap m
  · rw [memoryToRecord_copy (by simp [hs]) hdst hm, hc]
  · rw [memoryToRecord_swap (by simp [hs]) hdst hm, recNeedSwap_swapImage hm hs]

/-- For `UUID<0>`, a value that passes the final check of `ascii_to_fbt` reads back. -/
theorem recordToMemory_memoryToRecord_of_check (hdst : dst.length = binaryLength)
    (hdst' : dst'.length = binaryLength) (hm : m.length = binaryLength)
    (hc : recNeedSwap m = false) :
    recordToMemory false dst' (memoryToRecord false dst m) = m := by
  have hr := recNeedSwap_memoryToRecord hdst hm hc
  cases hs : memNeedSwap m
  · rw [memoryToRecord_copy (by simp [hs]) hdst hm, recordToMemory_copy (by simp [hc]) hdst' hm]
  · rw [hs] at hr
    rw [memoryToRecord_swap (by simp [hs]) hdst hm] at hr ⊢
    rw [recordToMemory_swap (by simp [hr]) hdst' (length_swapImage hm), unswapImage_swapImage hm]

end Conversions

/-! ## Storing and reading a field -/

theorem length_packDigits : ∀ ds : List UInt8, (packDigits ds).length = ds.length / 2
  | hi :: lo :: ds => by
    simp only [packDigits_cons_cons, List.length_cons, length_packDigits ds]
    omega
  | [] => rfl
  | [_] => by simp [packDigits]

/-- What `ascii_to_fbt` returns is 16 bytes that pass its check. -/
theorem asciiToFbt_wellFormed {str m : List UInt8} (h : asciiToFbt str = some m) :
    m.length = binaryLength ∧ recNeedSwap m = false := by
  obtain ⟨ds, hs, hds, -, -, -, rfl, hc⟩ := asciiToFbt_eq_some_iff.1 h
  refine ⟨?_, (recNeedSwap_eq_false_iff _).2 hc⟩
  rw [length_packDigits, hds]
  rfl

/-- A value stored from text, into either type of UUID column, reads back through
`val_native`, and what `val_str` prints reads back too. -/
theorem valNative_storeText (forceSwap maybeNull : Bool) {f : FieldFbt}
    (hf : f.ptr.length = binaryLength) {str m : List UInt8} (h : asciiToFbt str = some m) :
    (storeText forceSwap maybeNull f str).1 = 0 ∧
      valNative forceSwap (storeText forceSwap maybeNull f str).2 = m ∧
      asciiToFbt (valStr forceSwap (storeText forceSwap maybeNull f str).2) = some m := by
  obtain ⟨hm, hc⟩ := asciiToFbt_wellFormed h
  have hz : (List.replicate binaryLength (0 : UInt8)).length = binaryLength := List.length_replicate
  have hv : valNative forceSwap (storeText forceSwap maybeNull f str).2 = m := by
    simp only [storeText, characterStringToFbt, h, storeFbtNullWithWarn, valNative]
    cases forceSwap
    · exact recordToMemory_memoryToRecord_of_check hf hz hm hc
    · exact recordToMemory_memoryToRecord_forceSwap hf hz hm
  refine ⟨by simp [storeText, characterStringToFbt, h, storeFbtNullWithWarn], hv, ?_⟩
  rw [valStr, hv]
  exact asciiToFbt_myUuid2str m hm ((recNeedSwap_eq_false_iff m).1 hc)

/-- `UUID<1>` reads back every 16-byte binary string it stores. -/
theorem valNative_storeBinary_forceSwap (maybeNull : Bool) {f : FieldFbt}
    (hf : f.ptr.length = binaryLength) {str : List UInt8} (hstr : str.length = binaryLength) :
    (storeBinary true maybeNull f str).1 = 0 ∧ valNative true (storeBinary true maybeNull f str).2 = str := by
  have hb : binaryToFbt str = some str := by simp [binaryToFbt, hstr]
  refine ⟨by simp [storeBinary, hb, storeFbtNullWithWarn], ?_⟩
  simp only [storeBinary, hb, storeFbtNullWithWarn, valNative]
  exact recordToMemory_memoryToRecord_forceSwap hf List.length_replicate hstr

/-- What `UUID<0>` reads back after storing a 16-byte binary string: the string, unless it
is stored unswapped (`mem_need_swap` fails) and then taken for a swapped record
(`rec_need_swap` holds), when it is read back un-swapped. -/
theorem valNative_storeBinary (maybeNull : Bool) {f : FieldFbt}
    (hf : f.ptr.length = binaryLength) {str : List UInt8} (hstr : str.length = binaryLength) :
    (storeBinary false maybeNull f str).1 = 0 ∧
      valNative false (storeBinary false maybeNull f str).2 =
        if memNeedSwap str = false ∧ recNeedSwap str = true then unswapImage str else str := by
  have hb : binaryToFbt str = some str := by simp [binaryToFbt, hstr]
  have hz : (List.replicate binaryLength (0 : UInt8)).length = binaryLength := List.length_replicate
  refine ⟨by simp [storeBinary, hb, storeFbtNullWithWarn], ?_⟩
  simp only [storeBinary, hb, storeFbtNullWithWarn, valNative]
  cases hs : memNeedSwap str
  · -- stored as it is, and read by `rec_need_swap` of the same bytes
    rw [memoryToRecord_copy (by simp [hs]) hf hstr]
    cases hr : recNeedSwap str
    · rw [recordToMemory_copy (by simp [hr]) hz hstr]
      simp
    · rw [recordToMemory_swap (by simp [hr]) hz hstr]
      simp
  · have hr := recNeedSwap_swapImage hstr hs
    rw [memoryToRecord_swap (by simp [hs]) hf hstr,
      recordToMemory_swap (by simp [hr]) hz (length_swapImage hstr), unswapImage_swapImage hstr]
    simp

/-- A 16-byte value with version 8 in byte 6 (`0x86`) and `0x01` in byte 8. -/
def versionEightValue : List UInt8 :=
  [0x00, 0x11, 0x22, 0x33, 0x44, 0x55, 0x86, 0x77, 0x01, 0x88, 0x99, 0xaa, 0xbb, 0xcc, 0xdd, 0xee]

/-- A 16-byte binary string that `UUID<0>` stores and reads back changed. `mem_need_swap`
fails on byte 6, so it is stored unswapped; `rec_need_swap` holds on bytes 6 and 8 of that
record image, so it is un-swapped on the way back. `ascii_to_fbt` refuses the text form of
the same value: only the binary path stores it. -/
theorem uuid_binary_store_reads_back_swapped :
    storeBinary false true ⟨List.replicate binaryLength 0, false⟩ versionEightValue =
        (0, ⟨versionEightValue, false⟩) ∧
      valNative false ⟨versionEightValue, false⟩ =
        [0xbb, 0xcc, 0xdd, 0xee, 0x99, 0xaa, 0x01, 0x88, 0x86, 0x77, 0x00, 0x11, 0x22, 0x33, 0x44, 0x55] ∧
      memNeedSwap versionEightValue = false ∧ recNeedSwap versionEightValue = true ∧
      asciiToFbt (myUuid2str versionEightValue true) = none := by
  decide

end MariaDB.Uuid
