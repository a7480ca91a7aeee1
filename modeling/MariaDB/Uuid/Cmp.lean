import MariaDB.Lib.BigEndian
import MariaDB.Uuid.Record

/-
  `UUID::cmp` (`plugin/type_uuid/sql_type_uuid.h`) against the order of the stored records
  (`Field_fbt::cmp`, `Type_handler_fbt::make_sort_key_part`, `sql/sql_type_fixedbin.h`).

  `cmp` compares two in-memory values without building their record images. When both swap it
  compares their memory segments in record order 4, 3, 2, 1, 0; when one swaps it compares
  that value's memory segments against the other's bytes at the segments' record positions.
  The record positions 0, 6, 8, 10, 12 with lengths 6, 2, 2, 2, 4 tile the sixteen bytes in
  that order, so each branch is `memcmp` of the two record images (`cmp_eq_memcmp`), and
  `memcmp_append` splits that `memcmp` at the segment borders.

  Results:
  * `cmp_eq_memcmp`: `cmp` is `memcmp` of the two `memory_to_record` images;
  * `uuid_cmp_record_order`: for `UUID<0>` and `UUID<1>` the sign of `cmp` is that of
    `Field_fbt::cmp` on the records and of `memcmp` on the filesort keys, and `cmp` is a total
    preorder.
-/

namespace MariaDB.Uuid

open MariaDB.Lib

/-! ## Model -/

/-- `Segment::cmp_memory`: `memcmp(a + m_memory_pos, b + m_memory_pos, m_length)`. -/
def Segment.cmpMemory (g : Segment) (a b : List UInt8) : Int :=
  memcmp (a.drop g.memoryPos) (b.drop g.memoryPos) g.length

/-- `Segment::cmp_swap_noswap`: `memcmp(a + m_memory_pos, b + m_record_pos, m_length)`. -/
def Segment.cmpSwapNoswap (g : Segment) (a b : List UInt8) : Int :=
  memcmp (a.drop g.memoryPos) (b.drop g.recordPos) g.length

/-- `UUID::segment(i)`. -/
def segment (i : Nat) : Segment := segments.getD i ⟨0, 0, 0⟩

/-- `if ((res= r0) || (res= r1) || ...) return res; return 0;`: the first non-zero result. -/
def firstNonzero : List Int → Int
  | [] => 0
  | r :: rs => if r = 0 then firstNonzero rs else r

/-- A comparison of the five segments in record order, `segment(4)` first. -/
def cmpSegments (f : Segment → Int) : Int :=
  firstNonzero ([4, 3, 2, 1, 0].map fun i => f (segment i))

/-- `UUID::cmp_swap_noswap(a, b)`. -/
def cmpSwapNoswap (a b : List UInt8) : Int := cmpSegments fun g => g.cmpSwapNoswap a b

/-- `UUID<force_swap>::cmp(a, b)` on two in-memory values. -/
def cmp (forceSwap : Bool) (a b : List UInt8) : Int :=
  let swapA := forceSwap || memNeedSwap a
  let swapB := forceSwap || memNeedSwap b
  if swapA && swapB then cmpSegments fun g => g.cmpMemory a b
  else if swapA && !swapB then cmpSwapNoswap a b
  else if !swapA && swapB then -cmpSwapNoswap b a
  else memcmp a b binaryLength

/-- `Field_fbt::cmp`: `memcmp(a, b, pack_length())` on two record images. -/
def fieldFbtCmp (a b : List UInt8) : Int := memcmp a b binaryLength

/-- `Type_handler_fbt::make_sort_key_part` into the key buffer `dst` (the source's `to`), from
the value `tmp` that `val_native_result` read and its `null_value`. -/
def makeSortKeyPart (forceSwap maybeNull nullValue : Bool) (dst tmp : List UInt8) : List UInt8 :=
  if maybeNull then
    if nullValue then writeAt dst 0 (List.replicate (binaryLength + 1) 0)
    -- `*to++= 1`, then the record image after it
    else 1 :: memoryToRecord forceSwap (dst.drop 1) tmp
  else memoryToRecord forceSwap dst tmp

/-- The length of a sort key: `sort_field->length`, and a byte for NULL. -/
def sortKeyLength (maybeNull : Bool) : Nat := if maybeNull then binaryLength + 1 else binaryLength

/-! ## The segments tile the record -/

/-- `memcmp` of two records cut at the segment borders, 6, 2, 2, 2 and 4 bytes: the first
segment that differs decides. -/
theorem memcmp_segments {x0 x1 x2 x3 x4 y0 y1 y2 y3 y4 : List UInt8}
    (h0 : x0.length = 6) (h0' : y0.length = 6) (h1 : x1.length = 2) (h1' : y1.length = 2)
    (h2 : x2.length = 2) (h2' : y2.length = 2) (h3 : x3.length = 2) (h3' : y3.length = 2) :
    memcmp (x0 ++ x1 ++ x2 ++ x3 ++ x4) (y0 ++ y1 ++ y2 ++ y3 ++ y4) binaryLength =
      firstNonzero [memcmp x0 y0 6, memcmp x1 y1 2, memcmp x2 y2 2, memcmp x3 y3 2,
        memcmp x4 y4 4] := by
  simp only [List.append_assoc]
  rw [show binaryLength = 6 + (2 + (2 + (2 + 4))) from rfl, memcmp_append h0 h0',
    memcmp_append h1 h1', memcmp_append h2 h2', memcmp_append h3 h3']
  simp only [firstNonzero]
  -- the last segment's own result stands, zero or not
  congr 4
  split_ifs with h4 <;> simp [h4]

theorem cmpMemory_eq (g : Segment) (a b : List UInt8) :
    g.cmpMemory a b =
      memcmp (readAt a g.memoryPos g.length) (readAt b g.memoryPos g.length) g.length :=
  (memcmp_take _ _ _).symm

theorem cmpSwapNoswap_eq (g : Segment) (a b : List UInt8) :
    g.cmpSwapNoswap a b =
      memcmp (readAt a g.memoryPos g.length) (readAt b g.recordPos g.length) g.length :=
  (memcmp_take _ _ _).symm

/-- A value cut at the segments' record positions. -/
theorem eq_recordSegments {m : List UInt8} (hm : m.length = binaryLength) :
    m = readAt m 0 6 ++ readAt m 6 2 ++ readAt m 8 2 ++ readAt m 10 2 ++ readAt m 12 4 := by
  obtain ⟨a0, a1, a2, a3, a4, a5, a6, a7, a8, a9, a10, a11, a12, a13, a14, a15, rfl⟩ :=
    eq_of_length_eq_binaryLength m hm
  rfl

section Lengths

variable {m : List UInt8} (hm : m.length = binaryLength)
include hm

theorem length_readAt_of_le {off n : Nat} (h : off + n ≤ binaryLength) :
    (readAt m off n).length = n :=
  length_readAt (by omega)

end Lengths

/-- Both swap: the memory segments in record order are `memcmp` of the two record images. -/
theorem cmpSegments_cmpMemory {a b : List UInt8} (ha : a.length = binaryLength)
    (hb : b.length = binaryLength) :
    (cmpSegments fun g => g.cmpMemory a b) = memcmp (swapImage a) (swapImage b) binaryLength := by
  rw [swapImage, swapImage, memcmp_segments (length_readAt_of_le ha (by decide))
    (length_readAt_of_le hb (by decide)) (length_readAt_of_le ha (by decide))
    (length_readAt_of_le hb (by decide)) (length_readAt_of_le ha (by decide))
    (length_readAt_of_le hb (by decide)) (length_readAt_of_le ha (by decide))
    (length_readAt_of_le hb (by decide))]
  simp only [cmpSegments, List.map, cmpMemory_eq]
  rfl

/-- One swaps: its memory segments against the other's bytes at the record positions are
`memcmp` of its record image and the other value. -/
theorem cmpSwapNoswap_eq_memcmp {a b : List UInt8} (ha : a.length = binaryLength)
    (hb : b.length = binaryLength) : cmpSwapNoswap a b = memcmp (swapImage a) b binaryLength := by
  conv_rhs => rw [eq_recordSegments hb]
  rw [swapImage, memcmp_segments (length_readAt_of_le ha (by decide))
    (length_readAt_of_le hb (by decide)) (length_readAt_of_le ha (by decide))
    (length_readAt_of_le hb (by decide)) (length_readAt_of_le ha (by decide))
    (length_readAt_of_le hb (by decide)) (length_readAt_of_le ha (by decide))
    (length_readAt_of_le hb (by decide))]
  simp only [cmpSwapNoswap, cmpSegments, List.map, cmpSwapNoswap_eq]
  rfl

/-! ## `cmp` is `memcmp` of the records -/

/-- In each of its four branches `UUID::cmp` is `memcmp` of the two `memory_to_record` images,
whatever the record buffers held. -/
theorem cmp_eq_memcmp (forceSwap : Bool) {a b ta tb : List UInt8} (ha : a.length = binaryLength)
    (hb : b.length = binaryLength) (hta : ta.length = binaryLength)
    (htb : tb.length = binaryLength) :
    cmp forceSwap a b =
      memcmp (memoryToRecord forceSwap ta a) (memoryToRecord forceSwap tb b) binaryLength := by
  unfold cmp
  cases hsa : (forceSwap || memNeedSwap a) <;> cases hsb : (forceSwap || memNeedSwap b)
  case false.false =>
    rw [memoryToRecord_copy hsa hta ha, memoryToRecord_copy hsb htb hb]
    rfl
  case true.false =>
    rw [memoryToRecord_swap hsa hta ha, memoryToRecord_copy hsb htb hb,
      ← cmpSwapNoswap_eq_memcmp ha hb]
    rfl
  case false.true =>
    -- `-cmp_swap_noswap(b, a)`: the same comparison with the operands exchanged
    rw [memoryToRecord_copy hsa hta ha, memoryToRecord_swap hsb htb hb,
      memcmp_comm (swapImage b) a, ← cmpSwapNoswap_eq_memcmp hb ha]
    rfl
  case true.true =>
    rw [memoryToRecord_swap hsa hta ha, memoryToRecord_swap hsb htb hb,
      ← cmpSegments_cmpMemory ha hb]
    rfl

/-- The record image `memory_to_record` writes, into a zeroed buffer. -/
def recordImage (forceSwap : Bool) (m : List UInt8) : List UInt8 :=
  memoryToRecord forceSwap (List.replicate binaryLength 0) m

theorem length_recordImage (forceSwap : Bool) {m : List UInt8} (hm : m.length = binaryLength) :
    (recordImage forceSwap m).length = binaryLength :=
  length_memoryToRecord forceSwap List.length_replicate hm

/-- `cmp` has the sign of the difference of the two records read as numbers. -/
theorem sign_cmp (forceSwap : Bool) {a b : List UInt8} (ha : a.length = binaryLength)
    (hb : b.length = binaryLength) :
    (cmp forceSwap a b).sign =
      ((beVal (recordImage forceSwap a) : Int) - beVal (recordImage forceSwap b)).sign := by
  rw [cmp_eq_memcmp forceSwap ha hb List.length_replicate List.length_replicate]
  exact memcmp_sign _ _ _ (length_recordImage forceSwap ha) (length_recordImage forceSwap hb)

theorem cmp_nonpos_iff (forceSwap : Bool) {a b : List UInt8} (ha : a.length = binaryLength)
    (hb : b.length = binaryLength) :
    cmp forceSwap a b ≤ 0 ↔ beVal (recordImage forceSwap a) ≤ beVal (recordImage forceSwap b) := by
  have h := sign_cmp forceSwap ha hb
  constructor
  · intro hle
    by_contra hgt
    have : (cmp forceSwap a b).sign = 1 := by rw [h]; exact Int.sign_eq_one_of_pos (by omega)
    rw [Int.sign_eq_one_iff_pos] at this
    omega
  · intro hle
    rcases Nat.lt_or_eq_of_le hle with hlt | heq
    · have : (cmp forceSwap a b).sign = -1 := by rw [h]; exact Int.sign_eq_neg_one_of_neg (by omega)
      rw [Int.sign_eq_neg_one_iff_neg] at this
      omega
    · have : (cmp forceSwap a b).sign = 0 := by rw [h, heq, sub_self, Int.sign_zero]
      rw [Int.sign_eq_zero_iff_zero] at this
      omega

/-! ## Sort keys -/

/-- The filesort key of a value that is not NULL compares like its record image. -/
theorem memcmp_makeSortKeyPart (forceSwap maybeNull : Bool) {a b ka kb : List UInt8}
    (ha : a.length = binaryLength) (hb : b.length = binaryLength)
    (hka : ka.length = sortKeyLength maybeNull) (hkb : kb.length = sortKeyLength maybeNull) :
    memcmp (makeSortKeyPart forceSwap maybeNull false ka a)
        (makeSortKeyPart forceSwap maybeNull false kb b) (sortKeyLength maybeNull) =
      cmp forceSwap a b := by
  unfold makeSortKeyPart
  cases maybeNull
  · rw [cmp_eq_memcmp forceSwap ha hb hka hkb]
    rfl
  · -- the byte `1` in front is the same in both keys
    simp only [sortKeyLength, if_true, Bool.false_eq_true, if_false] at hka hkb ⊢
    rw [@cmp_eq_memcmp forceSwap a b (ka.drop 1) (kb.drop 1) ha hb
      (by rw [List.length_drop, hka]; rfl) (by rw [List.length_drop, hkb]; rfl)]
    simp [memcmp]

/-- A NULL sorts before every value. -/
theorem memcmp_makeSortKeyPart_null (forceSwap : Bool) {b ka kb : List UInt8}
    (hka : ka.length = binaryLength + 1) :
    memcmp (makeSortKeyPart forceSwap true true ka b) (makeSortKeyPart forceSwap true false kb b)
      (binaryLength + 1) < 0 := by
  have hz : writeAt ka 0 (List.replicate (binaryLength + 1) 0) =
      List.replicate (binaryLength + 1) 0 := by
    rw [writeAt, List.take_zero, List.nil_append, List.length_replicate, Nat.zero_add,
      List.drop_of_length_le (by omega), List.append_nil]
  simp only [makeSortKeyPart, if_true, Bool.false_eq_true, if_false, hz]
  simp [List.replicate_succ, memcmp]

/-! ## The order -/

/-- For `UUID<0>` and `UUID<1>`, `UUID::cmp` orders two values as the stored keys do: its sign
is that of `Field_fbt::cmp` on their records and of `memcmp` on their filesort keys, and it is
a total preorder. -/
theorem uuid_cmp_record_order (forceSwap : Bool) (a b c ta tb : List UInt8)
    (ha : a.length = binaryLength) (hb : b.length = binaryLength) (hc : c.length = binaryLength)
    (hta : ta.length = binaryLength) (htb : tb.length = binaryLength) :
    (cmp forceSwap a b).sign =
      (fieldFbtCmp (memoryToRecord forceSwap ta a) (memoryToRecord forceSwap tb b)).sign ∧
    (∀ (maybeNull : Bool) (ka kb : List UInt8), ka.length = sortKeyLength maybeNull →
      kb.length = sortKeyLength maybeNull →
      (memcmp (makeSortKeyPart forceSwap maybeNull false ka a)
        (makeSortKeyPart forceSwap maybeNull false kb b) (sortKeyLength maybeNull)).sign =
        (cmp forceSwap a b).sign) ∧
    cmp forceSwap a a = 0 ∧
    (cmp forceSwap b a).sign = -(cmp forceSwap a b).sign ∧
    (cmp forceSwap a b ≤ 0 ∨ cmp forceSwap b a ≤ 0) ∧
    (cmp forceSwap a b ≤ 0 → cmp forceSwap b c ≤ 0 → cmp forceSwap a c ≤ 0) := by
  have hab := cmp_nonpos_iff forceSwap ha hb
  have hba := cmp_nonpos_iff forceSwap hb ha
  refine ⟨by rw [cmp_eq_memcmp forceSwap ha hb hta htb]; rfl, ?_, ?_, ?_, ?_, ?_⟩
  · intro maybeNull ka kb hka hkb
    rw [memcmp_makeSortKeyPart forceSwap maybeNull ha hb hka hkb]
  · rw [cmp_eq_memcmp forceSwap ha ha hta hta, memcmp_self]
  · rw [sign_cmp forceSwap hb ha, sign_cmp forceSwap ha hb, ← Int.sign_neg, neg_sub]
  · rw [hab, hba]
    exact Nat.le_total _ _
  · -- both sides are the order of the record images read as numbers
    rw [hab, cmp_nonpos_iff forceSwap hb hc, cmp_nonpos_iff forceSwap ha hc]
    exact Nat.le_trans

/-- A time-based `UUID<0>` value against the zero value: it swaps and the zero value does not,
and both the comparison and the nullable sort keys put it after. -/
theorem uuid_cmp_record_order_time_based :
    (cmp false [0, 0, 0, 1, 0, 0, 0x11, 0, 0x80, 0, 0, 0, 0, 0, 0, 0]
      (List.replicate 16 0)).sign = 1 ∧
    (memcmp (makeSortKeyPart false true false (List.replicate 17 0)
        [0, 0, 0, 1, 0, 0, 0x11, 0, 0x80, 0, 0, 0, 0, 0, 0, 0])
      (makeSortKeyPart false true false (List.replicate 17 0) (List.replicate 16 0)) 17).sign = 1 := by
  have h := uuid_cmp_record_order false [0, 0, 0, 1, 0, 0, 0x11, 0, 0x80, 0, 0, 0, 0, 0, 0, 0]
    (List.replicate 16 0) (List.replicate 16 0) (List.replicate 16 0) (List.replicate 16 0)
    rfl rfl rfl rfl rfl
  have hcmp : (cmp false [0, 0, 0, 1, 0, 0, 0x11, 0, 0x80, 0, 0, 0, 0, 0, 0, 0]
      (List.replicate 16 0)).sign = 1 := by decide
  exact ⟨hcmp, (h.2.1 true (List.replicate 17 0) (List.replicate 17 0) rfl rfl).trans hcmp⟩

end MariaDB.Uuid
