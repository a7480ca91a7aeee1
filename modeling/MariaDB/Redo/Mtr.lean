import MariaDB.Redo.LogWrite
import MariaDB.Lib.Buffer

/-
  The writer side of page redo logging: the page operations of `mtr_t` (mtr0log.h) that change
  a frame and log the change.

  Model. A mini-transaction is seen from one page: the records written for the page, in order
  (`m_log` without the records of other pages), whether `m_last` is the page's block, and
  `m_last_offset`, a `uint16_t`. Each operation is the caller's change to the frame together
  with its record: `memcpy` and `write` log the bytes from the first one that changes,
  `memset` a fill with one byte, `memmove` a copy within the page, with the source encoded
  relative to the destination. A record for another page leaves `m_last` elsewhere, with the
  `m_last_offset` that page's record set. The log is always on (`is_logged()`).

  Proved:
  * `PageOp.run_keeps`, `runOps_keeps`: the operations keep the length of the frame and every
    byte outside the ranges they write.
-/

namespace MariaDB.Redo

open MariaDB.Lib

/-- `mtr_t::write_type`. -/
inductive WriteType where
  | normal | forced | maybeNop
  deriving Repr, DecidableEq

/-- A mini-transaction as one page sees it. -/
structure Mtr where
  log : List UInt8
  /-- `m_last == &block.page` -/
  last : Bool
  /-- `m_last_offset` -/
  lastOffset : Nat
  deriving Repr, DecidableEq

/-- `mtr_t::start()`: `m_last= nullptr; m_last_offset= 0;`. -/
def mtrStart : Mtr := ⟨[], false, 0⟩

section Writer

variable (space pageNo : Nat)

/-- `mtr_t::memcpy_low(block, offset, data, len)`: a `WRITE` record of `data`. Both of its
    branches, with the data in the record buffer or pushed after it, log the same bytes. -/
def memcpyLow (m : Mtr) (offset : Nat) (data : List UInt8) : Mtr :=
  ⟨m.log ++ logWrite .write space pageNo m.last m.lastOffset data.length offset ++ data, true,
    (offset + data.length) % 2 ^ 16⟩

/-- `mtr_t::memcpy(b, offset, len)`: log the `len` bytes of the frame at `offset`. -/
def memcpy (frame : List UInt8) (m : Mtr) (offset len : Nat) : Mtr :=
  memcpyLow space pageNo m offset (readAt frame offset len)

/-- `mtr_t::memcpy<w>(b, dest, str, len)`: unless `FORCED`, skip the bytes that are already
    there, and write nothing if all are. -/
def memcpyW (w : WriteType) (frame : List UInt8) (m : Mtr) (offset : Nat) (str : List UInt8) :
    List UInt8 × Mtr :=
  if w ≠ .forced then
    let k := matchLen (readAt frame offset str.length) str
    if k = str.length then (frame, m)
    else
      let frame := writeAt frame (offset + k) (str.drop k)
      (frame, memcpy space pageNo frame m (offset + k) (str.length - k))
  else
    let frame := writeAt frame offset str
    (frame, memcpy space pageNo frame m offset str.length)

/-- `mtr_t::write<l,w>(block, ptr, val)`: `val` in `l` big-endian bytes (`mach_write_to_l`),
    logged from the first byte that changes. -/
def write (l : Nat) (w : WriteType) (frame : List UInt8) (m : Mtr) (offset val : Nat) :
    List UInt8 × Mtr :=
  let buf := beBytes l val
  let p := if w ≠ .forced then matchLen (readAt frame offset l) buf else 0
  if w ≠ .forced ∧ p = l then (frame, m)
  else
    let frame := writeAt frame offset buf
    (frame, memcpyLow space pageNo m (offset + p) (readAt frame (offset + p) (l - p)))

/-- `mtr_t::memset(const buf_block_t &b, ofs, len, val)`: a `MEMSET` record of `len` copies of
    `val`. -/
def memsetLog (m : Mtr) (ofs len : Nat) (val : UInt8) : Mtr :=
  let lenlen := if len < min2Byte then 1 + 1 else if len < min3Byte then 2 + 1 else 3 + 1
  ⟨m.log ++ logWrite .memset space pageNo m.last m.lastOffset lenlen ofs ++
      mlogEncodeVarint len ++ [val], true, (ofs + len) % 2 ^ 16⟩

/-- `mtr_t::memset(const buf_block_t *b, ofs, len, val)`: fill and log. -/
def memset (frame : List UInt8) (m : Mtr) (ofs len : Nat) (val : UInt8) : List UInt8 × Mtr :=
  (writeAt frame ofs (List.replicate len val), memsetLog space pageNo m ofs len val)

/-- `mtr_t::memset(const buf_block_t &b, ofs, len, str, size)`: a `MEMSET` record of `len`
    bytes repeating the pattern `str`. -/
def memsetPatternLog (m : Mtr) (ofs len : Nat) (str : List UInt8) : Mtr :=
  let lenlen := if len < min2Byte then 1 else if len < min3Byte then 2 else 3
  ⟨m.log ++ logWrite .memset space pageNo m.last m.lastOffset (lenlen + str.length) ofs ++
      mlogEncodeVarint len ++ str, true, (ofs + len) % 2 ^ 16⟩

/-- `while (s < len) { ::memcpy(ofs + s + frame, str, size); s+= len; }`, with `fuel` bounding
    the iterations: the final `s` and the frame. -/
def memsetPatternLoop (str : List UInt8) (ofs len : Nat) : Nat → Nat → List UInt8 → Nat × List UInt8
  | 0, s, frame => (s, frame)
  | fuel + 1, s, frame =>
    if s < len then memsetPatternLoop str ofs len fuel (s + len) (writeAt frame (ofs + s) str)
    else (s, frame)

/-- `mtr_t::memset(const buf_block_t *b, ofs, len, str, size)`: the loop, the trailing
    `::memcpy(ofs + s + frame, str, len - s)`, and the record. -/
def memsetPattern (frame : List UInt8) (m : Mtr) (ofs len : Nat) (str : List UInt8) :
    List UInt8 × Mtr :=
  match memsetPatternLoop str ofs len len 0 frame with
  | (s, f) => (writeAt f (ofs + s) (str.take (len - s)), memsetPatternLog space pageNo m ofs len str)

/-- The source of a `MEMMOVE` as `mtr_t::memmove` writes it: twice its distance from the
    destination, odd when it lies before, minus `2`. -/
def memmoveDistance (d s : Nat) : Nat :=
  let s := if s > d then (s - d) <<< 1 else (d - s) <<< 1 ||| 1
  s - (1 <<< 1)

/-- `mtr_t::memmove(b, d, s, len)`: a `MEMMOVE` record. -/
def memmoveLog (m : Mtr) (d s len : Nat) : Mtr :=
  let lenlen := if len < min2Byte then 1 else if len < min3Byte then 2 else 3
  let s := memmoveDistance d s
  let slen := if s < min2Byte then 1 else if s < min3Byte then 2 else 3
  ⟨m.log ++ logWrite .memmove space pageNo m.last m.lastOffset (lenlen + slen) d ++
      mlogEncodeVarint len ++ mlogEncodeVarint s, true, (d + len) % 2 ^ 16⟩

end Writer

/-! ## Operations on a page -/

/-- A page operation of a mini-transaction: the caller's change to the frame with its record. -/
inductive PageOp where
  /-- `mtr_t::memcpy<w>(b, frame + offset, data, len)` -/
  | memcpy (w : WriteType) (offset : Nat) (data : List UInt8)
  /-- `mtr_t::write<l,w>(b, frame + offset, val)` -/
  | write (l : Nat) (w : WriteType) (offset val : Nat)
  /-- `mtr_t::memset(&b, offset, len, val)` -/
  | memset (offset len : Nat) (val : UInt8)
  /-- `memmove(frame + d, frame + s, len)` followed by `mtr_t::memmove(b, d, s, len)` -/
  | memmove (d s len : Nat)
  /-- a record for another page, which leaves this `m_last_offset` -/
  | elsewhere (lastOffset : Nat)
  deriving Repr, DecidableEq

namespace PageOp

/-- The preconditions the source asserts (`ut_ad`), on a page of `size` bytes, with the
    destination and source past the first `8` header bytes. -/
def Valid (size : Nat) : PageOp → Prop
  | memcpy _ offset data => 0 < data.length ∧ 8 ≤ offset ∧ offset + data.length ≤ size
  | write l _ offset _ => (l = 1 ∨ l = 2 ∨ l = 4 ∨ l = 8) ∧ 8 ≤ offset ∧ offset + l ≤ size
  | memset offset len _ => 0 < len ∧ 8 ≤ offset ∧ offset + len ≤ size
  | memmove d s len => 0 < len ∧ 8 ≤ d ∧ 8 ≤ s ∧ s ≠ d ∧ d + len ≤ size ∧ s + len ≤ size
  | elsewhere _ => True

instance (size : Nat) : (op : PageOp) → Decidable (op.Valid size)
  | memcpy _ offset data =>
    inferInstanceAs (Decidable (0 < data.length ∧ 8 ≤ offset ∧ offset + data.length ≤ size))
  | write l _ offset _ =>
    inferInstanceAs (Decidable ((l = 1 ∨ l = 2 ∨ l = 4 ∨ l = 8) ∧ 8 ≤ offset ∧ offset + l ≤ size))
  | memset offset len _ => inferInstanceAs (Decidable (0 < len ∧ 8 ≤ offset ∧ offset + len ≤ size))
  | memmove d s len =>
    inferInstanceAs (Decidable (0 < len ∧ 8 ≤ d ∧ 8 ≤ s ∧ s ≠ d ∧ d + len ≤ size ∧ s + len ≤ size))
  | elsewhere _ => inferInstanceAs (Decidable True)

/-- The bytes the operation may change: `offset ≤ i < offset + len`. -/
def Writes (i : Nat) : PageOp → Prop
  | memcpy _ offset data => offset ≤ i ∧ i < offset + data.length
  | write l _ offset _ => offset ≤ i ∧ i < offset + l
  | memset offset len _ => offset ≤ i ∧ i < offset + len
  | memmove d _ len => d ≤ i ∧ i < d + len
  | elsewhere _ => False

/-- The operation on the frame and the mini-transaction. -/
def run (space pageNo : Nat) (op : PageOp) (frame : List UInt8) (m : Mtr) : List UInt8 × Mtr :=
  match op with
  | memcpy w offset data => memcpyW space pageNo w frame m offset data
  | write l w offset val => Redo.write space pageNo l w frame m offset val
  | memset offset len val => Redo.memset space pageNo frame m offset len val
  | memmove d s len => (writeAt frame d (readAt frame s len), memmoveLog space pageNo m d s len)
  | elsewhere lastOffset => (frame, { m with last := false, lastOffset := lastOffset % 2 ^ 16 })

end PageOp

/-- A sequence of page operations, from a frame and a mini-transaction. -/
def runOps (space pageNo : Nat) : List PageOp → List UInt8 → Mtr → List UInt8 × Mtr
  | [], frame, m => (frame, m)
  | op :: ops, frame, m =>
    runOps space pageNo ops (op.run space pageNo frame m).1 (op.run space pageNo frame m).2

/-! ## What each operation appends to the log -/

section Log

variable {space pageNo : Nat}

theorem memcpyLow_log (m : Mtr) (offset : Nat) (data : List UInt8) :
    (memcpyLow space pageNo m offset data).log =
      m.log ++ (logWrite .write space pageNo m.last m.lastOffset data.length offset ++ data) := by
  simp [memcpyLow]

theorem memsetLog_log (m : Mtr) (ofs len : Nat) (val : UInt8) :
    (memsetLog space pageNo m ofs len val).log =
      m.log ++ (logWrite .memset space pageNo m.last m.lastOffset
        (if len < min2Byte then 1 + 1 else if len < min3Byte then 2 + 1 else 3 + 1) ofs ++
        (mlogEncodeVarint len ++ [val])) := by
  simp [memsetLog]

theorem memmoveLog_log (m : Mtr) (d s len : Nat) :
    (memmoveLog space pageNo m d s len).log =
      m.log ++ (logWrite .memmove space pageNo m.last m.lastOffset
        ((if len < min2Byte then 1 else if len < min3Byte then 2 else 3) +
          (if memmoveDistance d s < min2Byte then 1
            else if memmoveDistance d s < min3Byte then 2 else 3)) d ++
        (mlogEncodeVarint len ++ mlogEncodeVarint (memmoveDistance d s))) := by
  simp [memmoveLog]

end Log

/-! ## The frame: its length, and the bytes no operation writes -/

section Frame

variable {space pageNo : Nat}

/-- What a write inside the frame keeps: the length, and every byte outside `[lo, hi)`. -/
def Keeps (frame frame' : List UInt8) (lo hi : Nat) : Prop :=
  frame'.length = frame.length ∧ ∀ i, i < lo ∨ hi ≤ i → frame'[i]? = frame[i]?

theorem keeps_refl (frame : List UInt8) (lo hi : Nat) : Keeps frame frame lo hi :=
  ⟨rfl, fun _ _ => rfl⟩

theorem keeps_writeAt {frame data : List UInt8} {off lo hi : Nat}
    (h : off + data.length ≤ frame.length) (hlo : lo ≤ off) (hhi : off + data.length ≤ hi) :
    Keeps frame (writeAt frame off data) lo hi :=
  ⟨length_writeAt h, fun _ hi' => getElem?_writeAt_outside h (by omega)⟩

theorem memcpyW_keeps (w : WriteType) {frame : List UInt8} {m : Mtr} {offset : Nat}
    {str : List UInt8} (h : offset + str.length ≤ frame.length) :
    Keeps frame (memcpyW space pageNo w frame m offset str).1 offset (offset + str.length) := by
  unfold memcpyW
  split
  · dsimp only
    split
    · exact keeps_refl frame _ _
    · -- only the bytes from the first that changes are written
      have hk := matchLen_le_right (readAt frame offset str.length) str
      exact keeps_writeAt (by rw [List.length_drop]; omega) (by omega)
        (by rw [List.length_drop]; omega)
  · exact keeps_writeAt h le_rfl le_rfl

theorem write_keeps (l : Nat) (w : WriteType) {frame : List UInt8} {m : Mtr} {offset val : Nat}
    (h : offset + l ≤ frame.length) :
    Keeps frame (write space pageNo l w frame m offset val).1 offset (offset + l) := by
  unfold write
  dsimp only
  -- the frame is untouched, or the whole buffer is written
  split_ifs
  all_goals first
    | exact keeps_refl frame _ _
    | exact keeps_writeAt (by rw [beBytes_length]; exact h) le_rfl (by rw [beBytes_length])

/-- Each operation keeps the length of the frame and the bytes it does not write. -/
theorem PageOp.run_keeps (space pageNo : Nat) {op : PageOp} {frame : List UInt8}
    (hv : op.Valid frame.length) (m : Mtr) : (op.run space pageNo frame m).1.length = frame.length ∧
      ∀ i, ¬ op.Writes i → (op.run space pageNo frame m).1[i]? = frame[i]? := by
  -- every operation is a `Keeps` of its own range
  have hk : ∃ lo hi, Keeps frame (op.run space pageNo frame m).1 lo hi ∧
      ∀ i, ¬ op.Writes i → i < lo ∨ hi ≤ i := by
    cases op with
    | memcpy w offset data =>
      exact ⟨_, _, memcpyW_keeps w hv.2.2, fun i hi => by simp only [Writes] at hi; omega⟩
    | write l w offset val =>
      exact ⟨_, _, write_keeps l w hv.2.2, fun i hi => by simp only [Writes] at hi; omega⟩
    | memset offset len val =>
      refine ⟨offset, offset + len, keeps_writeAt (by simp; exact hv.2.2) le_rfl (by simp),
        fun i hi => by simp only [Writes] at hi; omega⟩
    | memmove d s len =>
      have hr : (readAt frame s len).length = len := length_readAt hv.2.2.2.2.2
      refine ⟨d, d + len, keeps_writeAt (by rw [hr]; exact hv.2.2.2.2.1) le_rfl (by rw [hr]),
        fun i hi => by simp only [Writes] at hi; omega⟩
    | elsewhere lastOffset => exact ⟨0, 0, keeps_refl frame 0 0, fun i _ => by omega⟩
  obtain ⟨lo, hi, ⟨hlen, hout⟩, hw⟩ := hk
  exact ⟨hlen, fun i hi' => hout i (hw i hi')⟩

/-- A run keeps the length of the frame and every byte that no operation writes. -/
theorem runOps_keeps : ∀ (ops : List PageOp) (frame : List UInt8) (m : Mtr),
    (∀ op ∈ ops, op.Valid frame.length) →
    (runOps space pageNo ops frame m).1.length = frame.length ∧
      ∀ i, (∀ op ∈ ops, ¬ op.Writes i) → (runOps space pageNo ops frame m).1[i]? = frame[i]?
  | [], frame, m, _ => ⟨rfl, fun _ _ => rfl⟩
  | op :: ops, frame, m, hv => by
    obtain ⟨hlen, hout⟩ := PageOp.run_keeps space pageNo (hv op List.mem_cons_self) m
    have ih := runOps_keeps ops (op.run space pageNo frame m).1 (op.run space pageNo frame m).2
      (fun op' h => hlen ▸ hv op' (List.mem_cons_of_mem _ h))
    refine ⟨ih.1.trans hlen, fun i hi => ?_⟩
    rw [runOps, ih.2 i (fun op' h => hi op' (List.mem_cons_of_mem _ h)),
      hout i (hi op List.mem_cons_self)]

end Frame

end MariaDB.Redo
