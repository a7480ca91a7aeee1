import MariaDB.Redo.LogWrite
import MariaDB.Lib.Buffer

/-
  Applying the redo records of one page: `log_phys_t::apply` (log0recv.cc).

  Model. The records of one mini-transaction for one page, as `log_phys_t` keeps them, end in
  a NUL byte. `apply` walks them with `parse_length`, skips the page identifier of a record
  without the same-page flag (it resets `last_offset`), and dispatches on the type: `INIT_PAGE`
  zero-fills the frame and writes the page header fields, `FREE_PAGE` forbids a following
  same-page record (`last_offset= 1`), `OPTION` checks a page checksum, `EXTENDED` decodes its
  varint fields and hands them to the page operations, and `WRITE`, `MEMSET` and `MEMMOVE`
  read an offset, relative to `last_offset`, and change the frame there. `last_offset` is a
  `uint16_t` and the source offset of `MEMMOVE` a `uint32_t`; both wrap as in C.

  Every branch keeps `l + rlen` at the end of the record, so the loop's `l+= rlen` always
  lands where `parse_length` said the record ends; the model computes that place once. The
  page operations behind `EXTENDED` and `OPTION` records (`page_create_low`,
  `page_apply_insert_*`, `page_apply_delete_*`, `trx_undo_page_init`, the CRC-32C of
  `page_checksum`) are parameters: only their effect on the frame and their corruption flag
  enter. A write outside the frame, or a `MEMSET` loop that never ends, is `undefined`.

  Proved:
  * `readField_encode`: a varint field the writer encoded reads back, subject to its check;
  * `applyLoop_of_applied`: a record the loop body applies sends the loop to the record's end;
  * `applyRecord_write`, `applyRecord_memset`, `applyRecord_memmove`: the three page writes,
    on bodies with their fields in range, change the frame at `last_offset` plus the offset.
-/

namespace MariaDB.Redo

open MariaDB.Lib

/-! ## Page layout -/

/-- `FIL_PAGE_OFFSET`: the page number in the page header. -/
def filPageOffset : Nat := 4

/-- `FIL_PAGE_PREV`, followed by `FIL_PAGE_NEXT`. -/
def filPagePrev : Nat := 8

/-- `FIL_PAGE_TYPE`. -/
def filPageType : Nat := 24

/-- `FIL_PAGE_SPACE_ID`. -/
def filPageSpaceId : Nat := 34

/-- `FSP_HEADER_OFFSET = FIL_PAGE_DATA`, also `TRX_UNDO_PAGE_HDR`. -/
def fspHeaderOffset : Nat := 38

/-- `FIL_PAGE_DATA_END`: the page trailer. -/
def filPageDataEnd : Nat := 8

/-- `FSP_SIZE`, `FSP_FREE`, `FLST_LEN`: fields of the tablespace header. -/
def fspSize : Nat := 8

def fspFree : Nat := 24

def flstLen : Nat := 0

/-- `MAGIC_SZ` and `MY_AES_BLOCK_SIZE` of the encryption header. -/
def magicSz : Nat := 6

def myAesBlockSize : Nat := 16

/-- `TRX_UNDO_PAGE_FREE` and `TRX_UNDO_PAGE_HDR_SIZE = 6 + FLST_NODE_SIZE`. -/
def trxUndoPageFree : Nat := 4

def trxUndoPageHdrSize : Nat := 6 + 12

/-! ## What `apply` reads and returns -/

/-- `apply_status`. -/
inductive ApplyStatus where
  | appliedNo | appliedYes | appliedToEncryption | appliedToFspHeader | appliedCorrupted
  deriving Repr, DecidableEq

/-- `next_after_applying`: `if (applied == APPLIED_NO) applied= APPLIED_YES;`. -/
def ApplyStatus.touch : ApplyStatus → ApplyStatus
  | appliedNo => appliedYes
  | s => s

/-- The block `apply` works on, recovery's settings, and the page operations it calls. The
    frame is `block.page.zip.data` or `block.page.frame`; each operation returns the frame
    and whether it found the page corrupted. -/
structure ApplyEnv where
  space : Nat
  pageNo : Nat
  /-- `block.physical_size()` -/
  size : Nat
  /-- `srv_page_size` -/
  srvPageSize : Nat
  /-- `block.page.zip.ssize` -/
  zipSsize : Nat
  /-- `srv_force_recovery` -/
  forceRecovery : Nat
  /-- `fsp_header_get_encryption_offset(block.zip_size())` -/
  encryptionOffset : Nat
  /-- `page_create_low(&block, comp)` -/
  pageCreateLow : Bool → List UInt8 → List UInt8
  /-- `trx_undo_page_init(block)` -/
  trxUndoPageInit : List UInt8 → List UInt8
  /-- `page_apply_insert_dynamic(block, reuse, prev, shift, enc_hdr_l, hdr_c, data_c, data)` -/
  pageApplyInsertDynamic :
    List UInt8 → Bool → Nat → Nat → Nat → Nat → Nat → List UInt8 → List UInt8 × Bool
  /-- `page_apply_insert_redundant(block, reuse, prev, enc_hdr, hdr_c, data_c, data)` -/
  pageApplyInsertRedundant :
    List UInt8 → Bool → Nat → Nat → Nat → Nat → List UInt8 → List UInt8 × Bool
  /-- `page_apply_delete_redundant(block, prev)` -/
  pageApplyDeleteRedundant : List UInt8 → Nat → List UInt8 × Bool
  /-- `page_apply_delete_dynamic(block, prev, hdr_size, data_size)` -/
  pageApplyDeleteDynamic : List UInt8 → Nat → Nat → Nat → List UInt8 × Bool
  /-- the CRC-32C over the page that `page_checksum` compares with the record's -/
  pageCrc : List UInt8 → Nat

/-- How one record leaves the loop body. -/
inductive RecordResult where
  /-- `next_after_applying`, with the new `last_offset` and status -/
  | applied (frame : List UInt8) (lastOffset : Nat) (status : ApplyStatus)
  /-- `next_not_same_page`: the next record must not be same-page -/
  | notSamePage
  /-- `record_corrupted`, with `last_offset` as it was there -/
  | recordCorrupted (lastOffset : Nat)
  /-- `page_corrupted` -/
  | pageCorrupted (frame : List UInt8) (lastOffset : Nat)
  /-- a copy outside the frame, or a loop that does not end -/
  | undefined
  deriving Repr, DecidableEq

/-- What `apply` returns: its status, with the frame and `last_offset` it leaves, and whether
    it flagged the log corrupted (`log_set_corrupt()`). -/
inductive ApplyOutcome where
  | done (status : ApplyStatus) (frame : List UInt8) (lastOffset : Nat) (logCorrupt : Bool)
  | undefined
  | outOfFuel
  deriving Repr, DecidableEq

/-! ## Reading fields -/

/-- One varint field of a record body: the length its first byte announces, the check
    `bad ll rlen` (`record_corrupted` when it holds), then the value, the bytes after it and
    what is left of `rlen`. -/
def readField (bad : Nat → Nat → Bool) (l : List UInt8) (rlen : Nat) :
    Option (Nat × List UInt8 × Nat) :=
  let ll := mlogDecodeVarintLength (l.headD 0)
  if bad ll rlen then none else some (mlogDecodeVarint l, l.drop ll, rlen - ll)

/-- `ll > max || ll >= rlen`: a field that more bytes follow. -/
def notLast (max ll rlen : Nat) : Bool := decide (ll > max) || decide (ll ≥ rlen)

/-- `ll > max || ll > rlen`: a field that may end the record. -/
def mayEnd (max ll rlen : Nat) : Bool := decide (ll > max) || decide (ll > rlen)

/-- `ll != rlen || ll > max`: the field that ends the record. -/
def ends (max ll rlen : Nat) : Bool := decide (ll ≠ rlen) || decide (ll > max)

/-! ## Record types -/

/-- `INIT_PAGE`: zero the frame, then write the page number, `FIL_NULL` neighbours and the
    space id. -/
def initFrame (env : ApplyEnv) : List UInt8 :=
  let f := List.replicate env.size 0
  let f := writeAt f filPageOffset (beBytes 4 env.pageNo)
  let f := writeAt f filPagePrev (List.replicate 8 0xff)
  writeAt f filPageSpaceId (beBytes 4 env.space)

/-- `page_checksum`: whether an unrecoverable checksum mismatch was found. -/
def pageChecksum (env : ApplyEnv) (frame l : List UInt8) : Bool :=
  if env.pageCrc frame = beVal (l.take 4) then false else decide (env.forceRecovery = 0)

/-- `log_phys_t::undo_append`: append an undo log record at `TRX_UNDO_PAGE_FREE`, or report
    corruption. -/
def undoAppend (env : ApplyEnv) (frame data : List UInt8) : List UInt8 × Bool :=
  let freeP := fspHeaderOffset + trxUndoPageFree
  let free := beVal (readAt frame freeP 2)
  if free < fspHeaderOffset + trxUndoPageHdrSize ∨
      free + data.length + 6 ≥ env.srvPageSize - filPageDataEnd then (frame, true)
  else
    let f := writeAt frame freeP (beBytes 2 (free + 4 + data.length))
    let f := writeAt f free (readAt f freeP 2)
    let f := writeAt f (free + 2) data
    (writeAt f (free + 2 + data.length) (beBytes 2 free), false)

/-- The `INSERT_*` subtypes `4` to `7`: bit `2` says `DYNAMIC`, bit `1` reuse of a freed
    record. `none` is `record_corrupted`. -/
def applyInsert (env : ApplyEnv) (frame : List UInt8) (subtype : Nat) (l : List UInt8)
    (rlen : Nat) : Option (List UInt8 × Bool) :=
  if rlen < 2 then none else do
    let (prevRec, l, rlen) ← readField (notLast 3) (l.drop 1) (rlen - 1)
    if subtype &&& 2 ≠ 0 then
      let (shift, l, rlen) ←
        if subtype &&& 1 ≠ 0 then readField (notLast 3) l rlen else some (0, l, rlen)
      let (encHdrL, l, rlen) ← readField (notLast 3) l rlen
      let (hdrC, l, rlen) ← readField (notLast 2) l rlen
      let (dataC, l, rlen) ← readField (mayEnd 3) l rlen
      some (env.pageApplyInsertDynamic frame (subtype &&& 1 ≠ 0) prevRec shift encHdrL hdrC dataC
        (l.take rlen))
    else
      let (header, l, rlen) ← readField (notLast 2) l rlen
      let (hdrC, l, rlen) ← readField (notLast 2) l rlen
      let (dataC, l, rlen) ← readField (mayEnd 2) l rlen
      some (env.pageApplyInsertRedundant frame (subtype &&& 1 ≠ 0) prevRec header hdrC dataC
        (l.take rlen))

/-- The subtypes of an `EXTENDED` record (`mrec_ext_t`), on the frame. `none` is
    `record_corrupted`. -/
def applyExtendedOp (env : ApplyEnv) (frame : List UInt8) (l : List UInt8) (rlen : Nat) :
    Option (List UInt8 × Bool) :=
  let subtype := (l.headD 0).toNat
  -- `INIT_ROW_FORMAT_REDUNDANT`, `INIT_ROW_FORMAT_DYNAMIC`
  if subtype ≤ 1 then
    if rlen ≠ 1 then none else some (env.pageCreateLow (subtype ≠ 0) frame, false)
  -- `UNDO_INIT`
  else if subtype = 2 then
    if rlen ≠ 1 then none else some (env.trxUndoPageInit frame, false)
  -- `UNDO_APPEND`
  else if subtype = 3 then
    if rlen ≤ 3 then none else some (undoAppend env frame ((l.drop 1).take (rlen - 1)))
  else if subtype ≤ 7 then applyInsert env frame subtype l rlen
  -- `DELETE_ROW_FORMAT_REDUNDANT`
  else if subtype = 8 then
    if rlen < 2 ∨ rlen > 4 then none else do
      let (prevRec, _, _) ← readField (fun ll rlen => decide (ll ≠ rlen)) (l.drop 1) (rlen - 1)
      some (env.pageApplyDeleteRedundant frame prevRec)
  -- `DELETE_ROW_FORMAT_DYNAMIC`
  else if subtype = 9 then
    if rlen < 2 then none else do
      let (prevRec, l, rlen) ← readField (notLast 3) (l.drop 1) (rlen - 1)
      let (hdrSize, l, rlen) ← readField (notLast 2) l rlen
      let (dataSize, _, _) ← readField (ends 3) l rlen
      some (env.pageApplyDeleteDynamic frame prevRec hdrSize dataSize)
  else none

/-- `case EXTENDED`: only on index or undo pages of an uncompressed tablespace. -/
def applyExtended (env : ApplyEnv) (frame : List UInt8) (lastOffset : Nat) (status : ApplyStatus)
    (l : List UInt8) (rlen : Nat) : RecordResult :=
  if env.pageNo < 3 ∨ env.zipSsize ≠ 0 ∨ rlen = 0 then .recordCorrupted lastOffset
  else match applyExtendedOp env frame l rlen with
    | none => .recordCorrupted lastOffset
    | some (f, corrupt) =>
      if corrupt ∧ env.forceRecovery = 0 then .pageCorrupted f lastOffset
      else .applied f filPageType status

/-- The status after a `WRITE` of `llen` bytes at `last_offset`: on page 0, a write of the
    encryption parameters or of the tablespace size is reported. -/
def writeStatus (env : ApplyEnv) (lastOffset llen : Nat) (status : ApplyStatus) : ApplyStatus :=
  if env.pageNo ≠ 0 then status
  else if llen = 11 + myAesBlockSize ∧
      lastOffset = fspHeaderOffset + magicSz + env.encryptionOffset then .appliedToEncryption
  else if lastOffset < fspHeaderOffset + fspFree + flstLen + 4 ∧
      lastOffset + llen ≥ fspHeaderOffset + fspSize then .appliedToFspHeader
  else status

/-- A `WRITE` of the `rlen` bytes at `l` to `last_offset`. -/
def applyWrite (env : ApplyEnv) (frame : List UInt8) (lastOffset : Nat) (status : ApplyStatus)
    (l : List UInt8) (rlen : Nat) : RecordResult :=
  if (rlen + lastOffset) % 2 ^ 32 > env.size then .recordCorrupted lastOffset
  else
    .applied (writeAt frame lastOffset (l.take rlen)) ((lastOffset + rlen) % 2 ^ 16)
      (writeStatus env lastOffset rlen status)

/-- `for (s= 0; s < llen; s+= rlen) memcpy(frame + last_offset + s, l, rlen);`, with `fuel`
    bounding the iterations; the final `s` and the frame. -/
def memsetLoop (pat : List UInt8) (base llen : Nat) : Nat → Nat → List UInt8 → Nat × List UInt8
  | 0, s, frame => (s, frame)
  | fuel + 1, s, frame =>
    if s < llen then memsetLoop pat base llen fuel (s + pat.length) (writeAt frame (base + s) pat)
    else (s, frame)

/-- A `MEMSET` of `len` bytes at `last_offset` with the `rlen`-byte pattern at `l`. A pattern
    longer than one byte is repeated by the loop, and the trailing
    `memcpy(..., llen - s)` is in range only when the pattern length divides `len`. -/
def applyMemset (frame : List UInt8) (lastOffset : Nat) (status : ApplyStatus) (len : Nat)
    (l : List UInt8) (rlen : Nat) : RecordResult :=
  if rlen ≠ 1 then
    if rlen = 0 ∧ 0 < len then .undefined
    else match memsetLoop (l.take rlen) lastOffset len len 0 frame with
      | (s, f) => if s = len then .applied f ((lastOffset + len) % 2 ^ 16) status else .undefined
  else
    .applied (writeAt frame lastOffset (List.replicate len (l.headD 0)))
      ((lastOffset + len) % 2 ^ 16) status

/-- A `MEMMOVE` of `len` bytes to `last_offset` from the source the last varint encodes:
    `last_offset - (s >> 1) - 1` if `s` is odd, else `last_offset + (s >> 1) + 1`, in
    `uint32_t`. -/
def applyMemmove (env : ApplyEnv) (frame : List UInt8) (lastOffset : Nat) (status : ApplyStatus)
    (len : Nat) (l : List UInt8) (rlen : Nat) : RecordResult :=
  match readField (ends 3) l rlen with
  | none => .recordCorrupted lastOffset
  | some (s, _, _) =>
    let src := if s &&& 1 = 1 then (lastOffset + 2 ^ 32 - (s >>> 1) - 1) % 2 ^ 32
      else (lastOffset + (s >>> 1) + 1) % 2 ^ 32
    if src ≥ 8 ∧ (src + len) % 2 ^ 32 ≤ env.size then
      if src + len ≤ frame.length then
        .applied (writeAt frame lastOffset (readAt frame src len)) ((lastOffset + len) % 2 ^ 16)
          status
      else .undefined
    else .recordCorrupted lastOffset

/-- `case WRITE: case MEMSET: case MEMMOVE:` the offset, relative to `last_offset`, then the
    operation. -/
def applyPageWrite (env : ApplyEnv) (type : MrecType) (frame : List UInt8) (lastOffset : Nat)
    (status : ApplyStatus) (l : List UInt8) (rlen : Nat) : RecordResult :=
  if lastOffset = 1 then .recordCorrupted lastOffset
  else match readField (notLast 3) l rlen with
  | none => .recordCorrupted lastOffset
  | some (offset, l, rlen) =>
    if offset ≥ env.size ∨ offset + lastOffset < 8 ∨ offset + lastOffset ≥ env.size then
      .recordCorrupted lastOffset
    else
      let lastOffset := (lastOffset + offset) % 2 ^ 16
      if type = .write then applyWrite env frame lastOffset status l rlen
      else match readField (mayEnd 3) l rlen with
        | none => .recordCorrupted lastOffset
        | some (len, l, rlen) =>
          if len + lastOffset > env.size then .recordCorrupted lastOffset
          else if type = .memset then applyMemset frame lastOffset status len l rlen
          else applyMemmove env frame lastOffset status len l rlen

/-- The body of the loop after the page identifier: `switch (b & 0x70)`. -/
def applyRecord (env : ApplyEnv) (type : MrecType) (frame : List UInt8) (lastOffset : Nat)
    (status : ApplyStatus) (l : List UInt8) (rlen : Nat) : RecordResult :=
  match type with
  | .freePage => .notSamePage
  | .initPage => if rlen = 0 then .applied (initFrame env) filPageType status
      else .recordCorrupted lastOffset
  | .option => if pageChecksum env frame (l.drop 1) then .pageCorrupted frame lastOffset
      else .applied frame lastOffset status
  | .extended => applyExtended env frame lastOffset status l rlen
  | .reserved => .recordCorrupted lastOffset
  | .write | .memset | .memmove => applyPageWrite env type frame lastOffset status l rlen

/-- The loop of `log_phys_t::apply`, one record per unit of `fuel`. -/
def applyLoop (env : ApplyEnv) : Nat → List UInt8 → List UInt8 → Nat → ApplyStatus → ApplyOutcome
  | 0, _, _, _, _ => .outOfFuel
  | fuel + 1, l, frame, lastOffset, applied =>
    let b := (l.headD 0).toNat
    if b = 0 then .done applied frame lastOffset false
    else
      let p := (parseLength l).1
      let rlen := (parseLength l).2
      let body := l.drop p
      -- without the same-page flag: skip the identifier, which `recv_sys_t::parse` checked
      let idLen := if b &&& 0x80 = 0 then pageIdLen body else 0
      let lastOffset := if b &&& 0x80 = 0 then 0 else lastOffset
      let next := l.drop (p + rlen)
      match applyRecord env (MrecType.ofByte b) frame lastOffset applied (body.drop idLen)
          (rlen - idLen) with
      | .applied frame lastOffset status => applyLoop env fuel next frame lastOffset status.touch
      | .notSamePage => applyLoop env fuel next frame 1 applied
      | .recordCorrupted lastOffset =>
        if env.forceRecovery = 0 then .done applied frame lastOffset true
        else applyLoop env fuel next frame 1 applied
      | .pageCorrupted frame lastOffset => .done .appliedCorrupted frame lastOffset false
      | .undefined => .undefined

/-- `log_phys_t::apply(block, last_offset)` on the records `recs`, which `log_phys_t` ends with
    a NUL byte. Every record is at least one byte, so one unit of fuel per byte suffices. -/
def logPhysApply (env : ApplyEnv) (recs frame : List UInt8) (lastOffset : Nat) : ApplyOutcome :=
  applyLoop env (recs.length + 1) (recs ++ [0]) frame lastOffset .appliedNo

/-! ## The loop on one applied record -/

/-- A field the writer encoded reads back, subject to the check. -/
theorem readField_encode {i : Nat} (hi : i < 2 ^ 32) (bad : Nat → Nat → Bool) (r : List UInt8)
    (rlen : Nat) :
    readField bad (mlogEncodeVarint i ++ r) rlen =
      if bad (mlogEncodeVarint i).length rlen then none
      else some (i, r, rlen - (mlogEncodeVarint i).length) := by
  obtain ⟨hv, hlen⟩ := mlogDecodeVarint_encode hi r
  simp only [readField, hlen, hv, List.drop_left]

section LoopTurn

variable {env : ApplyEnv} {fuel : Nat} {l frame : List UInt8} {lo : Nat} {st : ApplyStatus}
  {type : MrecType} {p rlen k r lo₀ : Nat} {cur next : List UInt8}

/-- One turn of the loop on a record that is not the terminating `0`: what the body makes of
    the record decides how the loop goes on. -/
theorem applyLoop_of_record (hb : (l.headD 0).toNat ≠ 0)
    (htype : MrecType.ofByte (l.headD 0).toNat = type) (hparse : parseLength l = (p, rlen))
    (hid : (if (l.headD 0).toNat &&& 0x80 = 0 then pageIdLen (l.drop p) else 0) = k)
    (hlo : (if (l.headD 0).toNat &&& 0x80 = 0 then 0 else lo) = lo₀)
    (hcur : (l.drop p).drop k = cur) (hrlen : rlen - k = r) (hnext : l.drop (p + rlen) = next) :
    applyLoop env (fuel + 1) l frame lo st =
      match applyRecord env type frame lo₀ st cur r with
      | .applied frame lastOffset status => applyLoop env fuel next frame lastOffset status.touch
      | .notSamePage => applyLoop env fuel next frame 1 st
      | .recordCorrupted lastOffset =>
        if env.forceRecovery = 0 then .done st frame lastOffset true
        else applyLoop env fuel next frame 1 st
      | .pageCorrupted frame lastOffset => .done .appliedCorrupted frame lastOffset false
      | .undefined => .undefined := by
  simp only [applyLoop, hb, if_false, htype, hparse, hid, hlo, hcur, hrlen, hnext]

/-- When the body of the loop applies a record, the loop goes on where the record ends. -/
theorem applyLoop_of_applied {f : List UInt8} {lo' : Nat} {st' : ApplyStatus}
    (hb : (l.headD 0).toNat ≠ 0)
    (htype : MrecType.ofByte (l.headD 0).toNat = type) (hparse : parseLength l = (p, rlen))
    (hid : (if (l.headD 0).toNat &&& 0x80 = 0 then pageIdLen (l.drop p) else 0) = k)
    (hlo : (if (l.headD 0).toNat &&& 0x80 = 0 then 0 else lo) = lo₀)
    (hcur : (l.drop p).drop k = cur) (hrlen : rlen - k = r) (hnext : l.drop (p + rlen) = next)
    (h : applyRecord env type frame lo₀ st cur r = .applied f lo' st') :
    applyLoop env (fuel + 1) l frame lo st = applyLoop env fuel next f lo' st'.touch := by
  rw [applyLoop_of_record hb htype hparse hid hlo hcur hrlen hnext, h]

end LoopTurn

/-! ## The three page writes on what the writer wrote -/

section PageWrites

variable {env : ApplyEnv} {lo o : Nat}

/-- The offset field: with the applier's `last_offset` at `lo`, a written offset `o` puts the
    write at `lo + o`, which the checks accept inside the page and past its first `8` bytes. -/
theorem applyPageWrite_offset (type : MrecType) (body : List UInt8) {frame : List UInt8}
    {st : ApplyStatus} {rlen : Nat} (hlo : lo ≠ 1) (h8 : 8 ≤ lo + o) (hin : lo + o < env.size) (hsize : env.size ≤ 65536)
    (hmore : 0 < rlen) :
    applyPageWrite env type frame lo st (mlogEncodeVarint o ++ body)
        ((mlogEncodeVarint o).length + rlen) =
      if type = .write then applyWrite env frame (lo + o) st body rlen
      else match readField (mayEnd 3) body rlen with
        | none => .recordCorrupted (lo + o)
        | some (len, l, rlen) =>
          if len + (lo + o) > env.size then .recordCorrupted (lo + o)
          else if type = .memset then applyMemset frame (lo + o) st len l rlen
          else applyMemmove env frame (lo + o) st len l rlen := by
  have ho32 : o < 2 ^ 32 := by omega
  have hol := length_mlogEncodeVarint_le_three (show o < min4Byte by rw [min4Byte_eq]; omega)
  have hmod : (lo + o) % 2 ^ 16 = lo + o := Nat.mod_eq_of_lt (by omega)
  unfold applyPageWrite
  rw [if_neg hlo, readField_encode ho32]
  simp only [notLast, Nat.add_sub_cancel_left]
  rw [if_neg (by simp only [Bool.or_eq_true, decide_eq_true_eq]; omega)]
  dsimp only
  rw [if_neg (by omega), hmod]

/-- A `WRITE` record at `d = lo + o`. -/
theorem applyRecord_write (frame rest : List UInt8) (st : ApplyStatus) {d : Nat}
    {data : List UInt8} (hlo : lo ≠ 1) (hd : lo + o = d) (h8 : 8 ≤ d)
    (hend : d + data.length ≤ env.size) (hpos : 0 < data.length) (hsize : env.size ≤ 65536) :
    applyRecord env .write frame lo st (mlogEncodeVarint o ++ data ++ rest)
        ((mlogEncodeVarint o).length + data.length) =
      .applied (writeAt frame d data) ((d + data.length) % 2 ^ 16)
        (writeStatus env d data.length st) := by
  subst hd
  rw [applyRecord, List.append_assoc, applyPageWrite_offset .write _ hlo h8 (by omega) hsize hpos,
    if_pos rfl, applyWrite, if_neg (by rw [Nat.mod_eq_of_lt (by omega)]; omega),
    List.take_left' rfl]

/-- A `MEMSET` record at `d = lo + o` whose pattern is the rest of the record: its fields
    read back and the fill is left to `applyMemset`. -/
theorem applyRecord_memsetPattern (frame rest : List UInt8) (st : ApplyStatus)
    (str : List UInt8) {d len : Nat} (hlo : lo ≠ 1) (hd : lo + o = d) (h8 : 8 ≤ d)
    (hend : d + len ≤ env.size) (hpos : 0 < len) (hsize : env.size ≤ 65536) :
    applyRecord env .memset frame lo st
        (mlogEncodeVarint o ++ (mlogEncodeVarint len ++ str) ++ rest)
        ((mlogEncodeVarint o).length + ((mlogEncodeVarint len).length + str.length)) =
      applyMemset frame d st len (str ++ rest) str.length := by
  subst hd
  have hll := length_mlogEncodeVarint_le_three (show len < min4Byte by rw [min4Byte_eq]; omega)
  have hlp := length_mlogEncodeVarint_pos len
  rw [applyRecord, List.append_assoc, List.append_assoc,
    applyPageWrite_offset .memset _ hlo h8 (by omega) hsize (by omega), if_neg (by decide),
    readField_encode (by omega)]
  simp only [mayEnd, Nat.add_sub_cancel_left]
  rw [if_neg (by simp only [Bool.or_eq_true, decide_eq_true_eq]; omega)]
  dsimp only
  rw [if_neg (by omega), if_pos trivial]

/-- A `MEMSET` record of one byte at `d = lo + o`. -/
theorem applyRecord_memset (frame rest : List UInt8) (st : ApplyStatus) (val : UInt8)
    {d len : Nat} (hlo : lo ≠ 1) (hd : lo + o = d) (h8 : 8 ≤ d) (hend : d + len ≤ env.size)
    (hpos : 0 < len) (hsize : env.size ≤ 65536) :
    applyRecord env .memset frame lo st
        (mlogEncodeVarint o ++ (mlogEncodeVarint len ++ [val]) ++ rest)
        ((mlogEncodeVarint o).length + ((mlogEncodeVarint len).length + 1)) =
      .applied (writeAt frame d (List.replicate len val)) ((d + len) % 2 ^ 16) st := by
  have h := applyRecord_memsetPattern frame rest st [val] hlo hd h8 hend hpos hsize
  rw [List.length_singleton] at h
  rw [h, applyMemset, if_neg (by decide)]
  rfl

/-- A `MEMMOVE` record to `d = lo + o`, whose distance field `e` decodes to the source `s`. -/
theorem applyRecord_memmove (frame rest : List UInt8) (st : ApplyStatus) {d len e s : Nat}
    (hlo : lo ≠ 1) (hd : lo + o = d) (h8 : 8 ≤ d) (hend : d + len ≤ env.size) (hpos : 0 < len)
    (hsize : env.size ≤ 65536) (he : e < min4Byte)
    (hsrc : (if e &&& 1 = 1 then (d + 2 ^ 32 - (e >>> 1) - 1) % 2 ^ 32
      else (d + (e >>> 1) + 1) % 2 ^ 32) = s)
    (hs8 : 8 ≤ s) (hsend : s + len ≤ env.size) (hframe : frame.length = env.size) :
    applyRecord env .memmove frame lo st
        (mlogEncodeVarint o ++ (mlogEncodeVarint len ++ mlogEncodeVarint e) ++ rest)
        ((mlogEncodeVarint o).length + ((mlogEncodeVarint len).length +
          (mlogEncodeVarint e).length)) =
      .applied (writeAt frame d (readAt frame s len)) ((d + len) % 2 ^ 16) st := by
  subst hd
  have hll := length_mlogEncodeVarint_le_three (show len < min4Byte by rw [min4Byte_eq]; omega)
  have hel := length_mlogEncodeVarint_le_three he
  have hep := length_mlogEncodeVarint_pos e
  have he32 : e < 2 ^ 32 := Nat.lt_trans he (by decide)
  rw [applyRecord, List.append_assoc, List.append_assoc,
    applyPageWrite_offset .memmove _ hlo h8 (by omega) hsize (by omega), if_neg (by decide),
    readField_encode (by omega)]
  simp only [mayEnd, Nat.add_sub_cancel_left]
  rw [if_neg (by simp only [Bool.or_eq_true, decide_eq_true_eq]; omega)]
  dsimp only
  rw [if_neg (by omega), if_neg (by decide), applyMemmove, readField_encode he32]
  simp only [ends, ne_eq, not_true_eq_false, decide_false, Bool.false_or]
  rw [if_neg (by simp only [decide_eq_true_eq]; omega)]
  dsimp only
  rw [hsrc, if_pos ⟨hs8, by rw [Nat.mod_eq_of_lt (by omega)]; exact hsend⟩, if_pos (by omega)]

end PageWrites

end MariaDB.Redo
