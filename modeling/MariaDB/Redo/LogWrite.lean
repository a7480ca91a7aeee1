import MariaDB.Redo.Varint

/-
  The header of a page redo record: `mtr_t::log_write` (mtr0log.h) writes it, and
  `mtr_t::parse_length` (log0recv.cc) with `mlog_decode_varint_length` and
  `mlog_decode_varint` reads it.

  Model. A header is the type byte (`type | same_page | size`), then, in the long form, the
  size as a varint, then the page identifier (space and page number, unless the record is for
  the page of the previous record), then the byte offset for `WRITE`, `MEMSET` and
  `MEMMOVE`, relative to `m_last_offset` when it can be. The size counts every byte after the
  type byte and the size field: identifier, offset and the `len` payload bytes the caller
  writes next. A size up to 15 sits in the low nibble of the type byte; a larger one is
  written as a varint, adjusted beforehand by the length of that varint itself
  (`longLen`), which `parse_length` takes off again. `sameBlock` is the writer's
  `bpage && m_last == bpage`, `lastOffset` its `m_last_offset`.

  Proved:
  * `logWrite_short`, `logWrite_long`: the two forms of the header;
  * `parseLength_short`, `parseLength_long`: what `parse_length` reads from each;
  * `logWrite_parseLength`: on every header `log_write` writes, `parse_length` finds the
    identifier right after the size field and a size of the fields and the `len` payload bytes;
  * `readRecordFields_logWrite`, `redo_record_self_delimiting`: the record ends exactly after
    its payload, and the type, same-page flag, identifier and offset read back, each varint as
    long as its first byte says.
-/

namespace MariaDB.Redo

open MariaDB.Lib

/-! ## Record types -/

/-- `mrec_type_t`: the record types, bits 4 to 6 of the first byte. -/
inductive MrecType where
  | freePage | initPage | extended | write | memset | memmove | reserved | option
  deriving Repr, DecidableEq

namespace MrecType

/-- The code of a record type. -/
def code : MrecType → Nat
  | freePage => 0 | initPage => 0x10 | extended => 0x20 | write => 0x30
  | memset => 0x40 | memmove => 0x50 | reserved => 0x60 | option => 0x70

/-- `switch (b & 0x70)`: the record type of a first byte. -/
def ofByte (b : Nat) : MrecType :=
  match (b &&& 0x70) >>> 4 with
  | 0 => freePage | 1 => initPage | 2 => extended | 3 => write
  | 4 => memset | 5 => memmove | 6 => reserved | _ => option

/-- `have_len` of `log_write`: every type but `INIT_PAGE` and `FREE_PAGE` has a payload. -/
def hasLen : MrecType → Bool
  | initPage | freePage => false
  | _ => true

/-- `have_offset` of `log_write`. -/
def hasOffset : MrecType → Bool
  | write | memset | memmove => true
  | _ => false

theorem hasLen_of_hasOffset {t : MrecType} (h : t.hasOffset = true) : t.hasLen = true := by
  cases t <;> simp_all [hasOffset, hasLen]

/-- A type byte, with or without the same-page flag and any size in the low nibble, names its
    type. -/
theorem ofByte_code (t : MrecType) (flag : Bool) : ∀ n, n < 16 →
    ofByte (t.code ||| (if flag then 0x80 else 0) ||| n) = t := by
  cases t <;> cases flag <;> decide

end MrecType

/-! ## `log_write` -/

/-- The offset is written relative to `m_last_offset`: the record is for the page of the
    previous record, and the offset does not go back. -/
def logWriteRelative (type : MrecType) (sameBlock : Bool) (lastOffset offset : Nat) : Bool :=
  type.hasLen && type.hasOffset && sameBlock && decide (lastOffset ≤ offset)

/-- `max_len` of `log_write`: the longest header the record can need. -/
def logWriteMaxLen (type : MrecType) (sameBlock : Bool) (lastOffset offset : Nat) : Nat :=
  if !type.hasLen then 1 + 5 + 5
  else if !type.hasOffset then (if sameBlock then 1 + 3 else 1 + 3 + 5 + 5)
  else if logWriteRelative type sameBlock lastOffset offset then 1 + 3 + 3
  else 1 + 3 + 5 + 5 + 3

/-- `same_page`: the header leaves out the page identifier. -/
def logWriteSamePage (type : MrecType) (sameBlock : Bool) (lastOffset offset : Nat) : Bool :=
  decide (logWriteMaxLen type sameBlock lastOffset offset < 1 + 5 + 5)

/-- The offset as written: relative to `m_last_offset`, or from the start of the page. -/
def logWriteOffset (type : MrecType) (sameBlock : Bool) (lastOffset offset : Nat) : Nat :=
  if logWriteRelative type sameBlock lastOffset offset then offset - lastOffset else offset

/-- The long form's size, grown by the bytes of its own varint beyond the first:
    `if (len >= MIN_3BYTE - 1) len+= 2; else if (len >= MIN_2BYTE) len++;`. -/
def longLen (len : Nat) : Nat :=
  if min3Byte - 1 ≤ len then len + 2 else if min2Byte ≤ len then len + 1 else len

/-- The page identifier field: nothing for a record on the page of the previous one. -/
def pageIdField (samePage : Bool) (space pageNo : Nat) : List UInt8 :=
  if samePage then [] else mlogEncodeVarint space ++ mlogEncodeVarint pageNo

/-- The offset field. -/
def offsetField (type : MrecType) (offset : Nat) : List UInt8 :=
  if type.hasOffset then mlogEncodeVarint offset else []

/-- `mtr_t::log_write<type>(id, bpage, len, alloc, offset)`: the header bytes, which the
    caller follows with `len` payload bytes. -/
def logWrite (type : MrecType) (space pageNo : Nat) (sameBlock : Bool)
    (lastOffset len offset : Nat) : List UInt8 :=
  let samePage := logWriteSamePage type sameBlock lastOffset offset
  let typeByte := type.code ||| (if samePage then 0x80 else 0)
  let id := pageIdField samePage space pageNo
  if type.hasOffset then
    let off := mlogEncodeVarint (logWriteOffset type sameBlock lastOffset offset)
    -- `oend + len > &log_ptr[16]`: the size does not fit the low nibble
    if 1 + id.length + off.length + len > 16 then
      UInt8.ofNat typeByte ::
        (mlogEncodeVarint (longLen (len + (1 + id.length + off.length) - 15)) ++ id ++ off)
    else UInt8.ofNat (typeByte ||| (id.length + off.length + len)) :: (id ++ off)
  else if 3 ≤ len ∧ 1 + id.length + len > 16 then
    UInt8.ofNat typeByte :: (mlogEncodeVarint (longLen (len + (1 + id.length) - 15)) ++ id)
  else UInt8.ofNat (typeByte ||| (id.length + len)) :: id

/-! ## Reading a header -/

/-- `mtr_t::parse_length`: where the payload of the record at the start of `l` begins, and
    its size (`uint32_t`). -/
def parseLength (l : List UInt8) : Nat × Nat :=
  let s := (l.headD 0).toNat &&& 0xf
  if s = 0 then
    let s' := mlogDecodeVarintLength (l.getD 1 0)
    let addlen := mlogDecodeVarint (l.drop 1)
    (1 + s', (addlen + 15 - s') % 2 ^ 32)
  else (1, s)

/-- The bytes of the page identifier at the start of a payload, as the readers skip it: two
    varints, each as long as its first byte says. -/
def pageIdLen (body : List UInt8) : Nat :=
  let l1 := mlogDecodeVarintLength (body.headD 0)
  l1 + mlogDecodeVarintLength ((body.drop l1).headD 0)

/-! ## Field lengths -/

theorem length_mlogEncodeVarint_pos (i : Nat) : 1 ≤ (mlogEncodeVarint i).length := by
  rw [length_mlogEncodeVarint]
  split_ifs <;> omega

theorem length_mlogEncodeVarint_le_five (i : Nat) : (mlogEncodeVarint i).length ≤ 5 := by
  rw [length_mlogEncodeVarint]
  split_ifs <;> omega

theorem length_mlogEncodeVarint_le_three {i : Nat} (h : i < min4Byte) :
    (mlogEncodeVarint i).length ≤ 3 := by
  rw [length_mlogEncodeVarint, min2Byte_eq, min3Byte_eq, min5Byte_eq]
  rw [min4Byte_eq] at h ⊢
  split_ifs <;> omega

/-- The long form's size is what its varint needs: grown by the varint's bytes beyond the
    first, it stays in the range that gives that many bytes. -/
theorem longLen_spec {L : Nat} (h : L < min4Byte - 2) :
    (mlogEncodeVarint (longLen L)).length + L = longLen L + 1 ∧ longLen L < min4Byte := by
  rw [min4Byte_eq] at h
  unfold longLen
  rw [length_mlogEncodeVarint, min2Byte_eq, min3Byte_eq, min4Byte_eq, min5Byte_eq]
  split_ifs <;> omega

theorem length_pageIdField (samePage : Bool) (space pageNo : Nat) :
    (pageIdField samePage space pageNo).length =
      if samePage then 0 else (mlogEncodeVarint space).length + (mlogEncodeVarint pageNo).length := by
  cases samePage <;> simp [pageIdField]

theorem length_pageIdField_le (samePage : Bool) (space pageNo : Nat) :
    (pageIdField samePage space pageNo).length ≤ 10 := by
  rw [length_pageIdField]
  have h1 := length_mlogEncodeVarint_le_five space
  have h2 := length_mlogEncodeVarint_le_five pageNo
  split <;> omega

theorem length_offsetField_le {offset : Nat} (type : MrecType) (h : offset < min4Byte) :
    (offsetField type offset).length ≤ 3 := by
  unfold offsetField
  split
  · exact length_mlogEncodeVarint_le_three h
  · simp

/-! ## The type byte -/

theorem getD_zero_eq_headD (l : List UInt8) : l.getD 0 0 = l.headD 0 := by
  cases l <;> rfl

/-- A type byte: below `256`, its low nibble the size, its top bit the same-page flag. -/
theorem typeByte_bits (t : MrecType) (flag : Bool) : ∀ n, n < 16 →
    (t.code ||| (if flag then 0x80 else 0) ||| n) < 256 ∧
      (t.code ||| (if flag then 0x80 else 0) ||| n) &&& 0xf = n ∧
      (t.code ||| (if flag then 0x80 else 0) ||| n) &&& 0x80 = (if flag then 0x80 else 0) := by
  cases t <;> cases flag <;> decide

theorem typeByte_toNat (t : MrecType) (flag : Bool) {n : Nat} (hn : n < 16) :
    (UInt8.ofNat (t.code ||| (if flag then 0x80 else 0) ||| n)).toNat =
      t.code ||| (if flag then 0x80 else 0) ||| n := by
  rw [toNat_ofNat_byte, Nat.mod_eq_of_lt (typeByte_bits t flag n hn).1]

theorem typeByte_toNat_zero (t : MrecType) (flag : Bool) :
    (UInt8.ofNat (t.code ||| (if flag then 0x80 else 0))).toNat =
      t.code ||| (if flag then 0x80 else 0) := by
  have h := typeByte_toNat t flag (show 0 < 16 by decide)
  rwa [Nat.or_zero] at h

/-! ## The two forms -/

/-- The page identifier field of the header `log_write` writes. -/
def logWriteIdField (type : MrecType) (space pageNo : Nat) (sameBlock : Bool)
    (lastOffset offset : Nat) : List UInt8 :=
  pageIdField (logWriteSamePage type sameBlock lastOffset offset) space pageNo

/-- The offset field of the header `log_write` writes. -/
def logWriteOffsetField (type : MrecType) (sameBlock : Bool) (lastOffset offset : Nat) :
    List UInt8 :=
  offsetField type (logWriteOffset type sameBlock lastOffset offset)

/-- The header is long when the size does not fit the low nibble; without an offset field,
    only a payload of three bytes or more can make it so. -/
def LongHeader (type : MrecType) (idLen offLen len : Nat) : Prop :=
  1 + idLen + offLen + len > 16 ∧ (type.hasOffset = true ∨ 3 ≤ len)

instance (type : MrecType) (idLen offLen len : Nat) : Decidable (LongHeader type idLen offLen len) :=
  inferInstanceAs (Decidable (_ ∧ _))

section Forms

variable {type : MrecType} {space pageNo lastOffset len offset : Nat} {sameBlock : Bool}

/-- The short form: the size in the low nibble. -/
theorem logWrite_short
    (h : ¬ LongHeader type (logWriteIdField type space pageNo sameBlock lastOffset offset).length
      (logWriteOffsetField type sameBlock lastOffset offset).length len) :
    logWrite type space pageNo sameBlock lastOffset len offset =
      UInt8.ofNat (type.code ||| (if logWriteSamePage type sameBlock lastOffset offset then 0x80 else 0) |||
        ((logWriteIdField type space pageNo sameBlock lastOffset offset).length +
          (logWriteOffsetField type sameBlock lastOffset offset).length + len)) ::
        (logWriteIdField type space pageNo sameBlock lastOffset offset ++
          logWriteOffsetField type sameBlock lastOffset offset) := by
  unfold LongHeader logWriteIdField logWriteOffsetField at h
  unfold logWrite logWriteIdField logWriteOffsetField offsetField at *
  cases ht : type.hasOffset
  · simp only [ht, Bool.false_eq_true, if_false, List.length_nil, Nat.add_zero, false_or,
      List.append_nil] at h ⊢
    rw [if_neg (fun h' => h ⟨by omega, h'.1⟩)]
  · simp only [ht, if_true, true_or, and_true] at h ⊢
    rw [if_neg (by omega)]

/-- The long form: the size, adjusted by `longLen`, as a varint after the type byte. -/
theorem logWrite_long
    (h : LongHeader type (logWriteIdField type space pageNo sameBlock lastOffset offset).length
      (logWriteOffsetField type sameBlock lastOffset offset).length len) :
    logWrite type space pageNo sameBlock lastOffset len offset =
      UInt8.ofNat (type.code ||| (if logWriteSamePage type sameBlock lastOffset offset then 0x80 else 0)) ::
        (mlogEncodeVarint (longLen (len +
          (1 + (logWriteIdField type space pageNo sameBlock lastOffset offset).length +
            (logWriteOffsetField type sameBlock lastOffset offset).length) - 15)) ++
        logWriteIdField type space pageNo sameBlock lastOffset offset ++
          logWriteOffsetField type sameBlock lastOffset offset) := by
  unfold LongHeader logWriteIdField logWriteOffsetField at h
  unfold logWrite logWriteIdField logWriteOffsetField offsetField at *
  cases ht : type.hasOffset
  · simp only [ht, Bool.false_eq_true, if_false, List.length_nil, Nat.add_zero, false_or,
      List.append_nil] at h ⊢
    rw [if_pos ⟨h.2, by omega⟩]
  · simp only [ht, if_true, true_or, and_true] at h ⊢
    rw [if_pos h]

end Forms

/-! ## `parse_length` on each form -/

theorem parseLength_short {b : UInt8} (rest : List UInt8) (h : b.toNat &&& 0xf ≠ 0) :
    parseLength (b :: rest) = (1, b.toNat &&& 0xf) := by
  simp [parseLength, h]

theorem parseLength_long {b : UInt8} {L : Nat} (rest : List UInt8) (hb : b.toNat &&& 0xf = 0)
    (hL : L < min4Byte) :
    parseLength (b :: (mlogEncodeVarint L ++ rest)) =
      (1 + (mlogEncodeVarint L).length, L + 15 - (mlogEncodeVarint L).length) := by
  have hL32 : L < 2 ^ 32 := Nat.lt_trans hL (by decide)
  obtain ⟨hv, hlen⟩ := mlogDecodeVarint_encode hL32 rest
  have hs := length_mlogEncodeVarint_pos L
  simp only [parseLength, List.headD_cons, hb, if_true, List.getD_cons_succ, getD_zero_eq_headD,
    hlen, List.drop_succ_cons, List.drop_zero, hv]
  rw [Nat.mod_eq_of_lt (by rw [min4Byte_eq] at hL; omega)]

/-! ## Walking a record -/

/-- The fields of a record as the readers walk them. -/
structure RecordFields where
  type : MrecType
  samePage : Bool
  /-- space and page number, unless the record is for the page of the previous one -/
  pageId : Option (Nat × Nat)
  offset : Option Nat
  /-- where the `len` payload bytes begin -/
  dataStart : Nat
  /-- where the next record begins -/
  recordEnd : Nat
  deriving Repr, DecidableEq

/-- The walk over a record header that `recv_sys_t::parse` and `log_phys_t::apply` share:
    the type byte, `parse_length`, the two page identifier varints unless the type byte has
    `0x80`, and the offset varint for `WRITE`, `MEMSET` and `MEMMOVE`. The readers'
    bounds checks on the field lengths are left to their own models. -/
def readRecordFields (l : List UInt8) : RecordFields :=
  let b := (l.headD 0).toNat
  let type := MrecType.ofByte b
  let samePage := b &&& 0x80 != 0
  let p := (parseLength l).1
  let body := l.drop p
  let idLen := if samePage then 0 else pageIdLen body
  let pageId := if samePage then none else
    some (mlogDecodeVarint body,
      mlogDecodeVarint (body.drop (mlogDecodeVarintLength (body.headD 0))))
  let rest := body.drop idLen
  if type.hasOffset then
    ⟨type, samePage, pageId, some (mlogDecodeVarint rest),
      p + idLen + mlogDecodeVarintLength (rest.headD 0), p + (parseLength l).2⟩
  else ⟨type, samePage, pageId, none, p + idLen, p + (parseLength l).2⟩

/-- A varint field reads back, as long as its first byte says, and the walk goes on after
    it. -/
theorem varint_field_reads_back {i : Nat} (hi : i < 2 ^ 32) (rest : List UInt8) :
    mlogDecodeVarint (mlogEncodeVarint i ++ rest) = i ∧
      (mlogEncodeVarint i ++ rest).drop
        (mlogDecodeVarintLength ((mlogEncodeVarint i ++ rest).headD 0)) = rest := by
  obtain ⟨hv, hlen⟩ := mlogDecodeVarint_encode hi rest
  exact ⟨hv, by rw [hlen, List.drop_left]⟩

theorem pageIdLen_pageIdField {space pageNo : Nat} (hs : space < 2 ^ 32) (hp : pageNo < 2 ^ 32)
    (rest : List UInt8) :
    pageIdLen (pageIdField false space pageNo ++ rest) =
      (mlogEncodeVarint space).length + (mlogEncodeVarint pageNo).length := by
  have hfield : pageIdField false space pageNo ++ rest =
      mlogEncodeVarint space ++ (mlogEncodeVarint pageNo ++ rest) := by
    simp [pageIdField]
  have h1 := (mlogDecodeVarint_encode hs (mlogEncodeVarint pageNo ++ rest)).2
  have h2 := (mlogDecodeVarint_encode hp rest).2
  rw [hfield, pageIdLen]
  simp only [h1, List.drop_left, h2]

/-! ## What `parse_length` finds in a header -/

section Parse

variable {type : MrecType} {space pageNo lastOffset len offset : Nat} {sameBlock : Bool}

/-- Without an offset field, the header leaves out the identifier exactly for a record with a
    payload on the page of the previous record. -/
theorem logWriteSamePage_of_not_hasOffset (h : type.hasOffset = false) :
    logWriteSamePage type sameBlock lastOffset offset = (type.hasLen && sameBlock) := by
  unfold logWriteSamePage logWriteMaxLen
  cases hl : type.hasLen <;> cases sameBlock <;> simp [h]

/-- With an offset field, the identifier is left out exactly when the offset is relative. -/
theorem logWriteSamePage_of_hasOffset (h : type.hasOffset = true) :
    logWriteSamePage type sameBlock lastOffset offset =
      logWriteRelative type sameBlock lastOffset offset := by
  unfold logWriteSamePage logWriteMaxLen
  rw [MrecType.hasLen_of_hasOffset h, h]
  cases logWriteRelative type sameBlock lastOffset offset <;> simp

theorem logWriteOffset_le : logWriteOffset type sameBlock lastOffset offset ≤ offset := by
  unfold logWriteOffset
  split <;> omega

theorem length_logWriteIdField_le (type : MrecType) (space pageNo : Nat) (sameBlock : Bool)
    (lastOffset offset : Nat) :
    (logWriteIdField type space pageNo sameBlock lastOffset offset).length ≤ 10 :=
  length_pageIdField_le _ space pageNo

theorem length_logWriteOffsetField_le (type : MrecType) (sameBlock : Bool) (lastOffset : Nat)
    (h : offset < min4Byte) :
    (logWriteOffsetField type sameBlock lastOffset offset).length ≤ 3 :=
  length_offsetField_le type (Nat.lt_of_le_of_lt logWriteOffset_le h)

theorem logWriteOffsetField_of_not_hasOffset (h : type.hasOffset = false) :
    logWriteOffsetField type sameBlock lastOffset offset = [] := by
  simp [logWriteOffsetField, offsetField, h]

/-- The size `log_write` puts in the low nibble is never `0` (`ut_ad(*log_ptr & 15)`): an
    offset field or an identifier is there, or else the caller's payload. -/
theorem logWrite_size_pos
    (hne : type.hasLen = true → type.hasOffset = false → sameBlock = true → 0 < len) :
    (logWriteIdField type space pageNo sameBlock lastOffset offset).length +
      (logWriteOffsetField type sameBlock lastOffset offset).length + len ≠ 0 := by
  cases ho : type.hasOffset
  · -- no offset: the identifier is left out only on the same block, with a payload
    rw [logWriteOffsetField_of_not_hasOffset ho, logWriteIdField,
      logWriteSamePage_of_not_hasOffset ho, length_pageIdField]
    have hs := length_mlogEncodeVarint_pos space
    by_cases hsp : (type.hasLen && sameBlock) = true
    · obtain ⟨hl, hb⟩ := Bool.and_eq_true_iff.mp hsp
      have := hne hl ho hb
      rw [if_pos hsp]
      omega
    · rw [if_neg hsp]
      omega
  · have hoff : 1 ≤ (logWriteOffsetField type sameBlock lastOffset offset).length := by
      simp only [logWriteOffsetField, offsetField, ho, if_true]
      exact length_mlogEncodeVarint_pos _
    omega

/-- In the short form the size fits the low nibble. -/
theorem short_size_lt {idLen offLen : Nat} (h : ¬ LongHeader type idLen offLen len)
    (hid : idLen ≤ 10) (hoff : type.hasOffset = false → offLen = 0) :
    idLen + offLen + len < 16 := by
  unfold LongHeader at h
  cases ho : type.hasOffset
  · have := hoff ho
    simp only [ho, Bool.false_eq_true, false_or] at h
    omega
  · simp only [ho, true_or, and_true] at h
    omega

/-- A type byte names its type, its same-page flag and the size in its low nibble. -/
theorem typeByte_fields (t : MrecType) (flag : Bool) {n : Nat} (hn : n < 16) :
    MrecType.ofByte (UInt8.ofNat (t.code ||| (if flag then 0x80 else 0) ||| n)).toNat = t ∧
      ((UInt8.ofNat (t.code ||| (if flag then 0x80 else 0) ||| n)).toNat &&& 0x80 != 0) = flag ∧
      (UInt8.ofNat (t.code ||| (if flag then 0x80 else 0) ||| n)).toNat &&& 0xf = n := by
  rw [typeByte_toNat t flag hn]
  obtain ⟨_, h15, h80⟩ := typeByte_bits t flag n hn
  refine ⟨MrecType.ofByte_code t flag n hn, ?_, h15⟩
  rw [h80]
  cases flag <;> rfl

/-- Every header `log_write` writes is a type byte, a size field (empty in the short form),
    the identifier and the offset; `parse_length` reads it back as a payload starting after
    the size field, of the fields and the caller's `len` bytes. -/
theorem logWrite_parseLength (space pageNo : Nat) (ho : offset ≤ 65536) (hl : len ≤ 65536)
    (hne : type.hasLen = true → type.hasOffset = false → sameBlock = true → 0 < len)
    (data : List UInt8) :
    ∃ n sz, n < 16 ∧
      logWrite type space pageNo sameBlock lastOffset len offset =
        UInt8.ofNat (type.code ||| (if logWriteSamePage type sameBlock lastOffset offset then 0x80 else 0) ||| n) ::
          (sz ++ logWriteIdField type space pageNo sameBlock lastOffset offset ++
            logWriteOffsetField type sameBlock lastOffset offset) ∧
      parseLength (logWrite type space pageNo sameBlock lastOffset len offset ++ data) =
        (1 + sz.length, (logWriteIdField type space pageNo sameBlock lastOffset offset).length +
          (logWriteOffsetField type sameBlock lastOffset offset).length + len) := by
  have hid := length_logWriteIdField_le type space pageNo sameBlock lastOffset offset
  have hoff := length_logWriteOffsetField_le type sameBlock lastOffset
    (show offset < min4Byte by rw [min4Byte_eq]; omega)
  by_cases hlong : LongHeader type
    (logWriteIdField type space pageNo sameBlock lastOffset offset).length
    (logWriteOffsetField type sameBlock lastOffset offset).length len
  · -- long form: the size varint, adjusted for its own length
    have hL := longLen_spec (L := len + (1 + (logWriteIdField type space pageNo sameBlock
      lastOffset offset).length + (logWriteOffsetField type sameBlock lastOffset offset).length) - 15)
      (by rw [min4Byte_eq]; omega)
    have hb := (typeByte_fields type (logWriteSamePage type sameBlock lastOffset offset)
      (show 0 < 16 by decide)).2.2
    rw [Nat.or_zero] at hb
    refine ⟨0, _, by decide, by rw [logWrite_long hlong, Nat.or_zero, List.append_assoc], ?_⟩
    rw [logWrite_long hlong, List.cons_append, List.append_assoc, List.append_assoc,
      parseLength_long _ hb hL.2]
    unfold LongHeader at hlong
    ext
    · rfl
    · dsimp only
      omega
  · -- short form: the size in the low nibble, which is not `0`
    have hlt := short_size_lt hlong hid (fun h => by
      rw [logWriteOffsetField_of_not_hasOffset h, List.length_nil])
    have hb := (typeByte_fields type (logWriteSamePage type sameBlock lastOffset offset) hlt).2.2
    refine ⟨_, [], hlt, by rw [logWrite_short hlong, List.nil_append], ?_⟩
    rw [logWrite_short hlong, List.cons_append, parseLength_short _ (by rw [hb]; exact logWrite_size_pos hne), hb]
    rfl

end Parse

/-! ## Reading a header back -/

section ReadBack

variable {space pageNo : Nat}

/-- The identifier field reads back: its length as the readers skip it, and its two varints,
    unless it was left out. -/
theorem pageIdField_reads_back (samePage : Bool) (hs : space < 2 ^ 32) (hp : pageNo < 2 ^ 32)
    (rest : List UInt8) :
    (if samePage then 0 else pageIdLen (pageIdField samePage space pageNo ++ rest)) =
        (pageIdField samePage space pageNo).length ∧
      (if samePage then none else
        some (mlogDecodeVarint (pageIdField samePage space pageNo ++ rest),
          mlogDecodeVarint ((pageIdField samePage space pageNo ++ rest).drop
            (mlogDecodeVarintLength ((pageIdField samePage space pageNo ++ rest).headD 0))))) =
        (if samePage then none else some (space, pageNo)) := by
  cases samePage
  · have hfield : pageIdField false space pageNo ++ rest =
        mlogEncodeVarint space ++ (mlogEncodeVarint pageNo ++ rest) := by
      simp [pageIdField]
    obtain ⟨hv1, hd1⟩ := varint_field_reads_back hs (mlogEncodeVarint pageNo ++ rest)
    have hv2 := (varint_field_reads_back hp rest).1
    refine ⟨?_, ?_⟩
    · rw [if_neg Bool.false_ne_true, pageIdLen_pageIdField hs hp, length_pageIdField, if_neg Bool.false_ne_true]
    · simp only [Bool.false_eq_true, if_false, hfield, hv1, hd1, hv2]
  · simp [pageIdField]

/-- A record whose first byte names `type` and `samePage` and whose `parse_length` ends after
    the size field `sz` is walked field by field: the identifier, the offset, then the data. -/
theorem readRecordFields_of_parse {type : MrecType} {samePage : Bool} {o n : Nat}
    {b : UInt8} {sz : List UInt8} (data : List UInt8)
    (hs : space < 2 ^ 32) (hp : pageNo < 2 ^ 32) (ho : o < 2 ^ 32)
    (hb : MrecType.ofByte b.toNat = type) (hflag : (b.toNat &&& 0x80 != 0) = samePage)
    (hparse : parseLength (b :: (sz ++ pageIdField samePage space pageNo ++
      offsetField type o ++ data)) = (1 + sz.length, n)) :
    readRecordFields (b :: (sz ++ pageIdField samePage space pageNo ++ offsetField type o ++ data)) =
      ⟨type, samePage, if samePage then none else some (space, pageNo),
        if type.hasOffset then some o else none,
        1 + sz.length + (pageIdField samePage space pageNo).length + (offsetField type o).length,
        1 + sz.length + n⟩ := by
  have hbody : (b :: (sz ++ pageIdField samePage space pageNo ++ offsetField type o ++ data)).drop
      (1 + sz.length) = pageIdField samePage space pageNo ++ (offsetField type o ++ data) := by
    rw [Nat.add_comm, List.drop_succ_cons, List.append_assoc, List.append_assoc, List.drop_left]
  obtain ⟨hidLen, hpageId⟩ := pageIdField_reads_back samePage hs hp (offsetField type o ++ data)
  have hrest : (pageIdField samePage space pageNo ++ (offsetField type o ++ data)).drop
      (pageIdField samePage space pageNo).length = offsetField type o ++ data := List.drop_left
  unfold readRecordFields
  simp only [List.headD_cons, hb, hflag, hparse, hbody, hidLen, hpageId, hrest]
  -- the offset field: a varint for the types that have one, nothing for the others
  cases ht : type.hasOffset
  · simp [offsetField, ht]
  · obtain ⟨hv, hlen⟩ := mlogDecodeVarint_encode ho data
    simp only [offsetField, ht, if_true, hv, hlen]

/-- Every header `log_write` writes, followed by anything, is walked back to its fields: its
    type and same-page choice, the page identifier, the offset as written, and a payload that
    starts right after the header and ends `len` bytes later. `hne` is `log_write`'s own
    `ut_ad(*log_ptr & 15)`: a same-page record without an offset has a payload. -/
theorem readRecordFields_logWrite {type : MrecType} {lastOffset len offset : Nat}
    {sameBlock : Bool} (hs : space < 2 ^ 32) (hp : pageNo < 2 ^ 32) (hpage : offset + len ≤ 65536)
    (hne : type.hasLen = true → type.hasOffset = false → sameBlock = true → 0 < len)
    (data : List UInt8) :
    readRecordFields (logWrite type space pageNo sameBlock lastOffset len offset ++ data) =
      ⟨type, logWriteSamePage type sameBlock lastOffset offset,
        if logWriteSamePage type sameBlock lastOffset offset then none else some (space, pageNo),
        if type.hasOffset then some (logWriteOffset type sameBlock lastOffset offset) else none,
        (logWrite type space pageNo sameBlock lastOffset len offset).length,
        (logWrite type space pageNo sameBlock lastOffset len offset).length + len⟩ := by
  obtain ⟨n, sz, hn, heq, hparse⟩ := logWrite_parseLength space pageNo
    (show offset ≤ 65536 by omega) (show len ≤ 65536 by omega) hne data
  obtain ⟨hb, hflag, -⟩ := typeByte_fields type (logWriteSamePage type sameBlock lastOffset offset) hn
  have ho : logWriteOffset type sameBlock lastOffset offset < 2 ^ 32 :=
    Nat.lt_of_le_of_lt logWriteOffset_le (by omega)
  rw [heq, List.cons_append] at hparse ⊢
  unfold logWriteIdField logWriteOffsetField at hparse ⊢
  rw [readRecordFields_of_parse data hs hp ho hb hflag hparse]
  simp only [List.length_cons, List.length_append, RecordFields.mk.injEq, true_and]
  omega

end ReadBack

/-! ## The record header is self-delimiting -/

/-- Every integer below `MLOG_DECODE_ERROR` reads back from its varint, whose first byte says
    how long it is; and every header `log_write` writes, followed by its `len` payload bytes,
    is read back by `parse_length` and the field varints: the record ends right after the
    payload, the payload starts right after the header, and the type, the same-page flag, the
    page identifier and the written offset come back. -/
theorem redo_record_self_delimiting :
    (∀ i, i < 2 ^ 32 - 1 →
      mlogDecodeVarint (mlogEncodeVarint i) = i ∧
        mlogDecodeVarintLength ((mlogEncodeVarint i).headD 0) = (mlogEncodeVarint i).length) ∧
    ∀ (type : MrecType) (space pageNo : Nat) (sameBlock : Bool) (lastOffset len offset : Nat)
      (payload rest : List UInt8),
      space < 2 ^ 32 → pageNo < 2 ^ 32 → offset + len ≤ 65536 →
      (type.hasLen = true → type.hasOffset = false → sameBlock = true → 0 < len) →
      payload.length = len →
      readRecordFields (logWrite type space pageNo sameBlock lastOffset len offset ++ payload ++ rest) =
        ⟨type, logWriteSamePage type sameBlock lastOffset offset,
          if logWriteSamePage type sameBlock lastOffset offset then none else some (space, pageNo),
          if type.hasOffset then some (logWriteOffset type sameBlock lastOffset offset) else none,
          (logWrite type space pageNo sameBlock lastOffset len offset).length,
          (logWrite type space pageNo sameBlock lastOffset len offset ++ payload).length⟩ := by
  refine ⟨fun i hi => ?_, fun type space pageNo sameBlock lastOffset len offset payload rest
    hs hp hpage hne hlen => ?_⟩
  · have h := mlogDecodeVarint_encode (Nat.lt_of_lt_of_le hi (Nat.sub_le _ _)) []
    rwa [List.append_nil] at h
  · rw [List.append_assoc, readRecordFields_logWrite hs hp hpage hne, List.length_append, hlen]

/-- A long same-page `WRITE` of 20 bytes at offset 100 after a write that ended at 90: the
    header is `0xb0`, the size varint `7` and the relative offset `10`. -/
theorem redo_record_self_delimiting_long_write :
    mlogDecodeVarint (mlogEncodeVarint 16512) = 16512 ∧
      readRecordFields (logWrite .write 7 42 true 90 20 100 ++ List.replicate 20 0 ++ []) =
        ⟨.write, true, none, some 10, 3, 23⟩ := by
  obtain ⟨hv, hr⟩ := redo_record_self_delimiting
  refine ⟨(hv 16512 (by decide)).1, ?_⟩
  rw [hr .write 7 42 true 90 20 100 (List.replicate 20 0) [] (by decide) (by decide) (by decide)
    (by decide) (by simp)]
  decide

end MariaDB.Redo