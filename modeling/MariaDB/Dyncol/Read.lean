import MariaDB.Lib.Traced
import MariaDB.Decimal.Bin

/-
  Reading a dynamic-column record (mysys/ma_dyncol.c): `init_read_hdr`, `find_column` and
  the value readers behind `mariadb_dyncol_get_num`, `mariadb_dyncol_get_named` and
  `mariadb_dyncol_exists`.

  A record is a flag byte, a column count, in the named format the size of the name pool,
  then the header entries (a column number or a name offset, and the type and data offset in
  `offset_size` bytes), the name pool and the data pool.

  Model. The record is a list of bytes, and every function is a `Traced` computation: its
  result together with the indices of the record it reads, so that a read outside the record
  is visible. The header pointers (`header`, `nmpool`, `dtpool`, `data_end`, the entries) are
  indices into the record. `size_t` arithmetic is modulo `2^64`; `data_size` is computed so.
  The value readers are modelled for what they read and what they return as the result code;
  the decoded values themselves are left out (see the model map), and `get_charset` is a
  parameter `charsetKnown`.

  `init_read_hdr` subtracts the header and the name pool from the record's length without a
  check, and `find_column` checks only that the header fits: a named record whose name pool
  claims more bytes than the record has makes `data_size` wrap to nearly `2^64`, and the
  offsets checked against it can point anywhere (`dyncol_get_named_reads_past_end`).
-/

namespace MariaDB.Dyncol

open MariaDB.Lib

/-- `enum enum_dyncol_format`. -/
inductive Format where
  | num | str
  deriving Repr, DecidableEq

/-- `fmt_data[format].fixed_hdr`: `FIXED_HEADER_SIZE` or `FIXED_HEADER_SIZE_NM`. -/
def fixedHdr : Format → Nat
  | .num => 3
  | .str => 5

/-- `fmt_data[format].fixed_hdr_entry`: `COLUMN_NUMBER_SIZE` or `COLUMN_NAMEPTR_SIZE`. -/
def fixedHdrEntry : Format → Nat
  | .num => 2
  | .str => 2

/-- `DYNCOL_OFFSET_ERROR`. -/
def dyncolOffsetError : Nat := 0xffffffff

/-- `INT_MAX`. -/
def intMax : Nat := 2147483647

/-- The `size_t` value of an integer expression. -/
def sizeT (x : Int) : Nat := (x % 2 ^ 64).toNat

/-- `enum enum_dyncol_func_result`, the codes the readers return. -/
inductive DyncolRc where
  | ok | yes | format | unknownCharset
  deriving Repr, DecidableEq

/-- The part of `DYN_HEADER` that `init_read_hdr` fills. -/
structure DynHeader where
  format : Format
  offsetSize : Nat
  columnCount : Nat
  nmpoolSize : Nat
  entrySize : Nat
  headerSize : Nat
  header : Nat
  nmpool : Nat
  dtpool : Nat
  dataSize : Nat
  dataEnd : Nat
  deriving Repr, DecidableEq

variable (s : List UInt8)

/-- `read_fixed_header`: the format, `offset_size`, `column_count` and `nmpool_size`, or `none`
for a wrong header. A flag byte with a bit above the known ones is wrong. -/
def readFixedHeader : Traced (Option (Format × Nat × Nat × Nat)) := do
  if s.length < 1 then return none
  let flags ← readByte s 0
  if flags &&& 0xf8 ≠ 0 then return none
  let format := if flags &&& 4 ≠ 0 then Format.str else Format.num
  if s.length < fixedHdr format then return none
  let offsetSize := (flags &&& 3).toNat + 1 + (if format = .str then 1 else 0)
  let columnCount ← readLE s 1 2
  let nmpoolSize ← if format = .str then readLE s 3 2 else pure 0
  return some (format, offsetSize, columnCount, nmpoolSize)

/-- `init_read_hdr`. -/
def initReadHdr : Traced (Option DynHeader) := do
  match ← readFixedHeader s with
  | none => return none
  | some (format, offsetSize, columnCount, nmpoolSize) =>
    -- `calc_param`
    let entrySize := offsetSize + fixedHdrEntry format
    let headerSize := entrySize * columnCount
    let header := fixedHdr format
    return some
      { format := format
        offsetSize := offsetSize
        columnCount := columnCount
        nmpoolSize := nmpoolSize
        entrySize := entrySize
        headerSize := headerSize
        header := header
        nmpool := header + headerSize
        dtpool := header + headerSize + nmpoolSize
        dataSize := sizeT ((s.length : Int) - fixedHdr format - headerSize - nmpoolSize)
        dataEnd := s.length }

/-- `type_and_offset_read_num` and `type_and_offset_read_named`: the type, the data offset, and
whether the offset is at or above the limit of its width. -/
def typeAndOffsetRead (format : Format) (place offsetSize : Nat) : Traced (Nat × Nat × Bool) := do
  match format with
  | .num =>
    let lim : Nat := match offsetSize with
      | 1 => 0x1f | 2 => 0x1fff | 3 => 0x1fffff | _ => 0x1fffffff
    let val ← readLE s place offsetSize
    return ((val &&& 0x7) + 1, val >>> 3, val >>> 3 ≥ lim)
  | .str =>
    let lim : Nat := match offsetSize with
      | 2 => 0xfff | 3 => 0xfffff | 4 => 0xfffffff | _ => 0xfffffffff
    let val ← readLE s place offsetSize
    return ((val &&& 0xf) + 1, val >>> 4, val >>> 4 ≥ lim)

/-- `hdr_interval_length(hdr, next_entry)` for the entry at `entry`: the entry's type and
offset, and the length of its data, `DYNCOL_OFFSET_ERROR` for a wrong offset. -/
def hdrIntervalLength (hdr : DynHeader) (entry nextEntry : Nat) : Traced (Nat × Nat × Nat) := do
  let (type, offset, bad) ←
    typeAndOffsetRead s hdr.format (entry + fixedHdrEntry hdr.format) hdr.offsetSize
  if bad ∨ hdr.dataSize < offset then return (type, offset, dyncolOffsetError)
  if nextEntry = hdr.header + hdr.headerSize then return (type, offset, hdr.dataSize - offset)
  let (_, nextOffset, nextBad) ←
    typeAndOffsetRead s hdr.format (nextEntry + fixedHdrEntry hdr.format) hdr.offsetSize
  if nextBad ∨ hdr.dataSize < nextOffset then return (type, offset, dyncolOffsetError)
  return (type, offset, sizeT ((nextOffset : Int) - offset))

/-- `read_name(hdr, entry, name)`: where the entry's name starts and its length, or `none` for
a name offset past the name pool. -/
def readName (hdr : DynHeader) (entry : Nat) : Traced (Option (Nat × Nat)) := do
  let nmoffset ← readLE s entry 2
  if nmoffset > hdr.nmpoolSize then return none
  let nextEntry := entry + hdr.entrySize
  if nextEntry = hdr.header + hdr.headerSize then
    return some (hdr.nmpool + nmoffset, hdr.nmpoolSize - nmoffset)
  let nextNmoffset ← readLE s nextEntry 2
  if nextNmoffset > hdr.nmpoolSize then return none
  return some (hdr.nmpool + nmoffset, sizeT ((nextNmoffset : Int) - nmoffset))

/-- `mariadb_dyncol_column_cmp_named(name, key)` for a name in the record: by length, then
`memcmp`, which reads the whole name. -/
def columnCmpNamed (name : Nat × Nat) (key : List UInt8) : Traced Int := do
  if name.2 > key.length then return 1
  if name.2 < key.length then return -1
  let bytes := readAt s name.1 name.2
  ⟨memcmp bytes key name.2, List.range' name.1 name.2⟩

/-- The loop of `find_entry_named`, between the entries `min` and `max`, with `fuel` rounds. -/
def findEntryNamedLoop (hdr : DynHeader) (key : List UInt8) :
    Nat → Int → Int → Traced (Option Nat)
  | 0, _, _ => return none
  | fuel + 1, min, max => do
    if max < min then return none
    let mid : Nat :=
      hdr.header +
        ((min - hdr.header) + (max - hdr.header)).toNat / 2 / hdr.entrySize * hdr.entrySize
    match ← readName s hdr mid with
    | none => return none
    | some name =>
      let cmp ← columnCmpNamed s name key
      if cmp < 0 then findEntryNamedLoop hdr key fuel (mid + hdr.entrySize) max
      else if cmp > 0 then findEntryNamedLoop hdr key fuel min (mid - hdr.entrySize)
      else return some mid

/-- `find_entry_named(hdr, key)`. Each round halves the entries left, so `column_count` rounds
are more than enough. -/
def findEntryNamed (hdr : DynHeader) (key : List UInt8) : Traced (Option Nat) :=
  findEntryNamedLoop s hdr key (hdr.columnCount + 1) hdr.header
    (hdr.header + ((hdr.columnCount : Int) - 1) * hdr.entrySize)

/-- The `bsearch` of the C library (`find_entry_num`) between entries `l` and `u`, comparing
the key with `uint2korr` of each entry (`header_compar_num`). -/
def findEntryNumLoop (hdr : DynHeader) (key : Nat) : Nat → Nat → Nat → Traced (Option Nat)
  | 0, _, _ => return none
  | fuel + 1, l, u => do
    if u ≤ l then return none
    let idx := (l + u) / 2
    let p := hdr.header + idx * hdr.entrySize
    let v ← readLE s p 2
    if key < v then findEntryNumLoop hdr key fuel l idx
    else if key > v then findEntryNumLoop hdr key fuel (idx + 1) u
    else return some p

/-- `find_entry_num(hdr, key)`: the key is stored with `int2store`, two bytes. -/
def findEntryNum (hdr : DynHeader) (key : Nat) : Traced (Option Nat) :=
  findEntryNumLoop s hdr (key % 2 ^ 16) (hdr.columnCount + 1) 0 hdr.columnCount

/-- The digits `strtoul(str, &end, 10)` reads after the blanks and the sign, and their value
saturated at `ULONG_MAX`. -/
def strtoulDigits : List UInt8 → Nat → Nat → Nat × Nat
  | c :: cs, n, v =>
    if '0'.toUInt8 ≤ c ∧ c ≤ '9'.toUInt8 then
      strtoulDigits cs (n + 1) (min (v * 10 + (c.toNat - '0'.toNat)) (2 ^ 64 - 1))
    else (n, v)
  | [], n, v => (n, v)

/-- `strtoul(key, &end, 10)` on a key: its value and whether `end` is the end of the key. The
key ends where its length says. -/
def strtoulKey (key : List UInt8) : Nat × Bool :=
  let blank (c : UInt8) : Bool := c = ' '.toUInt8 ∨ (9 ≤ c.toNat ∧ c.toNat ≤ 13)
  let rest := key.dropWhile blank
  let (neg, rest) :=
    match rest with
    | c :: cs =>
      if c = '-'.toUInt8 then (true, cs) else if c = '+'.toUInt8 then (false, cs) else (false, rest)
    | [] => (false, rest)
  let (n, v) := strtoulDigits rest 0 0
  if n = 0 then (0, key.isEmpty)
  else (if neg then (2 ^ 64 - v) % 2 ^ 64 else v, n = rest.length)

/-- `backwritenum`: the decimal digits of a column number. -/
def backwritenum (numkey : Nat) : List UInt8 :=
  (Nat.toDigits 10 numkey).map Char.toUInt8

/-- A key: a column number (`get_num`) or a name (`get_named`). -/
inductive Key where
  | num (n : Nat)
  | name (k : List UInt8)

/-- What `find_column` leaves: an error in the data, no such column (`DYN_COL_NULL`), or the
column's type, data offset and length, and where its data starts. -/
inductive Found where
  | error
  | null
  | column (type offset length data : Nat)
  deriving Repr, DecidableEq

/-- `find_column(hdr, numkey, strkey)`. -/
def findColumn (hdr : DynHeader) (key : Key) : Traced Found := do
  if hdr.header + hdr.headerSize > hdr.dataEnd then return .error
  -- the key in the record's format
  let entry ← match hdr.format, key with
    | .num, .num n => findEntryNum s hdr n
    | .num, .name k =>
      let (n, atEnd) := strtoulKey k
      -- a key that is not a number is in no numeric record
      if atEnd then findEntryNum s hdr (n % 2 ^ 32) else pure none
    | .str, .num n => findEntryNamed s hdr (backwritenum (n % 2 ^ 32))
    | .str, .name k => findEntryNamed s hdr k
  match entry with
  | none => return .null
  | some e =>
    let (type, offset, length) ← hdrIntervalLength s hdr e (e + hdr.entrySize)
    -- the found data must be within the ranges
    if length = dyncolOffsetError ∨ length > intMax ∨ offset > hdr.dataSize then return .error
    return .column type offset length (hdr.dtpool + offset)

/-- `dynamic_column_var_uint_get(data, length, &len)`: the number and its length in bytes, `0`
when no byte of the `length` ends it. -/
def varUintGet (data length : Nat) : Traced (Nat × Nat) :=
  go data length 0 0
where
  go (p : Nat) : Nat → Nat → Nat → Traced (Nat × Nat)
    | 0, _, _ => return (0, 0)
    | left + 1, len, val => do
      let b ← readByte s p
      let val := val + ((b &&& 0x7f).toNat <<< (len * 7)) % 2 ^ 64
      if b &&& 0x80 = 0 then return (val, len + 1)
      else go (p + 1) left (len + 1) val

/-- `dynamic_column_date_read_internal`: the three bytes of a date, and whether its fields are
out of range. -/
def dateReadInternal (data length : Nat) : Traced Bool := do
  if length ≠ 3 then return true
  let b0 ← readByte s data
  let b1 ← readByte s (data + 1)
  let b2 ← readByte s (data + 2)
  let day := (b0 &&& 0x1f).toNat
  let month := ((b1 &&& 0x1).toNat <<< 3) ||| (b0 >>> 5).toNat
  let year := (b2.toNat <<< 7) ||| (b1 >>> 1).toNat
  return day > 31 ∨ month > 12 ∨ year > 9999

/-- `dynamic_column_time_read_internal`: the six or three bytes of a time, and whether its
fields are out of range. -/
def timeReadInternal (data length : Nat) : Traced Bool := do
  if length ≠ 6 ∧ length ≠ 3 then return true
  if length = 6 then
    let b ← (List.range 6).mapM fun i => readByte s (data + i)
    let d (i : Nat) := (b.getD i 0).toNat
    let secondPart := d 0 ||| (d 1 <<< 8) ||| ((d 2 &&& 0xf) <<< 16)
    let second := (d 2 >>> 4) ||| ((d 3 &&& 0x3) <<< 4)
    let minute := d 3 >>> 2
    let hour := ((d 5 &&& 0x3) <<< 8) ||| d 4
    return second > 59 ∨ minute > 59 ∨ hour > 838 ∨ secondPart > 999999
  else
    let b ← (List.range 3).mapM fun i => readByte s (data + i)
    let d (i : Nat) := (b.getD i 0).toNat
    let second := d 0 &&& 0x3f
    let minute := (d 0 >>> 6) ||| ((d 1 &&& 0xf) <<< 2)
    let hour := (d 1 >>> 4) ||| ((d 2 &&& 0x3f) <<< 4)
    return second > 59 ∨ minute > 59 ∨ hour > 838

/-- The `(int)` of a `ulonglong`: its low 32 bits, signed. -/
def toInt32 (v : Nat) : Int :=
  let w : Nat := v % 2 ^ 32
  if w < 2 ^ 31 then (w : Int) else (w : Int) - 2 ^ 32

/-- `dynamic_column_get_value` for a column of the given type: the readers of each type.
`bin2decimal` is taken to read the whole binary decimal it is given. -/
def getValue (charsetKnown : Nat → Bool) (type data length : Nat) : Traced DyncolRc := do
  match type with
  | 1 | 2 =>
    -- `dynamic_column_sint_read`, `dynamic_column_uint_read`: every byte of the value
    let _ ← (List.range length).mapM fun i => readByte s (data + i)
    return .ok
  | 3 =>
    if length ≠ 8 then return .format
    let _ ← readLE s data 8
    return .ok
  | 4 =>
    let (charsetNr, len) ← varUintGet s data length
    if len = 0 then return .format
    if !charsetKnown (charsetNr % 2 ^ 32) then return .unknownCharset
    return .ok
  | 5 =>
    if length = 0 then return .ok
    let (intg, intgLen) ← varUintGet s data length
    let (frac, fracLen) ← varUintGet s (data + intgLen) (sizeT ((length : Int) - intgLen))
    let intg := toInt32 intg
    let frac := toInt32 frac
    let binLen := sizeT ((length : Int) - intgLen - fracLen)
    let precision := toInt32 ((intg + frac) % 2 ^ 32).toNat
    if frac < 0 ∨ precision ≤ 0 ∨ frac > precision ∨ binLen > 9 * 4 ∨
        Decimal.decimalBinSize precision.toNat frac.toNat ≠ binLen % 2 ^ 32 then
      return .format
    let _ ← readLE s (data + intgLen + fracLen) binLen
    return .ok
  | 6 =>
    if length ≠ 9 ∧ length ≠ 6 then return .format
    if ← dateReadInternal s data 3 then return .format
    if ← timeReadInternal s (data + 3) (length - 3) then return .format
    return .ok
  | 7 => return if ← dateReadInternal s data length then .format else .ok
  | 8 => return if ← timeReadInternal s data length then .format else .ok
  | 9 => return .ok
  | _ => return .format

/-- `dynamic_column_get_internal`: the result code; a missing column and a record in error
give `DYN_COL_NULL`, the latter with the code `init_read_hdr` left, `ER_DYNCOL_OK`. -/
def dynamicColumnGetInternal (charsetKnown : Nat → Bool) (key : Key) : Traced DyncolRc := do
  if s.length = 0 then return .ok
  match ← initReadHdr s with
  | none => return .format
  | some hdr =>
    if hdr.columnCount = 0 then return .ok
    match ← findColumn s hdr key with
    | .error => return .ok
    | .null => return .ok
    | .column type _ length data => getValue s charsetKnown type data length

/-- `mariadb_dyncol_get_num(str, column_nr, value)`. -/
def mariadbDyncolGetNum (charsetKnown : Nat → Bool) (columnNr : Nat) : Traced DyncolRc :=
  dynamicColumnGetInternal s charsetKnown (.num columnNr)

/-- `mariadb_dyncol_get_named(str, name, value)`. -/
def mariadbDyncolGetNamed (charsetKnown : Nat → Bool) (name : List UInt8) : Traced DyncolRc :=
  dynamicColumnGetInternal s charsetKnown (.name name)

/-- `dynamic_column_exists_internal`: `ER_DYNCOL_YES` when the column is there. -/
def dynamicColumnExistsInternal (key : Key) : Traced DyncolRc := do
  if s.length = 0 then return .ok
  match ← initReadHdr s with
  | none => return .format
  | some hdr =>
    if hdr.columnCount = 0 then return .ok
    match ← findColumn s hdr key with
    | .error => return .format
    | .null => return .ok
    | .column .. => return .yes

/-- A named record of fourteen bytes with two columns, `"a"` and a second name, whose name
pool claims `0x101` bytes. Only the header is checked against the length, so the data pool
starts at index `13 + 257`, past the end, and the INT value of `"a"` is read there. -/
def namePoolPastEnd : List UInt8 :=
  [0x04, 0x02, 0x00, 0x01, 0x01, 0x00, 0x00, 0x00, 0x00, 0x01, 0x00, 0x50, 0x00, 0x61]

theorem dyncol_get_named_reads_past_end :
    (mariadbDyncolGetNamed namePoolPastEnd (fun _ => true) ['a'.toUInt8]).value = .ok ∧
      ¬ (mariadbDyncolGetNamed namePoolPastEnd (fun _ => true) ['a'.toUInt8]).ReadsWithin
        namePoolPastEnd.length := by
  refine ⟨by decide, ?_⟩
  intro hwithin
  -- the first byte of the value, at `dtpool + 0`
  have hread :
      270 ∈ (mariadbDyncolGetNamed namePoolPastEnd (fun _ => true) ['a'.toUInt8]).reads := by
    decide
  have hlen : namePoolPastEnd.length = 14 := rfl
  have hpast := hwithin 270 hread
  omega

end MariaDB.Dyncol
