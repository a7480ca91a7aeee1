import MariaDB.Lib.BigEndian
import MariaDB.Lib.Buffer

/-
  The compressed integers of InnoDB's undo log records, include/mach0data.inl:
  `mach_write_compressed`, `mach_get_compressed_size`, `mach_read_compressed` and
  `mach_read_next_compressed` for 32-bit values, and the 64-bit forms built on them,
  `mach_u64_write_compressed`, `mach_u64_read_next_compressed`,
  `mach_u64_write_much_compressed`, `mach_u64_read_much_compressed` and
  `mach_read_next_much_compressed`.

  Model. Memory is a byte list and a pointer an offset into it. `mach_write_to_n` stores
  the `n`-byte big-endian image `beBytes n` with `writeAt`, and `mach_read_from_n` is the value
  `beVal` of the `n` bytes at the pointer. A writer returns the memory after it and the size it
  returns; a reader of a `const byte**` returns the value and the pointer after it. `ulint` and
  `ib_uint64_t` are 64 bits: values are `Nat`, with `% 2^64` where a shift could leave them.

  Specification. `compressedBytes n` is the format of the comments: the leading one bits of the
  first byte give the length, and the bits under them and the bytes after are `n` big-endian;
  `u64CompressedBytes` and `muchCompressedBytes` are the two 64-bit formats made of it.

  Proved:
  * `machWriteCompressed_eq`, `machU64WriteCompressed_eq`, `machU64WriteMuchCompressed_eq`: each
    writer stores its format at the pointer, and returns its length;
  * `machReadNextCompressed_of_readAt`, `machU64ReadNextCompressed_of_readAt`,
    `machU64ReadMuchCompressed_of_readAt`, `machReadNextMuchCompressed_of_readAt`: each reader
    gives the value back from memory holding its format at the pointer, whatever follows, and
    moves the pointer past it;
  * `head_compressedBytes_le`: a 32-bit form never starts with `0xFF`, the marker of a 64-bit
    much-compressed form.
-/

namespace MariaDB.Mach

open MariaDB.Lib

/-! ## Model -/

/-- `mach_write_to_n(b, n)`: the low `w` bytes of `n` at `b`, most significant first. -/
def machWriteTo (w : Nat) (mem : List UInt8) (b n : Nat) : List UInt8 :=
  writeAt mem b (beBytes w n)

/-- `mach_read_from_n(b)`: the `w` bytes at `b`, most significant first. -/
def machReadFrom (w : Nat) (mem : List UInt8) (b : Nat) : Nat :=
  beVal (readAt mem b w)

/-- `mach_write_compressed(b, n)`: the memory after it and the size it returns. -/
def machWriteCompressed (mem : List UInt8) (b n : Nat) : List UInt8 × Nat :=
  if n < 0x80 then (machWriteTo 1 mem b n, 1)
  else if n < 0x4000 then (machWriteTo 2 mem b (n ||| 0x8000), 2)
  else if n < 0x200000 then (machWriteTo 3 mem b (n ||| 0xC00000), 3)
  else if n < 0x10000000 then (machWriteTo 4 mem b (n ||| 0xE0000000), 4)
  else (machWriteTo 4 (machWriteTo 1 mem b 0xF0) (b + 1) n, 5)

/-- `mach_get_compressed_size(n)`. -/
def machGetCompressedSize (n : Nat) : Nat :=
  if n < 0x80 then 1
  else if n < 0x4000 then 2
  else if n < 0x200000 then 3
  else if n < 0x10000000 then 4
  else 5

/-- `mach_read_compressed(b)`. -/
def machReadCompressed (mem : List UInt8) (b : Nat) : Nat :=
  let val := machReadFrom 1 mem b
  if val < 0x80 then val
  else if val < 0xC0 then machReadFrom 2 mem b &&& 0x3FFF
  else if val < 0xE0 then machReadFrom 3 mem b &&& 0x1FFFFF
  else if val < 0xF0 then machReadFrom 4 mem b &&& 0xFFFFFFF
  else machReadFrom 4 mem (b + 1)

/-- `mach_read_next_compressed(&b)`: the value and `b` after it. Every branch is below
    `2^32`, so the cast to `ib_uint32_t` keeps it. -/
def machReadNextCompressed (mem : List UInt8) (b : Nat) : Nat × Nat :=
  let val := machReadFrom 1 mem b
  if val < 0x80 then (val, b + 1)
  else if val < 0xC0 then (machReadFrom 2 mem b &&& 0x3FFF, b + 2)
  else if val < 0xE0 then (machReadFrom 3 mem b &&& 0x1FFFFF, b + 3)
  else if val < 0xF0 then (machReadFrom 4 mem b &&& 0xFFFFFFF, b + 4)
  else (machReadFrom 4 mem (b + 1), b + 5)

/-- `mach_u64_write_compressed(b, n)`: the high half compressed, then the low half in four
    bytes. -/
def machU64WriteCompressed (mem : List UInt8) (b n : Nat) : List UInt8 × Nat :=
  let (mem, size) := machWriteCompressed mem b (n >>> 32)
  (machWriteTo 4 mem (b + size) n, size + 4)

/-- `mach_u64_read_next_compressed(&b)`. -/
def machU64ReadNextCompressed (mem : List UInt8) (b : Nat) : Nat × Nat :=
  let (val, b) := machReadNextCompressed mem b
  ((val <<< 32) % 2 ^ 64 ||| machReadFrom 4 mem b, b + 4)

/-- `mach_u64_write_much_compressed(b, n)`: a value below `2^32` compressed; a larger one as
    `0xFF` and both halves compressed. -/
def machU64WriteMuchCompressed (mem : List UInt8) (b n : Nat) : List UInt8 × Nat :=
  if n >>> 32 = 0 then machWriteCompressed mem b n
  else
    let mem := writeAt mem b [0xFF]
    let (mem, size) := machWriteCompressed mem (b + 1) (n >>> 32)
    let size := 1 + size
    let (mem, size') := machWriteCompressed mem (b + size) (n &&& 0xFFFFFFFF)
    (mem, size + size')

/-- `mach_u64_read_much_compressed(b)`. -/
def machU64ReadMuchCompressed (mem : List UInt8) (b : Nat) : Nat :=
  if machReadFrom 1 mem b ≠ 0xFF then machReadCompressed mem b
  else
    let (n, b) := machReadNextCompressed mem (b + 1)
    (n <<< 32) % 2 ^ 64 ||| machReadCompressed mem b

/-- `mach_read_next_much_compressed(&b)`: the branches of `mach_read_next_compressed` up to
    `0xF0`, and after any other first byte two compressed halves. -/
def machReadNextMuchCompressed (mem : List UInt8) (b : Nat) : Nat × Nat :=
  let val := machReadFrom 1 mem b
  if val < 0x80 then (val, b + 1)
  else if val < 0xC0 then (machReadFrom 2 mem b &&& 0x3FFF, b + 2)
  else if val < 0xE0 then (machReadFrom 3 mem b &&& 0x1FFFFF, b + 3)
  else if val < 0xF0 then (machReadFrom 4 mem b &&& 0xFFFFFFF, b + 4)
  else if val = 0xF0 then (machReadFrom 4 mem (b + 1), b + 5)
  else
    let (hi, b) := machReadNextCompressed mem (b + 1)
    let (lo, b) := machReadNextCompressed mem b
    ((hi <<< 32) % 2 ^ 64 ||| lo, b)

/-! ## Specification -/

/-- The compressed form of `n`: `0nnnnnnn`, `10nnnnnn` and one byte, `110nnnnn` and two,
    `1110nnnn` and three, or `11110000` and four. -/
def compressedBytes (n : Nat) : List UInt8 :=
  if n < 0x80 then beBytes 1 n
  else if n < 0x4000 then beBytes 2 (0x8000 + n)
  else if n < 0x200000 then beBytes 3 (0xC00000 + n)
  else if n < 0x10000000 then beBytes 4 (0xE0000000 + n)
  else 0xF0 :: beBytes 4 n

/-- The 64-bit compressed form: the high half compressed, then the low half in four bytes. -/
def u64CompressedBytes (n : Nat) : List UInt8 :=
  compressedBytes (n / 2 ^ 32) ++ beBytes 4 n

/-- The 64-bit much-compressed form. -/
def muchCompressedBytes (n : Nat) : List UInt8 :=
  if n < 2 ^ 32 then compressedBytes n
  else 0xFF :: (compressedBytes (n / 2 ^ 32) ++ compressedBytes (n % 2 ^ 32))

/-! ## Bits and bytes -/

section Bits

/-- The value of the first `w` of `k` bytes that hold `v`. -/
theorem machReadFrom_of_readAt {mem : List UInt8} {b k v : Nat} (w : Nat) (hw : w ≤ k)
    (h : readAt mem b k = beBytes k v) (hv : v < 256 ^ k) :
    machReadFrom w mem b = v / 256 ^ (k - w) := by
  have hlt : v / 256 ^ (k - w) < 256 ^ w := by
    rw [Nat.div_lt_iff_lt_mul (by positivity), ← Nat.pow_add, Nat.add_sub_cancel' hw]
    exact hv
  rw [machReadFrom, ← take_readAt mem hw, h, take_beBytes hw, beVal_beBytes_of_lt hlt]

/-- Of `n` bytes at `b` that are `data`, those from `b + p` on are `data`'s. -/
theorem readAt_of_readAt {mem data : List UInt8} {b n p q : Nat} (h : readAt mem b n = data)
    (hpq : p + q ≤ n) : readAt mem (b + p) q = readAt data p q := by
  rw [← h, readAt_readAt mem hpq]

theorem readAt_append_left (c d : List UInt8) : readAt (c ++ d) 0 c.length = c := by
  simp [readAt]

theorem readAt_append_right (c d : List UInt8) : readAt (c ++ d) c.length d.length = d := by
  simp [readAt]

theorem readAt_cons_append_left (x : UInt8) (c d : List UInt8) :
    readAt (x :: (c ++ d)) 1 c.length = c := by
  simp [readAt]

theorem readAt_cons_append_right (x : UInt8) (c d : List UInt8) :
    readAt (x :: (c ++ d)) (1 + c.length) d.length = d := by
  simp [readAt, Nat.add_comm 1]

/-- A 64-bit value split in halves, and put back with `<<` and `|`. -/
theorem shiftLeft_or_halves {hi lo : Nat} (hhi : hi < 2 ^ 32) (hlo : lo < 2 ^ 32) :
    (hi <<< 32) % 2 ^ 64 ||| lo = hi * 2 ^ 32 + lo := by
  have hs : hi <<< 32 < 2 ^ 64 := by
    rw [Nat.shiftLeft_eq]
    omega
  rw [Nat.mod_eq_of_lt hs, shiftLeft_or_of_lt hlo]

/-- A write in range keeps the length, changes nothing outside its bytes, and is read back. -/
theorem writeAt_frame {mem data : List UInt8} {b : Nat} (h : b + data.length ≤ mem.length) :
    (writeAt mem b data).length = mem.length ∧
      (∀ i, i < b ∨ b + data.length ≤ i → (writeAt mem b data)[i]? = mem[i]?) ∧
      readAt (writeAt mem b data) b data.length = data :=
  ⟨length_writeAt h, fun _ hi => getElem?_writeAt_outside h hi, readAt_writeAt h⟩

end Bits

/-! ## 32-bit values -/

section Compressed

variable {mem : List UInt8} {b n : Nat}

theorem length_compressedBytes (n : Nat) :
    (compressedBytes n).length = machGetCompressedSize n := by
  unfold compressedBytes machGetCompressedSize
  split_ifs <;> simp

theorem machGetCompressedSize_bounds (n : Nat) :
    1 ≤ machGetCompressedSize n ∧ machGetCompressedSize n ≤ 5 := by
  unfold machGetCompressedSize
  split_ifs <;> omega

/-- `mach_write_compressed` stores the compressed form and returns its length. -/
theorem machWriteCompressed_eq (h : b + (compressedBytes n).length ≤ mem.length) :
    machWriteCompressed mem b n = (writeAt mem b (compressedBytes n), (compressedBytes n).length) := by
  unfold machWriteCompressed compressedBytes machWriteTo at *
  split_ifs at * with h1 h2 h3 h4
  · rfl
  · rw [or_tag (T := 0x8000) (j := 14) 2 rfl (by omega)]
    rfl
  · rw [or_tag (T := 0xC00000) (j := 21) 6 rfl (by omega)]
    rfl
  · rw [or_tag (T := 0xE0000000) (j := 28) 14 rfl (by omega)]
    rfl
  · -- two stores, `0xF0` and then the four bytes after it
    have hw : writeAt (writeAt mem b (beBytes 1 0xF0)) (b + (beBytes 1 0xF0).length)
        (beBytes 4 n) = writeAt mem b (beBytes 1 0xF0 ++ beBytes 4 n) :=
      writeAt_writeAt_append (by simp only [List.length_cons, beBytes_length] at h ⊢; omega)
    rw [beBytes_length] at hw
    rw [hw]
    rfl

/-- The first byte of a compressed form is at most `0xF0`. -/
theorem head_compressedBytes_le (n : Nat) : beVal ((compressedBytes n).take 1) ≤ 0xF0 := by
  unfold compressedBytes
  split_ifs with h1 h2 h3 h4
  · rw [take_beBytes le_rfl, beVal_beBytes]
    omega
  · rw [take_beBytes (by norm_num), beVal_beBytes]
    omega
  · rw [take_beBytes (by norm_num), beVal_beBytes]
    omega
  · rw [take_beBytes (by norm_num), beVal_beBytes]
    omega
  · simp

theorem machReadNextCompressed_one (h1 : n < 0x80) (h : readAt mem b 1 = beBytes 1 n) :
    machReadNextCompressed mem b = (n, b + 1) := by
  have hfirst : machReadFrom 1 mem b = n := by
    simpa using machReadFrom_of_readAt 1 le_rfl h (by omega)
  unfold machReadNextCompressed
  rw [hfirst, if_pos h1]

theorem machReadNextCompressed_two (h1 : 0x80 ≤ n) (h2 : n < 0x4000)
    (h : readAt mem b 2 = beBytes 2 (0x8000 + n)) :
    machReadNextCompressed mem b = (n, b + 2) := by
  have hv : 0x8000 + n < 256 ^ 2 := by omega
  have hfirst : machReadFrom 1 mem b = (0x8000 + n) / 256 := by
    simpa using machReadFrom_of_readAt 1 (by norm_num) h hv
  have hall : machReadFrom 2 mem b = 0x8000 + n := by
    simpa using machReadFrom_of_readAt 2 le_rfl h hv
  unfold machReadNextCompressed
  rw [hfirst, if_neg (by omega), if_pos (by omega), hall,
    show (0x3FFF : Nat) = 2 ^ 14 - 1 from rfl, Nat.and_two_pow_sub_one_eq_mod]
  congr 1
  omega

theorem machReadNextCompressed_three (h1 : 0x4000 ≤ n) (h2 : n < 0x200000)
    (h : readAt mem b 3 = beBytes 3 (0xC00000 + n)) :
    machReadNextCompressed mem b = (n, b + 3) := by
  have hv : 0xC00000 + n < 256 ^ 3 := by omega
  have hfirst : machReadFrom 1 mem b = (0xC00000 + n) / 65536 := by
    simpa using machReadFrom_of_readAt 1 (by norm_num) h hv
  have hall : machReadFrom 3 mem b = 0xC00000 + n := by
    simpa using machReadFrom_of_readAt 3 le_rfl h hv
  unfold machReadNextCompressed
  rw [hfirst, if_neg (by omega), if_neg (by omega), if_pos (by omega), hall,
    show (0x1FFFFF : Nat) = 2 ^ 21 - 1 from rfl, Nat.and_two_pow_sub_one_eq_mod]
  congr 1
  omega

theorem machReadNextCompressed_four (h1 : 0x200000 ≤ n) (h2 : n < 0x10000000)
    (h : readAt mem b 4 = beBytes 4 (0xE0000000 + n)) :
    machReadNextCompressed mem b = (n, b + 4) := by
  have hv : 0xE0000000 + n < 256 ^ 4 := by omega
  have hfirst : machReadFrom 1 mem b = (0xE0000000 + n) / 16777216 := by
    simpa using machReadFrom_of_readAt 1 (by norm_num) h hv
  have hall : machReadFrom 4 mem b = 0xE0000000 + n := by
    simpa using machReadFrom_of_readAt 4 le_rfl h hv
  unfold machReadNextCompressed
  rw [hfirst, if_neg (by omega), if_neg (by omega), if_neg (by omega), if_pos (by omega), hall,
    show (0xFFFFFFF : Nat) = 2 ^ 28 - 1 from rfl, Nat.and_two_pow_sub_one_eq_mod]
  congr 1
  omega

theorem machReadNextCompressed_five (h2 : n < 2 ^ 32) (h : readAt mem b 5 = 0xF0 :: beBytes 4 n) :
    machReadNextCompressed mem b = (n, b + 5) := by
  have hfirst : machReadFrom 1 mem b = 0xF0 := by
    rw [machReadFrom, ← Nat.add_zero b, readAt_of_readAt h (by norm_num)]
    rfl
  have hrest : readAt mem (b + 1) 4 = beBytes 4 n := by
    rw [readAt_of_readAt h (by norm_num)]
    simp [readAt]
  have hall : machReadFrom 4 mem (b + 1) = n := by
    simpa using machReadFrom_of_readAt 4 le_rfl hrest (by omega)
  unfold machReadNextCompressed
  rw [hfirst, if_neg (by omega), if_neg (by omega), if_neg (by omega), if_neg (by omega), hall]

/-- `mach_read_next_compressed` reads back every value below `2^32` from its compressed form,
    whatever follows it, and moves past the form. -/
theorem machReadNextCompressed_of_readAt (hn : n < 2 ^ 32)
    (h : readAt mem b (compressedBytes n).length = compressedBytes n) :
    machReadNextCompressed mem b = (n, b + (compressedBytes n).length) := by
  unfold compressedBytes at h ⊢
  split_ifs at h ⊢ with h1 h2 h3 h4
  · exact machReadNextCompressed_one h1 h
  · exact machReadNextCompressed_two (by omega) h2 h
  · exact machReadNextCompressed_three (by omega) h3 h
  · exact machReadNextCompressed_four (by omega) h4 h
  · exact machReadNextCompressed_five hn h

/-- No compressed form starts with `0xFF`. -/
theorem getElem?_zero_compressedBytes_ne (n : Nat) : (compressedBytes n)[0]? ≠ some 0xFF := by
  have hle := head_compressedBytes_le n
  cases hc : compressedBytes n with
  | nil => simp
  | cons x xs =>
    rw [hc, List.take_succ_cons, List.take_zero, beVal_singleton] at hle
    intro hx
    simp only [List.getElem?_cons_zero, Option.some.injEq] at hx
    rw [hx] at hle
    exact absurd hle (by decide)

/-- A compressed form in memory starts with a byte of at most `0xF0`. -/
theorem machReadFrom_one_compressed (h : readAt mem b (compressedBytes n).length = compressedBytes n) :
    machReadFrom 1 mem b ≤ 0xF0 := by
  have h1 : 1 ≤ (compressedBytes n).length := by
    rw [length_compressedBytes]
    exact (machGetCompressedSize_bounds n).1
  rw [machReadFrom, ← take_readAt mem h1, h]
  exact head_compressedBytes_le n

/-- `mach_read_compressed` is the value `mach_read_next_compressed` reads. -/
theorem machReadCompressed_eq_fst (mem : List UInt8) (b : Nat) :
    machReadCompressed mem b = (machReadNextCompressed mem b).1 := by
  unfold machReadCompressed machReadNextCompressed
  dsimp only
  split_ifs <;> rfl

/-- Up to a first byte of `0xF0`, `mach_read_next_much_compressed` is
    `mach_read_next_compressed`. -/
theorem machReadNextMuchCompressed_of_le (h : machReadFrom 1 mem b ≤ 0xF0) :
    machReadNextMuchCompressed mem b = machReadNextCompressed mem b := by
  unfold machReadNextMuchCompressed machReadNextCompressed
  dsimp only
  generalize machReadFrom 1 mem b = v at h ⊢
  by_cases h1 : v < 0x80
  · rw [if_pos h1, if_pos h1]
  rw [if_neg h1, if_neg h1]
  by_cases h2 : v < 0xC0
  · rw [if_pos h2, if_pos h2]
  rw [if_neg h2, if_neg h2]
  by_cases h3 : v < 0xE0
  · rw [if_pos h3, if_pos h3]
  rw [if_neg h3, if_neg h3]
  by_cases h4 : v < 0xF0
  · rw [if_pos h4, if_pos h4]
  -- a first byte of `0xF0` itself is the last branch both share
  rw [if_neg h4, if_neg h4, if_pos (show v = 0xF0 by omega)]

/-- `mach_write_compressed` and the two readers: the value below `2^32` comes back, and
    `mach_get_compressed_size` bytes are written, the pointer moved past them. -/
theorem machWriteCompressed_round_trip (hn : n < 2 ^ 32)
    (h : b + machGetCompressedSize n ≤ mem.length) :
    (machWriteCompressed mem b n).2 = machGetCompressedSize n ∧
      (machWriteCompressed mem b n).1.length = mem.length ∧
      (∀ i, i < b ∨ b + machGetCompressedSize n ≤ i →
        (machWriteCompressed mem b n).1[i]? = mem[i]?) ∧
      machReadCompressed (machWriteCompressed mem b n).1 b = n ∧
      machReadNextCompressed (machWriteCompressed mem b n).1 b = (n, b + machGetCompressedSize n) := by
  rw [← length_compressedBytes] at h ⊢
  obtain ⟨hlen, hout, hread⟩ := writeAt_frame h
  rw [machWriteCompressed_eq h]
  exact ⟨rfl, hlen, hout, by rw [machReadCompressed_eq_fst, machReadNextCompressed_of_readAt hn hread],
    machReadNextCompressed_of_readAt hn hread⟩

end Compressed

/-! ## 64-bit values -/

section U64

variable {mem : List UInt8} {b n : Nat}

theorem length_u64CompressedBytes (n : Nat) :
    (u64CompressedBytes n).length = machGetCompressedSize (n / 2 ^ 32) + 4 := by
  simp [u64CompressedBytes, length_compressedBytes]

/-- `mach_u64_write_compressed` stores the 64-bit compressed form and returns its length. -/
theorem machU64WriteCompressed_eq (h : b + (u64CompressedBytes n).length ≤ mem.length) :
    machU64WriteCompressed mem b n =
      (writeAt mem b (u64CompressedBytes n), (u64CompressedBytes n).length) := by
  have hc : b + (compressedBytes (n / 2 ^ 32)).length ≤ mem.length := by
    simp only [u64CompressedBytes, List.length_append] at h
    omega
  have hw : writeAt (writeAt mem b (compressedBytes (n / 2 ^ 32)))
      (b + (compressedBytes (n / 2 ^ 32)).length) (beBytes 4 n) =
      writeAt mem b (u64CompressedBytes n) :=
    writeAt_writeAt_append (by simp only [u64CompressedBytes, List.length_append] at h; omega)
  unfold machU64WriteCompressed machWriteTo
  rw [Nat.shiftRight_eq_div_pow, machWriteCompressed_eq hc]
  dsimp only
  rw [hw, length_u64CompressedBytes, length_compressedBytes]

/-- `mach_u64_read_next_compressed` reads back every value below `2^64` from its form. -/
theorem machU64ReadNextCompressed_of_readAt (hn : n < 2 ^ 64)
    (h : readAt mem b (u64CompressedBytes n).length = u64CompressedBytes n) :
    machU64ReadNextCompressed mem b = (n, b + (u64CompressedBytes n).length) := by
  set c := compressedBytes (n / 2 ^ 32)
  have hlen : (u64CompressedBytes n).length = c.length + 4 := by
    simp [u64CompressedBytes, c]
  have hhi : readAt mem b c.length = c := by
    rw [← Nat.add_zero b, readAt_of_readAt h (by omega), u64CompressedBytes, readAt_append_left]
  have hlo : readAt mem (b + c.length) 4 = beBytes 4 n := by
    have := readAt_append_right c (beBytes 4 n)
    rw [beBytes_length] at this
    rw [readAt_of_readAt h (by omega), u64CompressedBytes, this]
  have hlo' : machReadFrom 4 mem (b + c.length) = n % 2 ^ 32 := by
    rw [machReadFrom, hlo, beVal_beBytes]
    rfl
  unfold machU64ReadNextCompressed
  rw [machReadNextCompressed_of_readAt (by omega) hhi]
  dsimp only
  rw [hlo', shiftLeft_or_halves (by omega) (Nat.mod_lt _ (by norm_num)), Nat.div_add_mod', hlen,
    Nat.add_assoc]

theorem length_muchCompressedBytes (n : Nat) :
    (muchCompressedBytes n).length =
      if n < 2 ^ 32 then machGetCompressedSize n
      else 1 + machGetCompressedSize (n / 2 ^ 32) + machGetCompressedSize (n % 2 ^ 32) := by
  unfold muchCompressedBytes
  split_ifs
  · rw [length_compressedBytes]
  · simp only [List.length_cons, List.length_append, length_compressedBytes]
    omega

/-- Memory holding `0xFF` and two compressed halves at `b`: the marker, and each half where
    the one before it ends. -/
theorem readAt_marked_halves {c d : List UInt8}
    (h : readAt mem b (0xFF :: (c ++ d)).length = 0xFF :: (c ++ d)) :
    machReadFrom 1 mem b = 0xFF ∧ readAt mem (b + 1) c.length = c ∧
      readAt mem (b + 1 + c.length) d.length = d := by
  have hlen : (0xFF :: (c ++ d)).length = 1 + c.length + d.length := by
    simp only [List.length_cons, List.length_append]
    omega
  refine ⟨?_, ?_, ?_⟩
  · rw [machReadFrom, ← Nat.add_zero b, readAt_of_readAt h (by omega)]
    rfl
  · rw [readAt_of_readAt h (by omega), readAt_cons_append_left]
  · rw [Nat.add_assoc, readAt_of_readAt h (by omega), readAt_cons_append_right]

/-- `mach_u64_write_much_compressed` stores the much-compressed form and returns its
    length. -/
theorem machU64WriteMuchCompressed_eq (hn : n < 2 ^ 64)
    (h : b + (muchCompressedBytes n).length ≤ mem.length) :
    machU64WriteMuchCompressed mem b n =
      (writeAt mem b (muchCompressedBytes n), (muchCompressedBytes n).length) := by
  unfold machU64WriteMuchCompressed muchCompressedBytes at *
  rw [Nat.shiftRight_eq_div_pow]
  split_ifs at * with h1 h2 h2
  · exact machWriteCompressed_eq h
  · omega
  · omega
  · -- `0xFF`, then the high half, then the low half, each where the one before ends
    rw [show n &&& 0xFFFFFFFF = n % 2 ^ 32 from Nat.and_two_pow_sub_one_eq_mod n 32]
    simp only [List.length_cons, List.length_append] at h
    have hm1 : (writeAt mem b [0xFF]).length = mem.length := length_writeAt (by simp; omega)
    dsimp only
    rw [machWriteCompressed_eq (b := b + 1) (n := n / 2 ^ 32) (by rw [hm1]; omega)]
    dsimp only
    have hm2 : (writeAt (writeAt mem b [0xFF]) (b + 1) (compressedBytes (n / 2 ^ 32))).length =
        mem.length := by
      rw [length_writeAt (by rw [hm1]; omega), hm1]
    rw [machWriteCompressed_eq (n := n % 2 ^ 32) (by rw [hm2]; omega)]
    dsimp only
    generalize compressedBytes (n / 2 ^ 32) = c at h ⊢
    generalize compressedBytes (n % 2 ^ 32) = d at h ⊢
    have h12 : writeAt (writeAt mem b [0xFF]) (b + 1) c = writeAt mem b (0xFF :: c) :=
      writeAt_writeAt_append (by simp; omega)
    have h123 : writeAt (writeAt mem b (0xFF :: c)) (b + (c.length + 1)) d =
        writeAt mem b (0xFF :: (c ++ d)) :=
      writeAt_writeAt_append (by simp; omega)
    rw [h12, Nat.add_comm 1 c.length, h123]
    simp only [List.length_cons, List.length_append]
    congr 1
    omega

/-- `mach_u64_read_much_compressed` reads back every value below `2^64` from its
    much-compressed form. -/
theorem machU64ReadMuchCompressed_of_readAt (hn : n < 2 ^ 64)
    (h : readAt mem b (muchCompressedBytes n).length = muchCompressedBytes n) :
    machU64ReadMuchCompressed mem b = n := by
  unfold machU64ReadMuchCompressed
  unfold muchCompressedBytes at h
  split_ifs at h with h1
  · rw [if_pos (by have := machReadFrom_one_compressed h; omega), machReadCompressed_eq_fst,
      machReadNextCompressed_of_readAt h1 h]
  · obtain ⟨hff, hhi, hlo⟩ := readAt_marked_halves h
    rw [if_neg (not_not.mpr hff), machReadNextCompressed_of_readAt (by omega) hhi]
    dsimp only
    rw [machReadCompressed_eq_fst, machReadNextCompressed_of_readAt (Nat.mod_lt _ (by norm_num))
      hlo]
    dsimp only
    rw [shiftLeft_or_halves (by omega) (Nat.mod_lt _ (by norm_num)), Nat.div_add_mod']

/-- `mach_read_next_much_compressed` reads back every value below `2^64` from its
    much-compressed form, and moves past the form. -/
theorem machReadNextMuchCompressed_of_readAt (hn : n < 2 ^ 64)
    (h : readAt mem b (muchCompressedBytes n).length = muchCompressedBytes n) :
    machReadNextMuchCompressed mem b = (n, b + (muchCompressedBytes n).length) := by
  unfold muchCompressedBytes at h ⊢
  split_ifs at h ⊢ with h1
  · rw [machReadNextMuchCompressed_of_le (machReadFrom_one_compressed h)]
    exact machReadNextCompressed_of_readAt h1 h
  · obtain ⟨hff, hhi, hlo⟩ := readAt_marked_halves h
    unfold machReadNextMuchCompressed
    -- the marker takes the last branch
    rw [hff, if_neg (by omega), if_neg (by omega), if_neg (by omega), if_neg (by omega),
      if_neg (by omega), machReadNextCompressed_of_readAt (by omega) hhi]
    dsimp only
    rw [machReadNextCompressed_of_readAt (Nat.mod_lt _ (by norm_num)) hlo]
    dsimp only
    rw [shiftLeft_or_halves (by omega) (Nat.mod_lt _ (by norm_num)), Nat.div_add_mod']
    congr 1
    simp only [List.length_cons, List.length_append]
    omega

/-- `mach_u64_write_compressed` and `mach_u64_read_next_compressed`: the value below `2^64`
    comes back from the five to nine bytes written, the pointer moved past them. -/
theorem machU64WriteCompressed_round_trip (hn : n < 2 ^ 64)
    (h : b + (u64CompressedBytes n).length ≤ mem.length) :
    (machU64WriteCompressed mem b n).2 = (u64CompressedBytes n).length ∧
      5 ≤ (u64CompressedBytes n).length ∧ (u64CompressedBytes n).length ≤ 9 ∧
      (machU64WriteCompressed mem b n).1.length = mem.length ∧
      (∀ i, i < b ∨ b + (u64CompressedBytes n).length ≤ i →
        (machU64WriteCompressed mem b n).1[i]? = mem[i]?) ∧
      machU64ReadNextCompressed (machU64WriteCompressed mem b n).1 b =
        (n, b + (u64CompressedBytes n).length) := by
  obtain ⟨hlen, hout, hread⟩ := writeAt_frame h
  have hsize := machGetCompressedSize_bounds (n / 2 ^ 32)
  rw [machU64WriteCompressed_eq h]
  exact ⟨rfl, by rw [length_u64CompressedBytes]; omega, by rw [length_u64CompressedBytes]; omega,
    hlen, hout, machU64ReadNextCompressed_of_readAt hn hread⟩

/-- `mach_u64_write_much_compressed` and both readers: the value below `2^64` comes back from
    the one to eleven bytes written, and the first of them is `0xFF` just when the value is
    `2^32` or more. -/
theorem machU64WriteMuchCompressed_round_trip (hn : n < 2 ^ 64)
    (h : b + (muchCompressedBytes n).length ≤ mem.length) :
    (machU64WriteMuchCompressed mem b n).2 = (muchCompressedBytes n).length ∧
      1 ≤ (muchCompressedBytes n).length ∧ (muchCompressedBytes n).length ≤ 11 ∧
      (machU64WriteMuchCompressed mem b n).1.length = mem.length ∧
      (∀ i, i < b ∨ b + (muchCompressedBytes n).length ≤ i →
        (machU64WriteMuchCompressed mem b n).1[i]? = mem[i]?) ∧
      machU64ReadMuchCompressed (machU64WriteMuchCompressed mem b n).1 b = n ∧
      machReadNextMuchCompressed (machU64WriteMuchCompressed mem b n).1 b =
        (n, b + (muchCompressedBytes n).length) ∧
      ((machU64WriteMuchCompressed mem b n).1[b]? = some 0xFF ↔ 2 ^ 32 ≤ n) := by
  obtain ⟨hlen, hout, hread⟩ := writeAt_frame h
  have hb1 := machGetCompressedSize_bounds n
  have hb2 := machGetCompressedSize_bounds (n / 2 ^ 32)
  have hb3 := machGetCompressedSize_bounds (n % 2 ^ 32)
  have hpos : 1 ≤ (muchCompressedBytes n).length := by
    rw [length_muchCompressedBytes]
    split_ifs <;> omega
  -- the first byte written is the first byte of the form
  have hfirst : (writeAt mem b (muchCompressedBytes n))[b]? = (muchCompressedBytes n)[0]? := by
    rw [getElem?_writeAt_inside (by omega) le_rfl (by omega), Nat.sub_self]
  rw [machU64WriteMuchCompressed_eq hn h, hfirst]
  refine ⟨rfl, hpos, by rw [length_muchCompressedBytes]; split_ifs <;> omega, hlen, hout,
    machU64ReadMuchCompressed_of_readAt hn hread, machReadNextMuchCompressed_of_readAt hn hread, ?_⟩
  unfold muchCompressedBytes
  split_ifs with h1
  · exact iff_of_false (getElem?_zero_compressedBytes_ne n) (by omega)
  · exact iff_of_true rfl (by omega)

end U64

/-! ## The formats together -/

theorem mach_compressed_round_trip :
    (∀ (mem : List UInt8) (b n : Nat), n < 2 ^ 32 → b + machGetCompressedSize n ≤ mem.length →
      (machWriteCompressed mem b n).2 = machGetCompressedSize n ∧
        1 ≤ machGetCompressedSize n ∧ machGetCompressedSize n ≤ 5 ∧
        (machWriteCompressed mem b n).1.length = mem.length ∧
        (∀ i, i < b ∨ b + machGetCompressedSize n ≤ i →
          (machWriteCompressed mem b n).1[i]? = mem[i]?) ∧
        machReadCompressed (machWriteCompressed mem b n).1 b = n ∧
        machReadNextCompressed (machWriteCompressed mem b n).1 b =
          (n, b + machGetCompressedSize n)) ∧
    (∀ (mem : List UInt8) (b n : Nat), n < 2 ^ 64 →
      b + (u64CompressedBytes n).length ≤ mem.length →
      (machU64WriteCompressed mem b n).2 = (u64CompressedBytes n).length ∧
        5 ≤ (u64CompressedBytes n).length ∧ (u64CompressedBytes n).length ≤ 9 ∧
        (machU64WriteCompressed mem b n).1.length = mem.length ∧
        (∀ i, i < b ∨ b + (u64CompressedBytes n).length ≤ i →
          (machU64WriteCompressed mem b n).1[i]? = mem[i]?) ∧
        machU64ReadNextCompressed (machU64WriteCompressed mem b n).1 b =
          (n, b + (u64CompressedBytes n).length)) ∧
    (∀ (mem : List UInt8) (b n : Nat), n < 2 ^ 64 →
      b + (muchCompressedBytes n).length ≤ mem.length →
      (machU64WriteMuchCompressed mem b n).2 = (muchCompressedBytes n).length ∧
        1 ≤ (muchCompressedBytes n).length ∧ (muchCompressedBytes n).length ≤ 11 ∧
        (machU64WriteMuchCompressed mem b n).1.length = mem.length ∧
        (∀ i, i < b ∨ b + (muchCompressedBytes n).length ≤ i →
          (machU64WriteMuchCompressed mem b n).1[i]? = mem[i]?) ∧
        machU64ReadMuchCompressed (machU64WriteMuchCompressed mem b n).1 b = n ∧
        machReadNextMuchCompressed (machU64WriteMuchCompressed mem b n).1 b =
          (n, b + (muchCompressedBytes n).length) ∧
        ((machU64WriteMuchCompressed mem b n).1[b]? = some 0xFF ↔ 2 ^ 32 ≤ n)) ∧
    (∀ (mem : List UInt8) (b m : Nat), b + machGetCompressedSize m ≤ mem.length →
      (machWriteCompressed mem b m).1[b]? ≠ some 0xFF) :=
  ⟨fun _ _ _ hn h => by
      have := machWriteCompressed_round_trip hn h
      exact ⟨this.1, machGetCompressedSize_bounds _ |>.1, machGetCompressedSize_bounds _ |>.2,
        this.2⟩,
    fun _ _ _ hn h => machU64WriteCompressed_round_trip hn h,
    fun _ _ _ hn h => machU64WriteMuchCompressed_round_trip hn h,
    fun _ _ m h => by
      rw [← length_compressedBytes] at h
      rw [machWriteCompressed_eq h, getElem?_writeAt_inside (by omega) le_rfl
        (by have := (machGetCompressedSize_bounds m).1; rw [length_compressedBytes]; omega),
        Nat.sub_self]
      exact getElem?_zero_compressedBytes_ne m⟩

/-- 300 is two bytes `0x81 0x2C`; `2^32 + 5` is much-compressed as `0xFF`, `0x01`, `0x05`. -/
theorem mach_compressed_round_trip_small :
    (300 < 2 ^ 32 ∧ 0 + machGetCompressedSize 300 ≤ (List.replicate 11 (0 : UInt8)).length) ∧
      machReadCompressed (machWriteCompressed (List.replicate 11 0) 0 300).1 0 = 300 ∧
      (2 ^ 32 + 5 < 2 ^ 64 ∧
        0 + (muchCompressedBytes (2 ^ 32 + 5)).length ≤ (List.replicate 11 (0 : UInt8)).length) ∧
      machReadNextMuchCompressed (machU64WriteMuchCompressed (List.replicate 11 0) 0 (2 ^ 32 + 5)).1 0 =
        (2 ^ 32 + 5, 0 + (muchCompressedBytes (2 ^ 32 + 5)).length) ∧
      (0 + (u64CompressedBytes 7).length ≤ (List.replicate 11 (0 : UInt8)).length) ∧
      machU64ReadNextCompressed (machU64WriteCompressed (List.replicate 11 0) 0 7).1 0 =
        (7, 0 + (u64CompressedBytes 7).length) ∧
      (machWriteCompressed (List.replicate 11 0) 0 300).1[0]? ≠ some 0xFF :=
  have h1 : 300 < 2 ^ 32 ∧ 0 + machGetCompressedSize 300 ≤ (List.replicate 11 (0 : UInt8)).length :=
    ⟨by norm_num, by decide⟩
  have h2 : 2 ^ 32 + 5 < 2 ^ 64 ∧
      0 + (muchCompressedBytes (2 ^ 32 + 5)).length ≤ (List.replicate 11 (0 : UInt8)).length :=
    ⟨by norm_num, by decide⟩
  have h3 : 0 + (u64CompressedBytes 7).length ≤ (List.replicate 11 (0 : UInt8)).length := by decide
  ⟨h1, (mach_compressed_round_trip.1 _ 0 300 h1.1 h1.2).2.2.2.2.2.1, h2,
    (mach_compressed_round_trip.2.2.1 _ 0 _ h2.1 h2.2).2.2.2.2.2.2.1, h3,
    (mach_compressed_round_trip.2.1 _ 0 7 (by norm_num) h3).2.2.2.2.2,
    mach_compressed_round_trip.2.2.2 _ 0 300 h1.2⟩

end MariaDB.Mach
