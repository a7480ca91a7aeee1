import MariaDB.Lib.BigEndian
import Mathlib.Tactic.NormNum

/-
  The variable-length integers of the InnoDB redo log: `mlog_encode_varint` (mtr0log.h),
  `mlog_decode_varint_length` and `mlog_decode_varint` (log0recv.cc).

  Model. An integer below `MIN_2BYTE = 2^7` is one byte; each further range,
  `MIN_3BYTE = MIN_2BYTE + 2^14`, `MIN_4BYTE = MIN_3BYTE + 2^21`,
  `MIN_5BYTE = MIN_4BYTE + 2^28`, takes one byte more, and the count of leading one bits of
  the first byte says how many. Bytes are `UInt8`; the decoder's `uint32_t` arithmetic is on
  `Nat`, where it never exceeds `2^32 - 1`. `mlog_decode_varint_length` is the portable loop
  `for (int f{first}; f & 0x80; len++, f*= 2)`, which agrees with the C++20 `countl_one`
  variant on every byte and with the `__builtin_clz` variant on every byte but `0xff`, which
  no encoding starts with.

  Proved:
  * `length_mlogEncodeVarint`: one to five bytes, by range;
  * `mlogDecodeVarint_encode`: every `i < 2^32` is decoded back from its encoding, whatever
    follows it, and the first byte of the encoding announces its length.
-/

namespace MariaDB.Redo

open MariaDB.Lib

/-- `MIN_2BYTE`: the smallest integer written in two bytes, `0b10xxxxxx xxxxxxxx`. -/
def min2Byte : Nat := 1 <<< 7

/-- `MIN_3BYTE`: the smallest integer written in three bytes. -/
def min3Byte : Nat := min2Byte + (1 <<< 14)

/-- `MIN_4BYTE`: the smallest integer written in four bytes. -/
def min4Byte : Nat := min3Byte + (1 <<< 21)

/-- `MIN_5BYTE`: the smallest integer written in five bytes. -/
def min5Byte : Nat := min4Byte + (1 <<< 28)

/-- `MLOG_DECODE_ERROR = ~0U`. -/
def mlogDecodeError : Nat := 0xffffffff

/-- `mlog_encode_varint`: the bytes written for `i` (`i < 2^32`, as `ut_ad` requires). -/
def mlogEncodeVarint (i : Nat) : List UInt8 :=
  if i < min2Byte then [UInt8.ofNat i]
  else if i < min3Byte then
    let i := i - min2Byte
    [UInt8.ofNat (0x80 ||| (i >>> 8)), UInt8.ofNat i]
  else if i < min4Byte then
    let i := i - min3Byte
    [UInt8.ofNat (0xc0 ||| (i >>> 16)), UInt8.ofNat (i >>> 8), UInt8.ofNat i]
  else if i < min5Byte then
    let i := i - min4Byte
    [UInt8.ofNat (0xe0 ||| (i >>> 24)), UInt8.ofNat (i >>> 16), UInt8.ofNat (i >>> 8),
      UInt8.ofNat i]
  else
    let i := i - min5Byte
    [0xf0, UInt8.ofNat (i >>> 24), UInt8.ofNat (i >>> 16), UInt8.ofNat (i >>> 8), UInt8.ofNat i]

/-- The loop of `mlog_decode_varint_length`: one more byte for each leading one bit. Eight
    rounds are all a byte can use. -/
def leadingOnesLoop : Nat → Nat → Nat → Nat
  | 0, _, len => len
  | fuel + 1, f, len => if f &&& 0x80 = 0 then len else leadingOnesLoop fuel (f * 2) (len + 1)

/-- `mlog_decode_varint_length`: the length of an encoded integer from its first byte. -/
def mlogDecodeVarintLength (first : UInt8) : Nat := leadingOnesLoop 8 first.toNat 1

/-- `mlog_decode_varint`: the integer encoded at the start of `log`, or
    `MLOG_DECODE_ERROR`. -/
def mlogDecodeVarint (log : List UInt8) : Nat :=
  let i := (log.headD 0).toNat
  if i < min2Byte then i
  else if i < 0xc0 then
    min2Byte + ((i &&& (0xffffffff ^^^ 0xc0)) <<< 8 ||| (log.getD 1 0).toNat)
  else if i < 0xe0 then
    min3Byte + ((i &&& (0xffffffff ^^^ 0xe0)) <<< 16 ||| (log.getD 1 0).toNat <<< 8 |||
      (log.getD 2 0).toNat)
  else if i < 0xf0 then
    min4Byte + ((i &&& (0xffffffff ^^^ 0xf0)) <<< 24 ||| (log.getD 1 0).toNat <<< 16 |||
      (log.getD 2 0).toNat <<< 8 ||| (log.getD 3 0).toNat)
  else if i = 0xf0 then
    -- `i= mach_read_from_4(log + 1)`
    let i := beVal ((log.drop 1).take 4)
    if i ≤ 0xffffffff ^^^ min5Byte then min5Byte + i else mlogDecodeError
  else mlogDecodeError

/-! ## The ranges -/

theorem min2Byte_eq : min2Byte = 128 := rfl

theorem min3Byte_eq : min3Byte = 16512 := rfl

theorem min4Byte_eq : min4Byte = 2113664 := rfl

theorem min5Byte_eq : min5Byte = 270549120 := rfl

theorem length_mlogEncodeVarint (i : Nat) :
    (mlogEncodeVarint i).length =
      if i < min2Byte then 1 else if i < min3Byte then 2 else if i < min4Byte then 3
      else if i < min5Byte then 4 else 5 := by
  unfold mlogEncodeVarint
  split_ifs <;> rfl

theorem mlogEncodeVarint_ne_nil (i : Nat) : mlogEncodeVarint i ≠ [] := by
  unfold mlogEncodeVarint
  split_ifs <;> simp

/-! ## Bytes of the first field -/

theorem toNat_ofNat_byte (n : Nat) : (UInt8.ofNat n).toNat = n % 256 := UInt8.toNat_ofNat

/-- The tag bits of a first byte and the high bits under them do not overlap. -/
theorem or_tag_2 : ∀ q, q < 64 → 0x80 ||| q = 0x80 + q := by decide

theorem or_tag_3 : ∀ q, q < 32 → 0xc0 ||| q = 0xc0 + q := by decide

theorem or_tag_4 : ∀ q, q < 16 → 0xe0 ||| q = 0xe0 + q := by decide

/-- `first & ~0xc0` and its relatives strip the tag of a first byte. -/
theorem and_untag_2 : ∀ q, q < 64 → (0x80 + q) &&& (0xffffffff ^^^ 0xc0) = q := by decide

theorem and_untag_3 : ∀ q, q < 32 → (0xc0 + q) &&& (0xffffffff ^^^ 0xe0) = q := by decide

theorem and_untag_4 : ∀ q, q < 16 → (0xe0 + q) &&& (0xffffffff ^^^ 0xf0) = q := by decide

/-- The leading one bits of a first byte in each tag range. -/
theorem leadingOnes_1 : ∀ q, q < 128 → leadingOnesLoop 8 q 1 = 1 := by decide

theorem leadingOnes_2 : ∀ q, q < 64 → leadingOnesLoop 8 (0x80 + q) 1 = 2 := by decide

theorem leadingOnes_3 : ∀ q, q < 32 → leadingOnesLoop 8 (0xc0 + q) 1 = 3 := by decide

theorem leadingOnes_4 : ∀ q, q < 16 → leadingOnesLoop 8 (0xe0 + q) 1 = 4 := by decide

theorem leadingOnes_5 : leadingOnesLoop 8 0xf0 1 = 5 := by decide

/-! ## Each form read back -/

/-- The encoding by range: the first byte as a number and the bytes after it. -/
theorem mlogEncodeVarint_one {i : Nat} (h : i < min2Byte) :
    mlogEncodeVarint i = [UInt8.ofNat i] := by
  simp [mlogEncodeVarint, h]

theorem mlogEncodeVarint_two {i : Nat} (h1 : min2Byte ≤ i) (h2 : i < min3Byte) :
    mlogEncodeVarint i = [UInt8.ofNat (0x80 + (i - min2Byte) / 256), UInt8.ofNat (i - min2Byte)] := by
  have hq : (i - min2Byte) >>> 8 < 64 := by
    rw [Nat.shiftRight_eq_div_pow]; rw [min2Byte_eq, min3Byte_eq] at *; omega
  simp only [mlogEncodeVarint, if_neg (Nat.not_lt.mpr h1), if_pos h2]
  rw [or_tag_2 _ hq, Nat.shiftRight_eq_div_pow]

theorem mlogEncodeVarint_three {i : Nat} (h1 : min3Byte ≤ i) (h2 : i < min4Byte) :
    mlogEncodeVarint i = [UInt8.ofNat (0xc0 + (i - min3Byte) / 65536),
      UInt8.ofNat ((i - min3Byte) / 256), UInt8.ofNat (i - min3Byte)] := by
  have hq : (i - min3Byte) >>> 16 < 32 := by
    rw [Nat.shiftRight_eq_div_pow]; rw [min3Byte_eq, min4Byte_eq] at *; omega
  have h1' : ¬ i < min2Byte := by rw [min2Byte_eq, min3Byte_eq] at *; omega
  simp only [mlogEncodeVarint, if_neg h1', if_neg (Nat.not_lt.mpr h1), if_pos h2]
  rw [or_tag_3 _ hq, Nat.shiftRight_eq_div_pow, Nat.shiftRight_eq_div_pow]

theorem mlogEncodeVarint_four {i : Nat} (h1 : min4Byte ≤ i) (h2 : i < min5Byte) :
    mlogEncodeVarint i = [UInt8.ofNat (0xe0 + (i - min4Byte) / 16777216),
      UInt8.ofNat ((i - min4Byte) / 65536), UInt8.ofNat ((i - min4Byte) / 256),
      UInt8.ofNat (i - min4Byte)] := by
  have hq : (i - min4Byte) >>> 24 < 16 := by
    rw [Nat.shiftRight_eq_div_pow]; rw [min4Byte_eq, min5Byte_eq] at *; omega
  have h1' : ¬ i < min2Byte := by rw [min2Byte_eq, min4Byte_eq] at *; omega
  have h1'' : ¬ i < min3Byte := by rw [min3Byte_eq, min4Byte_eq] at *; omega
  simp only [mlogEncodeVarint, if_neg h1', if_neg h1'', if_neg (Nat.not_lt.mpr h1), if_pos h2]
  rw [or_tag_4 _ hq, Nat.shiftRight_eq_div_pow, Nat.shiftRight_eq_div_pow,
    Nat.shiftRight_eq_div_pow]

theorem mlogEncodeVarint_five {i : Nat} (h1 : min5Byte ≤ i) :
    mlogEncodeVarint i = 0xf0 :: beBytes 4 (i - min5Byte) := by
  have h1' : ¬ i < min2Byte := by rw [min2Byte_eq, min5Byte_eq] at *; omega
  have h1'' : ¬ i < min3Byte := by rw [min3Byte_eq, min5Byte_eq] at *; omega
  have h1''' : ¬ i < min4Byte := by rw [min4Byte_eq, min5Byte_eq] at *; omega
  simp only [mlogEncodeVarint, if_neg h1', if_neg h1'', if_neg h1''', if_neg (Nat.not_lt.mpr h1),
    Nat.shiftRight_eq_div_pow, beBytes_succ, beBytes_zero, List.nil_append, List.cons_append,
    Nat.div_div_eq_div_mul]

/-! ## Decoding an encoding -/

theorem headD_append_of_ne_nil {l : List UInt8} (h : l ≠ []) (rest : List UInt8) :
    (l ++ rest).headD 0 = l.headD 0 := by
  obtain ⟨b, bs, rfl⟩ := List.exists_cons_of_ne_nil h
  rfl

theorem mlogDecodeVarint_one {i : Nat} (h : i < min2Byte) (rest : List UInt8) :
    mlogDecodeVarint (mlogEncodeVarint i ++ rest) = i ∧
      mlogDecodeVarintLength ((mlogEncodeVarint i).headD 0) = 1 := by
  rw [min2Byte_eq] at h
  have hb : (UInt8.ofNat i).toNat = i := by rw [toNat_ofNat_byte]; omega
  rw [mlogEncodeVarint_one (by rw [min2Byte_eq]; exact h)]
  refine ⟨?_, ?_⟩
  · simp only [mlogDecodeVarint, List.cons_append, List.headD_cons, hb, min2Byte_eq, if_pos h]
  · rw [mlogDecodeVarintLength, List.headD_cons, hb]
    exact leadingOnes_1 i h

theorem mlogDecodeVarint_two {i : Nat} (h1 : min2Byte ≤ i) (h2 : i < min3Byte)
    (rest : List UInt8) :
    mlogDecodeVarint (mlogEncodeVarint i ++ rest) = i ∧
      mlogDecodeVarintLength ((mlogEncodeVarint i).headD 0) = 2 := by
  rw [mlogEncodeVarint_two h1 h2]
  rw [min2Byte_eq, min3Byte_eq] at *
  have hq : (i - 128) / 256 < 64 := by omega
  have hb : (UInt8.ofNat (0x80 + (i - 128) / 256)).toNat = 0x80 + (i - 128) / 256 := by
    rw [toNat_ofNat_byte]; omega
  refine ⟨?_, ?_⟩
  · simp only [mlogDecodeVarint, List.cons_append, List.headD_cons, hb, min2Byte_eq,
      List.getD_cons_succ, List.getD_cons_zero, toNat_ofNat_byte]
    rw [if_neg (by omega), if_pos (by omega), and_untag_2 _ hq,
      shiftLeft_or_of_lt (show (i - 128) % 256 < 2 ^ 8 by omega)]
    omega
  · rw [mlogDecodeVarintLength, List.headD_cons, hb]
    exact leadingOnes_2 _ hq

theorem mlogDecodeVarint_three {i : Nat} (h1 : min3Byte ≤ i) (h2 : i < min4Byte)
    (rest : List UInt8) :
    mlogDecodeVarint (mlogEncodeVarint i ++ rest) = i ∧
      mlogDecodeVarintLength ((mlogEncodeVarint i).headD 0) = 3 := by
  rw [mlogEncodeVarint_three h1 h2]
  rw [min3Byte_eq, min4Byte_eq] at *
  have hq : (i - 16512) / 65536 < 32 := by omega
  have hb : (UInt8.ofNat (0xc0 + (i - 16512) / 65536)).toNat = 0xc0 + (i - 16512) / 65536 := by
    rw [toNat_ofNat_byte]; omega
  refine ⟨?_, ?_⟩
  · simp only [mlogDecodeVarint, List.cons_append, List.headD_cons, hb, min3Byte_eq,
      List.getD_cons_succ, List.getD_cons_zero, toNat_ofNat_byte]
    rw [if_neg (by rw [min2Byte_eq]; omega), if_neg (by omega), if_pos (by omega),
      and_untag_3 _ hq]
    -- the three fields are one number in base 256
    have hs : ((i - 16512) / 65536) <<< 16 ||| ((i - 16512) / 256 % 256) <<< 8 =
        ((i - 16512) / 65536 * 2 ^ 8 + (i - 16512) / 256 % 256) <<< 8 :=
      shiftLeft_or_shiftLeft (m := 8) (k := 8) rfl (show (i - 16512) / 256 % 256 < 2 ^ 8 by omega)
    rw [hs, shiftLeft_or_of_lt (show (i - 16512) % 256 < 2 ^ 8 by omega)]
    omega
  · rw [mlogDecodeVarintLength, List.headD_cons, hb]
    exact leadingOnes_3 _ hq

theorem mlogDecodeVarint_four {i : Nat} (h1 : min4Byte ≤ i) (h2 : i < min5Byte)
    (rest : List UInt8) :
    mlogDecodeVarint (mlogEncodeVarint i ++ rest) = i ∧
      mlogDecodeVarintLength ((mlogEncodeVarint i).headD 0) = 4 := by
  rw [mlogEncodeVarint_four h1 h2]
  rw [min4Byte_eq, min5Byte_eq] at *
  have hq : (i - 2113664) / 16777216 < 16 := by omega
  have hb : (UInt8.ofNat (0xe0 + (i - 2113664) / 16777216)).toNat =
      0xe0 + (i - 2113664) / 16777216 := by
    rw [toNat_ofNat_byte]; omega
  refine ⟨?_, ?_⟩
  · simp only [mlogDecodeVarint, List.cons_append, List.headD_cons, hb, min4Byte_eq,
      List.getD_cons_succ, List.getD_cons_zero, toNat_ofNat_byte]
    rw [if_neg (by rw [min2Byte_eq]; omega), if_neg (by omega), if_neg (by omega),
      if_pos (by omega), and_untag_4 _ hq]
    -- the four fields are one number in base 256
    have hs1 : ((i - 2113664) / 16777216) <<< 24 ||| ((i - 2113664) / 65536 % 256) <<< 16 =
        ((i - 2113664) / 16777216 * 2 ^ 8 + (i - 2113664) / 65536 % 256) <<< 16 :=
      shiftLeft_or_shiftLeft (m := 8) (k := 16) rfl
        (show (i - 2113664) / 65536 % 256 < 2 ^ 8 by omega)
    have hs2 : ((i - 2113664) / 16777216 * 2 ^ 8 + (i - 2113664) / 65536 % 256) <<< 16 |||
          ((i - 2113664) / 256 % 256) <<< 8 =
        (((i - 2113664) / 16777216 * 2 ^ 8 + (i - 2113664) / 65536 % 256) * 2 ^ 8 +
          (i - 2113664) / 256 % 256) <<< 8 :=
      shiftLeft_or_shiftLeft (m := 8) (k := 8) rfl
        (show (i - 2113664) / 256 % 256 < 2 ^ 8 by omega)
    rw [hs1, hs2, shiftLeft_or_of_lt (show (i - 2113664) % 256 < 2 ^ 8 by omega)]
    omega
  · rw [mlogDecodeVarintLength, List.headD_cons, hb]
    exact leadingOnes_4 _ hq

theorem mlogDecodeVarint_five {i : Nat} (h1 : min5Byte ≤ i) (h2 : i < 2 ^ 32)
    (rest : List UInt8) :
    mlogDecodeVarint (mlogEncodeVarint i ++ rest) = i ∧
      mlogDecodeVarintLength ((mlogEncodeVarint i).headD 0) = 5 := by
  rw [mlogEncodeVarint_five h1]
  rw [min5Byte_eq] at *
  have hj : i - 270549120 < 256 ^ 4 := by omega
  have hbe : beVal (((beBytes 4 (i - 270549120) ++ rest)).take 4) = i - 270549120 := by
    rw [List.take_left' (beBytes_length 4 _), beVal_beBytes_of_lt hj]
  have hmax : (0xffffffff ^^^ 270549120 : Nat) = 4024418175 := by decide
  refine ⟨?_, leadingOnes_5⟩
  simp only [mlogDecodeVarint, List.cons_append, List.headD_cons, List.drop_succ_cons,
    List.drop_zero, hbe, min5Byte_eq, hmax]
  rw [if_neg (by decide), if_neg (by decide), if_neg (by decide), if_neg (by decide),
    if_pos (by decide), if_pos (by omega)]
  omega

/-- Every `i < 2^32` is read back from its encoding, and the first byte announces the
    encoding's length. -/
theorem mlogDecodeVarint_encode {i : Nat} (hi : i < 2 ^ 32) (rest : List UInt8) :
    mlogDecodeVarint (mlogEncodeVarint i ++ rest) = i ∧
      mlogDecodeVarintLength ((mlogEncodeVarint i ++ rest).headD 0) =
        (mlogEncodeVarint i).length := by
  rw [headD_append_of_ne_nil (mlogEncodeVarint_ne_nil i), length_mlogEncodeVarint]
  by_cases h2 : i < min2Byte
  · rw [if_pos h2]; exact mlogDecodeVarint_one h2 rest
  by_cases h3 : i < min3Byte
  · rw [if_neg h2, if_pos h3]; exact mlogDecodeVarint_two (Nat.not_lt.mp h2) h3 rest
  by_cases h4 : i < min4Byte
  · rw [if_neg h2, if_neg h3, if_pos h4]; exact mlogDecodeVarint_three (Nat.not_lt.mp h3) h4 rest
  by_cases h5 : i < min5Byte
  · rw [if_neg h2, if_neg h3, if_neg h4, if_pos h5]
    exact mlogDecodeVarint_four (Nat.not_lt.mp h4) h5 rest
  · rw [if_neg h2, if_neg h3, if_neg h4, if_neg h5]
    exact mlogDecodeVarint_five (Nat.not_lt.mp h5) hi rest

end MariaDB.Redo
