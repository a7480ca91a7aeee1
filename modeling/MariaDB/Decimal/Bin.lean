import MariaDB.Decimal.Basic

/-
  The storage format of DECIMAL(precision, scale): `decimal2bin`, `bin2decimal` and
  `decimal_bin_size` of strings/decimal.c.

  The format (comment above `decimal2bin`): the number is brought to the target scale, the
  integer part is stored as a leading field of `intg % 9` digits in `dig2bytes[intg % 9]`
  bytes followed by full 9-digit words in 4 bytes each, the fraction as full words followed
  by a trailing field of `scale % 9` digits; for a negative number every byte is
  complemented, and then the top bit of the first byte is flipped.

  Bytes are `UInt8`. A word the reader builds is kept as its 32-bit pattern, so
  `mi_sint1korr` .. `mi_sint4korr` (`sintKorr`) sign-extend into the pattern and `x ^ mask`
  with `mask` either `0` or `-1` is `xorMask`. The product `(x ^ mask) * powers10[..]` the
  reader forms for the trailing field is an `int32` product; it is taken modulo `2^32`, as
  the compiled code computes it.

  `bin2decimal_lead_off_by_one` shows the reader accepting a leading field with more digits
  than the precision gives it.
-/

namespace MariaDB.Decimal

open MariaDB.Lib

/-- The `E_DEC_*` result codes. -/
inductive DecErr where
  | ok | truncated | overflow | divZero | badNum | oom
  deriving Repr, DecidableEq

/-- `decimal_bin_size`: the bytes of the binary format of DECIMAL(precision, scale). -/
def decimalBinSize (precision scale : Nat) : Nat :=
  let intg := precision - scale
  intg / 9 * 4 + dig2bytes (intg % 9) + scale / 9 * 4 + dig2bytes (scale % 9)

/-! ## Bytes and masks -/

/-- A byte of `x ^ mask`, `mask` being `0` (`false`) or `-1` (`true`). -/
def maskByte (mask : Bool) (b : UInt8) : UInt8 := if mask then ~~~b else b

/-- `mi_int1store` .. `mi_int4store` of `x ^ mask`: the `n` low bytes of `x`, big-endian,
    each complemented when the mask is set. -/
def storeMasked (n : Nat) (mask : Bool) (x : Nat) : List UInt8 :=
  (beBytes n x).map (maskByte mask)

/-- `orig_to[0] ^= 0x80`. -/
def flipFirst : List UInt8 → List UInt8
  | [] => []
  | b :: bs => (b ^^^ 0x80) :: bs

/-- `mi_sint1korr` .. `mi_sint4korr` as a 32-bit pattern: `n` bytes big-endian, sign-extended
    from their top bit. -/
def sintKorr (n : Nat) (src : List UInt8) : Nat :=
  let u := beVal (src.take n)
  if 2 ^ (8 * n - 1) ≤ u then u + 2 ^ 32 - 2 ^ (8 * n) else u

/-- `x ^ mask` on a 32-bit pattern, `mask` being `0` (`false`) or `-1` (`true`). -/
def xorMask (mask : Bool) (x : Nat) : Nat := if mask then 2 ^ 32 - 1 - x else x

/-! ## `decimal2bin` -/

/-- The loop `while (frac1x < lim && dig2bytes[frac1x] == i) frac1x++`, with `fuel` steps
    (the loop never runs more than `lim` of them). -/
def widenDigits (i lim : Nat) : Nat → Nat → Nat
  | 0, x => x
  | fuel + 1, x => if x < lim ∧ dig2bytes x = i then widenDigits i lim fuel (x + 1) else x

/-- `decimal2bin`: `d` in the binary format of DECIMAL(precision, frac), with the result
    code. -/
def decimal2bin (d : DecimalT) (precision frac : Nat) : DecErr × List UInt8 :=
  let intg := precision - frac
  let intg0 := intg / 9
  let frac0 := frac / 9
  let intg0x := intg % 9
  let frac0x := frac % 9
  let frac1 := d.frac / 9
  let frac1x := d.frac % 9
  let isize0 := intg0 * 4 + dig2bytes intg0x
  let fsize0 := frac0 * 4 + dig2bytes frac0x
  let fsize1 := frac1 * 4 + dig2bytes frac1x
  let rz := removeLeadingZeroes d
  let fromIntg := rz.2
  -- no integer digits and no fraction bytes: the value zero, written with a clear mask
  let mask := if fromIntg + fsize1 = 0 then false else d.sign
  let intg1 := fromIntg / 9
  let intg1x := fromIntg % 9
  let isize1 := intg1 * 4 + dig2bytes intg1x
  -- too many integer digits: keep the low `intg` of them; else pad the integer part
  let ovf := decide (intg < fromIntg)
  let buf1 := if ovf then
      rz.1 + intg1 + (if 0 < intg1x then 1 else 0) - intg0 - (if 0 < intg0x then 1 else 0)
    else rz.1
  let intg1' := if ovf then intg0 else intg1
  let intg1x' := if ovf then intg0x else intg1x
  let ipad := if ovf then 0 else isize0 - isize1
  -- fraction: shorten it, or prepare to widen a partial last word
  let trunc := decide (fsize0 < fsize1)
  let widen := decide (fsize1 < fsize0) && decide (0 < frac1x)
  let frac1' := if trunc then frac0 else if widen && frac0 ≠ frac1 then frac1 + 1 else frac1
  let frac1x' := if trunc then frac0x else if widen then (if frac0 = frac1 then frac0x else 0)
    else frac1x
  let fsize0' := if widen && frac0 = frac1 then fsize1 else fsize0
  let err := if trunc then DecErr.truncated else if ovf then DecErr.overflow else DecErr.ok
  let words := d.buf.drop buf1
  let lead := if 0 < intg1x' then
      storeMasked (dig2bytes intg1x') mask (words.getD 0 0 % 10 ^ intg1x') else []
  let words := if 0 < intg1x' then words.drop 1 else words
  let full := ((words.take (intg1' + frac1')).map (storeMasked 4 mask)).flatten
  let last := if 0 < frac1x' then
      let i := dig2bytes frac1x'
      let lim := if frac1' < frac0 then 9 else frac0x
      let x := widenDigits i lim lim frac1x'
      storeMasked i mask (words.getD (intg1' + frac1') 0 / 10 ^ (9 - x))
    else []
  let body := List.replicate ipad (maskByte mask 0) ++ lead ++ full ++ last
  let tail := if fsize1 < fsize0' then
      List.replicate (min (fsize0' - fsize1) (isize0 + fsize0 - body.length)) (maskByte mask 0)
    else []
  (err, flipFirst (body ++ tail))

/-! ## `bin2decimal` -/

/-- `FIX_INTG_FRAC_ERROR(len, intg1, frac1, error)`: fit `intg1 + frac1` words into `len`,
    dropping fraction words first. -/
def fixIntgFracError (len intg1 frac1 : Nat) : Nat × Nat × DecErr :=
  if len < intg1 + frac1 then
    if len < intg1 then (len, 0, .overflow) else (intg1, len - intg1, .truncated)
  else (intg1, frac1, .ok)

/-- The reader's state: bytes not yet read, `to->buf`, `buf - to->buf`, `to->intg`. -/
structure ReadState where
  src : List UInt8
  buf : List Nat
  pos : Nat
  intg : Nat
  deriving Repr, DecidableEq

/-- Store a word at `buf` and step past `bytes` input bytes; `keep` says whether `buf`
    advances (a leading zero word is overwritten by the next one, and its `digits` are
    taken off `intg`). -/
def ReadState.put (st : ReadState) (bytes w : Nat) (keep : Bool) (digits : Nat) : ReadState :=
  if keep then ⟨st.src.drop bytes, st.buf.set st.pos w, st.pos + 1, st.intg⟩
  else ⟨st.src.drop bytes, st.buf.set st.pos w, st.pos, st.intg - digits⟩

/-- The leading field of `bin2decimal`: `intg0x` digits in `dig2bytes[intg0x]` bytes, checked
    against `powers10[intg0x+1]`. On failure, the buffer with the bad word stored. -/
def readLead (mask : Bool) (intg0x : Nat) (st : ReadState) : Except (List Nat) ReadState :=
  if 0 < intg0x then
    let i := dig2bytes intg0x
    let w := xorMask mask (sintKorr i st.src)
    -- `(ulonglong) *buf` of a negative word is above every power of ten used here
    if 10 ^ (intg0x + 1) ≤ w then .error (st.buf.set st.pos w)
    else .ok (st.put i w (decide (0 < st.pos) || decide (w ≠ 0)) intg0x)
  else .ok st

/-- The integer-word loop of `bin2decimal`: `n` words checked against `DIG_MAX`; a leading
    zero word is not kept. -/
def readIntgWords (mask : Bool) : Nat → ReadState → Except (List Nat) ReadState
  | 0, st => .ok st
  | n + 1, st =>
    let w := xorMask mask (sintKorr 4 st.src)
    if 999999999 < w then .error (st.buf.set st.pos w)
    else readIntgWords mask n (st.put 4 w (decide (0 < st.pos) || decide (w ≠ 0)) 9)

/-- The fraction-word loop of `bin2decimal`: `n` words checked against `DIG_MAX`. -/
def readFracWords (mask : Bool) : Nat → ReadState → Except (List Nat) ReadState
  | 0, st => .ok st
  | n + 1, st =>
    let w := xorMask mask (sintKorr 4 st.src)
    if 999999999 < w then .error (st.buf.set st.pos w)
    else readFracWords mask n (st.put 4 w true 0)

/-- The trailing field of `bin2decimal`: `frac0x` digits, scaled by `powers10[9 - frac0x]`
    in 32 bits, then checked against `DIG_MAX`. -/
def readTrail (mask : Bool) (frac0x : Nat) (st : ReadState) : Except (List Nat) ReadState :=
  if 0 < frac0x then
    let i := dig2bytes frac0x
    let w := xorMask mask (sintKorr i st.src) * 10 ^ (9 - frac0x) % 2 ^ 32
    if 999999999 < w then .error (st.buf.set st.pos w)
    else .ok (st.put i w true 0)
  else .ok st

/-- `bin2decimal`: read DECIMAL(precision, scale) from its binary format into `dst` (`to`), whose
    `buf` (and so `len`) is the caller's buffer. -/
def bin2decimal (bytes : List UInt8) (dst : DecimalT) (precision scale : Nat) :
    DecErr × DecimalT :=
  let intg := precision - scale
  let intg0 := intg / 9
  let frac0 := scale / 9
  let intg0x := intg % 9
  let frac0x := scale % 9
  let intg1 := intg0 + (if 0 < intg0x then 1 else 0)
  let frac1 := frac0 + (if 0 < frac0x then 1 else 0)
  -- `mask = (*from & 0x80) ? 0 : -1`, then `d_copy[0] ^= 0x80`
  let mask := decide ((bytes.headD 0 &&& 0x80) = 0)
  let src := flipFirst bytes
  let fix := fixIntgFracError dst.len intg1 frac1
  let error := fix.2.2
  -- on an error the layout is cut down to what fits
  let cut := error ≠ .ok
  let skipHead := cut && decide (fix.1 < intg0 + (if 0 < intg0x then 1 else 0))
  let src := if skipHead then src.drop (dig2bytes intg0x + 4 * (intg0 - fix.1)) else src
  let intg0' := if skipHead then fix.1 else intg0
  let intg0x' := if skipHead then 0 else intg0x
  let frac0' := if skipHead then 0 else if cut then fix.2.1 else frac0
  let frac0x' := if cut then 0 else frac0x
  let toFrac := frac0' * 9 + frac0x'
  let st0 : ReadState := ⟨src, dst.buf, 0, intg0' * 9 + intg0x'⟩
  let run := readLead mask intg0x' st0 >>= readIntgWords mask intg0' >>=
    readFracWords mask frac0' >>= readTrail mask frac0x'
  match run with
  | .error buf => (.badNum, decimalMakeZero ⟨1, 0, false, buf⟩)
  | .ok st =>
    let r : DecimalT := ⟨st.intg, toFrac, mask, st.buf⟩
    -- no digits: a proper zero
    if st.intg = 0 ∧ toFrac = 0 then (error, decimalMakeZero r) else (error, r)

/-- On the byte `0x8F` as DECIMAL(1, 0) the reader accepts the leading word `15`, two digits
    where the precision allows one: the leading field is checked against `powers10[intg0x+1]`
    where `powers10[intg0x]` bounds its digits. -/
theorem bin2decimal_lead_off_by_one :
    bin2decimal [0x8F] ⟨0, 0, false, [0]⟩ 1 0 = (.ok, ⟨1, 0, false, [15]⟩) ∧
      ¬ DecimalT.DigitsConsistent ⟨1, 0, false, [15]⟩ := by
  decide

end MariaDB.Decimal
