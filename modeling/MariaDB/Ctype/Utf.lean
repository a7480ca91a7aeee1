import Mathlib.Data.List.Basic

/-
  The multi-byte decoders of strings/ctype-utf8.h and strings/ctype-utf16.h that the JSON
  scanner calls: `my_mb_wc_utf8mb4_quick`, the `mb_wc` of utf8mb4, and
  `my_mb_wc_utf16_quick`, which `my_utf16_uni` is and `json_handle_esc` uses to turn a
  `\uXXXX` escape into a code point.

  An `mb_wc` reads the bytes from `s` to `e` and returns the bytes it used (`> 0`), or
  `MY_CS_ILSEQ` (0) or `MY_CS_TOOSMALLn` (`-100 - n`); it writes the code point through `pwc`
  only when it succeeds. `Charset` packs a decoder with what every decoder of the source
  keeps to: it never claims more bytes than it was given.

  Proved: both decoders keep to it (`myMbWcUtf8mb4_le`, `myUtf16Uni_le`), read an ASCII byte as
  itself (`myMbWcUtf8mb4_ascii`).
-/

namespace MariaDB.Ctype

/-- `MY_CS_ILSEQ`. -/
def myCsIlseq : Int := 0

/-- `MY_CS_TOOSMALL`. -/
def myCsToosmall : Int := -101

/-- `MY_CS_TOOSMALL2`, `MY_CS_TOOSMALL3`, `MY_CS_TOOSMALL4`: `n` bytes are needed. -/
def myCsToosmallN (n : Nat) : Int := -100 - n

/-- An `mb_wc` function: the bytes from `s` to `e` and the code point `pwc` held before the
call; the result and the code point after it. -/
abbrev MbWc := List UInt8 → Nat → Int × Nat

/-- A decoder with the bound every `mb_wc` of the source keeps: it reads at most the bytes it
is given. -/
structure Charset where
  mbWc : MbWc
  read_le : ∀ s wc, (mbWc s wc).1 ≤ s.length

/-! ## utf8mb4 -/

/-- `IS_CONTINUATION_BYTE(c)`. -/
def isContinuationByte (c : UInt8) : Bool := (c ^^^ 0x80) < 0x40

/-- `IS_UTF8MB3_STEP2(b0,b1,b2)`. -/
def isUtf8mb3Step2 (b0 b1 b2 : UInt8) : Bool :=
  isContinuationByte b1 && isContinuationByte b2 && (b0 ≥ 0xe1 || b1 ≥ 0xa0)

/-- `IS_UTF8MB4_STEP2(b0,b1,b2,b3)`. -/
def isUtf8mb4Step2 (b0 b1 b2 b3 : UInt8) : Bool :=
  isContinuationByte b1 && isContinuationByte b2 && isContinuationByte b3 &&
    (b0 ≥ 0xf1 || b1 ≥ 0x90) && (b0 ≤ 0xf3 || b1 ≤ 0x8F)

/-- `UTF8MB2_CODE(b0,b1)`. -/
def utf8mb2Code (b0 b1 : UInt8) : Nat := (b0 &&& 0x1f).toNat <<< 6 ||| (b1 ^^^ 0x80).toNat

/-- `UTF8MB3_CODE(b0,b1,b2)`. -/
def utf8mb3Code (b0 b1 b2 : UInt8) : Nat :=
  (b0 &&& 0x0f).toNat <<< 12 ||| (b1 ^^^ 0x80).toNat <<< 6 ||| (b2 ^^^ 0x80).toNat

/-- `UTF8MB4_CODE(b0,b1,b2,b3)`. -/
def utf8mb4Code (b0 b1 b2 b3 : UInt8) : Nat :=
  (b0 &&& 0x07).toNat <<< 18 ||| (b1 ^^^ 0x80).toNat <<< 12 ||| (b2 ^^^ 0x80).toNat <<< 6 |||
    (b3 ^^^ 0x80).toNat

/-- `my_mb_wc_utf8mb4_quick(pwc, s, e)`. -/
def myMbWcUtf8mb4 : MbWc
  | [], wc => (myCsToosmall, wc)
  | c :: rest, wc =>
    if c < 0x80 then (1, c.toNat)
    else if c < 0xc2 then (myCsIlseq, wc)
    else if c < 0xe0 then
      match rest with
      | b1 :: _ => if isContinuationByte b1 then (2, utf8mb2Code c b1) else (myCsIlseq, wc)
      | [] => (myCsToosmallN 2, wc)
    else if c < 0xf0 then
      match rest with
      | b1 :: b2 :: _ =>
        if isUtf8mb3Step2 c b1 b2 then (3, utf8mb3Code c b1 b2) else (myCsIlseq, wc)
      | _ => (myCsToosmallN 3, wc)
    else if c < 0xf5 then
      match rest with
      | b1 :: b2 :: b3 :: _ =>
        if isUtf8mb4Step2 c b1 b2 b3 then (4, utf8mb4Code c b1 b2 b3) else (myCsIlseq, wc)
      | _ => (myCsToosmallN 4, wc)
    else (myCsIlseq, wc)

theorem myMbWcUtf8mb4_le (s : List UInt8) (wc : Nat) : (myMbWcUtf8mb4 s wc).1 ≤ s.length := by
  match s with
  | [] => simp [myMbWcUtf8mb4, myCsToosmall]
  | c :: rest =>
    -- each branch reads the bytes its length test saw, or fails
    simp only [myMbWcUtf8mb4]
    split_ifs <;> (try split) <;> (try split_ifs) <;>
      simp_all [myCsIlseq, myCsToosmallN] <;> omega

/-- An ASCII byte is its own code point, one byte long. -/
theorem myMbWcUtf8mb4_ascii {c : UInt8} (hc : c < 0x80) (rest : List UInt8) (wc : Nat) :
    myMbWcUtf8mb4 (c :: rest) wc = (1, c.toNat) := by
  simp [myMbWcUtf8mb4, hc]

/-- utf8mb4 as a `Charset`. -/
def utf8mb4 : Charset := ⟨myMbWcUtf8mb4, myMbWcUtf8mb4_le⟩

/-! ## utf16 -/

/-- `MY_UTF16_HIGH_HEAD(x)`. -/
def myUtf16HighHead (x : UInt8) : Bool := (x &&& 0xFC) == 0xD8

/-- `MY_UTF16_LOW_HEAD(x)`. -/
def myUtf16LowHead (x : UInt8) : Bool := (x &&& 0xFC) == 0xDC

/-- `MY_UTF16_WC4(a, b, c, d)`. -/
def myUtf16Wc4 (a b c d : UInt8) : Nat :=
  ((a.toNat &&& 3) <<< 18) + (b.toNat <<< 10) + ((c.toNat &&& 3) <<< 8) + d.toNat + 0x10000

/-- `my_mb_wc_utf16_quick(pwc, s, e)`, which `my_utf16_uni` is. -/
def myUtf16Uni : MbWc
  | b0 :: b1 :: rest, wc =>
    if myUtf16HighHead b0 then
      match rest with
      | b2 :: b3 :: _ =>
        if ! myUtf16LowHead b2 then (myCsIlseq, wc) else (4, myUtf16Wc4 b0 b1 b2 b3)
      | _ => (myCsToosmallN 4, wc)
    else if myUtf16LowHead b0 then (myCsIlseq, wc)
    else (2, (b0.toNat <<< 8) + b1.toNat)
  | _, wc => (myCsToosmallN 2, wc)

theorem myUtf16Uni_le (s : List UInt8) (wc : Nat) : (myUtf16Uni s wc).1 ≤ s.length := by
  match s with
  | b0 :: b1 :: rest =>
    simp only [myUtf16Uni]
    split_ifs <;> (try split) <;> (try split_ifs) <;>
      simp_all [myCsIlseq, myCsToosmallN] <;> omega
  | [] => simp [myUtf16Uni, myCsToosmallN]
  | [_] => simp [myUtf16Uni, myCsToosmallN]

end MariaDB.Ctype
