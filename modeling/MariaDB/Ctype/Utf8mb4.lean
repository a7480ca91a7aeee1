import MariaDB.Ctype.Utf
import MariaDB.Lib.BigEndian
import Mathlib

/-
  The utf8mb4 codec of strings/ctype-utf8.c: the encoder `my_wc_mb_utf8mb4` against the decoder
  `my_mb_wc_utf8mb4` (which is `my_mb_wc_utf8mb4_quick`, `myMbWcUtf8mb4` of `Utf`), and
  `my_charlen_utf8mb4` with the `my_valid_mbcharlen_utf8mb3` it calls.

  Model. The encoder is given the code point and the room `e - r` and returns its result and
  the bytes it stores. Its `switch` falls through from the last byte to the first
  (`wcMbFallThrough`): each case stores `0x80 | (wc & 0x3f)`, shifts `wc` and or-s in the lead
  bits the byte before it will carry. `my_valid_mbcharlen_utf8mb3` is only called on a
  non-empty string (`DBUG_ASSERT(s < e)`), so it takes the first byte and the rest.

  Specification. `utf8Encode wc` is the shortest UTF-8 form of `wc` (RFC 3629 §3), and
  `leadLength c` the length of the form a byte `c` starts, 0 for a byte no form starts with.

  Proved:
  * `myWcMbUtf8mb4_eq`: with room for it, every code point below `0x200000` is stored as its
    `utf8Encode`;
  * `myMbWcUtf8mb4_utf8Encode`: the decoder reads every code point up to `0x10FFFF` back from
    its form, whatever follows; `utf8Encode_of_myMbWcUtf8mb4_pos`: what it reads with a
    positive result is such a form;
  * `myMbWcUtf8mb4_toosmall_iff`, `myMbWcUtf8mb4_ilseq_iff`: it asks for more bytes just when a
    valid lead byte lacks them, and fails otherwise;
  * `myCharlenUtf8mb4_eq`: `my_charlen_utf8mb4` is the decoder's result, without the code point.
-/

namespace MariaDB.Ctype

open MariaDB.Lib

/-! ## Model -/

/-- `MY_CS_ILUNI`. -/
def myCsIluni : Int := 0

/-- What `case k` of the `switch` of `my_wc_mb_utf8mb4` or-s into `wc` after its store. -/
def fallThroughMark : Nat → Nat
  | 4 => 0x10000
  | 3 => 0x800
  | 2 => 0xc0
  | _ => 0

/-- The `switch` of `my_wc_mb_utf8mb4` from `case count` on: the bytes `r[0..count)`. -/
def wcMbFallThrough : Nat → Nat → List UInt8
  | 0, _ => []
  | 1, wc => [UInt8.ofNat wc]
  | k + 2, wc =>
    wcMbFallThrough (k + 1) (wc >>> 6 ||| fallThroughMark (k + 2)) ++
      [UInt8.ofNat (0x80 ||| (wc &&& 0x3f))]

/-- `my_wc_mb_utf8mb4(cs, wc, r, e)`, with `room = e - r`: the result and the bytes stored. -/
def myWcMbUtf8mb4 (wc room : Nat) : Int × List UInt8 :=
  if room = 0 then (myCsToosmall, [])
  else if 0x200000 ≤ wc then (myCsIluni, [])
  else
    let count := if wc < 0x80 then 1 else if wc < 0x800 then 2 else if wc < 0x10000 then 3 else 4
    if room < count then (myCsToosmallN count, [])
    else (count, wcMbFallThrough count wc)

/-- `my_valid_mbcharlen_utf8mb3(s, e)` on the string `c :: rest`. -/
def myValidMbcharlenUtf8mb3 (c : UInt8) (rest : List UInt8) : Int :=
  if c < 0x80 then 1
  else if c < 0xc2 then myCsIlseq
  else if c < 0xe0 then
    match rest with
    | b1 :: _ => if isContinuationByte b1 then 2 else myCsIlseq
    | [] => myCsToosmallN 2
  else
    match rest with
    | b1 :: b2 :: _ => if isUtf8mb3Step2 c b1 b2 then 3 else myCsIlseq
    | _ => myCsToosmallN 3

/-- `my_charlen_utf8mb4(cs, s, e)`. -/
def myCharlenUtf8mb4 : List UInt8 → Int
  | [] => myCsToosmall
  | c :: rest =>
    if c < 0xf0 then myValidMbcharlenUtf8mb3 c rest
    else if c < 0xf5 then
      match rest with
      | b1 :: b2 :: b3 :: _ => if isUtf8mb4Step2 c b1 b2 b3 then 4 else myCsIlseq
      | _ => myCsToosmallN 4
    else myCsIlseq

/-! ## Specification -/

/-- The shortest UTF-8 form of `wc`: one byte below `0x80`, then two, three or four. -/
def utf8Encode (wc : Nat) : List UInt8 :=
  if wc < 0x80 then [UInt8.ofNat wc]
  else if wc < 0x800 then [UInt8.ofNat (0xC0 + wc / 64), UInt8.ofNat (0x80 + wc % 64)]
  else if wc < 0x10000 then
    [UInt8.ofNat (0xE0 + wc / 4096), UInt8.ofNat (0x80 + wc / 64 % 64),
      UInt8.ofNat (0x80 + wc % 64)]
  else
    [UInt8.ofNat (0xF0 + wc / 262144), UInt8.ofNat (0x80 + wc / 4096 % 64),
      UInt8.ofNat (0x80 + wc / 64 % 64), UInt8.ofNat (0x80 + wc % 64)]

/-- The length of the form a first byte starts, 0 for a byte that starts none. -/
def leadLength (c : UInt8) : Nat :=
  if c.toNat < 0x80 then 1
  else if c.toNat < 0xC2 then 0
  else if c.toNat < 0xE0 then 2
  else if c.toNat < 0xF0 then 3
  else if c.toNat < 0xF5 then 4
  else 0

/-- `c` is the first byte of a form of `n` bytes, `n` from 2 to 4. -/
def LeadNeeds (c : UInt8) (n : Nat) : Prop :=
  (0xC2 ≤ c.toNat ∧ c.toNat ≤ 0xDF ∧ n = 2) ∨ (0xE0 ≤ c.toNat ∧ c.toNat ≤ 0xEF ∧ n = 3) ∨
    (0xF0 ≤ c.toNat ∧ c.toNat ≤ 0xF4 ∧ n = 4)

theorem leadNeeds_iff (c : UInt8) (n : Nat) :
    LeadNeeds c n ↔ 2 ≤ leadLength c ∧ n = leadLength c := by
  unfold LeadNeeds leadLength
  split_ifs <;> omega

/-! ## Bytes as numbers -/

section Bytes

theorem toNat_ofNat_of_lt {n : Nat} (h : n < 256) : (UInt8.ofNat n).toNat = n := by
  rw [UInt8.toNat_ofNat']
  omega

theorem ofNat_eq_of_toNat {c : UInt8} {n : Nat} (h : n = c.toNat) : UInt8.ofNat n = c := by
  rw [h, UInt8.ofNat_toNat]

theorem isContinuationByte_iff (b : UInt8) :
    isContinuationByte b = true ↔ 0x80 ≤ b.toNat ∧ b.toNat < 0xC0 := by
  have hb := b.toNat_lt
  unfold isContinuationByte
  rw [decide_eq_true_iff, UInt8.lt_iff_toNat_lt, UInt8.toNat_xor]
  show b.toNat ^^^ 128 < 64 ↔ _
  rcases Nat.lt_or_ge b.toNat 128 with h | h
  · rw [xor_top_of_lt _ h]
    omega
  · rw [xor_top_of_ge hb h]
    omega

theorem isUtf8mb3Step2_iff (b0 b1 b2 : UInt8) :
    isUtf8mb3Step2 b0 b1 b2 = true ↔ (0x80 ≤ b1.toNat ∧ b1.toNat < 0xC0) ∧
      (0x80 ≤ b2.toNat ∧ b2.toNat < 0xC0) ∧ (0xE1 ≤ b0.toNat ∨ 0xA0 ≤ b1.toNat) := by
  simp only [isUtf8mb3Step2, Bool.and_eq_true, Bool.or_eq_true, isContinuationByte_iff,
    decide_eq_true_iff, UInt8.le_iff_toNat_le, UInt8.reduceToNat, and_assoc]

theorem isUtf8mb4Step2_iff (b0 b1 b2 b3 : UInt8) :
    isUtf8mb4Step2 b0 b1 b2 b3 = true ↔ (0x80 ≤ b1.toNat ∧ b1.toNat < 0xC0) ∧
      (0x80 ≤ b2.toNat ∧ b2.toNat < 0xC0) ∧ (0x80 ≤ b3.toNat ∧ b3.toNat < 0xC0) ∧
      (0xF1 ≤ b0.toNat ∨ 0x90 ≤ b1.toNat) ∧ (b0.toNat ≤ 0xF3 ∨ b1.toNat ≤ 0x8F) := by
  simp only [isUtf8mb4Step2, Bool.and_eq_true, Bool.or_eq_true, isContinuationByte_iff,
    decide_eq_true_iff, UInt8.le_iff_toNat_le, UInt8.reduceToNat, and_assoc]

/-- A continuation byte's low six bits, `b ^ 0x80`. -/
theorem toNat_xor_continuation {b : UInt8} (h : 0x80 ≤ b.toNat) :
    (b ^^^ 0x80).toNat = b.toNat - 0x80 := by
  rw [UInt8.toNat_xor]
  exact xor_top_of_ge b.toNat_lt h

theorem utf8mb2Code_eq {c b1 : UInt8} (hc : 0xC0 ≤ c.toNat ∧ c.toNat < 0xE0)
    (hb : 0x80 ≤ b1.toNat ∧ b1.toNat < 0xC0) :
    utf8mb2Code c b1 = (c.toNat - 0xC0) * 64 + (b1.toNat - 0x80) := by
  have hc0 : (c &&& 0x1f).toNat = c.toNat - 0xC0 := by
    rw [UInt8.toNat_and, show (0x1f : UInt8).toNat = 2 ^ 5 - 1 from rfl,
      Nat.and_two_pow_sub_one_eq_mod]
    omega
  rw [utf8mb2Code, hc0, toNat_xor_continuation hb.1, shiftLeft_or_of_lt (by omega)]
  norm_num

theorem utf8mb3Code_eq {c b1 b2 : UInt8} (hc : 0xE0 ≤ c.toNat ∧ c.toNat < 0xF0)
    (hb1 : 0x80 ≤ b1.toNat ∧ b1.toNat < 0xC0) (hb2 : 0x80 ≤ b2.toNat ∧ b2.toNat < 0xC0) :
    utf8mb3Code c b1 b2 =
      (c.toNat - 0xE0) * 4096 + (b1.toNat - 0x80) * 64 + (b2.toNat - 0x80) := by
  have hc0 : (c &&& 0x0f).toNat = c.toNat - 0xE0 := by
    rw [UInt8.toNat_and, show (0x0f : UInt8).toNat = 2 ^ 4 - 1 from rfl,
      Nat.and_two_pow_sub_one_eq_mod]
    omega
  rw [utf8mb3Code, hc0, toNat_xor_continuation hb1.1, toNat_xor_continuation hb2.1,
    shiftLeft_or_shiftLeft (n := 12) (m := 6) (k := 6) rfl (by omega),
    shiftLeft_or_of_lt (by omega)]
  ring

theorem utf8mb4Code_eq {c b1 b2 b3 : UInt8} (hc : 0xF0 ≤ c.toNat ∧ c.toNat < 0xF8)
    (hb1 : 0x80 ≤ b1.toNat ∧ b1.toNat < 0xC0) (hb2 : 0x80 ≤ b2.toNat ∧ b2.toNat < 0xC0)
    (hb3 : 0x80 ≤ b3.toNat ∧ b3.toNat < 0xC0) :
    utf8mb4Code c b1 b2 b3 = (c.toNat - 0xF0) * 262144 + (b1.toNat - 0x80) * 4096 +
      (b2.toNat - 0x80) * 64 + (b3.toNat - 0x80) := by
  have hc0 : (c &&& 0x07).toNat = c.toNat - 0xF0 := by
    rw [UInt8.toNat_and, show (0x07 : UInt8).toNat = 2 ^ 3 - 1 from rfl,
      Nat.and_two_pow_sub_one_eq_mod]
    omega
  rw [utf8mb4Code, hc0, toNat_xor_continuation hb1.1, toNat_xor_continuation hb2.1,
    toNat_xor_continuation hb3.1, shiftLeft_or_shiftLeft (n := 18) (m := 6) (k := 12) rfl (by omega),
    shiftLeft_or_shiftLeft (n := 12) (m := 6) (k := 6) rfl (by omega),
    shiftLeft_or_of_lt (by omega)]
  ring

end Bytes

/-! ## The decoder by its first byte -/

section Decoder

variable {c : UInt8} (rest : List UInt8) (wc : Nat)

theorem myMbWcUtf8mb4_lead1 (hc : c.toNat < 0x80) : myMbWcUtf8mb4 (c :: rest) wc = (1, c.toNat) := by
  simp only [myMbWcUtf8mb4, UInt8.lt_iff_toNat_lt, UInt8.reduceToNat]
  rw [if_pos hc]

theorem myMbWcUtf8mb4_gap (h1 : 0x80 ≤ c.toNat) (h2 : c.toNat < 0xC2) :
    myMbWcUtf8mb4 (c :: rest) wc = (myCsIlseq, wc) := by
  simp only [myMbWcUtf8mb4, UInt8.lt_iff_toNat_lt, UInt8.reduceToNat]
  rw [if_neg (by omega), if_pos h2]

theorem myMbWcUtf8mb4_high (h : 0xF5 ≤ c.toNat) : myMbWcUtf8mb4 (c :: rest) wc = (myCsIlseq, wc) := by
  simp only [myMbWcUtf8mb4, UInt8.lt_iff_toNat_lt, UInt8.reduceToNat]
  rw [if_neg (by omega), if_neg (by omega), if_neg (by omega), if_neg (by omega),
    if_neg (by omega)]

theorem myMbWcUtf8mb4_lead2 (h1 : 0xC2 ≤ c.toNat) (h2 : c.toNat < 0xE0) (b1 : UInt8) :
    myMbWcUtf8mb4 (c :: b1 :: rest) wc =
      if isContinuationByte b1 then (2, utf8mb2Code c b1) else (myCsIlseq, wc) := by
  simp only [myMbWcUtf8mb4, UInt8.lt_iff_toNat_lt, UInt8.reduceToNat]
  rw [if_neg (by omega), if_neg (by omega), if_pos h2]

theorem myMbWcUtf8mb4_lead2_short (h1 : 0xC2 ≤ c.toNat) (h2 : c.toNat < 0xE0) :
    myMbWcUtf8mb4 [c] wc = (myCsToosmallN 2, wc) := by
  simp only [myMbWcUtf8mb4, UInt8.lt_iff_toNat_lt, UInt8.reduceToNat]
  rw [if_neg (by omega), if_neg (by omega), if_pos h2]

theorem myMbWcUtf8mb4_lead3 (h1 : 0xE0 ≤ c.toNat) (h2 : c.toNat < 0xF0) (b1 b2 : UInt8) :
    myMbWcUtf8mb4 (c :: b1 :: b2 :: rest) wc =
      if isUtf8mb3Step2 c b1 b2 then (3, utf8mb3Code c b1 b2) else (myCsIlseq, wc) := by
  simp only [myMbWcUtf8mb4, UInt8.lt_iff_toNat_lt, UInt8.reduceToNat]
  rw [if_neg (by omega), if_neg (by omega), if_neg (by omega), if_pos h2]

theorem myMbWcUtf8mb4_lead3_short (h1 : 0xE0 ≤ c.toNat) (h2 : c.toNat < 0xF0)
    (h : rest.length < 2) : myMbWcUtf8mb4 (c :: rest) wc = (myCsToosmallN 3, wc) := by
  simp only [myMbWcUtf8mb4, UInt8.lt_iff_toNat_lt, UInt8.reduceToNat]
  rw [if_neg (by omega), if_neg (by omega), if_neg (by omega), if_pos h2]
  rcases rest with _ | ⟨b1, _ | ⟨b2, rest⟩⟩
  · rfl
  · rfl
  · exact absurd h (by simp)

theorem myMbWcUtf8mb4_lead4 (h1 : 0xF0 ≤ c.toNat) (h2 : c.toNat < 0xF5) (b1 b2 b3 : UInt8) :
    myMbWcUtf8mb4 (c :: b1 :: b2 :: b3 :: rest) wc =
      if isUtf8mb4Step2 c b1 b2 b3 then (4, utf8mb4Code c b1 b2 b3) else (myCsIlseq, wc) := by
  simp only [myMbWcUtf8mb4, UInt8.lt_iff_toNat_lt, UInt8.reduceToNat]
  rw [if_neg (by omega), if_neg (by omega), if_neg (by omega), if_neg (by omega), if_pos h2]

theorem myMbWcUtf8mb4_lead4_short (h1 : 0xF0 ≤ c.toNat) (h2 : c.toNat < 0xF5)
    (h : rest.length < 3) : myMbWcUtf8mb4 (c :: rest) wc = (myCsToosmallN 4, wc) := by
  simp only [myMbWcUtf8mb4, UInt8.lt_iff_toNat_lt, UInt8.reduceToNat]
  rw [if_neg (by omega), if_neg (by omega), if_neg (by omega), if_neg (by omega), if_pos h2]
  rcases rest with _ | ⟨b1, _ | ⟨b2, _ | ⟨b3, rest⟩⟩⟩
  · rfl
  · rfl
  · rfl
  · exact absurd h (by simp)

end Decoder

/-! ## The forms -/

section Forms

theorem utf8Encode_one {wc : Nat} (h : wc < 0x80) : utf8Encode wc = [UInt8.ofNat wc] := by
  rw [utf8Encode, if_pos h]

theorem utf8Encode_two {wc : Nat} (h1 : 0x80 ≤ wc) (h2 : wc < 0x800) :
    utf8Encode wc = [UInt8.ofNat (0xC0 + wc / 64), UInt8.ofNat (0x80 + wc % 64)] := by
  rw [utf8Encode, if_neg (by omega), if_pos h2]

theorem utf8Encode_three {wc : Nat} (h1 : 0x800 ≤ wc) (h2 : wc < 0x10000) :
    utf8Encode wc = [UInt8.ofNat (0xE0 + wc / 4096), UInt8.ofNat (0x80 + wc / 64 % 64),
      UInt8.ofNat (0x80 + wc % 64)] := by
  rw [utf8Encode, if_neg (by omega), if_neg (by omega), if_pos h2]

theorem utf8Encode_four {wc : Nat} (h1 : 0x10000 ≤ wc) :
    utf8Encode wc = [UInt8.ofNat (0xF0 + wc / 262144), UInt8.ofNat (0x80 + wc / 4096 % 64),
      UInt8.ofNat (0x80 + wc / 64 % 64), UInt8.ofNat (0x80 + wc % 64)] := by
  rw [utf8Encode, if_neg (by omega), if_neg (by omega), if_neg (by omega)]

theorem length_utf8Encode (wc : Nat) :
    (utf8Encode wc).length =
      if wc < 0x80 then 1 else if wc < 0x800 then 2 else if wc < 0x10000 then 3 else 4 := by
  unfold utf8Encode
  split_ifs <;> rfl

theorem utf8Encode_ne_nil (wc : Nat) : 0 < (utf8Encode wc).length := by
  rw [length_utf8Encode]
  split_ifs <;> omega

/-- The bytes of a two-byte sequence are the form of the code point it carries. -/
theorem utf8Encode_code2 {c b1 : UInt8} (hc : 0xC2 ≤ c.toNat ∧ c.toNat < 0xE0)
    (hb : 0x80 ≤ b1.toNat ∧ b1.toNat < 0xC0) :
    utf8Encode ((c.toNat - 0xC0) * 64 + (b1.toNat - 0x80)) = [c, b1] := by
  rw [utf8Encode_two (by omega) (by omega), ofNat_eq_of_toNat (c := c) (by omega),
    ofNat_eq_of_toNat (c := b1) (by omega)]

theorem utf8Encode_code3 {c b1 b2 : UInt8} (hc : 0xE0 ≤ c.toNat ∧ c.toNat < 0xF0)
    (hb1 : 0x80 ≤ b1.toNat ∧ b1.toNat < 0xC0) (hb2 : 0x80 ≤ b2.toNat ∧ b2.toNat < 0xC0)
    (hmin : 0xE1 ≤ c.toNat ∨ 0xA0 ≤ b1.toNat) :
    utf8Encode ((c.toNat - 0xE0) * 4096 + (b1.toNat - 0x80) * 64 + (b2.toNat - 0x80)) =
      [c, b1, b2] := by
  rw [utf8Encode_three (by omega) (by omega), ofNat_eq_of_toNat (c := c) (by omega),
    ofNat_eq_of_toNat (c := b1) (by omega), ofNat_eq_of_toNat (c := b2) (by omega)]

theorem utf8Encode_code4 {c b1 b2 b3 : UInt8} (hc : 0xF0 ≤ c.toNat ∧ c.toNat < 0xF5)
    (hb1 : 0x80 ≤ b1.toNat ∧ b1.toNat < 0xC0) (hb2 : 0x80 ≤ b2.toNat ∧ b2.toNat < 0xC0)
    (hb3 : 0x80 ≤ b3.toNat ∧ b3.toNat < 0xC0) (hmin : 0xF1 ≤ c.toNat ∨ 0x90 ≤ b1.toNat) :
    utf8Encode ((c.toNat - 0xF0) * 262144 + (b1.toNat - 0x80) * 4096 + (b2.toNat - 0x80) * 64 +
      (b3.toNat - 0x80)) = [c, b1, b2, b3] := by
  rw [utf8Encode_four (by omega), ofNat_eq_of_toNat (c := c) (by omega),
    ofNat_eq_of_toNat (c := b1) (by omega), ofNat_eq_of_toNat (c := b2) (by omega),
    ofNat_eq_of_toNat (c := b3) (by omega)]

end Forms

/-! ## Decoding -/

section Decoding

/-- The decoder reads every code point up to `0x10FFFF` back from its form, whatever follows. -/
theorem myMbWcUtf8mb4_utf8Encode {wc : Nat} (h : wc ≤ 0x10FFFF) (rest : List UInt8) (w0 : Nat) :
    myMbWcUtf8mb4 (utf8Encode wc ++ rest) w0 = (((utf8Encode wc).length : Int), wc) := by
  rcases Nat.lt_or_ge wc 0x80 with h1 | h1
  · have hc := toNat_ofNat_of_lt (show wc < 256 by omega)
    rw [utf8Encode_one h1]
    exact (myMbWcUtf8mb4_lead1 rest w0 (by omega)).trans (by rw [hc]; rfl)
  rcases Nat.lt_or_ge wc 0x800 with h2 | h2
  · have hc := toNat_ofNat_of_lt (show 0xC0 + wc / 64 < 256 by omega)
    have hb := toNat_ofNat_of_lt (show 0x80 + wc % 64 < 256 by omega)
    rw [utf8Encode_two h1 h2]
    generalize UInt8.ofNat (0xC0 + wc / 64) = c at hc ⊢
    generalize UInt8.ofNat (0x80 + wc % 64) = b1 at hb ⊢
    show myMbWcUtf8mb4 (c :: b1 :: rest) w0 = (2, wc)
    rw [myMbWcUtf8mb4_lead2 rest w0 (by omega) (by omega),
      if_pos ((isContinuationByte_iff b1).mpr (by omega)), utf8mb2Code_eq (by omega) (by omega)]
    exact Prod.ext rfl (by dsimp only; omega)
  rcases Nat.lt_or_ge wc 0x10000 with h3 | h3
  · have hc := toNat_ofNat_of_lt (show 0xE0 + wc / 4096 < 256 by omega)
    have hb1 := toNat_ofNat_of_lt (show 0x80 + wc / 64 % 64 < 256 by omega)
    have hb2 := toNat_ofNat_of_lt (show 0x80 + wc % 64 < 256 by omega)
    rw [utf8Encode_three h2 h3]
    generalize UInt8.ofNat (0xE0 + wc / 4096) = c at hc ⊢
    generalize UInt8.ofNat (0x80 + wc / 64 % 64) = b1 at hb1 ⊢
    generalize UInt8.ofNat (0x80 + wc % 64) = b2 at hb2 ⊢
    show myMbWcUtf8mb4 (c :: b1 :: b2 :: rest) w0 = (3, wc)
    -- below `0x1000` the second byte is `0xA0` or more: no overlong form
    rw [myMbWcUtf8mb4_lead3 rest w0 (by omega) (by omega),
      if_pos ((isUtf8mb3Step2_iff c b1 b2).mpr (by omega)),
      utf8mb3Code_eq (by omega) (by omega) (by omega)]
    exact Prod.ext rfl (by dsimp only; omega)
  · have hc := toNat_ofNat_of_lt (show 0xF0 + wc / 262144 < 256 by omega)
    have hb1 := toNat_ofNat_of_lt (show 0x80 + wc / 4096 % 64 < 256 by omega)
    have hb2 := toNat_ofNat_of_lt (show 0x80 + wc / 64 % 64 < 256 by omega)
    have hb3 := toNat_ofNat_of_lt (show 0x80 + wc % 64 < 256 by omega)
    rw [utf8Encode_four h3]
    generalize UInt8.ofNat (0xF0 + wc / 262144) = c at hc ⊢
    generalize UInt8.ofNat (0x80 + wc / 4096 % 64) = b1 at hb1 ⊢
    generalize UInt8.ofNat (0x80 + wc / 64 % 64) = b2 at hb2 ⊢
    generalize UInt8.ofNat (0x80 + wc % 64) = b3 at hb3 ⊢
    show myMbWcUtf8mb4 (c :: b1 :: b2 :: b3 :: rest) w0 = (4, wc)
    -- the second byte keeps the form from being overlong, and from passing `0x10FFFF`
    rw [myMbWcUtf8mb4_lead4 rest w0 (by omega) (by omega),
      if_pos ((isUtf8mb4Step2_iff c b1 b2 b3).mpr (by omega)),
      utf8mb4Code_eq (by omega) (by omega) (by omega) (by omega)]
    exact Prod.ext rfl (by dsimp only; omega)

/-- What the decoder reads with a positive result is the form of a code point up to
    `0x10FFFF`, as long as the result says. -/
theorem utf8Encode_of_myMbWcUtf8mb4_pos {s : List UInt8} {w0 : Nat}
    (h : 0 < (myMbWcUtf8mb4 s w0).1) :
    (myMbWcUtf8mb4 s w0).2 ≤ 0x10FFFF ∧ utf8Encode (myMbWcUtf8mb4 s w0).2 <+: s ∧
      (myMbWcUtf8mb4 s w0).1 = ((utf8Encode (myMbWcUtf8mb4 s w0).2).length : Int) := by
  cases s with
  | nil => exact absurd h (by simp [myMbWcUtf8mb4, myCsToosmall])
  | cons c rest =>
    have hc := c.toNat_lt
    rcases Nat.lt_or_ge c.toNat 0x80 with h1 | h1
    · rw [myMbWcUtf8mb4_lead1 rest w0 h1, utf8Encode_one h1, UInt8.ofNat_toNat]
      exact ⟨by omega, ⟨rest, rfl⟩, rfl⟩
    rcases Nat.lt_or_ge c.toNat 0xC2 with h2 | h2
    · rw [myMbWcUtf8mb4_gap rest w0 h1 h2] at h
      exact absurd h (by simp [myCsIlseq])
    rcases Nat.lt_or_ge c.toNat 0xE0 with h3 | h3
    · rcases rest with _ | ⟨b1, rest⟩
      · rw [myMbWcUtf8mb4_lead2_short w0 h2 h3] at h
        exact absurd h (by simp [myCsToosmallN])
      · rw [myMbWcUtf8mb4_lead2 rest w0 h2 h3] at h ⊢
        split_ifs at h ⊢ with hb
        · rw [isContinuationByte_iff] at hb
          rw [utf8mb2Code_eq (by omega) hb, utf8Encode_code2 ⟨h2, h3⟩ hb]
          exact ⟨by omega, ⟨rest, rfl⟩, rfl⟩
        · exact absurd h (by simp [myCsIlseq])
    rcases Nat.lt_or_ge c.toNat 0xF0 with h4 | h4
    · rcases rest with _ | ⟨b1, _ | ⟨b2, rest⟩⟩
      · rw [myMbWcUtf8mb4_lead3_short [] w0 h3 h4 (by simp)] at h
        exact absurd h (by simp [myCsToosmallN])
      · rw [myMbWcUtf8mb4_lead3_short [b1] w0 h3 h4 (by simp)] at h
        exact absurd h (by simp [myCsToosmallN])
      · rw [myMbWcUtf8mb4_lead3 rest w0 h3 h4] at h ⊢
        split_ifs at h ⊢ with hb
        · obtain ⟨hb1, hb2, hmin⟩ := (isUtf8mb3Step2_iff c b1 b2).mp hb
          rw [utf8mb3Code_eq ⟨h3, h4⟩ hb1 hb2, utf8Encode_code3 ⟨h3, h4⟩ hb1 hb2 hmin]
          exact ⟨by omega, ⟨rest, rfl⟩, rfl⟩
        · exact absurd h (by simp [myCsIlseq])
    rcases Nat.lt_or_ge c.toNat 0xF5 with h5 | h5
    · rcases rest with _ | ⟨b1, _ | ⟨b2, _ | ⟨b3, rest⟩⟩⟩
      · rw [myMbWcUtf8mb4_lead4_short [] w0 h4 h5 (by simp)] at h
        exact absurd h (by simp [myCsToosmallN])
      · rw [myMbWcUtf8mb4_lead4_short [b1] w0 h4 h5 (by simp)] at h
        exact absurd h (by simp [myCsToosmallN])
      · rw [myMbWcUtf8mb4_lead4_short [b1, b2] w0 h4 h5 (by simp)] at h
        exact absurd h (by simp [myCsToosmallN])
      · rw [myMbWcUtf8mb4_lead4 rest w0 h4 h5] at h ⊢
        split_ifs at h ⊢ with hb
        · obtain ⟨hb1, hb2, hb3, hmin, hmax⟩ := (isUtf8mb4Step2_iff c b1 b2 b3).mp hb
          rw [utf8mb4Code_eq ⟨h4, by omega⟩ hb1 hb2 hb3,
            utf8Encode_code4 ⟨h4, h5⟩ hb1 hb2 hb3 hmin]
          exact ⟨by omega, ⟨rest, rfl⟩, rfl⟩
        · exact absurd h (by simp [myCsIlseq])
    · rw [myMbWcUtf8mb4_high rest w0 h5] at h
      exact absurd h (by simp [myCsIlseq])

end Decoding

/-! ## Results other than a code point -/

section Errors

/-- A valid first byte without the bytes after it that its form needs: `MY_CS_TOOSMALLn`. -/
theorem myMbWcUtf8mb4_short {c : UInt8} {rest : List UInt8} (w0 : Nat) (h2 : 2 ≤ leadLength c)
    (hshort : rest.length + 1 < leadLength c) :
    myMbWcUtf8mb4 (c :: rest) w0 = (myCsToosmallN (leadLength c), w0) := by
  unfold leadLength at h2 hshort ⊢
  split_ifs at h2 hshort ⊢ with h1 h2' h3 h4 h5
  · omega
  · omega
  · match rest, hshort with
    | [], _ => exact myMbWcUtf8mb4_lead2_short w0 (by omega) h3
  · exact myMbWcUtf8mb4_lead3_short rest w0 (by omega) h4 (by omega)
  · exact myMbWcUtf8mb4_lead4_short rest w0 (by omega) h5 (by omega)
  · omega

/-- Otherwise the result is a length or `MY_CS_ILSEQ`, never negative. -/
theorem myMbWcUtf8mb4_nonneg {c : UInt8} {rest : List UInt8} (w0 : Nat)
    (h : ¬(2 ≤ leadLength c ∧ rest.length + 1 < leadLength c)) :
    0 ≤ (myMbWcUtf8mb4 (c :: rest) w0).1 := by
  unfold leadLength at h
  split_ifs at h with h1 h2 h3 h4 h5
  · rw [myMbWcUtf8mb4_lead1 rest w0 h1]
    omega
  · rw [myMbWcUtf8mb4_gap rest w0 (by omega) h2]
    simp [myCsIlseq]
  · rcases rest with _ | ⟨b1, rest⟩
    · simp at h
    · rw [myMbWcUtf8mb4_lead2 rest w0 (by omega) h3]
      split_ifs <;> simp [myCsIlseq]
  · rcases rest with _ | ⟨b1, _ | ⟨b2, rest⟩⟩
    · simp at h
    · simp at h
    · rw [myMbWcUtf8mb4_lead3 rest w0 (by omega) h4]
      split_ifs <;> simp [myCsIlseq]
  · rcases rest with _ | ⟨b1, _ | ⟨b2, _ | ⟨b3, rest⟩⟩⟩
    · simp at h
    · simp at h
    · simp at h
    · rw [myMbWcUtf8mb4_lead4 rest w0 (by omega) h5]
      split_ifs <;> simp [myCsIlseq]
  · rw [myMbWcUtf8mb4_high rest w0 (by omega)]
    simp [myCsIlseq]

/-- `MY_CS_TOOSMALLn` just when a valid first byte lacks the bytes its form needs. -/
theorem myMbWcUtf8mb4_toosmall_iff (c : UInt8) (rest : List UInt8) (w0 n : Nat) :
    (myMbWcUtf8mb4 (c :: rest) w0).1 = myCsToosmallN n ↔
      2 ≤ leadLength c ∧ rest.length + 1 < leadLength c ∧ n = leadLength c := by
  by_cases hs : 2 ≤ leadLength c ∧ rest.length + 1 < leadLength c
  · rw [myMbWcUtf8mb4_short w0 hs.1 hs.2]
    simp only [myCsToosmallN]
    omega
  · have := myMbWcUtf8mb4_nonneg w0 hs
    simp only [myCsToosmallN]
    omega

/-- `MY_CS_ILSEQ` just when the bytes start no form of a code point up to `0x10FFFF` and do not
    lack bytes after a valid first byte. -/
theorem myMbWcUtf8mb4_ilseq_iff (c : UInt8) (rest : List UInt8) (w0 : Nat) :
    (myMbWcUtf8mb4 (c :: rest) w0).1 = myCsIlseq ↔
      (¬∃ wc, wc ≤ 0x10FFFF ∧ utf8Encode wc <+: c :: rest) ∧
        ¬(2 ≤ leadLength c ∧ rest.length + 1 < leadLength c) := by
  constructor
  · intro h
    refine ⟨?_, fun hs => ?_⟩
    · rintro ⟨wc, hwc, t, ht⟩
      rw [← ht, myMbWcUtf8mb4_utf8Encode hwc] at h
      have := utf8Encode_ne_nil wc
      simp only [myCsIlseq] at h
      omega
    · rw [myMbWcUtf8mb4_short w0 hs.1 hs.2] at h
      simp only [myCsToosmallN, myCsIlseq] at h
      omega
  · rintro ⟨hno, hs⟩
    have h0 := myMbWcUtf8mb4_nonneg w0 hs
    -- a positive result would be a form
    by_contra hne
    have hpos : 0 < (myMbWcUtf8mb4 (c :: rest) w0).1 := by
      simp only [myCsIlseq] at hne
      omega
    obtain ⟨hle, hpre, -⟩ := utf8Encode_of_myMbWcUtf8mb4_pos hpos
    exact hno ⟨_, hle, hpre⟩

end Errors

/-! ## `my_charlen_utf8mb4` -/

theorem myCharlenUtf8mb4_eq (s : List UInt8) (w0 : Nat) :
    myCharlenUtf8mb4 s = (myMbWcUtf8mb4 s w0).1 := by
  match s with
  | [] => rfl
  | c :: rest =>
    have hc := c.toNat_lt
    unfold myCharlenUtf8mb4 myValidMbcharlenUtf8mb3
    simp only [UInt8.lt_iff_toNat_lt, UInt8.reduceToNat]
    -- the first byte sends both down the same branch
    rcases Nat.lt_or_ge c.toNat 0x80 with h1 | h1
    · rw [if_pos (by omega), if_pos h1, myMbWcUtf8mb4_lead1 rest w0 h1]
    rcases Nat.lt_or_ge c.toNat 0xC2 with h2 | h2
    · rw [if_pos (by omega), if_neg (by omega), if_pos h2, myMbWcUtf8mb4_gap rest w0 h1 h2]
    rcases Nat.lt_or_ge c.toNat 0xE0 with h3 | h3
    · rw [if_pos (by omega), if_neg (by omega), if_neg (by omega), if_pos h3]
      match rest with
      | [] => rw [myMbWcUtf8mb4_lead2_short w0 h2 h3]
      | b1 :: rest =>
        rw [myMbWcUtf8mb4_lead2 rest w0 h2 h3]
        dsimp only
        split_ifs <;> rfl
    rcases Nat.lt_or_ge c.toNat 0xF0 with h4 | h4
    · rw [if_pos h4, if_neg (by omega), if_neg (by omega), if_neg (by omega)]
      match rest with
      | [] => rw [myMbWcUtf8mb4_lead3_short [] w0 h3 h4 (by simp)]
      | [b1] => rw [myMbWcUtf8mb4_lead3_short [b1] w0 h3 h4 (by simp)]
      | b1 :: b2 :: rest =>
        rw [myMbWcUtf8mb4_lead3 rest w0 h3 h4]
        dsimp only
        split_ifs <;> rfl
    rcases Nat.lt_or_ge c.toNat 0xF5 with h5 | h5
    · rw [if_neg (by omega), if_pos h5]
      match rest with
      | [] => rw [myMbWcUtf8mb4_lead4_short [] w0 h4 h5 (by simp)]
      | [b1] => rw [myMbWcUtf8mb4_lead4_short [b1] w0 h4 h5 (by simp)]
      | [b1, b2] => rw [myMbWcUtf8mb4_lead4_short [b1, b2] w0 h4 h5 (by simp)]
      | b1 :: b2 :: b3 :: rest =>
        rw [myMbWcUtf8mb4_lead4 rest w0 h4 h5]
        dsimp only
        split_ifs <;> rfl
    · rw [if_neg (by omega), if_neg (by omega), myMbWcUtf8mb4_high rest w0 h5]

/-! ## Encoding -/

section Encoding

/-- A byte after the first: `0x80 | (wc & 0x3f)`. -/
theorem ofNat_continuation (x : Nat) :
    UInt8.ofNat (0x80 ||| (x &&& 0x3f)) = UInt8.ofNat (0x80 + x % 64) := by
  rw [show x &&& 0x3f = x % 64 from Nat.and_two_pow_sub_one_eq_mod x 6, Nat.or_comm,
    or_tag (T := 0x80) (j := 6) 2 rfl (show x % 64 < 2 ^ 6 by omega)]

/-- `wc >> 6` with the lead bits of the byte before or-ed in. -/
theorem shiftRight_or_mark {x j T : Nat} (t : Nat) (hT : T = 2 ^ j * t) (h : x / 64 < 2 ^ j) :
    x >>> 6 ||| T = T + x / 64 := by
  rw [show x >>> 6 = x / 64 from Nat.shiftRight_eq_div_pow x 6]
  exact or_tag t hT h

/-- The fall-through of the `switch` stores the form of every code point below `0x200000`. -/
theorem wcMbFallThrough_eq {wc : Nat} (h : wc < 0x200000) :
    wcMbFallThrough (utf8Encode wc).length wc = utf8Encode wc := by
  rcases Nat.lt_or_ge wc 0x80 with h1 | h1
  · rw [utf8Encode_one h1]
    rfl
  rcases Nat.lt_or_ge wc 0x800 with h2 | h2
  · rw [utf8Encode_two h1 h2]
    simp only [List.length_cons, List.length_nil, wcMbFallThrough, fallThroughMark,
      ofNat_continuation, shiftRight_or_mark (T := 0xc0) (j := 6) 3 rfl (by omega : wc / 64 < 2 ^ 6)]
    rfl
  rcases Nat.lt_or_ge wc 0x10000 with h3 | h3
  · rw [utf8Encode_three h2 h3]
    simp only [List.length_cons, List.length_nil, wcMbFallThrough, fallThroughMark,
      ofNat_continuation,
      shiftRight_or_mark (T := 0x800) (j := 11) 1 rfl (by omega : wc / 64 < 2 ^ 11),
      shiftRight_or_mark (T := 0xc0) (j := 6) 3 rfl (by omega : (0x800 + wc / 64) / 64 < 2 ^ 6)]
    rw [show 0xc0 + (0x800 + wc / 64) / 64 = 0xE0 + wc / 4096 by omega,
      show (0x800 + wc / 64) % 64 = wc / 64 % 64 by omega]
    rfl
  · rw [utf8Encode_four h3]
    simp only [List.length_cons, List.length_nil, wcMbFallThrough, fallThroughMark,
      ofNat_continuation,
      shiftRight_or_mark (T := 0x10000) (j := 16) 1 rfl (by omega : wc / 64 < 2 ^ 16),
      shiftRight_or_mark (T := 0x800) (j := 11) 1 rfl
        (by omega : (0x10000 + wc / 64) / 64 < 2 ^ 11),
      shiftRight_or_mark (T := 0xc0) (j := 6) 3 rfl
        (by omega : (0x800 + (0x10000 + wc / 64) / 64) / 64 < 2 ^ 6)]
    rw [show 0xc0 + (0x800 + (0x10000 + wc / 64) / 64) / 64 = 0xF0 + wc / 262144 by omega,
      show (0x800 + (0x10000 + wc / 64) / 64) % 64 = wc / 4096 % 64 by omega,
      show (0x10000 + wc / 64) % 64 = wc / 64 % 64 by omega]
    rfl

/-- With room for it, `my_wc_mb_utf8mb4` stores the form of every code point below `0x200000`
    and returns its length. -/
theorem myWcMbUtf8mb4_eq {wc room : Nat} (h : wc < 0x200000)
    (hroom : (utf8Encode wc).length ≤ room) :
    myWcMbUtf8mb4 wc room = (((utf8Encode wc).length : Int), utf8Encode wc) := by
  have hpos := utf8Encode_ne_nil wc
  unfold myWcMbUtf8mb4
  rw [if_neg (by omega), if_neg (by omega)]
  dsimp only
  -- `count` is the length of the form
  rw [← length_utf8Encode, if_neg (by omega), wcMbFallThrough_eq h]

end Encoding

/-! ## The codec -/

theorem utf8mb4_codec_bijection :
    (∀ wc room : Nat, wc ≤ 0x10FFFF → 4 ≤ room →
      1 ≤ (utf8Encode wc).length ∧ (utf8Encode wc).length ≤ 4 ∧
        myWcMbUtf8mb4 wc room = (((utf8Encode wc).length : Int), utf8Encode wc) ∧
        ∀ (rest : List UInt8) (w0 : Nat),
          myMbWcUtf8mb4 (utf8Encode wc ++ rest) w0 = (((utf8Encode wc).length : Int), wc)) ∧
    (∀ (s : List UInt8) (w0 : Nat),
      0 < (myMbWcUtf8mb4 s w0).1 ↔ ∃ wc, wc ≤ 0x10FFFF ∧ utf8Encode wc <+: s) ∧
    (∀ (s : List UInt8) (w0 : Nat), 0 < (myMbWcUtf8mb4 s w0).1 →
      (myMbWcUtf8mb4 s w0).2 ≤ 0x10FFFF ∧
        utf8Encode (myMbWcUtf8mb4 s w0).2 = s.take (myMbWcUtf8mb4 s w0).1.toNat) ∧
    (∀ w0 : Nat, (myMbWcUtf8mb4 [] w0).1 = myCsToosmall) ∧
    (∀ (c : UInt8) (rest : List UInt8) (w0 n : Nat),
      (myMbWcUtf8mb4 (c :: rest) w0).1 = myCsToosmallN n ↔
        LeadNeeds c n ∧ (c :: rest).length < n) ∧
    (∀ (c : UInt8) (rest : List UInt8) (w0 : Nat),
      (myMbWcUtf8mb4 (c :: rest) w0).1 = myCsIlseq ↔
        (¬∃ wc, wc ≤ 0x10FFFF ∧ utf8Encode wc <+: c :: rest) ∧
          ¬∃ n, LeadNeeds c n ∧ (c :: rest).length < n) ∧
    (∀ (s : List UInt8) (w0 : Nat), myCharlenUtf8mb4 s = (myMbWcUtf8mb4 s w0).1) := by
  refine ⟨fun wc room hwc hroom => ?_, fun s w0 => ⟨fun h => ?_, ?_⟩, fun s w0 h => ?_,
    fun _ => rfl, fun c rest w0 n => ?_, fun c rest w0 => ?_, myCharlenUtf8mb4_eq⟩
  · -- encoding, then decoding
    have hlen := length_utf8Encode wc
    have hpos := utf8Encode_ne_nil wc
    have hle : (utf8Encode wc).length ≤ 4 := by
      rw [hlen]
      split_ifs <;> omega
    exact ⟨hpos, hle, myWcMbUtf8mb4_eq (by omega) (by omega),
      fun rest w0 => myMbWcUtf8mb4_utf8Encode hwc rest w0⟩
  · obtain ⟨hle, hpre, -⟩ := utf8Encode_of_myMbWcUtf8mb4_pos h
    exact ⟨_, hle, hpre⟩
  · rintro ⟨wc, hwc, t, rfl⟩
    rw [myMbWcUtf8mb4_utf8Encode hwc]
    show (0 : Int) < (utf8Encode wc).length
    exact_mod_cast utf8Encode_ne_nil wc
  · obtain ⟨hle, hpre, hlen⟩ := utf8Encode_of_myMbWcUtf8mb4_pos h
    refine ⟨hle, ?_⟩
    rw [hlen, Int.toNat_natCast]
    exact (List.prefix_iff_eq_take.mp hpre)
  · rw [myMbWcUtf8mb4_toosmall_iff, leadNeeds_iff, List.length_cons]
    omega
  · rw [myMbWcUtf8mb4_ilseq_iff]
    constructor
    · rintro ⟨hno, hs⟩
      refine ⟨hno, fun ⟨n, hn, hlt⟩ => hs ?_⟩
      rw [leadNeeds_iff] at hn
      rw [List.length_cons] at hlt
      omega
    · rintro ⟨hno, hs⟩
      refine ⟨hno, fun h => hs ⟨leadLength c, (leadNeeds_iff c _).mpr ⟨h.1, rfl⟩, ?_⟩⟩
      rw [List.length_cons]
      exact h.2

/-- U+1F600 is the four bytes `F0 9F 98 80`, read back; a lone `E0` asks for three bytes. -/
theorem utf8mb4_codec_bijection_emoji :
    (0x1F600 ≤ 0x10FFFF ∧ 4 ≤ 4) ∧ myWcMbUtf8mb4 0x1F600 4 = (4, [0xF0, 0x9F, 0x98, 0x80]) ∧
      myMbWcUtf8mb4 ([0xF0, 0x9F, 0x98, 0x80] ++ []) 0 = (4, 0x1F600) ∧
      (0 < (myMbWcUtf8mb4 [0xF0, 0x9F, 0x98, 0x80] 0).1 ∧
        utf8Encode (myMbWcUtf8mb4 [0xF0, 0x9F, 0x98, 0x80] 0).2 =
          [0xF0, 0x9F, 0x98, 0x80].take (myMbWcUtf8mb4 [0xF0, 0x9F, 0x98, 0x80] 0).1.toNat) ∧
      (myMbWcUtf8mb4 [0xE0] 0).1 = myCsToosmallN 3 :=
  have h := utf8mb4_codec_bijection
  have henc := h.1 0x1F600 4 (by decide) le_rfl
  have hpos : 0 < (myMbWcUtf8mb4 [0xF0, 0x9F, 0x98, 0x80] 0).1 := by decide
  ⟨⟨by decide, le_rfl⟩, henc.2.2.1.trans (by decide), (henc.2.2.2 [] 0).trans (by decide),
    ⟨hpos, (h.2.2.1 _ 0 hpos).2⟩,
    (h.2.2.2.2.1 0xE0 [] 0 3).mpr ⟨Or.inr (Or.inl ⟨by decide, by decide, rfl⟩), by decide⟩⟩

end MariaDB.Ctype
