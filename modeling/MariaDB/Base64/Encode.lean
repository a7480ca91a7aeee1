import MariaDB.Lib.CArith
import Mathlib.Data.List.GetD

/-
  The base64 encoder of `mysys/base64.c`: its alphabet, the output length it promises, and
  its loop.

  Model. Bytes and characters are `UInt8`. The encoder's `unsigned` accumulator `c` holds at
  most 24 bits, so it is a `Nat`. The encoder returns the bytes it writes, the terminating NUL
  included. `my_base64_needed_encoded_length` computes in `int`, here `Int` with C's
  truncating division, and `neededEncodedLengthSteps` lists the value of each of its
  operations, so that the claim that none leaves `int` can be stated.

  Proved:
  * `base64EncodeGroup_eq`: a group's four characters are the four 6-bit digits of its 24-bit
    value `groupValue`, with `=` in place of the digits of missing bytes;
  * `length_myBase64EncodeLoop`, `length_myBase64Encode`: the encoder writes four characters
    per group of three bytes, a line break before every twentieth group, and the NUL, which is
    what `my_base64_needed_encoded_length` says;
  * `neededEncodedLengthSteps_fit`: up to `my_base64_encode_max_arg_length` no operation of
    `my_base64_needed_encoded_length` leaves `int`.
-/

namespace MariaDB.Base64

open MariaDB.Lib

/-! ## Model -/

/-- `base64_table`. -/
def base64Table : List UInt8 :=
  "ABCDEFGHIJKLMNOPQRSTUVWXYZabcdefghijklmnopqrstuvwxyz0123456789+/".toList.map
    (fun ch => UInt8.ofNat ch.toNat)

/-- `base64_table[v]`. -/
def tableChar (v : Nat) : UInt8 := base64Table.getD v 0

/-- `my_base64_encode_max_arg_length`. -/
def myBase64EncodeMaxArgLength : Int := 0x5EC0D4C6

/-- `my_base64_needed_encoded_length`. -/
def myBase64NeededEncodedLength (lengthOfData : Int) : Int :=
  let nbBase64Chars := (lengthOfData + 2).tdiv 3 * 4
  nbBase64Chars + (nbBase64Chars - 1).tdiv 76 + 1

/-- The value of every operation of `my_base64_needed_encoded_length`, in the order C
evaluates them. -/
def neededEncodedLengthSteps (lengthOfData : Int) : List Int :=
  let nbBase64Chars := (lengthOfData + 2).tdiv 3 * 4
  [lengthOfData + 2, (lengthOfData + 2).tdiv 3, nbBase64Chars, nbBase64Chars - 1,
    (nbBase64Chars - 1).tdiv 76, nbBase64Chars + (nbBase64Chars - 1).tdiv 76,
    nbBase64Chars + (nbBase64Chars - 1).tdiv 76 + 1]

/-- One pass of the loop of `my_base64_encode` after the line break: the group of up to
three bytes at `i` as four characters, `=` for those of missing bytes. -/
def base64EncodeGroup (s : List UInt8) (i : Nat) : List UInt8 :=
  let c := (s.getD i 0).toNat
  let i := i + 1
  let c := c <<< 8
  let c := if i < s.length then c + (s.getD i 0).toNat else c
  let c := c <<< 8
  let i := i + 1
  let c := if i < s.length then c + (s.getD i 0).toNat else c
  let i := i + 1
  [tableChar ((c >>> 18) &&& 0x3f), tableChar ((c >>> 12) &&& 0x3f),
    if i > s.length + 1 then '='.toUInt8 else tableChar ((c >>> 6) &&& 0x3f),
    if i > s.length then '='.toUInt8 else tableChar (c &&& 0x3f)]

/-- The loop of `my_base64_encode` from input position `i`, with `len` characters on the
current line. -/
def myBase64EncodeLoop (s : List UInt8) (i len : Nat) : List UInt8 :=
  if i < s.length then
    (if len = 76 then ['\n'.toUInt8] else []) ++ base64EncodeGroup s i ++
      myBase64EncodeLoop s (i + 3) ((if len = 76 then 0 else len) + 4)
  else []
termination_by s.length - i

/-- `my_base64_encode`: what it writes at `dst`. -/
def myBase64Encode (src : List UInt8) : List UInt8 := myBase64EncodeLoop src 0 0 ++ [0]

/-! ## The groups -/

/-- The 24-bit value of the group at `i`, missing bytes zero. -/
def groupValue (s : List UInt8) (i : Nat) : Nat :=
  (s.getD i 0).toNat * 2 ^ 16 + (s.getD (i + 1) 0).toNat * 2 ^ 8 + (s.getD (i + 2) 0).toNat

theorem groupValue_lt (s : List UInt8) (i : Nat) : groupValue s i < 2 ^ 24 := by
  have h0 := (s.getD i 0).toNat_lt
  have h1 := (s.getD (i + 1) 0).toNat_lt
  have h2 := (s.getD (i + 2) 0).toNat_lt
  unfold groupValue
  omega

/-- A byte missing from the input reads as zero, as the encoder's skipped `+=` leaves it. -/
theorem getD_add_of_length_le {s : List UInt8} {i : Nat} (h : ¬i < s.length) (c : Nat) :
    c + (s.getD i 0).toNat = c := by
  rw [List.getD_eq_default _ _ (by omega)]
  rfl

theorem base64EncodeGroup_eq (s : List UInt8) (i : Nat) :
    base64EncodeGroup s i =
      [tableChar (groupValue s i / 2 ^ 18 % 64), tableChar (groupValue s i / 2 ^ 12 % 64),
        if s.length ≤ i + 1 then '='.toUInt8 else tableChar (groupValue s i / 2 ^ 6 % 64),
        if s.length ≤ i + 2 then '='.toUInt8 else tableChar (groupValue s i % 64)] := by
  -- the skipped additions add the zero that `getD` reads past the end
  have hc : (if i + 1 + 1 < s.length then
        ((if i + 1 < s.length then (s.getD i 0).toNat <<< 8 + (s.getD (i + 1) 0).toNat
          else (s.getD i 0).toNat <<< 8) <<< 8) + (s.getD (i + 1 + 1) 0).toNat
      else (if i + 1 < s.length then (s.getD i 0).toNat <<< 8 + (s.getD (i + 1) 0).toNat
          else (s.getD i 0).toNat <<< 8) <<< 8) = groupValue s i := by
    have e1 : (if i + 1 < s.length then (s.getD i 0).toNat <<< 8 + (s.getD (i + 1) 0).toNat
        else (s.getD i 0).toNat <<< 8) = (s.getD i 0).toNat <<< 8 + (s.getD (i + 1) 0).toNat := by
      split_ifs with h
      · rfl
      · rw [getD_add_of_length_le h]
    rw [e1]
    have e2 : (if i + 1 + 1 < s.length then
          ((s.getD i 0).toNat <<< 8 + (s.getD (i + 1) 0).toNat) <<< 8 + (s.getD (i + 1 + 1) 0).toNat
        else ((s.getD i 0).toNat <<< 8 + (s.getD (i + 1) 0).toNat) <<< 8) =
        ((s.getD i 0).toNat <<< 8 + (s.getD (i + 1) 0).toNat) <<< 8 + (s.getD (i + 2) 0).toNat := by
      split_ifs with h
      · rfl
      · rw [getD_add_of_length_le h]
    rw [e2, groupValue, Nat.shiftLeft_eq, Nat.shiftLeft_eq]
    ring
  unfold base64EncodeGroup
  dsimp only
  rw [hc]
  simp only [Nat.shiftRight_eq_div_pow, show (0x3f : Nat) = 2 ^ 6 - 1 from rfl,
    Nat.and_two_pow_sub_one_eq_mod, List.cons.injEq, and_true, true_and]
  constructor
  · split_ifs <;> first | rfl | omega
  · split_ifs <;> first | rfl | omega

@[simp] theorem length_base64EncodeGroup (s : List UInt8) (i : Nat) :
    (base64EncodeGroup s i).length = 4 := by
  rw [base64EncodeGroup_eq]
  rfl

/-! ## The loop -/

theorem myBase64EncodeLoop_of_lt {s : List UInt8} {i : Nat} (len : Nat) (h : i < s.length) :
    myBase64EncodeLoop s i len = (if len = 76 then ['\n'.toUInt8] else []) ++
      base64EncodeGroup s i ++ myBase64EncodeLoop s (i + 3) ((if len = 76 then 0 else len) + 4) := by
  rw [myBase64EncodeLoop, if_pos h]

theorem myBase64EncodeLoop_of_le {s : List UInt8} {i : Nat} (len : Nat) (h : s.length ≤ i) :
    myBase64EncodeLoop s i len = [] := by
  rw [myBase64EncodeLoop, if_neg (by omega)]

/-- From position `i`, with `len = 4 m` characters on the line, the loop writes four
characters for each of the `k = ⌈(n - i) / 3⌉` groups left, and a line break before each group
that finds a full line: `(m + k - 1) / 19` of them. -/
theorem length_myBase64EncodeLoop (s : List UInt8) (i len m : Nat) (hlen : len = 4 * m)
    (hm : m ≤ 19) :
    (myBase64EncodeLoop s i len).length =
      4 * ((s.length - i + 2) / 3) + (m + (s.length - i + 2) / 3 - 1) / 19 := by
  induction i, len using myBase64EncodeLoop.induct s generalizing m with
  | case1 i len h ih =>
    -- one group, after a line break when the line is full
    have hk : (s.length - (i + 3) + 2) / 3 + 1 = (s.length - i + 2) / 3 := by omega
    rw [myBase64EncodeLoop_of_lt len h, List.length_append, List.length_append,
      length_base64EncodeGroup]
    by_cases h76 : len = 76
    · rw [dif_pos h76] at ih
      rw [if_pos h76, if_pos h76, ih 1 (by omega) (by omega), List.length_singleton]
      omega
    · rw [dif_neg h76] at ih
      rw [if_neg h76, if_neg h76, ih (m + 1) (by omega) (by omega), List.length_nil]
      omega
  | case2 i len h =>
    rw [myBase64EncodeLoop_of_le len (by omega), List.length_nil]
    omega

/-- `my_base64_encode` writes as many bytes as `my_base64_needed_encoded_length` asks for. -/
theorem length_myBase64Encode (src : List UInt8) :
    ((myBase64Encode src).length : Int) = myBase64NeededEncodedLength src.length := by
  rw [myBase64Encode, List.length_append, length_myBase64EncodeLoop src 0 0 0 rfl (by norm_num),
    List.length_singleton]
  unfold myBase64NeededEncodedLength
  dsimp only
  rw [Int.tdiv_eq_ediv_of_nonneg (by omega)]
  rcases Nat.eq_zero_or_pos src.length with h | h
  · -- nothing to encode: the NUL alone
    rw [h]
    decide
  · rw [Int.tdiv_eq_ediv_of_nonneg (by omega)]
    push_cast
    omega

/-- Up to `my_base64_encode_max_arg_length` no operation of `my_base64_needed_encoded_length`
leaves `int`. -/
theorem neededEncodedLengthSteps_fit {n : Int} (h0 : 0 ≤ n) (h : n ≤ myBase64EncodeMaxArgLength) :
    ∀ x ∈ neededEncodedLengthSteps n, FitsSigned 32 x := by
  rcases eq_or_lt_of_le h0 with rfl | hpos
  · decide
  · have h1 : 0 ≤ (n + 2).tdiv 3 * 4 - 1 := by
      rw [Int.tdiv_eq_ediv_of_nonneg (by omega)]
      omega
    unfold neededEncodedLengthSteps
    dsimp only
    rw [Int.tdiv_eq_ediv_of_nonneg h1, Int.tdiv_eq_ediv_of_nonneg (by omega)]
    unfold myBase64EncodeMaxArgLength at h
    simp only [List.mem_cons, List.not_mem_nil, or_false]
    rintro x (rfl | rfl | rfl | rfl | rfl | rfl | rfl) <;>
      exact ⟨by norm_num; omega, by norm_num; omega⟩

end MariaDB.Base64
