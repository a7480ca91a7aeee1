import MariaDB.Base64.Encode

/-
  The base64 decoder of `mysys/base64.c`: the stream `MY_BASE64_DECODER` and its four
  functions, and `my_base64_decode`.

  Model. The decoder's pointers `src` and `end` are positions in the input list, `end` its
  length. The `uint` accumulator reduces modulo `2^32`; `error`, a flag the code sets to 0
  and 1 only, is a `Bool`; `state` and `mark` are `Nat`. The loop of `my_base64_decode` takes
  fuel: every pass that goes on reads at least four characters, so the input's length plus one
  passes are more than it can make. `my_base64_decode` returns its result, the bytes it wrote
  and the final `*end_ptr`.

  Proved:
  * `skipSpaces_of_valid`, `skipSpaces_space`, `skipSpaces_end`: the space skipper stops on a
    character of the alphabet, steps over a space, and at the end of input reports it;
  * `getch_valid`, `getch_pad`, `getch_end`: a character of the alphabet adds its six bits, a
    `=` in the third or fourth place adds six zero bits and counts a mark, and an empty rest
    ends the input without an error.
-/

namespace MariaDB.Base64

open MariaDB.Lib

/-! ## Model -/

/-- `from_base64_table`: `-2` for a space, `-1` for a character outside the alphabet. -/
def fromBase64Table : List Int :=
  [ -1,-1,-1,-1,-1,-1,-1,-1,-1,-2,-2,-2,-2,-2,-1,-1,
    -1,-1,-1,-1,-1,-1,-1,-1,-1,-1,-1,-1,-1,-1,-1,-1,
    -2,-1,-1,-1,-1,-1,-1,-1,-1,-1,-1,62,-1,-1,-1,63,
    52,53,54,55,56,57,58,59,60,61,-1,-1,-1,-1,-1,-1,
    -1, 0, 1, 2, 3, 4, 5, 6, 7, 8, 9,10,11,12,13,14,
    15,16,17,18,19,20,21,22,23,24,25,-1,-1,-1,-1,-1,
    -1,26,27,28,29,30,31,32,33,34,35,36,37,38,39,40,
    41,42,43,44,45,46,47,48,49,50,51,-1,-1,-1,-1,-1,
    -1,-1,-1,-1,-1,-1,-1,-1,-1,-1,-1,-1,-1,-1,-1,-1,
    -1,-1,-1,-1,-1,-1,-1,-1,-1,-1,-1,-1,-1,-1,-1,-1,
    -2,-1,-1,-1,-1,-1,-1,-1,-1,-1,-1,-1,-1,-1,-1,-1,
    -1,-1,-1,-1,-1,-1,-1,-1,-1,-1,-1,-1,-1,-1,-1,-1,
    -1,-1,-1,-1,-1,-1,-1,-1,-1,-1,-1,-1,-1,-1,-1,-1,
    -1,-1,-1,-1,-1,-1,-1,-1,-1,-1,-1,-1,-1,-1,-1,-1,
    -1,-1,-1,-1,-1,-1,-1,-1,-1,-1,-1,-1,-1,-1,-1,-1,
    -1,-1,-1,-1,-1,-1,-1,-1,-1,-1,-1,-1,-1,-1,-1,-1 ]

/-- `from_base64_table[(uchar) ch]`. -/
def fromTable (ch : UInt8) : Int := fromBase64Table.getD ch.toNat (-1)

/-- `MY_BASE64_DECODER`, with `src` a position in the input. -/
structure Base64Decoder where
  src : Nat
  c : Nat
  error : Bool
  state : Nat
  mark : Nat
  deriving Repr, DecidableEq

/-- `my_base64_decoder_skip_spaces`: true at the end of input. -/
def skipSpaces (input : List UInt8) (d : Base64Decoder) : Base64Decoder × Bool :=
  if h : d.src < input.length then
    if fromTable input[d.src] ≠ -2 then (d, false)
    else skipSpaces input { d with src := d.src + 1 }
  else ({ d with error := if d.state > 0 then true else d.error }, true)
termination_by input.length - d.src

/-- `my_base64_add`: true on a character outside the alphabet. -/
def base64Add (input : List UInt8) (d : Base64Decoder) : Base64Decoder × Bool :=
  let c := d.c <<< 6 % 2 ^ 32
  let res := fromTable (input.getD d.src 0)
  let d := { d with c := c, src := d.src + 1 }
  if res < 0 then ({ d with error := true }, true)
  else ({ d with c := (c + res.toNat) % 2 ^ 32 }, false)

/-- `my_base64_decoder_getch`: true on an error or at the end of input. -/
def getch (input : List UInt8) (d : Base64Decoder) : Base64Decoder × Bool :=
  let (d, eoi) := skipSpaces input d
  if eoi then (d, true)
  else
    let (d, bad) := base64Add input d
    if !bad then
      -- after a `=` only `=` may follow
      if d.mark ≠ 0 then ({ d with error := true, src := d.src - 1 }, true)
      else ({ d with state := d.state + 1 }, false)
    else
      match d.state with
      | 0 | 1 => ({ d with src := d.src - 1 }, true)
      | 2 | 3 =>
        if input.getD (d.src - 1) 0 = '='.toUInt8 then
          ({ d with error := false, mark := d.mark + 1, state := d.state + 1 }, false)
        else ({ d with src := d.src - 1 }, true)
      | _ => (d, true)

/-- `MY_BASE64_DECODE_ALLOW_MULTIPLE_CHUNKS`. -/
def myBase64DecodeAllowMultipleChunks : Nat := 1

/-- The loop of `my_base64_decode`: a group of four characters a pass, three bytes out, fewer
after padding. -/
def decodeLoop (input : List UInt8) (flags : Nat) :
    Nat → Base64Decoder → List UInt8 → Base64Decoder × List UInt8
  | 0, d, out => (d, out)
  | fuel + 1, d, out =>
    let d := { d with c := 0, state := 0 }
    let (d, e) := getch input d
    if e then (d, out) else
    let (d, e) := getch input d
    if e then (d, out) else
    let (d, e) := getch input d
    if e then (d, out) else
    let (d, e) := getch input d
    if e then (d, out) else
    let out := out ++ [UInt8.ofNat ((d.c >>> 16) &&& 0xff), UInt8.ofNat ((d.c >>> 8) &&& 0xff),
      UInt8.ofNat (d.c &&& 0xff)]
    if d.mark ≠ 0 then
      let out := out.take (out.length - d.mark)
      if flags &&& myBase64DecodeAllowMultipleChunks = 0 then (d, out)
      else decodeLoop input flags fuel { d with mark := 0 } out
    else decodeLoop input flags fuel d out

/-- The result of `my_base64_decode`: the number it returns, the bytes it wrote at `dst`, and
where `*end_ptr` points. -/
structure Base64DecodeResult where
  ret : Int
  dst : List UInt8
  endPtr : Nat
  deriving Repr, DecidableEq

/-- `my_base64_decode` of the whole of `input`. -/
def myBase64Decode (input : List UInt8) (flags : Nat) : Base64DecodeResult :=
  let d : Base64Decoder := { src := 0, c := 0, error := false, state := 0, mark := 0 }
  let (d, out) := decodeLoop input flags (input.length + 1) d []
  -- more non-space characters are an error
  let d := { d with state := 0 }
  let (d, eoi) := skipSpaces input d
  let d := if !eoi then { d with error := true } else d
  { ret := if d.error then -1 else out.length, dst := out, endPtr := d.src }

/-! ## The alphabet read back -/

/-- Every character of `base64_table` reads back as its position: checked over the table. -/
theorem fromTable_tableChar_all :
    (List.range 64).all (fun v => fromTable (tableChar v) == (v : Int)) = true := by
  decide

theorem fromTable_tableChar {v : Nat} (hv : v < 64) : fromTable (tableChar v) = v := by
  have h := List.all_eq_true.mp fromTable_tableChar_all v (List.mem_range.mpr hv)
  simpa using h

theorem fromTable_newline : fromTable '\n'.toUInt8 = -2 := by decide

theorem fromTable_pad : fromTable '='.toUInt8 = -1 := by decide

/-! ## The stream -/

theorem skipSpaces_of_ne {input : List UInt8} {d : Base64Decoder} {x : UInt8}
    (hx : input[d.src]? = some x) (hv : fromTable x ≠ -2) : skipSpaces input d = (d, false) := by
  obtain ⟨hlt, hget⟩ := List.getElem?_eq_some_iff.mp hx
  rw [skipSpaces, dif_pos hlt, hget, if_pos hv]

theorem skipSpaces_space {input : List UInt8} {d : Base64Decoder} {x : UInt8}
    (hx : input[d.src]? = some x) (hs : fromTable x = -2) :
    skipSpaces input d = skipSpaces input { d with src := d.src + 1 } := by
  obtain ⟨hlt, hget⟩ := List.getElem?_eq_some_iff.mp hx
  rw [skipSpaces, dif_pos hlt, hget, if_neg (by omega)]

theorem skipSpaces_end {input : List UInt8} {d : Base64Decoder} (h : input.length ≤ d.src) :
    skipSpaces input d = ({ d with error := if d.state > 0 then true else d.error }, true) := by
  rw [skipSpaces, dif_neg (by omega)]

theorem base64Add_of_nonneg {input : List UInt8} {d : Base64Decoder} {x : UInt8} {v : Int}
    (hx : input[d.src]? = some x) (hv : fromTable x = v) (hv0 : 0 ≤ v) :
    base64Add input d =
      ({ d with c := (d.c <<< 6 % 2 ^ 32 + v.toNat) % 2 ^ 32, src := d.src + 1 }, false) := by
  have hget : input.getD d.src 0 = x := by rw [List.getD_eq_getElem?_getD, hx, Option.getD_some]
  rw [base64Add]
  dsimp only
  rw [hget, hv, if_neg (not_lt.mpr hv0)]

theorem base64Add_of_neg {input : List UInt8} {d : Base64Decoder} {x : UInt8}
    (hx : input[d.src]? = some x) (hv : fromTable x < 0) :
    base64Add input d =
      ({ d with c := d.c <<< 6 % 2 ^ 32, src := d.src + 1, error := true }, true) := by
  have hget : input.getD d.src 0 = x := by rw [List.getD_eq_getElem?_getD, hx, Option.getD_some]
  rw [base64Add]
  dsimp only
  rw [hget, if_pos hv]

/-- A character of the alphabet adds its six bits. -/
theorem getch_valid {input : List UInt8} {d : Base64Decoder} {x : UInt8} {v : Int}
    (hx : input[d.src]? = some x) (hv : fromTable x = v) (hv0 : 0 ≤ v) (hm : d.mark = 0) :
    getch input d =
      ({ d with
          src := d.src + 1
          c := (d.c <<< 6 % 2 ^ 32 + v.toNat) % 2 ^ 32
          state := d.state + 1 }, false) := by
  unfold getch
  rw [skipSpaces_of_ne hx (by omega)]
  dsimp only
  rw [base64Add_of_nonneg hx hv hv0]
  simp only [Bool.false_eq_true, if_false, Bool.not_false, if_true, hm, ne_eq, not_true_eq_false]

/-- A `=` in the third or fourth place adds six zero bits and counts a mark. -/
theorem getch_pad {input : List UInt8} {d : Base64Decoder} (hx : input[d.src]? = some '='.toUInt8)
    (hs : d.state = 2 ∨ d.state = 3) :
    getch input d =
      ({ d with
          src := d.src + 1
          c := d.c <<< 6 % 2 ^ 32
          error := false
          mark := d.mark + 1
          state := d.state + 1 }, false) := by
  have hget : input.getD d.src 0 = '='.toUInt8 := by
    rw [List.getD_eq_getElem?_getD, hx, Option.getD_some]
  unfold getch
  rw [skipSpaces_of_ne hx (by rw [fromTable_pad]; decide)]
  dsimp only
  rw [base64Add_of_neg hx (by rw [fromTable_pad]; decide)]
  simp only [Bool.false_eq_true, if_false, Bool.not_true, Nat.add_sub_cancel, hget]
  rcases hs with hs | hs <;> simp [hs]

/-- A space before the next character is skipped. -/
theorem getch_space {input : List UInt8} {d : Base64Decoder} {x : UInt8}
    (hx : input[d.src]? = some x) (hs : fromTable x = -2) :
    getch input d = getch input { d with src := d.src + 1 } := by
  unfold getch
  rw [skipSpaces_space hx hs]

/-- At the end of input between groups the stream ends without an error. -/
theorem getch_end {input : List UInt8} {d : Base64Decoder} (h : input.length ≤ d.src)
    (hs : d.state = 0) : getch input d = (d, true) := by
  unfold getch
  rw [skipSpaces_end h]
  simp only [hs, gt_iff_lt, lt_self_iff_false, if_false, if_true]
  rw [← hs]

/-! ## The loop -/

/-- A pass whose four characters are read: three bytes out, less the marks. -/
theorem decodeLoop_succ_of_getch {input : List UInt8} {flags fuel : Nat}
    {d d1 d2 d3 d4 : Base64Decoder} {out : List UInt8}
    (h1 : getch input { d with c := 0, state := 0 } = (d1, false))
    (h2 : getch input d1 = (d2, false)) (h3 : getch input d2 = (d3, false))
    (h4 : getch input d3 = (d4, false)) :
    decodeLoop input flags (fuel + 1) d out =
      let out := out ++ [UInt8.ofNat ((d4.c >>> 16) &&& 0xff), UInt8.ofNat ((d4.c >>> 8) &&& 0xff),
        UInt8.ofNat (d4.c &&& 0xff)]
      if d4.mark ≠ 0 then
        if flags &&& myBase64DecodeAllowMultipleChunks = 0 then
          (d4, out.take (out.length - d4.mark))
        else decodeLoop input flags fuel { d4 with mark := 0 } (out.take (out.length - d4.mark))
      else decodeLoop input flags fuel d4 out := by
  rw [decodeLoop]
  simp only [h1, h2, h3, h4, Bool.false_eq_true, if_false]

/-- A pass that finds the end of input stops the loop. -/
theorem decodeLoop_succ_of_end {input : List UInt8} {flags fuel : Nat} {d d1 : Base64Decoder}
    {out : List UInt8} (h1 : getch input { d with c := 0, state := 0 } = (d1, true)) :
    decodeLoop input flags (fuel + 1) d out = (d1, out) := by
  rw [decodeLoop]
  simp only [h1, if_true]

/-- A space before a group is skipped. -/
theorem decodeLoop_space {input : List UInt8} {flags fuel : Nat} {d : Base64Decoder}
    {out : List UInt8} {x : UInt8} (hx : input[d.src]? = some x) (hs : fromTable x = -2) :
    decodeLoop input flags (fuel + 1) d out =
      decodeLoop input flags (fuel + 1) { d with src := d.src + 1 } out := by
  rw [decodeLoop, decodeLoop, getch_space (d := { d with c := 0, state := 0 }) hx hs]

end MariaDB.Base64
