import MariaDB.Decimal.Bin
import MariaDB.Lib.Buffer
import Mathlib.Data.Rat.Floor

/-
  `decimal_round` of strings/decimal.c, and the rounding rules it is for.

  Model. `scale`, `frac0`, `intg0` and the word index are C `int`s, so `Int`; `scale / 9` of a
  negative scale truncates (`Int.tdiv`). The buffer is the list of words of `to`; the copy of
  the words of `from` into `to` is `writeAt`. The loops are their own functions: the carry into
  the words before (`carryDown`), the walk down to the last word that is not zero
  (`lastNonzero`), the shift that makes room for a new leading word (`shiftWordsUp`) and the
  zero fills. `roundRat` and `roundedValue` say what each mode should give for the exact value.

  `decimal_round` decides from the first dropped digit alone when the scale is not a multiple
  of 9 (`x % 10` inside the word), and the source marks that branch "won't work for CEILING
  mode": digits below the first dropped one are not looked at, so CEILING, FLOOR and the tie
  test of HALF_EVEN go wrong there (`decimal_round_ceiling_drops_digit`).
-/

namespace MariaDB.Decimal

open MariaDB.Lib

/-- `decimal_round_mode`. -/
inductive RoundMode where
  | truncate | halfEven | halfUp | ceiling | floor
  deriving Repr, DecidableEq

/-- `DIG_BASE`. -/
def digBase : Nat := 1000000000

/-- `DIG_MASK`, the unit of the first digit of a word. -/
def digMask : Nat := 100000000

/-- `round_digit` of `decimal_round`: the first dropped digit rounds up when it is above this
(and, for 5, on a tie by the mode's rule). -/
def roundDigit (mode : RoundMode) (sign : Bool) : Nat :=
  match mode with
  | .halfUp | .halfEven => 5
  | .ceiling => if sign then 10 else 0
  | .floor => if sign then 0 else 10
  | .truncate => 10

/-- `while (carry && --buf1 >= to->buf) ADD(*buf1, *buf1, 0, carry)`: the words, where the
carry stopped (`-1` before the first word) and the carry left. -/
def carryDown (buf : List Nat) : Nat → Nat → List Nat × Int × Nat
  | i, 0 => (buf, i, 0)
  | 0, carry => (buf, -1, carry)
  | i + 1, carry + 1 =>
    let a := buf.getD i 0 + (carry + 1)
    if a ≥ digBase then carryDown (buf.set i (a - digBase)) i 1
    else carryDown (buf.set i a) i 0

/-- The loop that walks down from word `i` to the last word that is not zero; `none` when the
words from `i` down to the first are all zero. -/
def lastNonzero (buf : List Nat) : Nat → Option Nat
  | 0 => if buf.getD 0 0 ≠ 0 then some 0 else none
  | i + 1 => if buf.getD (i + 1) 0 ≠ 0 then some (i + 1) else lastNonzero buf i

/-- `for (buf1= to->buf + top; buf1 > to->buf; buf1--) buf1[0]= buf1[-1]`. -/
def shiftWordsUp (buf : List Nat) : Nat → List Nat
  | 0 => buf
  | j + 1 => shiftWordsUp (buf.set (j + 1) (buf.getD j 0)) j

/-- `while (buf < end) *buf++= 0` from word `start` to the end of the buffer. -/
def zeroFrom (buf : List Nat) (start : Nat) : List Nat :=
  buf.take start ++ List.replicate (buf.length - start) 0

/-- Words `start` to `stop` set to zero. -/
def zeroRange (buf : List Nat) (start stop : Nat) : List Nat :=
  writeAt buf start (List.replicate (stop - start) 0)

/-- `decimal_round(from, to, scale, mode)`; `inPlace` is the call with `to == from`, when `to` is
`from` itself. -/
def decimalRound (src dst : DecimalT) (inPlace : Bool) (scale : Int) (mode : RoundMode) :
    DecimalT × DecErr :=
  let dst := if inPlace then src else dst
  let len : Int := dst.len
  let frac0 : Int := if scale > 0 then roundUp scale.toNat else scale.tdiv 9
  let frac1 : Int := roundUp src.frac
  let intg0 : Int := roundUp src.intg
  let rd := roundDigit mode src.sign
  -- the fraction words that fit the buffer
  let (frac0, scale, error) :=
    if frac0 + intg0 > len then (len - intg0, (len - intg0) * 9, DecErr.truncated)
    else (frac0, scale, DecErr.ok)
  if scale + src.intg < 0 then (decimalMakeZero dst, .ok)
  else
    let dst : DecimalT :=
      if inPlace then dst
      else
        { dst with
          buf := writeAt dst.buf 0 (src.buf.take (intg0 + max frac1 frac0).toNat)
          sign := src.sign
          intg := min intg0.toNat dst.len * 9 }
    if frac0 > frac1 then
      ({ dst with
          buf := zeroRange dst.buf (intg0 + frac1).toNat (intg0 + frac0).toNat
          frac := scale.toNat }, error)
    else if scale ≥ src.frac then ({ dst with frac := scale.toNat }, error)
    else
      let i := intg0 + frac0 - 1
      -- the word of the last kept digit, rounded; `none` when the value rounds to zero here
      let rounded : Option (List Nat × Nat) :=
        if scale = frac0 * 9 then
          let doInc : Bool :=
            match rd with
            | 0 => ((dst.buf.drop (i + 1).toNat).take (frac1 - frac0).toNat).any (· ≠ 0)
            | 5 =>
              let x := dst.buf.getD (i + 1).toNat 0 / digMask
              decide (x > 5 ∨
                (x = 5 ∧ (mode = .halfUp ∨ (frac0 + intg0 > 0 ∧ dst.buf.getD i.toNat 0 % 2 = 1))))
            | _ => false
          if doInc then
            if frac0 + intg0 > 0 then some (dst.buf.set i.toNat (dst.buf.getD i.toNat 0 + 1), i.toNat)
            else some (dst.buf.set 0 digBase, 0)
          else if frac0 + intg0 = 0 then none
          else some (dst.buf, i.toNat)
        else
          let pos := (frac0 * 9 - scale - 1).toNat
          let x := dst.buf.getD i.toNat 0 / 10 ^ pos
          let y := x % 10
          let x := if y > rd ∨ (rd = 5 ∧ y = 5 ∧ (mode = .halfUp ∨ x / 10 % 2 = 1)) then x + 10 else x
          some (dst.buf.set i.toNat (10 ^ pos * (x - y)), i.toNat)
      match rounded with
      | none => (decimalMakeZero dst, .ok)
      | some (buf, i) =>
        -- a carry out of the word, or the search for the last word that is not zero
        let carried : Option (List Nat × Nat × Nat × Int × Int × Int × DecErr) :=
          if buf.getD i 0 ≥ digBase then
            let (buf, j, carry) := carryDown (buf.set i (buf.getD i 0 - digBase)) i 1
            if carry ≠ 0 then
              -- a new leading word
              let (frac0, scale, error) :=
                if frac0 + intg0 ≥ len then (frac0 - 1, (frac0 - 1) * 9, DecErr.truncated)
                else (frac0, scale, error)
              let buf := (shiftWordsUp buf (intg0 + max frac0 0).toNat).set 0 1
              some (buf, 0, dst.intg + 1, intg0 + 1, frac0, scale, error)
            else some (buf, j.toNat, dst.intg, intg0, frac0, scale, error)
          else
            match lastNonzero buf i with
            | some j => some (buf, j, dst.intg, intg0, frac0, scale, error)
            | none => none
        match carried with
        | none =>
          -- zero, with the fraction digits of the scale
          ({ dst with
              buf := zeroRange buf 0 (frac0 + 1).toNat
              intg := 1
              frac := (max scale 0).toNat
              sign := false }, .ok)
        | some (buf, i, intg, intg0, frac0, scale, error) =>
          let buf :=
            if frac0 < frac1 then
              zeroFrom buf (if scale = 0 ∧ intg0 = 0 then 1 else (intg0 + frac0).toNat)
            else buf
          -- the 999.9 -> 1000 case
          let firstDig := intg % 9
          let intg := if firstDig ≠ 0 ∧ buf.getD i 0 ≥ 10 ^ firstDig then intg + 1 else intg
          ({ dst with buf := buf, intg := intg, frac := (max scale 0).toNat }, error)

/-! ## What rounding is for -/

/-- The integer the mode's rule gives for `q`: toward zero, half away from zero, half to even,
up or down. -/
def roundRat : RoundMode → ℚ → ℤ
  | .truncate, q => if 0 ≤ q then ⌊q⌋ else ⌈q⌉
  | .halfUp, q => if 0 ≤ q then ⌊q + 1 / 2⌋ else -⌊-q + 1 / 2⌋
  | .halfEven, q =>
    let f := ⌊q⌋
    if q - f < 1 / 2 then f else if 1 / 2 < q - f then f + 1 else if f % 2 = 0 then f else f + 1
  | .ceiling, q => ⌈q⌉
  | .floor, q => ⌊q⌋

/-- The multiple of `10 ^ -scale` the mode's rule gives for `q`. -/
def roundedValue (mode : RoundMode) (scale : Int) (q : ℚ) : ℚ :=
  roundRat mode (q * 10 ^ scale) / 10 ^ scale

/-- A buffer of nine zero words, the size `my_decimal` allocates. -/
def zeroDecimal : DecimalT := ⟨1, 0, false, List.replicate 9 0⟩

/-- `1.001` in a buffer of nine words. -/
def oneAndAThousandth : DecimalT := ⟨1, 3, false, [1, 1000000, 0, 0, 0, 0, 0, 0, 0]⟩

theorem decimal_round_ceiling_drops_digit :
    decimalRound oneAndAThousandth zeroDecimal false 1 .ceiling =
        (⟨9, 1, false, [1, 0, 0, 0, 0, 0, 0, 0, 0]⟩, .ok) ∧
      (decimalRound oneAndAThousandth zeroDecimal false 1 .ceiling).1.val = 1 ∧
      roundedValue .ceiling 1 oneAndAThousandth.val = 11 / 10 := by
  have hrun : decimalRound oneAndAThousandth zeroDecimal false 1 .ceiling =
      (⟨9, 1, false, [1, 0, 0, 0, 0, 0, 0, 0, 0]⟩, .ok) := by decide
  refine ⟨hrun, ?_, ?_⟩
  · rw [hrun]
    simp [DecimalT.val, DecimalT.absVal, DecimalT.intWords, DecimalT.fracWords, digitsVal,
      digitsFrac, digitStep]
  · simp [roundedValue, roundRat, oneAndAThousandth, DecimalT.val, DecimalT.absVal,
      DecimalT.intWords, DecimalT.fracWords, digitsVal, digitsFrac, digitStep]
    norm_num

end MariaDB.Decimal
