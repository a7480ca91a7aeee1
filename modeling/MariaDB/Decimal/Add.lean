import MariaDB.Decimal.Cmp
import MariaDB.Decimal.Bin
import MariaDB.Lib.Buffer
import MariaDB.Lib.Carry
import Mathlib.Data.List.GetD

/-
  `decimal_add` and `decimal_sub` of strings/decimal.c: `do_add` and `do_sub` on the
  magnitudes, picked by the signs, and `decimal_result_size`, the words a caller gives `to`.

  Model. Both work from the last word of the result to the first, in three parts: the words of
  the longer fraction past the shorter, the columns both operands have, and the integer words
  only the longer has. Each part is a function of `MariaDB.Lib.Carry` on the words the loop's
  pointers run over (`readAt` of the operand's buffer), and the result is written back to front
  from `to->buf + intg0 + frac0` (`writeAt`). `do_sub` first skips the leading zero words of both
  integer parts and, when those tie, drops the trailing zero words of both (`doSubCarry`, which
  decides the borrow); the fraction lengths left may then be negative, so they are `Int`.
  `ADD` and `SUB` are exact on the words, as they are in `int32` for words below `DIG_BASE`.
-/

namespace MariaDB.Decimal

open MariaDB.Lib DecimalT

section Aligned

variable {buf : List Nat} {intg frac I F : Nat}

end Aligned

end MariaDB.Decimal
