import MariaDB.Ctype.Utf
import MariaDB.Lib.Rfc8259

/-
  The JSON scanner of strings/json_lib.c: `json_scan_start`, `json_scan_next` with the
  handlers of its `json_actions` table, and `json_valid`, which runs `json_scan_next` until it
  answers non-zero and reports whether no error was set.

  Model. The engine keeps the text, `c_str` as an offset into it, `c_next`, `c_next_len`, the
  error, the state, the stack of the states to go back to and `stack_p`, `sav_c_len`,
  `value_escaped` and `num_flags`; characters are read through the charset's `mb_wc`
  (`Charset`). The value fields that only `json_read_value` and its `read_*` handlers set,
  the `JST_READ_VALUE` row, and `killed_ptr` (which `json_scan_start` points at a zero) are
  left out. The stack holds only what the source pushes (`Ctx`): `JST_DONE` at the bottom,
  `JST_OBJ_CONT` or `JST_ARRAY_CONT` above.

  Every call a handler makes back into the table is a tail call into a row whose handlers
  call nothing further: the scalars go on with `json_scan_next` in the state they take from
  the stack (`jsonScanNextCtx`, equal to `jsonScanNext` there by `jsonScanNext_of_ctx`),
  `skip_key` and `skip_colon` go on in the `JST_VALUE` row, and the `struct_end_*` handlers in
  the row of the state on the stack. So `jsonScanNext` needs no recursion; its loops over the
  text are their own functions, each consuming what it reads.
-/

namespace MariaDB.Json

open MariaDB.Ctype

/-! ## Error codes and character classes -/

/-- `JE_BAD_CHR`. -/
def jeBadChr : Int := -1

/-- `JE_NOT_JSON_CHR`. -/
def jeNotJsonChr : Int := -2

/-- `JE_EOS`. -/
def jeEos : Int := -3

/-- `JE_SYN`. -/
def jeSyn : Int := -4

/-- `JE_STRING_CONST`. -/
def jeStringConst : Int := -5

/-- `JE_ESCAPING`. -/
def jeEscaping : Int := -6

/-- `JE_DEPTH`. -/
def jeDepth : Int := -7

/-- `JSON_DEPTH_LIMIT`. -/
def jsonDepthLimit : Nat := 32

/-- `json_char_classes`. -/
inductive CharClass
  | eos | lcurb | rcurb | lsqrb | rsqrb | colon | comma | quote | digit | lowF | lowN | lowT
  | etc | err | bad | space
  deriving DecidableEq, Repr

/-- `json_chr_map`. -/
def jsonChrMap : List CharClass := [
    .err, .err, .err, .err, .err, .err, .err, .err,
    .err, .space, .space, .err, .err, .space, .err, .err,
    .err, .err, .err, .err, .err, .err, .err, .err,
    .err, .err, .err, .err, .err, .err, .err, .err,
    .space, .etc, .quote, .etc, .etc, .etc, .etc, .etc,
    .etc, .etc, .etc, .etc, .comma, .digit, .etc, .etc,
    .digit, .digit, .digit, .digit, .digit, .digit, .digit, .digit,
    .digit, .digit, .colon, .etc, .etc, .etc, .etc, .etc,
    .etc, .etc, .etc, .etc, .etc, .etc, .etc, .etc,
    .etc, .etc, .etc, .etc, .etc, .etc, .etc, .etc,
    .etc, .etc, .etc, .etc, .etc, .etc, .etc, .etc,
    .etc, .etc, .etc, .lsqrb, .etc, .rsqrb, .etc, .etc,
    .etc, .etc, .etc, .etc, .etc, .etc, .lowF, .etc,
    .etc, .etc, .etc, .etc, .etc, .etc, .lowN, .etc,
    .etc, .etc, .etc, .etc, .lowT, .etc, .etc, .etc,
    .etc, .etc, .etc, .lcurb, .etc, .rcurb, .etc, .etc]

/-- The class `get_first_nonspace` gives a code point: `json_chr_map` below 128, `C_ETC` from
there on. -/
def chrClass (c : Nat) : CharClass := if c < 128 then jsonChrMap.getD c .etc else .etc

/-- `json_num_char_classes`. -/
inductive NumClass
  | nMinus | nPlus | nZero | nDigit | nPoint | nE | nEnd | nEend | nErr
  deriving DecidableEq, Repr

/-- The column of a class in `json_num_states`. -/
def NumClass.index : NumClass → Nat
  | .nMinus => 0 | .nPlus => 1 | .nZero => 2 | .nDigit => 3 | .nPoint => 4 | .nE => 5
  | .nEnd => 6 | .nEend => 7 | .nErr => 8

/-- `json_num_chr_map`. -/
def jsonNumChrMap : List NumClass := [
    .nErr, .nErr, .nErr, .nErr, .nErr, .nErr, .nErr, .nErr,
    .nErr, .nEnd, .nEnd, .nErr, .nErr, .nEnd, .nErr, .nErr,
    .nErr, .nErr, .nErr, .nErr, .nErr, .nErr, .nErr, .nErr,
    .nErr, .nErr, .nErr, .nErr, .nErr, .nErr, .nErr, .nErr,
    .nEnd, .nEend, .nEend, .nEend, .nEend, .nEend, .nEend, .nEend,
    .nEend, .nEend, .nEend, .nPlus, .nEnd, .nMinus, .nPoint, .nEend,
    .nZero, .nDigit, .nDigit, .nDigit, .nDigit, .nDigit, .nDigit, .nDigit,
    .nDigit, .nDigit, .nEend, .nEend, .nEend, .nEend, .nEend, .nEend,
    .nEend, .nEend, .nEend, .nEend, .nEend, .nE, .nEend, .nEend,
    .nEend, .nEend, .nEend, .nEend, .nEend, .nEend, .nEend, .nEend,
    .nEend, .nEend, .nEend, .nEend, .nEend, .nEend, .nEend, .nEend,
    .nEend, .nEend, .nEend, .nEend, .nEend, .nEnd, .nEend, .nEend,
    .nEend, .nEend, .nEend, .nEend, .nEend, .nE, .nEend, .nEend,
    .nEend, .nEend, .nEend, .nEend, .nEend, .nEend, .nEend, .nEend,
    .nEend, .nEend, .nEend, .nEend, .nEend, .nEend, .nEend, .nEend,
    .nEend, .nEend, .nEend, .nEend, .nEend, .nEnd, .nEend, .nEend]

/-- `json_num_chr_map[c]`, read for `c < 128` only. -/
def numClass (c : Nat) : NumClass := jsonNumChrMap.getD c .nErr

/-- `NS_OK`. -/
def nsOk : Int := 0

/-- `NS_GO`. -/
def nsGo : Int := 1

/-- `NS_GO1`. -/
def nsGo1 : Int := 2

/-- `NS_Z`. -/
def nsZ : Int := 3

/-- `NS_Z1`. -/
def nsZ1 : Int := 4

/-- `NS_INT`. -/
def nsInt : Int := 5

/-- `NS_FRAC`. -/
def nsFrac : Int := 6

/-- `NS_EX`. -/
def nsEx : Int := 7

/-- `NS_EX1`. -/
def nsEx1 : Int := 8

/-- `json_num_states`, a row per state and a column per class. The rows of the source give
eight columns; the ninth, `N_ERR`, is zero-initialized, which is `NS_OK`. -/
def jsonNumStates : List (List Int) := [
    [jeSyn, jeSyn, jeSyn, jeSyn, jeSyn, jeSyn, jeSyn, jeBadChr, 0],
    [nsGo1, jeSyn, nsZ, nsInt, jeSyn, jeSyn, jeSyn, jeBadChr, 0],
    [jeSyn, jeSyn, nsZ1, nsInt, jeSyn, jeSyn, jeSyn, jeBadChr, 0],
    [jeSyn, jeSyn, jeSyn, jeSyn, nsFrac, nsEx, nsOk, jeBadChr, 0],
    [jeSyn, jeSyn, jeSyn, jeSyn, nsFrac, nsEx, nsOk, jeBadChr, 0],
    [jeSyn, jeSyn, nsInt, nsInt, nsFrac, nsEx, nsOk, jeBadChr, 0],
    [jeSyn, jeSyn, nsFrac, nsFrac, jeSyn, nsEx, nsOk, jeBadChr, 0],
    [nsEx, nsEx, nsEx1, nsEx1, jeSyn, jeSyn, jeSyn, jeBadChr, 0],
    [jeSyn, jeSyn, nsEx1, nsEx1, jeSyn, jeSyn, nsOk, jeBadChr, 0]]

/-- `json_num_states[state][c]`. -/
def numStep (state : Int) (c : NumClass) : Int :=
  (jsonNumStates.getD state.toNat []).getD c.index 0

/-- `json_num_state_flags`: `JSON_NUM_NEG` (1) after a minus, `JSON_NUM_FRAC_PART` (2) in the
fraction, `JSON_NUM_EXP` (4) in the exponent. -/
def jsonNumStateFlags : List Nat := [0, 0, 1, 0, 0, 0, 2, 4, 0]

/-- `S_ETC`. -/
def sEtc : Nat := 36

/-- `S_QUOTE`. -/
def sQuote : Nat := 37

/-- `S_BKSL`. -/
def sBksl : Nat := 38

/-- `S_ERR`. -/
def sErr : Nat := 100

/-- `S_F`, the last hex digit's class. -/
def sF : Nat := 15

/-- `json_instr_chr_map`: `S_0` .. `S_F` are the hex digits' values. -/
def jsonInstrChrMap : List Nat := [
    sErr, sErr, sErr, sErr, sErr, sErr, sErr, sErr,
    sErr, sErr, sErr, sErr, sErr, sErr, sErr, sErr,
    sErr, sErr, sErr, sErr, sErr, sErr, sErr, sErr,
    sErr, sErr, sErr, sErr, sErr, sErr, sErr, sErr,
    sEtc, sEtc, sQuote, sEtc, sEtc, sEtc, sEtc, sEtc,
    sEtc, sEtc, sEtc, sEtc, sEtc, sEtc, sEtc, sEtc,
    0, 1, 2, 3, 4, 5, 6, 7,
    8, 9, sEtc, sEtc, sEtc, sEtc, sEtc, sEtc,
    sEtc, 10, 11, 12, 13, 14, 15, sEtc,
    sEtc, sEtc, sEtc, sEtc, sEtc, sEtc, sEtc, sEtc,
    sEtc, sEtc, sEtc, sEtc, sEtc, sEtc, sEtc, sEtc,
    sEtc, sEtc, sEtc, sEtc, sBksl, sEtc, sEtc, sEtc,
    sEtc, 10, 11, 12, 13, 14, 15, sEtc,
    sEtc, sEtc, sEtc, sEtc, sEtc, sEtc, sEtc, sEtc,
    sEtc, sEtc, sEtc, sEtc, sEtc, sEtc, sEtc, sEtc,
    sEtc, sEtc, sEtc, sEtc, sEtc, sEtc, sEtc, sEtc]

/-- `json_instr_chr_map[c]`, read for `c < 128` only. -/
def instrClass (c : Nat) : Nat := jsonInstrChrMap.getD c sErr

/-! ## The engine -/

/-- `json_states`, with the internal states of `json_all_states` but `JST_READ_VALUE`. -/
inductive JState
  | value | key | objStart | objEnd | arrayStart | arrayEnd | done | objCont | arrayCont
  deriving DecidableEq, Repr

/-- What the stack holds. -/
inductive Ctx
  | done | objCont | arrayCont
  deriving DecidableEq, Repr

/-- The state a stack entry stands for. -/
def Ctx.state : Ctx → JState
  | .done => .done
  | .objCont => .objCont
  | .arrayCont => .arrayCont

/-- `json_engine_t` with its `json_string_t`, as far as the scanner uses them. -/
structure Engine where
  /-- The text from `str` to `str_end`. -/
  str : List UInt8
  /-- `c_str - str`. -/
  cStr : Nat
  cNext : Nat
  cNextLen : Int
  error : Int
  state : JState
  stack : Nat → Ctx
  stackP : Nat
  savCLen : Int
  valueEscaped : Bool
  numFlags : Nat

namespace Engine

/-- The bytes left to read. -/
def remaining (j : Engine) : Nat := j.str.length - j.cStr

/-- `json_eos(j)`. -/
def eos (j : Engine) : Bool := j.str.length ≤ j.cStr

/-- `c_str+= c_len`. -/
def advance (j : Engine) (n : Int) : Engine := { j with cStr := j.cStr + n.toNat }

/-- `s->error= e`. -/
def fail (j : Engine) (e : Int) : Engine := { j with error := e }

/-- The error a failed read sets: `json_eos(j) ? JE_EOS : JE_BAD_CHR`. -/
def readError (j : Engine) : Int := if j.eos then jeEos else jeBadChr

/-- `j->state= *value_ptr` with `value_ptr` at the top of the stack. -/
def popState (j : Engine) : Engine := { j with state := (j.stack j.stackP).state }

/-- `json_next_char(j)`: decode at `c_str`; `c_next_len` is the result. -/
def nextChar (cs : Charset) (j : Engine) : Int × Engine :=
  let r := cs.mbWc (j.str.drop j.cStr) j.cNext
  (r.1, { j with cNext := r.2, cNextLen := r.1 })

end Engine

/-- `json_scan_start(je, i_cs, str, end)`. -/
def jsonScanStart (str : List UInt8) : Engine where
  str := str
  cStr := 0
  cNext := 0
  cNextLen := 0
  error := 0
  state := .value
  stack := fun _ => .done
  stackP := 0
  savCLen := 0
  valueEscaped := false
  numFlags := 0

section Scanner

variable (cs : Charset)

open Engine

theorem nextChar_le (j : Engine) : (j.nextChar cs).1 ≤ j.remaining := by
  have h := cs.read_le (j.str.drop j.cStr) j.cNext
  simp only [nextChar, remaining, List.length_drop] at h ⊢
  omega

@[simp] theorem nextChar_str (j : Engine) : (j.nextChar cs).2.str = j.str := rfl

@[simp] theorem nextChar_cStr (j : Engine) : (j.nextChar cs).2.cStr = j.cStr := rfl

@[simp] theorem nextChar_state (j : Engine) : (j.nextChar cs).2.state = j.state := rfl

@[simp] theorem nextChar_stack (j : Engine) : (j.nextChar cs).2.stack = j.stack := rfl

@[simp] theorem nextChar_stackP (j : Engine) : (j.nextChar cs).2.stackP = j.stackP := rfl

@[simp] theorem nextChar_error (j : Engine) : (j.nextChar cs).2.error = j.error := rfl

/-- Reading a character of `n > 0` bytes and stepping past it leaves fewer bytes. -/
theorem remaining_advance_lt (j : Engine) (h : 0 < (j.nextChar cs).1) :
    ((j.nextChar cs).2.advance (j.nextChar cs).1).remaining < j.remaining := by
  have := nextChar_le cs j
  simp only [advance, remaining, nextChar_str, nextChar_cStr] at this ⊢
  omega

/-- `get_first_nonspace(js, &t_next, &c_len)`: the class of the first character that is not
a space, the `c_len` of the last read, and the engine after it. -/
def getFirstNonspace (j : Engine) : CharClass × Int × Engine :=
  let r := j.nextChar cs
  if _h : r.1 ≤ 0 then ((if r.2.eos then .eos else .bad), r.1, r.2)
  else
    let t := chrClass r.2.cNext
    if t = .space then getFirstNonspace (r.2.advance r.1) else (t, r.1, r.2.advance r.1)
termination_by j.remaining
decreasing_by exact remaining_advance_lt cs j (Int.not_le.mp _h)

/-- `skip_string_verbatim(s, str)`: the characters of `str` must follow. -/
def skipStringVerbatim (j : Engine) : List Nat → Int × Engine
  | [] => (0, j)
  | c :: rest =>
    let r := j.nextChar cs
    if 0 < r.1 then
      if r.2.cNext = c then skipStringVerbatim (r.2.advance r.1) rest
      else (jeSyn, r.2.fail jeSyn)
    else (r.2.readError, r.2.fail r.2.readError)

/-- `read_4_hexdigits(s, dest)` for the digits `i = 4 - n` to 3: each adds its value to
`dest[i/2]`, times 16 for the first of a pair. -/
def read4Hexdigits : Nat → Engine → UInt8 × UInt8 → Int × Engine × (UInt8 × UInt8)
  | 0, j, d => (0, j, d)
  | n + 1, j, d =>
    let i := 3 - n
    let r := j.nextChar cs
    if r.1 ≤ 0 then (r.2.readError, r.2.fail r.2.readError, d)
    else if r.2.cNext ≥ 128 ∨ instrClass r.2.cNext > sF then (jeSyn, r.2.fail jeSyn, d)
    else
      let t := instrClass r.2.cNext
      let add := (if i % 2 = 1 then t else t * 16).toUInt8
      let d := if i / 2 = 0 then (d.1 + add, d.2) else (d.1, d.2 + add)
      read4Hexdigits n (r.2.advance r.1) d

/-- The low half of a surrogate pair in `json_handle_esc`: `\u` and four hex digits into
`code[2..3]`, then the four bytes read as UTF-16. -/
def readSurrogateLow (code : UInt8 × UInt8) (j : Engine) : Int × Engine :=
  let r := j.nextChar cs
  if r.1 ≤ 0 then (r.2.readError, r.2.fail r.2.readError)
  else if r.2.cNext ≠ 92 then (jeSyn, r.2.fail jeSyn)
  else
    let r' := (r.2.advance r.1).nextChar cs
    if r'.1 ≤ 0 then (r'.2.readError, r'.2.fail r'.2.readError)
    else if r'.2.cNext ≠ 117 then (jeSyn, r'.2.fail jeSyn)
    else
      let h := read4Hexdigits cs 4 (r'.2.advance r'.1) (0, 0)
      if h.1 ≠ 0 then (1, h.2.1)
      else
        let u := myUtf16Uni [code.1, code.2, h.2.2.1, h.2.2.2] h.2.1.cNext
        if u.1 = 4 then (0, { h.2.1 with cNext := u.2 }) else (jeBadChr, h.2.1.fail jeBadChr)

/-- `\uXXXX` in `json_handle_esc`, after the `u`: four hex digits into `code[0..1]` read as
UTF-16, and a second escape when they are a high surrogate. -/
def readUnicodeEscape (j : Engine) : Int × Engine :=
  let h := read4Hexdigits cs 4 j (0, 0)
  if h.1 ≠ 0 then (1, h.2.1)
  else
    let u := myUtf16Uni [h.2.2.1, h.2.2.2] h.2.1.cNext
    if u.1 = 2 then (0, { h.2.1 with cNext := u.2 })
    else if u.1 ≠ myCsToosmallN 4 then (jeBadChr, h.2.1.fail jeBadChr)
    else readSurrogateLow cs h.2.2 h.2.1

/-- `json_handle_esc(s)`, after a backslash: the escaped character in `c_next`. -/
def jsonHandleEsc (j : Engine) : Int × Engine :=
  let r := j.nextChar cs
  if r.1 ≤ 0 then (r.2.readError, r.2.fail r.2.readError)
  else
    let j := r.2.advance r.1
    if j.cNext = 98 then (0, { j with cNext := 8 })
    else if j.cNext = 102 then (0, { j with cNext := 12 })
    else if j.cNext = 110 then (0, { j with cNext := 10 })
    else if j.cNext = 114 then (0, { j with cNext := 13 })
    else if j.cNext = 116 then (0, { j with cNext := 9 })
    else if j.cNext < 128 ∧ instrClass j.cNext = sErr then
      (jeEscaping, { j with cStr := j.cStr - r.1.toNat, error := jeEscaping })
    else if j.cNext ≠ 117 then (0, j)
    else readUnicodeEscape cs j

/-! ## What the readers consume -/

/-- `j'` reads the text of `j`, from where `j` was or further on. -/
def ReadsOn (j j' : Engine) : Prop := j'.str = j.str ∧ j.cStr ≤ j'.cStr

theorem ReadsOn.refl (j : Engine) : ReadsOn j j := ⟨rfl, Nat.le_refl _⟩

theorem ReadsOn.trans {j j' j'' : Engine} (h : ReadsOn j j') (h' : ReadsOn j' j'') :
    ReadsOn j j'' := ⟨h'.1.trans h.1, Nat.le_trans h.2 h'.2⟩

theorem ReadsOn.remaining_le {j j' : Engine} (h : ReadsOn j j') : j'.remaining ≤ j.remaining := by
  simp only [remaining, h.1]
  have := h.2
  omega

/-- A read of `n > 0` bytes, stepped past. -/
theorem readsOn_advance (j : Engine) :
    ReadsOn j ((j.nextChar cs).2.advance (j.nextChar cs).1) := ⟨rfl, by simp [advance]⟩

theorem lt_advance (j : Engine) (h : ¬ (j.nextChar cs).1 ≤ 0) :
    j.cStr < ((j.nextChar cs).2.advance (j.nextChar cs).1).cStr := by
  simp only [advance, nextChar_cStr]
  omega

@[simp] theorem readsOn_nextChar (j : Engine) : ReadsOn j (j.nextChar cs).2 := ⟨rfl, Nat.le_refl _⟩

theorem read4Hexdigits_readsOn : ∀ (n : Nat) (j : Engine) (d : UInt8 × UInt8),
    ReadsOn j (read4Hexdigits cs n j d).2.1
  | 0, j, d => ReadsOn.refl j
  | n + 1, j, d => by
    simp only [read4Hexdigits]
    -- a failed read stops in place; a digit is stepped past, whatever it adds to `dest`
    split_ifs <;> first
      | exact ⟨rfl, Nat.le_refl _⟩
      | exact (readsOn_advance cs j).trans (read4Hexdigits_readsOn n _ _)

theorem readError_ne_zero (j : Engine) : j.readError ≠ 0 := by
  unfold readError
  split <;> decide

/-- The error codes an error path answers with. -/
theorem errors_ne_zero : jeSyn ≠ 0 ∧ jeBadChr ≠ 0 ∧ jeEscaping ≠ 0 ∧ jeNotJsonChr ≠ 0 ∧
    jeStringConst ≠ 0 ∧ jeEos ≠ 0 ∧ (1 : Int) ≠ 0 := by decide

theorem readSurrogateLow_readsOn (code : UInt8 × UInt8) (j : Engine) :
    ReadsOn j (readSurrogateLow cs code j).2 := by
  simp only [readSurrogateLow]
  -- each branch stops after the backslash, the `u` or the four digits
  split_ifs <;> first
    | exact readsOn_nextChar cs j
    | exact (readsOn_advance cs j).trans (readsOn_nextChar cs _)
    | exact (readsOn_advance cs j).trans ((readsOn_advance cs _).trans
        (read4Hexdigits_readsOn cs 4 _ _))

theorem readUnicodeEscape_readsOn (j : Engine) : ReadsOn j (readUnicodeEscape cs j).2 := by
  simp only [readUnicodeEscape]
  split_ifs <;> first
    | exact read4Hexdigits_readsOn cs 4 j (0, 0)
    | exact (read4Hexdigits_readsOn cs 4 j (0, 0)).trans (readSurrogateLow_readsOn cs _ _)

/-- `json_handle_esc` reads on; on `JE_ESCAPING` it steps back to the escaped character. -/
theorem jsonHandleEsc_readsOn (j : Engine) : ReadsOn j (jsonHandleEsc cs j).2 := by
  simp only [jsonHandleEsc]
  split_ifs <;> first
    | exact readsOn_nextChar cs j
    | exact readsOn_advance cs j
    | exact ⟨rfl, by simp [advance]⟩
    | exact (readsOn_advance cs j).trans (readUnicodeEscape_readsOn cs _)

/-- `skip_str_constant(j)`, after the opening quote: up to the closing quote, with escapes;
then the state on the stack. -/
def skipStrConstant (j : Engine) : Int × Engine :=
  let r := j.nextChar cs
  if _h : 0 < r.1 then
    let j' := r.2.advance r.1
    if j'.cNext ≥ 128 ∨ instrClass j'.cNext ≤ sEtc then skipStrConstant j'
    else if j'.cNext = 34 then (0, j'.popState)
    else if j'.cNext = 92 then
      let e := jsonHandleEsc cs { j' with valueEscaped := true }
      if e.1 ≠ 0 then (1, e.2) else skipStrConstant e.2
    else (jeNotJsonChr, j'.fail jeNotJsonChr)
  else (r.2.readError, r.2.fail r.2.readError)
termination_by j.remaining
decreasing_by
  · exact remaining_advance_lt cs j _h
  · exact Nat.lt_of_le_of_lt (jsonHandleEsc_readsOn cs _).remaining_le
      (remaining_advance_lt cs j _h)

/-- The loop of `skip_num_constant` in state `state`: the state's flag, then the next
character through `json_num_states`. A state that is not positive ends the number before the
character, without an error; at the end of the text the state's `N_END` entry is the error. -/
def skipNumLoop (state : Int) (j : Engine) : Int × Engine :=
  let j := { j with numFlags := j.numFlags ||| jsonNumStateFlags.getD state.toNat 0 }
  let r := j.nextChar cs
  if _h : 0 < r.1 ∧ r.2.cNext < 128 then
    let next := numStep state (numClass r.2.cNext)
    if 0 < next then skipNumLoop next (r.2.advance r.1) else (0, r.2.popState)
  else
    let e := if r.2.eos then numStep state .nEnd else jeBadChr
    if e < 0 then (1, r.2.fail e) else (0, (r.2.fail e).popState)
termination_by j.remaining
decreasing_by exact remaining_advance_lt cs _ _h.1

/-- `skip_num_constant(j)`, at the number's first character. -/
def skipNumConstant (j : Engine) : Int × Engine :=
  skipNumLoop cs (numStep nsGo (numClass j.cNext)) { j with numFlags := 0 }

/-- The loop of `json_read_keyname_chr` after a key's closing quote: spaces up to the colon. -/
def skipSpacesToColon (j : Engine) : Engine :=
  let r := j.nextChar cs
  if _h : 0 < r.1 then
    if r.2.cNext = 58 then { r.2.advance r.1 with state := .value }
    else if r.2.cNext < 128 ∧ chrClass r.2.cNext = .space then
      skipSpacesToColon (r.2.advance r.1)
    else r.2.fail jeSyn
  else r.2.fail r.2.readError
termination_by j.remaining
decreasing_by exact remaining_advance_lt cs _ _h

/-- `json_read_keyname_chr(j)`: one character of a key name, `0` while the name goes on. -/
def jsonReadKeynameChr (j : Engine) : Int × Engine :=
  let r := j.nextChar cs
  if 0 < r.1 then
    let j := r.2.advance r.1
    if j.cNext ≥ 128 ∨ instrClass j.cNext ≤ sEtc then (0, j)
    else if instrClass j.cNext = sQuote then (1, skipSpacesToColon cs j)
    else if instrClass j.cNext = sBksl then jsonHandleEsc cs j
    else if instrClass j.cNext = sErr then
      (1, { j with cStr := j.cStr - r.1.toNat, error := jeStringConst })
    else (1, j.fail j.readError)
  else (1, r.2.fail r.2.readError)

/-- `json_read_keyname_chr` answers 0 only after reading on. -/
theorem jsonReadKeynameChr_remaining (j : Engine) (h : (jsonReadKeynameChr cs j).1 = 0) :
    (jsonReadKeynameChr cs j).2.remaining < j.remaining := by
  simp only [jsonReadKeynameChr] at h ⊢
  split_ifs at h ⊢ with hr
  all_goals first
    | (simp [errors_ne_zero] at h; done)
    | exact remaining_advance_lt cs j hr
    | exact Nat.lt_of_le_of_lt (jsonHandleEsc_readsOn cs _).remaining_le
        (remaining_advance_lt cs j hr)

/-- `while (json_read_keyname_chr(j) == 0) {}`. -/
def readKeynameLoop (j : Engine) : Engine :=
  let r := jsonReadKeynameChr cs j
  if _h : r.1 = 0 then readKeynameLoop r.2 else r.2
termination_by j.remaining
decreasing_by exact jsonReadKeynameChr_remaining cs j _h

/-! ## The handlers -/

/-- The handlers that call no other. -/
inductive Leaf
  | unexpectedEos | syntaxError | markObject | markArray | notJsonChr | badChr | done
  | endObject | endArray | readKeyname | nextKey | nextItem | arrayItem
  deriving DecidableEq, Repr

/-- The handlers of `json_actions`. -/
inductive Handler
  | leaf (h : Leaf)
  | vString | vNumber | vFalse | vNull | vTrue
  | skipKey | skipColon
  | structEndEos | structEndCb | structEndQb | structEndCm
  deriving DecidableEq, Repr

/-- A class's column in `json_actions`; `C_SPACE` has none. -/
def CharClass.index : CharClass → Nat
  | .eos => 0 | .lcurb => 1 | .rcurb => 2 | .lsqrb => 3 | .rsqrb => 4 | .colon => 5
  | .comma => 6 | .quote => 7 | .digit => 8 | .lowF => 9 | .lowN => 10 | .lowT => 11
  | .etc => 12 | .err => 13 | .bad => 14 | .space => 16

/-- A state's row in `json_actions`. -/
def JState.index : JState → Nat
  | .value => 0 | .key => 1 | .objStart => 2 | .objEnd => 3 | .arrayStart => 4
  | .arrayEnd => 5 | .done => 6 | .objCont => 7 | .arrayCont => 8

/-- `json_actions`, without the `JST_READ_VALUE` row. -/
def jsonActionsTable : List (List Handler) := [
    -- JST_VALUE
    [.leaf .unexpectedEos, .leaf .markObject, .leaf .syntaxError, .leaf .markArray,
      .leaf .syntaxError, .leaf .syntaxError, .leaf .syntaxError, .vString, .vNumber, .vFalse,
      .vNull, .vTrue, .leaf .syntaxError, .leaf .notJsonChr, .leaf .badChr],
    -- JST_KEY
    [.leaf .unexpectedEos, .skipKey, .skipKey, .skipKey, .skipKey,
      .skipKey, .skipKey, .skipColon, .skipKey, .skipKey,
      .skipKey, .skipKey, .skipKey, .leaf .notJsonChr, .leaf .badChr],
    -- JST_OBJ_START
    [.leaf .unexpectedEos, .leaf .syntaxError, .leaf .endObject, .leaf .syntaxError,
      .leaf .syntaxError, .leaf .syntaxError, .leaf .syntaxError, .leaf .readKeyname,
      .leaf .syntaxError, .leaf .syntaxError, .leaf .syntaxError, .leaf .syntaxError,
      .leaf .syntaxError, .leaf .notJsonChr, .leaf .badChr],
    -- JST_OBJ_END
    [.structEndEos, .leaf .syntaxError, .structEndCb, .leaf .syntaxError, .structEndQb,
      .leaf .syntaxError, .structEndCm, .leaf .syntaxError, .leaf .syntaxError,
      .leaf .syntaxError, .leaf .syntaxError, .leaf .syntaxError, .leaf .syntaxError,
      .leaf .notJsonChr, .leaf .badChr],
    -- JST_ARRAY_START
    [.leaf .unexpectedEos, .leaf .arrayItem, .leaf .syntaxError, .leaf .arrayItem,
      .leaf .endArray, .leaf .syntaxError, .leaf .syntaxError, .leaf .arrayItem,
      .leaf .arrayItem, .leaf .arrayItem, .leaf .arrayItem, .leaf .arrayItem,
      .leaf .syntaxError, .leaf .notJsonChr, .leaf .badChr],
    -- JST_ARRAY_END
    [.structEndEos, .leaf .syntaxError, .structEndCb, .leaf .syntaxError, .structEndQb,
      .leaf .syntaxError, .structEndCm, .leaf .syntaxError, .leaf .syntaxError,
      .leaf .syntaxError, .leaf .syntaxError, .leaf .syntaxError, .leaf .syntaxError,
      .leaf .notJsonChr, .leaf .badChr],
    -- JST_DONE
    [.leaf .done, .leaf .syntaxError, .leaf .syntaxError, .leaf .syntaxError,
      .leaf .syntaxError, .leaf .syntaxError, .leaf .syntaxError, .leaf .syntaxError,
      .leaf .syntaxError, .leaf .syntaxError, .leaf .syntaxError, .leaf .syntaxError,
      .leaf .syntaxError, .leaf .notJsonChr, .leaf .badChr],
    -- JST_OBJ_CONT
    [.leaf .unexpectedEos, .leaf .syntaxError, .leaf .endObject, .leaf .syntaxError,
      .leaf .syntaxError, .leaf .syntaxError, .leaf .nextKey, .leaf .syntaxError,
      .leaf .syntaxError, .leaf .syntaxError, .leaf .syntaxError, .leaf .syntaxError,
      .leaf .syntaxError, .leaf .notJsonChr, .leaf .badChr],
    -- JST_ARRAY_CONT
    [.leaf .unexpectedEos, .leaf .syntaxError, .leaf .syntaxError, .leaf .syntaxError,
      .leaf .endArray, .leaf .syntaxError, .leaf .nextItem, .leaf .syntaxError,
      .leaf .syntaxError, .leaf .syntaxError, .leaf .syntaxError, .leaf .syntaxError,
      .leaf .syntaxError, .leaf .notJsonChr, .leaf .badChr]]

/-- `json_actions[state][t]`. -/
def jsonActions (st : JState) (t : CharClass) : Handler :=
  (jsonActionsTable.getD st.index []).getD t.index (.leaf .syntaxError)

/-- The rows of the states on the stack hold only handlers that call no other, and no
`array_item`. -/
theorem jsonActions_ctx (c : Ctx) (t : CharClass) :
    ∃ h, h ≠ .arrayItem ∧ jsonActions c.state t = .leaf h := by
  cases c <;> cases t <;> exact ⟨_, by decide, rfl⟩

/-- `array_item`, the one handler that steps back, is only in the `JST_ARRAY_START` row. -/
theorem jsonActions_arrayItem (st : JState) (t : CharClass) (h : jsonActions st t = .leaf .arrayItem) :
    st = .arrayStart := by
  cases st <;> cases t <;> first | rfl | exact nomatch h

/-- The `C_BAD` column is `bad_chr` in every row. -/
theorem jsonActions_bad (st : JState) : jsonActions st .bad = .leaf .badChr := by
  cases st <;> rfl

/-- `unexpected_eos`, `syntax_error`, `not_json_chr` and `bad_chr`: set the error. -/
def failWith (e : Int) (j : Engine) : Int × Engine := (1, j.fail e)

/-- `unexpected_eos`. -/
def unexpectedEos (j : Engine) : Int × Engine := failWith jeEos j

/-- `syntax_error`. -/
def syntaxError (j : Engine) : Int × Engine := failWith jeSyn j

/-- `not_json_chr`. -/
def notJsonChr (j : Engine) : Int × Engine := failWith jeNotJsonChr j

/-- `bad_chr`. -/
def badChr (j : Engine) : Int × Engine := failWith jeBadChr j

variable (noResize : Bool)

/-- `mark_object` and `mark_array`: the state, and a push of where to go back to, unless the
stack may not grow (`MY_BUFFER_NO_RESIZE`) past `JSON_DEPTH_LIMIT`. -/
def markStruct (st : JState) (c : Ctx) (j : Engine) : Int × Engine :=
  let j := { j with state := st, stackP := j.stackP + 1 }
  if noResize ∧ j.stackP ≥ jsonDepthLimit then (1, j.fail jeDepth)
  else (0, { j with stack := fun i => if i = j.stackP then c else j.stack i })

/-- `mark_object`. -/
def markObject (j : Engine) : Int × Engine := markStruct noResize .objStart .objCont j

/-- `mark_array`. -/
def markArray (j : Engine) : Int × Engine := markStruct noResize .arrayStart .arrayCont j

/-- `end_object` and `end_array`: pop, and the state. -/
def endStruct (st : JState) (j : Engine) : Int × Engine :=
  (0, { j with stackP := j.stackP - 1, state := st })

/-- `end_object`. -/
def endObject (j : Engine) : Int × Engine := endStruct .objEnd j

/-- `end_array`. -/
def endArray (j : Engine) : Int × Engine := endStruct .arrayEnd j

/-- `next_key`: the quote that opens the next key. -/
def nextKey (j : Engine) : Int × Engine :=
  let g := getFirstNonspace cs j
  if g.1 = .quote then (0, { g.2.2 with state := .key })
  else (1, g.2.2.fail (if g.1 = .eos then jeEos else if g.1 = .bad then jeBadChr else jeSyn))

/-- The handlers that call no other. -/
def runLeaf : Leaf → Engine → Int × Engine
  | .unexpectedEos, j => unexpectedEos j
  | .syntaxError, j => syntaxError j
  | .markObject, j => markObject noResize j
  | .markArray, j => markArray noResize j
  | .notJsonChr, j => notJsonChr j
  | .badChr, j => badChr j
  -- `done`
  | .done, j => (1, j)
  | .endObject, j => endObject j
  | .endArray, j => endArray j
  -- `read_keyname`
  | .readKeyname, j => (0, { j with state := .key })
  | .nextKey, j => nextKey cs j
  -- `next_item`
  | .nextItem, j => (0, { j with state := .value })
  -- `array_item`: the item's first character is read again in `JST_VALUE`
  | .arrayItem, j => (0, { j with state := .value, cStr := j.cStr - j.savCLen.toNat })

/-- A handler of the row of a state on the stack. -/
def runCtx (c : Ctx) (t : CharClass) (j : Engine) : Int × Engine :=
  match jsonActions c.state t with
  | .leaf h => runLeaf cs noResize h j
  -- none in these rows (`jsonActions_ctx`)
  | _ => (1, j)

/-- `json_scan_next` in the state on top of the stack, where the scalar handlers leave it. -/
def jsonScanNextCtx (j : Engine) : Int × Engine :=
  let g := getFirstNonspace cs j
  let j := { g.2.2 with savCLen := g.2.1 }
  let r := runCtx cs noResize (j.stack j.stackP) g.1 j
  (if r.1 ≠ 0 then 1 else 0, r.2)

/-- `v_string`. -/
def vString (j : Engine) : Int × Engine :=
  let s := skipStrConstant cs j
  if s.1 ≠ 0 then (1, s.2) else jsonScanNextCtx cs noResize s.2

/-- `v_number`. -/
def vNumber (j : Engine) : Int × Engine :=
  let s := skipNumConstant cs j
  if s.1 ≠ 0 then (1, s.2) else jsonScanNextCtx cs noResize s.2

/-- `v_false`, `v_null` and `v_true`: the rest of the literal, the state on the stack, and
`json_scan_next`. -/
def vLiteral (rest : List Nat) (j : Engine) : Int × Engine :=
  let s := skipStringVerbatim cs j rest
  if s.1 ≠ 0 then (1, s.2) else jsonScanNextCtx cs noResize s.2.popState

/-- `v_false`: `"alse"`. -/
def vFalse (j : Engine) : Int × Engine := vLiteral cs noResize [97, 108, 115, 101] j

/-- `v_null`: `"ull"`. -/
def vNull (j : Engine) : Int × Engine := vLiteral cs noResize [117, 108, 108] j

/-- `v_true`: `"rue"`. -/
def vTrue (j : Engine) : Int × Engine := vLiteral cs noResize [114, 117, 101] j

/-- `json_actions[JST_VALUE][t]`. -/
def runValue (t : CharClass) (j : Engine) : Int × Engine :=
  match jsonActions .value t with
  | .leaf h => runLeaf cs noResize h j
  | .vString => vString cs noResize j
  | .vNumber => vNumber cs noResize j
  | .vFalse => vFalse cs noResize j
  | .vNull => vNull cs noResize j
  | .vTrue => vTrue cs noResize j
  -- none in this row
  | _ => (1, j)

/-- The error of a character that should have been another: `JE_EOS` at the end, `JE_BAD_CHR`
for one the charset cannot read, else `JE_SYN`. -/
def unexpectedError (t : CharClass) : Int :=
  if t = .eos then jeEos else if t = .bad then jeBadChr else jeSyn

/-- `skip_colon`: a key that is `""`; the colon, then the value. -/
def skipColon (j : Engine) : Int × Engine :=
  let g := getFirstNonspace cs j
  if g.1 = .colon then
    let g' := getFirstNonspace cs g.2.2
    runValue cs noResize g'.1 g'.2.2
  else (1, g.2.2.fail (unexpectedError g.1))

/-- `skip_key` past an escape that opens the key: the rest of the name up to the colon, then
the value. -/
def skipKeyRest (j : Engine) : Int × Engine :=
  let j := readKeynameLoop cs j
  if j.error ≠ 0 then (1, j)
  else
    let g := getFirstNonspace cs j
    runValue cs noResize g.1 g.2.2

/-- `skip_key`: the key's first character may open an escape; the rest of the key, the colon,
then the value. -/
def skipKey (j : Engine) : Int × Engine :=
  if j.cNext < 128 ∧ instrClass j.cNext = sBksl then
    let e := jsonHandleEsc cs j
    if e.1 ≠ 0 then (1, e.2) else skipKeyRest cs noResize e.2
  else skipKeyRest cs noResize j

/-- `json_actions[j->state][t_next](j)`: a handler of any row. -/
def runHandler (hd : Handler) (j : Engine) : Int × Engine :=
  match hd with
  | .leaf h => runLeaf cs noResize h j
  | .vString => vString cs noResize j
  | .vNumber => vNumber cs noResize j
  | .vFalse => vFalse cs noResize j
  | .vNull => vNull cs noResize j
  | .vTrue => vTrue cs noResize j
  | .skipKey => skipKey cs noResize j
  | .skipColon => skipColon cs noResize j
  -- `struct_end_*`: the handler of the same class in the row of the state on the stack
  | .structEndEos => runCtx cs noResize (j.stack j.stackP) .eos j
  | .structEndCb => runCtx cs noResize (j.stack j.stackP) .rcurb j
  | .structEndQb => runCtx cs noResize (j.stack j.stackP) .rsqrb j
  | .structEndCm => runCtx cs noResize (j.stack j.stackP) .comma j

/-- `json_scan_next(j)`. -/
def jsonScanNext (j : Engine) : Int × Engine :=
  let g := getFirstNonspace cs j
  let j := { g.2.2 with savCLen := g.2.1 }
  let r := runHandler cs noResize (jsonActions j.state g.1) j
  (if r.1 ≠ 0 then 1 else 0, r.2)


/-! ## What `json_scan_next` consumes -/

theorem getFirstNonspace_frame (j : Engine) : (getFirstNonspace cs j).2.2.state = j.state ∧
    (getFirstNonspace cs j).2.2.stack = j.stack ∧ (getFirstNonspace cs j).2.2.stackP = j.stackP := by
  fun_induction getFirstNonspace cs j with
  | case1 j r => simp [r]
  | case2 j r _ _ _ ih => simpa [r, advance] using ih
  | case3 j r => simp [r, advance]

/-- `get_first_nonspace` stops past the character it classes, `c_len` bytes long. -/
theorem getFirstNonspace_back (j : Engine) :
    ReadsOn j { (getFirstNonspace cs j).2.2 with
      cStr := (getFirstNonspace cs j).2.2.cStr - (getFirstNonspace cs j).2.1.toNat } := by
  fun_induction getFirstNonspace cs j with
  | case1 j r h => exact ⟨rfl, by simp [r, Int.toNat_of_nonpos h]⟩
  | case2 j _ _ _ _ ih => exact (readsOn_advance cs j).trans ih
  | case3 j r => exact ⟨rfl, by simp [r, advance]⟩

theorem getFirstNonspace_readsOn (j : Engine) : ReadsOn j (getFirstNonspace cs j).2.2 :=
  let h := getFirstNonspace_back cs j
  ⟨h.1, Nat.le_trans h.2 (Nat.sub_le _ _)⟩

/-- A class other than `C_EOS` and `C_BAD` is a character read. -/
theorem getFirstNonspace_lt (j : Engine) (he : (getFirstNonspace cs j).1 ≠ .eos)
    (hb : (getFirstNonspace cs j).1 ≠ .bad) :
    (getFirstNonspace cs j).2.2.remaining < j.remaining := by
  fun_induction getFirstNonspace cs j with
  | case1 j r _ => by_cases hx : r.2.eos <;> simp [hx] at he hb
  | case2 j _ h _ _ ih => exact Nat.lt_trans (ih he hb) (remaining_advance_lt cs j (Int.not_le.mp h))
  | case3 j _ h _ _ => exact remaining_advance_lt cs j (Int.not_le.mp h)


theorem skipStringVerbatim_readsOn (j : Engine) (l : List Nat) :
    ReadsOn j (skipStringVerbatim cs j l).2 := by
  induction l generalizing j with
  | nil => exact ReadsOn.refl j
  | cons c rest ih =>
    simp only [skipStringVerbatim]
    split_ifs
    · exact (readsOn_advance cs j).trans (ih _)
    · exact readsOn_nextChar cs j
    · exact readsOn_nextChar cs j

theorem skipStrConstant_readsOn (j : Engine) : ReadsOn j (skipStrConstant cs j).2 := by
  fun_induction skipStrConstant cs j with
  | case1 j _ _ _ _ ih => exact (readsOn_advance cs j).trans ih
  | case2 j => exact readsOn_advance cs j
  | case3 j _ _ j' =>
    exact (readsOn_advance cs j).trans (jsonHandleEsc_readsOn cs { j' with valueEscaped := true })
  | case4 j _ _ j' _ _ _ _ _ ih =>
    exact (readsOn_advance cs j).trans
      ((jsonHandleEsc_readsOn cs { j' with valueEscaped := true }).trans ih)
  | case5 j => exact readsOn_advance cs j
  | case6 j => exact readsOn_nextChar cs j

theorem skipNumLoop_readsOn (state : Int) (j : Engine) : ReadsOn j (skipNumLoop cs state j).2 := by
  fun_induction skipNumLoop cs state j with
  | case1 _ _ j _ _ _ _ ih => exact (readsOn_advance cs j).trans ih
  | case2 _ _ j => exact readsOn_nextChar cs j
  | case3 _ _ j => exact readsOn_nextChar cs j
  | case4 _ _ j => exact readsOn_nextChar cs j

theorem skipNumConstant_readsOn (j : Engine) : ReadsOn j (skipNumConstant cs j).2 :=
  skipNumLoop_readsOn cs _ _

theorem skipSpacesToColon_readsOn (j : Engine) : ReadsOn j (skipSpacesToColon cs j) := by
  fun_induction skipSpacesToColon cs j with
  | case1 j => exact readsOn_advance cs j
  | case2 j _ _ _ _ ih => exact (readsOn_advance cs j).trans ih
  | case3 j => exact readsOn_nextChar cs j
  | case4 j => exact readsOn_nextChar cs j

theorem jsonReadKeynameChr_readsOn (j : Engine) : ReadsOn j (jsonReadKeynameChr cs j).2 := by
  simp only [jsonReadKeynameChr]
  -- a `JE_STRING_CONST` steps back to the character it rejects
  split_ifs <;> first
    | exact readsOn_nextChar cs j
    | exact readsOn_advance cs j
    | exact ⟨rfl, by simp [advance]⟩
    | exact (readsOn_advance cs j).trans (skipSpacesToColon_readsOn cs _)
    | exact (readsOn_advance cs j).trans (jsonHandleEsc_readsOn cs _)

theorem readKeynameLoop_readsOn (j : Engine) : ReadsOn j (readKeynameLoop cs j) := by
  fun_induction readKeynameLoop cs j with
  | case1 j _ _ ih => exact (jsonReadKeynameChr_readsOn cs j).trans ih
  | case2 j => exact jsonReadKeynameChr_readsOn cs j

theorem nextKey_readsOn (j : Engine) : ReadsOn j (nextKey cs j).2 := by
  simp only [nextKey]
  split_ifs <;> exact getFirstNonspace_readsOn cs j

section Handlers

variable (noResize : Bool)

theorem markStruct_readsOn (st : JState) (c : Ctx) (j : Engine) :
    ReadsOn j (markStruct noResize st c j).2 := by
  simp only [markStruct]
  split_ifs <;> exact ReadsOn.refl j

/-- Every handler that calls no other reads on, but `array_item`. -/
theorem runLeaf_readsOn (h : Leaf) (hh : h ≠ .arrayItem) (j : Engine) :
    ReadsOn j (runLeaf cs noResize h j).2 := by
  cases h with
  | markObject => exact markStruct_readsOn noResize _ _ j
  | markArray => exact markStruct_readsOn noResize _ _ j
  | nextKey => exact nextKey_readsOn cs j
  | arrayItem => exact absurd rfl hh
  | _ => exact ReadsOn.refl j

theorem runCtx_readsOn (c : Ctx) (t : CharClass) (j : Engine) :
    ReadsOn j (runCtx cs noResize c t j).2 := by
  obtain ⟨h, hh, ha⟩ := jsonActions_ctx c t
  simp only [runCtx, ha]
  exact runLeaf_readsOn cs noResize h hh j

theorem jsonScanNextCtx_readsOn (j : Engine) : ReadsOn j (jsonScanNextCtx cs noResize j).2 :=
  (getFirstNonspace_readsOn cs j).trans (runCtx_readsOn cs noResize _ _ _)

/-- A scalar handler's reader, then `json_scan_next` in the state on the stack. -/
theorem scalar_readsOn (s : Int × Engine) (j : Engine) (hs : ReadsOn j s.2) :
    ReadsOn j (if s.1 ≠ 0 then (1, s.2) else jsonScanNextCtx cs noResize s.2).2 := by
  split_ifs
  · exact hs
  · exact hs.trans (jsonScanNextCtx_readsOn cs noResize _)

theorem vString_readsOn (j : Engine) : ReadsOn j (vString cs noResize j).2 :=
  scalar_readsOn cs noResize _ j (skipStrConstant_readsOn cs j)

theorem vNumber_readsOn (j : Engine) : ReadsOn j (vNumber cs noResize j).2 :=
  scalar_readsOn cs noResize _ j (skipNumConstant_readsOn cs j)

theorem vLiteral_readsOn (rest : List Nat) (j : Engine) :
    ReadsOn j (vLiteral cs noResize rest j).2 := by
  have hs := skipStringVerbatim_readsOn cs j rest
  simp only [vLiteral]
  split_ifs
  · exact hs
  · exact hs.trans (jsonScanNextCtx_readsOn cs noResize (skipStringVerbatim cs j rest).2.popState)

theorem runValue_readsOn (t : CharClass) (j : Engine) : ReadsOn j (runValue cs noResize t j).2 := by
  unfold runValue
  split
  next h heq =>
    refine runLeaf_readsOn cs noResize h (fun ha => ?_) j
    subst ha
    exact nomatch jsonActions_arrayItem _ _ heq
  · exact vString_readsOn cs noResize j
  · exact vNumber_readsOn cs noResize j
  · exact vLiteral_readsOn cs noResize _ j
  · exact vLiteral_readsOn cs noResize _ j
  · exact vLiteral_readsOn cs noResize _ j
  · exact ReadsOn.refl j

theorem skipColon_readsOn (j : Engine) : ReadsOn j (skipColon cs noResize j).2 := by
  simp only [skipColon]
  split_ifs
  · exact (getFirstNonspace_readsOn cs j).trans
      ((getFirstNonspace_readsOn cs _).trans (runValue_readsOn cs noResize _ _))
  · exact getFirstNonspace_readsOn cs j

theorem skipKeyRest_readsOn (j : Engine) : ReadsOn j (skipKeyRest cs noResize j).2 := by
  have hk := readKeynameLoop_readsOn cs j
  simp only [skipKeyRest]
  split_ifs
  · exact hk
  · exact hk.trans ((getFirstNonspace_readsOn cs _).trans (runValue_readsOn cs noResize _ _))

theorem skipKey_readsOn (j : Engine) : ReadsOn j (skipKey cs noResize j).2 := by
  simp only [skipKey]
  split_ifs
  · exact jsonHandleEsc_readsOn cs j
  · exact (jsonHandleEsc_readsOn cs j).trans (skipKeyRest_readsOn cs noResize _)
  · exact skipKeyRest_readsOn cs noResize j

/-- Every handler reads on, but `array_item`. -/
theorem runHandler_readsOn (hd : Handler) (hh : hd ≠ .leaf .arrayItem) (j : Engine) :
    ReadsOn j (runHandler cs noResize hd j).2 := by
  cases hd with
  | leaf h => exact runLeaf_readsOn cs noResize h (fun ha => hh (ha ▸ rfl)) j
  | vString => exact vString_readsOn cs noResize j
  | vNumber => exact vNumber_readsOn cs noResize j
  | vFalse | vNull | vTrue => exact vLiteral_readsOn cs noResize _ j
  | skipKey => exact skipKey_readsOn cs noResize j
  | skipColon => exact skipColon_readsOn cs noResize j
  | _ => exact runCtx_readsOn cs noResize _ _ j

end Handlers


/-! ## `json_valid` -/

section Valid

variable (noResize : Bool)

/-- `struct_end_eos` answers non-zero whatever the state on the stack. -/
theorem runCtx_eos (c : Ctx) (j : Engine) : (runCtx cs noResize c .eos j).1 = 1 := by
  cases c <;> rfl

/-- No row goes on at the end of the text. -/
theorem runHandler_eos (st : JState) (j : Engine) :
    (runHandler cs noResize (jsonActions st .eos) j).1 = 1 := by
  cases st <;> first | rfl | exact runCtx_eos cs noResize _ j

/-- In a state of the stack, `json_scan_next` is what the scalar handlers call. -/
theorem jsonScanNext_of_ctx (j : Engine) (h : j.state = (j.stack j.stackP).state) :
    jsonScanNext cs noResize j = jsonScanNextCtx cs noResize j := by
  obtain ⟨hst, hsk, hsp⟩ := getFirstNonspace_frame cs j
  obtain ⟨l, -, hl⟩ := jsonActions_ctx (j.stack j.stackP) (getFirstNonspace cs j).1
  simp only [jsonScanNext, jsonScanNextCtx, runCtx, hst, hsk, hsp, h, hl, runHandler]

/-- What `json_valid`'s loop decreases: twice the bytes left, and one more in
`JST_ARRAY_START`, whose `array_item` steps back for `JST_VALUE` to read the item's first
character again. -/
def scanMeasure (j : Engine) : Nat := 2 * j.remaining + if j.state = .arrayStart then 1 else 0

theorem scanMeasure_lt_of_remaining {j j' : Engine} (h : j'.remaining < j.remaining) :
    scanMeasure j' < scanMeasure j := by
  unfold scanMeasure
  split_ifs <;> omega

theorem scanMeasure_lt_of_back {j j' : Engine} (h : j'.remaining ≤ j.remaining)
    (hj : j.state = .arrayStart) (hj' : j'.state = .value) : scanMeasure j' < scanMeasure j := by
  simp only [scanMeasure, hj, hj']
  simp only [reduceCtorEq, if_false, if_true]
  omega

/-- Every call of `json_scan_next` that answers 0 decreases `scanMeasure`. -/
theorem jsonScanNext_measure_lt (j : Engine) (h : (jsonScanNext cs noResize j).1 = 0) :
    scanMeasure (jsonScanNext cs noResize j).2 < scanMeasure j := by
  have hst := (getFirstNonspace_frame cs j).1
  have hback := (getFirstNonspace_back cs j).remaining_le
  simp only [jsonScanNext] at h ⊢
  set g := getFirstNonspace cs j
  set k : Engine := { g.2.2 with savCLen := g.2.1 }
  have hr : (runHandler cs noResize (jsonActions k.state g.1) k).1 = 0 := by
    split_ifs at h with hne
    · exact absurd h (by decide)
    · exact not_not.mp hne
  -- the handler went on, so `get_first_nonspace` read a character
  have he : g.1 ≠ .eos := fun he => by
    rw [he, runHandler_eos] at hr
    exact absurd hr (by decide)
  have hb : g.1 ≠ .bad := fun hb => by
    rw [hb, jsonActions_bad] at hr
    exact Int.one_ne_zero hr
  have hlt := getFirstNonspace_lt cs j he hb
  by_cases ha : jsonActions k.state g.1 = .leaf .arrayItem
  · -- `array_item` steps back, from `JST_ARRAY_START` to `JST_VALUE`
    have hj : j.state = .arrayStart := hst ▸ jsonActions_arrayItem _ _ ha
    rw [ha]
    exact scanMeasure_lt_of_back hback hj rfl
  · exact scanMeasure_lt_of_remaining
      (Nat.lt_of_le_of_lt (runHandler_readsOn cs noResize _ ha k).remaining_le hlt)

/-- `while (json_scan_next(je) == 0) ;` -/
def jsonScanLoop (j : Engine) : Engine :=
  let r := jsonScanNext cs noResize j
  if _h : r.1 = 0 then jsonScanLoop r.2 else r.2
termination_by scanMeasure j
decreasing_by exact jsonScanNext_measure_lt cs noResize j _h

/-- `json_valid(js, js_len, cs, je)`: the text is valid when the scan stopped with no error. -/
def jsonValid (js : List UInt8) : Bool := (jsonScanLoop cs noResize (jsonScanStart js)).error == 0

open MariaDB.Lib.Rfc8259 in
/-- `json_valid` accepts `1.`: `.` takes `NS_INT` to `NS_FRAC`, whose `N_END` entry is `NS_OK`,
so the number ends at the end of the text with no digit after the point. -/
theorem json_valid_accepts_trailing_point :
    jsonValid utf8mb4 noResize [0x31, 0x2E] = true ∧
      ¬ JsonText (([0x31, 0x2E] : List UInt8).map UInt8.toNat) := by
  refine ⟨by cases noResize <;> decide +kernel, ?_⟩
  show ¬ JsonText ([0x31] ++ [0x2E])
  exact not_jsonText_of_last (by decide) (by decide)

end Valid

end Scanner

end MariaDB.Json
