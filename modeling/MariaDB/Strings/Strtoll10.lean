import MariaDB.Decimal.Integer
import MariaDB.Time.TextParse

/-
  `my_strtoll10` (strings/my_strtoll10.c): a decimal integer, read from a byte string whose
  end is given through `*endptr`.

  Model. `nptr` is the list of the bytes up to `*endptr`, and a pointer is its offset from
  `nptr`, so `end` is the length of the list; `*s` is `str.getD s 0`, never read at `end`.
  The result records what the function returns (a `longlong`), the offset it stores in
  `*endptr`, and `*error`. The digits go through `(uchar) (*s - '0')`, byte arithmetic
  modulo 256, which is at most 9 exactly on `'0'..'9'`. The source is cut at its labels: the
  exits `end_i`, `end_i_and_j`, `end3`, `end4`, `overflow` and `no_conv`, and the three
  stretches of digits, `strtoll10I` (the first nine significant digits, in `i`),
  `strtoll10J` (the next nine, in `j`) and `strtoll10K` (one or two more, in `k`, and the
  overflow test). `ulonglong` sums are converted once with `toUnsigned 64`, and a
  `(longlong)` cast of one is `toSigned 64`.

  `Strtoll10Spec` states what the function is for: after the leading latin1 spaces and an
  optional sign, the maximal run `D` of digits, its value `v`, and the result the sign and
  `v` call for.

  Proved:
  * `digitRun_eq`: a digit loop reads the first digits of the run, as many as it may;
  * `endI_readsAs`, `endIAndJ_readsAs`, `end3_readsAs`, `end4_readsAs`: each exit returns
    what `ReadsAs` asks for the value it recombines; `cutoff_test_iff`: the three-level cutoff
    comparison is the comparison of the value with the sign's bound;
  * `strtoll10K_readsAs`, `strtoll10J_readsAs`, `strtoll10I_readsAs`: from the first
    significant digit, every length of the run reaches the exit that recombines it. Twenty
    digits after a `-` always overflow, because `i` then holds nine digits led by one other
    than `0`, so the twenty-digit exit, which does not negate, is never taken with a `-`;
  * `strtoll10Digits_readsAs`: leading zeros do not count;
  * `my_strtoll10_reads_decimal`: `my_strtoll10` meets `Strtoll10Spec` on every byte string.
-/

namespace MariaDB.Strings

open MariaDB.Lib MariaDB.Time MariaDB.Decimal

/-- `MY_ERRNO_EDOM`. -/
def myErrnoEdom : Int := 33

/-- `MY_ERRNO_ERANGE`. -/
def myErrnoErange : Int := 34

/-- `MAX_NEGATIVE_NUMBER`: the magnitude of `LONGLONG_MIN`. -/
def maxNegativeNumber : Nat := 0x8000000000000000

/-- `INIT_CNT`: the digits kept in each of `i` and `j`. -/
def initCnt : Nat := 9

/-- `LFACTOR`. -/
def lFactor : Nat := 1000000000

/-- `LFACTOR1`. -/
def lFactor1 : Nat := 10000000000

/-- `LFACTOR2`. -/
def lFactor2 : Nat := 100000000000

/-- `lfactor[9]`: the powers of ten below `10^9`. -/
def lfactor : List Nat :=
  [1, 10, 100, 1000, 10000, 100000, 1000000, 10000000, 100000000]

/-- What `my_strtoll10` returns: the `longlong` value, the offset of `*endptr` from `nptr`,
    and `*error`. -/
structure Strtoll10Result where
  value : Int
  endptr : Nat
  error : Int
  deriving Repr, DecidableEq

/-- `(uchar) (*s - '0')`. -/
def ucharDigit (b : UInt8) : UInt8 := b - '0'.toUInt8

/-- The digit loops: at most `n` bytes from `s`, each digit `c` taken as `acc * 10 + c`,
    up to the first byte that is not a digit; the value and where the loop stopped. -/
def digitRun (str : List UInt8) : Nat → Nat → Nat → Nat × Nat
  | 0, s, acc => (acc, s)
  | n + 1, s, acc =>
    let c := ucharDigit (str.getD s 0)
    if c > 9 then (acc, s) else digitRun str n (s + 1) (acc * 10 + c.toNat)

/-- The cutoffs `(cutoff, cutoff2, cutoff3)` of the overflow test, by sign. -/
def cutoffs (negative : Bool) : Nat × Nat × Nat :=
  if negative then
    (maxNegativeNumber / lFactor2, maxNegativeNumber % lFactor2 / 100, maxNegativeNumber % 100)
  else (ulonglongMax / lFactor2, ulonglongMax % lFactor2 / 100, ulonglongMax % 100)

/-- `overflow:`. -/
def overflow (negative : Bool) (s : Nat) : Strtoll10Result :=
  ⟨if negative then longlongMin else toSigned 64 ulonglongMax, s, myErrnoErange⟩

/-- `end_i:`. -/
def endI (negative : Bool) (error : Int) (s i : Nat) : Strtoll10Result :=
  ⟨if negative then -(i : Int) else i, s, error⟩

/-- `end_i_and_j:`: `j` holds the `s - start` digits after those of `i`. -/
def endIAndJ (negative : Bool) (error : Int) (s start i j : Nat) : Strtoll10Result :=
  let li := toUnsigned 64 (i * lfactor.getD (s - start) 0 + j)
  ⟨if negative then -toSigned 64 li else toSigned 64 li, s, error⟩

/-- `end3:`: nine digits in `j`. -/
def end3 (negative : Bool) (error : Int) (s i j : Nat) : Strtoll10Result :=
  let li := toUnsigned 64 (i * lFactor + j)
  ⟨if negative then -toSigned 64 li else toSigned 64 li, s, error⟩

/-- `end4:`: nine digits in `j` and one in `k`. -/
def end4 (negative : Bool) (error : Int) (s i j k : Nat) : Strtoll10Result :=
  let li := toUnsigned 64 (i * lFactor1 + j * 10 + k)
  if negative then
    if li > maxNegativeNumber then overflow negative s
    else if li = maxNegativeNumber then ⟨longlongMin, s, error⟩
    else ⟨-toSigned 64 li, s, error⟩
  else ⟨toSigned 64 li, s, error⟩

/-- `no_conv:`. -/
def noConv : Strtoll10Result := ⟨0, 0, myErrnoEdom⟩

/-- From the byte after the eighteenth significant digit: one or two digits in `k`, then the
    test against the cutoffs. -/
def strtoll10K (str : List UInt8) (negative : Bool) (error : Int) (s i j : Nat) :
    Strtoll10Result :=
  let c := ucharDigit (str.getD s 0)
  if c > 9 then end3 negative error s i j
  else
    let k := c.toNat
    let s := s + 1
    if s = str.length then end4 negative error s i j k
    else
      let c := ucharDigit (str.getD s 0)
      if c > 9 then end4 negative error s i j k
      else
        let k := k * 10 + c.toNat
        -- `*endptr= (char*) ++s`; a further digit is an overflow
        let s := s + 1
        if s ≠ str.length ∧ ucharDigit (str.getD s 0) ≤ 9 then overflow negative s
        else
          let (cutoff, cutoff2, cutoff3) := cutoffs negative
          if i > cutoff ∨ (i = cutoff ∧ (j > cutoff2 ∨ (j = cutoff2 ∧ k > cutoff3))) then
            overflow negative s
          else ⟨toSigned 64 (toUnsigned 64 (i * lFactor2 + j * 100 + k)), s, error⟩

/-- From the byte after the ninth significant digit, which is not `end`: the next nine
    digits in `j` (the `do ... while` loop reads at least one byte). -/
def strtoll10J (str : List UInt8) (negative : Bool) (error : Int) (s i : Nat) :
    Strtoll10Result :=
  let start := s
  let trueEnd := s + initCnt
  let nEnd := min trueEnd str.length
  let (j, s) := digitRun str (nEnd - s) s 0
  if s ≠ nEnd then endIAndJ negative error s start i j
  else if s = str.length then
    if s ≠ trueEnd then endIAndJ negative error s start i j else end3 negative error s i j
  else strtoll10K str negative error s i j

/-- The loop over the first nine significant digits, from `s` with `i` read so far, up to
    `n_end`. -/
def strtoll10I (str : List UInt8) (negative : Bool) (error : Int) (s i nEnd : Nat) :
    Strtoll10Result :=
  let nEnd := min nEnd str.length
  let (i, s) := digitRun str (nEnd - s) s i
  if s ≠ nEnd ∨ s = str.length then endI negative error s i
  else strtoll10J str negative error s i

/-- After the sign, at a byte that is not `end`: the leading zeros, or the first digit. -/
def strtoll10Digits (str : List UInt8) (negative : Bool) (error : Int) (s : Nat) :
    Strtoll10Result :=
  if str.getD s 0 = '0'.toUInt8 then
    -- `do { if (++s == end) goto end_i; } while (*s == '0')`
    let s := s + ((str.drop s).takeWhile (· == '0'.toUInt8)).length
    if s = str.length then endI negative error s 0
    else strtoll10I str negative error s 0 (s + initCnt)
  else
    let c := ucharDigit (str.getD s 0)
    if c > 9 then noConv
    else strtoll10I str negative error (s + 1) c.toNat (s + 1 + initCnt - 1)

/-- `my_strtoll10(nptr, &endptr, &error)` with `endptr` pointing at the end of `str`. -/
def myStrtoll10 (str : List UInt8) : Strtoll10Result :=
  -- `for ( ; s < end && my_isspace(&my_charset_latin1, *s) ; ) s++`
  let s := (str.takeWhile myIsspace).length
  if s = str.length then noConv
  else if str.getD s 0 = '-'.toUInt8 then
    if s + 1 = str.length then noConv else strtoll10Digits str true (-1) (s + 1)
  else if str.getD s 0 = '+'.toUInt8 then
    if s + 1 = str.length then noConv else strtoll10Digits str false 0 (s + 1)
  else strtoll10Digits str false 0 s

/-! ## What the text means -/

/-- A decimal digit, `'0'..'9'`. -/
def isDigitByte (b : UInt8) : Bool := ucharDigit b ≤ 9

/-- The maximal run of digits from `s`. -/
def digitsAt (str : List UInt8) (s : Nat) : List UInt8 := (str.drop s).takeWhile isDigitByte

/-- The value of a run of digits. -/
def runValue (ds : List UInt8) : Nat := digitsVal 10 (ds.map fun b => (ucharDigit b).toNat)

/-- Where the digits start: after the leading spaces and one sign. -/
def digitStart (str : List UInt8) : Nat :=
  let p := (str.takeWhile myIsspace).length
  if str.getD p 0 = '-'.toUInt8 ∨ str.getD p 0 = '+'.toUInt8 then p + 1 else p

/-- The sign is `-`. -/
def isNegative (str : List UInt8) : Bool :=
  str.getD (str.takeWhile myIsspace).length 0 = '-'.toUInt8

/-- The largest magnitude the sign admits: `2^63` with `-`, `ULONGLONG_MAX` without. -/
def signBound (negative : Bool) : Nat := if negative then maxNegativeNumber else ulonglongMax

/-- What the result must be for a run of digits of value `v` ending at `e`: `-v`, or `v` as
    the bits of a `longlong`, when `v` is within the sign's bound; `LONGLONG_MIN` or
    `ULONGLONG_MAX` with `MY_ERRNO_ERANGE` otherwise. -/
def ReadsAs (negative : Bool) (error : Int) (e v : Nat) (r : Strtoll10Result) : Prop :=
  if v ≤ signBound negative then
    r = ⟨if negative then -(v : Int) else toSigned 64 v, e, error⟩
  else
    r.value = (if negative then longlongMin else toSigned 64 ulonglongMax) ∧
      r.error = myErrnoErange

/-- The reading of a text: no digits after the spaces and sign is `MY_ERRNO_EDOM`; digits are
    read as `ReadsAs` says, with `*error` `-1` after a `-` and `0` otherwise. -/
def Strtoll10Spec (str : List UInt8) (r : Strtoll10Result) : Prop :=
  if digitsAt str (digitStart str) = [] then r = ⟨0, 0, myErrnoEdom⟩
  else
    ReadsAs (isNegative str) (if isNegative str then -1 else 0)
      (digitStart str + (digitsAt str (digitStart str)).length)
      (runValue (digitsAt str (digitStart str))) r

/-! ## Digits -/

theorem toNat_ucharDigit (b : UInt8) : (ucharDigit b).toNat = (b.toNat + 208) % 256 := by
  have h48 : '0'.toUInt8.toNat = 48 := rfl
  rw [ucharDigit, UInt8.toNat_sub, h48]
  omega

theorem toNat_ucharDigit_lt {b : UInt8} (h : ucharDigit b ≤ 9) : (ucharDigit b).toNat < 10 := by
  rw [UInt8.le_iff_toNat_le] at h
  exact Nat.lt_succ_of_le h

theorem ucharDigit_eq_zero_iff (b : UInt8) : ucharDigit b = 0 ↔ b = '0'.toUInt8 := by
  rw [← UInt8.toNat_inj, toNat_ucharDigit, UInt8.toNat_zero, ← UInt8.toNat_inj]
  have := b.toNat_lt
  show _ ↔ b.toNat = 48
  omega

/-- The byte read at `end`, `str.getD end 0`, is no digit. -/
theorem lt_length_of_digit {str : List UInt8} {s : Nat} (h : ucharDigit (str.getD s 0) ≤ 9) :
    s < str.length := by
  by_contra hs
  rw [List.getD_eq_default _ _ (Nat.le_of_not_lt hs)] at h
  exact absurd h (by decide)

theorem getD_of_drop_eq_cons {str rest : List UInt8} {s : Nat} {b : UInt8}
    (h : str.drop s = b :: rest) : str.getD s 0 = b := by
  rw [List.getD_eq_getElem?_getD, ← List.head?_drop, h]
  rfl

theorem drop_succ_of_drop_eq_cons {str rest : List UInt8} {s : Nat} {b : UInt8}
    (h : str.drop s = b :: rest) : str.drop (s + 1) = rest := by
  rw [← List.drop_drop, h]
  rfl

theorem digitsAt_of_not_digit {str : List UInt8} {s : Nat} (h : ¬ ucharDigit (str.getD s 0) ≤ 9) :
    digitsAt str s = [] := by
  rw [digitsAt]
  cases hd : str.drop s with
  | nil => rfl
  | cons b rest =>
    rw [getD_of_drop_eq_cons hd] at h
    simp [isDigitByte, h]

theorem digitsAt_of_digit {str : List UInt8} {s : Nat} (h : ucharDigit (str.getD s 0) ≤ 9) :
    digitsAt str s = str.getD s 0 :: digitsAt str (s + 1) := by
  obtain ⟨b, rest, hd⟩ : ∃ b rest, str.drop s = b :: rest :=
    List.ne_nil_iff_exists_cons.mp (by simpa using lt_length_of_digit h)
  rw [getD_of_drop_eq_cons hd] at h ⊢
  rw [digitsAt, digitsAt, hd, drop_succ_of_drop_eq_cons hd]
  simp [isDigitByte, h]

theorem isDigitByte_of_mem_digitsAt {str : List UInt8} {s : Nat} {b : UInt8}
    (h : b ∈ digitsAt str s) : ucharDigit b ≤ 9 := by
  simpa [isDigitByte] using List.mem_takeWhile_imp h

/-- The run from `s + t` is the run from `s` less its first `t` digits. -/
theorem digitsAt_add (str : List UInt8) (s : Nat) :
    ∀ t ≤ (digitsAt str s).length, digitsAt str (s + t) = (digitsAt str s).drop t := by
  intro t
  induction t generalizing s with
  | zero => intro _; rfl
  | succ t ih =>
    intro ht
    have hd : ucharDigit (str.getD s 0) ≤ 9 := by
      by_contra hn
      rw [digitsAt_of_not_digit hn] at ht
      exact absurd ht (by simp)
    rw [digitsAt_of_digit hd, List.length_cons] at ht
    rw [show s + (t + 1) = s + 1 + t by omega, ih (s + 1) (by omega), digitsAt_of_digit hd,
      List.drop_succ_cons]

theorem add_length_digitsAt_le {str : List UInt8} {s : Nat} (hs : s ≤ str.length) :
    s + (digitsAt str s).length ≤ str.length := by
  have h := (List.takeWhile_prefix isDigitByte (l := str.drop s)).length_le
  rw [List.length_drop] at h
  rw [digitsAt]
  omega

/-- The byte after the run is no digit. -/
theorem not_digit_after_digitsAt (str : List UInt8) (s : Nat) :
    ¬ ucharDigit (str.getD (s + (digitsAt str s).length) 0) ≤ 9 := by
  intro h
  have h0 := digitsAt_add str s _ le_rfl
  rw [List.drop_length, digitsAt_of_digit h] at h0
  exact List.cons_ne_nil _ _ h0

/-- A byte inside the run is a digit. -/
theorem digit_of_lt_digitsAt {str : List UInt8} {s t : Nat} (ht : t < (digitsAt str s).length) :
    ucharDigit (str.getD (s + t) 0) ≤ 9 := by
  by_contra hn
  have h0 := digitsAt_add str s t ht.le
  rw [digitsAt_of_not_digit hn] at h0
  have := congrArg List.length h0
  simp at this
  omega

theorem runValue_cons (b : UInt8) (ds : List UInt8) :
    runValue (b :: ds) = (ucharDigit b).toNat * 10 ^ ds.length + runValue ds := by
  rw [runValue, List.map_cons, digitsVal_cons, List.length_map]
  rfl

theorem runValue_append (xs ys : List UInt8) :
    runValue (xs ++ ys) = runValue xs * 10 ^ ys.length + runValue ys := by
  rw [runValue, List.map_append, digitsVal_append, List.length_map]
  rfl

theorem runValue_lt {ds : List UInt8} (h : ∀ b ∈ ds, ucharDigit b ≤ 9) :
    runValue ds < 10 ^ ds.length := by
  have hd : DigitsLt 10 (ds.map fun b => (ucharDigit b).toNat) := fun d hd => by
    obtain ⟨b, hb, rfl⟩ := List.mem_map.mp hd
    exact toNat_ucharDigit_lt (h b hb)
  have hl := digitsVal_lt hd
  rwa [List.length_map] at hl

theorem runValue_digitsAt_lt (str : List UInt8) (s : Nat) :
    runValue (digitsAt str s) < 10 ^ (digitsAt str s).length :=
  runValue_lt fun _ hb => isDigitByte_of_mem_digitsAt hb

/-- A run led by a digit other than `0` is at least `10 ^ (length - 1)`. -/
theorem pow_le_runValue {b : UInt8} {ds : List UInt8} (hb : b ≠ '0'.toUInt8) :
    10 ^ ds.length ≤ runValue (b :: ds) := by
  have h1 : 1 ≤ (ucharDigit b).toNat := by
    have h0 : ucharDigit b ≠ 0 := fun h => hb ((ucharDigit_eq_zero_iff b).mp h)
    have : (ucharDigit b).toNat ≠ 0 := fun h => h0 (UInt8.toNat_inj.mp h)
    omega
  rw [runValue_cons]
  calc 10 ^ ds.length ≤ (ucharDigit b).toNat * 10 ^ ds.length := Nat.le_mul_of_pos_left _ h1
    _ ≤ _ := Nat.le_add_right _ _

/-- A digit loop reads the first digits of the run from `s`, as many as it may. -/
theorem digitRun_eq (str : List UInt8) (n s acc : Nat) :
    digitRun str n s acc =
      (acc * 10 ^ min n (digitsAt str s).length + runValue ((digitsAt str s).take n),
        s + min n (digitsAt str s).length) := by
  induction n generalizing s acc with
  | zero => simp [digitRun, runValue]
  | succ n ih =>
    by_cases hc : ucharDigit (str.getD s 0) ≤ 9
    · -- a digit: one more turn, with the run from the next byte
      rw [digitRun, if_neg (show ¬ ucharDigit (str.getD s 0) > 9 from UInt8.not_lt.mpr hc), ih, digitsAt_of_digit hc, List.take_succ_cons,
        runValue_cons, List.length_cons, List.length_take]
      have hm : min (n + 1) ((digitsAt str (s + 1)).length + 1) =
          min n (digitsAt str (s + 1)).length + 1 := by omega
      rw [hm, Nat.pow_succ]
      refine Prod.ext ?_ (by simp only; omega)
      simp only
      ring
    · rw [digitRun, if_pos (show ucharDigit (str.getD s 0) > 9 from UInt8.not_le.mp hc),
        digitsAt_of_not_digit hc]
      simp [runValue]

/-! ## The exits -/

section Exits

variable {negative : Bool} {error : Int}

@[simp] theorem signBound_true : signBound true = maxNegativeNumber := rfl

@[simp] theorem signBound_false : signBound false = ulonglongMax := rfl

theorem two_pow_le_signBound (negative : Bool) : 2 ^ 63 ≤ signBound negative := by
  cases negative <;> decide

theorem readsAs_neg {e v : Nat} (hv : v ≤ maxNegativeNumber) :
    ReadsAs true error e v ⟨-(v : Int), e, error⟩ := by
  simp [ReadsAs, hv]

theorem readsAs_pos {e v : Nat} (hv : v ≤ ulonglongMax) :
    ReadsAs false error e v ⟨toSigned 64 v, e, error⟩ := by
  simp [ReadsAs, hv]

theorem readsAs_overflow {e v s : Nat} (hv : signBound negative < v) :
    ReadsAs negative error e v (overflow negative s) := by
  rw [ReadsAs, if_neg (Nat.not_le.mpr hv)]
  exact ⟨rfl, rfl⟩

/-- A value below `2^63` is its own `longlong`, and `-v` when negative. -/
theorem readsAs_of_lt {e v : Nat} (hv : v < 2 ^ 63) :
    ReadsAs negative error e v ⟨if negative then -(v : Int) else v, e, error⟩ := by
  cases negative with
  | true => exact readsAs_neg (by rw [maxNegativeNumber]; omega)
  | false =>
    have h : ReadsAs false error e v _ := readsAs_pos (by rw [ulonglongMax]; omega)
    rwa [toSigned_of_lt hv] at h

/-- A `ulonglong` sum below `2^63` cast to `longlong` is itself. -/
theorem toSigned_toUnsigned_of_lt {x : Int} {v : Nat} (hx : x = v) (hv : v < 2 ^ 63) :
    toSigned 64 (toUnsigned 64 x) = v := by
  rw [toUnsigned_of_eq_natCast hx (by omega), toSigned_of_lt hv]

theorem lfactor_getD {t : Nat} (ht : t < 9) : lfactor.getD t 0 = 10 ^ t := by
  have h : ∀ t < 9, lfactor.getD t 0 = 10 ^ t := by decide
  exact h t ht

theorem endI_readsAs {s i : Nat} (hi : i < 2 ^ 63) :
    ReadsAs negative error s i (endI negative error s i) :=
  readsAs_of_lt hi

theorem endIAndJ_readsAs {s start i j : Nat} (ht : s - start < 9)
    (hv : i * 10 ^ (s - start) + j < 2 ^ 63) :
    ReadsAs negative error s (i * 10 ^ (s - start) + j) (endIAndJ negative error s start i j) := by
  have hli : toSigned 64 (toUnsigned 64 (i * lfactor.getD (s - start) 0 + j)) =
      ((i * 10 ^ (s - start) + j : Nat) : Int) :=
    toSigned_toUnsigned_of_lt (by rw [lfactor_getD ht]; push_cast; ring) hv
  rw [endIAndJ, hli]
  exact readsAs_of_lt hv

theorem end3_readsAs {s i j : Nat} (hv : i * lFactor + j < 2 ^ 63) :
    ReadsAs negative error s (i * lFactor + j) (end3 negative error s i j) := by
  have hli : toSigned 64 (toUnsigned 64 (i * lFactor + j)) = ((i * lFactor + j : Nat) : Int) :=
    toSigned_toUnsigned_of_lt (by push_cast; ring) hv
  rw [end3, hli]
  exact readsAs_of_lt hv

/-- `end4:` tests a negative value against `MAX_NEGATIVE_NUMBER` itself. -/
theorem end4_readsAs {s i j k : Nat} (hv : i * lFactor1 + j * 10 + k < 2 ^ 64) :
    ReadsAs negative error s (i * lFactor1 + j * 10 + k) (end4 negative error s i j k) := by
  have hli : toUnsigned 64 (i * lFactor1 + j * 10 + k) = i * lFactor1 + j * 10 + k :=
    toUnsigned_of_eq_natCast (by push_cast; ring) hv
  rw [end4, hli]
  cases negative with
  | true =>
    simp only [if_true]
    by_cases hgt : i * lFactor1 + j * 10 + k > maxNegativeNumber
    · rw [if_pos hgt]
      exact readsAs_overflow hgt
    · rw [if_neg hgt]
      by_cases heq : i * lFactor1 + j * 10 + k = maxNegativeNumber
      · -- `LONGLONG_MIN` is `-MAX_NEGATIVE_NUMBER`
        have hmin : longlongMin = -((i * lFactor1 + j * 10 + k : Nat) : Int) := by
          rw [heq, longlongMin, maxNegativeNumber]
          norm_num
        rw [if_pos heq, hmin]
        exact readsAs_neg (le_of_eq heq)
      · have hlt : i * lFactor1 + j * 10 + k < 2 ^ 63 := by
          rw [maxNegativeNumber] at hgt heq
          omega
        rw [if_neg heq, toSigned_of_lt hlt]
        exact readsAs_neg (Nat.le_of_not_gt hgt)
  | false => exact readsAs_pos (by rw [ulonglongMax]; omega)

/-- The cutoff test on `(i, j, k)` is the comparison of `i * 10^11 + j * 100 + k` with the
    sign's bound, lexicographically on the three parts. -/
theorem cutoff_test_iff {i j k : Nat} (hj : j < 10 ^ 9) (hk : k < 100) :
    (i > (cutoffs negative).1 ∨ (i = (cutoffs negative).1 ∧
        (j > (cutoffs negative).2.1 ∨ (j = (cutoffs negative).2.1 ∧ k > (cutoffs negative).2.2)))) ↔
      signBound negative < i * lFactor2 + j * 100 + k := by
  cases negative <;>
    simp only [cutoffs, signBound, maxNegativeNumber, ulonglongMax, lFactor2, if_true,
      Bool.false_eq_true] <;>
    norm_num <;>
    omega

end Exits

/-! ## The stretches of digits -/

section Stretches

variable {str : List UInt8} {negative : Bool} {error : Int}

theorem digitsAt_of_length_le {s : Nat} (hs : str.length ≤ s) : digitsAt str s = [] := by
  rw [digitsAt, List.drop_eq_nil_of_le hs]
  rfl

/-- The run ends at `s` when `s` is `end` or holds no digit. -/
theorem digitsAt_eq_nil {s : Nat}
    (h : ¬ (s ≠ str.length ∧ ucharDigit (str.getD s 0) ≤ 9)) : digitsAt str s = [] := by
  by_cases he : s = str.length
  · exact digitsAt_of_length_le he.ge
  · exact digitsAt_of_not_digit fun hd => h ⟨he, hd⟩

theorem signBound_lt {v : Nat} (hv : 10 ^ 20 ≤ v) : signBound negative < v := by
  cases negative <;> simp only [signBound_true, signBound_false, maxNegativeNumber,
    ulonglongMax] <;> omega

/-- From the nineteenth significant digit: `end3` when there is none, `end4` for one, the
    cutoff test for two, and an overflow for more. -/
theorem strtoll10K_readsAs {s i j : Nat} (hi8 : 10 ^ 8 ≤ i)
    (hi : i < 10 ^ 9) (hj : j < 10 ^ 9) :
    ReadsAs negative error (s + (digitsAt str s).length)
      ((i * lFactor + j) * 10 ^ (digitsAt str s).length + runValue (digitsAt str s))
      (strtoll10K str negative error s i j) := by
  have hij : i * lFactor + j < 10 ^ 18 := by rw [lFactor]; omega
  by_cases h1 : ucharDigit (str.getD s 0) ≤ 9
  swap
  · -- no nineteenth digit: `end3`
    rw [digitsAt_of_not_digit h1]
    simp only [strtoll10K, if_pos (UInt8.not_le.mp h1)]
    simpa [runValue] using end3_readsAs (by omega)
  have hs := lt_length_of_digit h1
  have hd1 := toNat_ucharDigit_lt h1
  simp only [strtoll10K, if_neg (UInt8.not_lt.mpr h1)]
  rw [digitsAt_of_digit h1]
  by_cases h2 : s + 1 ≠ str.length ∧ ucharDigit (str.getD (s + 1) 0) ≤ 9
  swap
  · -- one more digit: `end4`
    have hnil := digitsAt_eq_nil h2
    have hk : (i * lFactor + j) * 10 ^ 1 + (ucharDigit (str.getD s 0)).toNat =
        i * lFactor1 + j * 10 + (ucharDigit (str.getD s 0)).toNat := by
      rw [lFactor, lFactor1]; ring
    rw [hnil, List.length_singleton, runValue_cons, List.length_nil, pow_zero, mul_one,
      runValue, List.map_nil, digitsVal_nil, add_zero, hk]
    have hr : ReadsAs negative error (s + 1)
        (i * lFactor1 + j * 10 + (ucharDigit (str.getD s 0)).toNat) _ :=
      end4_readsAs (by rw [lFactor1]; omega)
    by_cases he : s + 1 = str.length
    · rwa [if_pos he]
    · rw [if_neg he, if_pos (UInt8.not_le.mp (fun h => h2 ⟨he, h⟩))]
      exact hr
  -- a twentieth digit
  have hd2 := toNat_ucharDigit_lt h2.2
  have hs2 := lt_length_of_digit h2.2
  rw [if_neg h2.1, if_neg (UInt8.not_lt.mpr h2.2), digitsAt_of_digit h2.2]
  by_cases h3 : s + 1 + 1 ≠ str.length ∧ ucharDigit (str.getD (s + 1 + 1) 0) ≤ 9
  · -- a twenty-first digit: the value is at least `10^20`
    rw [if_pos h3]
    refine readsAs_overflow (signBound_lt ?_)
    have hlen : 3 ≤ (str.getD s 0 :: str.getD (s + 1) 0 :: digitsAt str (s + 1 + 1)).length := by
      rw [digitsAt_of_digit h3.2]
      simp
    calc 10 ^ 20 = 10 ^ 17 * 10 ^ 3 := by norm_num
      _ ≤ (i * lFactor + j) * 10 ^ (str.getD s 0 :: str.getD (s + 1) 0 ::
            digitsAt str (s + 1 + 1)).length :=
          Nat.mul_le_mul (by rw [lFactor]; omega) (Nat.pow_le_pow_right (by decide) hlen)
      _ ≤ _ := Nat.le_add_right _ _
  -- exactly twenty digits: the cutoff test decides
  rw [if_neg h3, digitsAt_eq_nil h3]
  have hv : (i * lFactor + j) * 10 ^ [str.getD s 0, str.getD (s + 1) 0].length +
      runValue [str.getD s 0, str.getD (s + 1) 0] =
      i * lFactor2 + j * 100 +
        ((ucharDigit (str.getD s 0)).toNat * 10 + (ucharDigit (str.getD (s + 1) 0)).toNat) := by
    rw [runValue_cons, runValue_cons]
    simp only [List.length_cons, List.length_nil, runValue, List.map_nil, digitsVal_nil,
      lFactor, lFactor2]
    ring
  rw [show s + ([str.getD s 0, str.getD (s + 1) 0]).length = s + 1 + 1 by simp, hv]
  rcases hc : cutoffs negative with ⟨c1, c2, c3⟩
  have htest : (_ ∨ _) ↔ signBound negative < i * lFactor2 + j * 100 +
      ((ucharDigit (str.getD s 0)).toNat * 10 + (ucharDigit (str.getD (s + 1) 0)).toNat) :=
    cutoff_test_iff hj (by omega)
  rw [hc] at htest
  simp only [] at htest ⊢
  by_cases hover : signBound negative < i * lFactor2 + j * 100 +
      ((ucharDigit (str.getD s 0)).toNat * 10 + (ucharDigit (str.getD (s + 1) 0)).toNat)
  · rw [if_pos (htest.mpr hover)]
    exact readsAs_overflow hover
  · rw [if_neg (fun h => hover (htest.mp h))]
    cases negative with
    | true =>
      -- twenty digits led by `i >= 10^8` are above `2^63`: never reached with a `-`
      exfalso
      apply hover
      rw [signBound_true, maxNegativeNumber, lFactor2]
      omega
    | false =>
      have hle : i * lFactor2 + j * 100 +
          ((ucharDigit (str.getD s 0)).toNat * 10 + (ucharDigit (str.getD (s + 1) 0)).toNat) <
          2 ^ 64 := by
        rw [signBound_false, ulonglongMax] at hover
        omega
      rw [toUnsigned_of_eq_natCast (by push_cast; ring) hle]
      exact readsAs_pos (Nat.le_of_not_gt hover)

/-- A run read in two parts, as `i` and `j` hold it. -/
theorem runValue_take_drop (ds : List UInt8) (n : Nat) :
    runValue ds = runValue (ds.take n) * 10 ^ (ds.length - n) + runValue (ds.drop n) := by
  conv_lhs => rw [← List.take_append_drop n ds]
  rw [runValue_append, List.length_drop]

theorem runValue_take_lt (ds : List UInt8) (h : ∀ b ∈ ds, ucharDigit b ≤ 9) (n : Nat) :
    runValue (ds.take n) < 10 ^ n := by
  have h1 : runValue (ds.take n) < 10 ^ (ds.take n).length :=
    runValue_lt fun b hb => h b (List.mem_of_mem_take hb)
  exact lt_of_lt_of_le h1 (Nat.pow_le_pow_right (by decide) (List.length_take_le _ _))

/-- From the tenth significant digit, at `s`, with `i` holding the first nine:
    `end_i_and_j` for fewer than nine more, `end3` for exactly nine up to `end`, and the
    stretch of `k` after nine more. -/
theorem strtoll10J_readsAs {s i : Nat} (hs : s < str.length) (hi8 : 10 ^ 8 ≤ i)
    (hi : i < 10 ^ 9) :
    ReadsAs negative error (s + (digitsAt str s).length)
      (i * 10 ^ (digitsAt str s).length + runValue (digitsAt str s))
      (strtoll10J str negative error s i) := by
  have hL := add_length_digitsAt_le hs.le
  have hdig : ∀ b ∈ digitsAt str s, ucharDigit b ≤ 9 := fun _ hb => isDigitByte_of_mem_digitsAt hb
  have hrv := runValue_digitsAt_lt str s
  simp only [strtoll10J, initCnt, digitRun_eq, zero_mul, zero_add]
  rcases Nat.lt_or_ge (digitsAt str s).length 9 with h9 | h9
  · -- fewer than nine more digits: `end_i_and_j` with `s - start` of them
    have hmin : min (min (s + 9) str.length - s) (digitsAt str s).length =
        (digitsAt str s).length := by omega
    rw [hmin, List.take_of_length_le (by omega)]
    have hv : i * 10 ^ (s + (digitsAt str s).length - s) + runValue (digitsAt str s) < 2 ^ 63 := by
      rw [Nat.add_sub_cancel_left]
      have hpow : 10 ^ (digitsAt str s).length ≤ 10 ^ 8 := Nat.pow_le_pow_right (by decide) (by omega)
      calc i * 10 ^ (digitsAt str s).length + runValue (digitsAt str s)
          < (i + 1) * 10 ^ (digitsAt str s).length := by rw [Nat.succ_mul]; omega
        _ ≤ 10 ^ 9 * 10 ^ 8 := Nat.mul_le_mul (by omega) hpow
        _ < 2 ^ 63 := by norm_num
    have h : ReadsAs negative error (s + (digitsAt str s).length)
        (i * 10 ^ (s + (digitsAt str s).length - s) + runValue (digitsAt str s))
        (endIAndJ negative error (s + (digitsAt str s).length) s i (runValue (digitsAt str s))) :=
      endIAndJ_readsAs (by omega) hv
    rw [Nat.add_sub_cancel_left] at h
    by_cases hne : s + (digitsAt str s).length ≠ min (s + 9) str.length
    · rw [if_pos hne]
      exact h
    · -- the loop reached `n_end`, which is `end`, before `true_end`
      rw [if_neg hne, if_pos (by omega), if_pos (by omega)]
      exact h
  · -- nine more digits in `j`
    have hnEnd : min (s + 9) str.length = s + 9 := by omega
    rw [hnEnd, Nat.add_sub_cancel_left, Nat.min_eq_left h9, if_neg (fun h => h rfl)]
    have hj := runValue_take_lt _ hdig 9
    by_cases hend : s + 9 = str.length
    · -- and `end`: `end3`
      have hL9 : (digitsAt str s).length = 9 := by omega
      rw [if_pos hend, if_neg (fun h => h rfl), List.take_of_length_le hL9.le, hL9]
      have h : ReadsAs negative error (s + 9) (i * lFactor + runValue (digitsAt str s)) _ :=
        end3_readsAs (by rw [lFactor]; rw [List.take_of_length_le hL9.le] at hj; omega)
      exact h
    · rw [if_neg hend]
      have hK : ReadsAs negative error (s + 9 + (digitsAt str (s + 9)).length)
          ((i * lFactor + runValue ((digitsAt str s).take 9)) * 10 ^ (digitsAt str (s + 9)).length +
            runValue (digitsAt str (s + 9)))
          (strtoll10K str negative error (s + 9) i (runValue ((digitsAt str s).take 9))) :=
        strtoll10K_readsAs hi8 hi hj
      have hval : (i * lFactor + runValue ((digitsAt str s).take 9)) *
            10 ^ ((digitsAt str s).length - 9) + runValue ((digitsAt str s).drop 9) =
          i * 10 ^ (digitsAt str s).length + runValue (digitsAt str s) := by
        have hpow : 10 ^ (digitsAt str s).length = 10 ^ 9 * 10 ^ ((digitsAt str s).length - 9) := by
          rw [← pow_add, Nat.add_sub_cancel' h9]
        rw [runValue_take_drop (digitsAt str s) 9, hpow, lFactor]
        ring
      rw [digitsAt_add str s 9 h9, List.length_drop, hval,
        show s + 9 + ((digitsAt str s).length - 9) = s + (digitsAt str s).length by omega] at hK
      exact hK

/-- From the first significant digit, at `s`, a byte other than `0`: `end_i` for up to nine
    digits, then the stretch of `j`, whose `i` is at least `10^8`. -/
theorem strtoll10I_readsAs {s : Nat} (hs : s ≤ str.length) (hlead : str.getD s 0 ≠ '0'.toUInt8) :
    ReadsAs negative error (s + (digitsAt str s).length) (runValue (digitsAt str s))
      (strtoll10I str negative error s 0 (s + initCnt)) := by
  have hL := add_length_digitsAt_le hs
  have hdig : ∀ b ∈ digitsAt str s, ucharDigit b ≤ 9 := fun _ hb => isDigitByte_of_mem_digitsAt hb
  have hrv := runValue_digitsAt_lt str s
  simp only [strtoll10I, initCnt, digitRun_eq, zero_mul, zero_add]
  rcases Nat.lt_or_ge (digitsAt str s).length 9 with h9 | h9
  · -- at most eight digits: `end_i`
    have hmin : min (min (s + 9) str.length - s) (digitsAt str s).length =
        (digitsAt str s).length := by omega
    rw [hmin, List.take_of_length_le (by omega), if_pos (by omega)]
    have hpow : 10 ^ (digitsAt str s).length ≤ 10 ^ 8 := Nat.pow_le_pow_right (by decide) (by omega)
    exact endI_readsAs (by omega)
  have hnEnd : min (s + 9) str.length = s + 9 := by omega
  rw [hnEnd, Nat.add_sub_cancel_left, Nat.min_eq_left h9]
  by_cases hend : s + 9 = str.length
  · -- exactly nine digits up to `end`: `end_i`
    have hL9 : (digitsAt str s).length = 9 := by omega
    rw [if_pos (Or.inr hend), List.take_of_length_le hL9.le, hL9]
    rw [hL9] at hrv
    exact endI_readsAs (by omega)
  · rw [if_neg (by omega)]
    -- the first of nine digits is not `0`, so `i` has nine digits
    have hi8 : 10 ^ 8 ≤ runValue ((digitsAt str s).take 9) := by
      obtain ⟨b, rest, hD⟩ : ∃ b rest, digitsAt str s = b :: rest :=
        List.ne_nil_iff_exists_cons.mp (fun h => by rw [h] at h9; simp at h9)
      have hb : b = str.getD s 0 := by
        have hd0 : ucharDigit (str.getD (s + 0) 0) ≤ 9 := digit_of_lt_digitsAt (by omega)
        have h := digitsAt_of_digit hd0
        rw [Nat.add_zero, hD] at h
        exact (List.cons.inj h).1
      rw [hD, List.take_succ_cons]
      have hlen : (rest.take 8).length = 8 := by
        rw [List.length_take]
        rw [hD, List.length_cons] at h9
        omega
      calc 10 ^ 8 = 10 ^ (rest.take 8).length := by rw [hlen]
        _ ≤ runValue (b :: rest.take 8) := pow_le_runValue (hb ▸ hlead)
    have hJ : ReadsAs negative error (s + 9 + (digitsAt str (s + 9)).length)
        (runValue ((digitsAt str s).take 9) * 10 ^ (digitsAt str (s + 9)).length +
          runValue (digitsAt str (s + 9)))
        (strtoll10J str negative error (s + 9) (runValue ((digitsAt str s).take 9))) :=
      strtoll10J_readsAs (by omega) hi8 (runValue_take_lt _ hdig 9)
    rw [digitsAt_add str s 9 h9, List.length_drop, ← runValue_take_drop,
      show s + 9 + ((digitsAt str s).length - 9) = s + (digitsAt str s).length by omega] at hJ
    exact hJ

end Stretches

/-! ## Spaces, sign and leading zeros -/

section Entry

variable {str : List UInt8} {negative : Bool} {error : Int}

theorem drop_length_takeWhile {α : Type} (p : α → Bool) (l : List α) :
    l.drop (l.takeWhile p).length = l.dropWhile p := by
  induction l with
  | nil => rfl
  | cons a l ih =>
    cases h : p a
    · simp [h]
    · simp [h, ih]

/-- The bytes after the leading zeros of the bytes from `q`. -/
theorem drop_zeros (q : Nat) :
    str.drop (q + ((str.drop q).takeWhile (· == '0'.toUInt8)).length) =
      (str.drop q).dropWhile (· == '0'.toUInt8) := by
  rw [← List.drop_drop, drop_length_takeWhile]

/-- The run from `q` is its leading zeros and the run after them. -/
theorem digitsAt_eq_zeros_append (q : Nat) :
    digitsAt str q = (str.drop q).takeWhile (· == '0'.toUInt8) ++
      digitsAt str (q + ((str.drop q).takeWhile (· == '0'.toUInt8)).length) := by
  rw [digitsAt, digitsAt, drop_zeros]
  conv_lhs => rw [← List.takeWhile_append_dropWhile (p := (· == '0'.toUInt8)) (l := str.drop q)]
  refine List.takeWhile_append_of_pos fun b hb => ?_
  have h0 : b = '0'.toUInt8 := by simpa using List.mem_takeWhile_imp hb
  rw [h0]
  rfl

theorem runValue_zeros (q : Nat) :
    runValue ((str.drop q).takeWhile (· == '0'.toUInt8)) = 0 := by
  refine digitsVal_eq_zero_of_forall fun d hd => ?_
  obtain ⟨b, hb, rfl⟩ := List.mem_map.mp hd
  have h0 : b = '0'.toUInt8 := by simpa using List.mem_takeWhile_imp hb
  rw [h0]
  rfl

/-- The byte after the leading zeros, when it is not `end`, is not `0`. -/
theorem getD_ne_zero_after_zeros {q : Nat}
    (hlt : q + ((str.drop q).takeWhile (· == '0'.toUInt8)).length < str.length) :
    str.getD (q + ((str.drop q).takeWhile (· == '0'.toUInt8)).length) 0 ≠ '0'.toUInt8 := by
  have hne : (str.drop q).dropWhile (· == '0'.toUInt8) ≠ [] := by
    intro h
    have hl := congrArg List.length
      (List.takeWhile_append_dropWhile (p := (· == '0'.toUInt8)) (l := str.drop q))
    rw [h, List.append_nil, List.length_drop] at hl
    omega
  have hhead := List.head_dropWhile_not (· == '0'.toUInt8) hne
  have hget : str.getD (q + ((str.drop q).takeWhile (· == '0'.toUInt8)).length) 0 =
      ((str.drop q).dropWhile (· == '0'.toUInt8)).head hne := by
    rw [List.getD_eq_getElem?_getD, ← List.head?_drop, drop_zeros, List.head?_eq_some_head hne]
    rfl
  rw [hget]
  simpa using hhead

/-- Reading the first digit before the loop is the loop's first turn. -/
theorem strtoll10I_first_digit {q : Nat} (hq : q < str.length)
    (hd : ucharDigit (str.getD q 0) ≤ 9) :
    strtoll10I str negative error (q + 1) (ucharDigit (str.getD q 0)).toNat (q + 1 + initCnt - 1) =
      strtoll10I str negative error q 0 (q + initCnt) := by
  have hn : min (q + initCnt) str.length - q = (min (q + initCnt) str.length - (q + 1)) + 1 := by
    rw [initCnt]
    omega
  rw [strtoll10I, strtoll10I, show q + 1 + initCnt - 1 = q + initCnt by omega, hn, digitRun,
    if_neg (UInt8.not_lt.mpr hd), zero_mul, zero_add]

theorem strtoll10Digits_of_nil {q : Nat} (h : digitsAt str q = []) :
    strtoll10Digits str negative error q = noConv := by
  have hnd : ¬ ucharDigit (str.getD q 0) ≤ 9 := fun hd => by
    rw [digitsAt_of_digit hd] at h
    exact List.cons_ne_nil _ _ h
  have hz : str.getD q 0 ≠ '0'.toUInt8 := fun h0 => hnd (by rw [h0]; decide)
  rw [strtoll10Digits, if_neg hz]
  exact if_pos (UInt8.not_le.mp hnd)

theorem strtoll10Digits_readsAs {q : Nat} (hq : q < str.length) (h : digitsAt str q ≠ []) :
    ReadsAs negative error (q + (digitsAt str q).length) (runValue (digitsAt str q))
      (strtoll10Digits str negative error q) := by
  by_cases hz : str.getD q 0 = '0'.toUInt8
  · -- leading zeros, then the significant digits from `p0`
    rw [strtoll10Digits, if_pos hz]
    simp only []
    have hp0 := add_length_digitsAt_le (s := q) hq.le
    rw [digitsAt_eq_zeros_append q, runValue_append, runValue_zeros, zero_mul, zero_add,
      List.length_append, ← Nat.add_assoc]
    have hzl : q + ((str.drop q).takeWhile (· == '0'.toUInt8)).length ≤ str.length := by
      have := (List.takeWhile_prefix (· == '0'.toUInt8) (l := str.drop q)).length_le
      rw [List.length_drop] at this
      omega
    by_cases hend : q + ((str.drop q).takeWhile (· == '0'.toUInt8)).length = str.length
    · rw [if_pos hend, hend, digitsAt_of_length_le le_rfl]
      exact endI_readsAs (by decide)
    · rw [if_neg hend]
      exact strtoll10I_readsAs hzl (getD_ne_zero_after_zeros (by omega))
  · have hd : ucharDigit (str.getD q 0) ≤ 9 := by
      by_contra hnd
      exact h (digitsAt_of_not_digit hnd)
    rw [strtoll10Digits, if_neg hz, if_neg (UInt8.not_lt.mpr hd), strtoll10I_first_digit hq hd]
    exact strtoll10I_readsAs hq.le hz

end Entry

/-! ## `my_strtoll10` -/

theorem lt_length_of_digitsAt_ne_nil {str : List UInt8} {q : Nat} (h : digitsAt str q ≠ []) :
    q < str.length :=
  Nat.lt_of_not_le fun hq => h (digitsAt_of_length_le hq)

/-- After the spaces and the sign, at `q`, `my_strtoll10` goes on to `no_conv` at `end` and to
    the digits otherwise; that is the reading `Strtoll10Spec` asks for. -/
theorem strtoll10Spec_after_sign {str : List UInt8} {q : Nat} {negative : Bool} {error : Int}
    (hq : digitStart str = q) (hneg : isNegative str = negative)
    (herr : (if negative then -1 else 0) = error)
    (hr : myStrtoll10 str =
      if q = str.length then noConv else strtoll10Digits str negative error q) :
    Strtoll10Spec str (myStrtoll10 str) := by
  rw [Strtoll10Spec, hq]
  split
  · next h =>
    rw [hr]
    split
    · rfl
    · exact strtoll10Digits_of_nil h
  · next h =>
    rw [hr, if_neg (Nat.ne_of_lt (lt_length_of_digitsAt_ne_nil h)), hneg, herr]
    exact strtoll10Digits_readsAs (lt_length_of_digitsAt_ne_nil h) h

/-- `my_strtoll10` reads every byte string as `Strtoll10Spec` says: leading latin1 spaces, an
    optional sign and the maximal run of digits, with the value, `*endptr` and `*error` the
    sign and the value call for. -/
theorem my_strtoll10_reads_decimal (str : List UInt8) : Strtoll10Spec str (myStrtoll10 str) := by
  by_cases hend : (str.takeWhile myIsspace).length = str.length
  · -- only spaces: `no_conv`, and no digits
    have hc : str.getD (str.takeWhile myIsspace).length 0 = 0 := List.getD_eq_default _ _ hend.ge
    have hneg : isNegative str = false := by
      rw [isNegative, decide_eq_false_iff_not, hc]
      decide
    have hq : digitStart str = (str.takeWhile myIsspace).length := by
      rw [digitStart]
      simp only [hc]
      exact if_neg (by decide)
    refine strtoll10Spec_after_sign hq hneg (if_neg Bool.false_ne_true) ?_
    rw [myStrtoll10, if_pos hend, if_pos hend]
  by_cases hminus : str.getD (str.takeWhile myIsspace).length 0 = '-'.toUInt8
  · have hq : digitStart str = (str.takeWhile myIsspace).length + 1 := by
      rw [digitStart]
      exact if_pos (Or.inl hminus)
    have hneg : isNegative str = true := by
      rw [isNegative, decide_eq_true_iff]
      exact hminus
    refine strtoll10Spec_after_sign hq hneg (if_pos rfl) ?_
    rw [myStrtoll10]
    simp only [if_neg hend, if_pos hminus]
  have hneg : isNegative str = false := by
    rw [isNegative, decide_eq_false_iff_not]
    exact hminus
  by_cases hplus : str.getD (str.takeWhile myIsspace).length 0 = '+'.toUInt8
  · have hq : digitStart str = (str.takeWhile myIsspace).length + 1 := by
      rw [digitStart]
      exact if_pos (Or.inr hplus)
    refine strtoll10Spec_after_sign hq hneg (if_neg Bool.false_ne_true) ?_
    rw [myStrtoll10]
    simp only [if_neg hend, if_neg hminus, if_pos hplus]
  · have hq : digitStart str = (str.takeWhile myIsspace).length := by
      rw [digitStart]
      exact if_neg (by rintro (h | h) <;> contradiction)
    refine strtoll10Spec_after_sign hq hneg (if_neg Bool.false_ne_true) ?_
    rw [myStrtoll10]
    simp only [if_neg hend, if_neg hminus, if_neg hplus]

example : myStrtoll10 ("-9223372036854775808".toList.map Char.toUInt8) =
    ⟨-9223372036854775808, 20, -1⟩ := by decide

example : myStrtoll10 ("18446744073709551616".toList.map Char.toUInt8) = ⟨-1, 20, 34⟩ := by
  decide

end MariaDB.Strings
