import MariaDB.Lib.Radix
import MariaDB.Time.Basic
import MariaDB.Time.Calendar

/-
  The text parser of temporal values (`sql-common/my_time.c`): `str_to_datetime_or_date`,
  `str_to_datetime_or_date_or_time` and `str_to_DDhhmmssff`, with the helpers they call.

  Model. A `const char *str` walking to `end` is the list of the bytes from `str` to `end`;
  `str++` drops a byte, `*endptr= str` returns the rest, and a distance such as `str - start`
  is a difference of lengths. `get_digits` reads through the window `MY_MIN(end, str + length)`,
  the first `length` bytes. A field read through a `uint *` is a `Nat` below `2^32`: the digit
  loop of `get_number` computes in `uint` and wraps, and the hour, minute and second loop of
  `str_to_DDhhmmssff_internal` computes in `ulonglong` and wraps modulo `2^64`. The `||` chains
  of calls are `chainSteps`, which stops at the first step that reports an error. The
  character classes are those of `ctype_latin1` (`strings/ctype-latin1.c`), copied here.

  Each parser returns what the C function returns (`TRUE` on error) with what it writes
  through its pointers: the `MYSQL_TIME`, the `MYSQL_TIME_STATUS`, and where needed the number
  of fields and the rest of the input at `*endptr`.
-/

namespace MariaDB.Time

/-! ## Character classes -/

/-- `ctype_latin1`: the character classes of `latin1`; `m_ctype + 1` is indexed by the byte. -/
def ctypeLatin1 : List Nat :=
  [0, 32, 32, 32, 32, 32, 32, 32, 32, 32, 40, 40, 40, 40, 40, 32,
    32, 32, 32, 32, 32, 32, 32, 32, 32, 32, 32, 32, 32, 32, 32, 32,
    32, 72, 16, 16, 16, 16, 16, 16, 16, 16, 16, 16, 16, 16, 16, 16,
    16, 132, 132, 132, 132, 132, 132, 132, 132, 132, 132, 16, 16, 16, 16, 16,
    16, 16, 129, 129, 129, 129, 129, 129, 1, 1, 1, 1, 1, 1, 1, 1,
    1, 1, 1, 1, 1, 1, 1, 1, 1, 1, 1, 1, 16, 16, 16, 16,
    16, 16, 130, 130, 130, 130, 130, 130, 2, 2, 2, 2, 2, 2, 2, 2,
    2, 2, 2, 2, 2, 2, 2, 2, 2, 2, 2, 2, 16, 16, 16, 16,
    32, 16, 0, 16, 2, 16, 16, 16, 16, 16, 16, 1, 16, 1, 0, 1,
    0, 0, 16, 16, 16, 16, 16, 16, 16, 16, 16, 2, 16, 2, 0, 2,
    1, 72, 16, 16, 16, 16, 16, 16, 16, 16, 16, 16, 16, 16, 16, 16,
    16, 16, 16, 16, 16, 16, 16, 16, 16, 16, 16, 16, 16, 16, 16, 16,
    16, 1, 1, 1, 1, 1, 1, 1, 1, 1, 1, 1, 1, 1, 1, 1,
    1, 1, 1, 1, 1, 1, 1, 1, 16, 1, 1, 1, 1, 1, 1, 1,
    2, 2, 2, 2, 2, 2, 2, 2, 2, 2, 2, 2, 2, 2, 2, 2,
    2, 2, 2, 2, 2, 2, 2, 2, 16, 2, 2, 2, 2, 2, 2, 2,
    2]

/-- `my_isdigit(&my_charset_latin1, c)`: the bit `_MY_NMR` (4). -/
def myIsdigit (c : UInt8) : Bool := ctypeLatin1.getD (c.toNat + 1) 0 &&& 4 != 0

/-- `my_isspace(&my_charset_latin1, c)`: the bit `_MY_SPC` (8). -/
def myIsspace (c : UInt8) : Bool := ctypeLatin1.getD (c.toNat + 1) 0 &&& 8 != 0

/-- `my_ispunct(&my_charset_latin1, c)`: the bit `_MY_PNT` (16). -/
def myIspunct (c : UInt8) : Bool := ctypeLatin1.getD (c.toNat + 1) 0 &&& 16 != 0

/-- `*s - '0'`. -/
def digitOf (c : UInt8) : Nat := c.toNat - '0'.toNat

/-! ## Status -/

def mysqlTimeWarnTruncated : Nat := 1
def mysqlTimeWarnOutOfRange : Nat := 2
def mysqlTimeWarnEdom : Nat := 4
def mysqlTimeWarnZeroDate : Nat := 8
def mysqlTimeNoteTruncated : Nat := 16

/-- `C_TIME_NO_ZERO_IN_DATE`, `C_TIME_NO_ZERO_DATE`, `C_TIME_INVALID_DATES`. -/
def cTimeNoZeroInDate : Nat := 1 <<< 23
def cTimeNoZeroDate : Nat := 1 <<< 24
def cTimeInvalidDates : Nat := 1 <<< 25

/-- `YY_PART_YEAR`: two-digit years below it are in the 2000s. -/
def yyPartYear : Nat := 70

/-- `UINT_MAX32`. -/
def uintMax32 : Nat := 4294967295

/-- `MYSQL_TIME_STATUS`. -/
structure TimeStatus where
  warnings : Nat
  precision : Nat
  nanoseconds : Nat
  deriving Repr, DecidableEq

/-- `my_time_status_init`. -/
def myTimeStatusInit : TimeStatus := ⟨0, 0, 0⟩

/-- `status->warnings|= w`. -/
def TimeStatus.warn (st : TimeStatus) (w : Nat) : TimeStatus := { st with warnings := st.warnings ||| w }

/-- `set_zero_time(tm, time_type)`. -/
def setZeroTime (timeType : TimestampType) : MysqlTime := ⟨0, 0, 0, 0, 0, 0, 0, false, timeType⟩

/-- `bzero(l_time, sizeof(*l_time))`: all zero, which for `time_type` is `MYSQL_TIMESTAMP_DATE`. -/
def bzeroTime : MysqlTime := setZeroTime .date

/-! ## Scanning helpers -/

/-- The loop of `get_number`: `*val= *val * 10 + *s - '0'` in `uint` while digits follow. -/
def getNumberLoop (val : Nat) : List UInt8 → Nat × List UInt8
  | c :: s => if myIsdigit c then getNumberLoop ((val * 10 + digitOf c) % 2 ^ 32) s else (val, c :: s)
  | [] => (val, [])

/-- `get_number(val, number_of_fields, str, end)`: the error flag, `*val`, `*number_of_fields`
and the rest. At the end nothing is read and it is no error. -/
def getNumber (val numberOfFields : Nat) : List UInt8 → Bool × Nat × Nat × List UInt8
  | [] => (false, val, numberOfFields, [])
  | c :: s =>
    if !myIsdigit c then (true, val, numberOfFields, c :: s)
    else
      let (v, s) := getNumberLoop (digitOf c) s
      (false, v, numberOfFields + 1, s)

/-- `get_digits`: `get_number` in the window of the first `length` bytes. -/
def getDigits (val numberOfFields : Nat) (str : List UInt8) (length : Nat) :
    Bool × Nat × Nat × List UInt8 :=
  let (e, v, n, s) := getNumber val numberOfFields (str.take length)
  (e, v, n, s ++ str.drop length)

/-- `get_punct`: skips one punctuation character; an error on anything else. -/
def getPunct : List UInt8 → Bool × List UInt8
  | [] => (false, [])
  | c :: s => if myIspunct c then (false, s) else (true, c :: s)

/-- `get_date_time_separator`: `T` (with something after it), a punctuation character when
`punct_is_date_time_separator`, or a run of spaces. Punctuation otherwise is a hard error that
also resets `*number_of_fields`. -/
def getDateTimeSeparator (numberOfFields : Nat) (punctIsDateTimeSeparator : Bool) :
    List UInt8 → Bool × Nat × List UInt8
  | [] => (false, numberOfFields, [])
  | c :: s =>
    if c = 'T'.toUInt8 then (s.isEmpty, numberOfFields, s)
    else if myIspunct c then
      if !punctIsDateTimeSeparator then (true, 0, c :: s) else (false, numberOfFields, s)
    else if !myIsspace c then (true, numberOfFields, c :: s)
    else (false, numberOfFields, s.dropWhile myIsspace)

/-- `get_maybe_T`. -/
def getMaybeT : List UInt8 → List UInt8
  | c :: s => if c = 'T'.toUInt8 then s else c :: s
  | [] => []

/-- `skip_digits`: the number of digits skipped and the rest. -/
def skipDigits (str : List UInt8) : Nat × List UInt8 :=
  ((str.takeWhile myIsdigit).length, str.dropWhile myIsdigit)

/-- `check_date`: `TRUE` for an invalid date, with `*was_cut`. -/
def checkDate (t : MysqlTime) (notZeroDate : Bool) (flags wasCut : Nat) : Bool × Nat :=
  if t.timeType = .time then (false, wasCut)
  else if notZeroDate then
    if (flags &&& cTimeNoZeroInDate ≠ 0 ∧ (t.month = 0 ∨ t.day = 0)) ∨ t.neg ∨
        (flags &&& cTimeInvalidDates = 0 ∧ t.month ≠ 0 ∧ t.day > daysInMonth.getD (t.month - 1) 0 ∧
          (t.month ≠ 2 ∨ calcDaysInYear t.year ≠ 366 ∨ t.day ≠ 29)) then (true, 2)
    else (false, wasCut)
  else if flags &&& cTimeNoZeroDate ≠ 0 then (true, wasCut ||| mysqlTimeWarnZeroDate)
  else (false, wasCut)

/-- `get_microseconds`: up to six digits after the `.`, scaled to microseconds; further digits
are skipped with a note, the first of them kept in `nanoseconds` for rounding. -/
def getMicroseconds (status : TimeStatus) (numberOfFields : Nat) (str : List UInt8) :
    Nat × TimeStatus × Nat × List UInt8 :=
  let (e, tmp, n, s) := getDigits 0 numberOfFields str 6
  let status := if e then status.warn mysqlTimeWarnTruncated else status
  let precision := str.length - s.length
  let status := { status with precision := precision }
  let val := if precision < 6 then tmp * 10 ^ (6 - precision) else tmp
  let status :=
    match s with
    | c :: _ => if myIsdigit c then { status with nanoseconds := 100 * digitOf c } else status
    | [] => status
  let (k, s) := skipDigits s
  let status := if k ≠ 0 then status.warn mysqlTimeNoteTruncated else status
  (val, status, n, s)

/-- `set_neg`: only a TIME value may be negative. -/
def setNeg (neg : Bool) (st : TimeStatus) (t : MysqlTime) : Bool × TimeStatus × MysqlTime :=
  let t := { t with neg := neg }
  if neg = true ∧ t.timeType ≠ .time then (true, st.warn mysqlTimeWarnOutOfRange, t)
  else (false, st, t)

/-- The loop of `get_suffix` over the last `length` bytes of `str`. -/
def getSuffixLoop (str : List UInt8) : Nat → Bool → Nat × Bool
  | 0, garbage => (0, garbage)
  | length + 1, garbage =>
    let ch := str.getD length 0
    if myIsdigit ch || myIspunct ch then (length + 1, garbage)
    else if myIsspace ch then getSuffixLoop str length garbage
    -- `T` has a meaning only after a digit
    else if ch = 'T'.toUInt8 ∧ length + 1 ≥ 2 ∧ myIsdigit (str.getD (length - 1) 0) then
      (length + 1, garbage)
    else getSuffixLoop str length true

/-- `get_suffix`: whether trailing garbage was removed, and the new length. -/
def getSuffix (str : List UInt8) : Bool × Nat :=
  let (n, garbage) := getSuffixLoop str str.length false
  (garbage, n)

/-- `get_sign`: `neg` and the rest. -/
def getSign : List UInt8 → Bool × List UInt8
  | [] => (false, [])
  | c :: s => if c = '-'.toUInt8 then (true, s) else if c = '+'.toUInt8 then (false, s) else (false, c :: s)

/-- `find_body`: the error flag, `neg`, the warnings and the body of the text. -/
def findBody (str : List UInt8) : Bool × Bool × Nat × List UInt8 :=
  let str := str.dropWhile myIsspace
  let (neg, str) := getSign str
  -- there can be a space after a sign again: '- 10:20:30'
  let str := str.dropWhile myIsspace
  let (garbage, length) := getSuffix str
  let warn := if garbage then mysqlTimeWarnTruncated else 0
  let body := str.take length
  match body with
  | c :: _ => if myIsdigit c then (false, neg, warn, body) else (true, neg, warn ||| mysqlTimeWarnEdom, body)
  | [] => (true, neg, warn ||| mysqlTimeWarnEdom, body)

/-! ## The date and datetime grammar -/

/-- A step of a `||` chain of calls. -/
def chainSteps {σ : Type} : List (σ → Bool × σ) → σ → Bool × σ
  | [], s => (false, s)
  | f :: fs, s =>
    let (e, s) := f s
    if e then (true, s) else chainSteps fs s

/-- The fields of `MYSQL_TIME` that the date parser reads through a `uint *`. -/
inductive DateField
  | year | month | day | hour | minute | second
  deriving Repr, DecidableEq

def DateField.get : DateField → MysqlTime → Nat
  | .year, t => t.year
  | .month, t => t.month
  | .day, t => t.day
  | .hour, t => t.hour
  | .minute, t => t.minute
  | .second, t => t.second

def DateField.set : DateField → MysqlTime → Nat → MysqlTime
  | .year, t, v => { t with year := v }
  | .month, t, v => { t with month := v }
  | .day, t, v => { t with day := v }
  | .hour, t, v => { t with hour := v }
  | .minute, t, v => { t with minute := v }
  | .second, t, v => { t with second := v }

/-- The state the date parser threads through its calls: the value, `*number_of_fields` and
the rest of the input. -/
structure DateScan where
  time : MysqlTime
  numberOfFields : Nat
  str : List UInt8

/-- `get_number(&l_time->f, number_of_fields, &str, end)`. -/
def numberStep (f : DateField) (sc : DateScan) : Bool × DateScan :=
  let (e, v, n, s) := getNumber (f.get sc.time) sc.numberOfFields sc.str
  (e, ⟨f.set sc.time v, n, s⟩)

/-- `get_digits(&l_time->f, number_of_fields, &str, end, length)`. -/
def digitsStep (f : DateField) (length : Nat) (sc : DateScan) : Bool × DateScan :=
  let (e, v, n, s) := getDigits (f.get sc.time) sc.numberOfFields sc.str length
  (e, ⟨f.set sc.time v, n, s⟩)

/-- `get_punct(&str, end)`. -/
def punctStep (sc : DateScan) : Bool × DateScan :=
  let (e, s) := getPunct sc.str
  (e, { sc with str := s })

/-- `get_date_time_separator(number_of_fields, punct_is_date_time_separator, &str, end)`. -/
def separatorStep (punctIsDateTimeSeparator : Bool) (sc : DateScan) : Bool × DateScan :=
  let (e, n, s) := getDateTimeSeparator sc.numberOfFields punctIsDateTimeSeparator sc.str
  (e, { sc with numberOfFields := n, str := s })

/-- `get_maybe_T(&str, end)`. -/
def maybeTStep (sc : DateScan) : Bool × DateScan := (false, { sc with str := getMaybeT sc.str })

/-- The numbers-only format `[YY]YYMMDD[T][hhmmss]`, with a year of `yearLength` digits. -/
def internalFormatSteps (yearLength : Nat) : List (DateScan → Bool × DateScan) :=
  [digitsStep .year yearLength, digitsStep .month 2, digitsStep .day 2, maybeTStep,
    digitsStep .hour 2, digitsStep .minute 2, digitsStep .second 2]

/-- The delimited format after the year: `-MM-DD hh:mm:ss` with any punctuation. -/
def delimitedSteps (punctIsDateTimeSeparator : Bool) : List (DateScan → Bool × DateScan) :=
  [punctStep, numberStep .month, punctStep, numberStep .day,
    separatorStep punctIsDateTimeSeparator, numberStep .hour, punctStep, numberStep .minute,
    punctStep, numberStep .second]

/-- What `str_to_datetime_or_date_body` returns: `TRUE` on error, the value, the status,
`*number_of_fields` and the rest of the input at `*endptr`. -/
structure BodyResult where
  ret : Bool
  time : MysqlTime
  status : TimeStatus
  numberOfFields : Nat
  endptr : List UInt8

/-- The fraction in `str_to_datetime_or_date_body`: when nothing was cut, a `.` and the
microseconds after the fields. -/
def dateFraction (warn : Nat) (status : TimeStatus) (sc : DateScan) :
    MysqlTime × TimeStatus × Nat × List UInt8 :=
  match sc.str with
  | c :: s =>
    if warn = 0 ∧ c = '.'.toUInt8 then
      let (sp, status, n, s) := getMicroseconds status sc.numberOfFields s
      ({ sc.time with secondPart := sp }, status, n, s)
    else (sc.time, status, sc.numberOfFields, sc.str)
  | [] => (sc.time, status, sc.numberOfFields, sc.str)

/-- `not_zero_date`: some field of the value is not zero. -/
def notZeroDate (t : MysqlTime) : Bool :=
  t.year ≠ 0 ∨ t.month ≠ 0 ∨ t.day ≠ 0 ∨ t.hour ≠ 0 ∨ t.minute ≠ 0 ∨ t.second ≠ 0 ∨ t.secondPart ≠ 0

/-- The end of `str_to_datetime_or_date_body`: the two-digit year, the range checks,
`check_date`, and the type by the number of fields. -/
def dateChecks (flags yearLength : Nat) (t : MysqlTime) (status : TimeStatus) (n : Nat)
    (str : List UInt8) : BodyResult :=
  let nz := notZeroDate t
  let t := if yearLength = 2 ∧ nz = true then
    { t with year := t.year + (if t.year < yyPartYear then 2000 else 1900) } else t
  if t.year > 9999 ∨ t.month > 12 ∨ t.day > 31 ∨ t.hour > 23 ∨ t.minute > 59 ∨ t.second > 59 then
    ⟨true, setZeroTime .error, status.warn mysqlTimeWarnTruncated, n, str⟩
  else
    let (bad, cut) := checkDate t nz flags status.warnings
    let status := { status with warnings := cut }
    if bad then ⟨true, setZeroTime .error, status, n, str⟩
    else
      let t := { t with timeType := if n ≤ 3 then .date else .datetime }
      let status := if str ≠ [] then { status with warnings := mysqlTimeWarnTruncated } else status
      ⟨false, t, status, n, str⟩

/-- `str_to_datetime_or_date_body` after the fields are read, with the warning `warn` of the
reading: fewer than three fields is no date at all. -/
def finishDateBody (flags : Nat) (yearLength : Nat) (warn : Nat) (status : TimeStatus)
    (sc : DateScan) : BodyResult :=
  let status := status.warn warn
  if sc.numberOfFields < 3 then
    ⟨true, { sc.time with timeType := .none }, status.warn mysqlTimeWarnTruncated,
      sc.numberOfFields, sc.str⟩
  else
    let (t, status, n, str) := dateFraction warn status sc
    dateChecks flags yearLength t status n str

/-- `str_to_datetime_or_date_body(str, length, l_time, flags, punct_is_date_time_separator,
status, number_of_fields, endptr)`. -/
def strToDatetimeOrDateBody (str : List UInt8) (flags : Nat) (punctIsDateTimeSeparator : Bool)
    (status : TimeStatus) : BodyResult :=
  -- the digits of the first part decide between the numbers-only and the delimited format
  let (digits, pos) := skipDigits str
  let (digits, pos) :=
    match pos with
    | c :: p => if c = 'T'.toUInt8 then ((skipDigits p).1 + digits, (skipDigits p).2) else (digits, c :: p)
    | [] => (digits, [])
  let pos :=
    match pos with
    | c :: p => if c = '.'.toUInt8 ∧ digits ≥ 12 then (skipDigits p).2 else c :: p
    | [] => []
  let sc : DateScan := ⟨bzeroTime, 0, str⟩
  if pos = [] then
    let yearLength := if digits = 4 ∨ digits = 8 ∨ digits ≥ 14 then 4 else 2
    let (e, sc) := chainSteps (internalFormatSteps yearLength) sc
    finishDateBody flags yearLength (if e then mysqlTimeWarnTruncated else 0) status sc
  else
    let (e, sc1) := numberStep .year sc
    let yearLength := str.length - sc1.str.length
    if e then finishDateBody flags yearLength mysqlTimeWarnTruncated status sc1
    else
      let (e, sc) := chainSteps (delimitedSteps punctIsDateTimeSeparator) sc1
      finishDateBody flags yearLength (if e then mysqlTimeWarnTruncated else 0) status sc

/-- `str_to_datetime_or_date(str, length, l_time, flags, status)`. -/
def strToDatetimeOrDate (str : List UInt8) (flags : Nat) : Bool × MysqlTime × TimeStatus :=
  let (bad, neg, warn, body) := findBody str
  if bad then (true, setZeroTime .error, { myTimeStatusInit with warnings := warn })
  else
    let r := strToDatetimeOrDateBody body flags true { myTimeStatusInit with warnings := warn }
    if r.ret then (true, r.time, r.status)
    else
      let (e, st, t) := setNeg neg r.status r.time
      (e, t, st)

/-! ## The time grammar -/

/-- `max_sec_part[]` of `check_time_range_internal`. -/
def maxSecPart : List Nat := [0, 900000, 990000, 999000, 999900, 999990, 999999]

/-- `check_time_range_internal(my_time, max_hour, err_hour, dec, warning)`: an error for a bad
minute or second or an hour above `err_hour`; a value above `max_hour` is cut to
`max_hour:59:59.999999` (for `dec` digits) with a warning. -/
def checkTimeRangeInternal (t : MysqlTime) (maxHour errHour dec warning : Nat) :
    Bool × MysqlTime × Nat :=
  if t.minute ≥ 60 ∨ t.second ≥ 60 ∨ t.hour > errHour then
    (true, t, warning ||| mysqlTimeWarnTruncated)
  else
    let hour := t.hour + 24 * t.day
    let dec := if dec = autoSecPartDigits then 6 else dec
    if hour ≤ maxHour ∧ (hour ≠ maxHour ∨ t.minute ≠ 59 ∨ t.second ≠ 59 ∨
        t.secondPart ≤ maxSecPart.getD dec 0) then (false, t, warning)
    else
      let cut : MysqlTime :=
        { t with
          day := 0
          hour := maxHour
          minute := 59
          second := 59
          secondPart := maxSecPart.getD dec 0 }
      (false, cut, warning ||| mysqlTimeWarnOutOfRange)

/-- The days loop of `str_to_DDhhmmssff_internal`, which stops with an error at the digit
that takes the value to `42949672955959` (`UINT_MAX32 : 59 : 59`); the error carries the rest
at that digit. -/
def ddDaysLoop (value : Nat) : List UInt8 → Except (List UInt8) (Nat × List UInt8)
  | c :: s =>
    if myIsdigit c then
      let value := value * 10 + digitOf c
      if value ≥ 42949672955959 then .error (c :: s) else ddDaysLoop value s
    else .ok (value, c :: s)
  | [] => .ok (value, [])

/-- The loop `for (value=0; ...) value=value*10L + (long) (*str - '0')` in `ulonglong`, with
no bound. -/
def ddValueLoop (value : Nat) : List UInt8 → Nat × List UInt8
  | c :: s => if myIsdigit c then ddValueLoop ((value * 10 + digitOf c) % 2 ^ 64) s else (value, c :: s)
  | [] => (value, [])

/-- The `for (;;)` loop that reads the hours, minutes and seconds into `date[state]` and on; it
runs at most `4 - state` times. -/
def ddHmsLoop : Nat → List Nat → Nat → List UInt8 → List Nat × Nat × List UInt8
  | 0, date, state, str => (date, state, str)
  | fuel + 1, date, state, str =>
    let (value, str) := ddValueLoop 0 str
    let date := date.set state value
    let state := state + 1
    if state = 4 ∨ str.length < 2 ∨ str.head? ≠ some ':'.toUInt8 ∨ !myIsdigit (str.getD 1 0) then
      (date, state, str)
    else ddHmsLoop fuel date state (str.drop 1)

/-- `internal_format_positions[7]`: 255, so no AM/PM is read. -/
def internalFormatPositions7 : Nat := 255

/-- What `str_to_DDhhmmssff_internal` returns: `TRUE` on error, the value, the status and the
rest of the input at `*endptr`. -/
structure DDResult where
  ret : Bool
  time : MysqlTime
  status : TimeStatus
  endptr : List UInt8

/-- The part of `str_to_DDhhmmssff_internal` from the label `fractional:` on. -/
def ddFractional (t : MysqlTime) (maxHour errHour : Nat) (status : TimeStatus) (date : List Nat)
    (str : List UInt8) : DDResult :=
  let (date4, status, str) :=
    match str with
    | c :: s =>
      if c = '.'.toUInt8 then
        let (v, status, _, s) := getMicroseconds status 0 s
        (v, status, s)
      else (0, status, str)
    | [] => (0, status, str)
  let date := date.set 4 date4
  -- an exponent part `E<digit>` or `E<sign><digit>` (from `%g` formatting) is an error
  let c0 := str.getD 0 0
  let c1 := str.getD 1 0
  if str.length > 1 ∧ (c0 = 'e'.toUInt8 ∨ c0 = 'E'.toUInt8) ∧
      (myIsdigit c1 = true ∨ ((c1 = '-'.toUInt8 ∨ c1 = '+'.toUInt8) ∧ str.length > 2 ∧
        myIsdigit (str.getD 2 0) = true)) then
    ⟨true, t, status.warn mysqlTimeWarnTruncated, str⟩
  else
    let (date, str) :=
      if internalFormatPositions7 ≠ 255 then
        let str := str.dropWhile myIsspace
        if str.length ≥ 2 ∧ (str.getD 1 0 = 'M'.toUInt8 ∨ str.getD 1 0 = 'm'.toUInt8) then
          if str.getD 0 0 = 'p'.toUInt8 ∨ str.getD 0 0 = 'P'.toUInt8 then
            (date.set 1 (date.getD 1 0 % 12 + 12), str.drop 2)
          else if str.getD 0 0 = 'a'.toUInt8 ∨ str.getD 0 0 = 'A'.toUInt8 then (date, str.drop 2)
          else (date, str)
        else (date, str)
      else (date, str)
    if date.any (· > uintMax32) then ⟨true, t, status.warn mysqlTimeWarnOutOfRange, str⟩
    else if date.getD 0 0 * 24 + date.getD 1 0 > uintMax32 then
      ⟨true, t, status.warn mysqlTimeWarnOutOfRange, str⟩
    else
      let t : MysqlTime :=
        { t with
          year := 0
          month := 0
          day := 0
          hour := date.getD 1 0 + date.getD 0 0 * 24
          minute := date.getD 2 0
          second := date.getD 3 0
          secondPart := date.getD 4 0
          timeType := .time }
      let (bad, t, w) := checkTimeRangeInternal t maxHour errHour 6 status.warnings
      let status := { status with warnings := w }
      if bad then ⟨true, t, status, str⟩
      else
        let status := if str ≠ [] then status.warn mysqlTimeWarnTruncated else status
        ⟨false, t, status, str⟩

/-- `str_to_DDhhmmssff_internal(neg, str, length, l_time, max_hour, err_hour, status, endptr)`:
`[DD ]hh:mm:ss.ffffff`, or one number read as `hhmmss`. -/
def strToDDhhmmssffInternal (neg : Bool) (str : List UInt8) (lTime : MysqlTime)
    (maxHour errHour : Nat) (status : TimeStatus) : DDResult :=
  let t := { lTime with neg := neg }
  match ddDaysLoop 0 str with
  | .error rest => ⟨true, t, status.warn mysqlTimeWarnOutOfRange, rest⟩
  | .ok (value, endOfDays) =>
    let str := endOfDays.dropWhile myIsspace
    let date : List Nat := [0, 0, 0, 0, 0]
    if str.length > 1 ∧ str.length ≠ endOfDays.length ∧ myIsdigit (str.getD 0 0) = true then
      -- found the days part; the hours come next
      let (date, state, str) := ddHmsLoop 3 (date.set 0 value) 1 str
      let date := if state ≠ 4 then
        (List.range 5).map fun i => if state ≤ i ∧ i < 4 then 0 else date.getD i 0 else date
      ddFractional t maxHour errHour status date str
    else if str.length > 1 ∧ str.getD 0 0 = ':'.toUInt8 ∧ myIsdigit (str.getD 1 0) = true then
      -- found the hours
      if value ≥ uintMax32 then ⟨true, t, status.warn mysqlTimeWarnOutOfRange, str⟩
      else
        let (date, state, str) := ddHmsLoop 2 ((date.set 0 0).set 1 value) 2 (str.drop 1)
        let date := if state ≠ 4 then
          (List.range 5).map fun i => if state ≤ i ∧ i < 4 then 0 else date.getD i 0 else date
        ddFractional t maxHour errHour status date str
    else
      -- one number: `hhmmss`
      ddFractional t maxHour errHour status [0, value / 10000, value / 100 % 100, value % 100, 0] str

/-! ## Telling the grammars apart -/

/-- `MYSQL_TIME_USED_CHAR_STATISTICS` of a text. -/
structure UsedCharStatistics where
  countPunct : Nat
  countColon : Nat
  countIsoDateTimeSeparator : Nat

/-- `mysql_time_used_char_statistics_init`. -/
def usedCharStatistics (str : List UInt8) : UsedCharStatistics :=
  ⟨(str.filter myIspunct).length, (str.filter (· = ':'.toUInt8)).length,
    (str.filter (· = 'T'.toUInt8)).length⟩

/-- The loop of `is_datetime_body_candidate` from position `pos` with `count_punct` so far. -/
def isDatetimeBodyCandidateLoop (allowDatesDelimited allowDatesNumeric : Bool) :
    List UInt8 → Nat → Bool
  | [], countPunct => allowDatesNumeric && countPunct == 0
  | c :: s, countPunct =>
    if c = 'T'.toUInt8 then true
    -- a space can separate a date from a time or days from hours
    else if c = ' '.toUInt8 then countPunct > 0
    else if myIspunct c then
      if allowDatesDelimited ∧ c ≠ ':'.toUInt8 then true
      else isDatetimeBodyCandidateLoop allowDatesDelimited allowDatesNumeric s (countPunct + 1)
    else isDatetimeBodyCandidateLoop allowDatesDelimited allowDatesNumeric s countPunct

/-- `is_datetime_body_candidate(str, length, allow_dates_delimited, allow_dates_numeric)`. -/
def isDatetimeBodyCandidate (str : List UInt8) (allowDatesDelimited allowDatesNumeric : Bool) : Bool :=
  let minDateLength := 5
  let dateTimeSeparatorLength := if allowDatesDelimited then 0 else 1
  if str.length ≥ 12 then true
  else if str.length < minDateLength + dateTimeSeparatorLength ∧ !allowDatesNumeric then false
  else isDatetimeBodyCandidateLoop allowDatesDelimited allowDatesNumeric str 0

/-- `str_to_datetime_or_date_or_time_body`: a text that may be a full timestamp is tried as a
date first; by the punctuation it used, the attempt is taken or the text is read as a time. -/
def strToDatetimeOrDateOrTimeBody (str : List UInt8) (lTime : MysqlTime) (fuzzydate : Nat)
    (status : TimeStatus) (timeMaxHour timeErrHour : Nat)
    (allowDatesDelimited allowDatesNumeric : Bool) : Bool × MysqlTime × TimeStatus :=
  let asTime (lTime : MysqlTime) (status : TimeStatus) : Bool × MysqlTime × TimeStatus :=
    let r := strToDDhhmmssffInternal false str lTime timeMaxHour timeErrHour status
    if !r.ret then (false, r.time, r.status) else (true, setZeroTime .error, r.status)
  if isDatetimeBodyCandidate str allowDatesDelimited allowDatesNumeric then
    let warnCopy := status.warnings
    let r := strToDatetimeOrDateBody str fuzzydate false status
    let used := usedCharStatistics (str.take (str.length - r.endptr.length))
    let retry := asTime r.time { myTimeStatusInit with warnings := warnCopy }
    match r.time.timeType with
    | .datetime => (false, r.time, r.status)
    | .date =>
      -- '24:02:03' is a time; '24-02-03' and '24:02:03T' are dates
      if used.countIsoDateTimeSeparator ≠ 0 ∨ used.countColon = 0 then (false, r.time, r.status)
      else retry
    | .error =>
      if r.numberOfFields > 3 then (true, r.time, r.status)
      else if used.countIsoDateTimeSeparator ≠ 0 ∨ used.countColon = 0 then (true, r.time, r.status)
      else retry
    | .none =>
      if allowDatesNumeric ∧ r.endptr = [] ∧ used.countIsoDateTimeSeparator = 0 ∧
          used.countColon = 0 ∧ used.countPunct = 0 then (true, r.time, r.status)
      else retry
    | .time => retry
  else asTime lTime status

/-- `str_to_datetime_or_date_or_time(str, length, to, mode, status, time_max_hour,
time_err_hour)`. -/
def strToDatetimeOrDateOrTime (str : List UInt8) (mode : Nat) (timeMaxHour timeErrHour : Nat) :
    Bool × MysqlTime × TimeStatus :=
  let (bad, neg, warn, body) := findBody str
  if bad then (true, setZeroTime .error, { myTimeStatusInit with warnings := warn })
  else
    let (e, t, st) := strToDatetimeOrDateOrTimeBody body bzeroTime mode
      { myTimeStatusInit with warnings := warn } timeMaxHour timeErrHour false false
    if e then (true, t, st)
    else
      let (e, st, t) := setNeg neg st t
      (e, t, st)

/-! ## What the scanners read -/

section Scanners

open MariaDB.Lib

/-- A run of digits: what `get_number` reads. -/
def DigitRun (cs : List UInt8) : Prop := cs ≠ [] ∧ ∀ c ∈ cs, myIsdigit c = true

/-- The value of a run of digits. -/
def runValue (cs : List UInt8) : Nat := digitsVal 10 (cs.map digitOf)

/-- The input does not go on with a digit: a run of digits ends there. -/
def NoDigitAhead (s : List UInt8) : Prop := ∀ c ∈ s.head?, myIsdigit c = false

theorem noDigitAhead_nil : NoDigitAhead [] := by
  simp [NoDigitAhead]

theorem noDigitAhead_cons {c : UInt8} (s : List UInt8) (hc : myIsdigit c = false) :
    NoDigitAhead (c :: s) := by
  simpa [NoDigitAhead] using hc

set_option maxRecDepth 4096 in
/-- A digit is none of the other characters the parsers test for, and its value is below 10. -/
theorem digit_table : ∀ n < 256, myIsdigit n.toUInt8 = true →
    myIspunct n.toUInt8 = false ∧ myIsspace n.toUInt8 = false ∧ n.toUInt8 ≠ 'T'.toUInt8 ∧
      digitOf n.toUInt8 < 10 := by
  decide

theorem digit_classes {c : UInt8} (h : myIsdigit c = true) :
    myIspunct c = false ∧ myIsspace c = false ∧ c ≠ 'T'.toUInt8 ∧ digitOf c < 10 := by
  simpa only [Nat.toUInt8_eq, UInt8.ofNat_toNat] using
    digit_table c.toNat c.toNat_lt (by simpa only [Nat.toUInt8_eq, UInt8.ofNat_toNat] using h)

/-- The separators of the printed forms. -/
theorem separator_classes :
    myIspunct '-'.toUInt8 = true ∧ myIspunct ':'.toUInt8 = true ∧ myIspunct '.'.toUInt8 = true ∧
      myIsdigit '-'.toUInt8 = false ∧ myIsdigit ':'.toUInt8 = false ∧
      myIsdigit '.'.toUInt8 = false ∧ myIsdigit ' '.toUInt8 = false ∧
      myIspunct ' '.toUInt8 = false ∧ myIsspace ' '.toUInt8 = true ∧
      myIsspace '-'.toUInt8 = false ∧ myIsspace ':'.toUInt8 = false := by
  decide

theorem mod_mul_add_mod (x p v m : Nat) : (x % m * p + v) % m = (x * p + v) % m := by
  rw [Nat.add_mod, Nat.mul_mod, Nat.mod_mod, ← Nat.mul_mod, ← Nat.add_mod]

/-- The loop of `get_number` over a run of digits: the value of the run after what was read,
modulo `2^32`. Induction on the run. -/
theorem getNumberLoop_digits {a : Nat} (ha : a < 2 ^ 32) {cs rest : List UInt8}
    (hcs : ∀ c ∈ cs, myIsdigit c = true) (hrest : NoDigitAhead rest) :
    getNumberLoop a (cs ++ rest) =
      ((a * 10 ^ cs.length + runValue cs) % 2 ^ 32, rest) := by
  induction cs generalizing a with
  | nil =>
    have hloop : getNumberLoop a rest = (a, rest) := by
      cases rest with
      | nil => rfl
      | cons c rest => simp [getNumberLoop, hrest c rfl]
    simp only [List.nil_append, hloop, List.length_nil, pow_zero, mul_one, runValue, List.map_nil,
      digitsVal_nil, add_zero, Nat.mod_eq_of_lt ha]
  | cons c cs ih =>
    have hc := hcs c (by simp)
    -- the reduction at each step is the reduction of the whole
    rw [List.cons_append, getNumberLoop, if_pos hc,
      ih (Nat.mod_lt _ (by norm_num)) (fun x hx => hcs x (by simp [hx])), mod_mul_add_mod]
    simp only [runValue, List.map_cons, digitsVal_cons, List.length_map, List.length_cons,
      pow_succ]
    congr 2
    ring

/-- `get_number` on a run of digits: its value modulo `2^32`, and one more field. -/
theorem getNumber_digits (val numberOfFields : Nat) {cs rest : List UInt8} (hcs : DigitRun cs)
    (hrest : NoDigitAhead rest) :
    getNumber val numberOfFields (cs ++ rest) =
      (false, runValue cs % 2 ^ 32, numberOfFields + 1, rest) := by
  obtain ⟨hne, hd⟩ := hcs
  obtain ⟨c, cs, rfl⟩ := List.exists_cons_of_ne_nil hne
  have hc := hd c (by simp)
  have hc10 := (digit_classes hc).2.2.2
  rw [List.cons_append, getNumber, if_neg (by simp [hc]),
    getNumberLoop_digits (by omega) (fun x hx => hd x (by simp [hx])) hrest]
  simp [runValue, digitsVal_cons]

/-- A day written with ten digits is read modulo `2^32`: `2001-01-4294967297` is accepted as
the date 2001-01-01, with no warning, though its day is the number 4294967297. -/
theorem str_to_datetime_or_date_wraps_day :
    strToDatetimeOrDate ("2001-01-4294967297".toList.map Char.toUInt8) 0 =
        (false, ⟨2001, 1, 1, 0, 0, 0, 0, false, .date⟩, myTimeStatusInit) ∧
      runValue ("4294967297".toList.map Char.toUInt8) = 4294967297 := by
  decide

/-- `skip_digits` on a run of digits. -/
theorem skipDigits_digits {cs rest : List UInt8} (hcs : ∀ c ∈ cs, myIsdigit c = true)
    (hrest : NoDigitAhead rest) : skipDigits (cs ++ rest) = (cs.length, rest) := by
  have ht : rest.takeWhile myIsdigit = [] := by
    cases rest with
    | nil => rfl
    | cons c rest => simp [List.takeWhile_cons, hrest c rfl]
  have hd : rest.dropWhile myIsdigit = rest := by
    cases rest with
    | nil => rfl
    | cons c rest => simp [List.dropWhile_cons, hrest c rfl]
  rw [skipDigits, List.takeWhile_append_of_pos hcs, List.dropWhile_append_of_pos hcs, ht, hd,
    List.append_nil]

/-- `get_digits` on a run that fits the window. -/
theorem getDigits_digits (val numberOfFields : Nat) {cs rest : List UInt8} {length : Nat}
    (hcs : DigitRun cs) (hlen : cs.length ≤ length) (hrest : NoDigitAhead rest) :
    getDigits val numberOfFields (cs ++ rest) length =
      (false, runValue cs % 2 ^ 32, numberOfFields + 1, rest) := by
  have htake : (cs ++ rest).take length = cs ++ rest.take (length - cs.length) := by
    rw [List.take_append, List.take_of_length_le hlen]
  have hdrop : (cs ++ rest).drop length = rest.drop (length - cs.length) := by
    rw [List.drop_append, List.drop_eq_nil_of_le hlen, List.nil_append]
  -- the window cuts the rest, which still does not start with a digit
  have hrest' : NoDigitAhead (rest.take (length - cs.length)) := by
    intro c hc
    rw [List.head?_take] at hc
    split_ifs at hc
    · simp at hc
    · exact hrest c hc
  rw [getDigits, htake, getNumber_digits val numberOfFields hcs hrest', hdrop]
  dsimp only
  rw [List.take_append_drop]

end Scanners

end MariaDB.Time
