import Mathlib.Data.List.Basic
import Mathlib.Tactic.Linarith

/-
  The text form of a UUID (`plugin/type_uuid/sql_type_uuid.h`, `UUID::ascii_to_fbt`, and
  `my_uuid2str` of `include/my_sys.h`).

  `ascii_to_fbt` reads the 16 bytes of a UUID as 32 hexadecimal digits. `get_two_digits`
  reads a digit, skips any hyphens, reads a second digit and stores `(hi << 4) + lo`; the loop
  skips hyphens after each pair but the last, and input left over is an error. The source's
  comment: a hyphen is not allowed first or last, and otherwise any number of hyphens may
  stand anywhere. Last, a value with `m[6] & -m[8] & 0x80` is refused: that combination
  ("version >= 8, variant = 0") is what `rec_need_swap` takes for a swapped record.

  The pointer walk from `str` to `end` is modelled by the list of the bytes from `str` to
  `end`; `str++` is `drop 1`. An error is `none`: the source then zeroes `m_buffer` and
  returns `true`, and its callers take the value as NULL without reading the buffer.

  Results:
  * `getTwoDigits_eq_some_iff`: one pair is a digit, a run of hyphens and a digit;
  * `asciiToFbt_eq_some_iff`: the texts accepted are exactly 32 hexadecimal digits in
    either case with runs of hyphens between them (`hyphenated`), and the value is the
    digits read in pairs (`packDigits`), when it passes the version and variant check;
  * `asciiToFbt_myUuid2str`: the text `my_uuid2str` prints is read back.
-/

namespace MariaDB.Uuid

/-- `MY_UUID_SIZE`, the `binary_length()` of a UUID. -/
def binaryLength : Nat := 16

/-- The byte of an ASCII character. -/
abbrev ascii (c : Char) : UInt8 := c.toUInt8

/-- `get_digit(char ch, uint *val)`: the value of a hexadecimal digit in either case. The
comparisons are the same for a signed and an unsigned `char`, as no digit has the top bit. -/
def getDigit (ch : UInt8) : Option Nat :=
  if ascii '0' ≤ ch ∧ ch ≤ ascii '9' then some (ch.toNat - '0'.toNat)
  else if ascii 'a' ≤ ch ∧ ch ≤ ascii 'f' then some (ch.toNat - 'a'.toNat + 0x0a)
  else if ascii 'A' ≤ ch ∧ ch ≤ ascii 'F' then some (ch.toNat - 'A'.toNat + 0x0a)
  else none

/-- `get_digit(uint *val, const char *str, const char *end)`: no digit at the end. -/
def getDigitAt : List UInt8 → Option Nat
  | [] => none
  | ch :: _ => getDigit ch

/-- `skip_hyphens`: the number of hyphens the input starts with. -/
def skipHyphens : List UInt8 → Nat
  | [] => 0
  | c :: str => if c ≠ ascii '-' then 0 else skipHyphens str + 1

/-- `get_two_digits`: a digit, any hyphens and a digit give the byte `(hi << 4) + lo`; the
result is that byte and the input after the second digit. -/
def getTwoDigits (str : List UInt8) : Option (UInt8 × List UInt8) := do
  let hi ← getDigitAt str
  let str := str.drop 1
  let str := str.drop (skipHyphens str)
  let lo ← getDigitAt str
  return (((hi <<< 4) + lo).toUInt8, str.drop 1)

/-- The loop `for (uint oidx= 0; oidx < binary_length(); oidx++)` of `ascii_to_fbt` with `n`
passes to go, `oidx = binary_length() - n`: the bytes it stores into `m_buffer[oidx]` and
after, and the input left. -/
def asciiToFbtLoop : Nat → List UInt8 → Option (List UInt8 × List UInt8)
  | 0, str => some ([], str)
  | n + 1, str => do
    let (b, str) ← getTwoDigits str
    -- hyphens are skipped after two digits, but not after the last digit:
    -- `oidx + 1 < binary_length()` is `n ≠ 0`
    let str := if n ≠ 0 then str.drop (skipHyphens str) else str
    let (bs, str) ← asciiToFbtLoop n str
    return (b :: bs, str)

/-- `ascii_to_fbt`: the in-memory value of a text, or `none` where the source returns `true`. -/
def asciiToFbt (str : List UInt8) : Option (List UInt8) :=
  if str.length < 32 then none
  else
    match asciiToFbtLoop binaryLength str with
    | none => none
    | some (m, rest) =>
      if rest ≠ [] then none
      else if m.getD 6 0 &&& -m.getD 8 0 &&& 0x80 ≠ 0 then none
      else some m

/-- `my_uuid2str`'s table `_dig_vec_lower`. -/
def digVecLower : List UInt8 := "0123456789abcdefghijklmnopqrstuvwxyz".toList.map Char.toUInt8

/-- The loop of `my_uuid2str` over the bytes of `guid`: two digits for each byte, and a
hyphen after it when the low bit of `mask` is set; `mask` moves right once a byte. -/
def myUuid2strLoop (mask : Nat) : List UInt8 → List UInt8
  | [] => []
  | g :: guid =>
    [digVecLower.getD (g.toNat >>> 4) 0, digVecLower.getD (g.toNat &&& 15) 0] ++
      (if mask &&& 1 ≠ 0 then [ascii '-'] else []) ++ myUuid2strLoop (mask >>> 1) guid

/-- `my_uuid2str(guid, s, with_separators)` for the `MY_UUID_SIZE` bytes `guid`. -/
def myUuid2str (guid : List UInt8) (withSeparators : Bool) : List UInt8 :=
  myUuid2strLoop (if withSeparators then (1 <<< 3) ||| (1 <<< 5) ||| (1 <<< 7) ||| (1 <<< 9) else 0)
    guid

/-! ## The grammar of the text form -/

/-- A hexadecimal digit in either case. -/
def isHexDigit (c : UInt8) : Bool := "0123456789abcdefABCDEF".toList.map Char.toUInt8 |>.contains c

/-- Digits with runs of hyphens between them: `d₀`, `h₀` hyphens, `d₁`, …, the last digit. -/
def hyphenated : List UInt8 → List Nat → List UInt8
  | d :: ds, h :: hs => d :: List.replicate h (ascii '-') ++ hyphenated ds hs
  | ds, _ => ds

/-- The value of a digit, as `get_digit` reads it. -/
def digitValue (c : UInt8) : Nat := (getDigit c).getD 0

/-- Digits read in pairs, high digit first. -/
def packDigits : List UInt8 → List UInt8
  | hi :: lo :: ds => ((digitValue hi <<< 4) + digitValue lo).toUInt8 :: packDigits ds
  | _ => []

set_option maxRecDepth 4096 in
/-- `get_digit` accepts exactly the hexadecimal digits, and none of them is a hyphen. -/
theorem getDigit_table : ∀ n < 256,
    (getDigit n.toUInt8).isSome = isHexDigit n.toUInt8 ∧
      (isHexDigit n.toUInt8 → n.toUInt8 ≠ ascii '-') := by
  decide

theorem getDigit_isSome (c : UInt8) : (getDigit c).isSome = isHexDigit c := by
  simpa using (getDigit_table c.toNat c.toNat_lt).1

theorem ne_hyphen_of_isHexDigit {c : UInt8} (h : isHexDigit c) : c ≠ ascii '-' := by
  simpa using (getDigit_table c.toNat c.toNat_lt).2 (by simpa using h)

theorem getDigit_eq_some {c : UInt8} (h : isHexDigit c) : getDigit c = some (digitValue c) := by
  rw [← getDigit_isSome, Option.isSome_iff_exists] at h
  obtain ⟨v, hv⟩ := h
  rw [digitValue, hv, Option.getD_some]

theorem getDigitAt_eq_some_iff {str : List UInt8} {v : Nat} :
    getDigitAt str = some v ↔ ∃ c rest, str = c :: rest ∧ isHexDigit c ∧ v = digitValue c := by
  cases str with
  | nil => simp [getDigitAt]
  | cons c rest =>
    simp only [getDigitAt, List.cons.injEq, exists_and_right, exists_eq_right', exists_eq_left']
    constructor
    · intro h
      have hc : isHexDigit c := by rw [← getDigit_isSome, h]; rfl
      refine ⟨hc, ?_⟩
      rw [getDigit_eq_some hc] at h
      exact (Option.some.inj h).symm
    · rintro ⟨hc, rfl⟩
      exact getDigit_eq_some hc

/-! ## Runs of hyphens -/

theorem skipHyphens_replicate_append (h : Nat) {rest : List UInt8}
    (hr : rest.head? ≠ some (ascii '-')) :
    skipHyphens (List.replicate h (ascii '-') ++ rest) = h := by
  induction h with
  | zero =>
    cases rest with
    | nil => rfl
    | cons c rest =>
      have hc : c ≠ ascii '-' := fun hc => hr (by rw [hc]; rfl)
      simp [skipHyphens, hc]
  | succ h ih => simp [List.replicate_succ, skipHyphens, ih]

/-- The input is the hyphens `skip_hyphens` counts and what follows them, which does not
start with a hyphen. -/
theorem skipHyphens_spec : ∀ str : List UInt8,
    str = List.replicate (skipHyphens str) (ascii '-') ++ str.drop (skipHyphens str) ∧
      (str.drop (skipHyphens str)).head? ≠ some (ascii '-')
  | [] => by simp [skipHyphens]
  | c :: str => by
    by_cases hc : c = ascii '-'
    · obtain ⟨h1, h2⟩ := skipHyphens_spec str
      simp only [skipHyphens, hc, ne_eq, not_true_eq_false, if_false, List.replicate_succ,
        List.drop_succ_cons, List.cons_append]
      exact ⟨congrArg _ h1, h2⟩
    · simp [skipHyphens, hc]

/-- Hyphens before a digit are skipped up to the digit. -/
theorem drop_skipHyphens_of_isHexDigit (h : Nat) {c : UInt8} (hc : isHexDigit c)
    (rest : List UInt8) :
    (List.replicate h (ascii '-') ++ c :: rest).drop
      (skipHyphens (List.replicate h (ascii '-') ++ c :: rest)) = c :: rest := by
  have hne : (c :: rest).head? ≠ some (ascii '-') := by
    simpa using ne_hyphen_of_isHexDigit hc
  rw [skipHyphens_replicate_append h hne, List.drop_left' List.length_replicate]

/-! ## One pair of digits -/

/-- The byte of a pair of digits. -/
theorem packDigits_cons_cons (hi lo : UInt8) (ds : List UInt8) :
    packDigits (hi :: lo :: ds) = ((digitValue hi <<< 4) + digitValue lo).toUInt8 :: packDigits ds :=
  rfl

theorem getTwoDigits_eq_some_iff {str rest : List UInt8} {b : UInt8} :
    getTwoDigits str = some (b, rest) ↔
      ∃ hi h lo, isHexDigit hi ∧ isHexDigit lo ∧
        str = hi :: List.replicate h (ascii '-') ++ lo :: rest ∧
        b = ((digitValue hi <<< 4) + digitValue lo).toUInt8 := by
  constructor
  · intro hg
    simp only [getTwoDigits, Option.bind_eq_bind, Option.bind_eq_some_iff, Option.pure_def,
      Option.some.injEq, Prod.mk.injEq] at hg
    obtain ⟨vhi, hhi, vlo, hlo, rfl, rfl⟩ := hg
    obtain ⟨hi, s1, rfl, hhx, rfl⟩ := getDigitAt_eq_some_iff.1 hhi
    simp only [List.drop_succ_cons, List.drop_zero] at hlo ⊢
    obtain ⟨lo, s2, hs2, hlx, rfl⟩ := getDigitAt_eq_some_iff.1 hlo
    refine ⟨hi, skipHyphens s1, lo, hhx, hlx, ?_, rfl⟩
    rw [hs2, List.drop_succ_cons, List.drop_zero, List.cons_append, ← hs2,
      ← (skipHyphens_spec s1).1]
  · rintro ⟨hi, h, lo, hhx, hlx, rfl, rfl⟩
    have hd := drop_skipHyphens_of_isHexDigit h hlx rest
    simp only [getTwoDigits, List.cons_append, getDigitAt, getDigit_eq_some hhx, List.drop_succ_cons,
      List.drop_zero, hd, getDigit_eq_some hlx, Option.bind_eq_bind, Option.bind_some, Option.pure_def]

/-! ## The loop -/

theorem length_le_length_hyphenated : ∀ (ds : List UInt8) (hs : List Nat),
    ds.length ≤ (hyphenated ds hs).length
  | d :: ds, h :: hs => by
    have := length_le_length_hyphenated ds hs
    simp only [hyphenated, List.length_cons, List.length_append, List.length_replicate]
    omega
  | [], _ => le_refl _
  | _ :: _, [] => le_refl _

theorem hyphenated_cons_eq (d : UInt8) (ds : List UInt8) (hs : List Nat) :
    hyphenated (d :: ds) hs = d :: (hyphenated (d :: ds) hs).tail := by
  cases hs <;> simp [hyphenated]

/-- After a run of hyphens, text that starts with a digit is reached by the skip. -/
theorem drop_skipHyphens_hyphenated (k : Nat) {d : UInt8} (hd : isHexDigit d) (ds : List UInt8)
    (hs : List Nat) (rest : List UInt8) :
    (List.replicate k (ascii '-') ++ hyphenated (d :: ds) hs ++ rest).drop
      (skipHyphens (List.replicate k (ascii '-') ++ hyphenated (d :: ds) hs ++ rest)) =
      hyphenated (d :: ds) hs ++ rest := by
  rw [hyphenated_cons_eq, List.append_assoc, List.cons_append]
  exact drop_skipHyphens_of_isHexDigit k hd _

theorem hyphenated_pair_cons (hi lo d : UInt8) (ds : List UInt8) (h k : Nat) (hs : List Nat) :
    hyphenated (hi :: lo :: d :: ds) (h :: k :: hs) =
      hi :: List.replicate h (ascii '-') ++ lo :: List.replicate k (ascii '-') ++
        hyphenated (d :: ds) hs := by
  simp [hyphenated]

/-- The last pass of the loop reads one pair and skips no hyphens after it. -/
theorem asciiToFbtLoop_one {str bs rest : List UInt8} :
    asciiToFbtLoop 1 str = some (bs, rest) ↔ ∃ b, getTwoDigits str = some (b, rest) ∧ bs = [b] := by
  simp only [asciiToFbtLoop, ne_eq, not_true_eq_false, if_false, Option.bind_eq_bind,
    Option.bind_eq_some_iff, Option.pure_def, Option.some.injEq, Prod.exists, Prod.mk.injEq]
  constructor
  · rintro ⟨b, s, hg, bs', r, ⟨rfl, rfl⟩, rfl, rfl⟩
    exact ⟨b, hg, rfl⟩
  · rintro ⟨b, hg, rfl⟩
    exact ⟨b, rest, hg, [], rest, ⟨rfl, rfl⟩, rfl, rfl⟩

/-- A pass before the last reads one pair, skips the hyphens after it and goes on. -/
theorem asciiToFbtLoop_succ_succ (n : Nat) {str bs rest : List UInt8} :
    asciiToFbtLoop (n + 2) str = some (bs, rest) ↔
      ∃ b s bs', getTwoDigits str = some (b, s) ∧
        asciiToFbtLoop (n + 1) (s.drop (skipHyphens s)) = some (bs', rest) ∧ bs = b :: bs' := by
  rw [asciiToFbtLoop]
  simp only [ne_eq, Nat.add_one_ne_zero, not_false_eq_true, if_true, Option.bind_eq_bind,
    Option.bind_eq_some_iff, Option.pure_def, Option.some.injEq, Prod.exists, Prod.mk.injEq]
  constructor
  · rintro ⟨b, s, hg, bs', r, hl, rfl, rfl⟩
    exact ⟨b, s, bs', hg, hl, rfl⟩
  · rintro ⟨b, s, bs', hg, hl, rfl⟩
    exact ⟨b, s, hg, bs', rest, hl, rfl, rfl⟩

/-- The loop with `j + 1` passes to go reads `j + 1` pairs of digits with runs of hyphens
between all of them, and leaves the rest of the input. Induction on the passes to go. -/
theorem asciiToFbtLoop_eq_some_iff (j : Nat) {str bs rest : List UInt8} :
    asciiToFbtLoop (j + 1) str = some (bs, rest) ↔
      ∃ ds hs, ds.length = 2 * (j + 1) ∧ hs.length = 2 * j + 1 ∧ (∀ d ∈ ds, isHexDigit d) ∧
        str = hyphenated ds hs ++ rest ∧ bs = packDigits ds := by
  induction j generalizing str bs rest with
  | zero =>
    rw [asciiToFbtLoop_one]
    constructor
    · rintro ⟨b, hg, rfl⟩
      obtain ⟨hi, h, lo, hhx, hlx, rfl, rfl⟩ := getTwoDigits_eq_some_iff.1 hg
      refine ⟨[hi, lo], [h], rfl, rfl, ?_, ?_, rfl⟩
      · simp [hhx, hlx]
      · simp [hyphenated]
    · rintro ⟨ds, hs, hds, hhs, hx, rfl, rfl⟩
      match ds, hs, hds, hhs with
      | [hi, lo], [h], _, _ =>
        refine ⟨_, getTwoDigits_eq_some_iff.2 ⟨hi, h, lo, hx hi (by simp), hx lo (by simp), ?_, rfl⟩,
          rfl⟩
        simp [hyphenated]
  | succ j ih =>
    rw [asciiToFbtLoop_succ_succ]
    constructor
    · rintro ⟨b, s, bs', hg, hl, rfl⟩
      obtain ⟨hi, h, lo, hhx, hlx, rfl, rfl⟩ := getTwoDigits_eq_some_iff.1 hg
      obtain ⟨ds, hs, hds, hhs, hx, hrest, rfl⟩ := ih.1 hl
      match ds, hds, hx, hrest with
      | d :: ds, hds, hx, hrest =>
        refine ⟨hi :: lo :: d :: ds, h :: skipHyphens s :: hs, by simp at hds ⊢; omega,
          by simp [hhs]; omega, ?_, ?_, rfl⟩
        · exact List.forall_mem_cons.2 ⟨hhx, List.forall_mem_cons.2 ⟨hlx, hx⟩⟩
        · rw [hyphenated_pair_cons]
          simp only [List.append_assoc, List.cons_append, ← hrest]
          rw [← (skipHyphens_spec s).1]
    · rintro ⟨ds, hs, hds, hhs, hx, rfl, rfl⟩
      match ds, hs, hds, hhs, hx with
      | hi :: lo :: d :: ds, h :: k :: hs, hds, hhs, hx =>
        simp only [List.mem_cons, forall_eq_or_imp] at hx
        obtain ⟨hhx, hlx, hdx, hx⟩ := hx
        refine ⟨_, List.replicate k (ascii '-') ++ hyphenated (d :: ds) hs ++ rest, packDigits (d :: ds),
          getTwoDigits_eq_some_iff.2 ⟨hi, h, lo, hhx, hlx, ?_, rfl⟩, ?_, rfl⟩
        · rw [hyphenated_pair_cons]
          simp
        · rw [drop_skipHyphens_hyphenated k hdx]
          exact ih.2 ⟨d :: ds, hs, by simp at hds ⊢; omega, by simp at hhs ⊢; omega,
            by simp only [List.mem_cons, forall_eq_or_imp]; exact ⟨hdx, hx⟩, rfl, rfl⟩

/-- The texts `ascii_to_fbt` accepts are the 32 hexadecimal digits with runs of hyphens
between them, and what it returns is the digits read in pairs, when that value passes the
version and variant check. -/
theorem asciiToFbt_eq_some_iff {str m : List UInt8} :
    asciiToFbt str = some m ↔
      ∃ ds hs, ds.length = 32 ∧ hs.length = 31 ∧ (∀ d ∈ ds, isHexDigit d) ∧
        str = hyphenated ds hs ∧ m = packDigits ds ∧ ¬(m.getD 6 0 &&& -m.getD 8 0 &&& 0x80 ≠ 0) := by
  constructor
  · intro h
    have hlen : ¬str.length < 32 := by
      intro hlen
      rw [asciiToFbt, if_pos hlen] at h
      cases h
    rw [asciiToFbt, if_neg hlen] at h
    rcases hl : asciiToFbtLoop binaryLength str with _ | ⟨m', rest⟩
    · rw [hl] at h
      cases h
    · rw [hl] at h
      simp only at h
      split_ifs at h with hr hc
      cases h
      -- nothing is left after the last digit
      obtain ⟨ds, hs, hds, hhs, hx, hstr, hm⟩ := (asciiToFbtLoop_eq_some_iff 15).1 hl
      rw [not_not.1 hr, List.append_nil] at hstr
      exact ⟨ds, hs, hds, hhs, hx, hstr, hm, hc⟩
  · rintro ⟨ds, hs, hds, hhs, hx, rfl, rfl, hc⟩
    have hl : asciiToFbtLoop binaryLength (hyphenated ds hs) = some (packDigits ds, []) :=
      (asciiToFbtLoop_eq_some_iff 15).2 ⟨ds, hs, hds, hhs, hx, (List.append_nil _).symm, rfl⟩
    have hlen : ¬(hyphenated ds hs).length < 32 := by
      have := length_le_length_hyphenated ds hs
      omega
    rw [asciiToFbt, if_neg hlen, hl]
    simp only [ne_eq, not_true_eq_false, if_false, hc]

/-! ## The printed form -/

/-- The two digits `my_uuid2str` prints for each byte. -/
def printedDigits : List UInt8 → List UInt8
  | [] => []
  | g :: guid =>
    digVecLower.getD (g.toNat >>> 4) 0 :: digVecLower.getD (g.toNat &&& 15) 0 :: printedDigits guid

/-- The hyphens `my_uuid2str` prints between the digits: none inside a byte, and one after a
byte when the bit of `mask` for it is set; nothing after the last byte. -/
def printedHyphens (mask : Nat) : List UInt8 → List Nat
  | [] => []
  | [_] => [0]
  | _ :: g :: guid => 0 :: (if mask &&& 1 ≠ 0 then 1 else 0) :: printedHyphens (mask >>> 1) (g :: guid)

set_option maxRecDepth 4096 in
/-- Every byte prints as two hexadecimal digits that read back as the byte. -/
theorem digVecLower_table : ∀ n < 256,
    isHexDigit (digVecLower.getD (n.toUInt8.toNat >>> 4) 0) ∧
      isHexDigit (digVecLower.getD (n.toUInt8.toNat &&& 15) 0) ∧
      ((digitValue (digVecLower.getD (n.toUInt8.toNat >>> 4) 0) <<< 4) +
        digitValue (digVecLower.getD (n.toUInt8.toNat &&& 15) 0)).toUInt8 = n.toUInt8 := by
  decide

theorem digVecLower_byte (g : UInt8) :
    isHexDigit (digVecLower.getD (g.toNat >>> 4) 0) ∧
      isHexDigit (digVecLower.getD (g.toNat &&& 15) 0) ∧
      ((digitValue (digVecLower.getD (g.toNat >>> 4) 0) <<< 4) +
        digitValue (digVecLower.getD (g.toNat &&& 15) 0)).toUInt8 = g := by
  simpa only [Nat.toUInt8_eq, UInt8.ofNat_toNat] using digVecLower_table g.toNat g.toNat_lt

theorem printedDigits_hex : ∀ (guid : List UInt8), ∀ d ∈ printedDigits guid, isHexDigit d
  | [] => by simp [printedDigits]
  | g :: guid => by
    obtain ⟨hhi, hlo, -⟩ := digVecLower_byte g
    exact List.forall_mem_cons.2 ⟨hhi, List.forall_mem_cons.2 ⟨hlo, printedDigits_hex guid⟩⟩

theorem packDigits_printedDigits : ∀ guid : List UInt8, packDigits (printedDigits guid) = guid
  | [] => rfl
  | g :: guid => by
    rw [printedDigits, packDigits_cons_cons, (digVecLower_byte g).2.2, packDigits_printedDigits guid]

theorem length_printedDigits : ∀ guid : List UInt8, (printedDigits guid).length = 2 * guid.length
  | [] => rfl
  | g :: guid => by
    simp only [printedDigits, List.length_cons, length_printedDigits guid]
    omega

theorem length_printedHyphens (mask : Nat) : ∀ (guid : List UInt8), guid ≠ [] →
    (printedHyphens mask guid).length = 2 * guid.length - 1
  | [], h => absurd rfl h
  | [_], _ => rfl
  | _ :: g :: guid, _ => by
    simp only [printedHyphens, List.length_cons,
      length_printedHyphens (mask >>> 1) (g :: guid) (List.cons_ne_nil _ _)]
    omega

/-- The loop of `my_uuid2str` prints the digits of the bytes with the hyphens of `mask`
between them, when `mask` puts none after the last byte. Induction on the bytes. -/
theorem myUuid2strLoop_eq : ∀ (mask : Nat) (guid : List UInt8), guid ≠ [] →
    (mask >>> (guid.length - 1)) &&& 1 = 0 →
    myUuid2strLoop mask guid = hyphenated (printedDigits guid) (printedHyphens mask guid)
  | _, [], h, _ => absurd rfl h
  | mask, [g], _, hlast => by
    simp only [List.length_singleton, Nat.sub_self, Nat.shiftRight_zero] at hlast
    simp [myUuid2strLoop, printedDigits, printedHyphens, hyphenated, hlast]
  | mask, g :: g' :: guid, _, hlast => by
    have ih := myUuid2strLoop_eq (mask >>> 1) (g' :: guid) (List.cons_ne_nil _ _) (by
      simp only [List.length_cons, Nat.add_sub_cancel] at hlast ⊢
      rwa [← Nat.shiftRight_add, Nat.add_comm])
    rw [myUuid2strLoop, ih]
    simp only [printedDigits, printedHyphens, hyphenated_pair_cons]
    split_ifs <;> simp

/-- `my_uuid2str` with separators puts hyphens after bytes 3, 5, 7 and 9. -/
theorem myUuid2str_eq (guid : List UInt8) (hg : guid.length = binaryLength) :
    myUuid2str guid true = hyphenated (printedDigits guid) (printedHyphens 680 guid) := by
  have hne : guid ≠ [] := by
    intro h
    rw [h] at hg
    cases hg
  exact myUuid2strLoop_eq 680 guid hne (by rw [hg]; rfl)

/-- What `my_uuid2str` prints, `ascii_to_fbt` reads back, for every value that passes the
version and variant check. -/
theorem asciiToFbt_myUuid2str (m : List UInt8) (hm : m.length = binaryLength)
    (hc : ¬(m.getD 6 0 &&& -m.getD 8 0 &&& 0x80 ≠ 0)) :
    asciiToFbt (myUuid2str m true) = some m := by
  have hne : m ≠ [] := by
    intro h
    rw [h] at hm
    cases hm
  refine asciiToFbt_eq_some_iff.2 ⟨printedDigits m, printedHyphens 680 m, ?_, ?_,
    printedDigits_hex m, myUuid2str_eq m hm, (packDigits_printedDigits m).symm, hc⟩
  · rw [length_printedDigits, hm]
    rfl
  · rw [length_printedHyphens 680 m hne, hm]
    rfl

end MariaDB.Uuid
