import MariaDB.Base64.Decode

/-
  `my_base64_decode` inverts `my_base64_encode`.

  The decoder reads the encoder's output one group at a time: the four characters of a group
  give back its 24-bit value, since `=` stands only where the value's digits are zero, and the
  marks drop the bytes the encoder made up (`decodeLoop_group_full`, `decodeLoop_group_last`).
  `decodeLoop_encodeLoop` runs this over the whole output, line breaks skipped as spaces.

  Proved:
  * `base64_round_trip`: for every byte string up to `my_base64_encode_max_arg_length`, the
    encoder writes `my_base64_needed_encoded_length` bytes, the NUL included, and no operation
    of that length computation leaves `int`; `my_base64_decode` of the text before the NUL,
    without flags, returns the string's length, writes the string back and stops at the end of
    the text.
-/

namespace MariaDB.Base64

open MariaDB.Lib

/-! ## Digits -/

/-- The four base-64 digits of a 24-bit value give it back. -/
theorem digits_value {g : Nat} (hg : g < 2 ^ 24) :
    ((g / 2 ^ 18 % 64 * 64 + g / 2 ^ 12 % 64) * 64 + g / 2 ^ 6 % 64) * 64 + g % 64 = g := by
  omega

/-- One step of the decoder's accumulation, `c = (c << 6) + v`, with nothing lost to the
`uint`. -/
theorem shiftAdd_eq {c v : Nat} (hc : c < 2 ^ 18) (hv : v < 64) :
    (c <<< 6 % 2 ^ 32 + v) % 2 ^ 32 = c * 64 + v := by
  rw [Nat.shiftLeft_eq]
  omega

/-- The shift of a pad character, which adds no bits. -/
theorem shift_eq {c : Nat} (hc : c < 2 ^ 26) : c <<< 6 % 2 ^ 32 = c * 64 := by
  rw [Nat.shiftLeft_eq]
  omega

/-- The three bytes the decoder writes from a group's value are the group's bytes. -/
theorem groupValue_bytes (s : List UInt8) (i : Nat) :
    [UInt8.ofNat ((groupValue s i >>> 16) &&& 0xff), UInt8.ofNat ((groupValue s i >>> 8) &&& 0xff),
      UInt8.ofNat (groupValue s i &&& 0xff)] = [s.getD i 0, s.getD (i + 1) 0, s.getD (i + 2) 0] := by
  have h0 := (s.getD i 0).toNat_lt
  have h1 := (s.getD (i + 1) 0).toNat_lt
  have h2 := (s.getD (i + 2) 0).toNat_lt
  simp only [Nat.shiftRight_eq_div_pow, show (0xff : Nat) = 2 ^ 8 - 1 from rfl,
    Nat.and_two_pow_sub_one_eq_mod, List.cons.injEq, and_true]
  refine ⟨?_, ?_, ?_⟩ <;> apply UInt8.toNat_inj.mp <;> rw [UInt8.toNat_ofNat'] <;>
    unfold groupValue <;> omega

/-- Reading a list from a position where it continues with `a`. -/
theorem getElem?_of_drop_eq {l rest : List UInt8} {p : Nat} {a : UInt8}
    (h : l.drop p = a :: rest) : l[p]? = some a := by
  rw [← Nat.add_zero p, ← List.getElem?_drop, h]
  rfl

theorem drop_succ_of_drop_eq {l rest : List UInt8} {p : Nat} {a : UInt8}
    (h : l.drop p = a :: rest) : l.drop (p + 1) = rest := by
  rw [← List.drop_drop, h]
  rfl

/-! ## One group -/

/-- A full group is read as its four digits and gives its three bytes. -/
theorem decodeLoop_group_full {s input rest out : List UInt8} {i p flags fuel : Nat}
    {d : Base64Decoder} (hi : i + 3 ≤ s.length)
    (hp : input.drop p = base64EncodeGroup s i ++ rest) (hd : d.src = p) (hm : d.mark = 0) :
    decodeLoop input flags (fuel + 1) d out =
      decodeLoop input flags fuel { d with src := p + 4, c := groupValue s i, state := 4 }
        (out ++ [s.getD i 0, s.getD (i + 1) 0, s.getD (i + 2) 0]) := by
  have hg := groupValue_lt s i
  rw [base64EncodeGroup_eq, if_neg (by omega), if_neg (by omega)] at hp
  simp only [List.cons_append, List.nil_append] at hp
  have hx1 := getElem?_of_drop_eq hp
  have hx2 := getElem?_of_drop_eq (drop_succ_of_drop_eq hp)
  have hx3 := getElem?_of_drop_eq (drop_succ_of_drop_eq (drop_succ_of_drop_eq hp))
  have hx4 := getElem?_of_drop_eq
    (drop_succ_of_drop_eq (drop_succ_of_drop_eq (drop_succ_of_drop_eq hp)))
  subst hd
  rw [decodeLoop_succ_of_getch (d := d)
    (getch_valid hx1 (fromTable_tableChar (by omega)) (by omega) hm)
    (getch_valid hx2 (fromTable_tableChar (by omega)) (by omega) hm)
    (getch_valid hx3 (fromTable_tableChar (by omega)) (by omega) hm)
    (getch_valid hx4 (fromTable_tableChar (by omega)) (by omega) hm)]
  dsimp only
  simp only [Int.toNat_natCast]
  simp (disch := omega) only [shiftAdd_eq]
  rw [Nat.zero_mul, Nat.zero_add, digits_value hg, groupValue_bytes]
  simp only [hm, ne_eq, not_true_eq_false, if_false]

/-- The bytes of the string from `i` on, one at a time. -/
theorem drop_eq_getD_cons {s : List UInt8} {i : Nat} (h : i < s.length) :
    s.drop i = s.getD i 0 :: s.drop (i + 1) := by
  rw [List.drop_eq_getElem_cons h, List.getD_eq_getElem _ _ h]

/-- The last group, of one or two bytes, is read with its pads; without
`MY_BASE64_DECODE_ALLOW_MULTIPLE_CHUNKS` the loop stops after it. -/
theorem decodeLoop_group_last {s input rest out : List UInt8} {i p flags fuel : Nat}
    {d : Base64Decoder} (hi : i < s.length) (hlast : s.length < i + 3)
    (hp : input.drop p = base64EncodeGroup s i ++ rest) (hd : d.src = p) (hm : d.mark = 0)
    (hf : flags &&& myBase64DecodeAllowMultipleChunks = 0) :
    decodeLoop input flags (fuel + 1) d out =
      ({ d with src := p + 4, c := groupValue s i, error := false, state := 4,
                mark := i + 3 - s.length }, out ++ s.drop i) := by
  have hg := groupValue_lt s i
  have hz2 : s.getD (i + 2) 0 = 0 := List.getD_eq_default _ _ (by omega)
  rw [base64EncodeGroup_eq, if_pos (show s.length ≤ i + 2 by omega)] at hp
  subst hd
  rcases (show s.length = i + 2 ∨ s.length = i + 1 by omega) with hn | hn
  · -- two bytes: one pad
    rw [if_neg (by omega)] at hp
    simp only [List.cons_append, List.nil_append] at hp
    have hx1 := getElem?_of_drop_eq hp
    have hx2 := getElem?_of_drop_eq (drop_succ_of_drop_eq hp)
    have hx3 := getElem?_of_drop_eq (drop_succ_of_drop_eq (drop_succ_of_drop_eq hp))
    have hx4 := getElem?_of_drop_eq
      (drop_succ_of_drop_eq (drop_succ_of_drop_eq (drop_succ_of_drop_eq hp)))
    have hlow : groupValue s i % 64 = 0 := by
      unfold groupValue
      rw [hz2, UInt8.toNat_zero]
      omega
    rw [decodeLoop_succ_of_getch (d := d)
      (getch_valid hx1 (fromTable_tableChar (by omega)) (by omega) hm)
      (getch_valid hx2 (fromTable_tableChar (by omega)) (by omega) hm)
      (getch_valid hx3 (fromTable_tableChar (by omega)) (by omega) hm)
      (getch_pad hx4 (Or.inr rfl))]
    dsimp only
    simp only [Int.toNat_natCast]
    simp (disch := omega) only [shiftAdd_eq]
    simp (disch := omega) only [shift_eq]
    have hv := digits_value hg
    rw [hlow, Nat.add_zero] at hv
    rw [Nat.zero_mul, Nat.zero_add, hv, groupValue_bytes, hz2, if_pos (by omega), if_pos hf, hm]
    have hdrop : s.drop i = [s.getD i 0, s.getD (i + 1) 0] := by
      rw [drop_eq_getD_cons (by omega), drop_eq_getD_cons (by omega),
        List.drop_eq_nil_of_le (by omega)]
    simp only [hdrop, Prod.mk.injEq, Base64Decoder.mk.injEq, List.length_append, List.length_cons,
      List.length_nil, true_and]
    refine ⟨by omega, ?_⟩
    rw [show out.length + (0 + 1 + 1 + 1) - (0 + 1) = out.length + 2 by omega, List.take_length_add_append]
    rfl
  · -- one byte: two pads
    have hz1 : s.getD (i + 1) 0 = 0 := List.getD_eq_default _ _ (by omega)
    simp only [if_pos (show s.length ≤ i + 1 by omega), List.cons_append, List.nil_append] at hp
    have hx1 := getElem?_of_drop_eq hp
    have hx2 := getElem?_of_drop_eq (drop_succ_of_drop_eq hp)
    have hx3 := getElem?_of_drop_eq (drop_succ_of_drop_eq (drop_succ_of_drop_eq hp))
    have hx4 := getElem?_of_drop_eq
      (drop_succ_of_drop_eq (drop_succ_of_drop_eq (drop_succ_of_drop_eq hp)))
    have hlow : groupValue s i / 2 ^ 6 % 64 = 0 ∧ groupValue s i % 64 = 0 := by
      unfold groupValue
      rw [hz1, hz2, UInt8.toNat_zero]
      omega
    rw [decodeLoop_succ_of_getch (d := d)
      (getch_valid hx1 (fromTable_tableChar (by omega)) (by omega) hm)
      (getch_valid hx2 (fromTable_tableChar (by omega)) (by omega) hm)
      (getch_pad hx3 (Or.inl rfl)) (getch_pad hx4 (Or.inr rfl))]
    dsimp only
    simp only [Int.toNat_natCast]
    simp (disch := omega) only [shiftAdd_eq]
    simp (disch := omega) only [shift_eq]
    have hv := digits_value hg
    rw [hlow.1, hlow.2, Nat.add_zero, Nat.add_zero] at hv
    rw [Nat.zero_mul, Nat.zero_add, hv, groupValue_bytes, hz1, hz2, if_pos (by omega), if_pos hf, hm]
    have hdrop : s.drop i = [s.getD i 0] := by
      rw [drop_eq_getD_cons (by omega), List.drop_eq_nil_of_le (by omega)]
    simp only [hdrop, Prod.mk.injEq, Base64Decoder.mk.injEq, List.length_append, List.length_cons,
      List.length_nil, true_and]
    refine ⟨by omega, ?_⟩
    rw [show out.length + (0 + 1 + 1 + 1) - (0 + 1 + 1) = out.length + 1 by omega,
      List.take_length_add_append]
    rfl

/-! ## The whole text -/

/-- The decoder's loop reads the rest of the encoder's output from any group on: it writes the
rest of the string and stops at the end of the text without an error. The induction follows
the encoder's loop. -/
theorem decodeLoop_encodeLoop (s input : List UInt8) (flags : Nat)
    (hf : flags &&& myBase64DecodeAllowMultipleChunks = 0) :
    ∀ (i len p fuel : Nat) (d : Base64Decoder) (out : List UInt8),
      input.drop p = myBase64EncodeLoop s i len → p ≤ input.length → d.src = p →
      d.mark = 0 → d.error = false → (s.length - i + 2) / 3 < fuel →
      ∃ d', decodeLoop input flags fuel d out = (d', out ++ s.drop i) ∧
        d'.src = input.length ∧ d'.error = false := by
  intro i len
  induction i, len using myBase64EncodeLoop.induct s with
  | case1 i len h ih =>
    simp only [dite_eq_ite] at ih
    intro p fuel d out hp hpl hd hm he hfuel
    obtain ⟨fuel, rfl⟩ : ∃ f, fuel = f + 1 := ⟨fuel - 1, by omega⟩
    rw [myBase64EncodeLoop_of_lt len h] at hp
    -- step over the line break, if there is one
    obtain ⟨p', d', hp', hpl', hd', hm', he', hstep⟩ : ∃ (p' : Nat) (d' : Base64Decoder),
        input.drop p' = base64EncodeGroup s i ++
          myBase64EncodeLoop s (i + 3) ((if len = 76 then 0 else len) + 4) ∧
        p' ≤ input.length ∧ d'.src = p' ∧ d'.mark = 0 ∧ d'.error = false ∧
        decodeLoop input flags (fuel + 1) d out = decodeLoop input flags (fuel + 1) d' out := by
      by_cases h76 : len = 76
      · rw [if_pos h76, List.append_assoc, List.singleton_append] at hp
        have hlen := congrArg List.length hp
        simp only [List.length_drop, List.length_cons] at hlen
        refine ⟨p + 1, { d with src := p + 1 }, drop_succ_of_drop_eq hp, by omega, rfl, hm, he, ?_⟩
        rw [decodeLoop_space (by rw [hd]; exact getElem?_of_drop_eq hp) fromTable_newline, hd]
      · rw [if_neg h76, List.nil_append] at hp
        exact ⟨p, d, hp, hpl, hd, hm, he, rfl⟩
    rw [hstep]
    have hlen := congrArg List.length hp'
    simp only [List.length_drop, List.length_append, length_base64EncodeGroup] at hlen
    by_cases hfull : i + 3 ≤ s.length
    · -- a full group, and the rest after it
      rw [decodeLoop_group_full hfull hp' hd' hm']
      have hrest : input.drop (p' + 4) =
          myBase64EncodeLoop s (i + 3) ((if len = 76 then 0 else len) + 4) := by
        rw [← List.drop_drop, hp', List.drop_left' (length_base64EncodeGroup s i)]
      obtain ⟨d'', hrun, hsrc, herr⟩ := ih (p' + 4) fuel
        { d' with src := p' + 4, c := groupValue s i, state := 4 }
        (out ++ [s.getD i 0, s.getD (i + 1) 0, s.getD (i + 2) 0]) hrest (by omega) rfl hm' he'
        (by omega)
      refine ⟨d'', ?_, hsrc, herr⟩
      rw [hrun, drop_eq_getD_cons (i := i) (by omega), drop_eq_getD_cons (i := i + 1) (by omega),
        drop_eq_getD_cons (i := i + 1 + 1) (by omega)]
      simp
    · -- the last group, with its pads
      rw [decodeLoop_group_last h (by omega) hp' hd' hm' hf]
      rw [myBase64EncodeLoop_of_le _ (by omega), List.length_nil] at hlen
      exact ⟨_, rfl, by dsimp only; omega, rfl⟩
  | case2 i len h =>
    intro p fuel d out hp hpl hd hm he hfuel
    obtain ⟨fuel, rfl⟩ : ∃ f, fuel = f + 1 := ⟨fuel - 1, by omega⟩
    rw [myBase64EncodeLoop_of_le len (by omega)] at hp
    have hend : input.length ≤ p := by
      have := congrArg List.length hp
      simp only [List.length_drop, List.length_nil] at this
      omega
    rw [decodeLoop_succ_of_end (getch_end (d := { d with c := 0, state := 0 }) (by
      rw [hd]; exact hend) rfl), List.drop_eq_nil_of_le (by omega), List.append_nil]
    exact ⟨_, rfl, by dsimp only; omega, he⟩

/-- The text the encoder writes before its NUL. -/
theorem dropLast_myBase64Encode (x : List UInt8) :
    (myBase64Encode x).dropLast = myBase64EncodeLoop x 0 0 :=
  List.dropLast_concat

/-- Base64 round trip with exact sizing: up to `my_base64_encode_max_arg_length` bytes, the
encoder writes `my_base64_needed_encoded_length` bytes, whose computation stays inside `int`,
and decoding the text before the NUL without flags returns the length, writes the string back
and ends at the end of the text. -/
theorem base64_round_trip (x : List UInt8) (hx : (x.length : Int) ≤ myBase64EncodeMaxArgLength) :
    ((myBase64Encode x).length : Int) = myBase64NeededEncodedLength x.length ∧
    (∀ v ∈ neededEncodedLengthSteps x.length, FitsSigned 32 v) ∧
    myBase64Decode (myBase64Encode x).dropLast 0 =
      { ret := x.length, dst := x, endPtr := (myBase64Encode x).dropLast.length } := by
  refine ⟨length_myBase64Encode x, neededEncodedLengthSteps_fit (by positivity) hx, ?_⟩
  rw [dropLast_myBase64Encode]
  have hlen := length_myBase64EncodeLoop x 0 0 0 rfl (by norm_num)
  obtain ⟨d, hrun, hsrc, herr⟩ := decodeLoop_encodeLoop x (myBase64EncodeLoop x 0 0) 0
    (by decide) 0 0 0 ((myBase64EncodeLoop x 0 0).length + 1)
    { src := 0, c := 0, error := false, state := 0, mark := 0 } []
    List.drop_zero (Nat.zero_le _) rfl rfl rfl (by omega)
  unfold myBase64Decode
  dsimp only
  rw [hrun]
  dsimp only
  rw [skipSpaces_end (by dsimp only; omega)]
  simp [herr, hsrc]

/-- Fifty-eight bytes, enough for a line break after the first 76 characters. -/
theorem base64_round_trip_two_lines :
    ((List.replicate 58 (255 : UInt8)).length : Int) ≤ myBase64EncodeMaxArgLength ∧
    myBase64Decode (myBase64Encode (List.replicate 58 255)).dropLast 0 =
      { ret := 58, dst := List.replicate 58 255,
        endPtr := (myBase64Encode (List.replicate 58 255)).dropLast.length } :=
  ⟨by decide, (base64_round_trip (List.replicate 58 255) (by decide)).2.2⟩

end MariaDB.Base64
