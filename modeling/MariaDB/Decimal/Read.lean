import MariaDB.Decimal.Format

/-
  What `bin2decimal` reads back from a row of the binary format.

  Model. The reader state (`ReadState`) is the bytes left, the destination buffer, the write
  position `buf - to->buf` and the integer digits `to->intg`. `Filled st ws` says the words
  before the write position are `ws`. A leading zero field is not kept: it is overwritten
  by the next word and its digits are taken off `intg`.

  Proved:
  * `xorMask_sintKorr`: a field written by `storeMasked` with its top bit clear is read back
    by `mi_sint*korr` and the mask;
  * `readLead_spec`, `readIntgWords_fresh`, `readFracWords_spec`, `readTrail_spec`: the loops
    of `bin2decimal` on a row of masked fields, as words appended behind the write position;
  * `bin2decimal_encoded`: on the bytes of any number `M < 10^precision` with any sign in the
    format of DECIMAL(precision, scale), and a destination long enough, `bin2decimal` returns
    `E_DEC_OK` and a well-formed decimal of `scale` fraction digits, without a negative zero,
    whose value is `±M / 10^scale`.
-/

namespace MariaDB.Decimal

open MariaDB.Lib DecimalT

/-! ## One field -/

theorem beVal_storeMasked {n t : Nat} (ht : t < 256 ^ n) (mask : Bool) :
    beVal (storeMasked n mask t) = if mask then 256 ^ n - 1 - t else t := by
  cases mask with
  | false => rw [storeMasked, maskByte_false, List.map_id, beVal_beBytes_of_lt ht, if_neg (by simp)]
  | true =>
    have hnot : (beBytes n t).map (maskByte true) = (beBytes n t).map (~~~·) := by
      simp [maskByte]
    rw [storeMasked, hnot, beVal_map_not, beBytes_length, beVal_beBytes_of_lt ht, if_pos rfl]

/-- `mi_sint1korr` .. `mi_sint4korr` and the mask undo `storeMasked` on a field whose top bit
    is clear: the complemented field of a negative number reads as a negative 32-bit
    pattern, which the mask turns back. -/
theorem xorMask_sintKorr {n t : Nat} (hn0 : 0 < n) (hn4 : n ≤ 4) (ht : t < 2 ^ (8 * n - 1))
    (mask : Bool) (rest : List UInt8) :
    xorMask mask (sintKorr n (storeMasked n mask t ++ rest)) = t := by
  have h256 : (256 : Nat) ^ n = 2 ^ (8 * n) := by
    rw [show (256 : Nat) = 2 ^ 8 by norm_num, ← pow_mul]
  have hhalf : 2 ^ (8 * n) = 2 * 2 ^ (8 * n - 1) := by
    rw [← pow_succ']
    congr 1
    omega
  have h32 : 2 ^ (8 * n) ≤ 2 ^ 32 := Nat.pow_le_pow_right (by norm_num) (by omega)
  have htake : (storeMasked n mask t ++ rest).take n = storeMasked n mask t := by
    rw [List.take_append_of_le_length (by simp [storeMasked]), List.take_of_length_le
      (by simp [storeMasked])]
  have hv := beVal_storeMasked (n := n) (t := t) (by omega) mask
  unfold sintKorr
  rw [htake]
  cases mask with
  | false =>
    simp only [Bool.false_eq_true, if_false] at hv
    rw [hv, if_neg (Nat.not_le.mpr ht)]
    rfl
  | true =>
    simp only [if_true] at hv
    rw [hv, if_pos (by omega)]
    simp only [xorMask, if_true]
    omega

theorem drop_storeMasked (n : Nat) (mask : Bool) (t : Nat) (rest : List UInt8) :
    (storeMasked n mask t ++ rest).drop n = rest := by
  rw [List.drop_append_of_le_length (by simp [storeMasked]), List.drop_of_length_le
    (by simp [storeMasked]), List.nil_append]

/-- A digit count up to nine fits its `dig2bytes` field with the top bit clear. -/
theorem pow_lt_half {x t : Nat} (hx : 0 < x) (hx9 : x ≤ 9) (ht : t < 10 ^ x) :
    t < 2 ^ (8 * dig2bytes x - 1) := by
  rcases pow_lt_dig2bytes x hx9 with h | h
  · exact Nat.lt_of_lt_of_le ht h
  · omega

theorem dig2bytes_pos' {x : Nat} (hx : 0 < x) (hx9 : x ≤ 9) : 0 < dig2bytes x ∧ dig2bytes x ≤ 4 := by
  refine ⟨?_, dig2bytes_le_four x⟩
  interval_cases x <;> simp [dig2bytes]

/-! ## The reader state -/

/-- The words before the write position are `ws`. -/
def ReadState.Filled (st : ReadState) (ws : List Nat) : Prop :=
  st.buf.take st.pos = ws ∧ st.pos = ws.length

theorem ReadState.put_true (st : ReadState) (b w g : Nat) :
    st.put b w true g = ⟨st.src.drop b, st.buf.set st.pos w, st.pos + 1, st.intg⟩ := rfl

theorem ReadState.put_false (st : ReadState) (b w g : Nat) :
    st.put b w false g = ⟨st.src.drop b, st.buf.set st.pos w, st.pos, st.intg - g⟩ := rfl

@[simp] theorem ReadState.put_src (st : ReadState) (b w : Nat) (k : Bool) (g : Nat) :
    (st.put b w k g).src = st.src.drop b := by
  cases k <;> rfl

@[simp] theorem ReadState.put_buf_length (st : ReadState) (b w : Nat) (k : Bool) (g : Nat) :
    (st.put b w k g).buf.length = st.buf.length := by
  cases k <;> simp [ReadState.put]

@[simp] theorem ReadState.put_true_intg (st : ReadState) (b w g : Nat) :
    (st.put b w true g).intg = st.intg := rfl

@[simp] theorem ReadState.put_false_intg (st : ReadState) (b w g : Nat) :
    (st.put b w false g).intg = st.intg - g := rfl

@[simp] theorem ReadState.put_true_pos (st : ReadState) (b w g : Nat) :
    (st.put b w true g).pos = st.pos + 1 := rfl

/-- A kept word is appended behind the write position. -/
theorem ReadState.Filled.put_keep {st : ReadState} {ws : List Nat} (h : st.Filled ws)
    (hpos : st.pos < st.buf.length) (b w g : Nat) : (st.put b w true g).Filled (ws ++ [w]) := by
  obtain ⟨h1, h2⟩ := h
  rw [ReadState.put_true]
  refine ⟨?_, by simp [h2]⟩
  dsimp only
  rw [List.take_add_one, List.take_set_of_le le_rfl, h1, List.getElem?_set_self hpos]
  rfl

/-- A word that is not kept leaves the words before the write position alone. -/
theorem ReadState.Filled.put_skip {st : ReadState} {ws : List Nat} (h : st.Filled ws)
    (b w g : Nat) : (st.put b w false g).Filled ws := by
  obtain ⟨h1, h2⟩ := h
  rw [ReadState.put_false]
  exact ⟨by dsimp only; rw [List.take_set_of_le le_rfl, h1], h2⟩

/-! ## The loops -/

variable {mask : Bool}

/-- The leading field: `intg0x` digits, kept unless zero at the start of the buffer. -/
theorem readLead_spec {x t : Nat} (hx : 0 < x) (hx9 : x ≤ 9) (ht : t < 10 ^ x) {st : ReadState}
    {rest : List UInt8} (hsrc : st.src = storeMasked (dig2bytes x) mask t ++ rest) :
    readLead mask x st = .ok (st.put (dig2bytes x) t (decide (0 < st.pos) || decide (t ≠ 0)) x) := by
  obtain ⟨hd0, hd4⟩ := dig2bytes_pos' hx hx9
  have hw : xorMask mask (sintKorr (dig2bytes x) st.src) = t := by
    rw [hsrc]
    exact xorMask_sintKorr hd0 hd4 (pow_lt_half hx hx9 ht) mask rest
  have hlt : ¬ 10 ^ (x + 1) ≤ t :=
    Nat.not_le.mpr (Nat.lt_of_lt_of_le ht (Nat.pow_le_pow_right (by norm_num) (Nat.le_succ x)))
  simp only [readLead, if_pos hx, hw, if_neg hlt]

theorem storeMasked_words_cons (w : Nat) (ws : List Nat) (rest : List UInt8) :
    ((w :: ws).map (storeMasked 4 mask)).flatten ++ rest =
      storeMasked 4 mask w ++ (((ws.map (storeMasked 4 mask)).flatten) ++ rest) := by
  simp

/-- A word read from four bytes, below `DIG_BASE`, passes the `DIG_MAX` check. -/
theorem read_word {w : Nat} (hw : w < 1000000000) (rest : List UInt8) :
    xorMask mask (sintKorr 4 (storeMasked 4 mask w ++ rest)) = w :=
  xorMask_sintKorr (by norm_num) le_rfl (Nat.lt_trans hw (by norm_num)) mask rest

/-- Every fraction word is kept. -/
theorem readFracWords_spec : ∀ (ws : List Nat) {st : ReadState} {kept : List Nat}
    {rest : List UInt8}, DigitsLt 1000000000 ws →
    st.src = (ws.map (storeMasked 4 mask)).flatten ++ rest → st.Filled kept →
    st.pos + ws.length ≤ st.buf.length →
    ∃ st', readFracWords mask ws.length st = .ok st' ∧ st'.src = rest ∧
      st'.buf.length = st.buf.length ∧ st'.Filled (kept ++ ws) ∧ st'.intg = st.intg
  | [], st, kept, rest, _, hsrc, hf, _ => ⟨st, rfl, by simpa using hsrc, rfl, by simpa using hf, rfl⟩
  | w :: ws, st, kept, rest, hlt, hsrc, hf, hlen => by
    rw [digitsLt_cons] at hlt
    rw [storeMasked_words_cons] at hsrc
    have hw : xorMask mask (sintKorr 4 st.src) = w := by rw [hsrc]; exact read_word hlt.1 _
    have hpos : st.pos < st.buf.length := by simp at hlen; omega
    have hsrc' : (st.put 4 w true 0).src = (ws.map (storeMasked 4 mask)).flatten ++ rest := by
      rw [ReadState.put_src, hsrc, drop_storeMasked]
    obtain ⟨st', h1, h2, h3, h4, h5⟩ := readFracWords_spec ws hlt.2 hsrc'
      (hf.put_keep hpos 4 w 0) (by simp at hlen ⊢; omega)
    refine ⟨st', ?_, h2, by simpa using h3, by simpa using h4, by simpa using h5⟩
    simp only [List.length_cons, readFracWords, hw, if_neg (by omega : ¬ 999999999 < w)]
    exact h1

/-- Once a word is kept, every integer word after it is kept too: the integer loop is then
    the fraction loop. -/
theorem readIntgWords_of_pos : ∀ (n : Nat) (st : ReadState), 0 < st.pos →
    readIntgWords mask n st = readFracWords mask n st
  | 0, _, _ => rfl
  | n + 1, st, h => by
    simp only [readIntgWords, readFracWords]
    split
    · rfl
    · rw [show (decide (0 < st.pos) || decide (_ ≠ 0)) = true by simp [h]]
      exact readIntgWords_of_pos n _ (by simp)

/-- The integer words read with nothing kept yet: the leading zero words are dropped and
    their digits taken off `intg`. -/
theorem readIntgWords_fresh : ∀ (ws : List Nat) {st : ReadState} {rest : List UInt8},
    DigitsLt 1000000000 ws → st.src = (ws.map (storeMasked 4 mask)).flatten ++ rest →
    st.Filled [] → st.pos + ws.length ≤ st.buf.length →
    ∃ st', readIntgWords mask ws.length st = .ok st' ∧ st'.src = rest ∧
      st'.buf.length = st.buf.length ∧ st'.Filled (ws.dropWhile (· == 0)) ∧
      st'.intg = st.intg - 9 * (ws.takeWhile (· == 0)).length
  | [], st, rest, _, hsrc, hf, _ => ⟨st, rfl, by simpa using hsrc, rfl, by simpa using hf, by simp⟩
  | w :: ws, st, rest, hlt, hsrc, hf, hlen => by
    rw [digitsLt_cons] at hlt
    rw [storeMasked_words_cons] at hsrc
    have hw : xorMask mask (sintKorr 4 st.src) = w := by rw [hsrc]; exact read_word hlt.1 _
    have hsrc' : (st.put 4 w (decide (0 < st.pos) || decide (w ≠ 0)) 9).src =
        (ws.map (storeMasked 4 mask)).flatten ++ rest := by
      rw [ReadState.put_src, hsrc, drop_storeMasked]
    have hpos0 : st.pos = 0 := hf.2
    simp only [List.length_cons, readIntgWords, hw, if_neg (by omega : ¬ 999999999 < w)]
    by_cases hw0 : w = 0
    · -- a leading zero word: overwritten, nine digits fewer
      subst hw0
      have hk : (decide (0 < st.pos) || decide ((0 : Nat) ≠ 0)) = false := by simp [hpos0]
      rw [hk] at hsrc' ⊢
      obtain ⟨st', h1, h2, h3, h4, h5⟩ := readIntgWords_fresh ws hlt.2 hsrc' (hf.put_skip 4 0 9)
        (by simp [ReadState.put] at hlen ⊢; omega)
      refine ⟨st', h1, h2, by simpa using h3, by simpa using h4, ?_⟩
      rw [h5, ReadState.put_false_intg]
      simp only [List.takeWhile_cons, beq_self_eq_true, if_true, List.length_cons]
      omega
    · -- the first significant word: it and all after it are kept
      have hk : (decide (0 < st.pos) || decide (w ≠ 0)) = true := by simp [hw0]
      rw [hk] at hsrc' ⊢
      have hpos : st.pos < st.buf.length := by simp at hlen; omega
      obtain ⟨st', h1, h2, h3, h4, h5⟩ := readFracWords_spec ws hlt.2 hsrc'
        ((show st.Filled [] from hf).put_keep hpos 4 w 9) (by simp at hlen ⊢; omega)
      refine ⟨st', ?_, h2, by simpa using h3, ?_, by simp [h5, hw0]⟩
      · rw [readIntgWords_of_pos _ _ (by simp)]
        exact h1
      · simpa [hw0] using h4

/-- The trailing field: `frac0x` digits, scaled back to a full word and kept. -/
theorem readTrail_spec {x t : Nat} (hx : 0 < x) (hx9 : x < 9) (ht : t < 10 ^ x) {st : ReadState}
    (hsrc : st.src = storeMasked (dig2bytes x) mask t) :
    readTrail mask x st = .ok (st.put (dig2bytes x) (t * 10 ^ (9 - x)) true 0) := by
  obtain ⟨hd0, hd4⟩ := dig2bytes_pos' hx (by omega)
  have hw : xorMask mask (sintKorr (dig2bytes x) st.src) = t := by
    rw [hsrc, ← List.append_nil (storeMasked _ _ _)]
    exact xorMask_sintKorr hd0 hd4 (pow_lt_half hx (by omega) ht) mask []
  have hword : t * 10 ^ (9 - x) < 1000000000 := by
    calc t * 10 ^ (9 - x) < 10 ^ x * 10 ^ (9 - x) :=
          Nat.mul_lt_mul_of_pos_right ht (by positivity)
      _ = 1000000000 := pow_mul_pow_sub_nine (by omega)
  have hmod : t * 10 ^ (9 - x) % 2 ^ 32 = t * 10 ^ (9 - x) :=
    Nat.mod_eq_of_lt (Nat.lt_trans hword (by norm_num))
  simp only [readTrail, if_pos hx, hw, hmod, if_neg (by omega : ¬ 999999999 < t * 10 ^ (9 - x))]

/-! ## The integer part and the fraction part -/

theorem length_takeWhile_add_dropWhile (l : List Nat) :
    (l.takeWhile (· == 0)).length + (l.dropWhile (· == 0)).length = l.length := by
  rw [← List.length_append, List.takeWhile_append_dropWhile]

theorem except_ok_bind {α β ε : Type} (a : α) (f : α → Except ε β) : (Except.ok a >>= f) = f a :=
  rfl

/-- The leading field and the integer words, read from the start of the buffer: the integer
    fields with their leading zero fields dropped, and as many digits as the words kept
    need. -/
theorem readIntPart_spec {x n t : Nat} {ws : List Nat} (hx : x < 9) (ht : t < 10 ^ x)
    (hws : DigitsLt 1000000000 ws) (hn : ws.length = n) {st : ReadState} {rest : List UInt8}
    (hsrc : st.src = storeMasked (dig2bytes x) mask t ++ ((ws.map (storeMasked 4 mask)).flatten ++
      rest))
    (hf : st.Filled []) (hintg : st.intg = 9 * n + x)
    (hlen : st.pos + roundUp (9 * n + x) ≤ st.buf.length) :
    ∃ st', (readLead mask x st >>= readIntgWords mask n) = .ok st' ∧ st'.src = rest ∧
      st'.buf.length = st.buf.length ∧
      st'.Filled (((if 0 < x then [t] else []) ++ ws).dropWhile (· == 0)) ∧
      roundUp st'.intg = (((if 0 < x then [t] else []) ++ ws).dropWhile (· == 0)).length := by
  have hpos0 : st.pos = 0 := hf.2
  have hz := length_takeWhile_add_dropWhile ws
  rcases Nat.eq_zero_or_pos x with rfl | hx0
  · -- no leading field: `readLead` does nothing
    have hsrc' : st.src = (ws.map (storeMasked 4 mask)).flatten ++ rest := by
      rw [hsrc]
      simp [storeMasked, dig2bytes]
    obtain ⟨st', h1, h2, h3, h4, h5⟩ := readIntgWords_fresh ws hws hsrc' hf
      (by rw [roundUp_eq] at hlen; omega)
    refine ⟨st', ?_, h2, h3, by simpa using h4, ?_⟩
    · rw [show readLead mask 0 st = .ok st from rfl, except_ok_bind, ← hn]
      exact h1
    · simp only [Nat.lt_irrefl, if_false, List.nil_append]
      rw [h5, hintg, roundUp_eq]
      omega
  have hlead := readLead_spec hx0 (by omega) ht hsrc
  have hsrc1 : ∀ k, (st.put (dig2bytes x) t k x).src = (ws.map (storeMasked 4 mask)).flatten ++ rest := by
    intro k
    rw [ReadState.put_src, hsrc, drop_storeMasked]
  by_cases ht0 : t = 0
  · -- a zero leading field: dropped with its digits
    subst ht0
    have hk : (decide (0 < st.pos) || decide ((0 : Nat) ≠ 0)) = false := by simp [hpos0]
    rw [hk] at hlead
    obtain ⟨st', h1, h2, h3, h4, h5⟩ := readIntgWords_fresh ws hws (hsrc1 false)
      (hf.put_skip _ 0 x) (by simp [ReadState.put_false, roundUp_eq] at hlen ⊢; omega)
    refine ⟨st', ?_, h2, by simpa using h3, by simpa [hx0] using h4, ?_⟩
    · rw [hlead, except_ok_bind, ← hn]
      exact h1
    · simp only [hx0, if_true, List.singleton_append, List.dropWhile_cons, beq_self_eq_true,
        if_true]
      rw [h5, ReadState.put_false_intg, hintg, roundUp_eq]
      omega
  · -- a significant leading field: it and every word after it are kept
    have hk : (decide (0 < st.pos) || decide (t ≠ 0)) = true := by simp [ht0]
    rw [hk] at hlead
    have hpos : st.pos < st.buf.length := by rw [roundUp_eq] at hlen; omega
    obtain ⟨st', h1, h2, h3, h4, h5⟩ := readFracWords_spec ws hws (hsrc1 true)
      (hf.put_keep hpos _ t x) (by simp [roundUp_eq] at hlen ⊢; omega)
    have hdrop : (t :: ws).dropWhile (· == 0) = t :: ws := by
      simp [ht0]
    refine ⟨st', ?_, h2, by simpa using h3, ?_, ?_⟩
    · rw [hlead, except_ok_bind, readIntgWords_of_pos _ _ (by simp), ← hn]
      exact h1
    · simpa [hx0, hdrop] using h4
    · simp only [hx0, if_true, List.singleton_append, hdrop, List.length_cons]
      rw [h5, ReadState.put_true_intg, hintg, roundUp_eq]
      omega

/-- The fraction words and the trailing field, all kept. -/
theorem readFracPart_spec {y n t : Nat} {ws : List Nat} (hy : y < 9) (ht : t < 10 ^ y)
    (hws : DigitsLt 1000000000 ws) (hn : ws.length = n) {st : ReadState} {kept : List Nat}
    (hsrc : st.src = (ws.map (storeMasked 4 mask)).flatten ++ storeMasked (dig2bytes y) mask t)
    (hf : st.Filled kept) (hlen : st.pos + n + (if 0 < y then 1 else 0) ≤ st.buf.length) :
    ∃ st', (readFracWords mask n st >>= readTrail mask y) = .ok st' ∧
      st'.buf.length = st.buf.length ∧
      st'.Filled (kept ++ ws ++ (if 0 < y then [t * 10 ^ (9 - y)] else [])) ∧
      st'.intg = st.intg := by
  obtain ⟨st', h1, h2, h3, h4, h5⟩ := readFracWords_spec ws hws hsrc hf (by omega)
  rw [← hn, h1, except_ok_bind]
  rcases Nat.eq_zero_or_pos y with rfl | hy0
  · exact ⟨st', rfl, h3, by simpa using h4, h5⟩
  · have hpos : st'.pos < st'.buf.length := by
      rw [h4.2, h3, List.length_append, ← hf.2]
      simp only [hy0, if_true] at hlen
      omega
    refine ⟨_, readTrail_spec hy0 hy ht h2, by simp [h3], ?_, by simp [h5]⟩
    simpa [hy0] using h4.put_keep hpos _ (t * 10 ^ (9 - y)) 0

/-! ## The row read back -/

/-- The row of fields as bytes: the leading field, the integer words, the fraction words and
    the trailing field. -/
theorem mrEncode_binFields_eq {precision scale : Nat} (M : Nat) :
    mrEncode (binFields precision scale) M =
      beBytes (dig2bytes ((precision - scale) % 9))
          (M / 10 ^ scale / 1000000000 ^ ((precision - scale) / 9) % 10 ^ ((precision - scale) % 9)) ++
        (((digitsOf 1000000000 ((precision - scale) / 9)
            (M / 10 ^ scale % 1000000000 ^ ((precision - scale) / 9))).map (beBytes 4)).flatten ++
        (((digitsOf 1000000000 (scale / 9) (M % 10 ^ scale / 10 ^ (scale % 9))).map
            (beBytes 4)).flatten ++
          beBytes (dig2bytes (scale % 9)) (M % 10 ^ scale % 10 ^ (scale % 9)))) := by
  rw [binFields, mrEncode_append, radixProd_fracFields, intFields, mrEncode_append,
    radixProd_replicate, fracFields]
  simp only [mrEncode_cons, binField, wordField, mrEncode_replicate_eq, mrEncode_nil,
    List.nil_append, List.append_assoc]

/-- The words the integer fields of `v` are read into: the leading field, if any, and the
    full words. -/
def intFieldWords (intg v : Nat) : List Nat :=
  (if 0 < intg % 9 then [v / 1000000000 ^ (intg / 9) % 10 ^ (intg % 9)] else []) ++
    digitsOf 1000000000 (intg / 9) (v % 1000000000 ^ (intg / 9))

/-- The words the fraction fields of `v` are read into: the full words, and the trailing
    field scaled to a full word. -/
def fracFieldWords (scale v : Nat) : List Nat :=
  digitsOf 1000000000 (scale / 9) (v / 10 ^ (scale % 9)) ++
    (if 0 < scale % 9 then [v % 10 ^ (scale % 9) * 10 ^ (9 - scale % 9)] else [])

theorem intFieldWords_length (intg v : Nat) : (intFieldWords intg v).length = roundUp intg := by
  rw [intFieldWords, List.length_append, digitsOf_length, roundUp_eq]
  split <;> simp <;> omega

theorem fracFieldWords_length (scale v : Nat) :
    (fracFieldWords scale v).length = roundUp scale := by
  rw [fracFieldWords, List.length_append, digitsOf_length, roundUp_eq]
  split <;> simp <;> omega

theorem digitsLt_intFieldWords (intg v : Nat) : DigitsLt 1000000000 (intFieldWords intg v) := by
  rw [intFieldWords, digitsLt_append]
  refine ⟨?_, digitsLt_digitsOf (by norm_num) _ _⟩
  split
  · have hlt : 10 ^ (intg % 9) ≤ 1000000000 :=
      (Nat.pow_le_pow_right (by norm_num) (by omega : intg % 9 ≤ 9)).trans (by norm_num)
    exact digitsLt_cons.mpr ⟨(Nat.mod_lt _ (by positivity)).trans_le hlt, by simp [DigitsLt]⟩
  · simp [DigitsLt]

theorem digitsLt_fracFieldWords (scale v : Nat) :
    DigitsLt 1000000000 (fracFieldWords scale v) := by
  rw [fracFieldWords, digitsLt_append]
  refine ⟨digitsLt_digitsOf (by norm_num) _ _, ?_⟩
  split
  · have hB : 10 ^ (scale % 9) * 10 ^ (9 - scale % 9) = 1000000000 :=
      pow_mul_pow_sub_nine (by omega)
    have hw := Nat.mul_lt_mul_of_pos_right (Nat.mod_lt v (by positivity : 0 < 10 ^ (scale % 9)))
      (by positivity : 0 < 10 ^ (9 - scale % 9))
    exact digitsLt_cons.mpr ⟨hB ▸ hw, by simp [DigitsLt]⟩
  · simp [DigitsLt]

/-- The integer fields read as words give back the integer part. -/
theorem intFieldWords_value {intg v : Nat} (h : v < 10 ^ intg) :
    digitsVal 1000000000 (intFieldWords intg v) = v := by
  rw [intFieldWords]
  have hB := pow_nine_div_mul_mod intg
  have hq : v / 1000000000 ^ (intg / 9) < 10 ^ (intg % 9) :=
    (Nat.div_lt_iff_lt_mul (by positivity)).mpr (by rw [Nat.mul_comm, hB]; exact h)
  rw [digitsVal_append, digitsVal_digitsOf, Nat.mod_mod, digitsOf_length]
  split
  · rw [Nat.mod_eq_of_lt hq]
    simp only [digitsVal_cons, List.length_nil, pow_zero, Nat.mul_one, digitsVal_nil,
      Nat.add_zero]
    exact Nat.div_add_mod' v _
  · rename_i h0
    have hv : v < 1000000000 ^ (intg / 9) := by
      rw [← Nat.mul_one (1000000000 ^ _), show 1 = 10 ^ (intg % 9) by rw [Nat.eq_zero_of_not_pos h0]; rfl,
        hB]
      exact h
    rw [Nat.mod_eq_of_lt hv]
    simp

/-- The fraction fields read as words, the trailing field scaled back to a full word, give
    back the fraction. -/
theorem fracFieldWords_value {scale v : Nat} (h : v < 10 ^ scale) :
    digitsFrac 1000000000 (fracFieldWords scale v) = (v : ℚ) / 10 ^ scale := by
  rw [fracFieldWords]
  have hB := pow_nine_div_mul_mod scale
  have hq : v / 10 ^ (scale % 9) < 1000000000 ^ (scale / 9) :=
    (Nat.div_lt_iff_lt_mul (by positivity)).mpr (by rw [hB]; exact h)
  rw [digitsFrac]
  split
  · -- a trailing field: its word carries `9 - scale % 9` zero digits below the scale
    have hW : (1000000000 : Nat) = 10 ^ (scale % 9) * 10 ^ (9 - scale % 9) :=
      (pow_mul_pow_sub_nine (by omega)).symm
    have hnat : digitsVal 1000000000 (digitsOf 1000000000 (scale / 9) (v / 10 ^ (scale % 9)) ++
          [v % 10 ^ (scale % 9) * 10 ^ (9 - scale % 9)]) = v * 10 ^ (9 - scale % 9) := by
      rw [digitsVal_append_singleton, digitsVal_digitsOf, Nat.mod_eq_of_lt hq, hW,
        ← Nat.mul_assoc, ← Nat.add_mul, Nat.div_add_mod']
    have hlen : (digitsOf 1000000000 (scale / 9) (v / 10 ^ (scale % 9)) ++
        [v % 10 ^ (scale % 9) * 10 ^ (9 - scale % 9)]).length = scale / 9 + 1 := by simp
    have hpow : (1000000000 : ℚ) ^ (scale / 9 + 1) = 10 ^ scale * 10 ^ (9 - scale % 9) := by
      have : (1000000000 : Nat) ^ (scale / 9 + 1) = 10 ^ scale * 10 ^ (9 - scale % 9) := by
        rw [pow_succ, ← hB, hW]
        ring
      exact_mod_cast this
    rw [hnat, hlen]
    push_cast
    rw [hpow]
    field_simp
  · rename_i hy
    have hy0 : scale % 9 = 0 := Nat.eq_zero_of_not_pos hy
    rw [List.append_nil, digitsVal_digitsOf, digitsOf_length, hy0, pow_zero, Nat.div_one,
      Nat.mod_eq_of_lt (by rw [hy0, pow_zero, Nat.mul_one] at hB; rw [hB]; exact h)]
    have : (1000000000 : ℚ) ^ (scale / 9) = 10 ^ scale := by
      rw [hy0, pow_zero, Nat.mul_one] at hB
      exact_mod_cast hB
    push_cast
    rw [this]

theorem take_drop_of_take {buf xs ys : List Nat} (h : buf.take (xs.length + ys.length) = xs ++ ys) :
    buf.take xs.length = xs ∧ (buf.drop xs.length).take ys.length = ys := by
  constructor
  · rw [← Nat.min_eq_left (Nat.le_add_right xs.length ys.length), ← List.take_take, h,
      List.take_left]
  · rw [List.take_drop, h, List.drop_left]

theorem digitsSize_pos {x : Nat} (h : 0 < x) : 0 < digitsSize x := by
  unfold digitsSize
  rcases Nat.eq_zero_or_pos (x % 9) with h0 | h0
  · have : 0 < x / 9 := by omega
    omega
  · have := (dig2bytes_pos' h0 (by omega)).1
    omega

/-- The masked row: the masked leading field, integer words, fraction words and trailing
    field, each as `mi_int*store` writes it. -/
theorem map_maskByte_binFields (mask : Bool) (precision scale M : Nat) :
    (mrEncode (binFields precision scale) M).map (maskByte mask) =
      storeMasked (dig2bytes ((precision - scale) % 9)) mask
          (M / 10 ^ scale / 1000000000 ^ ((precision - scale) / 9) % 10 ^ ((precision - scale) % 9)) ++
        (((digitsOf 1000000000 ((precision - scale) / 9)
            (M / 10 ^ scale % 1000000000 ^ ((precision - scale) / 9))).map (storeMasked 4 mask)).flatten ++
        (((digitsOf 1000000000 (scale / 9) (M % 10 ^ scale / 10 ^ (scale % 9))).map
            (storeMasked 4 mask)).flatten ++
          storeMasked (dig2bytes (scale % 9)) mask (M % 10 ^ scale % 10 ^ (scale % 9)))) := by
  rw [mrEncode_binFields_eq]
  simp only [List.map_append, flatten_map_storeMasked, storeMasked]

/-- The four loops of `bin2decimal` on a masked row of DECIMAL(precision, scale), read from
    the start of the buffer: the integer words without their leading zero words, then every
    fraction word. -/
theorem read_binFields {precision scale M : Nat} {st : ReadState}
    (hsrc : st.src = (mrEncode (binFields precision scale) M).map (maskByte mask))
    (hf : st.Filled []) (hintg : st.intg = (precision - scale) / 9 * 9 + (precision - scale) % 9)
    (hlen : roundUp (precision - scale) + roundUp scale ≤ st.buf.length) :
    ∃ st', (readLead mask ((precision - scale) % 9) st >>=
          readIntgWords mask ((precision - scale) / 9) >>= readFracWords mask (scale / 9) >>=
          readTrail mask (scale % 9)) = .ok st' ∧
      st'.buf.length = st.buf.length ∧
      st'.Filled ((intFieldWords (precision - scale) (M / 10 ^ scale)).dropWhile (· == 0) ++
        fracFieldWords scale (M % 10 ^ scale)) ∧
      roundUp st'.intg =
        ((intFieldWords (precision - scale) (M / 10 ^ scale)).dropWhile (· == 0)).length := by
  rw [map_maskByte_binFields] at hsrc
  have hI := intFieldWords_length (precision - scale) (M / 10 ^ scale)
  obtain ⟨st2, h1, h2, h3, h4, h5⟩ := readIntPart_spec (Nat.mod_lt _ (by norm_num))
    (Nat.mod_lt _ (by positivity)) (digitsLt_digitsOf (by norm_num) _ _) (digitsOf_length _ _ _)
    hsrc hf (by rw [hintg]; ring) (by
      rw [hf.2, List.length_nil, Nat.zero_add,
        show 9 * ((precision - scale) / 9) + (precision - scale) % 9 = precision - scale by omega]
      omega)
  -- the integer words kept are at most the integer fields
  have hkept := List.length_dropWhile_le (· == 0)
    (intFieldWords (precision - scale) (M / 10 ^ scale))
  rw [intFieldWords] at hkept hI
  have hfr : scale / 9 + (if 0 < scale % 9 then 1 else 0) = roundUp scale := by
    rw [roundUp_eq]
    split <;> omega
  obtain ⟨st4, h6, h7, h8, h9⟩ := readFracPart_spec (Nat.mod_lt _ (by norm_num))
    (Nat.mod_lt _ (by positivity)) (digitsLt_digitsOf (by norm_num) _ _) (digitsOf_length _ _ _)
    h2 h4 (by rw [h4.2, h3, Nat.add_assoc, hfr]; omega)
  refine ⟨st4, ?_, by rw [h7, h3], ?_, by rw [h9, h5, intFieldWords]⟩
  · rw [h1, except_ok_bind]
    exact h6
  · rw [intFieldWords, fracFieldWords, ← List.append_assoc]
    exact h8

/-- The decimal the reader leaves, when the words behind the write position are the integer
    words kept and then the fraction words: it is well formed and has exactly those words. -/
theorem ReadState.Filled.decimal {st : ReadState} {kept fw : List Nat} {scale : Nat}
    (sign : Bool) (hf : st.Filled (kept ++ fw)) (hk : roundUp st.intg = kept.length)
    (hfw : fw.length = roundUp scale) (hd : DigitsLt 1000000000 (kept ++ fw)) :
    (DecimalT.mk st.intg scale sign st.buf).WellFormed ∧
      (DecimalT.mk st.intg scale sign st.buf).intWords = kept ∧
      (DecimalT.mk st.intg scale sign st.buf).fracWords = fw := by
  obtain ⟨htake, hpos⟩ := hf
  have hsum : roundUp st.intg + roundUp scale = st.pos := by
    rw [hpos, List.length_append, hk, hfw]
  have hle : st.pos ≤ st.buf.length := by
    have hl := congrArg List.length htake
    rw [List.length_take, ← hpos] at hl
    omega
  obtain ⟨h1, h2⟩ := take_drop_of_take
    (show st.buf.take (kept.length + fw.length) = kept ++ fw by
      rw [← List.length_append, ← hpos, htake])
  refine ⟨⟨?_, ?_⟩, ?_, ?_⟩ <;> dsimp only [DecimalT.len, DecimalT.intWords, DecimalT.fracWords]
  · omega
  · rw [hsum, htake]
    exact hd
  · rw [hk]
    exact h1
  · rw [hk, ← hfw]
    exact h2

/-- The integer part and the fraction of `M` at `scale` digits make `M / 10^scale`. -/
theorem div_add_mod_cast (M q : Nat) (hq : 0 < q) :
    ((M / q : Nat) : ℚ) + ((M % q : Nat) : ℚ) / q = (M : ℚ) / q := by
  have h : ((q * (M / q) + M % q : Nat) : ℚ) = M := by rw [Nat.div_add_mod]
  rw [← h]
  push_cast
  field_simp

theorem decimalBinSize_pos {precision scale : Nat} (hp : 0 < precision) :
    0 < decimalBinSize precision scale := by
  rw [decimalBinSize_eq]
  rcases Nat.eq_zero_or_pos scale with h0 | h0
  · have := digitsSize_pos (x := precision - scale) (by omega)
    omega
  · have := digitsSize_pos h0
    omega

/-- `bin2decimal` on the bytes of `±M` in the format of DECIMAL(precision, scale): `E_DEC_OK`
    and a well-formed decimal of `scale` fraction digits whose value is `±M / 10^scale`. -/
theorem bin2decimal_encoded {precision scale M : Nat} (sign : Bool) (hp : 0 < precision)
    (hs : scale ≤ precision) (hM : M < 10 ^ precision) (hz : sign = true → 0 < M)
    {dst : DecimalT} (hlen : roundUp (precision - scale) + roundUp scale ≤ dst.len) :
    ∃ r, bin2decimal (flipFirst ((mrEncode (binFields precision scale) M).map (maskByte sign)))
        dst precision scale = (.ok, r) ∧
      r.frac = scale ∧ r.WellFormed ∧ ¬ r.NegZero ∧
      r.val = (if sign then -(M : ℚ) else M) / 10 ^ scale := by
  have hE0 : 0 < (mrEncode (binFields precision scale) M).length := by
    rw [mrEncode_length, widthSum_binFields]
    exact decimalBinSize_pos hp
  have hEh := beVal_mrEncode_lt_half (fieldsHalf_binFields precision scale) M
  rw [← mrEncode_length] at hEh
  have hmask := signBit_eq hE0 hEh sign
  have hfix : ¬ dst.len < (precision - scale) / 9 + (if 0 < (precision - scale) % 9 then 1 else 0) +
      (scale / 9 + (if 0 < scale % 9 then 1 else 0)) := by
    rw [roundUp_eq_div_add, roundUp_eq_div_add] at hlen
    split <;> split <;> split at hlen <;> split at hlen <;> omega
  simp only [bin2decimal, hmask, flipFirst_flipFirst, fixIntgFracError, hfix, if_false, ne_eq,
    not_true_eq_false, decide_false, Bool.false_and, Bool.false_eq_true]
  have hsrc0 : (ReadState.mk ((mrEncode (binFields precision scale) M).map (maskByte sign))
      dst.buf 0 ((precision - scale) / 9 * 9 + (precision - scale) % 9)).src =
      (mrEncode (binFields precision scale) M).map (maskByte sign) := rfl
  obtain ⟨st, hrun, hbuf, hfill, hint⟩ := read_binFields hsrc0 ⟨rfl, rfl⟩ rfl hlen
  rw [hrun, Nat.div_add_mod' scale 9]
  dsimp only
  -- what the words read back are worth
  have hIP : M / 10 ^ scale < 10 ^ (precision - scale) := by
    rw [Nat.div_lt_iff_lt_mul (by positivity), ← pow_add, Nat.sub_add_cancel hs]
    exact hM
  have hvk : digitsVal 1000000000
      ((intFieldWords (precision - scale) (M / 10 ^ scale)).dropWhile (· == 0)) =
      M / 10 ^ scale := by
    rw [digitsVal_dropWhile_zero, intFieldWords_value hIP]
  have hd : DigitsLt 1000000000
      ((intFieldWords (precision - scale) (M / 10 ^ scale)).dropWhile (· == 0) ++
        fracFieldWords scale (M % 10 ^ scale)) :=
    digitsLt_append.mpr ⟨fun w hw => digitsLt_intFieldWords _ _ w
      ((List.dropWhile_sublist _).subset hw), digitsLt_fracFieldWords _ _⟩
  by_cases hzero : st.intg = 0 ∧ scale = 0
  · -- no digits at all: `decimal_make_zero`, and then `M` is zero and the sign clear
    obtain ⟨hi0, rfl⟩ := hzero
    have hk0 : (intFieldWords (precision - 0) (M / 10 ^ 0)).dropWhile (· == 0) = [] :=
      List.length_eq_zero_iff.mp (by rw [← hint, hi0]; rfl)
    have hM0 : M = 0 := by
      rw [hk0, digitsVal_nil, pow_zero, Nat.div_one] at hvk
      exact hvk.symm
    have hs0 : sign = false := by
      cases sign
      · rfl
      · exact absurd (hz rfl) (by omega)
    subst hM0 hs0
    have hlen0 : 0 < (DecimalT.mk st.intg 0 false st.buf).len := by
      have hb : st.buf.length = dst.buf.length := hbuf
      simp only [DecimalT.len, hb] at hlen ⊢
      rw [roundUp_eq] at hlen
      omega
    obtain ⟨hw, habs⟩ := decimalMakeZero_wellFormed hlen0
    rw [if_pos ⟨hi0, rfl⟩]
    refine ⟨_, rfl, decimalMakeZero_frac _, hw, fun h => absurd h.1 (by simp), ?_⟩
    rw [DecimalT.val, habs]
    simp
  · -- the words kept and the fraction words, under the sign read from the first byte
    rw [if_neg hzero]
    obtain ⟨hw, hiw, hfw⟩ := hfill.decimal sign hint (fracFieldWords_length _ _) hd
    have habs : (DecimalT.mk st.intg scale sign st.buf).absVal = (M : ℚ) / 10 ^ scale := by
      rw [DecimalT.absVal, hiw, hfw, hvk, fracFieldWords_value (Nat.mod_lt _ (by positivity))]
      exact_mod_cast div_add_mod_cast M (10 ^ scale) (by positivity)
    refine ⟨_, rfl, rfl, hw, ?_, ?_⟩
    · rintro ⟨hsg, h0⟩
      have hM0 : (0 : ℚ) < M := by exact_mod_cast hz hsg
      rw [habs] at h0
      exact absurd h0 (by positivity)
    · rw [DecimalT.val, habs]
      cases sign <;> simp [neg_div]

end MariaDB.Decimal
