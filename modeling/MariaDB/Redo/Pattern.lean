import MariaDB.Redo.Replay

/-
  The repeating-pattern `MEMSET`: `mtr_t::memset(const buf_block_t *b, ofs, len, str, size)`
  (mtr0log.h), which fills a range of the page with copies of a pattern and logs the fill,
  and the `MEMSET` branch of `log_phys_t::apply` (log0recv.cc), which redoes it.

  Model. `memsetPattern` and `memsetPatternLoop` (Mtr) are the writer as the source writes it:
  `while (s < len) { ::memcpy(ofs + s + frame, str, size); s+= len; }`, then
  `::memcpy(ofs + s + frame, str, len - s)`. `memsetLoop` and `applyMemset` (Apply) are the
  applier: `for (s= 0; s < llen; s+= rlen) memcpy(frame + last_offset + s, l, rlen)`, then
  `memcpy(frame + last_offset + s, l, llen - s)`, where a copy past the range is `undefined`.

  The two loops step differently. The writer adds `len`, so it makes one copy and its tail
  copy has length `0`: the page gets the pattern once, at `ofs`, and the rest of the range
  keeps what it had (`memsetPattern_frame`). The applier adds the pattern's length, so it
  makes copies until `s` reaches `llen`. When the length divides `len` it fills the range with
  copies (`applyMemset_of_dvd`); otherwise its last copy runs past the range and `llen - s`
  wraps (`applyMemset_of_not_dvd`). The record itself is what the applier expects
  (`memsetPattern_redo`): it is the page and the redo that disagree.

  Proved:
  * `memsetPattern_frame`, `memsetPattern_log`: the writer's frame and record;
  * `memsetLoop_copies`, `memsetLoop_fst_dvd`: the applier's loop;
  * `applyMemset_of_dvd`, `applyMemset_of_not_dvd`: the applier's fill;
  * `memsetPattern_redo`, `memsetPattern_apply`: for every page and range, the writer's frame,
    and what the loop of `log_phys_t::apply` makes of the record it logs;
  * `memset_pattern_page_and_redo_differ`: a 2-byte pattern over 4 bytes, and over 5.
-/

namespace MariaDB.Redo

open MariaDB.Lib

/-! ## The writer -/

section Writer

variable (space pageNo : Nat)

/-- The writer's loop: its first turn copies the pattern to `ofs` and sets `s` to `len`,
    which ends it. -/
theorem memsetPatternLoop_once (str : List UInt8) (ofs : Nat) {len : Nat} (hpos : 0 < len)
    (fuel : Nat) (frame : List UInt8) :
    memsetPatternLoop str ofs len (fuel + 1) 0 frame = (len, writeAt frame ofs str) := by
  cases fuel <;> simp [memsetPatternLoop, hpos]

/-- `mtr_t::memset(b, ofs, len, str, size)` writes the pattern once, at `ofs`: after the
    loop `s` is `len`, and the trailing copy has length `len - s = 0`. -/
theorem memsetPattern_frame (frame : List UInt8) (m : Mtr) (ofs : Nat) {len : Nat}
    (hpos : 0 < len) (str : List UInt8) :
    (memsetPattern space pageNo frame m ofs len str).1 = writeAt frame ofs str := by
  obtain ⟨fuel, rfl⟩ : ∃ fuel, len = fuel + 1 := ⟨len - 1, by omega⟩
  rw [memsetPattern, memsetPatternLoop_once str ofs hpos]
  simp

theorem memsetPattern_log (frame : List UInt8) (m : Mtr) (ofs len : Nat) (str : List UInt8) :
    (memsetPattern space pageNo frame m ofs len str).2 =
      memsetPatternLog space pageNo m ofs len str := by
  unfold memsetPattern
  split
  rfl

end Writer

/-! ## The applier -/

section Applier

variable {pat : List UInt8} {base llen : Nat}

/-- The applier's loop from `s`, with `j` copies still to make before `s` reaches `llen`
    exactly: it makes them end to end and stops at `llen`. -/
theorem memsetLoop_copies (hn : 0 < pat.length) :
    ∀ (j fuel s : Nat) (frame : List UInt8), s + pat.length * j = llen → j ≤ fuel →
      base + llen ≤ frame.length →
      memsetLoop pat base llen fuel s frame =
        (llen, writeAt frame (base + s) (List.replicate j pat).flatten)
  | 0, fuel, s, frame, hs, _, _ => by
    rw [Nat.mul_zero, Nat.add_zero] at hs
    subst hs
    cases fuel <;> simp [memsetLoop]
  | j + 1, 0, _, _, _, hj, _ => absurd hj (by omega)
  | j + 1, fuel + 1, s, frame, hs, hj, hf => by
    -- one copy at `s`, then the other `j` from `s + size`, which joins them
    rw [Nat.mul_succ] at hs
    have hlen : (writeAt frame (base + s) pat).length = frame.length :=
      length_writeAt (by omega)
    have hrest : ((List.replicate j pat).flatten).length = pat.length * j := by
      rw [length_flatten_replicate, Nat.mul_comm]
    rw [memsetLoop, if_pos (by omega),
      memsetLoop_copies hn j fuel (s + pat.length) _ (by omega) (by omega) (by rw [hlen]; exact hf),
      ← Nat.add_assoc, writeAt_writeAt_append (by omega), List.replicate_succ, List.flatten_cons]

/-- Every `s` the applier's loop reaches is a multiple of the pattern's length. -/
theorem memsetLoop_fst_dvd :
    ∀ (fuel s : Nat) (frame : List UInt8), pat.length ∣ s →
      pat.length ∣ (memsetLoop pat base llen fuel s frame).1
  | 0, _, _, h => h
  | fuel + 1, s, frame, h => by
    unfold memsetLoop
    split
    · exact memsetLoop_fst_dvd fuel _ _ (Nat.dvd_add h (Nat.dvd_refl _))
    · exact h

/-- A `MEMSET` whose pattern length divides `len` fills the range with copies of the
    pattern: by the loop for a longer pattern, by `memset` for one byte. -/
theorem applyMemset_of_dvd {frame l : List UInt8} {lastOffset len rlen : Nat}
    (status : ApplyStatus) (hn : 0 < rlen) (hl : rlen ≤ l.length) (hd : rlen ∣ len)
    (hf : lastOffset + len ≤ frame.length) :
    applyMemset frame lastOffset status len l rlen =
      .applied (writeAt frame lastOffset (List.replicate (len / rlen) (l.take rlen)).flatten)
        ((lastOffset + len) % 2 ^ 16) status := by
  have hpl : (l.take rlen).length = rlen := by rw [List.length_take]; omega
  by_cases h1 : rlen = 1
  · -- one byte: `memset(frame + last_offset, *l, llen)`
    subst h1
    obtain ⟨b, l', rfl⟩ : ∃ b l', l = b :: l' := List.exists_cons_of_length_pos (by omega)
    rw [applyMemset, if_neg (by decide), Nat.div_one, List.take_one, List.head?_cons,
      Option.toList_some, List.flatten_replicate_singleton]
    rfl
  · have hloop := @memsetLoop_copies (l.take rlen) lastOffset len (by omega) (len / rlen) len 0
      frame (by rw [hpl, Nat.zero_add, Nat.mul_div_cancel' hd]) (Nat.div_le_self len rlen) hf
    rw [applyMemset, if_pos h1, if_neg (by omega), hloop, Nat.add_zero]
    simp

/-- A `MEMSET` whose pattern length does not divide `len` is undefined: the loop's last copy
    runs past the range and the trailing `memcpy` gets the wrapped length `llen - s`. -/
theorem applyMemset_of_not_dvd {frame l : List UInt8} {lastOffset len rlen : Nat}
    (status : ApplyStatus) (hn : 0 < rlen) (hl : rlen ≤ l.length) (hd : ¬ rlen ∣ len) :
    applyMemset frame lastOffset status len l rlen = .undefined := by
  have hpl : (l.take rlen).length = rlen := by rw [List.length_take]; omega
  have h1 : rlen ≠ 1 := fun h => hd (h ▸ Nat.one_dvd len)
  -- the loop stops at a multiple of the pattern length, which `len` is not
  have hs : (memsetLoop (l.take rlen) lastOffset len len 0 frame).1 ≠ len := by
    intro h
    have hdvd := @memsetLoop_fst_dvd (l.take rlen) lastOffset len len 0 frame (Nat.dvd_zero _)
    rw [h, hpl] at hdvd
    exact hd hdvd
  rw [applyMemset, if_pos h1, if_neg (by omega)]
  split
  next s f heq =>
    rw [heq] at hs
    exact if_neg hs

end Applier

/-! ## The record through the loop of `log_phys_t::apply` -/

section Redo

variable {env : ApplyEnv}

/-- The record `mtr_t::memset(b, ofs, len, str, size)` logs: the header, `len`, the
    pattern. -/
def memsetPatternRecord (space pageNo : Nat) (m : Mtr) (ofs len : Nat) (str : List UInt8) :
    List UInt8 :=
  logWrite .memset space pageNo m.last m.lastOffset
    ((if len < min2Byte then 1 else if len < min3Byte then 2 else 3) + str.length) ofs ++
    (mlogEncodeVarint len ++ str)

theorem memsetPatternLog_eq (space pageNo : Nat) (m : Mtr) (ofs len : Nat) (str : List UInt8) :
    (memsetPatternLog space pageNo m ofs len str).log =
      m.log ++ memsetPatternRecord space pageNo m ofs len str := by
  simp only [memsetPatternLog, memsetPatternRecord, List.append_assoc]

/-- The loop on the record: its body is the `MEMSET` of `applyMemset` at `ofs`, on the
    pattern and what follows it. -/
theorem memsetPatternRecord_loop (hs : env.space < 2 ^ 32) (hp : env.pageNo < 2 ^ 32)
    (hsize : env.size ≤ 65536) {m : Mtr} {lo : Nat} (hag : Agrees m lo) {ofs len : Nat}
    {str : List UInt8} (h8 : 8 ≤ ofs) (hend : ofs + len ≤ env.size) (hlt : str.length < len)
    (fuel : Nat) (frame rest : List UInt8) (st : ApplyStatus) :
    applyLoop env (fuel + 1) (memsetPatternRecord env.space env.pageNo m ofs len str ++ rest)
        frame lo st =
      match applyMemset frame ofs st len (str ++ rest) str.length with
      | .applied frame lastOffset status => applyLoop env fuel rest frame lastOffset status.touch
      | .notSamePage => applyLoop env fuel rest frame 1 st
      | .recordCorrupted lastOffset =>
        if env.forceRecovery = 0 then .done st frame lastOffset true
        else applyLoop env fuel rest frame 1 st
      | .pageCorrupted frame lastOffset => .done .appliedCorrupted frame lastOffset false
      | .undefined => .undefined := by
  obtain ⟨hsum, hne1⟩ := hag.base .memset ofs
  have hll := length_mlogEncodeVarint_le_three (show len < min4Byte by rw [min4Byte_eq]; omega)
  rw [memsetPatternRecord, varintLen_eq (by rw [min4Byte_eq]; omega),
    applyLoop_logWrite_record rfl hs hp (by omega) (by omega) (by simp),
    applyRecord_memsetPattern frame rest st str hne1 hsum h8 hend (by omega) hsize] <;>
  -- the two `match`es are one up to their auxiliary matchers, which a module does not share
  rfl

/-- What the writer does to the page and what the redo of its record does, for every page,
    range and pattern the source allows: the page gets the pattern once; the redo fills the
    range with copies when the pattern's length divides `len`, and is undefined otherwise. -/
theorem memsetPattern_redo (hs : env.space < 2 ^ 32) (hp : env.pageNo < 2 ^ 32)
    (hsize : env.size ≤ 65536) {frame : List UInt8} (hframe : frame.length = env.size)
    (m : Mtr) (ofs len : Nat) (str : List UInt8) (h8 : 8 ≤ ofs) (hend : ofs + len ≤ env.size)
    (hn : 0 < str.length) (hlt : str.length < len) :
    (memsetPattern env.space env.pageNo frame m ofs len str).1 = writeAt frame ofs str ∧
      (memsetPattern env.space env.pageNo frame m ofs len str).2.log =
        m.log ++ memsetPatternRecord env.space env.pageNo m ofs len str ∧
      ∀ lo, Agrees m lo → ∀ fuel rest st,
        applyLoop env (fuel + 1) (memsetPatternRecord env.space env.pageNo m ofs len str ++ rest)
            frame lo st =
          if str.length ∣ len then
            applyLoop env fuel rest
              (writeAt frame ofs (List.replicate (len / str.length) str).flatten)
              ((ofs + len) % 2 ^ 16) st.touch
          else .undefined := by
  refine ⟨memsetPattern_frame _ _ frame m ofs (by omega) str,
    by rw [memsetPattern_log, memsetPatternLog_eq], fun lo hag fuel rest st => ?_⟩
  rw [memsetPatternRecord_loop hs hp hsize hag h8 hend hlt]
  by_cases hd : str.length ∣ len
  · rw [if_pos hd, applyMemset_of_dvd st hn (by simp) hd (by omega), List.take_left' rfl]
  · rw [if_neg hd, applyMemset_of_not_dvd st hn (by simp) hd]

/-- `log_phys_t::apply` on the log of a mini-transaction that made only this fill. -/
theorem memsetPattern_apply (hs : env.space < 2 ^ 32) (hp : env.pageNo < 2 ^ 32)
    (hsize : env.size ≤ 65536) {frame : List UInt8} (hframe : frame.length = env.size)
    (ofs len : Nat) (str : List UInt8) (h8 : 8 ≤ ofs) (hend : ofs + len ≤ env.size)
    (hn : 0 < str.length) (hlt : str.length < len) (lo : Nat) :
    logPhysApply env (memsetPattern env.space env.pageNo frame mtrStart ofs len str).2.log
        frame lo =
      if str.length ∣ len then
        .done .appliedYes (writeAt frame ofs (List.replicate (len / str.length) str).flatten)
          ((ofs + len) % 2 ^ 16) false
      else .undefined := by
  obtain ⟨-, hlog, hredo⟩ := memsetPattern_redo hs hp hsize hframe mtrStart ofs len str h8 hend
    hn hlt
  -- the record is not empty: one more turn of the loop reads the terminating `0`
  obtain ⟨k, hk⟩ : ∃ k, (memsetPatternRecord env.space env.pageNo mtrStart ofs len str).length =
      k + 1 :=
    ⟨_, (Nat.succ_pred_eq_of_pos (by simp [memsetPatternRecord, length_logWrite_pos])).symm⟩
  rw [logPhysApply, hlog, show mtrStart.log = [] from rfl, List.nil_append,
    hredo lo (agrees_start lo), hk]
  split_ifs <;> rfl

/-- `mtr_t::memset(b, TRX_UNDO_PAGE_HDR + TRX_UNDO_PAGE_START, 4, str, 2)` with the pattern
    `01 02` on a zero page of the 4 KiB `samplePage`: the page gets `01 02 00 00`, the redo of
    the record it logs gives `01 02 01 02`. With `len` 5 the redo is undefined. -/
theorem memset_pattern_page_and_redo_differ :
    readAt (memsetPattern 5 3 (List.replicate 4096 0) mtrStart 40 4 [1, 2]).1 40 4 =
        [1, 2, 0, 0] ∧
      logPhysApply samplePage (memsetPattern 5 3 (List.replicate 4096 0) mtrStart 40 4
          [1, 2]).2.log (List.replicate 4096 0) 0 =
        .done .appliedYes (writeAt (List.replicate 4096 0) 40 [1, 2, 1, 2]) 44 false ∧
      readAt (writeAt (List.replicate 4096 0) 40 [1, 2, 1, 2]) 40 4 = [1, 2, 1, 2] ∧
      logPhysApply samplePage (memsetPattern 5 3 (List.replicate 4096 0) mtrStart 40 5
          [1, 2]).2.log (List.replicate 4096 0) 0 = .undefined := by
  have hf : (List.replicate 4096 (0 : UInt8)).length = samplePage.size := by
    rw [List.length_replicate]
    rfl
  refine ⟨?_, ?_, by decide, ?_⟩
  · rw [memsetPattern_frame 5 3 _ mtrStart 40 (by decide) [1, 2]]
    decide
  · have h := memsetPattern_apply (by decide) (by decide) (by decide) hf 40 4 [1, 2] (by decide)
      (by decide) (by decide) (by decide) 0
    rw [if_pos (by decide)] at h
    exact h
  · have h := memsetPattern_apply (by decide) (by decide) (by decide) hf 40 5 [1, 2] (by decide)
      (by decide) (by decide) (by decide) 0
    rw [if_neg (by decide)] at h
    exact h

end Redo

end MariaDB.Redo
