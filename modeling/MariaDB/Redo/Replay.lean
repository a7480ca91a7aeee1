import MariaDB.Redo.Apply
import MariaDB.Redo.Mtr

/-
  Page redo logging is replayed faithfully: the records the page operations of a
  mini-transaction log, applied by `log_phys_t::apply` to the page as it was before, give the
  frame the operations produced.

  Model. The writer's `m_last_offset` and the applier's `last_offset` each track where the last
  write to the page ended; `Agrees` says that they are equal whenever the writer may make the
  next record same-page, so that an offset the writer makes relative is made absolute again.
  One operation's record is one turn of the apply loop (`PageOp.run_replay`), and a run of
  operations is an induction over them (`runOps_replay`).

  Proved:
  * `applyLoop_logWrite`: the loop reads a record `log_write` headed up to its offset field and
    goes on after its payload;
  * `memcpyLow_replay`, `memsetLog_replay`, `memmoveLog_replay`: each record redoes its write;
  * `PageOp.run_replay`, `runOps_replay`: one operation, then a run of them;
  * `redo_replay_faithful`: the records of any run of valid operations are applied without
    corruption and give the frame the run produced, which differs from the old one only where
    an operation wrote.
-/

namespace MariaDB.Redo

open MariaDB.Lib

/-! ## Writer and applier agree on the last offset -/

/-- The applier's `last_offset` is the writer's `m_last_offset` whenever the writer may make
    the next record same-page, and then it is not the marker `1` of a record that forbids
    one. -/
def Agrees (m : Mtr) (lo : Nat) : Prop :=
  m.last = true → lo = m.lastOffset ∧ m.lastOffset ≠ 1

theorem agrees_start (lo : Nat) : Agrees mtrStart lo := by
  intro h
  exact absurd h Bool.false_ne_true

/-- After a write that ends at `e`, both sides are at `e` as a `uint16_t`. -/
theorem agrees_of_end (log : List UInt8) {e : Nat} (h9 : 9 ≤ e) (he : e ≤ 65536) :
    Agrees ⟨log, true, e % 2 ^ 16⟩ (e % 2 ^ 16) := by
  intro _
  refine ⟨rfl, show e % 2 ^ 16 ≠ 1 from ?_⟩
  -- `e % 2^16` is `e` below `2^16`, and `0` at it
  rcases Nat.lt_or_ge e 65536 with h | h
  · rw [Nat.mod_eq_of_lt (show e < 2 ^ 16 by omega)]
    omega
  · rw [show e = 65536 by omega]
    decide

/-- Where the applier puts a write: at its `last_offset` after the header, plus the offset as
    written; that is where the writer wrote. -/
theorem Agrees.base {m : Mtr} {lo : Nat} (hag : Agrees m lo) (type : MrecType) (offset : Nat) :
    (if logWriteRelative type m.last m.lastOffset offset then lo else 0) +
        logWriteOffset type m.last m.lastOffset offset = offset ∧
      (if logWriteRelative type m.last m.lastOffset offset then lo else 0) ≠ 1 := by
  unfold logWriteOffset
  cases hr : logWriteRelative type m.last m.lastOffset offset
  · simp
  · -- a relative offset: the record follows one on this page, which ended at or before it
    have hrel : m.last = true ∧ m.lastOffset ≤ offset := by
      simp only [logWriteRelative, Bool.and_eq_true, decide_eq_true_eq] at hr
      exact ⟨hr.1.2, hr.2⟩
    obtain ⟨hlo, hne⟩ := hag hrel.1
    simp only [if_true]
    omega

/-! ## One record through the loop -/

theorem logWriteOffsetField_of_hasOffset {type : MrecType} (ht : type.hasOffset = true)
    (sameBlock : Bool) (lastOffset offset : Nat) :
    logWriteOffsetField type sameBlock lastOffset offset =
      mlogEncodeVarint (logWriteOffset type sameBlock lastOffset offset) := by
  simp [logWriteOffsetField, offsetField, ht]

/-- A record whose header `log_write` wrote, with an offset field: the loop skips the size
    field and the page identifier, starts `last_offset` afresh unless the record is
    same-page, and hands the offset field and the payload to the record's body; what the body
    makes of them decides how the loop goes on, right after the payload. -/
theorem applyLoop_logWrite_record {env : ApplyEnv} {type : MrecType} (ht : type.hasOffset = true)
    {sameBlock : Bool} {lastOffsetW len offset : Nat} {payload rest : List UInt8}
    (hs : env.space < 2 ^ 32) (hp : env.pageNo < 2 ^ 32) (ho : offset ≤ 65536) (hl : len ≤ 65536)
    (hlen : payload.length = len) {fuel : Nat} {frame : List UInt8} {lo : Nat}
    {st : ApplyStatus} :
    applyLoop env (fuel + 1)
        (logWrite type env.space env.pageNo sameBlock lastOffsetW len offset ++ payload ++ rest)
        frame lo st =
      match applyRecord env type frame
          (if logWriteRelative type sameBlock lastOffsetW offset then lo else 0) st
          (mlogEncodeVarint (logWriteOffset type sameBlock lastOffsetW offset) ++ payload ++ rest)
          ((mlogEncodeVarint (logWriteOffset type sameBlock lastOffsetW offset)).length + len) with
      | .applied frame lastOffset status => applyLoop env fuel rest frame lastOffset status.touch
      | .notSamePage => applyLoop env fuel rest frame 1 st
      | .recordCorrupted lastOffset =>
        if env.forceRecovery = 0 then .done st frame lastOffset true
        else applyLoop env fuel rest frame 1 st
      | .pageCorrupted frame lastOffset => .done .appliedCorrupted frame lastOffset false
      | .undefined => .undefined := by
  have hsp : logWriteSamePage type sameBlock lastOffsetW offset =
      logWriteRelative type sameBlock lastOffsetW offset := logWriteSamePage_of_hasOffset ht
  obtain ⟨n, sz, hn, heq, hparse⟩ := logWrite_parseLength env.space env.pageNo ho hl
    (fun _ h _ => by rw [ht] at h; cases h) (payload ++ rest)
  obtain ⟨hbt, hflag, -⟩ := typeByte_fields type
    (logWriteSamePage type sameBlock lastOffsetW offset) hn
  rw [List.append_assoc]
  -- the type byte names `type`, so it is not the terminating `0`
  have hhead : (logWrite type env.space env.pageNo sameBlock lastOffsetW len offset ++
      (payload ++ rest)).headD 0 = UInt8.ofNat (type.code |||
        (if logWriteSamePage type sameBlock lastOffsetW offset then 0x80 else 0) ||| n) := by
    rw [heq]
    rfl
  rw [← hhead] at hbt hflag
  have hb0 : (((logWrite type env.space env.pageNo sameBlock lastOffsetW len offset ++
      (payload ++ rest)).headD 0).toNat ≠ 0) := by
    intro h0
    rw [← hbt, h0] at ht
    exact absurd ht (by decide)
  -- after the size field: the identifier, the offset, the payload
  have hbody : (logWrite type env.space env.pageNo sameBlock lastOffsetW len offset ++
      (payload ++ rest)).drop (1 + sz.length) =
      logWriteIdField type env.space env.pageNo sameBlock lastOffsetW offset ++
        (logWriteOffsetField type sameBlock lastOffsetW offset ++ (payload ++ rest)) := by
    rw [heq, List.cons_append, Nat.add_comm, List.drop_succ_cons]
    simp only [List.append_assoc, List.drop_left]
  have hnext : (logWrite type env.space env.pageNo sameBlock lastOffsetW len offset ++
      (payload ++ rest)).drop (1 + sz.length +
        ((logWriteIdField type env.space env.pageNo sameBlock lastOffsetW offset).length +
          (logWriteOffsetField type sameBlock lastOffsetW offset).length + len)) = rest := by
    rw [heq, ← List.append_assoc, ← List.cons_append]
    exact List.drop_left' (by simp only [List.length_append, List.length_cons, hlen]; omega)
  rw [logWriteOffsetField_of_hasOffset ht] at hbody hnext hparse
  unfold logWriteIdField at hbody hnext hparse
  rw [hsp] at hbody hnext hparse hflag
  -- the identifier is there exactly when the offset is absolute
  generalize logWriteRelative type sameBlock lastOffsetW offset = rel at hbody hnext hparse hflag ⊢
  cases rel
  · have hz : ((logWrite type env.space env.pageNo sameBlock lastOffsetW len offset ++
        (payload ++ rest)).headD 0).toNat &&& 0x80 = 0 := by simpa using hflag
    refine applyLoop_of_record (k := (pageIdField false env.space env.pageNo).length)
      hb0 hbt hparse ?_ ?_ ?_ ?_ hnext
    · rw [if_pos hz, hbody, pageIdLen_pageIdField hs hp, length_pageIdField,
        if_neg Bool.false_ne_true]
    · rw [if_pos hz]
      rfl
    · rw [hbody, List.drop_left, List.append_assoc]
    · omega
  · have hz : ¬ ((logWrite type env.space env.pageNo sameBlock lastOffsetW len offset ++
        (payload ++ rest)).headD 0).toNat &&& 0x80 = 0 := by simpa using hflag
    refine applyLoop_of_record (k := 0) hb0 hbt hparse ?_ ?_ ?_ ?_ hnext
    · rw [if_neg hz]
    · rw [if_neg hz]
      rfl
    · rw [hbody, List.drop_zero, List.append_assoc]
      rfl
    · simp [pageIdField]

/-- The loop on such a record, when the body applies it. -/
theorem applyLoop_logWrite {env : ApplyEnv} {type : MrecType} (ht : type.hasOffset = true)
    {sameBlock : Bool} {lastOffsetW len offset : Nat} {payload rest : List UInt8}
    (hs : env.space < 2 ^ 32) (hp : env.pageNo < 2 ^ 32) (ho : offset ≤ 65536) (hl : len ≤ 65536)
    (hlen : payload.length = len) {fuel : Nat} {frame : List UInt8} {lo : Nat}
    {st : ApplyStatus} {f : List UInt8} {lo' : Nat} {st' : ApplyStatus}
    (h : applyRecord env type frame
        (if logWriteRelative type sameBlock lastOffsetW offset then lo else 0) st
        (mlogEncodeVarint (logWriteOffset type sameBlock lastOffsetW offset) ++ payload ++ rest)
        ((mlogEncodeVarint (logWriteOffset type sameBlock lastOffsetW offset)).length + len) =
      .applied f lo' st') :
    applyLoop env (fuel + 1)
        (logWrite type env.space env.pageNo sameBlock lastOffsetW len offset ++ payload ++ rest)
        frame lo st = applyLoop env fuel rest f lo' st'.touch := by
  rw [applyLoop_logWrite_record ht hs hp ho hl hlen, h]

/-! ## Field lengths the writer computes -/

/-- `len < MIN_2BYTE ? 1 : len < MIN_3BYTE ? 2 : 3`, the writer's length of a varint below
    `MIN_4BYTE`, is the length of its encoding. -/
theorem varintLen_eq {i : Nat} (h : i < min4Byte) :
    (if i < min2Byte then 1 else if i < min3Byte then 2 else 3) = (mlogEncodeVarint i).length := by
  rw [length_mlogEncodeVarint]
  split_ifs <;> omega

/-- The same with the byte that follows, as `mtr_t::memset` counts it. -/
theorem varintLen_succ_eq {i : Nat} (h : i < min4Byte) :
    (if i < min2Byte then 1 + 1 else if i < min3Byte then 2 + 1 else 3 + 1) =
      (mlogEncodeVarint i).length + 1 := by
  rw [← varintLen_eq h]
  split_ifs <;> rfl

/-- A source before the destination is an odd distance. -/
theorem memmoveDistance_of_lt {d s : Nat} (h : s < d) :
    memmoveDistance d s = 2 * (d - s - 1) + 1 := by
  unfold memmoveDistance
  dsimp only
  rw [if_neg (by omega), shiftLeft_or_of_lt (by decide : 1 < 2 ^ 1), Nat.shiftLeft_eq]
  omega

/-- A source after the destination is an even distance. -/
theorem memmoveDistance_of_gt {d s : Nat} (h : d < s) :
    memmoveDistance d s = 2 * (s - d - 1) := by
  unfold memmoveDistance
  dsimp only
  rw [if_pos h, Nat.shiftLeft_eq, Nat.shiftLeft_eq]
  omega

/-- `log_phys_t::apply` finds the source of a `MEMMOVE` where `mtr_t::memmove` put it; the
    distance is below `MIN_4BYTE`. -/
theorem memmoveDistance_decode {d s : Nat} (hne : s ≠ d) (hd : d < 2 ^ 16) (hs : s < 2 ^ 16) :
    (if memmoveDistance d s &&& 1 = 1 then
        (d + 2 ^ 32 - (memmoveDistance d s >>> 1) - 1) % 2 ^ 32
      else (d + (memmoveDistance d s >>> 1) + 1) % 2 ^ 32) = s ∧
      memmoveDistance d s < min4Byte := by
  rw [Nat.and_one_is_mod, Nat.shiftRight_eq_div_pow, min4Byte_eq]
  rcases Nat.lt_or_gt_of_ne hne with h | h
  · -- odd: the source is `d - (s >> 1) - 1`, below `d`
    rw [memmoveDistance_of_lt h, if_pos (by omega)]
    refine ⟨?_, by omega⟩
    rw [show d + 2 ^ 32 - (2 * (d - s - 1) + 1) / 2 ^ 1 - 1 = s + 2 ^ 32 by omega,
      Nat.add_mod_right, Nat.mod_eq_of_lt (by omega)]
  · -- even: the source is `d + (s >> 1) + 1`
    rw [memmoveDistance_of_gt h, if_neg (by omega)]
    refine ⟨?_, by omega⟩
    rw [show d + 2 * (s - d - 1) / 2 ^ 1 + 1 = s by omega, Nat.mod_eq_of_lt (by omega)]

theorem length_logWrite_pos (type : MrecType) (space pageNo : Nat) (sameBlock : Bool)
    (lastOffset len offset : Nat) :
    0 < (logWrite type space pageNo sameBlock lastOffset len offset).length := by
  unfold logWrite
  dsimp only
  split_ifs <;> simp

/-! ## Each record redoes its write -/

section Records

variable {env : ApplyEnv} {m : Mtr} {lo : Nat}

/-- A `WRITE` record (`mtr_t::memcpy_low`). -/
theorem memcpyLow_replay (hs : env.space < 2 ^ 32) (hp : env.pageNo < 2 ^ 32)
    (hsize : env.size ≤ 65536) (hag : Agrees m lo) {offset : Nat} {data : List UInt8}
    (h8 : 8 ≤ offset) (hend : offset + data.length ≤ env.size) (hpos : 0 < data.length)
    (fuel : Nat) (frame rest : List UInt8) (st : ApplyStatus) :
    applyLoop env (fuel + 1)
        (logWrite .write env.space env.pageNo m.last m.lastOffset data.length offset ++ data ++
          rest) frame lo st =
      applyLoop env fuel rest (writeAt frame offset data) ((offset + data.length) % 2 ^ 16)
        (writeStatus env offset data.length st).touch := by
  obtain ⟨hsum, hne1⟩ := hag.base .write offset
  have hrec := applyRecord_write frame rest st hne1 hsum h8 hend hpos hsize
  exact applyLoop_logWrite rfl hs hp (by omega) (by omega) rfl hrec

/-- A `MEMSET` record of one byte (`mtr_t::memset`). -/
theorem memsetLog_replay (hs : env.space < 2 ^ 32) (hp : env.pageNo < 2 ^ 32)
    (hsize : env.size ≤ 65536) (hag : Agrees m lo) {ofs len : Nat} (val : UInt8) (h8 : 8 ≤ ofs)
    (hend : ofs + len ≤ env.size) (hpos : 0 < len) (fuel : Nat) (frame rest : List UInt8)
    (st : ApplyStatus) :
    applyLoop env (fuel + 1)
        (logWrite .memset env.space env.pageNo m.last m.lastOffset
          (if len < min2Byte then 1 + 1 else if len < min3Byte then 2 + 1 else 3 + 1) ofs ++
          (mlogEncodeVarint len ++ [val]) ++ rest) frame lo st =
      applyLoop env fuel rest (writeAt frame ofs (List.replicate len val))
        ((ofs + len) % 2 ^ 16) st.touch := by
  obtain ⟨hsum, hne1⟩ := hag.base .memset ofs
  rw [varintLen_succ_eq (by rw [min4Byte_eq]; omega)]
  have hll := length_mlogEncodeVarint_le_three (show len < min4Byte by rw [min4Byte_eq]; omega)
  have hrec := applyRecord_memset frame rest st val hne1 hsum h8 hend hpos hsize
  exact applyLoop_logWrite rfl hs hp (by omega) (by omega) (by simp) hrec

/-- A `MEMMOVE` record (`mtr_t::memmove`). -/
theorem memmoveLog_replay (hs : env.space < 2 ^ 32) (hp : env.pageNo < 2 ^ 32)
    (hsize : env.size ≤ 65536) (hag : Agrees m lo) {d s len : Nat} (hd8 : 8 ≤ d) (hs8 : 8 ≤ s)
    (hne : s ≠ d) (hend : d + len ≤ env.size) (hsend : s + len ≤ env.size) (hpos : 0 < len)
    (fuel : Nat) {frame : List UInt8} (hframe : frame.length = env.size) (rest : List UInt8)
    (st : ApplyStatus) :
    applyLoop env (fuel + 1)
        (logWrite .memmove env.space env.pageNo m.last m.lastOffset
          ((if len < min2Byte then 1 else if len < min3Byte then 2 else 3) +
            (if memmoveDistance d s < min2Byte then 1
              else if memmoveDistance d s < min3Byte then 2 else 3)) d ++
          (mlogEncodeVarint len ++ mlogEncodeVarint (memmoveDistance d s)) ++ rest) frame lo st =
      applyLoop env fuel rest (writeAt frame d (readAt frame s len)) ((d + len) % 2 ^ 16)
        st.touch := by
  obtain ⟨hsum, hne1⟩ := hag.base .memmove d
  obtain ⟨hsrc, hdist⟩ := memmoveDistance_decode hne (by omega) (by omega)
  rw [varintLen_eq (by rw [min4Byte_eq]; omega), varintLen_eq hdist]
  have hll := length_mlogEncodeVarint_le_three (show len < min4Byte by rw [min4Byte_eq]; omega)
  have hel := length_mlogEncodeVarint_le_three hdist
  have hrec := applyRecord_memmove frame rest st hne1 hsum hd8 hend hpos hsize hdist hsrc hs8
    hsend hframe
  exact applyLoop_logWrite rfl hs hp (by omega) (by omega) (by simp) hrec

end Records

/-! ## Replaying records -/

/-- The records `rec`, which the writer appended going from `frame` and `m` to `frame'` and
    `m'`, replay it: from every `last_offset` that agrees with `m`, with any fuel to spare and
    any records after them, the loop applies them and reaches `frame'` with a `last_offset`
    that agrees with `m'`. -/
def Replays (env : ApplyEnv) (frame : List UInt8) (m : Mtr) (rec frame' : List UInt8) (m' : Mtr) :
    Prop :=
  ∀ lo, Agrees m lo → ∀ fuel rest st, ∃ j lo' st',
    applyLoop env (fuel + rec.length) (rec ++ rest) frame lo st =
      applyLoop env (fuel + j) rest frame' lo' st' ∧ Agrees m' lo'

section Replays

variable {env : ApplyEnv}

/-- No record: nothing changes. -/
theorem replays_nil (frame : List UInt8) (m : Mtr) : Replays env frame m [] frame m := by
  intro lo hag fuel rest st
  exact ⟨0, lo, st, rfl, hag⟩

/-- A record that one turn of the loop applies, leaving the applier at `m_last_offset`. -/
theorem replays_record {frame frame' rec : List UInt8} {m m' : Mtr} (hpos : 0 < rec.length)
    (h : ∀ lo, Agrees m lo → ∀ fuel rest st, ∃ st',
      applyLoop env (fuel + 1) (rec ++ rest) frame lo st =
        applyLoop env fuel rest frame' m'.lastOffset st')
    (hag : Agrees m' m'.lastOffset) : Replays env frame m rec frame' m' := by
  intro lo hlo fuel rest st
  obtain ⟨st', h'⟩ := h lo hlo (fuel + (rec.length - 1)) rest st
  refine ⟨rec.length - 1, m'.lastOffset, st', ?_, hag⟩
  rw [show fuel + rec.length = fuel + (rec.length - 1) + 1 by omega]
  exact h'

/-- Records replay one after the other. -/
theorem Replays.trans {f₀ f₁ f₂ r₁ r₂ : List UInt8} {m₀ m₁ m₂ : Mtr}
    (h₁ : Replays env f₀ m₀ r₁ f₁ m₁) (h₂ : Replays env f₁ m₁ r₂ f₂ m₂) :
    Replays env f₀ m₀ (r₁ ++ r₂) f₂ m₂ := by
  intro lo hag fuel rest st
  obtain ⟨j₁, lo₁, st₁, e₁, hag₁⟩ := h₁ lo hag (fuel + r₂.length) (r₂ ++ rest) st
  obtain ⟨j₂, lo₂, st₂, e₂, hag₂⟩ := h₂ lo₁ hag₁ (fuel + j₁) rest st₁
  refine ⟨j₁ + j₂, lo₂, st₂, ?_, hag₂⟩
  calc applyLoop env (fuel + (r₁ ++ r₂).length) (r₁ ++ r₂ ++ rest) f₀ lo st
      = applyLoop env (fuel + r₂.length + r₁.length) (r₁ ++ (r₂ ++ rest)) f₀ lo st := by
        rw [List.length_append, List.append_assoc, Nat.add_comm r₁.length, Nat.add_assoc]
    _ = applyLoop env (fuel + j₁ + r₂.length) (r₂ ++ rest) f₁ lo₁ st₁ := by
        rw [e₁, Nat.add_right_comm]
    _ = applyLoop env (fuel + (j₁ + j₂)) rest f₂ lo₂ st₂ := by
        rw [e₂, Nat.add_assoc]

end Replays

/-! ## Each operation replays -/

section Operations

variable {env : ApplyEnv} (hs : env.space < 2 ^ 32) (hp : env.pageNo < 2 ^ 32)
  (hsize : env.size ≤ 65536)

include hs hp hsize

theorem memcpyLow_replays {frame : List UInt8} {m : Mtr} {offset : Nat} {data : List UInt8}
    (h8 : 8 ≤ offset) (hend : offset + data.length ≤ env.size) (hpos : 0 < data.length) :
    Replays env frame m (logWrite .write env.space env.pageNo m.last m.lastOffset data.length offset ++
      data) (writeAt frame offset data) (memcpyLow env.space env.pageNo m offset data) := by
  refine replays_record (by simp [length_logWrite_pos]) (fun lo hag fuel rest st => ?_)
    (agrees_of_end _ (by omega) (by omega))
  exact ⟨_, memcpyLow_replay hs hp hsize hag h8 hend hpos fuel frame rest st⟩

theorem memcpy_writeAt_replays {frame : List UInt8} (m : Mtr) {offset : Nat}
    {data : List UInt8} (h8 : 8 ≤ offset) (hend : offset + data.length ≤ env.size)
    (hpos : 0 < data.length) (hframe : frame.length = env.size) :
    ∃ rec, (memcpy env.space env.pageNo (writeAt frame offset data) m offset data.length).log =
        m.log ++ rec ∧
      Replays env frame m rec (writeAt frame offset data)
        (memcpy env.space env.pageNo (writeAt frame offset data) m offset data.length) := by
  have hread : readAt (writeAt frame offset data) offset data.length = data :=
    readAt_writeAt (by omega)
  rw [memcpy, hread]
  exact ⟨_, memcpyLow_log m offset data, memcpyLow_replays hs hp hsize h8 hend hpos⟩

theorem memcpyW_replays (w : WriteType) {frame : List UInt8} (hframe : frame.length = env.size)
    (m : Mtr) {offset : Nat} {str : List UInt8} (h8 : 8 ≤ offset)
    (hend : offset + str.length ≤ env.size) (hpos : 0 < str.length) :
    ∃ rec, (memcpyW env.space env.pageNo w frame m offset str).2.log = m.log ++ rec ∧
      Replays env frame m rec (memcpyW env.space env.pageNo w frame m offset str).1
        (memcpyW env.space env.pageNo w frame m offset str).2 := by
  unfold memcpyW
  split
  · dsimp only
    split
    · exact ⟨[], (List.append_nil _).symm, replays_nil frame m⟩
    · -- the bytes from the first one that changes
      next hk =>
      have hkle := matchLen_le_right (readAt frame offset str.length) str
      have hdrop : (str.drop (matchLen (readAt frame offset str.length) str)).length =
          str.length - matchLen (readAt frame offset str.length) str := List.length_drop
      rw [← hdrop]
      exact memcpy_writeAt_replays hs hp hsize m (by omega) (by omega) (by omega) hframe
  · exact memcpy_writeAt_replays hs hp hsize m h8 hend hpos hframe

theorem write_replays (l : Nat) (w : WriteType) {frame : List UInt8}
    (hframe : frame.length = env.size) (m : Mtr) {offset val : Nat} (h8 : 8 ≤ offset)
    (hend : offset + l ≤ env.size) (hpos : 0 < l) :
    ∃ rec, (write env.space env.pageNo l w frame m offset val).2.log = m.log ++ rec ∧
      Replays env frame m rec (write env.space env.pageNo l w frame m offset val).1
        (write env.space env.pageNo l w frame m offset val).2 := by
  have hbuf : (beBytes l val).length = l := beBytes_length l val
  have hread : readAt (writeAt frame offset (beBytes l val)) offset l = beBytes l val := by
    have h := @readAt_writeAt UInt8 frame (beBytes l val) offset (by rw [hbuf]; omega)
    rwa [hbuf] at h
  unfold write
  by_cases hw : w = .forced
  · -- `FORCED`: the whole buffer is logged
    subst hw
    simp only [ne_eq, not_true_eq_false, if_false, false_and, Nat.add_zero, Nat.sub_zero, hread]
    exact ⟨_, memcpyLow_log m offset _, memcpyLow_replays hs hp hsize h8 (by rw [hbuf]; omega)
      (by rw [hbuf]; omega)⟩
  · simp only [ne_eq, hw, not_false_eq_true, if_true, true_and]
    split
    · exact ⟨[], (List.append_nil _).symm, replays_nil frame m⟩
    · -- the bytes from the first one that changes; the rest of the buffer was already there
      next hk =>
      have hkle := matchLen_le_right (readAt frame offset l) (beBytes l val)
      rw [hbuf] at hkle
      have hpre : (beBytes l val).take (matchLen (readAt frame offset l) (beBytes l val)) =
          readAt frame offset (matchLen (readAt frame offset l) (beBytes l val)) := by
        rw [← take_matchLen, take_readAt frame hkle]
      have hdrop : (beBytes l val).drop (matchLen (readAt frame offset l) (beBytes l val)) =
          readAt (writeAt frame offset (beBytes l val))
            (offset + matchLen (readAt frame offset l) (beBytes l val))
            (l - matchLen (readAt frame offset l) (beBytes l val)) := by
        rw [← drop_readAt, hread]
      rw [← hdrop, writeAt_skip (by omega) (by omega) hpre]
      exact ⟨_, memcpyLow_log m _ _, memcpyLow_replays hs hp hsize (by omega)
        (by rw [List.length_drop]; omega) (by rw [List.length_drop]; omega)⟩

theorem memsetLog_replays {frame : List UInt8} (m : Mtr) {ofs len : Nat} (val : UInt8)
    (h8 : 8 ≤ ofs) (hend : ofs + len ≤ env.size) (hpos : 0 < len) :
    Replays env frame m (logWrite .memset env.space env.pageNo m.last m.lastOffset
        (if len < min2Byte then 1 + 1 else if len < min3Byte then 2 + 1 else 3 + 1) ofs ++
        (mlogEncodeVarint len ++ [val])) (writeAt frame ofs (List.replicate len val))
      (memsetLog env.space env.pageNo m ofs len val) := by
  refine replays_record (by simp [length_logWrite_pos]) (fun lo hag fuel rest st => ?_)
    (agrees_of_end _ (by omega) (by omega))
  exact ⟨_, memsetLog_replay hs hp hsize hag val h8 hend hpos fuel frame rest st⟩

theorem memmoveLog_replays {frame : List UInt8} (hframe : frame.length = env.size) (m : Mtr)
    {d s len : Nat} (hd8 : 8 ≤ d) (hs8 : 8 ≤ s) (hne : s ≠ d) (hend : d + len ≤ env.size)
    (hsend : s + len ≤ env.size) (hpos : 0 < len) :
    Replays env frame m (logWrite .memmove env.space env.pageNo m.last m.lastOffset
        ((if len < min2Byte then 1 else if len < min3Byte then 2 else 3) +
          (if memmoveDistance d s < min2Byte then 1
            else if memmoveDistance d s < min3Byte then 2 else 3)) d ++
        (mlogEncodeVarint len ++ mlogEncodeVarint (memmoveDistance d s)))
      (writeAt frame d (readAt frame s len)) (memmoveLog env.space env.pageNo m d s len) := by
  refine replays_record (by simp [length_logWrite_pos]) (fun lo hag fuel rest st => ?_)
    (agrees_of_end _ (by omega) (by omega))
  exact ⟨_, memmoveLog_replay hs hp hsize hag hd8 hs8 hne hend hsend hpos fuel hframe rest st⟩

/-- One valid operation: the record it appends replays it. -/
theorem PageOp.run_replays {op : PageOp} {frame : List UInt8} (hv : op.Valid env.size)
    (hframe : frame.length = env.size) (m : Mtr) :
    ∃ rec, (op.run env.space env.pageNo frame m).2.log = m.log ++ rec ∧
      Replays env frame m rec (op.run env.space env.pageNo frame m).1
        (op.run env.space env.pageNo frame m).2 := by
  cases op with
  | memcpy w offset data =>
    obtain ⟨hpos, h8, hend⟩ := hv
    exact memcpyW_replays hs hp hsize w hframe m h8 hend hpos
  | write l w offset val =>
    obtain ⟨hl, h8, hend⟩ := hv
    exact write_replays hs hp hsize l w hframe m h8 hend (by omega)
  | memset offset len val =>
    obtain ⟨hpos, h8, hend⟩ := hv
    exact ⟨_, memsetLog_log m offset len val, memsetLog_replays hs hp hsize m val h8 hend hpos⟩
  | memmove d s len =>
    obtain ⟨hpos, hd8, hs8, hne, hend, hsend⟩ := hv
    exact ⟨_, memmoveLog_log m d s len,
      memmoveLog_replays hs hp hsize hframe m hd8 hs8 hne hend hsend hpos⟩
  | elsewhere lastOffset =>
    -- no record for this page; the next one will carry the page identifier
    refine ⟨[], (List.append_nil _).symm, fun lo _ fuel rest st => ?_⟩
    exact ⟨0, lo, st, rfl, fun h => absurd h Bool.false_ne_true⟩

/-- A run of valid operations: the records it appends replay it. -/
theorem runOps_replays : ∀ (ops : List PageOp) {frame : List UInt8} (m : Mtr),
    (∀ op ∈ ops, op.Valid env.size) → frame.length = env.size →
    ∃ Δ, (runOps env.space env.pageNo ops frame m).2.log = m.log ++ Δ ∧
      Replays env frame m Δ (runOps env.space env.pageNo ops frame m).1
        (runOps env.space env.pageNo ops frame m).2
  | [], frame, m, _, _ => ⟨[], (List.append_nil _).symm, replays_nil frame m⟩
  | op :: ops, frame, m, hv, hframe => by
    have hv₀ := hv op List.mem_cons_self
    obtain ⟨r₁, hlog₁, h₁⟩ := PageOp.run_replays hs hp hsize hv₀ hframe m
    -- the operation keeps the frame's length, so the rest of the run is valid on it
    have hlen₁ := (PageOp.run_keeps env.space env.pageNo (hframe ▸ hv₀) m).1
    obtain ⟨r₂, hlog₂, h₂⟩ := runOps_replays ops (op.run env.space env.pageNo frame m).2
      (fun op' h => hv op' (List.mem_cons_of_mem _ h)) (hlen₁.trans hframe)
    refine ⟨r₁ ++ r₂, ?_, h₁.trans h₂⟩
    rw [runOps, hlog₂, hlog₁, List.append_assoc]

end Operations

/-! ## Redo logging replays a mini-transaction -/

/-- For a page of at most `64 KiB` with a 32-bit identifier, every sequence of valid page
    operations of a mini-transaction: `log_phys_t::apply` applies the records they log, from
    any `last_offset`, without finding them corrupted and without leaving the frame, and
    produces exactly the frame the operations produced; that frame differs from the old one
    only where an operation wrote. -/
theorem redo_replay_faithful (env : ApplyEnv) (hs : env.space < 2 ^ 32)
    (hp : env.pageNo < 2 ^ 32) (hsize : env.size ≤ 65536) (ops : List PageOp)
    (hv : ∀ op ∈ ops, op.Valid env.size) (frame : List UInt8) (hframe : frame.length = env.size)
    (lastOffset : Nat) :
    (∃ status lo, logPhysApply env (runOps env.space env.pageNo ops frame mtrStart).2.log frame
        lastOffset = .done status (runOps env.space env.pageNo ops frame mtrStart).1 lo false) ∧
      ∀ i, (∀ op ∈ ops, ¬ op.Writes i) →
        (runOps env.space env.pageNo ops frame mtrStart).1[i]? = frame[i]? := by
  obtain ⟨Δ, hlog, hrep⟩ := runOps_replays hs hp hsize ops mtrStart hv hframe
  rw [show mtrStart.log = [] from rfl, List.nil_append] at hlog
  refine ⟨?_, (runOps_keeps ops frame mtrStart (hframe ▸ hv)).2⟩
  obtain ⟨j, lo, st, happ, -⟩ := hrep lastOffset (agrees_start lastOffset) 1 [0] .appliedNo
  refine ⟨st, lo, ?_⟩
  -- the loop ends at the terminating NUL
  rw [logPhysApply, hlog, Nat.add_comm, happ, Nat.add_comm]
  rfl

/-- A 4 KiB index page 3 of tablespace 5, with page operations that change nothing and a
    CRC that is never checked. -/
def samplePage : ApplyEnv :=
  { space := 5, pageNo := 3, size := 4096, srvPageSize := 4096, zipSsize := 0,
    forceRecovery := 0, encryptionOffset := 0, pageCreateLow := fun _ f => f,
    trxUndoPageInit := fun f => f, pageApplyInsertDynamic := fun f _ _ _ _ _ _ _ => (f, false),
    pageApplyInsertRedundant := fun f _ _ _ _ _ _ => (f, false),
    pageApplyDeleteRedundant := fun f _ => (f, false),
    pageApplyDeleteDynamic := fun f _ _ _ => (f, false), pageCrc := fun _ => 0 }

/-- A mini-transaction that copies three bytes, fills ten, moves three back over the copy,
    then writes a two-byte field, replayed on a zero page. -/
theorem redo_replay_faithful_sample :
    (∃ status lo, logPhysApply samplePage
        (runOps 5 3 [.memcpy .normal 100 [1, 2, 3], .memset 200 10 7, .memmove 300 100 3,
          .write 2 .forced 150 513] (List.replicate 4096 0) mtrStart).2.log
        (List.replicate 4096 0) 0 =
      .done status (runOps 5 3 [.memcpy .normal 100 [1, 2, 3], .memset 200 10 7,
        .memmove 300 100 3, .write 2 .forced 150 513] (List.replicate 4096 0) mtrStart).1 lo
        false) ∧
      ∀ i, (∀ op ∈ [PageOp.memcpy .normal 100 [1, 2, 3], .memset 200 10 7, .memmove 300 100 3,
          .write 2 .forced 150 513], ¬ op.Writes i) →
        (runOps 5 3 [.memcpy .normal 100 [1, 2, 3], .memset 200 10 7, .memmove 300 100 3,
          .write 2 .forced 150 513] (List.replicate 4096 0) mtrStart).1[i]? =
          (List.replicate 4096 0)[i]? :=
  redo_replay_faithful samplePage (by decide) (by decide) (by decide) _ (by decide) _
    (by rw [List.length_replicate]; rfl) 0

end MariaDB.Redo
