import Mathlib.Data.List.TakeDrop
import Mathlib.Tactic.Linarith

/-
  Writes into a fixed buffer: `memcpy`, `memset` and `memmove` into a page frame.

  `writeAt l off data` is `l` with the positions from `off` on replaced by `data`;
  `readAt l off n` is the `n` elements from `off` on. These are the two halves of a copy:
  `memcpy(frame + off, data, len)` is `writeAt frame off data`, and `memmove(frame + d,
  frame + s, len)` is `writeAt frame d (readAt frame s len)`, as if through a temporary.

  Results:
  * `length_writeAt`, `getElem?_writeAt_outside`, `getElem?_writeAt_inside`: a write in
    range keeps the length, changes exactly its positions, and puts `data` there;
  * `readAt_writeAt`, `writeAt_readAt`, `take_writeAt`: reading back what was written,
    writing back what is there; `drop_readAt`, `take_readAt`, `readAt_add`, `readAt_readAt`:
    parts of a read;
  * `writeAt_skip`: a write whose first `k` elements are already in place is the write of the
    rest at `off + k`; `writeAt_writeAt_append`: two writes end to end are one; `writeAt_set`:
    a store just past a write from the start extends it;
  * `getElem?_flatten_replicate`: `q` copies of a pattern hold its element at `k` modulo its
    length, what a fill loop that copies the pattern again and again writes;
  * `matchLen`, the length of the common prefix of two lists, and `take_matchLen`,
    `matchLen_le_right`: what a loop `while (*d++ == *s++)` finds.
-/

namespace MariaDB.Lib

variable {α : Type}

/-- `l` with `data` written from position `off` on. -/
def writeAt (l : List α) (off : Nat) (data : List α) : List α :=
  l.take off ++ data ++ l.drop (off + data.length)

/-- The `n` elements of `l` from position `off` on. -/
def readAt (l : List α) (off n : Nat) : List α := (l.drop off).take n

theorem length_writeAt {l data : List α} {off : Nat} (h : off + data.length ≤ l.length) :
    (writeAt l off data).length = l.length := by
  simp only [writeAt, List.length_append, List.length_take, List.length_drop]
  omega

theorem length_readAt {l : List α} {off n : Nat} (h : off + n ≤ l.length) :
    (readAt l off n).length = n := by
  simp only [readAt, List.length_take, List.length_drop]
  omega

/-- Before the write, nothing changes. -/
theorem getElem?_writeAt_of_lt {l : List α} (data : List α) {off i : Nat}
    (h : off ≤ l.length) (hi : i < off) : (writeAt l off data)[i]? = l[i]? := by
  have hlen : (l.take off).length = off := by rw [List.length_take]; omega
  rw [writeAt, List.append_assoc, List.getElem?_append_left (by omega), List.getElem?_take_of_lt hi]

/-- After the write, nothing changes. -/
theorem getElem?_writeAt_of_ge {l data : List α} {off i : Nat}
    (h : off + data.length ≤ l.length) (hi : off + data.length ≤ i) :
    (writeAt l off data)[i]? = l[i]? := by
  have hlen : (l.take off ++ data).length = off + data.length := by
    rw [List.length_append, List.length_take]; omega
  rw [writeAt, List.getElem?_append_right (by omega), hlen, List.getElem?_drop]
  congr 1
  omega

/-- Inside the write, the data. -/
theorem getElem?_writeAt_inside {l data : List α} {off i : Nat} (h : off ≤ l.length)
    (hi1 : off ≤ i) (hi2 : i < off + data.length) :
    (writeAt l off data)[i]? = data[i - off]? := by
  have hlen : (l.take off).length = off := by rw [List.length_take]; omega
  rw [writeAt, List.append_assoc, List.getElem?_append_right (by omega), hlen,
    List.getElem?_append_left (by omega)]

/-- Outside the write, nothing changes. -/
theorem getElem?_writeAt_outside {l data : List α} {off i : Nat}
    (h : off + data.length ≤ l.length) (hi : i < off ∨ off + data.length ≤ i) :
    (writeAt l off data)[i]? = l[i]? := by
  rcases hi with hi | hi
  · exact getElem?_writeAt_of_lt data (by omega) hi
  · exact getElem?_writeAt_of_ge h hi

theorem readAt_writeAt {l data : List α} {off : Nat} (h : off + data.length ≤ l.length) :
    readAt (writeAt l off data) off data.length = data := by
  have hlen : (l.take off).length = off := by rw [List.length_take]; omega
  rw [readAt, writeAt, List.append_assoc, List.drop_left' hlen, List.take_left' rfl]

/-- Up to the end of the data, a write is the list before it and the data. -/
theorem take_writeAt {l : List α} (data : List α) {off : Nat} (h : off ≤ l.length) :
    (writeAt l off data).take (off + data.length) = l.take off ++ data := by
  have hlen : (l.take off ++ data).length = off + data.length := by
    simp only [List.length_append, List.length_take]
    omega
  rw [writeAt, List.take_left' hlen]

/-- Dropping the first `p` of a read is reading from `p` further on. -/
theorem drop_readAt (l : List α) (off n p : Nat) :
    (readAt l off n).drop p = readAt l (off + p) (n - p) := by
  rw [readAt, readAt, List.drop_take, List.drop_drop, Nat.add_comm]

theorem take_readAt (l : List α) {off n p : Nat} (h : p ≤ n) :
    (readAt l off n).take p = readAt l off p := by
  rw [readAt, readAt, List.take_take, Nat.min_eq_left h]

/-- A read within a read is a read of the list. -/
theorem readAt_readAt (l : List α) {off n p q : Nat} (h : p + q ≤ n) :
    readAt (readAt l off n) p q = readAt l (off + p) q := by
  show ((readAt l off n).drop p).take q = _
  rw [drop_readAt, take_readAt _ (by omega)]

theorem writeAt_readAt (l : List α) (off n : Nat) : writeAt l off (readAt l off n) = l := by
  rw [writeAt, readAt, List.length_take, List.append_assoc]
  conv_rhs => rw [← List.take_append_drop off l]
  congr 1
  rw [← List.drop_drop]
  -- past the end of `l`, the read is short and so is the rest
  generalize l.drop off = x
  rcases Nat.le_total n x.length with h | h
  · rw [Nat.min_eq_left h, List.take_append_drop]
  · rw [Nat.min_eq_right h, List.drop_length, List.take_of_length_le h, List.append_nil]

/-- A write whose first `k` elements are already there writes only the rest. -/
theorem writeAt_skip {l data : List α} {off k : Nat} (h : off + data.length ≤ l.length)
    (hk : k ≤ data.length) (hpre : data.take k = readAt l off k) :
    writeAt l off data = writeAt l (off + k) (data.drop k) := by
  have hd : data = readAt l off k ++ data.drop k := by rw [← hpre, List.take_append_drop]
  conv_lhs => rw [hd]
  rw [writeAt, writeAt, List.length_append, length_readAt (by omega), List.length_drop,
    readAt, List.take_add, ← Nat.add_assoc]
  simp only [List.append_assoc]

@[simp] theorem writeAt_nil (l : List α) (off : Nat) : writeAt l off [] = l := by
  rw [writeAt, List.append_nil, List.length_nil, Nat.add_zero, List.take_append_drop]

/-- Two writes end to end are one write of both. -/
theorem writeAt_writeAt_append {l a b : List α} {off : Nat}
    (h : off + a.length + b.length ≤ l.length) :
    writeAt (writeAt l off a) (off + a.length) b = writeAt l off (a ++ b) := by
  have hpre : (l.take off ++ a).length = off + a.length := by
    rw [List.length_append, List.length_take]
    omega
  -- past both: the rest of `l` after the first write, less `b`'s length
  have hdrop : (writeAt l off a).drop (off + a.length + b.length) =
      l.drop (off + (a ++ b).length) := by
    rw [writeAt, List.drop_append, List.drop_eq_nil_of_le (by omega), List.nil_append, hpre,
      List.drop_drop, List.length_append]
    congr 1
    omega
  rw [writeAt, take_writeAt a (by omega), hdrop, writeAt, List.append_assoc (l.take off) a b]

/-- Setting position `n` under a write of `n` elements from the start extends the write. -/
theorem writeAt_set {l : List α} {n : Nat} (h : n < l.length) {ds : List α}
    (hds : ds.length = n) (a : α) : writeAt (l.set n a) 0 ds = writeAt l 0 (ds ++ [a]) := by
  have hset : l.set n a = l.take n ++ a :: l.drop (n + 1) := by
    rw [List.set_eq_take_append_cons_drop, if_pos h]
  have hd : (l.set n a).drop n = a :: l.drop (n + 1) := by
    rw [hset, List.drop_left' (by rw [List.length_take]; omega)]
  simp only [writeAt, List.take_zero, List.nil_append, Nat.zero_add, hds, hd,
    List.length_append, List.length_singleton, List.append_assoc, List.singleton_append]

/-! ## Repeated patterns -/

/-- Position `k` of `q` copies of `p` holds `p`'s element at `k` modulo its length. -/
theorem getElem?_flatten_replicate {p : List α} (hp : 0 < p.length) :
    ∀ (q k : Nat), k < q * p.length →
      ((List.replicate q p).flatten)[k]? = p[k % p.length]?
  | 0, k, hk => by omega
  | q + 1, k, hk => by
    rw [List.replicate_succ, List.flatten_cons]
    rcases Nat.lt_or_ge k p.length with h | h
    · rw [List.getElem?_append_left h, Nat.mod_eq_of_lt h]
    · -- past the first copy: the same position of the others, one period earlier
      rw [List.getElem?_append_right h,
        getElem?_flatten_replicate hp q (k - p.length) (by rw [Nat.succ_mul] at hk; omega),
        ← Nat.mod_eq_sub_mod h]

@[simp] theorem length_flatten_replicate (p : List α) (q : Nat) :
    ((List.replicate q p).flatten).length = q * p.length := by
  induction q with
  | zero => simp
  | succ q ih => rw [List.replicate_succ, List.flatten_cons, List.length_append, ih, Nat.succ_mul,
      Nat.add_comm]

/-! ## Common prefixes -/

section MatchLen

variable [DecidableEq α]

/-- The number of leading positions where two lists agree. -/
def matchLen : List α → List α → Nat
  | a :: as, b :: bs => if a = b then matchLen as bs + 1 else 0
  | _, _ => 0

theorem matchLen_le_right : ∀ (xs ys : List α), matchLen xs ys ≤ ys.length
  | [], _ => by simp [matchLen]
  | _ :: _, [] => by simp [matchLen]
  | a :: as, b :: bs => by
    unfold matchLen
    split
    · have := matchLen_le_right as bs
      simp only [List.length_cons]
      omega
    · omega

/-- Up to their common prefix, the lists are the same. -/
theorem take_matchLen : ∀ (xs ys : List α), xs.take (matchLen xs ys) = ys.take (matchLen xs ys)
  | [], _ => by simp [matchLen]
  | _ :: _, [] => by simp [matchLen]
  | a :: as, b :: bs => by
    unfold matchLen
    split
    · next h => rw [List.take_succ_cons, List.take_succ_cons, take_matchLen as bs, h]
    · rfl

end MatchLen

end MariaDB.Lib
