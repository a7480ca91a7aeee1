import MariaDB.Queues.Model

/-
  The queue's invariant over any run of its operations.

  `Valid` is what `check_queue` of the unit test checks, in the source's own terms (no child
  compares better than its parent, `compare(child, parent) * max_at_top >= 0`), together with
  `elements <= max_elements`, `max_at_top` being `1` or `-1`, no element stored twice, and,
  when positions are kept, every element's stored position being its slot.

  The proofs read the comparison as an order: with a comparison whose sign is a total
  preorder (`CmpTotalPreorder`), `Queue.Le q a b` (`a` may stand above `b`) is a total
  preorder, and the source's tests are `Le` and its negation (`cmp_neg_iff_not_le`,
  `le_iff_cmp_nonneg`). Each loop is then one of the binary-heap library's sifts:
  `insert_at` a sift up, `_downheap` a sift down, and `queue_replace` a sink followed by a
  sift up. `Sifting` carries what the moves keep (the contents with the element put back,
  no element twice, the positions off the hole); `Placed` is the same once the element is in.

  The abstract queue is the multiset of its elements. `added` and `removed` say what each
  operation adds and takes away: an insert adds its element (a checked insert only when it
  answers 0), a removal takes the element at its index, and a change of keys does neither.

  Proved:
  * `insertAt_spec`, `downheapLoop_spec`, `replaceLoop_spec`, `queueReplace_spec`,
    `queueFixLoop_spec`: each loop, from the hole it starts at, places the element held aside
    and leaves the queue in heap order;
  * the frame lemmas: the loops change only the array and the stored positions.

  The operations and their runs are in `Queues.Run`.
-/

namespace MariaDB.Queues

open Function MariaDB.Lib

variable {α κ : Type} (compare : κ → κ → Int)

/-- The comparison's sign is a total preorder on keys: `compare a b < 0` exactly when
`compare b a > 0`, and `compare a b <= 0` is transitive. -/
structure CmpTotalPreorder : Prop where
  neg_iff : ∀ a b, compare a b < 0 ↔ 0 < compare b a
  le_trans : ∀ a b c, compare a b ≤ 0 → compare b c ≤ 0 → compare a c ≤ 0

namespace Queue

/-- `a` may stand above `b` in the queue's heap. -/
def Le (q : Queue α κ) (a b : α) : Prop := q.cmp compare a b ≤ 0

end Queue

/-- The queue's invariant, as `check_queue` states the order. -/
structure Valid (q : Queue α κ) : Prop where
  top_sign : q.maxAtTop = 1 ∨ q.maxAtTop = -1
  within : q.elements ≤ q.maxElements
  heap : ∀ i, 2 ≤ i → i ≤ q.elements → q.cmp compare (q.root i) (q.root (i / 2)) ≥ 0
  distinct : Set.InjOn q.root (Set.Icc 1 q.elements)
  indexed : q.offsetToQueuePos ≠ 0 → ∀ i, 1 ≤ i → i ≤ q.elements → q.pos (q.root i) = i

/-- A sift in progress: the hole is at `hole` in `1..elements`, `element` is held aside, and
with it put back the slots hold `M`, no element twice; with positions kept, every element off
the hole stores its slot. -/
structure Sifting (q : Queue α κ) (hole : Nat) (element : α) (M : Multiset α) : Prop where
  hole_pos : 1 ≤ hole
  hole_le : hole ≤ q.elements
  contents : live (update q.root hole element) q.elements = M
  distinct : Set.InjOn (update q.root hole element) (Set.Icc 1 q.elements)
  indexed : q.offsetToQueuePos ≠ 0 → Indexed q.pos q.root q.elements hole

/-- The slots hold `M`, no element twice, and with positions kept every element stores its
slot. -/
structure Placed (q : Queue α κ) (M : Multiset α) : Prop where
  contents : live q.root q.elements = M
  distinct : Set.InjOn q.root (Set.Icc 1 q.elements)
  indexed : q.offsetToQueuePos ≠ 0 → ∀ i, 1 ≤ i → i ≤ q.elements → q.pos (q.root i) = i

/-- `q'` is `q` with at most the array and the stored positions changed. -/
structure Frame (q q' : Queue α κ) : Prop where
  elements : q'.elements = q.elements
  maxElements : q'.maxElements = q.maxElements
  offsetToQueuePos : q'.offsetToQueuePos = q.offsetToQueuePos
  maxAtTop : q'.maxAtTop = q.maxAtTop
  key : q'.key = q.key

variable {compare}

/-! ## The comparison as an order -/

section Order

variable {q : Queue α κ}

theorem CmpTotalPreorder.cmp_neg_iff (hc : CmpTotalPreorder compare)
    (hm : q.maxAtTop = 1 ∨ q.maxAtTop = -1) (a b : α) :
    q.cmp compare a b < 0 ↔ 0 < q.cmp compare b a := by
  unfold Queue.cmp
  rcases hm with hm | hm <;> rw [hm]
  · simpa using hc.neg_iff (q.key a) (q.key b)
  · simpa using (hc.neg_iff (q.key b) (q.key a)).symm

/-- `insert_at`'s test: the element compares better than the parent. -/
theorem cmp_neg_iff_not_le (hc : CmpTotalPreorder compare)
    (hm : q.maxAtTop = 1 ∨ q.maxAtTop = -1) (a b : α) :
    q.cmp compare a b < 0 ↔ ¬ q.Le compare b a := by
  rw [hc.cmp_neg_iff hm, Queue.Le, not_le]

/-- The stopping test of `_downheap` and `queue_replace`, and `check_queue`'s. -/
theorem le_iff_cmp_nonneg (hc : CmpTotalPreorder compare)
    (hm : q.maxAtTop = 1 ∨ q.maxAtTop = -1) (a b : α) :
    q.Le compare b a ↔ q.cmp compare a b ≥ 0 := by
  rw [ge_iff_le, ← not_lt, cmp_neg_iff_not_le hc hm, not_not]

theorem total_le (hc : CmpTotalPreorder compare) (hm : q.maxAtTop = 1 ∨ q.maxAtTop = -1) :
    Std.Total (q.Le compare) where
  total a b := by
    by_cases h : q.Le compare a b
    · exact Or.inl h
    · exact Or.inr (le_of_lt ((hc.cmp_neg_iff hm b a).mpr (lt_of_not_ge h)))

/-- With the greatest on top, `Le` is the comparison read backwards. -/
theorem le_iff_of_neg_one (hc : CmpTotalPreorder compare) (hm : q.maxAtTop = -1) (a b : α) :
    q.Le compare a b ↔ compare (q.key b) (q.key a) ≤ 0 := by
  have hba := hc.neg_iff (q.key b) (q.key a)
  have hab := hc.neg_iff (q.key a) (q.key b)
  rw [Queue.Le, Queue.cmp, hm]
  omega

theorem trans_le (hc : CmpTotalPreorder compare) (hm : q.maxAtTop = 1 ∨ q.maxAtTop = -1) :
    IsTrans α (q.Le compare) where
  trans a b c hab hbc := by
    rcases hm with hm | hm
    · simp only [Queue.Le, Queue.cmp, hm, mul_one] at hab hbc ⊢
      exact hc.le_trans _ _ _ hab hbc
    · rw [le_iff_of_neg_one hc hm] at hab hbc ⊢
      exact hc.le_trans _ _ _ hbc hab

/-- `check_queue`'s order is the heap order of `Le`. -/
theorem heap_iff_heapFrom (hc : CmpTotalPreorder compare) (hm : q.maxAtTop = 1 ∨ q.maxAtTop = -1) :
    (∀ i, 2 ≤ i → i ≤ q.elements → q.cmp compare (q.root i) (q.root (i / 2)) ≥ 0) ↔
      HeapFrom (q.Le compare) q.root 1 q.elements := by
  constructor
  · intro h c hc2 hcn _
    exact (le_iff_cmp_nonneg hc hm _ _).mpr (h c hc2 hcn)
  · intro h i hi2 hin
    exact (le_iff_cmp_nonneg hc hm _ _).mp (h i hi2 hin (by omega))

/-- The child `_downheap` and `queue_replace` pick stands at or above both children. -/
theorem nextIndex_best (hc : CmpTotalPreorder compare) (hm : q.maxAtTop = 1 ∨ q.maxAtTop = -1)
    {idx : Nat} (h1 : 0 < idx) (hhalf : idx ≤ q.elements / 2) :
    BestChild (q.Le compare) q.root q.elements idx (q.nextIndex compare idx) := by
  have := total_le hc hm
  unfold Queue.nextIndex
  split
  · rename_i hright
    exact bestChild_right h1 hright.1 (not_le.mpr hright.2)
  · rename_i hleft
    exact bestChild_left h1 (by omega) fun hlt => not_lt.mp fun hpos => hleft ⟨hlt, hpos⟩

end Order

/-! ## Frames -/

section Frames

theorem Frame.refl (q : Queue α κ) : Frame q q := ⟨rfl, rfl, rfl, rfl, rfl⟩

theorem Frame.trans {q q' q'' : Queue α κ} (h : Frame q q') (h' : Frame q' q'') : Frame q q'' :=
  ⟨h'.elements.trans h.elements, h'.maxElements.trans h.maxElements,
    h'.offsetToQueuePos.trans h.offsetToQueuePos, h'.maxAtTop.trans h.maxAtTop,
    h'.key.trans h.key⟩

theorem Frame.le_eq {q q' : Queue α κ} (h : Frame q q') : q'.Le compare = q.Le compare := by
  funext a b
  simp only [Queue.Le, Queue.cmp, h.key, h.maxAtTop]

variable [DecidableEq α]

theorem Frame.put (q : Queue α κ) (idx : Nat) (element : α) : Frame q (q.put idx element) :=
  ⟨rfl, rfl, rfl, rfl, rfl⟩

variable (compare)

theorem insertAt_frame (q : Queue α κ) (e : α) (idx : Nat) :
    Frame q (insertAt compare q e idx) := by
  fun_induction insertAt compare q e idx with
  | case1 q idx _ ih => exact (Frame.put _ _ _).trans ih
  | case2 q idx _ => exact Frame.put _ _ _

theorem downheapLoop_frame (q : Queue α κ) (e : α) (idx : Nat) :
    Frame q (downheapLoop compare q e idx) := by
  fun_induction downheapLoop compare q e idx with
  | case1 q idx => exact Frame.put _ _ _
  | case2 q idx _ _ _ ih => exact (Frame.put _ _ _).trans ih
  | case3 q idx => exact Frame.put _ _ _

theorem replaceLoop_frame (q : Queue α κ) (e : α) (first : Bool) (idx : Nat) :
    Frame q (replaceLoop compare q e first idx).1 := by
  fun_induction replaceLoop compare q e first idx with
  | case1 q idx => exact Frame.put _ _ _
  | case2 q idx _ _ _ _ ih => exact (Frame.put _ _ _).trans ih
  | case3 q idx => exact Frame.refl _

theorem queueReplace_frame (q : Queue α κ) (idx : Nat) : Frame q (queueReplace compare q idx) :=
  (replaceLoop_frame compare q _ true idx).trans (insertAt_frame compare _ _ _)

theorem queueFixLoop_frame (q : Queue α κ) (i : Nat) : Frame q (queueFixLoop compare q i) := by
  induction i generalizing q with
  | zero => exact Frame.refl q
  | succ i ih => exact (downheapLoop_frame compare q _ _).trans (ih _)

end Frames

/-! ## What the moves keep -/

section Moves

variable {q : Queue α κ} {hole : Nat} {e : α} {M : Multiset α}

/-- A sift can start at any slot of a queue whose elements are placed. -/
theorem Placed.sifting (hp : Placed q M) (h1 : 1 ≤ hole) (hn : hole ≤ q.elements) :
    Sifting q hole (q.root hole) M where
  hole_pos := h1
  hole_le := hn
  contents := by rw [update_eq_self]; exact hp.contents
  distinct := by rw [update_eq_self]; exact hp.distinct
  indexed hoff i hi1 hin _ := hp.indexed hoff i hi1 hin

theorem Placed.frame {q' : Queue α κ} (hp : Placed q M) (hf : Frame q q')
    (hroot : q'.root = q.root) (hpos : q'.pos = q.pos) : Placed q' M where
  contents := by rw [hroot, hf.elements]; exact hp.contents
  distinct := by rw [hroot, hf.elements]; exact hp.distinct
  indexed hoff := by
    rw [hroot, hpos, hf.elements]
    exact hp.indexed (hf.offsetToQueuePos ▸ hoff)

theorem Valid.placed (hv : Valid compare q) : Placed q (live q.root q.elements) :=
  ⟨rfl, hv.distinct, hv.indexed⟩

theorem Valid.heapFrom (hc : CmpTotalPreorder compare) (hv : Valid compare q) :
    HeapFrom (q.Le compare) q.root 1 q.elements :=
  (heap_iff_heapFrom hc hv.top_sign).mp hv.heap

/-- A queue whose loops have finished: placed, in heap order, and within its bounds. -/
theorem Valid.of_placed (hc : CmpTotalPreorder compare) (hm : q.maxAtTop = 1 ∨ q.maxAtTop = -1)
    (hw : q.elements ≤ q.maxElements) (hh : HeapFrom (q.Le compare) q.root 1 q.elements)
    (hp : Placed q M) : Valid compare q where
  top_sign := hm
  within := hw
  heap := (heap_iff_heapFrom hc hm).mpr hh
  distinct := hp.distinct
  indexed := hp.indexed

/-- What the loops leave of a queue `q` whose sign and bound hold: the frame keeps those, and
the heap order is the one of `q`'s comparisons. -/
theorem Valid.of_frame (hc : CmpTotalPreorder compare) {q' : Queue α κ} (hf : Frame q q')
    (hm : q.maxAtTop = 1 ∨ q.maxAtTop = -1) (hw : q.elements ≤ q.maxElements)
    (hp : Placed q' M) (hh : HeapFrom (q.Le compare) q'.root 1 q.elements) : Valid compare q' :=
  Valid.of_placed hc (by rw [hf.maxAtTop]; exact hm) (by rw [hf.elements, hf.maxElements]; exact hw)
    (by rwa [hf.le_eq, hf.elements]) hp

variable [DecidableEq α]

theorem Sifting.move (st : Sifting q hole e M) {c : Nat} (hc1 : 1 ≤ c) (hcn : c ≤ q.elements)
    (hne : c ≠ hole) : Sifting (q.put hole (q.root c)) c e M where
  hole_pos := hc1
  hole_le := hcn
  contents := by
    rw [Queue.put_root, Queue.put_elements, live_move _ ⟨st.hole_pos, st.hole_le⟩ ⟨hc1, hcn⟩ hne]
    exact st.contents
  distinct := injOn_move ⟨st.hole_pos, st.hole_le⟩ ⟨hc1, hcn⟩ hne st.distinct
  indexed hoff := by
    rw [Queue.put_pos q hole (q.root c) hoff]
    exact (st.indexed hoff).move ⟨st.hole_pos, st.hole_le⟩ ⟨hc1, hcn⟩ hne st.distinct

/-- `queue_replace` puts the element back at the hole it then starts `insert_at` from. -/
theorem Sifting.put_hole (st : Sifting q hole e M) : Sifting (q.put hole e) hole e M where
  hole_pos := st.hole_pos
  hole_le := st.hole_le
  contents := by rw [Queue.put_root, update_idem]; exact st.contents
  distinct := by rw [Queue.put_root, update_idem]; exact st.distinct
  indexed hoff := by
    rw [Queue.put_pos q hole e hoff]
    exact (st.indexed hoff).put ⟨st.hole_pos, st.hole_le⟩ st.distinct

theorem Sifting.finish (st : Sifting q hole e M) : Placed (q.put hole e) M where
  contents := st.contents
  distinct := st.distinct
  indexed hoff := by
    rw [Queue.put_pos q hole e hoff]
    exact (st.indexed hoff).finish ⟨st.hole_pos, st.hole_le⟩ st.distinct

end Moves

/-! ## The loops -/

section Loops

variable [DecidableEq α] (hc : CmpTotalPreorder compare)
include hc

/-- `insert_at` from a sift up's hole places the element and leaves a heap. -/
theorem insertAt_spec {q : Queue α κ} {e : α} {idx : Nat} {M : Multiset α}
    (st : Sifting q idx e M) (hm : q.maxAtTop = 1 ∨ q.maxAtTop = -1)
    (up : UpHole (q.Le compare) q.root q.elements idx e) :
    Placed (insertAt compare q e idx) M ∧
      HeapFrom (q.Le compare) (insertAt compare q e idx).root 1 q.elements := by
  fun_induction insertAt compare q e idx with
  | case1 q idx hcond ih =>
    -- the parent comes down into the hole, and the hole moves up
    have := total_le hc hm
    have := trans_le hc hm
    have hbetter : ¬ q.Le compare (q.root (idx / 2)) e :=
      (cmp_neg_iff_not_le hc hm _ _).mp hcond.2
    exact ih (st.move (by omega) (by have := st.hole_le; omega) (by omega)) hm
      (up.move (by omega) hbetter)
  | case2 q idx hcond =>
    refine ⟨st.finish, up.finish fun h2 => ?_⟩
    have hnot : ¬ q.cmp compare e (q.root (idx / 2)) < 0 := fun hlt => hcond ⟨by omega, hlt⟩
    rwa [cmp_neg_iff_not_le hc hm, not_not] at hnot

/-- `_downheap`'s loop from a sift down's hole places the element and leaves the pairs from
`lo` on in order. -/
theorem downheapLoop_spec {q : Queue α κ} {e : α} {idx lo : Nat} {M : Multiset α}
    (st : Sifting q idx e M) (hm : q.maxAtTop = 1 ∨ q.maxAtTop = -1)
    (down : DownHole (q.Le compare) q.root lo q.elements idx e) :
    Placed (downheapLoop compare q e idx) M ∧
      HeapFrom (q.Le compare) (downheapLoop compare q e idx).root lo q.elements := by
  fun_induction downheapLoop compare q e idx with
  | case1 q idx hcond next hstop =>
    -- the better child does not compare better than the element: it stays here
    have := trans_le hc hm
    have hbest := nextIndex_best hc hm hcond.1 hcond.2
    have hle : q.Le compare e (q.root next) := (le_iff_cmp_nonneg hc hm _ _).mpr hstop
    refine ⟨st.finish, down.finish fun c hc2 hcn hcp => ?_⟩
    exact trans_of _ hle (hbest.best c hc2 hcn hcp)
  | case2 q idx hcond next hmove ih =>
    have hbest := nextIndex_best hc hm hcond.1 hcond.2
    have hbetter : ¬ q.Le compare e (q.root next) := by
      rwa [le_iff_cmp_nonneg hc hm]
    have := total_le hc hm
    exact ih (st.move (by have := hbest.two_le; omega) hbest.le_n
      (by have := hbest.parent_eq; omega)) hm (down.move hbest hbetter)
  | case3 q idx hcond =>
    -- past the last parent: the hole has no children
    refine ⟨st.finish, down.finish fun c _ hcn hcp => ?_⟩
    have := st.hole_pos
    omega

/-- `queue_replace`'s loop from a hole: it stops at a sift up's hole, having compared the
element only on its first step. -/
theorem replaceLoop_spec (first : Bool) {q : Queue α κ} {e : α} {idx : Nat} {M : Multiset α}
    (st : Sifting q idx e M) (hm : q.maxAtTop = 1 ∨ q.maxAtTop = -1)
    (ho : Hole (q.Le compare) q.root 1 q.elements idx) :
    Sifting (replaceLoop compare q e first idx).1 (replaceLoop compare q e first idx).2 e M ∧
      UpHole (q.Le compare) (replaceLoop compare q e first idx).1.root q.elements
        (replaceLoop compare q e first idx).2 e := by
  fun_induction replaceLoop compare q e first idx with
  | case1 q first idx hcond next hstop =>
    -- the first comparison: the element stays at `idx`, and `insert_at` starts there
    have := trans_le hc hm
    have hbest := nextIndex_best hc hm hcond.1 hcond.2
    have hle : q.Le compare e (q.root next) := (le_iff_cmp_nonneg hc hm _ _).mpr hstop.2
    refine ⟨st.put_hole, ⟨ho.update_hole e, fun c hc2 hcn hcp => ?_⟩⟩
    rw [Queue.put_root, update_of_ne (show c ≠ idx by omega)]
    exact trans_of _ hle (hbest.best c hc2 hcn hcp)
  | case2 q first idx hcond next _ ih =>
    have hbest := nextIndex_best hc hm hcond.1 hcond.2
    exact ih (st.move (by have := hbest.two_le; omega) hbest.le_n
      (by have := hbest.parent_eq; omega)) hm (ho.sink hbest)
  | case3 q idx hcond =>
    -- a leaf: nothing below the hole
    refine ⟨st, ⟨ho, fun c _ hcn hcp => ?_⟩⟩
    have := st.hole_pos
    omega

/-- `queue_replace` from a hole at `idx` holding the element to place. -/
theorem queueReplace_spec {q : Queue α κ} {idx : Nat} {M : Multiset α}
    (st : Sifting q idx (q.root idx) M) (hm : q.maxAtTop = 1 ∨ q.maxAtTop = -1)
    (ho : Hole (q.Le compare) q.root 1 q.elements idx) :
    Placed (queueReplace compare q idx) M ∧
      HeapFrom (q.Le compare) (queueReplace compare q idx).root 1 q.elements := by
  have hf := replaceLoop_frame compare q (q.root idx) true idx
  obtain ⟨st', up'⟩ := replaceLoop_spec hc true st hm ho
  rw [← hf.le_eq, ← hf.elements] at up' ⊢
  exact insertAt_spec hc st' (hf.maxAtTop ▸ hm) up'

/-- `queue_fix`'s loop from `i` down to 1, with the pairs below `i` already in order. -/
theorem queueFixLoop_spec {M : Multiset α} (i : Nat) :
    ∀ q : Queue α κ, q.maxAtTop = 1 ∨ q.maxAtTop = -1 → Placed q M → i ≤ q.elements / 2 →
      HeapFrom (q.Le compare) q.root (i + 1) q.elements →
      Placed (queueFixLoop compare q i) M ∧
        HeapFrom (q.Le compare) (queueFixLoop compare q i).root 1 q.elements := by
  induction i with
  | zero => exact fun q _ hp _ hh => ⟨hp, hh⟩
  | succ i ih =>
    intro q hm hp hi hh
    -- `_downheap(queue, i + 1)`, then the rest of the loop
    have hf := downheapLoop_frame compare q (q.root (i + 1)) (i + 1)
    obtain ⟨hp', hh'⟩ := downheapLoop_spec hc (hp.sifting (by omega) (by omega)) hm
      (DownHole.start hh (q.root (i + 1)))
    rw [← hf.le_eq, ← hf.elements] at hh'
    have := ih _ (hf.maxAtTop ▸ hm) hp' (by rw [hf.elements]; omega) hh'
    rwa [hf.le_eq, hf.elements] at this

end Loops

end MariaDB.Queues
