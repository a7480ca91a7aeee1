import MariaDB.Queues.Invariant

/-
  Runs of queue operations: each operation keeps `Valid` and changes the queue's multiset by
  what it adds and removes, and so does any run of them (`queue_heap_invariant`).

  An operation is `Allowed` when it keeps to what queues.c asks of its caller (the assertions
  `queue->elements < queue->max_elements` and `1 <= idx <= queue->elements`; a key change of an
  element that is in the queue) and to two more conditions without which the invariant does
  not hold: an element is not inserted while it is in the queue, and a checked insert that
  grows the queue keeps `max_elements + auto_extent` within a `uint`.
  `queue_duplicate_and_wrapped_extent` shows both at work: a second insert of an element
  leaves its stored position at its second slot, and a checked insert into a full queue of
  `UINT_MAX` elements answers 0 and leaves 2.
-/

namespace MariaDB.Queues

open Function MariaDB.Lib

variable {α κ : Type} [DecidableEq α] (compare : κ → κ → Int)

/-- What the source and the invariant ask of a caller before an operation. -/
def Allowed (q : Queue α κ) : QueueOp α κ → Prop
  | .insert e => q.elements < q.maxElements ∧ e ∉ live q.root q.elements
  | .insertSafe e _ =>
    (q.elements = q.maxElements → q.autoExtent ≠ 0 →
        q.maxElements + q.autoExtent < 2 ^ 32) ∧
      e ∉ live q.root q.elements
  | .remove idx => 1 ≤ idx ∧ idx ≤ q.elements
  | .replace idx _ => 1 ≤ idx ∧ idx ≤ q.elements
  | .replaceTop _ => 1 ≤ q.elements
  | .fix _ => True

/-- The elements an operation puts into the queue. -/
def added (q : Queue α κ) : QueueOp α κ → Multiset α
  | .insert e => {e}
  | .insertSafe e ok => if (queueInsertSafe compare q e ok).1 = 0 then {e} else 0
  | _ => 0

/-- The elements an operation takes out of the queue. -/
def removed (q : Queue α κ) : QueueOp α κ → Multiset α
  | .remove idx => {q.root idx}
  | _ => 0

def RunAllowed (q : Queue α κ) : List (QueueOp α κ) → Prop
  | [] => True
  | op :: ops => Allowed q op ∧ RunAllowed (queueStep compare q op) ops

def addedAlong (q : Queue α κ) : List (QueueOp α κ) → Multiset α
  | [] => 0
  | op :: ops => added compare q op + addedAlong (queueStep compare q op) ops

def removedAlong (q : Queue α κ) : List (QueueOp α κ) → Multiset α
  | [] => 0
  | op :: ops => removed q op + removedAlong (queueStep compare q op) ops

variable {compare}

/-! ## Single steps of the loops -/

theorem insertAt_of_stop {q : Queue α κ} {e : α} {idx : Nat}
    (h : ¬ (idx / 2 > 0 ∧ q.cmp compare e (q.root (idx / 2)) < 0)) :
    insertAt compare q e idx = q.put idx e := by
  rw [insertAt, dif_neg h]

theorem replaceLoop_of_leaf {q : Queue α κ} {e : α} {first : Bool} {idx : Nat}
    (h : ¬ (0 < idx ∧ idx ≤ q.elements / 2)) : replaceLoop compare q e first idx = (q, idx) := by
  rw [replaceLoop, dif_neg h]

omit [DecidableEq α] in
/-- `resize_queue` to a size that holds every element only changes `max_elements`. -/
theorem resizeQueue_of_le {q : Queue α κ} {m : Nat} (hm : q.elements ≤ m) :
    resizeQueue q m true = (0, { q with maxElements := m }) := by
  by_cases hsame : q.maxElements = m
  · subst hsame
    rw [resizeQueue, if_pos rfl]
  · rw [resizeQueue, if_neg hsame, if_pos rfl, min_eq_left hm]

/-- `queue_insert_safe` with room left is `queue_insert`. -/
theorem queueInsertSafe_of_room {q : Queue α κ} {e : α} {ok : Bool}
    (h : q.elements ≠ q.maxElements) :
    queueInsertSafe compare q e ok = (0, queueInsert compare q e) := by
  rw [queueInsertSafe, if_neg h]

/-- `queue_insert_safe` on a full queue without `auto_extent` answers 2. -/
theorem queueInsertSafe_of_fixed {q : Queue α κ} {e : α} {ok : Bool}
    (hfull : q.elements = q.maxElements) (hext : q.autoExtent = 0) :
    queueInsertSafe compare q e ok = (2, q) := by
  rw [queueInsertSafe, if_pos hfull, if_pos hext]

/-- `queue_insert_safe` on a full queue grows it by `auto_extent` when the new size fits in a
`uint`, or answers 1 when `my_realloc` fails. -/
theorem queueInsertSafe_of_grow {q : Queue α κ} {e : α} {ok : Bool}
    (hfull : q.elements = q.maxElements) (hext : q.autoExtent ≠ 0)
    (hwrap : q.maxElements + q.autoExtent < 2 ^ 32) :
    queueInsertSafe compare q e ok =
      if ok then (0, queueInsert compare { q with maxElements := q.maxElements + q.autoExtent } e)
      else (1, q) := by
  have hgrow : q.maxElements ≠ q.maxElements + q.autoExtent := by omega
  simp only [queueInsertSafe, if_pos hfull, if_neg hext, Nat.mod_eq_of_lt hwrap]
  cases ok
  · simp [resizeQueue, hext]
  · simp [resizeQueue_of_le (show q.elements ≤ q.maxElements + q.autoExtent by omega)]

/-! ## The operations -/

/-- `queue_remove` of the last element leaves it where it is: the sift down has no children
to look at, and `insert_at` stops at once since the heap holds at the last slot. -/
theorem queueRemove_last {q : Queue α κ} (hv : Valid compare q) (h1 : 1 ≤ q.elements) :
    (queueRemove compare q q.elements).2 =
      (q.moveLast q.elements).put q.elements (q.root q.elements) := by
  have hroot : (q.moveLast q.elements).root = q.root := update_eq_self _ _
  have hstop : ¬ (q.elements / 2 > 0 ∧ (q.moveLast q.elements).cmp compare
      ((q.moveLast q.elements).root q.elements)
      ((q.moveLast q.elements).root (q.elements / 2)) < 0) := by
    rw [hroot]
    rintro ⟨_, hlt⟩
    exact absurd (hv.heap q.elements (by omega) le_rfl) (not_le.mpr hlt)
  have hleaf : ¬ (0 < q.elements ∧ q.elements ≤ (q.moveLast q.elements).elements / 2) := by
    show ¬ (0 < q.elements ∧ q.elements ≤ (q.elements - 1) / 2)
    omega
  rw [queueRemove, queueReplace, replaceLoop_of_leaf hleaf, insertAt_of_stop hstop, hroot]

omit [DecidableEq α] in
/-- `resize_queue` to a size that holds every element keeps the queue valid. -/
theorem Valid.grow {q : Queue α κ} (hv : Valid compare q) {m : Nat} (hm : q.elements ≤ m) :
    Valid compare { q with maxElements := m } :=
  ⟨hv.top_sign, hm, hv.heap, hv.distinct, hv.indexed⟩

section Operations

variable (hc : CmpTotalPreorder compare)
include hc

variable {q : Queue α κ}

theorem Valid.insert (hv : Valid compare q) {e : α} (hlt : q.elements < q.maxElements)
    (hnew : e ∉ live q.root q.elements) :
    Valid compare (queueInsert compare q e) ∧
      live (queueInsert compare q e).root (queueInsert compare q e).elements =
        e ::ₘ live q.root q.elements := by
  unfold queueInsert
  -- `++queue->elements`: the hole is the new last slot
  have st : Sifting { q with elements := q.elements + 1 } (q.elements + 1) e
      (e ::ₘ live q.root q.elements) :=
    { hole_pos := by omega
      hole_le := le_refl _
      contents := live_succ_update q.root q.elements e
      distinct := injOn_update_succ hv.distinct hnew
      indexed := fun hoff i hi1 hin hih => by
        have hin' : i ≤ q.elements + 1 := hin
        exact hv.indexed hoff i hi1 (by omega) }
  have hf := insertAt_frame compare { q with elements := q.elements + 1 } e (q.elements + 1)
  obtain ⟨hp, hh⟩ := insertAt_spec hc st hv.top_sign (UpHole.of_heap_succ (hv.heapFrom hc) e)
  exact ⟨Valid.of_frame hc hf hv.top_sign hlt hp hh, hp.contents⟩

theorem Valid.insertSafe (hv : Valid compare q) {e : α} {ok : Bool}
    (hwrap : q.elements = q.maxElements → q.autoExtent ≠ 0 →
      q.maxElements + q.autoExtent < 2 ^ 32)
    (hnew : e ∉ live q.root q.elements) :
    Valid compare (queueInsertSafe compare q e ok).2 ∧
      live (queueInsertSafe compare q e ok).2.root (queueInsertSafe compare q e ok).2.elements =
        live q.root q.elements + added compare q (.insertSafe e ok) := by
  by_cases hfull : q.elements = q.maxElements
  · by_cases hext : q.autoExtent = 0
    · -- `auto_extent` is 0: code 2, nothing changes
      simp only [added, queueInsertSafe_of_fixed hfull hext]
      exact ⟨hv, by simp⟩
    · have hm : q.elements ≤ q.maxElements + q.autoExtent := by omega
      cases ok
      · -- `my_realloc` fails: code 1, nothing changes
        simp only [added, queueInsertSafe_of_grow hfull hext (hwrap hfull hext),
          Bool.false_eq_true, if_false]
        exact ⟨hv, by simp⟩
      · -- the queue grows by `auto_extent`, and the insert goes in
        simp only [added, queueInsertSafe_of_grow hfull hext (hwrap hfull hext), if_true]
        obtain ⟨hvi, hli⟩ := (hv.grow hm).insert hc (show q.elements < q.maxElements + q.autoExtent by omega)
          hnew
        refine ⟨hvi, ?_⟩
        rw [hli, Multiset.add_comm, Multiset.singleton_add]
  · -- room left: a plain `queue_insert`
    simp only [added, queueInsertSafe_of_room hfull, if_true]
    obtain ⟨hvi, hli⟩ := hv.insert hc (lt_of_le_of_ne hv.within hfull) hnew
    refine ⟨hvi, ?_⟩
    rw [hli, Multiset.add_comm, Multiset.singleton_add]

omit hc in
/-- `queue_remove` of the last element: `queue_replace` finds it in place at once. -/
theorem Valid.remove_last (hv : Valid compare q) (h1 : 1 ≤ q.elements) :
    Valid compare (queueRemove compare q q.elements).2 ∧
      live (queueRemove compare q q.elements).2.root (queueRemove compare q q.elements).2.elements +
          {q.root q.elements} = live q.root q.elements := by
  have hres : ((q.moveLast q.elements).put q.elements (q.root q.elements)).root = q.root := by
    rw [Queue.put_root, Queue.moveLast, update_eq_self, update_eq_self]
  rw [queueRemove_last hv h1]
  refine ⟨⟨hv.top_sign, ?_, ?_, ?_, ?_⟩, ?_⟩
  · show q.elements - 1 ≤ q.maxElements
    have := hv.within
    omega
  · intro i hi2 hin
    have hin' : i ≤ q.elements - 1 := hin
    rw [hres]
    exact hv.heap i hi2 (by omega)
  · rw [hres]
    exact hv.distinct.mono (Set.Icc_subset_Icc le_rfl (Nat.sub_le _ _))
  · intro hoff i hi1 hin
    have hin' : i ≤ q.elements - 1 := hin
    -- the removed element's position is written, and it is no longer in the queue
    have hne : q.root i ≠ q.root q.elements :=
      fun heq => absurd (hv.distinct ⟨hi1, by omega⟩ ⟨h1, le_rfl⟩ heq) (by omega)
    rw [hres, Queue.put_pos (q.moveLast q.elements) q.elements (q.root q.elements) hoff,
      update_of_ne hne]
    exact hv.indexed hoff i hi1 (by omega)
  · rw [hres]
    show live q.root (q.elements - 1) + {q.root q.elements} = live q.root q.elements
    simpa only [update_eq_self] using live_remove q.root h1 le_rfl

theorem Valid.remove (hv : Valid compare q) {idx : Nat} (h1 : 1 ≤ idx)
    (hn : idx ≤ q.elements) :
    Valid compare (queueRemove compare q idx).2 ∧
      live (queueRemove compare q idx).2.root (queueRemove compare q idx).2.elements +
          {q.root idx} = live q.root q.elements := by
  rcases Nat.lt_or_eq_of_le hn with hlt | hlast
  · -- the last element goes to `idx`, and `queue_replace` moves it up or down
    have := trans_le hc hv.top_sign
    have st : Sifting (q.moveLast idx) idx ((q.moveLast idx).root idx)
        (live (q.moveLast idx).root (q.moveLast idx).elements) :=
      { hole_pos := h1
        hole_le := show idx ≤ q.elements - 1 by omega
        contents := by rw [update_eq_self]
        distinct := by
          rw [update_eq_self]
          exact injOn_remove hv.distinct h1 hn
        indexed := fun hoff i hi1 hin hih => by
          have hin' : i ≤ q.elements - 1 := hin
          show q.pos (update q.root idx (q.root q.elements) i) = i
          rw [update_of_ne hih]
          exact hv.indexed hoff i hi1 (by omega) }
    have ho : Hole ((q.moveLast idx).Le compare) (q.moveLast idx).root 1
        (q.moveLast idx).elements idx :=
      Hole.of_heap (hv.heapFrom hc) (Nat.sub_le q.elements 1) (q.root q.elements)
    have hf := queueReplace_frame compare (q.moveLast idx) idx
    obtain ⟨hp, hh⟩ := queueReplace_spec hc st hv.top_sign ho
    have hw : (q.moveLast idx).elements ≤ (q.moveLast idx).maxElements := by
      show q.elements - 1 ≤ q.maxElements
      have := hv.within
      omega
    refine ⟨Valid.of_frame hc hf hv.top_sign hw hp hh, ?_⟩
    rw [queueRemove, hp.contents]
    exact live_remove q.root h1 hn
  · subst hlast
    exact hv.remove_last h1

/-- After a change of the key at `idx`, the pairs away from `idx` compare as before. -/
theorem Valid.hole_of_key (hv : Valid compare q) {idx : Nat} (h1 : 1 ≤ idx)
    (hn : idx ≤ q.elements) (k : κ) :
    Hole ((q.setKey (q.root idx) k).Le compare) q.root 1 q.elements idx := by
  have := trans_le hc hv.top_sign
  have ho := Hole.of_heap (hv.heapFrom hc) le_rfl (i := idx) (q.root idx)
  rw [update_eq_self] at ho
  refine ho.mono_rel le_rfl fun i j hi1 hin hj1 hjn hi hj hle => ?_
  -- the elements away from `idx` are not the one whose key changed
  have hne : ∀ l, 1 ≤ l → l ≤ q.elements → l ≠ idx → q.root l ≠ q.root idx :=
    fun l hl1 hln hl heq => hl (hv.distinct ⟨hl1, hln⟩ ⟨h1, hn⟩ heq)
  simp only [Queue.Le, Queue.cmp, Queue.setKey_key, update_of_ne (hne i hi1 hin hi),
    update_of_ne (hne j hj1 hjn hj)]
  exact hle

theorem Valid.replace (hv : Valid compare q) {idx : Nat} (h1 : 1 ≤ idx) (hn : idx ≤ q.elements)
    (k : κ) :
    Valid compare (queueStep compare q (.replace idx k)) ∧
      live (queueStep compare q (.replace idx k)).root
          (queueStep compare q (.replace idx k)).elements = live q.root q.elements := by
  have hp : Placed (q.setKey (q.root idx) k) (live q.root q.elements) :=
    ⟨hv.placed.contents, hv.placed.distinct, hv.placed.indexed⟩
  have hf := queueReplace_frame compare (q.setKey (q.root idx) k) idx
  obtain ⟨hp', hh⟩ := queueReplace_spec hc (hp.sifting h1 hn) hv.top_sign
    (hv.hole_of_key hc h1 hn k)
  exact ⟨Valid.of_frame hc hf hv.top_sign hv.within hp' hh, hp'.contents⟩

theorem Valid.replaceTop (hv : Valid compare q) (h1 : 1 ≤ q.elements) (k : κ) :
    Valid compare (queueStep compare q (.replaceTop k)) ∧
      live (queueStep compare q (.replaceTop k)).root
          (queueStep compare q (.replaceTop k)).elements = live q.root q.elements := by
  have hp : Placed (q.setKey (q.root 1) k) (live q.root q.elements) :=
    ⟨hv.placed.contents, hv.placed.distinct, hv.placed.indexed⟩
  have hf := downheapLoop_frame compare (q.setKey (q.root 1) k) (q.root 1) 1
  -- `queue_replace_top` is `_downheap(queue, 1)`: the top has no parent to compare with
  have down : DownHole ((q.setKey (q.root 1) k).Le compare) q.root 1 q.elements 1 (q.root 1) :=
    ⟨hv.hole_of_key hc le_rfl h1 k, fun hlt => absurd hlt (lt_irrefl 1)⟩
  obtain ⟨hp', hh⟩ := downheapLoop_spec hc (hp.sifting le_rfl h1) hv.top_sign down
  exact ⟨Valid.of_frame hc hf hv.top_sign hv.within hp' hh, hp'.contents⟩

theorem Valid.fix (hv : Valid compare q) (key : α → κ) :
    Valid compare (queueStep compare q (.fix key)) ∧
      live (queueStep compare q (.fix key)).root (queueStep compare q (.fix key)).elements =
        live q.root q.elements := by
  have hp : Placed ({ q with key := key } : Queue α κ) (live q.root q.elements) :=
    ⟨hv.placed.contents, hv.placed.distinct, hv.placed.indexed⟩
  have hf := queueFixLoop_frame compare { q with key := key } (q.elements / 2)
  -- the bottom-up build starts with no pair to check
  obtain ⟨hp', hh⟩ := queueFixLoop_spec hc (q.elements / 2) { q with key := key } hv.top_sign hp
    le_rfl (heapFrom_half_succ _ _)
  exact ⟨Valid.of_frame hc hf hv.top_sign hv.within hp' hh, hp'.contents⟩

/-- One allowed operation keeps the invariant and trades what it removes for what it adds. -/
theorem Valid.step (hv : Valid compare q) {op : QueueOp α κ} (ha : Allowed q op) :
    Valid compare (queueStep compare q op) ∧
      live (queueStep compare q op).root (queueStep compare q op).elements + removed q op =
        live q.root q.elements + added compare q op := by
  cases op with
  | insert e =>
    obtain ⟨hvi, hli⟩ := hv.insert hc ha.1 ha.2
    refine ⟨hvi, ?_⟩
    simp only [queueStep, removed, added, hli, add_zero, Multiset.add_comm, Multiset.singleton_add]
  | insertSafe e ok =>
    obtain ⟨hvi, hli⟩ := hv.insertSafe hc ha.1 ha.2
    exact ⟨hvi, by simpa only [queueStep, removed, add_zero] using hli⟩
  | remove idx =>
    obtain ⟨hvr, hlr⟩ := hv.remove hc ha.1 ha.2
    exact ⟨hvr, by simpa only [queueStep, added, removed, add_zero] using hlr⟩
  | replace idx k =>
    obtain ⟨hvr, hlr⟩ := hv.replace hc ha.1 ha.2 k
    exact ⟨hvr, by simpa only [added, removed, add_zero] using hlr⟩
  | replaceTop k =>
    obtain ⟨hvr, hlr⟩ := hv.replaceTop hc ha k
    exact ⟨hvr, by simpa only [added, removed, add_zero] using hlr⟩
  | fix key =>
    obtain ⟨hvr, hlr⟩ := hv.fix hc key
    exact ⟨hvr, by simpa only [added, removed, add_zero] using hlr⟩

/-- Any run of allowed operations, by induction on the run from the step lemma. -/
theorem Valid.run (ops : List (QueueOp α κ)) :
    ∀ q : Queue α κ, Valid compare q → RunAllowed compare q ops →
      Valid compare (queueRun compare q ops) ∧
        live (queueRun compare q ops).root (queueRun compare q ops).elements +
            removedAlong compare q ops =
          live q.root q.elements + addedAlong compare q ops := by
  induction ops with
  | nil => exact fun q hv _ => ⟨hv, by simp [queueRun, removedAlong, addedAlong]⟩
  | cons op ops ih =>
    intro q hv ha
    obtain ⟨hv', hstep⟩ := hv.step hc ha.1
    obtain ⟨hvr, hrun⟩ := ih _ hv' ha.2
    refine ⟨hvr, ?_⟩
    simp only [queueRun, removedAlong, addedAlong]
    calc live (queueRun compare (queueStep compare q op) ops).root
            (queueRun compare (queueStep compare q op) ops).elements +
          (removed q op + removedAlong compare (queueStep compare q op) ops)
        = (live (queueRun compare (queueStep compare q op) ops).root
              (queueRun compare (queueStep compare q op) ops).elements +
            removedAlong compare (queueStep compare q op) ops) + removed q op := by
          rw [Multiset.add_comm (removed q op), Multiset.add_assoc]
      _ = (live (queueStep compare q op).root (queueStep compare q op).elements +
            removed q op) + addedAlong compare (queueStep compare q op) ops := by
          rw [hrun, Multiset.add_assoc, Multiset.add_assoc, Multiset.add_comm (removed q op)]
      _ = live q.root q.elements +
            (added compare q op + addedAlong compare (queueStep compare q op) ops) := by
          rw [hstep, Multiset.add_assoc]

end Operations

omit [DecidableEq α] in
theorem initQueue_valid (root : Nat → α) (maxElements : Nat) (maxAtTop : Bool)
    (offsetToQueuePos autoExtent : Nat) (key : α → κ) (pos : α → Nat) :
    Valid compare (initQueue root maxElements maxAtTop offsetToQueuePos autoExtent key pos) where
  top_sign := by cases maxAtTop <;> simp [initQueue]
  within := Nat.zero_le _
  heap i hi2 hin := absurd hin (by simp [initQueue]; omega)
  distinct := by simp [initQueue]
  indexed _ i hi1 hin := absurd hin (by simp [initQueue]; omega)

theorem queue_heap_invariant (hc : CmpTotalPreorder compare) :
    (∀ (q : Queue α κ) (ops : List (QueueOp α κ)), Valid compare q → RunAllowed compare q ops →
        Valid compare (queueRun compare q ops) ∧
          live (queueRun compare q ops).root (queueRun compare q ops).elements +
              removedAlong compare q ops =
            live q.root q.elements + addedAlong compare q ops) ∧
      (∀ (q : Queue α κ) (idx : Nat), (queueRemove compare q idx).1 = q.root idx) ∧
      (∀ q : Queue α κ, Valid compare q → ∀ i, 1 ≤ i → i ≤ q.elements →
        q.cmp compare (q.root i) (queueTop q) ≥ 0) := by
  refine ⟨fun q ops hv ha => Valid.run hc ops q hv ha, fun q idx => rfl, ?_⟩
  intro q hv i hi1 hin
  have := trans_le hc hv.top_sign
  have := total_le hc hv.top_sign
  -- the top stands at or above every slot of the heap
  exact (le_iff_cmp_nonneg hc hv.top_sign _ _).mp ((hv.heapFrom hc).root_le i hi1 hin)


/-- The unit test's comparison of `uint` keys, as a difference. -/
def subCompare (a b : Nat) : Int := (a : Int) - b

theorem subCompare_totalPreorder : CmpTotalPreorder subCompare where
  neg_iff a b := by simp only [subCompare]; omega
  le_trans a b c := by simp only [subCompare]; omega

/-- An empty queue of at most four naturals, each its own key, smallest at the top, with
positions kept. -/
def sampleQueue : Queue Nat Nat := initQueue (fun _ => 0) 4 false 1 0 id (fun _ => 0)

def sampleRun : List (QueueOp Nat Nat) := [.insert 5, .insert 3]

theorem queue_heap_invariant_sample :
    CmpTotalPreorder subCompare ∧ Valid subCompare sampleQueue ∧
      RunAllowed subCompare sampleQueue sampleRun ∧
      Valid subCompare (queueRun subCompare sampleQueue sampleRun) ∧
      live (queueRun subCompare sampleQueue sampleRun).root
          (queueRun subCompare sampleQueue sampleRun).elements +
          removedAlong subCompare sampleQueue sampleRun =
        live sampleQueue.root sampleQueue.elements + addedAlong subCompare sampleQueue sampleRun := by
  have hv : Valid subCompare sampleQueue := initQueue_valid _ _ _ _ _ _ _
  have ha : RunAllowed subCompare sampleQueue sampleRun := by
    simp [sampleRun, RunAllowed, Allowed, queueStep, queueInsert, insertAt, sampleQueue, initQueue,
      Queue.put, Queue.cmp, subCompare, live, update]
  exact ⟨subCompare_totalPreorder, hv, ha,
    (queue_heap_invariant subCompare_totalPreorder).1 _ _ hv ha⟩

/-! ## Without the two extra conditions -/

/-- The sample queue after `5` is inserted twice. -/
def twiceInserted : Queue Nat Nat :=
  queueRun subCompare sampleQueue [.insert 5, .insert 5]

theorem twiceInserted_eq :
    twiceInserted.elements = 2 ∧ twiceInserted.maxElements = 4 ∧
      twiceInserted.offsetToQueuePos = 1 ∧ twiceInserted.root 1 = 5 ∧ twiceInserted.pos 5 = 2 := by
  simp [twiceInserted, queueRun, queueStep, queueInsert, insertAt, sampleQueue, initQueue,
    Queue.put, Queue.cmp, subCompare, update]

/-- A full queue of `UINT_MAX` elements `1, 2, …`, each its own key and position, with
`auto_extent` 2. -/
def fullQueue : Queue Nat Nat where
  root := id
  elements := 2 ^ 32 - 1
  maxElements := 2 ^ 32 - 1
  offsetToQueuePos := 1
  autoExtent := 2
  maxAtTop := 1
  key := id
  pos := id

theorem fullQueue_valid : Valid subCompare fullQueue where
  top_sign := Or.inl rfl
  within := le_rfl
  heap i _ _ := by
    simp only [Queue.cmp, fullQueue, subCompare, id]
    omega
  distinct := injective_id.injOn
  indexed _ _ _ _ := rfl

/-- `max_elements + auto_extent` wraps to 1: `resize_queue` cuts the queue to one element. -/
theorem queueInsertSafe_fullQueue : queueInsertSafe subCompare fullQueue 0 true =
    (0, queueInsert subCompare { fullQueue with elements := 1, maxElements := 1 } 0) := by
  simp [queueInsertSafe, resizeQueue, fullQueue]

theorem queue_duplicate_and_wrapped_extent :
    CmpTotalPreorder subCompare ∧
      Valid subCompare sampleQueue ∧ twiceInserted.offsetToQueuePos ≠ 0 ∧
      twiceInserted.elements ≤ twiceInserted.maxElements ∧
      twiceInserted.pos (twiceInserted.root 1) ≠ 1 ∧
      Valid subCompare fullQueue ∧ 0 ∉ live fullQueue.root fullQueue.elements ∧
      (queueInsertSafe subCompare fullQueue 0 true).1 = 0 ∧
      live (queueInsertSafe subCompare fullQueue 0 true).2.root
          (queueInsertSafe subCompare fullQueue 0 true).2.elements ≠
        live fullQueue.root fullQueue.elements + {0} := by
  obtain ⟨he, hm, ho, hr, hp⟩ := twiceInserted_eq
  refine ⟨subCompare_totalPreorder, initQueue_valid _ _ _ _ _ _ _, by omega, by omega,
    by rw [hr, hp]; omega, fullQueue_valid, by simp [live, fullQueue],
    by rw [queueInsertSafe_fullQueue], ?_⟩
  -- the queue is left with two elements where `UINT_MAX + 1` were put in
  intro h
  have hcard := congrArg Multiset.card h
  rw [card_live, Multiset.card_add, card_live, Multiset.card_singleton,
    queueInsertSafe_fullQueue, queueInsert, (insertAt_frame subCompare _ _ _).elements] at hcard
  simp [fullQueue] at hcard

end MariaDB.Queues
