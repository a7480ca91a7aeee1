import MariaDB.Lib.BinaryHeap

/-
  The priority queue of mysys/queues.c: a binary heap in `root[1..elements]` of pointers to
  elements, ordered by a comparison of the keys the elements point to.

  Model. `Queue α κ` is a `QUEUE` together with the memory its elements point to: `root` is
  the array of element pointers, `key e` is the key at `e + offset_to_key` that the comparison
  reads, and `pos e` is the `uint` at `e + offset_to_queue_pos - 1`. `first_cmp_arg` and
  `offset_to_key` are folded into `compare`, a parameter of every function. The array is a
  function of the index: `max_elements` is kept and checked where the source checks it, and a
  write past it is not modelled. The stored positions are kept apart from the keys (the two
  offsets do not overlap). The product `compare(..) * max_at_top` is taken in `Int`.

  The loops are the source's: `insert_at` moves the hole up while the element compares better
  than the parent; `_downheap` moves it down to the better child while that child compares
  better than the element; `queue_replace` compares the element with the better child once,
  then sinks the hole to a leaf without comparing and finishes with `insert_at`. Each write
  `queue->root[idx]= e` is followed in the source by the position store, and `Queue.put` is
  the two together.

  The operations a caller makes are `QueueOp`: an insert, a checked insert, a removal, and a
  change of one element's key (or of every key) followed by `queue_replace`,
  `queue_replace_top` or `queue_fix`. `queueRun` runs a list of them.
-/

namespace MariaDB.Queues

open Function MariaDB.Lib

/-- `QUEUE` with the keys and stored positions of the elements it points to. -/
structure Queue (α κ : Type) where
  root : Nat → α
  elements : Nat
  maxElements : Nat
  offsetToQueuePos : Nat
  autoExtent : Nat
  maxAtTop : Int
  key : α → κ
  pos : α → Nat

variable {α κ : Type} [DecidableEq α] (compare : κ → κ → Int)

namespace Queue

/-- `queue->root[idx]= element;` and then
`if (offset_to_queue_pos) (*(uint*) (element + offset_to_queue_pos-1))= idx;`. -/
def put (q : Queue α κ) (idx : Nat) (element : α) : Queue α κ :=
  { q with
    root := update q.root idx element
    pos := if q.offsetToQueuePos ≠ 0 then update q.pos element idx else q.pos }

/-- `queue->compare(queue->first_cmp_arg, a + offset_to_key, b + offset_to_key) *
queue->max_at_top`: below zero when `a` goes nearer the top than `b`. -/
def cmp (q : Queue α κ) (a b : α) : Int := compare (q.key a) (q.key b) * q.maxAtTop

/-- The child `_downheap` and `queue_replace` look at: `next_index= idx+idx`, or the one after
it when that one exists and compares better. -/
def nextIndex (q : Queue α κ) (idx : Nat) : Nat :=
  if 2 * idx < q.elements ∧ q.cmp compare (q.root (2 * idx)) (q.root (2 * idx + 1)) > 0 then
    2 * idx + 1
  else 2 * idx

/-- `queue->root[idx]= queue->root[queue->elements--]`: the last element moved to `idx`. -/
def moveLast (q : Queue α κ) (idx : Nat) : Queue α κ :=
  { q with root := update q.root idx (q.root q.elements), elements := q.elements - 1 }

/-- The caller changes the key of `element` to `k`. -/
def setKey (q : Queue α κ) (element : α) (k : κ) : Queue α κ :=
  { q with key := update q.key element k }

@[simp] theorem put_root (q : Queue α κ) (idx : Nat) (element : α) :
    (q.put idx element).root = update q.root idx element := rfl

@[simp] theorem put_elements (q : Queue α κ) (idx : Nat) (element : α) :
    (q.put idx element).elements = q.elements := rfl

@[simp] theorem put_cmp (q : Queue α κ) (idx : Nat) (element : α) :
    (q.put idx element).cmp compare = q.cmp compare := rfl

@[simp] theorem setKey_key (q : Queue α κ) (element : α) (k : κ) :
    (q.setKey element k).key = update q.key element k := rfl

theorem put_pos (q : Queue α κ) (idx : Nat) (element : α) (h : q.offsetToQueuePos ≠ 0) :
    (q.put idx element).pos = update q.pos element idx := by
  simp [put, h]

omit [DecidableEq α] in
theorem two_mul_le_nextIndex (q : Queue α κ) (idx : Nat) :
    2 * idx ≤ q.nextIndex compare idx ∧ q.nextIndex compare idx ≤ 2 * idx + 1 := by
  unfold nextIndex
  split <;> omega

end Queue

/-- `insert_at(queue, element, idx)`: while `element` compares better than the parent of the
hole at `idx` (`next_index= idx >> 1`), the parent comes down into the hole; then `element`
goes in. -/
def insertAt (q : Queue α κ) (element : α) (idx : Nat) : Queue α κ :=
  if h : idx / 2 > 0 ∧ q.cmp compare element (q.root (idx / 2)) < 0 then
    insertAt (q.put idx (q.root (idx / 2))) element (idx / 2)
  else q.put idx element
termination_by idx
decreasing_by omega

/-- The loop of `_downheap(queue, idx)` with `element` held aside, while
`idx <= half_queue`. Every caller passes `idx > 0` (`queue_fix` counts down to 1,
`queue_replace_top` passes 1), which makes the hole go down at each step. -/
def downheapLoop (q : Queue α κ) (element : α) (idx : Nat) : Queue α κ :=
  if _h : 0 < idx ∧ idx ≤ q.elements / 2 then
    let next := q.nextIndex compare idx
    if q.cmp compare (q.root next) element ≥ 0 then q.put idx element
    else downheapLoop (q.put idx (q.root next)) element next
  else q.put idx element
termination_by q.elements + 1 - idx
decreasing_by
  have := q.two_mul_le_nextIndex compare idx
  simp only [Queue.put_elements]
  omega

/-- `_downheap(queue, idx)`: the element at `idx` taken out and sifted down. -/
def downheap (q : Queue α κ) (idx : Nat) : Queue α κ :=
  downheapLoop compare q (q.root idx) idx

/-- The loop of `queue_fix`: `_downheap(queue, i)` for `i` from the given index down to 1. -/
def queueFixLoop (q : Queue α κ) : Nat → Queue α κ
  | 0 => q
  | i + 1 => queueFixLoop (downheap compare q (i + 1)) i

/-- `queue_fix(queue)`: `for (i= queue->elements >> 1; i > 0; i--) _downheap(queue, i);`. -/
def queueFix (q : Queue α κ) : Queue α κ := queueFixLoop compare q (q.elements / 2)

/-- The loop of `queue_replace(queue, idx)`, and the index it stops at. Only on the `first`
step is the better child compared with `element`; if it does not compare better, `element`
is put at `idx` and the loop stops. Otherwise the hole sinks to a leaf. -/
def replaceLoop (q : Queue α κ) (element : α) (first : Bool) (idx : Nat) : Queue α κ × Nat :=
  if _h : 0 < idx ∧ idx ≤ q.elements / 2 then
    let next := q.nextIndex compare idx
    if first ∧ q.cmp compare (q.root next) element ≥ 0 then (q.put idx element, idx)
    else replaceLoop (q.put idx (q.root next)) element false next
  else (q, idx)
termination_by q.elements + 1 - idx
decreasing_by
  have := q.two_mul_le_nextIndex compare idx
  simp only [Queue.put_elements]
  omega

/-- `queue_replace(queue, idx)`: the loop, then `insert_at(queue, element, idx)` from where
it stopped. -/
def queueReplace (q : Queue α κ) (idx : Nat) : Queue α κ :=
  insertAt compare (replaceLoop compare q (q.root idx) true idx).1 (q.root idx)
    (replaceLoop compare q (q.root idx) true idx).2

/-- `queue_remove(queue, idx)`: the element at `idx`, and the queue after
`queue->root[idx]= queue->root[queue->elements--]; queue_replace(queue, idx);`. -/
def queueRemove (q : Queue α κ) (idx : Nat) : α × Queue α κ :=
  (q.root idx, queueReplace compare (q.moveLast idx) idx)

/-- `queue_insert(queue, element)`: `insert_at(queue, element, ++queue->elements)`. -/
def queueInsert (q : Queue α κ) (element : α) : Queue α κ :=
  insertAt compare { q with elements := q.elements + 1 } element (q.elements + 1)

/-- `resize_queue(queue, max_elements)` and its code; `reallocOk` is whether `my_realloc`
succeeds, which keeps the array's first slots. -/
def resizeQueue (q : Queue α κ) (maxElements : Nat) (reallocOk : Bool) : Nat × Queue α κ :=
  if q.maxElements = maxElements then (0, q)
  else if reallocOk then
    (0, { q with elements := min q.elements maxElements, maxElements := maxElements })
  else (1, q)

/-- `queue_insert_safe(queue, element)` and its code. The new size
`queue->max_elements + queue->auto_extent` is a `uint` sum. -/
def queueInsertSafe (q : Queue α κ) (element : α) (reallocOk : Bool) : Nat × Queue α κ :=
  if q.elements = q.maxElements then
    if q.autoExtent = 0 then (2, q)
    else
      let resized := resizeQueue q ((q.maxElements + q.autoExtent) % 2 ^ 32) reallocOk
      if resized.1 ≠ 0 then (1, resized.2) else (0, queueInsert compare resized.2 element)
  else (0, queueInsert compare q element)

/-- `init_queue(queue, max_elements, offset_to_key, max_at_top, compare, first_cmp_arg,
offset_to_queue_pos, auto_extent)` once `my_malloc` has given the array `root`;
`queue_set_max_at_top` stores `-1` for a queue with the greatest element on top. -/
def initQueue (root : Nat → α) (maxElements : Nat) (maxAtTop : Bool)
    (offsetToQueuePos autoExtent : Nat) (key : α → κ) (pos : α → Nat) : Queue α κ where
  root := root
  elements := 0
  maxElements := maxElements
  offsetToQueuePos := offsetToQueuePos
  autoExtent := autoExtent
  maxAtTop := if maxAtTop then -1 else 1
  key := key
  pos := pos

/-- What a caller does to a queue. `replace`, `replaceTop` and `fix` first change the key of
the element at `idx`, of the top element, or of every element, and then call
`queue_replace(queue, idx)`, `queue_replace_top(queue)` or `queue_fix(queue)`. -/
inductive QueueOp (α κ : Type) where
  | insert (element : α)
  | insertSafe (element : α) (reallocOk : Bool)
  | remove (idx : Nat)
  | replace (idx : Nat) (k : κ)
  | replaceTop (k : κ)
  | fix (key : α → κ)

/-- One operation. `queue_replace_top(queue)` is `_downheap(queue, 1)`. -/
def queueStep (q : Queue α κ) : QueueOp α κ → Queue α κ
  | .insert e => queueInsert compare q e
  | .insertSafe e ok => (queueInsertSafe compare q e ok).2
  | .remove idx => (queueRemove compare q idx).2
  | .replace idx k => queueReplace compare (q.setKey (q.root idx) k) idx
  | .replaceTop k => downheap compare (q.setKey (q.root 1) k) 1
  | .fix key => queueFix compare { q with key := key }

def queueRun (q : Queue α κ) : List (QueueOp α κ) → Queue α κ
  | [] => q
  | op :: ops => queueRun (queueStep compare q op) ops

/-- `queue_top(queue)`: `queue->root[1]`. -/
def queueTop (q : Queue α κ) : α := q.root 1

end MariaDB.Queues
