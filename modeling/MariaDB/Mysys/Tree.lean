import MariaDB.Lib.SearchTree

/-
  `tree_search_key`, `tree_search_edge` and `tree_search_next` of mysys/tree.c.

  A tree is a `BTree` of keys: `ELEMENT_KEY` is the node's key and `&null_element` the empty
  tree. The caller's `parents` array holds, from index 0, `&null_element` and then the nodes of
  the path walked so far; a position `*last_pos` points into it. The array is written only
  above the current depth, so the entries at and below a recorded position never change
  after it is recorded, and a position is modelled by its stack, top first, ending in `null`
  (`ValidPos`). Nodes are compared by value where the code compares pointers: with distinct
  keys, two subtrees of one node are equal only when both are empty (`child_ne_child_swap`).

  Results, for a tree whose keys are strictly increasing from left to right and a comparison
  `compare` that orders keys as `<` does:
  * `searchKeyLoop_descend`: the loop of `tree_search_key` is the descent `descend` of the
    library with the flag's direction on equal keys; `searchKeyLoop_lastEqual`: it records
    the equal node exactly when the key is in the tree; `searchKeyLoop_valid`: every recorded
    position is a path of the tree;
  * `treeSearchNext_step`: one `tree_search_next` returns the next key of the walk from its
    side and leaves a position after which the rest of the walk follows; `searchNextRun_eq`
    runs it;
  * `treeSearchEdge_spec`: `tree_search_edge` stands on the first key from its side.
-/

namespace MariaDB.Mysys

open MariaDB.Lib MariaDB.Lib.BTree

/-- `enum ha_rkey_function`. -/
inductive HaRkeyFunction where
  | haReadKeyExact
  | haReadKeyOrNext
  | haReadKeyOrPrev
  | haReadAfterKey
  | haReadBeforeKey
  | haReadPrefix
  | haReadPrefixLast
  | haReadPrefixLastOrPrev
  | haReadMbrContain
  | haReadMbrIntersect
  | haReadMbrWithin
  | haReadMbrDisjoint
  | haReadMbrEqual
  deriving Repr, DecidableEq

open HaRkeyFunction

section Model

variable {α : Type} [DecidableEq α]

/-- The `switch (flag)` of `tree_search_key` on a node equal to the key: the `cmp` it goes on
    with and whether it sets `last_equal_element`; `none` for `default: return NULL`. -/
def equalStep : HaRkeyFunction → Option (Int × Bool)
  | haReadKeyExact | haReadKeyOrNext | haReadBeforeKey | haReadKeyOrPrev => some (1, true)
  | haReadAfterKey => some (-1, false)
  | haReadPrefixLast | haReadPrefixLastOrPrev => some (-1, true)
  | _ => none

/-- The `while` loop of `tree_search_key` from `element`, with `parents` the stack so far and
    `lastLeft`, `lastRight`, `lastEqual` the recorded positions; `none` when it returns `NULL`
    from inside. -/
def searchKeyLoop (compare : α → α → Int) (key : α) (flag : HaRkeyFunction) :
    BTree α → List (BTree α) → Option (List (BTree α)) → Option (List (BTree α)) →
      Option (List (BTree α)) →
        Option (Option (List (BTree α)) × Option (List (BTree α)) × Option (List (BTree α)))
  | .null, _, lastLeft, lastRight, lastEqual => some (lastLeft, lastRight, lastEqual)
  | .node l k r, parents, lastLeft, lastRight, lastEqual =>
    let parents := .node l k r :: parents
    let cmp := compare k key
    let equal : Option (Int × Option (List (BTree α))) :=
      if cmp = 0 then
        (equalStep flag).map fun (c, record) => (c, if record then some parents else lastEqual)
      else some (cmp, lastEqual)
    match equal with
    | none => none
    | some (cmp, lastEqual) =>
      if cmp < 0 then searchKeyLoop compare key flag r parents lastLeft (some parents) lastEqual
      else searchKeyLoop compare key flag l parents (some parents) lastRight lastEqual

/-- The final `switch (flag)` of `tree_search_key`: the position it stores in `*last_pos`,
    `none` for `NULL`, and `lastPos` unchanged for `default:`. -/
def lastPosOf {β : Type} (flag : HaRkeyFunction) (lastPos lastLeft lastRight lastEqual : Option β) :
    Option β :=
  match flag with
  | haReadKeyExact | haReadPrefixLast => lastEqual
  | haReadKeyOrNext => if lastEqual.isSome then lastEqual else lastLeft
  | haReadAfterKey => lastLeft
  | haReadPrefixLastOrPrev => if lastEqual.isSome then lastEqual else lastRight
  | haReadBeforeKey => lastRight
  | haReadKeyOrPrev => if lastEqual.isSome then lastEqual else lastRight
  | _ => lastPos

/-- The key on top of a position. -/
def topKey (pos : Option (List (BTree α))) : Option α :=
  (pos.bind List.head?).bind BTree.key?

/-- `tree_search_key`: the key found and the new `*last_pos`, from the caller's `lastPos`. -/
def treeSearchKey (compare : α → α → Int) (root : BTree α) (key : α)
    (lastPos : Option (List (BTree α))) (flag : HaRkeyFunction) :
    Option α × Option (List (BTree α)) :=
  match searchKeyLoop compare key flag root [.null] none none none with
  | none => (none, lastPos)
  | some (lastLeft, lastRight, lastEqual) =>
    match equalStep flag with
    | none => (none, lastPos)
    | some _ =>
      let pos := lastPosOf flag lastPos lastLeft lastRight lastEqual
      (topKey pos, pos)

/-- The loop of `tree_search_edge`: down the `childOffs` side from `element`, pushing. -/
def edgeLoop (childOffs : Side) : BTree α → List (BTree α) → List (BTree α)
  | .null, parents => parents
  | .node l k r, parents => edgeLoop childOffs ((BTree.node l k r).child childOffs)
      (.node l k r :: parents)
termination_by element => sizeOf element
decreasing_by
  cases childOffs <;> simp [child] <;> omega

/-- `tree_search_edge`: the first key from the `childOffs` side, and `*last_pos`. -/
def treeSearchEdge (root : BTree α) (childOffs : Side) : Option α × List (BTree α) :=
  let parents := edgeLoop childOffs root [.null]
  ((parents.head?).bind BTree.key?, parents)

/-- The `while (ELEMENT_CHILD(x, l_offs) != &null_element)` loop of `tree_search_next`. -/
def nextDown (lOffs : Side) (x : BTree α) (lastPos : List (BTree α)) :
    BTree α × List (BTree α) :=
  if x.child lOffs ≠ .null then nextDown lOffs (x.child lOffs) (x.child lOffs :: lastPos)
  else (x, lastPos)
termination_by sizeOf x
decreasing_by exact sizeOf_child_lt ‹_›

theorem nextDown_of_child_null {lOffs : Side} {x : BTree α} (h : x.child lOffs = .null)
    (lastPos : List (BTree α)) : nextDown lOffs x lastPos = (x, lastPos) := by
  rw [nextDown, if_neg (not_not.mpr h)]

theorem nextDown_of_child_ne {lOffs : Side} {x : BTree α} (h : x.child lOffs ≠ .null)
    (lastPos : List (BTree α)) :
    nextDown lOffs x lastPos = nextDown lOffs (x.child lOffs) (x.child lOffs :: lastPos) := by
  rw [nextDown, if_pos h]

/-- The `while (y != &null_element && x == ELEMENT_CHILD(y, r_offs))` loop of
    `tree_search_next`: `y` is popped off `lastPos`. -/
def nextUp (rOffs : Side) : BTree α → List (BTree α) → Option α × List (BTree α)
  | x, y :: lastPos =>
    if y ≠ .null ∧ x = y.child rOffs then nextUp rOffs y lastPos else (y.key?, y :: lastPos)
  | _, [] => (none, [])

/-- `tree_search_next`: the next key and the new `*last_pos`. -/
def treeSearchNext (lastPos : List (BTree α)) (lOffs rOffs : Side) :
    Option α × List (BTree α) :=
  match lastPos with
  | [] => (none, [])
  | x :: rest =>
    if x = .null then (none, x :: rest)
    else if x.child rOffs ≠ .null then
      let down := nextDown lOffs (x.child rOffs) (x.child rOffs :: x :: rest)
      (down.1.key?, down.2)
    else nextUp rOffs x rest

/-- The keys of `n` calls of `tree_search_next` in a row from `lastPos`. -/
def searchNextRun (lOffs rOffs : Side) : Nat → List (BTree α) → List (Option α)
  | 0, _ => []
  | n + 1, lastPos =>
    (treeSearchNext lastPos lOffs rOffs).1 ::
      searchNextRun lOffs rOffs n (treeSearchNext lastPos lOffs rOffs).2

end Model

section Walk

variable {α : Type} {t : BTree α}

/-- A position of a walk over `t`: the stack of a path of `t` over `null_element`, or
    `null_element` alone once the walk has run out. -/
def ValidPos (t : BTree α) (pos : List (BTree α)) : Prop :=
  ∃ s, IsStack t s ∧ pos = s ++ [.null]

theorem validPos_null : ValidPos t [.null] := ⟨[], trivial, rfl⟩

theorem validPos_of_isPath {x : BTree α} {s : List (BTree α)} (h : IsPath t x s) :
    ValidPos t (x :: s ++ [.null]) := ⟨x :: s, h, rfl⟩

variable [DecidableEq α]

/-- The descent of `tree_search_next` from a node `x` of a path stands on the first key of
    `x`'s subtree from the `lOffs` side, and the rest of the walk follows it. -/
theorem nextDown_spec {lo : Side} (hd : (inorderFrom lo t).Nodup) (x : BTree α) :
    ∀ {s : List (BTree α)}, IsPath t x s →
      ∃ m s' k, nextDown lo x (x :: s ++ [.null]) = (m, m :: s' ++ [.null]) ∧ IsPath t m s' ∧
        m.key? = some k ∧ k :: afterFrom lo (m :: s') = inorderFrom lo x ++ upFrom lo x s := by
  induction x using child_induction with
  | step x ih =>
    intro s h
    obtain ⟨l, k, r, rfl⟩ := h.exists_node
    by_cases hc : (node l k r).child lo = .null
    · refine ⟨node l k r, s, k, ?_, h, rfl, ?_⟩
      · rw [nextDown_of_child_null hc]
      · rw [afterFrom, inorderFrom_node lo, hc, inorderFrom_null, List.nil_append, List.cons_append]
    · obtain ⟨m, s', k', hrun, hp, hk, hafter⟩ := ih lo hc (h.child lo hc)
      refine ⟨m, s', k', ?_, hp, hk, ?_⟩
      · rw [nextDown_of_child_ne hc]
        exact hrun
      · -- the descent leaves `x` from its near child, so `x` and its far subtree follow
        have hne := child_ne_child_swap (h.nodup hd) hc
        rw [hafter, upFrom, if_neg hne, inorderFrom_node lo l r k]
        simp

/-- The climb of `tree_search_next` from `x` returns the next key above `x` and leaves the
    walk on it, or on `null_element` when there is none. -/
theorem nextUp_spec (lo : Side) :
    ∀ {x : BTree α} {s : List (BTree α)}, IsStack t s →
      (nextUp lo.swap x (s ++ [.null])).1 = (upFrom lo x s).head? ∧
        afterFrom lo (nextUp lo.swap x (s ++ [.null])).2 = (upFrom lo x s).tail ∧
        ValidPos t (nextUp lo.swap x (s ++ [.null])).2 := by
  intro x s hs
  induction s generalizing x with
  | nil => exact ⟨rfl, rfl, validPos_null⟩
  | cons y s ih =>
    obtain ⟨l, k, r, rfl⟩ := IsPath.exists_node hs
    by_cases hx : x = (node l k r).child lo.swap
    · have hup : nextUp lo.swap x (node l k r :: s ++ [.null]) =
          nextUp lo.swap (node l k r) (s ++ [.null]) := by
        rw [List.cons_append, nextUp, if_pos ⟨node_ne_null l r k, hx⟩]
      rw [hup, upFrom, if_pos hx]
      exact ih (IsPath.pop hs)
    · have hup : nextUp lo.swap x (node l k r :: s ++ [.null]) =
          (some k, node l k r :: s ++ [.null]) := by
        rw [List.cons_append, nextUp, if_neg fun h => hx h.2]
        rfl
      rw [hup, upFrom, if_neg hx, afterFrom_append_null]
      exact ⟨rfl, rfl, validPos_of_isPath hs⟩

/-- One `tree_search_next` with offsets `lo` and `lo.swap` returns the next key of the walk
    from the `lo` side and leaves a position after which the rest of the walk follows. -/
theorem treeSearchNext_step {lo : Side} (hd : (inorderFrom lo t).Nodup) {pos : List (BTree α)}
    (hpos : ValidPos t pos) :
    (treeSearchNext pos lo lo.swap).1 = (afterFrom lo pos).head? ∧
      afterFrom lo (treeSearchNext pos lo lo.swap).2 = (afterFrom lo pos).tail ∧
      ValidPos t (treeSearchNext pos lo lo.swap).2 := by
  obtain ⟨s, hs, rfl⟩ := hpos
  cases s with
  | nil => exact ⟨rfl, rfl, validPos_null⟩
  | cons x s =>
    obtain ⟨l, k, r, rfl⟩ := IsPath.exists_node hs
    rw [afterFrom_append_null, afterFrom]
    by_cases hc : (node l k r).child lo.swap = .null
    · -- no far subtree: climb
      have hnext : treeSearchNext (node l k r :: s ++ [.null]) lo lo.swap =
          nextUp lo.swap (node l k r) (s ++ [.null]) := by
        rw [List.cons_append, treeSearchNext, if_neg (node_ne_null l r k), if_neg (not_not.mpr hc)]
      rw [hnext, hc, inorderFrom_null, List.nil_append]
      exact nextUp_spec lo (IsPath.pop hs)
    · -- descend into the far subtree
      obtain ⟨m, s', k', hrun, hp, hk, hafter⟩ := nextDown_spec hd _ (hs.child lo.swap hc)
      have hnext : treeSearchNext (node l k r :: s ++ [.null]) lo lo.swap = (some k', m :: s' ++ [.null]) := by
        rw [List.cons_append, treeSearchNext, if_neg (node_ne_null l r k), if_pos hc]
        simp only [← List.cons_append, hrun, hk]
      rw [upFrom, if_pos rfl] at hafter
      rw [hnext, ← hafter, afterFrom_append_null]
      exact ⟨rfl, rfl, validPos_of_isPath hp⟩

theorem map_range_succ_getElem? {β : Type} (L : List β) (n : Nat) :
    ((List.range (n + 1)).map fun i => L[i]?) =
      L.head? :: (List.range n).map fun i => L.tail[i]? := by
  rw [List.range_succ_eq_map, List.map_cons, List.map_map, List.head?_eq_getElem?]
  simp [Function.comp_def]

/-- `n` calls of `tree_search_next` in a row return the keys after the position, then `NULL`. -/
theorem searchNextRun_eq {lo : Side} (hd : (inorderFrom lo t).Nodup) (n : Nat) :
    ∀ {pos : List (BTree α)}, ValidPos t pos →
      searchNextRun lo lo.swap n pos = (List.range n).map fun i => (afterFrom lo pos)[i]? := by
  induction n with
  | zero => intro pos _; rfl
  | succ n ih =>
    intro pos hpos
    obtain ⟨hkey, hafter, hvalid⟩ := treeSearchNext_step hd hpos
    rw [searchNextRun, ih hvalid, hkey, hafter, map_range_succ_getElem?]

theorem edgeLoop_eq_nextDown (lo : Side) (x : BTree α) :
    x ≠ .null → ∀ parents, edgeLoop lo x parents = (nextDown lo x (x :: parents)).2 := by
  induction x using child_induction with
  | step x ih =>
    intro hx parents
    obtain ⟨l, k, r, rfl⟩ : ∃ l k r, x = node l k r := (IsPath.root hx).exists_node
    rw [edgeLoop]
    by_cases hc : (node l k r).child lo = .null
    · rw [hc, edgeLoop, nextDown_of_child_null hc]
    · rw [ih lo hc hc, nextDown_of_child_ne hc]

/-- `tree_search_edge` stands on the first key from its side. -/
theorem treeSearchEdge_spec {lo : Side} (hd : (inorderFrom lo t).Nodup) :
    (treeSearchEdge t lo).1 = (inorderFrom lo t).head? ∧
      afterFrom lo (treeSearchEdge t lo).2 = (inorderFrom lo t).tail ∧
      ValidPos t (treeSearchEdge t lo).2 := by
  by_cases ht : t = .null
  · subst ht
    rw [treeSearchEdge, edgeLoop]
    exact ⟨rfl, rfl, validPos_null⟩
  · obtain ⟨m, s', k, hrun, hp, hk, hafter⟩ := nextDown_spec hd t (IsPath.root ht)
    have hedge : edgeLoop lo t [.null] = m :: s' ++ [.null] := by
      rw [edgeLoop_eq_nextDown lo t ht]
      exact congrArg Prod.snd hrun
    rw [upFrom_nil, List.append_nil] at hafter
    rw [treeSearchEdge, hedge, ← hafter, afterFrom_append_null]
    exact ⟨by simp [hk], rfl, validPos_of_isPath hp⟩

/-- From `tree_search_edge`, `tree_search_next` with the same side returns every key once, in
    the order from that side, then `NULL`. -/
theorem treeSearchEdge_run {lo : Side} (hd : (inorderFrom lo t).Nodup) (n : Nat) :
    (treeSearchEdge t lo).1 :: searchNextRun lo lo.swap n (treeSearchEdge t lo).2 =
      (List.range (n + 1)).map fun i => (inorderFrom lo t)[i]? := by
  obtain ⟨hkey, hafter, hvalid⟩ := treeSearchEdge_spec hd
  rw [searchNextRun_eq hd n hvalid, hkey, hafter, map_range_succ_getElem?]

/-- On a position whose top key is `x`, the walk from the `lo` side still has to visit the keys
    after `x` from that side. -/
theorem validPos_after {lo : Side} (hd : (inorderFrom lo t).Nodup) {pos : List (BTree α)}
    (hpos : ValidPos t pos) {x : α} (hx : topKey (some pos) = some x) :
    ∃ pre, inorderFrom lo t = pre ++ x :: afterFrom lo pos := by
  obtain ⟨s, hs, rfl⟩ := hpos
  cases s with
  | nil => simp [topKey, key?] at hx
  | cons y s =>
    obtain ⟨l, k, r, rfl⟩ := IsPath.exists_node hs
    simp only [topKey, List.cons_append, Option.bind_some, List.head?_cons, key?_node,
      Option.some_inj] at hx
    subst hx
    rw [afterFrom_append_null]
    exact isPath_after hd hs

end Walk

section Loop

variable {α : Type} {compare : α → α → Int} {key : α} {flag : HaRkeyFunction}
  {c : Int} {record : Bool}

@[simp] theorem topKey_none : topKey (none : Option (List (BTree α))) = none := rfl

/-- Whether the loop of `tree_search_key` goes right from a node with key `a`, where the flag
    turns an equal comparison into `c`. -/
def goesRight (compare : α → α → Int) (key : α) (c : Int) (a : α) : Bool :=
  decide ((if compare a key = 0 then c else compare a key) < 0)

/-- One iteration of the loop of `tree_search_key` for a flag it handles. -/
theorem searchKeyLoop_node (hflag : equalStep flag = some (c, record)) (l r : BTree α) (k : α)
    (parents : List (BTree α)) (lastLeft lastRight lastEqual : Option (List (BTree α))) :
    searchKeyLoop compare key flag (.node l k r) parents lastLeft lastRight lastEqual =
      let parents' := BTree.node l k r :: parents
      let lastEqual' := if compare k key = 0 ∧ record then some parents' else lastEqual
      if goesRight compare key c k then
        searchKeyLoop compare key flag r parents' lastLeft (some parents') lastEqual'
      else searchKeyLoop compare key flag l parents' (some parents') lastRight lastEqual' := by
  by_cases h0 : compare k key = 0
  · cases record <;> simp [searchKeyLoop, goesRight, h0, hflag]
  · simp [searchKeyLoop, goesRight, h0]

/-- The loop of `tree_search_key` is the descent that goes right where `goesRight` holds: the
    keys on top of its last right and left steps are those `descend` passes last. -/
theorem searchKeyLoop_descend (compare : α → α → Int) (key : α)
    (hflag : equalStep flag = some (c, record)) (e : BTree α) :
    ∀ parents lastLeft lastRight lastEqual, ∃ res,
      searchKeyLoop compare key flag e parents lastLeft lastRight lastEqual = some res ∧
        (topKey res.2.1, topKey res.1) =
          descend (goesRight compare key c) e (topKey lastRight) (topKey lastLeft) := by
  induction e with
  | null => exact fun _ _ _ _ => ⟨_, rfl, rfl⟩
  | node l k r ihl ihr =>
    intro parents lastLeft lastRight lastEqual
    rw [searchKeyLoop_node hflag, descend]
    cases goesRight compare key c k
    · exact ihl _ _ _ _
    · exact ihr _ _ _ _

/-- The final switch keeps to keys: the key on top of the position it picks is the one it picks
    among the keys on top. -/
theorem topKey_lastPosOf (flag : HaRkeyFunction)
    (lastPos lastLeft lastRight lastEqual : Option (List (BTree α)))
    (h : lastEqual.isSome = (topKey lastEqual).isSome) :
    topKey (lastPosOf flag lastPos lastLeft lastRight lastEqual) =
      lastPosOf flag (topKey lastPos) (topKey lastLeft) (topKey lastRight) (topKey lastEqual) := by
  cases flag <;> simp only [lastPosOf, h] <;> split <;> rfl

/-- A recorded position is a position of a walk over `t`, or there is none. -/
def OptValidPos (t : BTree α) (pos : Option (List (BTree α))) : Prop := ∀ p ∈ pos, ValidPos t p

/-- Every position the loop of `tree_search_key` records is a position of a walk over `t`. -/
theorem searchKeyLoop_valid (hflag : equalStep flag = some (c, record)) {t e : BTree α}
    {parents : List (BTree α)} {lastLeft lastRight lastEqual : Option (List (BTree α))}
    {res : Option (List (BTree α)) × Option (List (BTree α)) × Option (List (BTree α))}
    (he : e = .null ∨ ∃ s, parents = s ++ [.null] ∧ IsPath t e s)
    (hl : OptValidPos t lastLeft) (hr : OptValidPos t lastRight) (hq : OptValidPos t lastEqual)
    (h : searchKeyLoop compare key flag e parents lastLeft lastRight lastEqual = some res) :
    OptValidPos t res.1 ∧ OptValidPos t res.2.1 ∧ OptValidPos t res.2.2 := by
  induction e generalizing parents lastLeft lastRight lastEqual with
  | null =>
    rw [searchKeyLoop, Option.some_inj] at h
    subst h
    exact ⟨hl, hr, hq⟩
  | node l k r ihl ihr =>
    obtain ⟨s, rfl, hp⟩ := he.resolve_left (node_ne_null l r k)
    have hsnap : OptValidPos t (some (node l k r :: s ++ [.null])) := by
      rintro p ⟨⟩
      exact validPos_of_isPath hp
    -- each child is empty or the next node of the path
    have hchild : ∀ side, (node l k r).child side = .null ∨
        ∃ s', node l k r :: s ++ [.null] = s' ++ [.null] ∧ IsPath t ((node l k r).child side) s' := by
      intro side
      by_cases hc : (node l k r).child side = .null
      · exact .inl hc
      · exact .inr ⟨node l k r :: s, rfl, hp.child side hc⟩
    have hq' : OptValidPos t
        (if compare k key = 0 ∧ record then some (node l k r :: s ++ [.null]) else lastEqual) := by
      split
      · exact hsnap
      · exact hq
    rw [searchKeyLoop_node hflag] at h
    dsimp only at h
    split at h
    · exact ihr (hchild .right) hl hsnap hq' h
    · exact ihl (hchild .left) hsnap hr hq' h

theorem lastPosOf_valid {t : BTree α} (hflag : equalStep flag ≠ none)
    (lastPos : Option (List (BTree α))) {lastLeft lastRight lastEqual : Option (List (BTree α))}
    (hl : OptValidPos t lastLeft) (hr : OptValidPos t lastRight) (hq : OptValidPos t lastEqual) :
    OptValidPos t (lastPosOf flag lastPos lastLeft lastRight lastEqual) := by
  cases flag <;> simp only [lastPosOf] <;> first | exact absurd rfl hflag | skip
  all_goals first | assumption | split <;> assumption

/-- For a flag it handles, `tree_search_key` returns the key on top of the position it stores. -/
theorem treeSearchKey_fst (compare : α → α → Int) (key : α)
    (hflag : equalStep flag = some (c, record)) (t : BTree α)
    (lastPos : Option (List (BTree α))) :
    (treeSearchKey compare t key lastPos flag).1 = topKey (treeSearchKey compare t key lastPos flag).2 := by
  obtain ⟨res, hres, -⟩ := searchKeyLoop_descend compare key hflag t
    [.null] none none none
  rw [treeSearchKey, hres, hflag]

theorem optValidPos_none {t : BTree α} : OptValidPos t none :=
  fun p h => absurd h (Option.not_mem_none p)

/-- The position `tree_search_key` stores for a flag it handles is a position of a walk
    over `t`. -/
theorem treeSearchKey_valid (compare : α → α → Int) (key : α)
    (hflag : equalStep flag = some (c, record)) (t : BTree α)
    (lastPos : Option (List (BTree α))) :
    OptValidPos t (treeSearchKey compare t key lastPos flag).2 := by
  obtain ⟨res, hres, -⟩ := searchKeyLoop_descend compare key hflag t
    [.null] none none none
  have hroot : t = .null ∨ ∃ s, [BTree.null] = s ++ [.null] ∧ IsPath t t s := by
    by_cases ht : t = .null
    · exact .inl ht
    · exact .inr ⟨[], rfl, .root ht⟩
  obtain ⟨hl, hr, hq⟩ :=
    searchKeyLoop_valid hflag hroot optValidPos_none optValidPos_none optValidPos_none hres
  rw [treeSearchKey, hres, hflag]
  exact lastPosOf_valid (by simp [hflag]) lastPos hl hr hq

theorem treeSearchKey_of_equalStep_none (compare : α → α → Int) (key : α)
    (hflag : equalStep flag = none) (t : BTree α)
    (lastPos : Option (List (BTree α))) : (treeSearchKey compare t key lastPos flag).1 = none := by
  rw [treeSearchKey]
  split
  · rfl
  · rw [hflag]

/-- A key found by `tree_search_key` sits on top of a position of a walk over the tree. -/
theorem treeSearchKey_pos {t : BTree α} {lastPos : Option (List (BTree α))} {x : α}
    {pos : List (BTree α)} (h : treeSearchKey compare t key lastPos flag = (some x, some pos)) :
    ValidPos t pos ∧ topKey (some pos) = some x := by
  cases hflag : equalStep flag with
  | none =>
    have hnone := treeSearchKey_of_equalStep_none compare key hflag t lastPos
    rw [h] at hnone
    cases hnone
  | some cr =>
    have hvalid := treeSearchKey_valid compare key hflag t lastPos
    have hfst := treeSearchKey_fst compare key hflag t lastPos
    rw [h] at hvalid hfst
    exact ⟨hvalid pos rfl, hfst.symm⟩

end Loop

section Search

variable {α : Type} [LinearOrder α] {compare : α → α → Int} {key : α} {flag : HaRkeyFunction}
  {c : Int} {record : Bool}

/-- `compare` orders keys as `<` does: negative below, zero on equal keys. -/
def CompareSpec (compare : α → α → Int) : Prop :=
  ∀ a b, (compare a b < 0 ↔ a < b) ∧ (compare a b = 0 ↔ a = b)

theorem goesRight_iff (hcmp : CompareSpec compare) (a : α) :
    goesRight compare key c a = true ↔ a < key ∨ (a = key ∧ c < 0) := by
  by_cases h0 : compare a key = 0
  · have hak : a = key := ((hcmp a key).2).mp h0
    subst hak
    simp [goesRight, h0]
  · have hak : a ≠ key := fun h => h0 (((hcmp a key).2).mpr h)
    simp [goesRight, h0, hak, (hcmp a key).1]

/-- The loop of `tree_search_key` records the node equal to the key when the flag asks for it
    and the key is in the tree, and leaves `lastEqual` alone otherwise. -/
theorem searchKeyLoop_lastEqual (hcmp : CompareSpec compare)
    (hflag : equalStep flag = some (c, record)) {e : BTree α} (he : IsSearchTree e)
    {parents : List (BTree α)} {lastLeft lastRight lastEqual : Option (List (BTree α))}
    {res : Option (List (BTree α)) × Option (List (BTree α)) × Option (List (BTree α))}
    (h : searchKeyLoop compare key flag e parents lastLeft lastRight lastEqual = some res) :
    if record ∧ key ∈ inorderFrom .left e then topKey res.2.2 = some key
    else res.2.2 = lastEqual := by
  induction e generalizing parents lastLeft lastRight lastEqual with
  | null =>
    rw [searchKeyLoop, Option.some_inj] at h
    subst h
    simp
  | node l k r ihl ihr =>
    rw [searchKeyLoop_node hflag] at h
    dsimp only at h
    by_cases h0 : compare k key = 0
    · -- the equal node: the key is in neither subtree, and it is recorded if the flag asks
      have hk : k = key := ((hcmp k key).2).mp h0
      subst hk
      have hres : res.2.2 = if record then some (node l k r :: parents) else lastEqual := by
        split at h
        · have ih := ihr he.right h
          rw [if_neg fun h' => he.not_mem_right le_rfl h'.2] at ih
          simpa [h0] using ih
        · have ih := ihl he.left h
          rw [if_neg fun h' => he.not_mem_left le_rfl h'.2] at ih
          simpa [h0] using ih
      have hmem : k ∈ inorderFrom .left (node l k r) := by simp [inorderFrom]
      cases record
      · simpa using hres
      · simp [hres, hmem, topKey]
    · have hne : k ≠ key := fun h => h0 (((hcmp k key).2).mpr h)
      simp only [h0, false_and, if_false] at h
      split at h
      · -- `k < key`: the key can only be on the right
        have hlt : k < key := by
          rename_i hg
          simpa [hne] using (goesRight_iff hcmp k).mp hg
        have hmem : key ∈ inorderFrom .left (node l k r) ↔ key ∈ inorderFrom .left r := by
          simp [inorderFrom, he.not_mem_left hlt.le, Ne.symm hne]
        simp only [hmem]
        exact ihr he.right h
      · have hlt : key < k := by
          rename_i hg
          exact lt_of_le_of_ne (not_lt.mp fun h => hg ((goesRight_iff hcmp k).mpr (.inl h)))
            (Ne.symm hne)
        have hmem : key ∈ inorderFrom .left (node l k r) ↔ key ∈ inorderFrom .left l := by
          simp [inorderFrom, he.not_mem_right hlt.le, Ne.symm hne]
        simp only [hmem]
        exact ihl he.left h

/-- The loop goes right below the key and left above it, so its direction is downward closed. -/
theorem goesRight_of_lt (hcmp : CompareSpec compare) {a b : α} (hab : a < b)
    (hb : goesRight compare key c b = true) : goesRight compare key c a = true := by
  refine (goesRight_iff hcmp a).mpr (.inl ?_)
  rcases (goesRight_iff hcmp b).mp hb with hb | ⟨rfl, -⟩
  · exact hab.trans hb
  · exact hab

/-- The keys `tree_search_key` picks among for a flag it handles: the least key it does not go
    right from, the greatest it goes right from, and the key itself when the flag records it. -/
theorem treeSearchKey_found (hcmp : CompareSpec compare) (hflag : equalStep flag = some (c, record))
    {t : BTree α} (ht : IsSearchTree t) (lastPos : Option (List (BTree α))) :
    (treeSearchKey compare t key lastPos flag).1 =
      lastPosOf flag (topKey lastPos)
        ((inorderFrom .left t).find? fun a => !goesRight compare key c a)
        ((inorderFrom .right t).find? (goesRight compare key c))
        (if record ∧ key ∈ inorderFrom .left t then some key else none) := by
  obtain ⟨res, hres, hkeys⟩ := searchKeyLoop_descend compare key hflag t
    [.null] none none none
  rw [descend_spec (fun _ _ => goesRight_of_lt hcmp) ht] at hkeys
  simp only [topKey_none, Option.or_none, Prod.mk.injEq] at hkeys
  have hequal := searchKeyLoop_lastEqual hcmp hflag ht hres
  -- the equal position is recorded exactly when its key is
  have hsome : res.2.2.isSome = (topKey res.2.2).isSome := by
    split at hequal
    · cases h : res.2.2 with
      | none => simp [h] at hequal
      | some p => simp [h] at hequal ⊢; simp [hequal]
    · simp [hequal]
  have htop : topKey res.2.2 = if record ∧ key ∈ inorderFrom .left t then some key else none := by
    split at hequal
    · rw [if_pos ‹_›, hequal]
    · rw [if_neg ‹_›, hequal]
      rfl
  rw [treeSearchKey, hres, hflag]
  dsimp only
  rw [topKey_lastPosOf _ _ _ _ _ hsome, htop, hkeys.1, hkeys.2]

/-- What `tree_search_key` is to find among `keys`, for each flag: the key itself, the least
    key at or above it, the least above it, the greatest below it, or the greatest at or below
    it; nothing for the flags it does not handle. -/
def Answers (flag : HaRkeyFunction) (key : α) (keys : List α) (found : Option α) : Prop :=
  match flag with
  | haReadKeyExact | haReadPrefixLast => ∀ x, found = some x ↔ x ∈ keys ∧ x = key
  | haReadKeyOrNext => ∀ x, found = some x ↔ IsLeast {a | a ∈ keys ∧ key ≤ a} x
  | haReadAfterKey => ∀ x, found = some x ↔ IsLeast {a | a ∈ keys ∧ key < a} x
  | haReadBeforeKey => ∀ x, found = some x ↔ IsGreatest {a | a ∈ keys ∧ a < key} x
  | haReadKeyOrPrev | haReadPrefixLastOrPrev =>
    ∀ x, found = some x ↔ IsGreatest {a | a ∈ keys ∧ a ≤ key} x
  | _ => found = none

section Picked

variable (hcmp : CompareSpec compare) {t : BTree α} (ht : IsSearchTree t)
include hcmp ht

/-- With equality sent left, the least key not passed on the right is the least at or above
    the key. -/
theorem least_ge_of_nonneg (hc : 0 ≤ c) (x : α) :
    (inorderFrom .left t).find? (fun a => !goesRight compare key c a) = some x ↔
      IsLeast {a | a ∈ inorderFrom .left t ∧ key ≤ a} x :=
  find?_eq_some_iff_isLeast ht (fun a _ => by
    rw [Bool.not_eq_true', ← Bool.not_eq_true, goesRight_iff hcmp]
    simp [not_lt, show ¬c < 0 by omega]) x

/-- With equality sent right, the least key not passed on the right is the least above it. -/
theorem least_gt_of_neg (hc : c < 0) (x : α) :
    (inorderFrom .left t).find? (fun a => !goesRight compare key c a) = some x ↔
      IsLeast {a | a ∈ inorderFrom .left t ∧ key < a} x :=
  find?_eq_some_iff_isLeast ht (fun a _ => by
    rw [Bool.not_eq_true', ← Bool.not_eq_true, goesRight_iff hcmp]
    simp [hc, ← le_iff_lt_or_eq]) x

/-- With equality sent left, the last key passed on the right is the greatest below the key. -/
theorem greatest_lt_of_nonneg (hc : 0 ≤ c) (x : α) :
    (inorderFrom .right t).find? (goesRight compare key c) = some x ↔
      IsGreatest {a | a ∈ inorderFrom .left t ∧ a < key} x := by
  have h := find?_eq_some_iff_isGreatest (q := goesRight compare key c) (P := fun a => a < key)
    ht.pairwise_right (fun a _ => by rw [goesRight_iff hcmp]; simp [show ¬c < 0 by omega]) x
  simpa only [mem_inorderFrom_right] using h

/-- With equality sent right, the last key passed on the right is the greatest at or below
    the key. -/
theorem greatest_le_of_neg (hc : c < 0) (x : α) :
    (inorderFrom .right t).find? (goesRight compare key c) = some x ↔
      IsGreatest {a | a ∈ inorderFrom .left t ∧ a ≤ key} x := by
  have h := find?_eq_some_iff_isGreatest (q := goesRight compare key c) (P := fun a => a ≤ key)
    ht.pairwise_right (fun a _ => by rw [goesRight_iff hcmp]; simp [hc, le_iff_lt_or_eq]) x
  simpa only [mem_inorderFrom_right] using h

end Picked

/-- The key on its own: found exactly when it is in the tree. -/
theorem self_found_iff (key : α) (keys : List α) (x : α) :
    (if key ∈ keys then some key else none) = some x ↔ x ∈ keys ∧ x = key := by
  by_cases hk : key ∈ keys
  · rw [if_pos hk, Option.some_inj]
    constructor
    · rintro rfl
      exact ⟨hk, rfl⟩
    · rintro ⟨-, rfl⟩
      rfl
  · rw [if_neg hk]
    simp only [reduceCtorEq, false_iff, not_and]
    rintro hx rfl
    exact hk hx

/-- A key in the tree is the least key at or above itself. -/
theorem least_self_iff {keys : List α} (hk : key ∈ keys) (x : α) :
    some key = some x ↔ IsLeast {a | a ∈ keys ∧ key ≤ a} x := by
  have hleast : IsLeast {a | a ∈ keys ∧ key ≤ a} key := ⟨⟨hk, le_rfl⟩, fun _ hb => hb.2⟩
  rw [Option.some_inj]
  exact ⟨by rintro rfl; exact hleast, hleast.unique⟩

/-- A key in the tree is the greatest key at or below itself. -/
theorem greatest_self_iff {keys : List α} (hk : key ∈ keys) (x : α) :
    some key = some x ↔ IsGreatest {a | a ∈ keys ∧ a ≤ key} x := by
  have hgreatest : IsGreatest {a | a ∈ keys ∧ a ≤ key} key := ⟨⟨hk, le_rfl⟩, fun _ hb => hb.2⟩
  rw [Option.some_inj]
  exact ⟨by rintro rfl; exact hgreatest, hgreatest.unique⟩

/-- `tree_search_key` finds what each flag asks for. -/
theorem treeSearchKey_answers (hcmp : CompareSpec compare) {t : BTree α} (ht : IsSearchTree t)
    (key : α) (flag : HaRkeyFunction) (lastPos : Option (List (BTree α))) :
    Answers flag key (inorderFrom .left t) (treeSearchKey compare t key lastPos flag).1 := by
  cases flag
  case haReadKeyExact | haReadPrefixLast =>
    intro x
    rw [treeSearchKey_found hcmp rfl ht]
    simpa [lastPosOf] using self_found_iff key (inorderFrom .left t) x
  case haReadKeyOrNext =>
    intro x
    rw [treeSearchKey_found hcmp rfl ht]
    by_cases hk : key ∈ inorderFrom .left t
    · simpa [lastPosOf, hk] using least_self_iff hk x
    · simpa [lastPosOf, hk] using least_ge_of_nonneg hcmp ht (by decide) x
  case haReadAfterKey =>
    rw [treeSearchKey_found hcmp rfl ht]
    exact least_gt_of_neg hcmp ht (by decide)
  case haReadBeforeKey =>
    rw [treeSearchKey_found hcmp rfl ht]
    exact greatest_lt_of_nonneg hcmp ht (by decide)
  case haReadKeyOrPrev =>
    intro x
    rw [treeSearchKey_found hcmp rfl ht]
    by_cases hk : key ∈ inorderFrom .left t
    · simpa [lastPosOf, hk] using greatest_self_iff hk x
    · -- without the key, at or below it is below it
      have hset : {a | a ∈ inorderFrom .left t ∧ a ≤ key} = {a | a ∈ inorderFrom .left t ∧ a < key} :=
        Set.ext fun a => and_congr_right fun ha =>
          ⟨fun h => lt_of_le_of_ne h fun h' => hk (h' ▸ ha), le_of_lt⟩
      simpa [lastPosOf, hk, hset] using greatest_lt_of_nonneg hcmp ht (by decide) x
  case haReadPrefixLastOrPrev =>
    intro x
    rw [treeSearchKey_found hcmp rfl ht]
    by_cases hk : key ∈ inorderFrom .left t
    · simpa [lastPosOf, hk] using greatest_self_iff hk x
    · simpa [lastPosOf, hk] using greatest_le_of_neg hcmp ht (by decide) x
  all_goals exact treeSearchKey_of_equalStep_none compare key rfl t lastPos

theorem tree_search_key_neighbours (compare : α → α → Int) (hcmp : CompareSpec compare)
    (t : BTree α) (ht : IsSearchTree t) (key : α) (flag : HaRkeyFunction)
    (lastPos : Option (List (BTree α))) :
    Answers flag key (inorderFrom .left t) (treeSearchKey compare t key lastPos flag).1 ∧
      (∀ x pos, treeSearchKey compare t key lastPos flag = (some x, some pos) → ∀ n,
        searchNextRun .left .right n pos =
            (List.range n).map (fun i => ((inorderFrom .left t).filter (x < ·))[i]?) ∧
          searchNextRun .right .left n pos =
            (List.range n).map (fun i => ((inorderFrom .left t).reverse.filter (· < x))[i]?)) ∧
      ∀ n,
        (treeSearchEdge t .left).1 :: searchNextRun .left .right n (treeSearchEdge t .left).2 =
            (List.range (n + 1)).map (fun i => (inorderFrom .left t)[i]?) ∧
          (treeSearchEdge t .right).1 :: searchNextRun .right .left n (treeSearchEdge t .right).2 =
            (List.range (n + 1)).map (fun i => (inorderFrom .left t).reverse[i]?) := by
  refine ⟨treeSearchKey_answers hcmp ht key flag lastPos, fun x pos h n => ?_, fun n => ?_⟩
  · obtain ⟨hvalid, hx⟩ := treeSearchKey_pos h
    -- from the found key the walk from either side visits the keys beyond it on that side
    have hleft : afterFrom .left pos = (inorderFrom .left t).filter (x < ·) := by
      obtain ⟨pre, hpre⟩ := validPos_after (ht.nodup .left) hvalid hx
      have hsorted : (pre ++ x :: afterFrom .left pos).Pairwise (· < ·) := hpre ▸ ht
      rw [hpre]
      exact after_eq_filter hsorted
    have hright : afterFrom .right pos = (inorderFrom .left t).reverse.filter (· < x) := by
      obtain ⟨pre, hpre⟩ := validPos_after (ht.nodup .right) hvalid hx
      have hsorted : (pre ++ x :: afterFrom .right pos).Pairwise (· > ·) :=
        hpre ▸ ht.pairwise_right
      rw [← inorderFrom_right, hpre]
      exact after_eq_filter hsorted
    constructor
    · show searchNextRun .left Side.left.swap n pos = _
      rw [searchNextRun_eq (ht.nodup .left) n hvalid, hleft]
    · show searchNextRun .right Side.right.swap n pos = _
      rw [searchNextRun_eq (ht.nodup .right) n hvalid, hright]
  · constructor
    · exact treeSearchEdge_run (ht.nodup .left) n
    · show _ :: searchNextRun .right Side.right.swap n _ = _
      rw [treeSearchEdge_run (ht.nodup .right) n, inorderFrom_right]

theorem tree_search_key_neighbours_int :
    CompareSpec (fun a b : Int => a - b) ∧
      IsSearchTree (BTree.node (.node .null 1 .null) (2 : Int) (.node .null 3 .null)) ∧
      Answers haReadKeyOrNext 2 [1, 2, 3]
        (treeSearchKey (fun a b : Int => a - b)
          (BTree.node (.node .null 1 .null) (2 : Int) (.node .null 3 .null)) 2 none
          haReadKeyOrNext).1 := by
  have hcmp : CompareSpec (fun a b : Int => a - b) :=
    fun a b => by
      dsimp only
      exact ⟨⟨fun h => by omega, fun h => by omega⟩, ⟨fun h => by omega, fun h => by omega⟩⟩
  have ht : IsSearchTree (BTree.node (.node .null 1 .null) (2 : Int) (.node .null 3 .null)) := by
    unfold IsSearchTree
    decide
  exact ⟨hcmp, ht, (tree_search_key_neighbours _ hcmp _ ht 2 haReadKeyOrNext none).1⟩

end Search

end MariaDB.Mysys
