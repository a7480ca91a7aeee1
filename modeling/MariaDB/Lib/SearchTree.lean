import Mathlib

/-
  Binary search trees walked through a stack of the nodes above the current one.

  `BTree` is a binary tree; `inorderFrom side t` lists its keys from the `side` end (in order
  from `.left`, in reverse from `.right`). A path `IsPath t s` is a stack, top first, of the
  nodes from the root of `t` down to a node, each a child of the one below it. A walk that
  sits at the top of such a stack still has to visit `afterFrom side s`: the subtree on the
  far side of the top, then, for every ancestor reached from its near child, the ancestor's
  key and its far subtree (`upFrom`). `upFrom` tests "reached from the far child" by
  comparing the child with the far subtree, as a walk that holds only the nodes can.

  Results:
  * `inorderFrom_node`, `inorderFrom_right`: the two traversals;
  * `isPath_decomp`: the keys of `t` are those before the top's subtree, the subtree, and
    `upFrom` of the stack, provided the keys of `t` are distinct; `isPath_after`: the keys
    after the top's key are `afterFrom` of the stack;
  * `descend_spec`: descending from the root to the right where a downward-closed predicate
    holds and to the left where not, the last key passed on the right is the greatest key that
    satisfies it and the last passed on the left the least that does not;
  * `after_eq_filter`: in a strictly sorted list the keys after `a` are those above `a`.
  Nothing here names one program.
-/

namespace MariaDB.Lib

/-- A binary tree: empty, or a node with a left subtree, a key and a right subtree. -/
inductive BTree (α : Type) where
  | null
  | node (left : BTree α) (key : α) (right : BTree α)
  deriving Repr, DecidableEq

/-- The two children of a node. -/
inductive Side where
  | left
  | right
  deriving Repr, DecidableEq

/-- The other side. -/
def Side.swap : Side → Side
  | .left => .right
  | .right => .left

@[simp] theorem Side.swap_swap (side : Side) : side.swap.swap = side := by
  cases side <;> rfl

theorem Side.swap_ne (side : Side) : side.swap ≠ side := by
  cases side <;> decide

namespace BTree

variable {α : Type}

/-- The child on `side`; the empty tree has empty children. -/
def child : BTree α → Side → BTree α
  | node l _ _, .left => l
  | node _ _ r, .right => r
  | null, _ => null

/-- The key of a node. -/
def key? : BTree α → Option α
  | null => none
  | node _ k _ => some k

/-- The keys from the `side` end. -/
def inorderFrom : Side → BTree α → List α
  | _, null => []
  | .left, node l k r => inorderFrom .left l ++ k :: inorderFrom .left r
  | .right, node l k r => inorderFrom .right r ++ k :: inorderFrom .right l

@[simp] theorem child_null (side : Side) : (null : BTree α).child side = null := by
  cases side <;> rfl

@[simp] theorem inorderFrom_null (side : Side) : inorderFrom side (null : BTree α) = [] := by
  cases side <;> rfl

@[simp] theorem key?_node (l r : BTree α) (k : α) : (node l k r).key? = some k := rfl

@[simp] theorem node_ne_null (l r : BTree α) (k : α) : node l k r ≠ null := by
  intro h
  cases h

theorem inorderFrom_node (side : Side) (l r : BTree α) (k : α) :
    inorderFrom side (node l k r) =
      inorderFrom side ((node l k r).child side) ++ k ::
        inorderFrom side ((node l k r).child side.swap) := by
  cases side <;> rfl

theorem inorderFrom_right (t : BTree α) : inorderFrom .right t = (inorderFrom .left t).reverse := by
  induction t with
  | null => rfl
  | node l k r ihl ihr => simp [inorderFrom, ihl, ihr]

theorem sizeOf_child_lt {t : BTree α} {side : Side} (h : t.child side ≠ null) :
    sizeOf (t.child side) < sizeOf t := by
  cases t with
  | null => exact absurd (child_null side) h
  | node l k r => cases side <;> simp [child]; omega

/-- Induction along children: a property holds of every tree if it holds of a tree whenever it
    holds of the tree's nonempty children. -/
@[elab_as_elim]
theorem child_induction {motive : BTree α → Prop}
    (step : ∀ x, (∀ side, x.child side ≠ null → motive (x.child side)) → motive x) :
    ∀ x, motive x
  | null => step null fun side h => absurd (child_null side) h
  | node l k r => step (node l k r) fun side _ => by
      cases side
      · exact child_induction step l
      · exact child_induction step r

/-! ## Paths -/

/-- `IsPath t x s`: the node `x` is reached from the root of `t` through the nodes `s`, its
    parent first; `x :: s` is the stack of a walk standing at `x`. -/
inductive IsPath (t : BTree α) : BTree α → List (BTree α) → Prop
  | root : t ≠ null → IsPath t t []
  | child {x : BTree α} {s : List (BTree α)} (side : Side) :
      IsPath t x s → x.child side ≠ null → IsPath t (x.child side) (x :: s)

theorem IsPath.ne_null {t x : BTree α} {s : List (BTree α)} (h : IsPath t x s) : x ≠ null := by
  cases h with
  | root ht => exact ht
  | child _ _ hc => exact hc

theorem IsPath.exists_node {t x : BTree α} {s : List (BTree α)} (h : IsPath t x s) :
    ∃ l k r, x = node l k r := by
  cases hx : x with
  | null => exact absurd hx h.ne_null
  | node l k r => exact ⟨l, k, r, rfl⟩

/-- `s`, top first, is empty or the stack of a path of `t`. -/
def IsStack (t : BTree α) : List (BTree α) → Prop
  | [] => True
  | x :: s => IsPath t x s

/-- Popping the top of a path leaves a stack. -/
theorem IsPath.pop {t x : BTree α} {s : List (BTree α)} (h : IsPath t x s) : IsStack t s := by
  cases h with
  | root _ => trivial
  | child _ hp _ => exact hp

/-- Two children of one node are equal only when empty, if the keys below it are distinct. -/
theorem child_ne_child_swap {x : BTree α} {side : Side} (hd : (inorderFrom side x).Nodup)
    (hc : x.child side ≠ null) : x.child side ≠ x.child side.swap := by
  cases x with
  | null => exact absurd (child_null side) hc
  | node l k r =>
    intro heq
    rw [inorderFrom_node, ← heq] at hd
    cases hcs : (node l k r).child side with
    | null => exact hc hcs
    | node l' k' r' =>
      rw [hcs] at hd
      have hmem : k' ∈ inorderFrom side (node l' k' r') := by
        rw [inorderFrom_node]
        simp
      exact (List.nodup_append.mp hd).2.2 _ hmem _ (List.mem_cons_of_mem _ hmem) rfl

section Walk

variable [DecidableEq α]

/-- The keys a walk from the `side` end still has to visit above `x`, given the stack `s` of
    the nodes above it: at each node not reached from its far child, its key and its far
    subtree; the walk stops at the first empty entry. -/
def upFrom (side : Side) : BTree α → List (BTree α) → List α
  | x, node l k r :: s =>
    if x = (node l k r).child side.swap then upFrom side (node l k r) s
    else k :: inorderFrom side ((node l k r).child side.swap) ++ upFrom side (node l k r) s
  | _, _ => []

/-- The keys after the top of the stack `s`, from the `side` end. -/
def afterFrom (side : Side) : List (BTree α) → List α
  | x :: s => inorderFrom side (x.child side.swap) ++ upFrom side x s
  | [] => []

@[simp] theorem upFrom_nil (side : Side) (x : BTree α) : upFrom side x [] = [] := rfl

theorem upFrom_append_null (side : Side) (x : BTree α) (s : List (BTree α)) :
    upFrom side x (s ++ [null]) = upFrom side x s := by
  induction s generalizing x with
  | nil => rfl
  | cons y s ih =>
    cases y with
    | null => rfl
    | node l k r => simp only [List.cons_append, upFrom, ih]

theorem afterFrom_append_null (side : Side) (x : BTree α) (s : List (BTree α)) :
    afterFrom side (x :: s ++ [null]) = afterFrom side (x :: s) := by
  rw [List.cons_append, afterFrom, afterFrom, upFrom_append_null]

/-- The keys of `t` split at the subtree on top of a path: those before it, its own, and
    `upFrom` of the path. -/
theorem isPath_decomp {side : Side} {t x : BTree α} {s : List (BTree α)}
    (hd : (inorderFrom side t).Nodup) (h : IsPath t x s) :
    ∃ pre, inorderFrom side t = pre ++ inorderFrom side x ++ upFrom side x s := by
  induction h with
  | root _ => exact ⟨[], by simp [upFrom]⟩
  | @child y s d hp hc ih =>
    obtain ⟨pre, hpre⟩ := ih
    cases y with
    | null => exact absurd (child_null d) hc
    | node l k r =>
      -- the keys below the parent are distinct, so its two children differ
      have hdy : (inorderFrom side (node l k r)).Nodup := by
        rw [hpre] at hd
        exact (List.nodup_append.mp (List.nodup_append.mp hd).1).2.1
      rw [hpre, inorderFrom_node side l r k]
      by_cases hds : d = side
      · subst hds
        refine ⟨pre, ?_⟩
        rw [upFrom, if_neg (child_ne_child_swap hdy hc)]
        simp
      · have hd' : d = side.swap := by cases d <;> cases side <;> simp_all [Side.swap]
        subst hd'
        refine ⟨pre ++ inorderFrom side ((node l k r).child side) ++ [k], ?_⟩
        rw [upFrom, if_pos rfl]
        simp

/-- The keys below a node of a path are distinct when those of the tree are. -/
theorem IsPath.nodup {side : Side} {t x : BTree α} {s : List (BTree α)}
    (hd : (inorderFrom side t).Nodup) (h : IsPath t x s) : (inorderFrom side x).Nodup := by
  obtain ⟨pre, hpre⟩ := isPath_decomp hd h
  rw [hpre] at hd
  exact (List.nodup_append.mp (List.nodup_append.mp hd).1).2.1

/-- The keys after the top's key are `afterFrom` of the path. -/
theorem isPath_after {side : Side} {t : BTree α} (hd : (inorderFrom side t).Nodup)
    {l r : BTree α} {k : α} {s : List (BTree α)} (h : IsPath t (node l k r) s) :
    ∃ pre, inorderFrom side t = pre ++ k :: afterFrom side (node l k r :: s) := by
  obtain ⟨pre, hpre⟩ := isPath_decomp hd h
  refine ⟨pre ++ inorderFrom side ((node l k r).child side), ?_⟩
  rw [hpre, inorderFrom_node, afterFrom]
  simp

end Walk

theorem mem_inorderFrom_right {t : BTree α} {a : α} :
    a ∈ inorderFrom .right t ↔ a ∈ inorderFrom .left t := by
  rw [inorderFrom_right, List.mem_reverse]

/-! ## Search trees -/

section SearchTree

variable [LinearOrder α]

/-- The keys increase from left to right. -/
def IsSearchTree (t : BTree α) : Prop := (inorderFrom .left t).Pairwise (· < ·)

theorem IsSearchTree.node_iff {l r : BTree α} {k : α} :
    IsSearchTree (node l k r) ↔ IsSearchTree l ∧ IsSearchTree r ∧
      (∀ a ∈ inorderFrom .left l, a < k) ∧ (∀ b ∈ inorderFrom .left r, k < b) ∧
      ∀ a ∈ inorderFrom .left l, ∀ b ∈ inorderFrom .left r, a < b := by
  simp only [IsSearchTree, inorderFrom, List.pairwise_append, List.pairwise_cons, List.mem_cons]
  constructor
  · rintro ⟨hl, ⟨hkr, hr⟩, hlt⟩
    exact ⟨hl, hr, fun a ha => hlt a ha k (.inl rfl), hkr, fun a ha b hb => hlt a ha b (.inr hb)⟩
  · rintro ⟨hl, hr, hlk, hkr, hlr⟩
    refine ⟨hl, ⟨hkr, hr⟩, fun a ha b hb => ?_⟩
    rcases hb with rfl | hb
    · exact hlk a ha
    · exact hlr a ha b hb

theorem IsSearchTree.left {l r : BTree α} {k : α} (h : IsSearchTree (node l k r)) :
    IsSearchTree l := (node_iff.mp h).1

theorem IsSearchTree.right {l r : BTree α} {k : α} (h : IsSearchTree (node l k r)) :
    IsSearchTree r := (node_iff.mp h).2.1

theorem IsSearchTree.not_mem_left {l r : BTree α} {k a : α} (h : IsSearchTree (node l k r))
    (ha : k ≤ a) : a ∉ inorderFrom .left l :=
  fun hmem => absurd ((node_iff.mp h).2.2.1 a hmem) (not_lt.mpr ha)

theorem IsSearchTree.not_mem_right {l r : BTree α} {k a : α} (h : IsSearchTree (node l k r))
    (ha : a ≤ k) : a ∉ inorderFrom .left r :=
  fun hmem => absurd ((node_iff.mp h).2.2.2.1 a hmem) (not_lt.mpr ha)

/-- From the right end the keys decrease. -/
theorem IsSearchTree.pairwise_right {t : BTree α} (h : IsSearchTree t) :
    (inorderFrom .right t).Pairwise (· > ·) := by
  rw [inorderFrom_right, List.pairwise_reverse]
  exact h

theorem IsSearchTree.nodup {t : BTree α} (h : IsSearchTree t) (side : Side) :
    (inorderFrom side t).Nodup := by
  cases side
  · exact List.Pairwise.nodup h
  · exact List.Pairwise.nodup h.pairwise_right

end SearchTree

/-! ## Descent -/

/-- Descend from the root, to the right past the keys `p` holds of and to the left past the
    others, and return the last key passed on each side. -/
def descend (p : α → Bool) : BTree α → Option α → Option α → Option α × Option α
  | null, lastRight, lastLeft => (lastRight, lastLeft)
  | node l k r, lastRight, lastLeft =>
    if p k then descend p r (some k) lastLeft else descend p l lastRight (some k)

/-- In a search tree and for a downward-closed `p`, the last key passed on the right is the
    first key from the right end that `p` holds of, and the last key passed on the left the
    first from the left end that it does not hold of. -/
theorem descend_spec [LinearOrder α] {p : α → Bool} (hp : ∀ a b, a < b → p b = true → p a = true)
    {t : BTree α} (ht : IsSearchTree t) (lastRight lastLeft : Option α) :
    descend p t lastRight lastLeft =
      (((inorderFrom .right t).find? p).or lastRight,
        ((inorderFrom .left t).find? fun a => !p a).or lastLeft) := by
  induction t generalizing lastRight lastLeft with
  | null => rfl
  | node l k r ihl ihr =>
    obtain ⟨hl, hr, hlk, hkr, -⟩ := IsSearchTree.node_iff.mp ht
    by_cases hk : p k = true
    · -- every key of the left subtree is below `k`, so `p` holds of all of them
      have hnone : (inorderFrom .left l).find? (fun a => !p a) = none :=
        List.find?_eq_none.mpr fun a ha => by simp [hp a k (hlk a ha) hk]
      rw [descend, if_pos hk, ihr hr, inorderFrom, inorderFrom, List.find?_append,
        List.find?_cons_of_pos hk, List.find?_append, hnone, List.find?_cons_of_neg (by simp [hk])]
      simp
    · -- every key of the right subtree is above `k`, so `p` holds of none of them
      have hnone : (inorderFrom .right r).find? p = none :=
        List.find?_eq_none.mpr fun b hb hpb =>
          hk (hp k b (hkr b (mem_inorderFrom_right.mp hb)) hpb)
      rw [descend, if_neg hk, ihl hl, inorderFrom, inorderFrom, List.find?_append, hnone,
        List.find?_cons_of_neg hk, List.find?_append, List.find?_cons_of_pos (by simp [hk])]
      simp

/-! ## Sorted keys -/

section Sorted

variable {β : Type} {R : β → β → Prop} [Std.Asymm R]

/-- The first key of a strictly sorted list that `q` holds of is below every other such key. -/
theorem find?_eq_some_iff_of_pairwise {q : β → Bool} {L : List β} (h : L.Pairwise R) (x : β) :
    L.find? q = some x ↔ x ∈ L ∧ q x = true ∧ ∀ b ∈ L, q b = true → b ≠ x → R x b := by
  induction L with
  | nil => simp
  | cons a L ih =>
    rw [List.pairwise_cons] at h
    by_cases ha : q a = true
    · rw [List.find?_cons_of_pos ha, Option.some_inj]
      constructor
      · rintro rfl
        refine ⟨List.mem_cons_self, ha, fun b hb _ hne => ?_⟩
        exact h.1 b ((List.mem_cons.mp hb).resolve_left hne)
      · rintro ⟨hx, -, hmin⟩
        by_contra hne
        have hxL : x ∈ L := (List.mem_cons.mp hx).resolve_left (Ne.symm hne)
        exact Std.Asymm.asymm _ _ (hmin a List.mem_cons_self ha hne) (h.1 x hxL)
    · rw [List.find?_cons_of_neg ha, ih h.2]
      constructor
      · rintro ⟨hx, hqx, hmin⟩
        refine ⟨List.mem_cons_of_mem _ hx, hqx, fun b hb hqb hne => ?_⟩
        rcases List.mem_cons.mp hb with rfl | hb
        · exact absurd hqb ha
        · exact hmin b hb hqb hne
      · rintro ⟨hx, hqx, hmin⟩
        have hxa : x ≠ a := fun hxa => ha (hxa ▸ hqx)
        exact ⟨(List.mem_cons.mp hx).resolve_left hxa, hqx,
          fun b hb hqb hne => hmin b (List.mem_cons_of_mem _ hb) hqb hne⟩

/-- In a strictly sorted list the keys after `a` are those above `a`. -/
theorem after_eq_filter [DecidableRel R] {pre post : List β} {a : β}
    (h : (pre ++ a :: post).Pairwise R) :
    post = (pre ++ a :: post).filter fun b => R a b := by
  rw [List.pairwise_append, List.pairwise_cons] at h
  obtain ⟨-, ⟨hpost, -⟩, hpre⟩ := h
  have hnil : pre.filter (fun b => R a b) = [] :=
    List.filter_eq_nil_iff.mpr fun b hb hab =>
      Std.Asymm.asymm _ _ (hpre b hb a List.mem_cons_self) (of_decide_eq_true hab)
  have hall : post.filter (fun b => R a b) = post :=
    List.filter_eq_self.mpr fun b hb => decide_eq_true (hpost b hb)
  have hself : ¬ (decide (R a a)) = true := fun haa =>
    Std.Asymm.asymm _ _ (of_decide_eq_true haa) (of_decide_eq_true haa)
  rw [List.filter_append, hnil, List.filter_cons_of_neg (p := fun b => decide (R a b)) hself, hall, List.nil_append]

end Sorted

section Order

variable {β : Type} [LinearOrder β]

variable {q : β → Bool} {P : β → Prop} {L : List β}

/-- The first key of an increasing list that `q` holds of is the least key `P` holds of, when
    `q` decides `P` on the list. -/
theorem find?_eq_some_iff_isLeast (h : L.Pairwise (· < ·)) (hq : ∀ a ∈ L, q a = true ↔ P a)
    (x : β) : L.find? q = some x ↔ IsLeast {a | a ∈ L ∧ P a} x := by
  rw [find?_eq_some_iff_of_pairwise h x]
  constructor
  · rintro ⟨hx, hqx, hmin⟩
    refine ⟨⟨hx, (hq x hx).mp hqx⟩, fun b ⟨hb, hPb⟩ => ?_⟩
    rcases eq_or_ne b x with rfl | hne
    · exact le_rfl
    · exact (hmin b hb ((hq b hb).mpr hPb) hne).le
  · rintro ⟨⟨hx, hPx⟩, hmin⟩
    exact ⟨hx, (hq x hx).mpr hPx, fun b hb hqb hne =>
      lt_of_le_of_ne (hmin ⟨hb, (hq b hb).mp hqb⟩) (Ne.symm hne)⟩

/-- The first key of a decreasing list that `q` holds of is the greatest key `P` holds of. -/
theorem find?_eq_some_iff_isGreatest (h : L.Pairwise (· > ·)) (hq : ∀ a ∈ L, q a = true ↔ P a)
    (x : β) : L.find? q = some x ↔ IsGreatest {a | a ∈ L ∧ P a} x := by
  rw [find?_eq_some_iff_of_pairwise h x]
  constructor
  · rintro ⟨hx, hqx, hmax⟩
    refine ⟨⟨hx, (hq x hx).mp hqx⟩, fun b ⟨hb, hPb⟩ => ?_⟩
    rcases eq_or_ne b x with rfl | hne
    · exact le_rfl
    · exact (hmax b hb ((hq b hb).mpr hPb) hne).le
  · rintro ⟨⟨hx, hPx⟩, hmax⟩
    exact ⟨hx, (hq x hx).mpr hPx, fun b hb hqb hne =>
      lt_of_le_of_ne (hmax ⟨hb, (hq b hb).mp hqb⟩) hne⟩

end Order

end BTree

end MariaDB.Lib
