import Mathlib.Algebra.Order.Interval.Finset.SuccPred
import Mathlib.Data.Finset.Image
import Mathlib.Data.Nat.SuccPred
import Mathlib.Logic.Equiv.Basic
import Mathlib.Order.Interval.Finset.Nat

/-
  The implicit binary heap of an array indexed from 1: the children of slot `p` are `2p` and
  `2p + 1`, so the parent of `c` is `c / 2`, and `f : Nat → α` holds the slots `1..n`.

  The order is a total preorder `le`, read "may stand above". `HeapFrom le f lo n` says that
  every child on `1..n` whose parent is at `lo` or beyond stands at or below its parent; the
  heap is `lo = 1`, and a bottom-up build works its way down from `lo = n / 2 + 1`.

  A sift moves a hole through the array with an element held aside. `Hole` is what holds
  around the hole in every sift: the pairs off the hole are in order, and the hole's children
  stand at or below the hole's parent. `UpHole` adds that the element stands at or above the
  hole's children (a sift up moves the hole to the parent while the element is better than
  it); `DownHole` adds that it stands at or below the hole's parent (a sift down moves the hole
  to the best child while that child is better than the element). Each has a `move` lemma for
  one step of its loop and a `finish` lemma for putting the element in the hole; `Hole.sink`
  is the step of a hole that goes down without looking at the element.

  Contents. `live f n` is the multiset of the slots `1..n`. A move fills the hole from slot `c`
  and makes `c` the hole; with the element put back that is a swap of two slots (`live_move`).
  A table `pos : α → Nat` that every move keeps up to date gives back the slot of each element
  but the one held aside (`Indexed`), as long as no element is stored twice.

  Proved:
  * `HeapFrom.root_le`: the root of a heap stands at or above every slot;
  * `UpHole.move`, `UpHole.finish`, `DownHole.move`, `DownHole.finish`, `Hole.sink`, with the
    starts `Hole.of_heap` (a heap with one slot changed, and perhaps shortened),
    `UpHole.of_heap_succ` (a heap with a new last slot) and `DownHole.start` (the next step of
    a bottom-up build); `bestChild_left`, `bestChild_right`: the child a sift down picks;
  * `Hole.mono_rel`: a hole under a relation that agrees off the hole;
  * `live_move`, `live_update_add`, `live_succ_update`, `live_remove`; `injOn_move`,
    `injOn_update_succ`, `injOn_remove`; `Indexed.move`, `Indexed.put`, `Indexed.finish`.
-/

namespace MariaDB.Lib

open Function

section Order

variable {α : Type} (le : α → α → Prop)

/-- On the slots `1..n`, every child whose parent is at `lo` or beyond stands at or below
its parent. -/
def HeapFrom (f : Nat → α) (lo n : Nat) : Prop :=
  ∀ c, 2 ≤ c → c ≤ n → lo ≤ c / 2 → le (f (c / 2)) (f c)

/-- Around a hole at `hole`: the pairs from `lo` on that do not touch the hole are in order,
and the hole's children stand at or below the hole's parent. -/
structure Hole (f : Nat → α) (lo n hole : Nat) : Prop where
  except : ∀ c, 2 ≤ c → c ≤ n → lo ≤ c / 2 → c ≠ hole → c / 2 ≠ hole → le (f (c / 2)) (f c)
  grand : lo < hole → ∀ c, 2 ≤ c → c ≤ n → c / 2 = hole → le (f (hole / 2)) (f c)

/-- A sift up's hole: the element `e` stands at or above the hole's children. -/
structure UpHole (f : Nat → α) (n hole : Nat) (e : α) : Prop extends Hole le f 1 n hole where
  below : ∀ c, 2 ≤ c → c ≤ n → c / 2 = hole → le e (f c)

/-- A sift down's hole: the element `e` stands at or below the hole's parent. -/
structure DownHole (f : Nat → α) (lo n hole : Nat) (e : α) : Prop
    extends Hole le f lo n hole where
  above : lo < hole → le (f (hole / 2)) e

/-- `c` is a child of `hole` on `1..n` that stands at or above every child of `hole`. -/
structure BestChild (f : Nat → α) (n hole c : Nat) : Prop where
  two_le : 2 ≤ c
  le_n : c ≤ n
  parent_eq : c / 2 = hole
  best : ∀ d, 2 ≤ d → d ≤ n → d / 2 = hole → le (f c) (f d)

variable {le}

theorem HeapFrom.mono {f : Nat → α} {lo n m : Nat} (h : HeapFrom le f lo n) (hm : m ≤ n) :
    HeapFrom le f lo m :=
  fun c hc2 hcm hlo => h c hc2 (hcm.trans hm) hlo

/-- The build's start: no pair has its parent beyond `n / 2`. -/
theorem heapFrom_half_succ (f : Nat → α) (n : Nat) : HeapFrom le f (n / 2 + 1) n := by
  intro c _ hcn hlo
  omega

/-- A slot of the hole may hold anything. -/
theorem Hole.update_hole {f : Nat → α} {lo n hole : Nat} (h : Hole le f lo n hole) (x : α) :
    Hole le (update f hole x) lo n hole where
  except c hc2 hcn hlo hch hph := by
    rw [update_of_ne hch, update_of_ne hph]
    exact h.except c hc2 hcn hlo hch hph
  grand hlo c hc2 hcn hcp := by
    rw [update_of_ne (show hole / 2 ≠ hole by omega), update_of_ne (show c ≠ hole by omega)]
    exact h.grand hlo c hc2 hcn hcp

/-- A hole keeps its invariant under a relation that agrees on the slots off the hole. -/
theorem Hole.mono_rel {le' : α → α → Prop} {f : Nat → α} {lo n hole : Nat}
    (h : Hole le f lo n hole) (hlo : 1 ≤ lo)
    (hrel : ∀ i j, 1 ≤ i → i ≤ n → 1 ≤ j → j ≤ n → i ≠ hole → j ≠ hole →
      le (f i) (f j) → le' (f i) (f j)) : Hole le' f lo n hole where
  except c hc2 hcn hlo' hch hph :=
    hrel _ _ (by omega) (by omega) (by omega) hcn hph hch (h.except c hc2 hcn hlo' hch hph)
  grand hlt c hc2 hcn hcp :=
    hrel _ _ (by omega) (by omega) (by omega) hcn (by omega) (by omega) (h.grand hlt c hc2 hcn hcp)

/-- A heap on `1..n` with a new slot `n + 1` has a sift up's hole there. -/
theorem UpHole.of_heap_succ {f : Nat → α} {n : Nat} (h : HeapFrom le f 1 n) (e : α) :
    UpHole le f (n + 1) (n + 1) e where
  except c hc2 hcn hlo hch _ := h c hc2 (by omega) hlo
  grand _ c _ hcn hcp := by omega
  below c _ hcn hcp := by omega

/-- The next step of a bottom-up build: with the pairs below `i` in order, `i` is a sift
down's hole for any element. -/
theorem DownHole.start {f : Nat → α} {i n : Nat} (h : HeapFrom le f (i + 1) n) (e : α) :
    DownHole le f i n i e where
  except c hc2 hcn hlo _ hpi := h c hc2 hcn (by omega)
  grand hlt := absurd hlt (lt_irrefl i)
  above hlt := absurd hlt (lt_irrefl i)

/-- A hole that takes its best child's element moves to that child, whatever is held aside. -/
theorem Hole.sink {f : Nat → α} {lo n hole c : Nat} (h : Hole le f lo n hole)
    (hc : BestChild le f n hole c) : Hole le (update f hole (f c)) lo n c where
  except d hd2 hdn hlo hdc hdp := by
    by_cases hdh : d = hole
    · -- the hole's own pair: its parent over the child that came up
      subst hdh
      rw [update_self, update_of_ne (show d / 2 ≠ d by omega)]
      exact h.grand (by omega) c hc.two_le hc.le_n hc.parent_eq
    · rw [update_of_ne hdh]
      by_cases hph : d / 2 = hole
      · -- a sibling of `c`, now under `c`'s element
        rw [hph, update_self]
        exact hc.best d hd2 hdn hph
      · rw [update_of_ne hph]
        exact h.except d hd2 hdn hlo hdh hph
  grand hlo d hd2 hdn hdp := by
    have hch := hc.parent_eq
    rw [hch, update_self, update_of_ne (show d ≠ hole by omega)]
    have := h.except d hd2 hdn (by omega) (by omega) (by omega)
    rwa [hdp] at this

theorem UpHole.finish {f : Nat → α} {n hole : Nat} {e : α} (h : UpHole le f n hole e)
    (hstop : 2 ≤ hole → le (f (hole / 2)) e) : HeapFrom le (update f hole e) 1 n := by
  intro c hc2 hcn hlo
  by_cases hch : c = hole
  · subst hch
    rw [update_self, update_of_ne (show c / 2 ≠ c by omega)]
    exact hstop hc2
  · rw [update_of_ne hch]
    by_cases hph : c / 2 = hole
    · rw [hph, update_self]
      exact h.below c hc2 hcn hph
    · rw [update_of_ne hph]
      exact h.except c hc2 hcn hlo hch hph

theorem DownHole.finish {f : Nat → α} {lo n hole : Nat} {e : α} (h : DownHole le f lo n hole e)
    (hstop : ∀ c, 2 ≤ c → c ≤ n → c / 2 = hole → le e (f c)) :
    HeapFrom le (update f hole e) lo n := by
  intro c hc2 hcn hlo
  by_cases hch : c = hole
  · subst hch
    rw [update_self, update_of_ne (show c / 2 ≠ c by omega)]
    exact h.above (by omega)
  · rw [update_of_ne hch]
    by_cases hph : c / 2 = hole
    · rw [hph, update_self]
      exact hstop c hc2 hcn hph
    · rw [update_of_ne hph]
      exact h.except c hc2 hcn hlo hch hph

section Total

variable [Std.Total le]

theorem bestChild_left {f : Nat → α} {n hole : Nat} (h1 : 1 ≤ hole) (hn : 2 * hole ≤ n)
    (hl : 2 * hole < n → le (f (2 * hole)) (f (2 * hole + 1))) :
    BestChild le f n hole (2 * hole) where
  two_le := by omega
  le_n := hn
  parent_eq := by omega
  best d _ hdn hdp := by
    have hd : d = 2 * hole ∨ d = 2 * hole + 1 := by omega
    rcases hd with rfl | rfl
    · exact refl_of le _
    · exact hl (by omega)

theorem bestChild_right {f : Nat → α} {n hole : Nat} (h1 : 1 ≤ hole) (hn : 2 * hole < n)
    (hr : ¬ le (f (2 * hole)) (f (2 * hole + 1))) :
    BestChild le f n hole (2 * hole + 1) where
  two_le := by omega
  le_n := hn
  parent_eq := by omega
  best d _ hdn hdp := by
    have hd : d = 2 * hole ∨ d = 2 * hole + 1 := by omega
    rcases hd with rfl | rfl
    · exact (total_of le _ _).resolve_left hr
    · exact refl_of le _

theorem DownHole.move {f : Nat → α} {lo n hole c : Nat} {e : α} (h : DownHole le f lo n hole e)
    (hc : BestChild le f n hole c) (hb : ¬ le e (f c)) :
    DownHole le (update f hole (f c)) lo n c e where
  toHole := h.toHole.sink hc
  above _ := by
    rw [hc.parent_eq, update_self]
    exact (total_of le _ _).resolve_left hb

variable [IsTrans α le]

/-- The root of a heap stands at or above every slot, by induction up the path to it. -/
theorem HeapFrom.root_le {f : Nat → α} {n : Nat} (h : HeapFrom le f 1 n) :
    ∀ i, 1 ≤ i → i ≤ n → le (f 1) (f i) := by
  intro i
  induction i using Nat.strongRecOn with
  | ind i ih =>
    intro hi1 hin
    by_cases hi : i = 1
    · subst hi
      exact refl_of le _
    · have hparent : le (f 1) (f (i / 2)) := ih (i / 2) (by omega) (by omega) (by omega)
      exact trans_of le hparent (h i (by omega) hin (by omega))

omit [Std.Total le] in
/-- A heap with slot `i` changed and cut to `m ≤ n` slots has a hole at `i`: the children of
`i` stood below the old element there, and that below `i`'s parent. -/
theorem Hole.of_heap {f : Nat → α} {n m i : Nat} (h : HeapFrom le f 1 n) (hm : m ≤ n) (x : α) : Hole le (update f i x) 1 m i where
  except c hc2 hcm hlo hci hpi := by
    rw [update_of_ne hci, update_of_ne hpi]
    exact h c hc2 (by omega) hlo
  grand hlo c hc2 hcm hcp := by
    rw [update_of_ne (show i / 2 ≠ i by omega), update_of_ne (show c ≠ i by omega)]
    have hup : le (f (i / 2)) (f i) := h i (by omega) (by omega) (by omega)
    have hdown : le (f i) (f c) := by
      have := h c hc2 (by omega) (by omega)
      rwa [hcp] at this
    exact trans_of le hup hdown

theorem UpHole.move {f : Nat → α} {n hole : Nat} {e : α} (h : UpHole le f n hole e)
    (h2 : 2 ≤ hole) (hb : ¬ le (f (hole / 2)) e) :
    UpHole le (update f hole (f (hole / 2))) n (hole / 2) e := by
  have hpe : le e (f (hole / 2)) := (total_of le _ _).resolve_left hb
  -- the pairs under the parent that do not touch the old hole are still in order
  have hunder : ∀ c, 2 ≤ c → c ≤ n → c / 2 = hole / 2 → c ≠ hole →
      le (f (hole / 2)) (f c) := by
    intro c hc2 hcn hcp hch
    have := h.except c hc2 hcn (by omega) hch (by omega)
    rwa [hcp] at this
  refine ⟨⟨?_, ?_⟩, ?_⟩
  · intro c hc2 hcn hlo hcp hpp
    have hch : c ≠ hole := fun hch => hpp (by rw [hch])
    rw [update_of_ne hch]
    by_cases hph : c / 2 = hole
    · rw [hph, update_self]
      exact h.grand (by omega) c hc2 hcn hph
    · rw [update_of_ne hph]
      exact h.except c hc2 hcn hlo hch hph
  · intro hlo c hc2 hcn hcp
    rw [update_of_ne (show hole / 2 / 2 ≠ hole by omega)]
    have hpp : le (f (hole / 2 / 2)) (f (hole / 2)) :=
      h.except (hole / 2) (by omega) (by omega) (by omega) (by omega) (by omega)
    by_cases hch : c = hole
    · rw [hch, update_self]
      exact hpp
    · rw [update_of_ne hch]
      exact trans_of le hpp (hunder c hc2 hcn hcp hch)
  · intro c hc2 hcn hcp
    by_cases hch : c = hole
    · rw [hch, update_self]
      exact hpe
    · rw [update_of_ne hch]
      exact trans_of le hpe (hunder c hc2 hcn hcp hch)

end Total

end Order

section Contents

variable {α : Type}

/-- The multiset of the slots `1..n`. -/
def live (f : Nat → α) (n : Nat) : Multiset α := (Finset.Icc 1 n).val.map f

theorem live_congr {f g : Nat → α} {n : Nat} (h : ∀ i, 1 ≤ i → i ≤ n → f i = g i) :
    live f n = live g n :=
  Multiset.map_congr rfl fun i hi => by
    rw [Finset.mem_val, Finset.mem_Icc] at hi
    exact h i hi.1 hi.2

@[simp]
theorem card_live (f : Nat → α) (n : Nat) : Multiset.card (live f n) = n := by
  simp [live]

theorem live_succ (f : Nat → α) (n : Nat) : live f (n + 1) = f (n + 1) ::ₘ live f n := by
  rw [live, live, ← Finset.insert_Icc_right_eq_Icc_add_one (by omega),
    Finset.insert_val_of_notMem (by simp), Multiset.map_cons]

/-- A move and the element put back swap two slots. -/
theorem update_move_eq_comp_swap (f : Nat → α) {hole c : Nat} (hne : c ≠ hole) (e : α) :
    update (update f hole (f c)) c e = update f hole e ∘ Equiv.swap hole c := by
  funext x
  by_cases hxc : x = c
  · subst hxc
    simp [Equiv.swap_apply_right]
  · by_cases hxh : x = hole
    · subst hxh
      simp [Equiv.swap_apply_left, hne, Ne.symm hne]
    · simp [Equiv.swap_apply_of_ne_of_ne hxh hxc, hxc, hxh]

theorem live_move (f : Nat → α) {n hole c : Nat} (hh : 1 ≤ hole ∧ hole ≤ n)
    (hc : 1 ≤ c ∧ c ≤ n) (hne : c ≠ hole) (e : α) :
    live (update (update f hole (f c)) c e) n = live (update f hole e) n := by
  have hperm : (Finset.Icc 1 n).map (Equiv.swap hole c).toEmbedding = Finset.Icc 1 n := by
    apply Finset.map_perm
    intro x hx
    have : x = hole ∨ x = c := by
      by_contra hxo
      push Not at hxo
      exact hx (Equiv.swap_apply_of_ne_of_ne hxo.1 hxo.2)
    rcases this with rfl | rfl <;> simp [hh, hc]
  have hval : (Finset.Icc 1 n).val.map (Equiv.swap hole c) = (Finset.Icc 1 n).val := by
    simpa using congrArg Finset.val hperm
  rw [update_move_eq_comp_swap f hne, live, live, ← Multiset.map_map, hval]

/-- Changing one slot trades its element for the new one. -/
theorem live_update_add (f : Nat → α) {n i : Nat} (hi : 1 ≤ i ∧ i ≤ n) (e : α) :
    live (update f i e) n + {f i} = live f n + {e} := by
  have hmem : i ∈ Finset.Icc 1 n := Finset.mem_Icc.mpr hi
  have hrest : ((Finset.Icc 1 n).erase i).val.map (update f i e) =
      ((Finset.Icc 1 n).erase i).val.map f :=
    Multiset.map_congr rfl fun x hx =>
      update_of_ne (Finset.ne_of_mem_erase (Finset.mem_val.mp hx)) e f
  rw [live, live, ← Finset.insert_erase hmem, Finset.insert_val_of_notMem (Finset.notMem_erase i _),
    Multiset.map_cons, Multiset.map_cons, update_self, hrest, Multiset.cons_add,
    Multiset.cons_add, Multiset.add_comm _ {f i}, Multiset.add_comm _ {e}, Multiset.singleton_add,
    Multiset.singleton_add, Multiset.cons_swap]

/-- A new last slot adds its element. -/
theorem live_succ_update (f : Nat → α) (n : Nat) (e : α) :
    live (update f (n + 1) e) (n + 1) = e ::ₘ live f n := by
  rw [live_succ, update_self]
  congr 1
  exact live_congr fun i _ hin => update_of_ne (by omega) e f

/-- The last element moved to slot `i` and the array cut by one: the element at `i` is gone. -/
theorem live_remove (f : Nat → α) {n i : Nat} (hi : 1 ≤ i) (hin : i ≤ n) :
    live (update f i (f n)) (n - 1) + {f i} = live f n := by
  obtain ⟨m, rfl⟩ : ∃ m, n = m + 1 := ⟨n - 1, by omega⟩
  rw [Nat.add_sub_cancel, live_succ]
  by_cases him : i = m + 1
  · subst him
    rw [update_eq_self, Multiset.add_comm, Multiset.singleton_add]
  · rw [live_update_add f ⟨hi, by omega⟩, Multiset.add_comm, Multiset.singleton_add]

theorem injOn_move {f : Nat → α} {n hole c : Nat} {e : α} (hh : 1 ≤ hole ∧ hole ≤ n)
    (hc : 1 ≤ c ∧ c ≤ n) (hne : c ≠ hole)
    (hd : Set.InjOn (update f hole e) (Set.Icc 1 n)) :
    Set.InjOn (update (update f hole (f c)) c e) (Set.Icc 1 n) := by
  rw [update_move_eq_comp_swap f hne]
  refine hd.comp (Equiv.swap hole c).injective.injOn ?_
  intro x hx
  by_cases hxh : x = hole
  · subst hxh
    simpa [Equiv.swap_apply_left] using hc
  · by_cases hxc : x = c
    · subst hxc
      simpa [Equiv.swap_apply_right] using hh
    · simpa [Equiv.swap_apply_of_ne_of_ne hxh hxc] using hx

/-- An element off the hole is not the one held aside. -/
theorem ne_of_injOn_update {f : Nat → α} {n hole i : Nat} {e : α} (hh : 1 ≤ hole ∧ hole ≤ n)
    (hi : 1 ≤ i ∧ i ≤ n) (hih : i ≠ hole) (hd : Set.InjOn (update f hole e) (Set.Icc 1 n)) :
    f i ≠ e := by
  intro heq
  have := hd (show i ∈ Set.Icc 1 n from hi) (show hole ∈ Set.Icc 1 n from hh)
    (by rw [update_of_ne hih, update_self, heq])
  exact hih this

theorem mem_live (f : Nat → α) {n i : Nat} (hi : 1 ≤ i) (hin : i ≤ n) : f i ∈ live f n :=
  Multiset.mem_map_of_mem f (Finset.mem_val.mpr (Finset.mem_Icc.mpr ⟨hi, hin⟩))

/-- An element not in the slots keeps them apart when it goes into a new last slot. -/
theorem injOn_update_succ {f : Nat → α} {n : Nat} {e : α} (hd : Set.InjOn f (Set.Icc 1 n))
    (he : e ∉ live f n) : Set.InjOn (update f (n + 1) e) (Set.Icc 1 (n + 1)) := by
  intro x hx y hy hxy
  simp only [Set.mem_Icc] at hx hy
  by_cases hxn : x = n + 1 <;> by_cases hyn : y = n + 1
  · rw [hxn, hyn]
  · rw [hxn, update_self, update_of_ne hyn] at hxy
    have hmem := mem_live f hy.1 (show y ≤ n by omega)
    rw [← hxy] at hmem
    exact absurd hmem he
  · rw [hyn, update_self, update_of_ne hxn] at hxy
    have hmem := mem_live f hx.1 (show x ≤ n by omega)
    rw [hxy] at hmem
    exact absurd hmem he
  · rw [update_of_ne hxn, update_of_ne hyn] at hxy
    exact hd (show x ∈ Set.Icc 1 n from ⟨hx.1, by omega⟩) ⟨hy.1, by omega⟩ hxy

/-- The last element moved to slot `i` keeps the first `n - 1` slots apart. -/
theorem injOn_remove {f : Nat → α} {n i : Nat} (hd : Set.InjOn f (Set.Icc 1 n)) (hi : 1 ≤ i)
    (hin : i ≤ n) : Set.InjOn (update f i (f n)) (Set.Icc 1 (n - 1)) := by
  -- the last element is at no slot below `n`
  have hlast : ∀ j, 1 ≤ j → j ≤ n - 1 → f n ≠ f j := by
    intro j hj1 hjn heq
    have := hd (show n ∈ Set.Icc 1 n from ⟨by omega, le_refl n⟩) ⟨hj1, by omega⟩ heq
    omega
  intro x hx y hy hxy
  simp only [Set.mem_Icc] at hx hy
  by_cases hxi : x = i <;> by_cases hyi : y = i
  · rw [hxi, hyi]
  · rw [hxi, update_self, update_of_ne hyi] at hxy
    exact absurd hxy (hlast y hy.1 hy.2)
  · rw [hyi, update_self, update_of_ne hxi] at hxy
    exact absurd hxy.symm (hlast x hx.1 hx.2)
  · rw [update_of_ne hxi, update_of_ne hyi] at hxy
    exact hd (show x ∈ Set.Icc 1 n from ⟨hx.1, by omega⟩) ⟨hy.1, by omega⟩ hxy

variable [DecidableEq α]

/-- `pos` gives back the slot of every element on `1..n` but the one at `hole`. -/
def Indexed (pos : α → Nat) (f : Nat → α) (n hole : Nat) : Prop :=
  ∀ i, 1 ≤ i → i ≤ n → i ≠ hole → pos (f i) = i

theorem Indexed.move {pos : α → Nat} {f : Nat → α} {n hole c : Nat} {e : α}
    (hx : Indexed pos f n hole) (hh : 1 ≤ hole ∧ hole ≤ n) (hc : 1 ≤ c ∧ c ≤ n)
    (hne : c ≠ hole) (hd : Set.InjOn (update f hole e) (Set.Icc 1 n)) :
    Indexed (update pos (f c) hole) (update f hole (f c)) n c := by
  intro i hi1 hin hic
  by_cases hih : i = hole
  · subst hih
    rw [update_self, update_self]
  · have hfi : f i ≠ f c := by
      intro heq
      have := hd (show i ∈ Set.Icc 1 n from ⟨hi1, hin⟩) (show c ∈ Set.Icc 1 n from hc)
        (by rw [update_of_ne hih, update_of_ne hne, heq])
      exact hic this
    rw [update_of_ne hih, update_of_ne hfi]
    exact hx i hi1 hin hih

/-- Putting the element in the hole keeps every other slot's position. -/
theorem Indexed.put {pos : α → Nat} {f : Nat → α} {n hole : Nat} {e : α}
    (hx : Indexed pos f n hole) (hh : 1 ≤ hole ∧ hole ≤ n)
    (hd : Set.InjOn (update f hole e) (Set.Icc 1 n)) :
    Indexed (update pos e hole) (update f hole e) n hole := by
  intro i hi1 hin hih
  rw [update_of_ne hih, update_of_ne (ne_of_injOn_update hh ⟨hi1, hin⟩ hih hd)]
  exact hx i hi1 hin hih

theorem Indexed.finish {pos : α → Nat} {f : Nat → α} {n hole : Nat} {e : α}
    (hx : Indexed pos f n hole) (hh : 1 ≤ hole ∧ hole ≤ n)
    (hd : Set.InjOn (update f hole e) (Set.Icc 1 n)) :
    ∀ i, 1 ≤ i → i ≤ n → update pos e hole (update f hole e i) = i := by
  intro i hi1 hin
  by_cases hih : i = hole
  · subst hih
    rw [update_self, update_self]
  · exact hx.put hh hd i hi1 hin hih

end Contents

end MariaDB.Lib
