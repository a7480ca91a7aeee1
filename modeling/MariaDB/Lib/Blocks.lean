import Mathlib

/-
  Positions in a row of consecutive blocks.

  A table `sizes` lays blocks end to end. The 1-based position `x` lies in block `k` at the
  1-based offset `d` when `x = (sizes.take k).sum + d` and `1 ≤ d ≤ sizes[k]`. `locate sizes i x`
  finds them by repeated subtraction, the C loop

      for (p = sizes; x > *p; x -= *(p++), i++) ;

  with `i` counting the blocks passed. Past the end of the table the walk stops where it is.

  Results:
  * `locate_of_le`, `locate_of_lt`: one step of the walk;
  * `locate_sum_add`: from a position `(sizes.take k).sum + d` inside block `k` the walk stops
    at block `k` with offset `d`, so the block and offset of a position are unique;
  * `exists_block`: every position from 1 to `sizes.sum` lies inside some block;
  * `sum_take_add_getElem_le`: a block ends no later than the row.
-/

namespace MariaDB.Lib

/-- The walk `for (p = sizes; x > *p; x -= *(p++), i++) ;`, returning the final `(i, x)`. -/
def locate : List Nat → Nat → Nat → Nat × Nat
  | [], i, x => (i, x)
  | s :: sizes, i, x => if x > s then locate sizes (i + 1) (x - s) else (i, x)

theorem locate_of_le {s x : Nat} (sizes : List Nat) (i : Nat) (h : x ≤ s) :
    locate (s :: sizes) i x = (i, x) := by
  rw [locate, if_neg (by omega)]

theorem locate_of_lt {s x : Nat} (sizes : List Nat) (i : Nat) (h : s < x) :
    locate (s :: sizes) i x = locate sizes (i + 1) (x - s) := by
  rw [locate, if_pos h]

/-- The walk from a position inside block `k` stops at that block, with the offset inside it. -/
theorem locate_sum_add : ∀ (sizes : List Nat) (i k d : Nat) (hk : k < sizes.length),
    0 < d → d ≤ sizes[k] → locate sizes i ((sizes.take k).sum + d) = (i + k, d)
  | s :: sizes, i, 0, d, _, _, hd => by
    rw [List.getElem_cons_zero] at hd
    simpa using locate_of_le sizes i hd
  | s :: sizes, i, k + 1, d, hk, hd0, hd => by
    rw [List.getElem_cons_succ] at hd
    have ih := locate_sum_add sizes (i + 1) k d (by simpa using hk) hd0 hd
    rw [List.take_succ_cons, List.sum_cons, locate_of_lt sizes i (by omega),
      show s + (sizes.take k).sum + d - s = (sizes.take k).sum + d by omega, ih,
      Nat.add_right_comm, Nat.add_assoc]

/-- Every position of the row lies in some block. -/
theorem exists_block : ∀ (sizes : List Nat) {x : Nat}, 0 < x → x ≤ sizes.sum →
    ∃ k d, ∃ hk : k < sizes.length, 0 < d ∧ d ≤ sizes[k] ∧ x = (sizes.take k).sum + d
  | [], x, hx, h => by
    rw [List.sum_nil] at h
    omega
  | s :: sizes, x, hx, h => by
    rw [List.sum_cons] at h
    by_cases hs : x ≤ s
    · exact ⟨0, x, by simp, hx, hs, by simp⟩
    · -- past the first block: the position `x - s` of the rest of the row
      obtain ⟨k, d, hk, hd0, hd, hpos⟩ := exists_block sizes (x := x - s) (by omega) (by omega)
      refine ⟨k + 1, d, by simpa using hk, hd0, hd, ?_⟩
      rw [List.take_succ_cons, List.sum_cons]
      omega

theorem sum_take_add_getElem_le (sizes : List Nat) (k : Nat) (hk : k < sizes.length) :
    (sizes.take k).sum + sizes[k] ≤ sizes.sum := by
  rw [← List.sum_take_succ, ← List.sum_take_add_sum_drop sizes (k + 1)]
  omega

end MariaDB.Lib
