import Mathlib.Data.List.Pairwise
import Mathlib.Data.List.Sort
import Mathlib.Order.Bounds.Defs

set_option autoImplicit false

namespace OrderStatistics

variable {A : Type} [LinearOrder A]

theorem rank_le_countP {sorted : List A} (ascending : sorted.SortedLE) {k : Nat}
    (inside : k < sorted.length) : k + 1 ≤ sorted.countP (· ≤ sorted[k]) := by
  have before : (sorted.take (k + 1)).countP (· ≤ sorted[k]) = (sorted.take (k + 1)).length := by
    refine List.countP_eq_length.2 fun value among => ?_
    obtain ⟨j, earlier, rfl⟩ := List.mem_take_iff_getElem.1 among
    exact decide_eq_true (ascending.getElem_le_getElem_of_le (by omega))
  have among := (List.take_sublist (k + 1) sorted).countP_le (p := (· ≤ sorted[k]))
  rw [before, List.length_take] at among
  omega

theorem countP_le_of_lt {sorted : List A} (ascending : sorted.SortedLE) {k : Nat}
    (inside : k < sorted.length) {value : A} (below : value < sorted[k]) :
    sorted.countP (· ≤ value) ≤ k := by
  have after : (sorted.drop k).countP (· ≤ value) = 0 := by
    refine List.countP_eq_zero.2 fun other among => ?_
    obtain ⟨j, later, rfl⟩ := List.mem_drop_iff_getElem.1 among
    have order : sorted[k] ≤ sorted[k + j] := ascending.getElem_le_getElem_of_le (by omega)
    simpa using below.trans_le order
  have most : (sorted.take k).countP (· ≤ value) ≤ (sorted.take k).length := List.countP_le_length
  rw [← List.take_append_drop k sorted, List.countP_append, after, Nat.add_zero]
  exact most.trans (List.length_take_le ..)

theorem isLeast_rank {sorted : List A} (ascending : sorted.SortedLE) {k : Nat}
    (inside : k < sorted.length) :
    IsLeast {value | value ∈ sorted ∧ k + 1 ≤ sorted.countP (· ≤ value)} sorted[k] := by
  refine ⟨⟨List.getElem_mem inside, rank_le_countP ascending inside⟩, fun value reached => ?_⟩
  by_contra below
  have fewer := countP_le_of_lt ascending inside (not_le.1 below)
  have enough := reached.2
  omega

theorem isGreatest_last {sorted : List A} (ascending : sorted.SortedLE) (nonempty : sorted ≠ []) :
    IsGreatest {value | value ∈ sorted} (sorted.getLast nonempty) :=
  ⟨List.getLast_mem nonempty, fun _ among => ascending.pairwise.rel_getLast among⟩

end OrderStatistics
