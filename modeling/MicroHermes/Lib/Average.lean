import Mathlib.Algebra.Order.BigOperators.Group.List
import Mathlib.Algebra.Order.Field.Basic
import Mathlib.Tactic.Linarith
import Mathlib.Tactic.Positivity
import Mathlib.Tactic.Ring

set_option autoImplicit false

namespace Average

variable {K : Type} [Field K] [LinearOrder K] [IsStrictOrderedRing K]

def mean (values : List K) : K := values.sum / values.length

theorem length_mul_mean (values : List K) : values.length * mean values = values.sum := by
  cases values with
  | nil => simp [mean]
  | cons first rest =>
      have nonzero : ((first :: rest).length : K) ≠ 0 := by
        rw [List.length_cons]
        positivity
      rw [mean, mul_div_cancel₀ _ nonzero]

theorem le_mean {values : List K} (nonempty : values ≠ []) {least : K}
    (below : ∀ value ∈ values, least ≤ value) : least ≤ mean values := by
  have positive : (0 : K) < values.length := by
    exact_mod_cast List.length_pos_iff.2 nonempty
  have total := List.card_nsmul_le_sum values least below
  rw [nsmul_eq_mul, ← length_mul_mean] at total
  exact le_of_mul_le_mul_left total positive

theorem mean_nonneg {values : List K} (nonneg : ∀ value ∈ values, 0 ≤ value) : 0 ≤ mean values :=
  div_nonneg (List.sum_nonneg nonneg) (Nat.cast_nonneg _)

theorem countP_mul_le_sum (bound : K) {values : List K} (nonneg : ∀ value ∈ values, 0 ≤ value) :
    values.countP (fun value => bound ≤ value) * bound ≤ values.sum := by
  induction values with
  | nil => simp
  | cons first rest ih =>
      have later := ih fun value inside => nonneg value (List.mem_cons_of_mem first inside)
      have firstNonneg := nonneg first List.mem_cons_self
      rw [List.countP_cons, List.sum_cons]
      by_cases above : bound ≤ first
      · simp only [above, decide_true, if_true]
        push_cast
        linarith
      · simp only [above, decide_false, Bool.false_eq_true, if_false, Nat.add_zero]
        linarith

theorem length_le_three_mul_countP (bound : K) {values : List K} (positive : 0 < bound)
    (nonneg : ∀ value ∈ values, 0 ≤ value) (high : 3 * mean values ≤ 2 * bound) :
    values.length ≤ 3 * values.countP fun value => value < bound := by
  have reached := countP_mul_le_sum bound nonneg
  have split := List.length_eq_countP_add_countP (fun value : K => decide (value < bound))
    (l := values)
  have opposite : values.countP (fun value => decide ¬ decide (value < bound) = true) =
      values.countP fun value => bound ≤ value := by
    refine List.countP_congr fun value _ => ?_
    simp
  rw [opposite] at split
  have scaled : (3 * values.countP (fun value => bound ≤ value) : K) * bound ≤
      (2 * values.length) * bound := by
    have total := length_mul_mean values
    have weighted := mul_le_mul_of_nonneg_left high (Nat.cast_nonneg (α := K) values.length)
    linarith
  have counted : 3 * values.countP (fun value => bound ≤ value) ≤ 2 * values.length := by
    exact_mod_cast le_of_mul_le_mul_right scaled positive
  omega

omit [LinearOrder K] [IsStrictOrderedRing K] in
theorem mean_raise {A : Type} {members : List A} (distinct : members.Nodup) {a : A}
    (inside : a ∈ members) {value raised : A → K} (others : ∀ b, b ≠ a → raised b = value b) :
    mean (members.map raised) =
      mean (members.map value) + (raised a - value a) / members.length := by
  -- One changed value moves the average by its share of the change.
  classical
  have rest : (members.erase a).map raised = (members.erase a).map value :=
    List.map_congr_left fun b member => others b (distinct.mem_erase_iff.1 member).1
  have before := List.sum_map_erase value inside
  have after := List.sum_map_erase raised inside
  rw [rest] at after
  rw [mean, mean, List.length_map, List.length_map, ← add_div, ← before, ← after]
  congr 1
  ring

end Average
