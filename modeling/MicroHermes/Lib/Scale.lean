import Mathlib.Algebra.Order.Floor.Div
import Mathlib.Order.Interval.Finset.Nat

set_option autoImplicit false

namespace Scale

variable {range n k : Nat}

variable (range n) in
theorem scale_mono {h h' : Nat} (order : h ≤ h') : h * n / range ≤ h' * n / range :=
  Nat.div_le_div_right (Nat.mul_le_mul_right n order)

theorem scale_eq_iff {h : Nat} (positive : 0 < n) (inhabited : 0 < range) :
    h * n / range = k ↔ (k * range) ⌈/⌉ n ≤ h ∧ h < ((k + 1) * range) ⌈/⌉ n := by
  -- The numbers that are scaled to `k` are an interval.
  rw [Nat.div_eq_iff inhabited, ceilDiv_le_iff_le_mul positive, ← not_le,
    ceilDiv_le_iff_le_mul positive, Nat.succ_mul, Nat.mul_comm n h]
  omega

theorem preimage_eq (positive : 0 < n) (inside : k < n) :
    ((Finset.range range).filter fun h => h * n / range = k) =
      Finset.Ico ((k * range) ⌈/⌉ n) (((k + 1) * range) ⌈/⌉ n) := by
  have last : ((k + 1) * range) ⌈/⌉ n ≤ range :=
    (ceilDiv_le_iff_le_mul positive).2 (Nat.mul_le_mul_right range inside)
  ext h
  simp only [Finset.mem_filter, Finset.mem_range, Finset.mem_Ico]
  constructor
  · rintro ⟨below, scaled⟩
    exact (scale_eq_iff positive (by omega)).1 scaled
  · rintro ⟨low, high⟩
    exact ⟨by omega, (scale_eq_iff positive (by omega)).2 ⟨low, high⟩⟩

theorem ceilDiv_add_sub (positive : 0 < n) (start : Nat) :
    (start + range) ⌈/⌉ n - start ⌈/⌉ n = range / n ∨
      (start + range) ⌈/⌉ n - start ⌈/⌉ n = range ⌈/⌉ n := by
  have startBound : start ≤ n * (start ⌈/⌉ n) := (ceilDiv_le_iff_le_mul positive).1 le_rfl
  have rangeBound : range ≤ n * (range ⌈/⌉ n) := (ceilDiv_le_iff_le_mul positive).1 le_rfl
  have sumBound : start + range ≤ n * ((start + range) ⌈/⌉ n) :=
    (ceilDiv_le_iff_le_mul positive).1 le_rfl
  have quotient : n * (range / n) ≤ range := Nat.mul_div_le range n
  have above : (start + range) ⌈/⌉ n ≤ start ⌈/⌉ n + range ⌈/⌉ n := by
    rw [ceilDiv_le_iff_le_mul positive, Nat.mul_add]
    omega
  have below : start ⌈/⌉ n ≤ (start + range) ⌈/⌉ n - range / n := by
    rw [ceilDiv_le_iff_le_mul positive, Nat.mul_sub]
    omega
  have room : range / n ≤ (start + range) ⌈/⌉ n := by
    refine Nat.le_of_mul_le_mul_left ?_ positive
    omega
  have next : range ⌈/⌉ n ≤ range / n + 1 := by
    rw [ceilDiv_le_iff_le_mul positive]
    exact (Nat.lt_mul_div_succ range positive).le
  omega

theorem card_preimage (positive : 0 < n) (inside : k < n) :
    ((Finset.range range).filter fun h => h * n / range = k).card = range / n ∨
      ((Finset.range range).filter fun h => h * n / range = k).card = range ⌈/⌉ n := by
  rw [preimage_eq positive inside, Nat.card_Ico, Nat.succ_mul]
  exact ceilDiv_add_sub positive (k * range)

end Scale
