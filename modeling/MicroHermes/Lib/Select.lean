import Mathlib.Data.List.Basic
import Mathlib.Data.List.Nodup
import Mathlib.Data.Nat.Init
import Mathlib.Order.Nat
import Mathlib.Tactic.Common

set_option autoImplicit false

namespace Select

variable (p : Nat → Bool)

def rank (i : Nat) : Nat := (List.range i).countP p

def select (bound n : Nat) : Option Nat := ((List.range bound).filter p)[n]?

theorem rank_succ (i : Nat) : rank p (i + 1) = rank p i + if p i then 1 else 0 := by
  simp [rank, List.range_succ, List.countP_append, List.countP_cons]

theorem rank_mono {i j : Nat} (order : i ≤ j) : rank p i ≤ rank p j := by
  induction j, order using Nat.le_induction with
  | base => rfl
  | succ j _ ih => exact ih.trans (by rw [rank_succ]; omega)

theorem rank_le (i : Nat) : rank p i ≤ i := by
  simpa [rank] using List.countP_le_length (p := p) (l := List.range i)

theorem select_succ (bound n : Nat) :
    select p (bound + 1) n =
      if n < rank p bound then select p bound n
      else if p bound ∧ n = rank p bound then some bound else none := by
  have length : ((List.range bound).filter p).length = rank p bound :=
    List.countP_eq_length_filter.symm
  simp only [select, List.range_succ, List.filter_append, List.getElem?_append, length]
  split
  · rfl
  · next outside =>
      by_cases holds : p bound
      · by_cases last : n = rank p bound
        · simp [holds, last]
        · have beyond : n - rank p bound ≠ 0 := by omega
          simp [holds, last, beyond]
      · simp [holds]

theorem select_eq_some {bound n i : Nat} :
    select p bound n = some i ↔ i < bound ∧ p i = true ∧ rank p i = n := by
  induction bound with
  | zero => simp [select]
  | succ bound ih =>
      rw [select_succ]
      split
      · next inside =>
          rw [ih]
          constructor
          · rintro ⟨below, holds, position⟩
            exact ⟨by omega, holds, position⟩
          · rintro ⟨below, holds, position⟩
            refine ⟨?_, holds, position⟩
            have different : i ≠ bound := by rintro rfl; omega
            omega
      · next outside =>
          split
          · next last =>
              obtain ⟨holds, rfl⟩ := last
              simp only [Option.some.injEq]
              constructor
              · rintro rfl
                exact ⟨by omega, holds, rfl⟩
              · rintro ⟨below, selected, position⟩
                by_contra different
                have earlier : i + 1 ≤ bound := by omega
                have grown := rank_mono p earlier
                rw [rank_succ, if_pos selected] at grown
                omega
          · next absent =>
              simp only [reduceCtorEq, false_iff, not_and]
              intro below selected position
              rcases Nat.lt_succ_iff_lt_or_eq.1 below with earlier | rfl
              · have grown := rank_mono p (show i + 1 ≤ bound by omega)
                rw [rank_succ, if_pos selected] at grown
                omega
              · exact absent ⟨selected, position.symm⟩

theorem select_of_lt_rank {bound n : Nat} (inside : n < rank p bound) :
    ∃ i, select p bound n = some i := by
  have length : n < ((List.range bound).filter p).length := by
    rwa [← List.countP_eq_length_filter]
  exact ⟨_, List.getElem?_eq_getElem length⟩

theorem rank_eq_of_clear {i j : Nat} (order : i ≤ j)
    (clear : ∀ k, i ≤ k → k < j → p k = false) : rank p j = rank p i := by
  induction j, order using Nat.le_induction with
  | base => rfl
  | succ j above ih =>
      rw [rank_succ, clear j above (by omega), ih fun k low high => clear k low (by omega)]
      simp

end Select
