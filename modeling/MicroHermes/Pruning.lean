import Mathlib.Data.Finset.Max
import MicroHermes.Lib.Average
import MicroHermes.Scheduler

set_option autoImplicit false

namespace MicroHermes

open Average Bitmap

variable {W : Nat}

def baseline (candidates : List (Fin W)) (metric : Fin W → Int) : Rat :=
  let avg := mean (candidates.map fun i => (metric i : Rat))
  avg + max (1 / 2 * avg) 1

section Filter

variable (candidates : List (Fin W)) (metric : Fin W → Int)

theorem sum_cast :
    (((candidates.map metric).sum : Int) : Rat) =
      (candidates.map fun i => (metric i : Rat)).sum := by
  induction candidates with
  | nil => simp
  | cons first rest ih => simp [← ih]

theorem filterBelowBaseline_eq :
    filterBelowBaseline Rat candidates metric =
      candidates.filter fun i => (metric i : Rat) < baseline candidates metric := by
  rw [filterBelowBaseline_eq_filter]
  simp only [baseline, mean, List.length_map, ← sum_cast]
  rfl

theorem mem_filterBelowBaseline (i : Fin W) :
    i ∈ filterBelowBaseline Rat candidates metric ↔
      i ∈ candidates ∧ (metric i : Rat) < baseline candidates metric := by
  simp [filterBelowBaseline_eq]

theorem mean_lt_baseline :
    mean (candidates.map fun i => (metric i : Rat)) < baseline candidates metric := by
  have floor := le_max_right (1 / 2 * mean (candidates.map fun i => (metric i : Rat))) 1
  simp only [baseline]
  linarith

theorem filterBelowBaseline_length_le :
    (filterBelowBaseline Rat candidates metric).length ≤ candidates.length := by
  rw [filterBelowBaseline_eq]
  exact List.length_filter_le ..

variable {candidates metric}

theorem filterBelowBaseline_of_least {i : Fin W} (inside : i ∈ candidates)
    (least : ∀ j ∈ candidates, metric i ≤ metric j) :
    i ∈ filterBelowBaseline Rat candidates metric := by
  refine (mem_filterBelowBaseline candidates metric i).2 ⟨inside, ?_⟩
  refine lt_of_le_of_lt (le_mean ?_ ?_) (mean_lt_baseline candidates metric)
  · exact List.ne_nil_of_mem (List.mem_map_of_mem inside)
  · intro value member
    obtain ⟨j, candidate, rfl⟩ := List.mem_map.1 member
    exact_mod_cast least j candidate

theorem filterBelowBaseline_eq_nil :
    filterBelowBaseline Rat candidates metric = [] ↔ candidates = [] := by
  constructor
  · intro none
    by_contra nonempty
    -- The smallest candidate survives.
    obtain ⟨i, inside, least⟩ := candidates.toFinset.exists_min_image metric
      ((List.toFinset_nonempty_iff candidates).2 nonempty)
    simp only [List.mem_toFinset] at inside least
    have survives := filterBelowBaseline_of_least inside least
    rw [none] at survives
    cases survives
  · rintro rfl
    rfl

theorem filterBelowBaseline_keeps_third (nonneg : ∀ i ∈ candidates, 0 ≤ metric i) :
    candidates.length ≤ 3 * (filterBelowBaseline Rat candidates metric).length := by
  have values : ∀ value ∈ candidates.map fun i => (metric i : Rat), 0 ≤ value := by
    intro value member
    obtain ⟨i, inside, rfl⟩ := List.mem_map.1 member
    exact_mod_cast nonneg i inside
  have average := mean_nonneg values
  have half := le_max_left (1 / 2 * mean (candidates.map fun i => (metric i : Rat))) 1
  have above := mean_lt_baseline candidates metric
  have third := length_le_three_mul_countP (baseline candidates metric) (by linarith)
    values (by simp only [baseline]; linarith)
  rw [List.length_map, List.countP_map] at third
  rw [filterBelowBaseline_eq, ← List.countP_eq_length_filter]
  exact third

end Filter

section Stages

variable (snapshots : Snapshots W) (now hangThreshold : Int)

theorem stage3_nodup : (stage3 Rat snapshots now hangThreshold).Nodup := by
  simp only [stage3, stage2, stage1, filterBelowBaseline_eq]
  exact (((List.nodup_finRange W).filter _).filter _).filter _

theorem countOnes_bitmap (width : W ≤ 64) :
    (countOnes (scheduleFromSnapshots Rat snapshots now hangThreshold).bitmap).toNat =
      (stage3 Rat snapshots now hangThreshold).length := by
  have distinct := (stage3_nodup snapshots now hangThreshold).map Fin.val_injective
  have bounded : ∀ j ∈ (stage3 Rat snapshots now hangThreshold).map Fin.val, j < 64 := by
    intro j member
    obtain ⟨worker, _, rfl⟩ := List.mem_map.1 member
    exact worker.isLt.trans_le width
  exact (countOnes_ofPositions distinct bounded).trans (List.length_map ..)

theorem bitmap_eq_zero_iff (width : W ≤ 64) :
    (scheduleFromSnapshots Rat snapshots now hangThreshold).bitmap = 0 ↔
      ∀ i, i ∉ stage1 snapshots now hangThreshold := by
  have emptied : stage3 Rat snapshots now hangThreshold = [] ↔
      ∀ i, i ∉ stage1 snapshots now hangThreshold := by
    rw [stage3, filterBelowBaseline_eq_nil, stage2, filterBelowBaseline_eq_nil,
      List.eq_nil_iff_forall_not_mem]
  rw [← emptied]
  constructor
  · intro zero
    have count := countOnes_bitmap snapshots now hangThreshold width
    rw [zero] at count
    exact List.length_eq_zero_iff.1 (count.symm.trans (by decide))
  · intro none
    simp [scheduleFromSnapshots, none, ofPositions]

theorem never_over_prunes (width : W ≤ 64) :
    let result := scheduleFromSnapshots Rat snapshots now hangThreshold
    ((countOnes result.bitmap).toNat = result.afterStage3 ∧
      result.afterStage3 ≤ result.afterStage2 ∧ result.afterStage2 ≤ result.afterStage1 ∧
      result.afterStage1 ≤ W) ∧
    (result.bitmap = 0 ↔ ∀ i, (snapshots i).lastLoopEntry ≠ 0 ∧
      hangThreshold ≤ now - (snapshots i).lastLoopEntry) ∧
    (∀ i ∈ stage1 snapshots now hangThreshold,
      (∀ j ∈ stage1 snapshots now hangThreshold,
        (snapshots i).accumulatedConns ≤ (snapshots j).accumulatedConns) →
      i ∈ stage2 Rat snapshots now hangThreshold) ∧
    (∀ i ∈ stage2 Rat snapshots now hangThreshold,
      (∀ j ∈ stage2 Rat snapshots now hangThreshold,
        (snapshots i).pendingEvents ≤ (snapshots j).pendingEvents) →
      bit result.bitmap i = true) ∧
    ((∀ i, 0 ≤ (snapshots i).accumulatedConns ∧ 0 ≤ (snapshots i).pendingEvents) →
      result.afterStage1 ≤ 3 * result.afterStage2 ∧
      result.afterStage2 ≤ 3 * result.afterStage3) := by
  intro result
  refine ⟨⟨countOnes_bitmap snapshots now hangThreshold width,
    filterBelowBaseline_length_le .., filterBelowBaseline_length_le .., ?_⟩, ?_, ?_, ?_, ?_⟩
  · have survivors := List.length_filter_le (looksAlive snapshots now hangThreshold)
      (List.finRange W)
    rwa [List.length_finRange] at survivors
  · rw [bitmap_eq_zero_iff snapshots now hangThreshold width]
    simp only [mem_stage1, not_or, not_lt, ne_eq]
  · exact fun i alive least => filterBelowBaseline_of_least alive least
  · intro i candidate least
    exact (bit_bitmap Rat width _ _ _ (i.isLt.trans_le width)).2
      ⟨i, filterBelowBaseline_of_least candidate least, rfl⟩
  · intro nonneg
    exact ⟨filterBelowBaseline_keeps_third fun i _ => (nonneg i).1,
      filterBelowBaseline_keeps_third fun i _ => (nonneg i).2⟩

end Stages

-- Loads that grow with the worker's index.
def unevenSnapshots : Snapshots numWorkers := fun i => ⟨1, i.val, 10 * i.val⟩

theorem never_over_prunes_uneven :
    (scheduleFromSnapshots Rat unevenSnapshots 2 hangThresholdNs).afterStage1 = 4 ∧
    4 ≤ 3 * (scheduleFromSnapshots Rat unevenSnapshots 2 hangThresholdNs).afterStage2 :=
  ⟨by decide, ((never_over_prunes unevenSnapshots 2 hangThresholdNs (by decide)).2.2.2.2
    (by decide)).1⟩

end MicroHermes
