import Mathlib.GroupTheory.Perm.Basic
import MicroHermes.Pruning

set_option autoImplicit false

namespace MicroHermes

open Bitmap

variable {W : Nat}

section Permutation

variable (F : Type) [MetricArith F] (rename : Equiv.Perm (Fin W))

theorem filterBelowBaseline_perm {candidates renamed : List (Fin W)} {metric metric' : Fin W → Int}
    (same : (renamed.map rename).Perm candidates) (values : ∀ i, metric' i = metric (rename i)) :
    ((filterBelowBaseline F renamed metric').map rename).Perm
      (filterBelowBaseline F candidates metric) := by
  have length : renamed.length = candidates.length := by
    rw [← same.length_eq, List.length_map]
  have sum : (renamed.map metric').sum = (candidates.map metric).sum := by
    rw [← (same.map metric).sum_eq, List.map_map, funext values]
    rfl
  have below := same.filter fun i =>
    belowBaseline F (candidates.map metric).sum candidates.length (metric i)
  rw [List.filter_map] at below
  rw [filterBelowBaseline_eq_filter, filterBelowBaseline_eq_filter, sum, length]
  simpa only [Function.comp_def, values] using below

variable (snapshots : Snapshots W) (now hangThreshold : Int)

theorem stage1_perm :
    ((stage1 (snapshots ∘ rename) now hangThreshold).map rename).Perm
      (stage1 snapshots now hangThreshold) := by
  have everyone := (Equiv.Perm.map_finRange_perm rename).filter
    (looksAlive snapshots now hangThreshold)
  rwa [List.filter_map] at everyone

theorem stage2_perm :
    ((stage2 F (snapshots ∘ rename) now hangThreshold).map rename).Perm
      (stage2 F snapshots now hangThreshold) :=
  filterBelowBaseline_perm F rename (stage1_perm rename snapshots now hangThreshold) fun _ => rfl

theorem stage3_perm :
    ((stage3 F (snapshots ∘ rename) now hangThreshold).map rename).Perm
      (stage3 F snapshots now hangThreshold) :=
  filterBelowBaseline_perm F rename (stage2_perm F rename snapshots now hangThreshold) fun _ => rfl

def permuteBits (bitmap : UInt64) : UInt64 :=
  ofPositions (((List.finRange W).filter fun i => bit bitmap (rename i)).map Fin.val)

theorem bit_bitmap_iff (width : W ≤ 64) (i : Fin W) :
    bit (scheduleFromSnapshots F snapshots now hangThreshold).bitmap i = true ↔
      i ∈ stage3 F snapshots now hangThreshold := by
  rw [bit_bitmap F width _ _ _ (i.isLt.trans_le width)]
  exact ⟨fun ⟨_, survives, same⟩ => Fin.ext same ▸ survives, fun survives => ⟨i, survives, rfl⟩⟩

theorem mem_stage3_rename (i : Fin W) :
    i ∈ stage3 F (snapshots ∘ rename) now hangThreshold ↔
      rename i ∈ stage3 F snapshots now hangThreshold := by
  rw [← (stage3_perm F rename snapshots now hangThreshold).mem_iff,
    List.mem_map_of_injective rename.injective]

theorem bitmap_perm (width : W ≤ 64) :
    (scheduleFromSnapshots F (snapshots ∘ rename) now hangThreshold).bitmap =
      permuteBits rename (scheduleFromSnapshots F snapshots now hangThreshold).bitmap := by
  apply eq_of_bits
  intro i small
  have bounded : ∀ j ∈ ((List.finRange W).filter fun i =>
      bit (scheduleFromSnapshots F snapshots now hangThreshold).bitmap (rename i)).map Fin.val,
      j < 64 := by
    intro j member
    obtain ⟨worker, _, rfl⟩ := List.mem_map.1 member
    exact worker.isLt.trans_le width
  rw [Bool.eq_iff_iff, bit_bitmap F width _ _ _ small, permuteBits, bit_ofPositions small bounded,
    List.mem_map]
  simp only [List.mem_filter, List.mem_finRange, true_and, bit_bitmap_iff F _ _ _ width,
    mem_stage3_rename]

end Permutation

section Dominance

variable {candidates : List (Fin W)} {metric : Fin W → Int} {i j : Fin W}

theorem filterBelowBaseline_of_le (kept : i ∈ filterBelowBaseline Rat candidates metric)
    (inside : j ∈ candidates) (less : metric j ≤ metric i) :
    j ∈ filterBelowBaseline Rat candidates metric := by
  obtain ⟨_, below⟩ := (mem_filterBelowBaseline candidates metric i).1 kept
  have order : (metric j : Rat) ≤ metric i := by exact_mod_cast less
  exact (mem_filterBelowBaseline candidates metric j).2 ⟨inside, order.trans_lt below⟩

theorem stage3_of_le {snapshots : Snapshots W} {now hangThreshold : Int}
    (kept : i ∈ stage3 Rat snapshots now hangThreshold)
    (alive : j ∈ stage1 snapshots now hangThreshold)
    (conns : (snapshots j).accumulatedConns ≤ (snapshots i).accumulatedConns)
    (pending : (snapshots j).pendingEvents ≤ (snapshots i).pendingEvents) :
    j ∈ stage3 Rat snapshots now hangThreshold := by
  have second := filterBelowBaseline_subset Rat _ _ kept
  exact filterBelowBaseline_of_le kept (filterBelowBaseline_of_le second alive conns) pending

end Dominance

theorem judged_by_metrics (width : W ≤ 64) (snapshots : Snapshots W) (now hangThreshold : Int) :
    (∀ rename : Equiv.Perm (Fin W),
      let result := scheduleFromSnapshots Rat snapshots now hangThreshold
      let renamed := scheduleFromSnapshots Rat (snapshots ∘ rename) now hangThreshold
      renamed.bitmap = permuteBits rename result.bitmap ∧
      renamed.afterStage1 = result.afterStage1 ∧ renamed.afterStage2 = result.afterStage2 ∧
      renamed.afterStage3 = result.afterStage3) ∧
    (∀ i j : Fin W,
      bit (scheduleFromSnapshots Rat snapshots now hangThreshold).bitmap i = true →
      j ∈ stage1 snapshots now hangThreshold →
      (snapshots j).accumulatedConns ≤ (snapshots i).accumulatedConns →
      (snapshots j).pendingEvents ≤ (snapshots i).pendingEvents →
      bit (scheduleFromSnapshots Rat snapshots now hangThreshold).bitmap j = true) := by
  constructor
  · intro rename result renamed
    have first := (stage1_perm rename snapshots now hangThreshold).length_eq
    have second := (stage2_perm Rat rename snapshots now hangThreshold).length_eq
    have third := (stage3_perm Rat rename snapshots now hangThreshold).length_eq
    rw [List.length_map] at first second third
    exact ⟨bitmap_perm Rat rename snapshots now hangThreshold width, first, second, third⟩
  · intro i j candidate alive conns pending
    rw [bit_bitmap_iff Rat _ _ _ width] at candidate ⊢
    exact stage3_of_le candidate alive conns pending

theorem judged_by_metrics_swapped :
    let rename : Equiv.Perm (Fin numWorkers) := Equiv.swap 0 3
    (scheduleFromSnapshots Rat (unevenSnapshots ∘ rename) 2 hangThresholdNs).bitmap =
      permuteBits rename (scheduleFromSnapshots Rat unevenSnapshots 2 hangThresholdNs).bitmap := by
  intro rename
  exact ((judged_by_metrics (by decide) unevenSnapshots 2 hangThresholdNs).1 rename).1

end MicroHermes
