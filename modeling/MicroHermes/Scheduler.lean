import Mathlib.Algebra.Order.Ring.Rat
import MicroHermes.Lib.Bitmap
import MicroHermes.Wst

set_option autoImplicit false

/-!
# Algorithm 1: the three-stage filter

`hermes/src/scheduler.rs` and `userspace_simulation/src/scheduler.rs` hold the same functions.
-/

namespace MicroHermes

def hangThresholdNs : Int := 200000000

/-- The arithmetic FilterCount computes averages in. The code uses `f64`; results that hold for
every instance do not depend on how it rounds. -/
class MetricArith (F : Type) where
  ofInt : Int → F
  ofNat : Nat → F
  div : F → F → F
  mul : F → F → F
  add : F → F → F
  max : F → F → F
  lt : F → F → Bool
  thetaRatio : F
  thetaMin : F

instance MetricArith.exact : MetricArith Rat where
  ofInt value := value
  ofNat value := value
  div first second := first / second
  mul first second := first * second
  add first second := first + second
  max first second := Max.max first second
  lt first second := decide (first < second)
  thetaRatio := 1 / 2
  thetaMin := 1

variable (F : Type) [MetricArith F] {W : Nat}

def filterBelowBaseline (candidates : List (Fin W)) (metric : Fin W → Int) : List (Fin W) :=
  -- FilterCount: keep the candidates whose metric is below the average plus theta.
  if candidates.isEmpty then []
  else
    let sum := (candidates.map metric).sum
    let avg : F := MetricArith.div (MetricArith.ofInt sum) (MetricArith.ofNat candidates.length)
    let theta := MetricArith.max (MetricArith.mul MetricArith.thetaRatio avg) MetricArith.thetaMin
    let baseline := MetricArith.add avg theta
    candidates.filter fun i => MetricArith.lt (MetricArith.ofInt (metric i)) baseline

def looksAlive (snapshots : Snapshots W) (now hangThreshold : Int) (i : Fin W) : Bool :=
  -- Stage 1: a zero stamp means that the worker has not entered its first loop yet.
  let t := (snapshots i).lastLoopEntry
  decide (t = 0) || decide (now - t < hangThreshold)

structure ScheduleResult where
  bitmap : UInt64
  afterStage1 : Nat
  afterStage2 : Nat
  afterStage3 : Nat
  deriving DecidableEq, Repr

def stage1 (snapshots : Snapshots W) (now hangThreshold : Int) : List (Fin W) :=
  (List.finRange W).filter (looksAlive snapshots now hangThreshold)

def stage2 (snapshots : Snapshots W) (now hangThreshold : Int) : List (Fin W) :=
  filterBelowBaseline F (stage1 snapshots now hangThreshold) fun i =>
    (snapshots i).accumulatedConns

def stage3 (snapshots : Snapshots W) (now hangThreshold : Int) : List (Fin W) :=
  filterBelowBaseline F (stage2 F snapshots now hangThreshold) fun i => (snapshots i).pendingEvents

def scheduleFromSnapshots (snapshots : Snapshots W) (now hangThreshold : Int) : ScheduleResult :=
  let after1 := stage1 snapshots now hangThreshold
  let after2 := stage2 F snapshots now hangThreshold
  let after3 := stage3 F snapshots now hangThreshold
  { bitmap := Bitmap.ofPositions (after3.map Fin.val)
    afterStage1 := after1.length
    afterStage2 := after2.length
    afterStage3 := after3.length }

def belowBaseline (sum : Int) (count : Nat) (value : Int) : Bool :=
  -- Whether a value is below the baseline of `count` candidates whose metrics add up to `sum`.
  let avg : F := MetricArith.div (MetricArith.ofInt sum) (MetricArith.ofNat count)
  let theta := MetricArith.max (MetricArith.mul MetricArith.thetaRatio avg) MetricArith.thetaMin
  MetricArith.lt (MetricArith.ofInt value) (MetricArith.add avg theta)

theorem filterBelowBaseline_eq_filter (candidates : List (Fin W)) (metric : Fin W → Int) :
    filterBelowBaseline F candidates metric =
      candidates.filter fun i =>
        belowBaseline F (candidates.map metric).sum candidates.length (metric i) := by
  unfold filterBelowBaseline
  split
  · next empty => rw [List.isEmpty_iff.1 empty, List.filter_nil]
  · rfl

theorem filterBelowBaseline_subset (candidates : List (Fin W)) (metric : Fin W → Int) :
    filterBelowBaseline F candidates metric ⊆ candidates := by
  rw [filterBelowBaseline_eq_filter]
  exact List.filter_subset_self _

theorem stage3_subset_stage1 (snapshots : Snapshots W) (now hangThreshold : Int) :
    stage3 F snapshots now hangThreshold ⊆ stage1 snapshots now hangThreshold :=
  List.Subset.trans (filterBelowBaseline_subset F _ _) (filterBelowBaseline_subset F _ _)

theorem mem_stage1 (snapshots : Snapshots W) (now hangThreshold : Int) (i : Fin W) :
    i ∈ stage1 snapshots now hangThreshold ↔
      (snapshots i).lastLoopEntry = 0 ∨ now - (snapshots i).lastLoopEntry < hangThreshold := by
  simp [stage1, looksAlive, List.mem_finRange]

theorem bit_bitmap (width : W ≤ 64) (snapshots : Snapshots W) (now hangThreshold : Int)
    {i : Nat} (small : i < 64) :
    Bitmap.bit (scheduleFromSnapshots F snapshots now hangThreshold).bitmap i = true ↔
      ∃ worker ∈ stage3 F snapshots now hangThreshold, worker.val = i := by
  have bounded : ∀ j ∈ (stage3 F snapshots now hangThreshold).map Fin.val, j < 64 := by
    intro j member
    obtain ⟨worker, _, rfl⟩ := List.mem_map.1 member
    exact worker.isLt.trans_le width
  simp [scheduleFromSnapshots, Bitmap.bit_ofPositions small bounded]

/-- The result says how many of the workers in `alive` each FilterCount stage keeps, and its bitmap
names those that the second one keeps. -/
structure ScheduleResult.Keeps (alive : List (Fin W)) (taken : Snapshots W)
    (result : ScheduleResult) : Prop where
  first : result.afterStage1 = alive.length
  second : result.afterStage2 =
    (filterBelowBaseline F alive fun i => (taken i).accumulatedConns).length
  third : result.afterStage3 =
    (filterBelowBaseline F (filterBelowBaseline F alive fun i => (taken i).accumulatedConns)
      fun i => (taken i).pendingEvents).length
  named : ∀ i, i < 64 → (Bitmap.bit result.bitmap i = true ↔
    ∃ worker ∈ filterBelowBaseline F (filterBelowBaseline F alive
      fun i => (taken i).accumulatedConns) fun i => (taken i).pendingEvents, worker.val = i)

theorem scheduleFromSnapshots_keeps (width : W ≤ 64) (snapshots : Snapshots W)
    (now hangThreshold : Int) :
    (scheduleFromSnapshots F snapshots now hangThreshold).Keeps F
      (stage1 snapshots now hangThreshold) snapshots where
  first := rfl
  second := rfl
  third := rfl
  named _ small := bit_bitmap F width snapshots now hangThreshold small

theorem bitmap_clear_above (width : W ≤ 64) (snapshots : Snapshots W) (now hangThreshold : Int)
    {i : Nat} (above : W ≤ i) (small : i < 64) :
    Bitmap.bit (scheduleFromSnapshots F snapshots now hangThreshold).bitmap i = false := by
  rw [Bool.eq_false_iff, ne_eq, bit_bitmap F width _ _ _ small]
  rintro ⟨worker, _, rfl⟩
  exact absurd worker.isLt (by omega)

theorem bitmap_clear_of_hung (width : W ≤ 64) (snapshots : Snapshots W) (now hangThreshold : Int)
    {worker : Fin W} (hung : worker ∉ stage1 snapshots now hangThreshold) :
    Bitmap.bit (scheduleFromSnapshots F snapshots now hangThreshold).bitmap worker = false := by
  rw [Bool.eq_false_iff, ne_eq, bit_bitmap F width _ _ _ (worker.isLt.trans_le width)]
  rintro ⟨other, survives, same⟩
  exact hung (Fin.ext same ▸ stage3_subset_stage1 F _ _ _ survives)

end MicroHermes
