import MicroHermes.Lib.Transition
import MicroHermes.Scheduler
import MicroHermes.Dispatch

set_option autoImplicit false

namespace MicroHermes

open Transition Bitmap

structure Feedback (W : Nat) where
  mSel : UInt64
  -- Passes that are computed and not yet published.
  computed : Fin W → Option ScheduleResult

inductive FeedbackAct (W : Nat) where
  | pass (worker : Fin W) (snapshots : Snapshots W) (now hangThreshold : Int)
  | publish (worker : Fin W) (written : Bool)

namespace Feedback

variable (F : Type) [MetricArith F] {W : Nat}

def initial : Feedback W := { mSel := 0, computed := fun _ => none }

def step (state : Feedback W) : FeedbackAct W → Option (Feedback W)
  | .pass worker snapshots now hangThreshold =>
      let result := scheduleFromSnapshots F snapshots now hangThreshold
      some { state with computed := Function.update state.computed worker (some result) }
  | .publish worker written =>
      (state.computed worker).map fun result =>
        { mSel := if written then result.bitmap else state.mSel
          computed := Function.update state.computed worker none }

def InRange (W : Nat) (bitmap : UInt64) : Prop := ∀ i, W ≤ i → i < 64 → bit bitmap i = false

structure Inv (state : Feedback W) : Prop where
  mSel : InRange W state.mSel
  computed : ∀ worker result, state.computed worker = some result → InRange W result.bitmap

theorem inv_initial : Inv (initial : Feedback W) where
  mSel := by intro i _ _; simp [initial]
  computed := by intro worker result waiting; simp [initial] at waiting

theorem step_inv (width : W ≤ 64) (state : Feedback W) (act : FeedbackAct W) (next : Feedback W)
    (inv : Inv state) (taken : step F state act = some next) : Inv next := by
  cases act with
  | pass worker snapshots now hangThreshold =>
      simp only [step, Option.some.injEq] at taken
      subst taken
      refine ⟨inv.mSel, ?_⟩
      intro other result waiting
      by_cases same : other = worker
      · subst same
        simp only [Function.update_self, Option.some.injEq] at waiting
        subst waiting
        exact fun i above small => bitmap_clear_above F width snapshots now hangThreshold above small
      · exact inv.computed other result (by simpa [Function.update_of_ne same] using waiting)
  | publish worker written =>
      simp only [step, Option.map_eq_some_iff] at taken
      obtain ⟨result, waiting, rfl⟩ := taken
      refine ⟨?_, ?_⟩
      · cases written with
        | false => exact inv.mSel
        | true => exact inv.computed worker result waiting
      · intro other later kept
        by_cases same : other = worker
        · simp [same] at kept
        · exact inv.computed other later (by simpa [Function.update_of_ne same] using kept)

theorem reached_inv (width : W ≤ 64) {state : Feedback W}
    (reached : Steps (step F) initial state) : Inv state :=
  Steps.preserve _ (step_inv F width) reached inv_initial

theorem dispatch_safe (positive : 0 < W) (width : W ≤ 64) {state : Feedback W}
    (reached : Steps (step F) initial state) :
    (∀ i, W ≤ i → i < 64 → bit state.mSel i = false) ∧
    (∀ hash : UInt32, 2 ≤ (countOnes state.mSel).toNat →
      ∃ i, Ebpf.trySelect W (some state.mSel) ⟨ipprotoTcp, hash⟩ = some i ∧
        i < W ∧ bit state.mSel i = true) ∧
    (∀ connHash : UInt64, 2 ≤ (countOnes state.mSel).toNat →
      ∃ i, searchSetBit state.mSel (Sim.reciprocalScale connHash (countOnes state.mSel))
          (List.range W) 0 = some i ∧
        Sim.dispatchHermes W state.mSel connHash = i ∧ i < W ∧ bit state.mSel i = true) ∧
    (∀ hash : UInt32, (countOnes state.mSel).toNat < 2 →
      Ebpf.trySelect W (some state.mSel) ⟨ipprotoTcp, hash⟩ = none) ∧
    (∀ connHash : UInt64, (countOnes state.mSel).toNat < 2 →
      Sim.dispatchHermes W state.mSel connHash = Sim.reuseportHash W connHash) ∧
    (∀ connHash : UInt64, Sim.dispatchHermes W state.mSel connHash < W) := by
  have clear := (reached_inv F width reached).mSel
  refine ⟨clear, ?_, ?_, ?_, ?_, ?_⟩
  · intro hash several
    obtain ⟨i, found, below, set⟩ := findNthSetBit_some width clear hash several
    exact ⟨i, (trySelect_several _ _ several).trans found, below, set⟩
  · intro connHash several
    obtain ⟨i, found, below, set⟩ := findNthSetBit_some width clear connHash.toUInt32 several
    exact ⟨i, found, dispatchHermes_several _ _ several found, below, set⟩
  · exact fun hash few => trySelect_fallback W _ hash few
  · exact fun connHash few => dispatchHermes_fallback W _ connHash few
  · exact fun connHash => dispatchHermes_lt positive (by omega) _ connHash

theorem dispatch_safe_after_publish :
    ∃ state : Feedback numWorkers, state.mSel = 14 ∧
      ∀ connHash, Sim.dispatchHermes numWorkers state.mSel connHash < numWorkers := by
  -- Worker 1 publishes while worker 0's slot is stale: the candidates are 1, 2 and 3.
  have run : ((exec (step Rat) (initial : Feedback numWorkers)
      [.pass 1 (fun i => ⟨if i = 0 then 1 else 300000000, 0, 0⟩) 300000001 hangThresholdNs,
        .publish 1 true]).map fun state => state.mSel) = some 14 := by decide +kernel
  obtain ⟨state, executed, value⟩ := Option.map_eq_some_iff.1 run
  exact ⟨state, value, (dispatch_safe Rat (by decide) (by decide) (exec_steps executed)).2.2.2.2.2⟩

end Feedback

end MicroHermes
