import MicroHermes.Collected

set_option autoImplicit false

namespace MicroHermes

open Transition Bitmap

variable {W : Nat}

structure ScheduleResult.Sound (result : ScheduleResult) : Prop where
  alive : 0 < result.afterStage1
  conns : result.afterStage1 ≤ 3 * result.afterStage2
  pending : result.afterStage2 ≤ 3 * result.afterStage3
  counted : (countOnes result.bitmap).toNat = result.afterStage3

theorem ScheduleResult.Sound.nonempty {result : ScheduleResult} (sound : result.Sound) :
    result.bitmap ≠ 0 := by
  intro empty
  have alive := sound.alive
  have conns := sound.conns
  have pending := sound.pending
  have counted := sound.counted
  rw [empty] at counted
  have none : (countOnes 0).toNat = 0 := by decide
  omega

def alive (now stamp : Int) : Prop := stamp = 0 ∨ now - stamp < hangThresholdNs

def PromptValue (p : Fin W) (now : Int) (i : Fin W) (field : Field) (value : Int) : Prop :=
  match field with
  | .lastLoopEntry => i = p → alive now value
  | .pendingEvents | .accumulatedConns => 0 ≤ value

theorem sound_of_prompt {p : Fin W} {now : Int} {taken : Snapshots W} (width : W ≤ 64)
    (values : ∀ i field, PromptValue p now i field ((taken i).get field)) :
    (scheduleFromSnapshots Rat taken now hangThresholdNs).Sound where
  alive := by
    have inside : p ∈ stage1 taken now hangThresholdNs :=
      (mem_stage1 ..).2 (values p .lastLoopEntry rfl)
    exact List.length_pos_of_mem inside
  conns := filterBelowBaseline_keeps_third fun i _ => values i .accumulatedConns
  pending := filterBelowBaseline_keeps_third fun i _ => values i .pendingEvents
  counted := countOnes_bitmap taken now hangThresholdNs width

namespace Timing

variable {state next final : Timing W} {label : TimedMove W}

def Counted (state : Timing W) : Prop :=
  ∀ i, 0 ≤ (state.wst i).accumulatedConns ∧ 0 ≤ (state.wst i).pendingEvents

def prompt (state : Timing W) : TimedMove W → Prop
  -- A pass starts while the worker's own stamp is younger than the threshold.
  | .start p now => alive now (state.stampOf p)
  | _ => True

structure Prompt (state : Timing W) : Prop where
  own : ∀ p, ∀ now ∈ (state.pass p).reading, alive now (state.stampOf p)
  took : ∀ p, (state.pass p).Took Rat (PromptValue p)

theorem Prompt.step (holds : Prompt state) (inv : Inv Rat state) (counted : Counted state)
    (starts : prompt state label) (moved : step Rat state label = some next) : Prompt next where
  own p now read := by
    have later := step_latest moved
    have readings := inv.readings p
    have own := holds.own p
    have pass := step_pass moved p
    have onward (before : now ∈ (state.pass p).reading) : alive now (next.stampOf p) := by
      rcases step_stamp moved p with same | ⟨_, stamped, _⟩
      · rw [same]
        exact own now before
      · have past := readings now before
        simp only [alive, hangThresholdNs]
        omega
    generalize state.pass p = old at pass onward
    generalize next.pass p = new at pass read
    cases pass with
    | kept => exact onward read
    | started _ begins =>
        simp only [Pass.reading, Option.mem_def, Option.some.injEq] at read
        subst read begins
        rcases step_stamp moved p with same | ⟨other, _⟩
        · rw [same]
          exact starts
        · cases other
    | loaded | computed => exact onward read
    | published => simp [Pass.reading] at read
  took p := by
    refine (step_pass moved p).took (holds.took p) (fun _ _ _ _ => id) fun now read i field => ?_
    cases field with
    | lastLoopEntry =>
        rintro rfl
        exact holds.own i now read
    | pendingEvents => exact (counted i).2
    | accumulatedConns => exact (counted i).1

theorem Prompt.sound (holds : Prompt state) (width : W ≤ 64) {p : Fin W} {now : Int}
    {result : ScheduleResult} (waiting : state.pass p = .computed now result) : result.Sound := by
  have took := holds.took p
  rw [waiting] at took
  obtain ⟨taken, rfl, values⟩ := took
  exact sound_of_prompt width values

theorem Prompt.publish (holds : Prompt state) (width : W ≤ 64) {p : Fin W}
    (moved : Timing.step Rat state (.publish p true) = some next) : next.mSel ≠ 0 := by
  cases step_cases moved with
  | publish _ _ now result waiting => exact (holds.sound width waiting).nonempty

theorem Prompt.mSel (holds : Prompt state) (width : W ≤ 64) (named : state.mSel ≠ 0)
    (moved : Timing.step Rat state label = some next) : next.mSel ≠ 0 := by
  rcases step_mSel moved with kept | ⟨p, now, result, waiting, published⟩
  · rw [kept]
    exact named
  · rw [published]
    exact (holds.sound width waiting).nonempty

theorem prompt_of_steps (width : W ≤ 64) (inv : Inv Rat state) (holds : Prompt state)
    (steps : StepsIf (step Rat) (fun state label => Counted state ∧ prompt state label)
      state final) : Prompt final :=
  (StepsIf.preserve (fun state => Inv Rat state ∧ Prompt state)
    (fun _ _ _ holds allowed moved =>
      ⟨step_inv width holds.1 moved, holds.2.step holds.1 allowed.1 allowed.2 moved⟩)
    steps ⟨inv, holds⟩).2

end Timing

end MicroHermes
