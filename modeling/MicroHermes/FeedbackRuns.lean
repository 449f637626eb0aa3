import MicroHermes.Feedback
import MicroHermes.Server.HangDetection
import MicroHermes.Sim.HangIsolation

set_option autoImplicit false

namespace MicroHermes

open Transition Bitmap

variable {W : Nat}

namespace Feedback

variable {F : Type} [MetricArith F]

structure Runs (mSel : UInt64) (waiting : Fin W → Option ScheduleResult) (loop : Feedback W) :
    Prop where
  mSel : loop.mSel = mSel
  waiting : ∀ i result, waiting i = some result → loop.computed i = some result

variable {mSel mSel' : UInt64} {waiting waiting' : Fin W → Option ScheduleResult}
  {loop : Feedback W} {i : Fin W} {result : ScheduleResult}

theorem Runs.kept (runs : Runs mSel waiting loop) (same : mSel' = mSel)
    (fewer : ∀ i result, waiting' i = some result → waiting i = some result) :
    Runs mSel' waiting' loop where
  mSel := runs.mSel.trans same.symm
  waiting i result waits := runs.waiting i result (fewer i result waits)

theorem Runs.pass (runs : Runs mSel waiting loop) (snapshots : Snapshots W)
    (now hangThreshold : Int) (same : mSel' = mSel)
    (own : waiting' i = some (scheduleFromSnapshots F snapshots now hangThreshold))
    (others : ∀ j, j ≠ i → waiting' j = waiting j) :
    ∃ after, Steps (step F) loop after ∧ Runs mSel' waiting' after := by
  refine ⟨_, .single ⟨.pass i snapshots now hangThreshold, trivial, rfl⟩,
    runs.mSel.trans same.symm, fun j result waits => ?_⟩
  by_cases self : j = i
  · subst self
    rw [own] at waits
    simpa using waits
  · rw [others j self] at waits
    simpa [self] using runs.waiting j result waits

theorem Runs.publish (runs : Runs mSel waiting loop) (written : Bool)
    (before : waiting i = some result) (own : waiting' i = none)
    (others : ∀ j, j ≠ i → waiting' j = waiting j)
    (stored : mSel' = if written then result.bitmap else mSel) :
    ∃ after, Steps (step F) loop after ∧ Runs mSel' waiting' after := by
  have taken : step F loop (.publish i written) =
      some { mSel := if written then result.bitmap else loop.mSel
             computed := Function.update loop.computed i none } := by
    simp [step, runs.waiting i result before]
  refine ⟨_, .single ⟨.publish i written, trivial, taken⟩, ?_, fun j result waits => ?_⟩
  · rw [stored, runs.mSel]
  · by_cases self : j = i
    · rw [self, own] at waits
      cases waits
    · rw [others j self] at waits
      simpa [self] using runs.waiting j result waits

end Feedback

namespace Server

variable {F : Type} [MetricArith F] {cfg : Config W} {start : Fin W → Int} {host next : Host W}

def Host.feeds (host : Host W) (loop : Feedback W) : Prop :=
  Feedback.Runs host.shared.mSel (fun i => (host.workers i).pc.result) loop

theorem Pc.result_of_pass {pc : Pc W} (idle : ∀ reading, pc.pass reading = .idle) :
    pc.result = none := by
  cases pc with
  | publish result => cases idle 0
  | _ => rfl

theorem Host.feeds_step {loop : Feedback W} {act : Act W} (feeds : host.feeds loop)
    (taken : Host.step F cfg host act = some next) :
    ∃ after, Steps (Feedback.step F) loop after ∧ next.feeds after := by
  cases act with
  | outside i event =>
      simp only [Host.step, Option.some.injEq] at taken
      exact ⟨loop, .refl, taken ▸ feeds⟩
  | worker i sys =>
      obtain ⟨op, w, moved, rfl⟩ := Host.step_worker taken
      have others : ∀ j, j ≠ i →
          ((Function.update host.workers i w j).pc.result) = (host.workers j).pc.result := by
        intro j other
        rw [Function.update_of_ne other]
      have silent (none : w.pc.result = none) (sel : op.onSel host.shared.mSel = host.shared.mSel) :
          ∃ after, Steps (Feedback.step F) loop after ∧
            Host.feeds ⟨host.shared.apply i op, Function.update host.workers i w⟩ after := by
        refine ⟨loop, .refl, Feedback.Runs.kept feeds sel fun j result waits => ?_⟩
        by_cases self : j = i
        · subst self
          simp [none] at waits
        · simpa [self] using waits
      have pass := moved.pass
      generalize here : (host.workers i).pc = pc at pass
      generalize after : w.pc = pc' at pass
      cases pass with
      | stamp | start | load => exact silent (by rw [after]; rfl) rfl
      | compute now snap =>
          exact Feedback.Runs.pass feeds snap.taken now hangThresholdNs rfl
            (by simp [after, Pc.result]) others
      | publish result =>
          exact Feedback.Runs.publish feeds true (by rw [here]; rfl)
            (by simp [after, Pc.result]) others rfl
      | publishFailed result =>
          exact Feedback.Runs.publish feeds false (by rw [here]; rfl)
            (by simp [after, Pc.result]) others rfl
      | work _ _ _ _ idle _ sel =>
          exact silent (by rw [after]; exact Pc.result_of_pass idle) (sel _)

theorem Host.refines_feedback (reached : Steps (Host.step F cfg) (Host.initial cfg start) host) :
    ∃ loop : Feedback W, Steps (Feedback.step F) Feedback.initial loop ∧
      loop.mSel = host.shared.mSel := by
  have first : Host.feeds (Host.initial cfg start) Feedback.initial := ⟨rfl, nofun⟩
  obtain ⟨loop, steps, feeds⟩ := Steps.simulate Host.feeds
    (fun _ _ _ _ feeds taken => Host.feeds_step feeds taken) reached first
  exact ⟨loop, steps, feeds.mSel⟩

end Server

namespace Sim

variable {F : Type} [MetricArith F] {policy : Policy} {cfg : WorkloadConfig} {seed : UInt64}
  {genStart : Int} {starts : Fin W → Int} {state next : SimState W}

def Pc.result : Pc W → Option ScheduleResult
  | .publish result => some result
  | _ => none

def SimState.feeds (state : SimState W) (loop : Feedback W) : Prop :=
  Feedback.Runs state.shared.msel (fun i => (state.workers i).pc.result) loop

theorem Pc.result_of_pass {pc : Pc W} (idle : ∀ reading, pc.pass reading = .idle) :
    pc.result = none := by
  cases pc with
  | publish result => cases idle 0
  | _ => rfl

theorem SimState.feeds_step {loop : Feedback W} {act : Act W} (feeds : state.feeds loop)
    (taken : step F policy cfg seed state act = some next) :
    ∃ after, Steps (Feedback.step F) loop after ∧ next.feeds after := by
  cases act with
  | gen label =>
      obtain ⟨sent, workers⟩ := step_gen taken
      refine ⟨loop, .refl, Feedback.Runs.kept feeds sent.msel fun i result waits => ?_⟩
      rwa [workers] at waits
  | worker i label =>
      obtain ⟨op, moved, shared, _, workers⟩ := step_worker taken
      have others : ∀ j, j ≠ i → (next.workers j).pc.result = (state.workers j).pc.result :=
        fun j other => by rw [workers j other]
      have msel : next.shared.msel = op.onSel state.shared.msel := by rw [shared]; rfl
      have silent (none : (next.workers i).pc.result = none)
          (sel : op.onSel state.shared.msel = state.shared.msel) :
          ∃ after, Steps (Feedback.step F) loop after ∧ next.feeds after := by
        refine ⟨loop, .refl, Feedback.Runs.kept feeds (msel.trans sel) fun j result waits => ?_⟩
        by_cases self : j = i
        · rw [self, none] at waits
          cases waits
        · rwa [others j self] at waits
      have pass := moved.pass
      generalize here : (state.workers i).pc = pc at pass
      generalize after : (next.workers i).pc = pc' at pass
      cases pass with
      | stamp | start | load => exact silent (by rw [after]; rfl) rfl
      | compute now snap =>
          exact Feedback.Runs.pass feeds snap.taken now hangThresholdNs msel
            (by rw [after]; rfl) others
      | publish result =>
          exact Feedback.Runs.publish feeds true (by rw [here]; rfl) (by rw [after]; rfl) others
            msel
      | work _ _ _ idle _ sel =>
          exact silent (by rw [after]; exact Pc.result_of_pass idle) (sel _)

theorem SimState.refines_feedback
    (reached : Steps (step F policy cfg seed) (initial cfg genStart starts) state) :
    ∃ loop : Feedback W, Steps (Feedback.step F) Feedback.initial loop ∧
      loop.mSel = state.shared.msel := by
  have first : (initial cfg genStart starts).feeds (Feedback.initial : Feedback W) := ⟨rfl, nofun⟩
  obtain ⟨loop, steps, feeds⟩ := Steps.simulate SimState.feeds
    (fun _ _ _ _ feeds taken => SimState.feeds_step feeds taken) reached first
  exact ⟨loop, steps, feeds.mSel⟩

end Sim

theorem programs_refine_feedback (F : Type) [MetricArith F] (width : W ≤ 64)
    (mSel : UInt64)
    (reached : (∃ (cfg : Server.Config W) (start : Fin W → Int) (host : Server.Host W),
        Steps (Server.Host.step F cfg) (Server.Host.initial cfg start) host ∧
          host.shared.mSel = mSel) ∨
      ∃ (policy : Sim.Policy) (cfg : Sim.WorkloadConfig) (seed : UInt64) (genStart : Int)
        (starts : Fin W → Int) (state : Sim.SimState W),
        Steps (Sim.step F policy cfg seed) (Sim.initial cfg genStart starts) state ∧
          state.shared.msel = mSel) :
    (∃ loop : Feedback W, Steps (Feedback.step F) Feedback.initial loop ∧ loop.mSel = mSel) ∧
    (∀ i, W ≤ i → i < 64 → bit mSel i = false) ∧
    (2 ≤ (countOnes mSel).toNat → ∀ connHash : UInt64, ∃ i : Fin W, bit mSel i = true ∧
      Ebpf.trySelect W (some mSel) ⟨ipprotoTcp, connHash.toUInt32⟩ = some i.val ∧
      Sim.dispatchHermes W mSel connHash = i.val) := by
  have refined : ∃ loop : Feedback W, Steps (Feedback.step F) Feedback.initial loop ∧
      loop.mSel = mSel := by
    rcases reached with ⟨cfg, start, host, steps, rfl⟩ |
      ⟨policy, cfg, seed, genStart, starts, state, steps, rfl⟩
    · exact Server.Host.refines_feedback steps
    · exact Sim.SimState.refines_feedback steps
  obtain ⟨loop, steps, rfl⟩ := refined
  have named := (Feedback.reached_inv F width steps).mSel
  refine ⟨⟨loop, steps, rfl⟩, named, fun several connHash => ?_⟩
  obtain ⟨i, found, below, set⟩ := findNthSetBit_some width named connHash.toUInt32 several
  exact ⟨⟨i, below⟩, set, (trySelect_several _ _ several).trans found,
    dispatchHermes_several _ _ several found⟩

theorem programs_refine_feedback_third :
    ∃ loop : Feedback 3, Steps (Feedback.step Rat) Feedback.initial loop ∧ loop.mSel = 3 := by
  have ran : ((exec (Sim.step Rat .hermes Sim.plainTraffic 0)
      (Sim.initial Sim.plainTraffic 0 fun _ => 0)
      (Sim.untilPass 2 0 ++ Sim.passAt 0 205000000 ++ [.worker 0 .internal])).map
        fun state => state.shared.msel) = some 3 := by decide +kernel
  obtain ⟨state, run, names⟩ := Option.map_eq_some_iff.1 ran
  exact (programs_refine_feedback Rat (by decide) 3 (.inr ⟨.hermes, Sim.plainTraffic, 0, 0,
    fun _ => 0, state, exec_steps run, names⟩)).1

end MicroHermes
