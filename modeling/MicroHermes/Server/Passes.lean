import MicroHermes.Prompt
import MicroHermes.Server.Readmission

set_option autoImplicit false

namespace MicroHermes.Server

open Transition Bitmap

variable {W : Nat} {F : Type} [MetricArith F] {cfg : Config W} {start : Fin W → Int}

section Provenance

variable (F) (cfg) (start)

-- The state that a run from the start reaches.
def runTo (acts : List (Act W)) : Option (Host W × Clock W) :=
  exec (timed F cfg) (Host.initial cfg start, Clock.initial) acts

/-- The pass that worker `p` begins after `began` by reading `now`, when `loading` has followed: each
value it has is the one it found in the slot at a step of its own in between. -/
structure Loading (p : Fin W) (now : Int) (began loading : List (Act W)) (snap : SnapshotPc W) :
    Prop where
  scheduling : ∃ before, runTo F cfg start began = some before ∧
    (before.1.workers p).pc = .scheduleNow
  only : ∀ sys, .worker p sys ∈ loading → sys = .internal
  loads : ∀ i field, snap.has i field → ∃ seen rest middle earlier,
    loading = seen ++ .worker p .internal :: rest ∧
    runTo F cfg start (began ++ .worker p (.clock now) :: seen) = some middle ∧
    (middle.1.workers p).pc = .snapshot now earlier ∧
    earlier.cursor = 3 * i.val + field.position ∧
    (middle.1.shared.wst i).get field = (snap.taken i).get field

/-- The pass has loaded the whole table after `loading`, and `result` is what it makes of it. -/
def Computed (p : Fin W) (now : Int) (began loading waiting : List (Act W))
    (result : ScheduleResult) : Prop :=
  ∃ loaded snap, Loading F cfg start p now began loading snap ∧
    runTo F cfg start (began ++ .worker p (.clock now) :: loading) = some loaded ∧
    (loaded.1.workers p).pc = .snapshot now snap ∧ snap.finished = true ∧
    (∀ sys, .worker p sys ∈ waiting → sys = .internal) ∧
    result = scheduleFromSnapshots F snap.taken now hangThresholdNs

def OnPass (acts : List (Act W)) (p : Fin W) : Pc W → Prop
  | .snapshot now snap => ∃ began loading,
      acts = began ++ .worker p (.clock now) :: loading ∧ Loading F cfg start p now began loading snap
  | .publish result => ∃ now began loading waiting,
      acts = began ++ .worker p (.clock now) :: (loading ++ waiting) ∧
        Computed F cfg start p now began loading waiting result
  | _ => True

/-- The last publish of the run `acts` is by a pass that computed `mSel`. -/
def Published (acts : List (Act W)) (mSel : UInt64) : Prop :=
  mSel = 0 ∧ (∀ p, .worker p (.mapSet true) ∉ acts) ∨
  ∃ p now began loading waiting later result,
    acts = began ++ .worker p (.clock now) :: (loading ++ waiting) ++
      .worker p (.mapSet true) :: later ∧
    Computed F cfg start p now began loading waiting result ∧ mSel = result.bitmap ∧
    ∀ q, .worker q (.mapSet true) ∉ later

variable {F} {cfg} {start} {acts began loading waiting : List (Act W)} {act : Act W}
  {state next : Host W × Clock W} {p : Fin W} {now : Int} {snap : SnapshotPc W}
  {result : ScheduleResult} {mSel : UInt64}

theorem only_snoc {own : List (Act W)} (only : ∀ sys, .worker p sys ∈ own → sys = .internal)
    (fits : ∀ sys, act = .worker p sys → sys = .internal) :
    ∀ sys, .worker p sys ∈ own ++ [act] → sys = .internal := by
  intro sys member
  rcases List.mem_append.1 member with before | last
  · exact only sys before
  · exact fits sys (List.mem_singleton.1 last).symm

theorem Loading.snoc (pass : Loading F cfg start p now began loading snap)
    (fits : ∀ sys, act = .worker p sys → sys = .internal) :
    Loading F cfg start p now began (loading ++ [act]) snap where
  scheduling := pass.scheduling
  only := only_snoc pass.only fits
  loads i field has := by
    obtain ⟨seen, rest, middle, earlier, rfl, found⟩ := pass.loads i field has
    exact ⟨seen, rest ++ [act], middle, earlier, by simp, found⟩

theorem Loading.load (pass : Loading F cfg start p now began loading snap)
    (ran : runTo F cfg start (began ++ .worker p (.clock now) :: loading) = some state)
    (position : (state.1.workers p).pc = .snapshot now snap) :
    Loading F cfg start p now began (loading ++ [.worker p .internal])
      (snap.step state.1.shared.wst) where
  scheduling := pass.scheduling
  only := only_snoc pass.only fun sys same => by cases same; rfl
  loads i field has := by
    rcases SnapshotPc.has_step state.1.shared.wst snap i field has with ⟨here, value⟩ | ⟨has, kept⟩
    · exact ⟨loading, [], state, snap, rfl, ran, position, here, value.symm⟩
    · rw [kept]
      exact (pass.snoc fun sys same => by cases same; rfl).loads i field has

theorem OnPass.other {pc : Pc W} (onPass : OnPass F cfg start acts p pc)
    (other : ∀ sys, act ≠ .worker p sys) : OnPass F cfg start (acts ++ [act]) p pc := by
  have fits (sys : Sys) (same : act = .worker p sys) : sys = .internal := absurd same (other sys)
  cases pc with
  | snapshot now snap =>
      obtain ⟨began, loading, rfl, pass⟩ := onPass
      exact ⟨began, loading ++ [act], by simp, pass.snoc fits⟩
  | publish result =>
      obtain ⟨now, began, loading, waiting, rfl, loaded, snap, pass, ran, position, finished, only,
        computed⟩ := onPass
      exact ⟨now, began, loading, waiting ++ [act], by simp, loaded, snap, pass, ran, position,
        finished, only_snoc only fits, computed⟩
  | _ => trivial

theorem OnPass.own {sys : Sys} {op : MemOp} {pc : Pc W}
    (onPass : OnPass F cfg start acts p (state.1.workers p).pc)
    (ran : runTo F cfg start acts = some state)
    (moved : PassMoves F state.1.shared.wst (state.1.workers p).pc sys op pc) :
    OnPass F cfg start (acts ++ [.worker p sys]) p pc := by
  generalize here : (state.1.workers p).pc = old at onPass moved
  cases moved with
  | start now =>
      exact ⟨acts, [], rfl, ⟨state, ran, here⟩, by simp, fun i field has =>
        absurd has (SnapshotPc.not_has_start i field)⟩
  | load now snap =>
      obtain ⟨began, loading, rfl, pass⟩ := onPass
      exact ⟨began, loading ++ [.worker p .internal], by simp, pass.load ran here⟩
  | compute now snap finished =>
      obtain ⟨began, loading, rfl, pass⟩ := onPass
      exact ⟨now, began, loading, [.worker p .internal], by simp, state, snap, pass, ran, here,
        finished, by simp, rfl⟩
  | stamp | publish | publishFailed => trivial
  | work _ _ _ _ after =>
      have outside := after 0
      cases pc with
      | snapshot _ _ | publish _ => cases outside
      | _ => trivial

theorem Published.snoc (published : Published F cfg start acts mSel)
    (silent : ∀ p, act ≠ .worker p (.mapSet true)) :
    Published F cfg start (acts ++ [act]) mSel := by
  have still {own : List (Act W)} (never : ∀ p, .worker p (.mapSet true) ∉ own) (p : Fin W) :
      .worker p (.mapSet true) ∉ own ++ [act] := by
    intro member
    rcases List.mem_append.1 member with before | last
    · exact never p before
    · exact silent p (List.mem_singleton.1 last).symm
  rcases published with ⟨empty, never⟩ |
    ⟨p, now, began, loading, waiting, later, result, rfl, computed, shown, never⟩
  · exact .inl ⟨empty, still never⟩
  · exact .inr ⟨p, now, began, loading, waiting, later ++ [act], result, by simp, computed, shown,
      still never⟩

theorem provenance_step (ran : runTo F cfg start acts = some state)
    (onPass : ∀ p, OnPass F cfg start acts p (state.1.workers p).pc)
    (published : Published F cfg start acts state.1.shared.mSel)
    (taken : timed F cfg state act = some next) :
    (∀ p, OnPass F cfg start (acts ++ [act]) p (next.1.workers p).pc) ∧
      Published F cfg start (acts ++ [act]) next.1.shared.mSel := by
  obtain ⟨hostTaken, _⟩ := (product_eq_some ..).1 taken
  cases act with
  | outside i event =>
      simp only [Host.step, Option.some.injEq] at hostTaken
      rw [← hostTaken]
      exact ⟨fun p => (onPass p).other (by simp), published.snoc (by simp)⟩
  | worker i sys =>
      obtain ⟨op, w, moved, hostNext⟩ := Host.step_worker hostTaken
      have pass := moved.pass
      have own := onPass i
      rw [hostNext]
      refine ⟨fun p => ?_, ?_⟩
      · by_cases same : p = i
        · subst same
          simpa using own.own ran pass
        · simp only [Function.update_of_ne same]
          refine (onPass p).other fun _ acting => ?_
          cases acting
          exact same rfl
      · generalize (state.1.workers i).pc = old at pass own
        generalize w.pc = pc at pass
        cases pass with
        | publish result =>
            obtain ⟨now, began, loading, waiting, rfl, computed⟩ := own
            exact .inr ⟨i, now, began, loading, waiting, [], result, by simp, computed, rfl, by simp⟩
        | work _ _ noPublish _ _ _ sel =>
            have kept : (state.1.shared.apply i op).mSel = state.1.shared.mSel := sel _
            rw [kept]
            refine published.snoc fun p acting => ?_
            cases acting
            exact noPublish rfl
        | stamp | start | load | compute | publishFailed => exact published.snoc (by simp)

theorem Host.mSel_from_pass (run : runTo F cfg start acts = some state) :
    Published F cfg start acts state.1.shared.mSel := by
  refine (exec_induct (fun acts (state : Host W × Clock W) =>
    (∀ p, OnPass F cfg start acts p (state.1.workers p).pc) ∧
      Published F cfg start acts state.1.shared.mSel) ?_ ?_ run).2
  · exact ⟨fun p => trivial, .inl ⟨rfl, by simp⟩⟩
  · intro earlier act before next ran inv taken
    exact provenance_step ran inv.1 inv.2 taken

theorem Host.mSel_from_pass_waiting :
    ∃ (acts : List (Act 2)) (state : Host 2 × Clock 2),
      runTo Rat pairConfig (fun _ => 0) acts = some state ∧ state.1.shared.mSel = 3 ∧
        Published Rat pairConfig (fun _ => 0) acts 3 := by
  obtain ⟨state, published, after, run⟩ := waitingRun
  have reached := (Relation.ReflTransGen.trans run.reached run.idle.forget).tail
    ⟨_, trivial, run.publish⟩
  obtain ⟨acts, ran⟩ := StepsIf.exec (steps_timed reached)
  have published := Host.mSel_from_pass ran
  rw [run.names] at published
  exact ⟨acts, after.1, ran, run.names, published⟩

end Provenance

section Prompt

variable {state after final : (Host W × Clock W) × (Fin W → FdTable)}

def promptly (state : Host W × Clock W) : Act W → Bool
  -- No pass starts when the worker's own stamp is as old as the threshold.
  | .worker p (.clock now) =>
      !(state.1.workers p).pc.atSchedule || decide ((state.1.shared.wst p).lastLoopEntry = 0 ∨
        now - (state.1.shared.wst p).lastLoopEntry < hangThresholdNs)
  | _ => true

theorem prompt_of_promptly {state : Host W × Clock W} {act : Act W} {move : TimedMove W}
    (starts : promptly state act = true) (source : ComesFrom state act move) :
    Timing.prompt (timing state) move := by
  cases move with
  | start p now =>
      obtain ⟨rfl, here⟩ := source
      have young : (state.1.shared.wst p).lastLoopEntry = 0 ∨
          now - (state.1.shared.wst p).lastLoopEntry < hangThresholdNs := by
        simpa [promptly, here, Pc.atSchedule] using starts
      exact young
  | _ => trivial

theorem prompt_of_steps (width : W ≤ 64)
    (steps : StepsIf (accountedTimed Rat cfg) (fun now act => promptly now.1 act = true)
      (accountedStart cfg start) state) :
    Timing.Prompt (timing state.1) := by
  have permitted : StepsIf (timed Rat cfg)
      (fun now act => Timing.Counted (timing now) ∧ promptly now act = true)
      (accountedStart cfg start).1 state.1 :=
    timed_of_steps (fun _ _ known starts => ⟨counters_nonneg known, starts⟩) .refl steps
  have first : Steps (timed Rat cfg) (Host.initial cfg start, Clock.initial)
      (Host.initial cfg start, Clock.initial) := .refl
  obtain ⟨kept, inv⟩ := timing_inv width first
  have refined := (timing_refines
    (fun now move => Timing.Counted now ∧ Timing.prompt now move)
    (fun _ _ _ allowed source => ⟨allowed.1, prompt_of_promptly allowed.2 source⟩)
    permitted kept).2
  refine Timing.prompt_of_steps width inv ?_ refined
  constructor
  · intro p now read
    simp [timing, Host.initial, Worker.initial, Pc.pass, Pass.reading] at read
  · intro p
    trivial

theorem computed_of_pc {state : Host W × Clock W} {p : Fin W} {result : ScheduleResult}
    (position : (state.1.workers p).pc = .publish result) :
    (timing state).pass p = .computed (state.2.lastOf p) result := by
  simp [timing, position, Pc.pass]

section Tables

variable {allowed : (Host W × Clock W) × (Fin W → FdTable) → Act W → Prop} {p : Fin W} {now : Int}
  {snap : SnapshotPc W} {result : ScheduleResult} {act : Act W}

variable (F) (cfg) (start) (allowed) in
/-- On the way to `state` worker `p` has loaded the whole table in the pass it is still in. -/
structure HasLoaded (p : Fin W) (now : Int) (snap : SnapshotPc W)
    (state : (Host W × Clock W) × (Fin W → FdTable)) : Prop where
  finished : snap.finished = true
  loaded : ∃ loaded, StepsIf (accountedTimed F cfg) allowed (accountedStart cfg start) loaded ∧
    (loaded.1.1.workers p).pc = .snapshot now snap ∧
    StepsIf (accountedTimed F cfg) (fun now act => allowed now act ∧ begins p now.1 act = false)
      loaded state

theorem HasLoaded.tail (has : HasLoaded F cfg start allowed p now snap state)
    (permitted : allowed state act) (silent : begins p state.1 act = false)
    (taken : accountedTimed F cfg state act = some after) :
    HasLoaded F cfg start allowed p now snap after := by
  obtain ⟨finished, loaded, reached, position, onward⟩ := has
  exact ⟨finished, loaded, reached, position, onward.tail ⟨act, ⟨permitted, silent⟩, taken⟩⟩

theorem hasLoaded_of_publish
    (steps : StepsIf (accountedTimed F cfg) allowed (accountedStart cfg start) state)
    (position : (state.1.1.workers p).pc = .publish result) :
    ∃ now snap, HasLoaded F cfg start allowed p now snap state ∧
      result = scheduleFromSnapshots F snap.taken now hangThresholdNs := by
  induction steps with
  | refl => simp [Host.initial, Worker.initial] at position
  | @tail middle last earlier lastStep ih =>
      obtain ⟨act, permitted, taken⟩ := lastStep
      obtain ⟨hostTaken, _⟩ := (product_eq_some ..).1 ((product_eq_some ..).1 taken).1
      cases act with
      | outside i event =>
          simp only [Host.step, Option.some.injEq] at hostTaken
          obtain ⟨now, snap, has, computed⟩ := ih (by rw [hostTaken]; exact position)
          exact ⟨now, snap, has.tail permitted rfl taken, computed⟩
      | worker i sys =>
          obtain ⟨op, w, moved, hostNext⟩ := Host.step_worker hostTaken
          by_cases same : p = i
          · subst same
            have pass := moved.pass
            have after : w.pc = .publish result := by simpa [hostNext] using position
            rw [after] at pass
            generalize here : (middle.1.1.workers p).pc = old at pass
            cases pass with
            | compute now snap finished =>
                exact ⟨now, snap, ⟨finished, middle, earlier, here,
                  .single ⟨_, ⟨permitted, rfl⟩, taken⟩⟩, rfl⟩
            | work _ _ _ _ outside => cases outside 0
          · have kept : (middle.1.1.workers p).pc = .publish result := by
              rw [hostNext] at position
              simpa [same] using position
            obtain ⟨now, snap, has, computed⟩ := ih kept
            have silent : begins p middle.1 (.worker i sys) = false := by
              cases sys <;> simp [begins, Ne.symm same]
            exact ⟨now, snap, has.tail permitted silent taken, computed⟩

end Tables

theorem mSel_of_prompt_steps (width : W ≤ 64)
    (steps : StepsIf (accountedTimed Rat cfg) (fun now act => promptly now.1 act = true)
      (accountedStart cfg start) state)
    (later : StepsIf (accountedTimed Rat cfg) (fun now act => promptly now.1 act = true)
      state final)
    (named : state.1.1.shared.mSel ≠ 0) : final.1.1.shared.mSel ≠ 0 := by
  induction later with
  | refl => exact named
  | tail earlier lastStep ih =>
      obtain ⟨act, _, taken⟩ := lastStep
      have known := Relation.ReflTransGen.trans steps earlier
      obtain ⟨moved, _⟩ := (product_eq_some ..).1 taken
      have kept := (timing_inv width (steps_timed (StepsIf.forget known))).1
      obtain ⟨_, move, _, stepped⟩ := timing_simulates kept moved
      exact (prompt_of_steps width known).mSel width ih stepped

theorem Host.prompt_passes_sound (width : W ≤ 64)
    (steps : StepsIf (accountedTimed Rat cfg) (fun now act => promptly now.1 act = true)
      (accountedStart cfg start) state) :
    (∀ p result, (state.1.1.workers p).pc = .publish result → result.Sound ∧
      (∃ now snap, HasLoaded Rat cfg start (fun now act => promptly now.1 act = true) p now snap
          state ∧
        result.Keeps Rat (stage1 snap.taken now hangThresholdNs) snap.taken) ∧
      ∀ after, accountedTimed Rat cfg state (.worker p (.mapSet true)) = some after →
        after.1.1.shared.mSel = result.bitmap) ∧
    ∀ p after final, accountedTimed Rat cfg state (.worker p (.mapSet true)) = some after →
      StepsIf (accountedTimed Rat cfg) (fun now act => promptly now.1 act = true) after final →
      final.1.1.shared.mSel ≠ 0 := by
  have prompt := prompt_of_steps width steps
  refine ⟨fun p result position => ⟨prompt.sound width (computed_of_pc position), ?_, ?_⟩,
    fun p after final publish later => ?_⟩
  · obtain ⟨now, snap, has, rfl⟩ := hasLoaded_of_publish steps position
    exact ⟨now, snap, has, scheduleFromSnapshots_keeps Rat width _ _ _⟩
  · exact fun after publish => published_result position ((product_eq_some ..).1 publish).1
  · obtain ⟨moved, _⟩ := (product_eq_some ..).1 publish
    have kept := (timing_inv width (steps_timed steps.forget)).1
    obtain ⟨_, move, source, stepped⟩ := timing_simulates kept moved
    rw [publish_of_comesFrom source] at stepped
    exact mSel_of_prompt_steps width (steps.tail ⟨_, rfl, publish⟩) later
      (prompt.publish width stepped)

theorem Pc.result_eq_some {pc : Pc W} {result : ScheduleResult} :
    pc.result = some result ↔ pc = .publish result := by
  cases pc <;> simp [Pc.result]

theorem Host.prompt_passes_sound_waiting :
    ∃ state after : (Host 2 × Clock 2) × (Fin 2 → FdTable), ∃ result : ScheduleResult,
      (state.1.1.workers 0).pc = .publish result ∧ result.Sound ∧
      accountedTimed Rat pairConfig state (.worker 0 (.mapSet true)) = some after ∧
      after.1.1.shared.mSel = result.bitmap ∧ after.1.1.shared.mSel ≠ 0 := by
  have ran : (do
      let state ← exec (restrict (accountedTimed Rat pairConfig) fun now act => promptly now.1 act)
        (accountedStart pairConfig fun _ => 0)
        (stalledRun ++ Act.worker 0 (.clock 10) :: loads ++ [Act.worker 0 .internal])
      let after ← accountedTimed Rat pairConfig state (.worker 0 (.mapSet true))
      some ((state.1.1.workers 0).pc.result, after.1.1.shared.mSel)) =
      some (some ⟨3, 2, 2, 2⟩, 3) := by
    decide +kernel
  simp only [Option.bind_eq_bind, Option.bind_eq_some_iff, Option.some.injEq, Prod.mk.injEq] at ran
  obtain ⟨state, before, after, publish, position, _⟩ := ran
  have sound := Host.prompt_passes_sound (by decide) (steps_restrict (exec_steps before))
  have waiting := Pc.result_eq_some.1 position
  obtain ⟨kept, _, shown⟩ := sound.1 0 _ waiting
  exact ⟨state, after, _, waiting, kept, publish, shown after publish,
    sound.2 0 after after publish .refl⟩

end Prompt

end MicroHermes.Server
