import MicroHermes.Dispatch
import MicroHermes.Server.Host
import MicroHermes.Timing

set_option autoImplicit false

namespace MicroHermes.Server

open Transition Bitmap

/-- One clock for all workers: its latest reading, and the last one of each worker. -/
structure Clock (W : Nat) where
  latest : Int
  lastOf : Fin W → Int

section System

variable {W : Nat}

def Clock.initial : Clock W := ⟨0, fun _ => 0⟩

def clockStep (clock : Clock W) : Act W → Option (Clock W)
  -- Readings are positive and never go back.
  | .worker i (.clock now) =>
      if clock.latest ≤ now ∧ 0 < now then some ⟨now, Function.update clock.lastOf i now⟩ else none
  | _ => some clock

abbrev timed (F : Type) [MetricArith F] (cfg : Config W) :
    Host W × Clock W → Act W → Option (Host W × Clock W) :=
  product (Host.step F cfg) clockStep

structure Ticked (clock next : Clock W) (i : Fin W) (sys : Sys) : Prop where
  others : ∀ j, j ≠ i → next.lastOf j = clock.lastOf j
  later : clock.latest ≤ next.latest
  read : ∀ now, sys = .clock now →
    clock.latest ≤ now ∧ 0 < now ∧ next.latest = now ∧ next.lastOf i = now
  kept : (∀ now, sys ≠ .clock now) → next = clock

theorem clockStep_worker {clock next : Clock W} {i : Fin W} {sys : Sys}
    (taken : clockStep clock (.worker i sys) = some next) : Ticked clock next i sys := by
  cases sys with
  | clock now =>
      simp only [clockStep, Option.ite_none_right_eq_some, Option.some.injEq] at taken
      obtain ⟨⟨later, positive⟩, rfl⟩ := taken
      exact ⟨fun j other => by simp [other], later, by simp [later, positive],
        fun none => absurd rfl (none now)⟩
  | _ =>
      simp only [clockStep, Option.some.injEq] at taken
      subst taken
      exact ⟨fun _ _ => rfl, le_refl _, by simp, fun _ => rfl⟩

def Pc.pass (reading : Int) : Pc W → Pass W
  -- The pass a worker is in, given its last clock reading.
  | .snapshot now snap => .loading now snap
  | .publish result => .computed reading result
  | _ => .idle

def Pc.result : Pc W → Option ScheduleResult
  | .publish result => some result
  | _ => none

def timing (state : Host W × Clock W) : Timing W where
  wst := state.1.shared.wst
  pass i := (state.1.workers i).pc.pass (state.2.lastOf i)
  mSel := state.1.shared.mSel
  latest := state.2.latest

inductive PassMoves (F : Type) [MetricArith F] (wst : Wst W) : Pc W → Sys → MemOp → Pc W → Prop
  | stamp (now : Int) : PassMoves F wst .stamp (.clock now) (.storeLoopEntry now) .hangTest
  | start (now : Int) : PassMoves F wst .scheduleNow (.clock now) .none (.snapshot now .start)
  | load (now : Int) (snap : SnapshotPc W) :
      PassMoves F wst (.snapshot now snap) .internal .none (.snapshot now (snap.step wst))
  | compute (now : Int) (snap : SnapshotPc W) (finished : snap.finished = true) :
      PassMoves F wst (.snapshot now snap) .internal .none
        (.publish (scheduleFromSnapshots F snap.taken now hangThresholdNs))
  | publish (result : ScheduleResult) :
      PassMoves F wst (.publish result) (.mapSet true) (.setSel result.bitmap) .tick
  | publishFailed (result : ScheduleResult) :
      PassMoves F wst (.publish result) (.mapSet false) .none .tick
  | work {pc pc' : Pc W} {sys : Sys} {op : MemOp} (noStamp : pc ≠ .stamp)
      (noStart : pc ≠ .scheduleNow) (noPublish : sys ≠ .mapSet true) (before : ∀ reading, pc.pass reading = .idle)
      (after : ∀ reading, pc'.pass reading = .idle)
      (slot : ∀ slot, (op.onSlot slot).lastLoopEntry = slot.lastLoopEntry)
      (sel : ∀ mSel, op.onSel mSel = mSel) : PassMoves F wst pc sys op pc'

variable {F : Type} [MetricArith F] {cfg : Config W} {i : Fin W} {wst : Wst W} {w w' : Worker W}
  {sys : Sys} {op : MemOp}

theorem Moves.pass (moved : Moves F cfg i wst w sys op w') :
    PassMoves F wst w.pc sys op w'.pc := by
  cases moved with
  | stamp now here => exact here ▸ .stamp now
  | scheduleNow now here => exact here ▸ .start now
  | load now snap here => exact here ▸ .load now snap
  | filter now snap here finished => exact here ▸ .compute now snap finished
  | publish result here => exact here ▸ .publish result
  | publishFailed result here => exact here ▸ .publishFailed result
  | batchDone here =>
      refine .work (by simp [here]) (by simp [here]) (by simp) (by simp [here, Pc.pass]) ?_
        (fun _ => rfl) fun _ => rfl
      cases cfg.policy.runsScheduler <;> simp [Pc.pass]
  | shutdown here | enter here | noHang here | hang _ _ here | hangLater _ _ here
  | hangSleep here | ready _ here | timeout here | interrupted here | waitFailed _ here
  | addPending here | listener _ _ here | hangup _ _ here | readable _ _ here | accepted _ here
  | acceptFailed _ here | addConn _ here | registered _ here | registerFailed _ here
  | closeFailed _ here | subFailed here | eof _ here | data _ _ _ here | strayData _ _ here
  | drained _ _ here | readFailed _ _ here | strayProcess _ here | partialHeader _ _ here
  | badMagic _ _ here | request _ _ _ here | execute _ _ here | wrotePart _ _ _ _ _ here
  | wroteAll _ _ _ _ _ here | writeRetry _ _ _ _ here | writeFailed _ _ _ _ _ here
  | ctlDel _ here | close _ here | subConn here | subPending here | tick here | tickFailed here =>
      exact .work (by simp [here]) (by simp [here]) (by simp) (by simp [here, Pc.pass])
        (by simp [Pc.pass]) (fun _ => rfl) fun _ => rfl

def ReadingKept (state : Host W × Clock W) : Prop :=
  -- A pass loads slots under the worker's last reading of the clock.
  ∀ j now snap, (state.1.workers j).pc = .snapshot now snap → state.2.lastOf j = now

def ComesFrom (state : Host W × Clock W) (act : Act W) : TimedMove W → Prop
  | .stamp h now => act = .worker h (.clock now) ∧ (state.1.workers h).pc = .stamp
  | .start p now => act = .worker p (.clock now) ∧ (state.1.workers p).pc = .scheduleNow
  | .publish p written => act = .worker p (.mapSet written)
  | _ => ∀ p, act ≠ .worker p (.mapSet true)

variable {state next : Host W × Clock W} {act : Act W}

theorem timing_worker {clock : Clock W}
    (others : ∀ j, j ≠ i → clock.lastOf j = state.2.lastOf j) :
    timing (⟨state.1.shared.apply i op, Function.update state.1.workers i w'⟩, clock) =
      { wst := Function.update state.1.shared.wst i (op.onSlot (state.1.shared.wst i))
        pass := Function.update (timing state).pass i (w'.pc.pass (clock.lastOf i))
        mSel := op.onSel state.1.shared.mSel
        latest := clock.latest } := by
  have pass : (fun j => (Function.update state.1.workers i w' j).pc.pass (clock.lastOf j)) =
      Function.update (timing state).pass i (w'.pc.pass (clock.lastOf i)) := by
    funext j
    by_cases same : j = i
    · subst same
      simp
    · simp [same, others j same, timing]
  simp [timing, Shared.apply, pass]

theorem readingKept_worker {clock : Clock W} (kept : ReadingKept state)
    (others : ∀ j, j ≠ i → clock.lastOf j = state.2.lastOf j)
    (own : ∀ now snap, w'.pc = .snapshot now snap → clock.lastOf i = now) :
    ReadingKept (⟨state.1.shared.apply i op, Function.update state.1.workers i w'⟩, clock) := by
  intro j now snap loading
  by_cases same : j = i
  · subst same
    exact own now snap (by simpa using loading)
  · rw [others j same]
    exact kept j now snap (by simpa [same] using loading)

theorem readingKept_step {clock : Clock W} (kept : ReadingKept state)
    (ticked : Ticked state.2 clock i sys)
    (pass : PassMoves F state.1.shared.wst (state.1.workers i).pc sys op w'.pc) :
    ∀ now snap, w'.pc = .snapshot now snap → clock.lastOf i = now := by
  have current := kept i
  intro now snap loading
  generalize (state.1.workers i).pc = pc at pass current
  generalize w'.pc = pc' at pass loading
  cases pass with
  | start now =>
      cases loading
      exact (ticked.read now rfl).2.2.2
  | load now snap =>
      cases loading
      rw [ticked.kept (by simp)]
      exact current now _ rfl
  | work _ _ _ _ after => simpa [loading, Pc.pass] using after 0
  | _ => cases loading

theorem timing_step {clock : Clock W} (kept : ReadingKept state)
    (ticked : Ticked state.2 clock i sys)
    (pass : PassMoves F state.1.shared.wst (state.1.workers i).pc sys op w'.pc) :
    ∃ move, ComesFrom state (.worker i sys) move ∧ Timing.step F (timing state) move =
      some (timing
        (⟨state.1.shared.apply i op, Function.update state.1.workers i w'⟩, clock)) := by
  have same : (timing state).pass i = (state.1.workers i).pc.pass (state.2.lastOf i) := rfl
  have current := kept i
  rw [timing_worker ticked.others]
  generalize here : (state.1.workers i).pc = pc at pass same current
  generalize w'.pc = pc' at pass
  cases pass with
  | stamp now =>
      obtain ⟨later, positive, latest, _⟩ := ticked.read now rfl
      have unchanged : Function.update (timing state).pass i (Pc.hangTest.pass (clock.lastOf i)) =
          (timing state).pass := Function.update_eq_self_iff.2 same.symm
      refine ⟨.stamp i now, ⟨rfl, here⟩, ?_⟩
      rw [unchanged, latest]
      simp [Timing.step, timing, later, positive, MemOp.onSlot, MemOp.onSel]
  | start now =>
      obtain ⟨later, positive, latest, _⟩ := ticked.read now rfl
      refine ⟨.start i now, ⟨rfl, here⟩, ?_⟩
      rw [latest]
      simp [Timing.step, timing, later, positive, MemOp.onSlot, MemOp.onSel, Pc.pass]
  | load now snap =>
      have loading : (timing state).pass i = .loading now snap := same
      refine ⟨.load i, by simp [ComesFrom], ?_⟩
      rw [ticked.kept (by simp)]
      simp only [Timing.step, loading]
      simp [timing, MemOp.onSlot, MemOp.onSel, Pc.pass]
  | compute now snap finished =>
      have loading : (timing state).pass i = .loading now snap := same
      refine ⟨.compute i, by simp [ComesFrom], ?_⟩
      rw [ticked.kept (by simp), current now snap rfl]
      simp only [Timing.step, loading, finished]
      simp [timing, MemOp.onSlot, MemOp.onSel, Pc.pass]
  | publish result =>
      have waiting : (timing state).pass i = .computed (state.2.lastOf i) result := same
      refine ⟨.publish i true, rfl, ?_⟩
      rw [ticked.kept (by simp)]
      simp only [Timing.step, waiting]
      simp [timing, MemOp.onSlot, MemOp.onSel, Pc.pass]
  | publishFailed result =>
      have waiting : (timing state).pass i = .computed (state.2.lastOf i) result := same
      refine ⟨.publish i false, rfl, ?_⟩
      rw [ticked.kept (by simp)]
      simp only [Timing.step, waiting]
      simp [timing, MemOp.onSlot, MemOp.onSel, Pc.pass]
  | work _ _ noPublish before after slot sel =>
      have unchanged : Function.update (timing state).pass i (pc'.pass (clock.lastOf i)) =
          (timing state).pass :=
        Function.update_eq_self_iff.2 ((after _).trans (same.trans (before _)).symm)
      have stamps : ∀ h, (Function.update state.1.shared.wst i
          (op.onSlot (state.1.shared.wst i)) h).lastLoopEntry =
            ((timing state).wst h).lastLoopEntry := by
        intro h
        by_cases own : h = i
        · subst own
          simpa [timing] using slot _
        · simp [own, timing]
      refine ⟨.work (Function.update state.1.shared.wst i (op.onSlot (state.1.shared.wst i)))
        clock.latest, by simpa [ComesFrom] using noPublish, ?_⟩
      rw [unchanged, sel]
      exact if_pos ⟨stamps, ticked.later⟩

theorem timing_simulates (kept : ReadingKept state)
    (taken : timed F cfg state act = some next) :
    ReadingKept next ∧
      ∃ move, ComesFrom state act move ∧ Timing.step F (timing state) move = some (timing next) := by
  obtain ⟨hostTaken, read⟩ := (product_eq_some ..).1 taken
  obtain ⟨host, clock⟩ := next
  cases act with
  | outside i event =>
      simp only [Host.step, clockStep, Option.some.injEq] at hostTaken read
      subst hostTaken read
      exact ⟨kept, .work state.1.shared.wst state.2.latest, by simp [ComesFrom],
        by simp [Timing.step, timing]⟩
  | worker i sys =>
      obtain ⟨op, w, moved, hostNext⟩ := Host.step_worker hostTaken
      have ticked := clockStep_worker read
      simp only at hostNext
      subst hostNext
      exact ⟨readingKept_worker kept ticked.others (readingKept_step kept ticked moved.pass),
        timing_step kept ticked moved.pass⟩

def Pc.passing : Pc W → Bool
  | .snapshot _ _ | .publish _ => true
  | _ => false

def Pc.atStamp : Pc W → Bool
  | .stamp => true
  | _ => false

def Pc.atSchedule : Pc W → Bool
  | .scheduleNow => true
  | _ => false

theorem Pc.atSchedule_iff {pc : Pc W} : pc.atSchedule = true ↔ pc = .scheduleNow := by
  cases pc <;> simp [Pc.atSchedule]

def stamps (h : Fin W) (state : Host W × Clock W) : Act W → Bool
  -- The step is a stamp of worker `h`.
  | .worker i (.clock _) => i == h && (state.1.workers i).pc.atStamp
  | _ => false

def begins (p : Fin W) (state : Host W × Clock W) : Act W → Bool
  -- The step starts a pass of worker `p`.
  | .worker i (.clock _) => i == p && (state.1.workers i).pc.atSchedule
  | _ => false

def beginsBefore (deadline : Int) (state : Host W × Clock W) : Act W → Bool
  -- The step starts a pass with a reading before `deadline`.
  | .worker i (.clock now) => (state.1.workers i).pc.atSchedule && decide (now < deadline)
  | _ => false

def toLoad (p w : Fin W) (state : Host W × Clock W) : Bool :=
  -- The pass of worker `p` still has to load the stamp of worker `w`.
  match (state.1.workers p).pc with
  | .snapshot _ snap => decide (snap.cursor ≤ 3 * w.val)
  | _ => false

section Restrictions

variable {move : TimedMove W}

theorem stampsSlot_of_stamps {h : Fin W} (quiet : stamps h state act = false)
    (source : ComesFrom state act move) : Timing.stampsSlot h move = false := by
  cases move with
  | stamp owner now =>
      obtain ⟨rfl, here⟩ := source
      simpa [stamps, here, Pc.atStamp, Timing.stampsSlot] using quiet
  | _ => rfl

theorem startsPass_of_begins {p : Fin W} (same : begins p state act = false)
    (source : ComesFrom state act move) : Timing.startsPass p move = false := by
  cases move with
  | start owner now =>
      obtain ⟨rfl, here⟩ := source
      simpa [begins, here, Pc.atSchedule, Timing.startsPass] using same
  | _ => rfl

theorem revives_of_stamps {h : Fin W} {t : Int} (quiet : stamps h state act = false)
    (late : beginsBefore (t + hangThresholdNs) state act = false)
    (source : ComesFrom state act move) : Timing.revives h t move = false := by
  cases move with
  | stamp owner now => exact stampsSlot_of_stamps quiet source
  | start owner now =>
      obtain ⟨rfl, here⟩ := source
      simpa [beginsBefore, here, Pc.atSchedule, Timing.revives] using late
  | _ => rfl

theorem not_stampsEarly {p w : Fin W} (quiet : toLoad p w state = true → stamps w state act = false)
    (source : ComesFrom state act move) : ¬ Timing.stampsEarly p w (timing state) move := by
  cases move with
  | stamp owner now =>
      rintro ⟨rfl, reading, snap, loading, unread⟩
      obtain ⟨rfl, here⟩ := source
      have position : (state.1.workers p).pc = .snapshot reading snap := by
        simp only [timing] at loading
        generalize (state.1.workers p).pc = pc at loading
        cases pc <;> simp_all [Pc.pass]
      have still : toLoad p owner state = true := by
        simpa [toLoad, position, SnapshotPc.stamped] using unread
      simpa [stamps, here, Pc.atStamp] using quiet still
  | _ => exact not_false

theorem timing_refines {allowed : Host W × Clock W → Act W → Prop}
    (permitted : Timing W → TimedMove W → Prop)
    (fits : ∀ state act move, allowed state act → ComesFrom state act move →
      permitted (timing state) move)
    (steps : StepsIf (timed F cfg) allowed state next)
    (kept : ReadingKept state) :
    ReadingKept next ∧ StepsIf (Timing.step F) permitted (timing state) (timing next) :=
  StepsIf.refine timing (fun state act next kept allowed taken => by
    obtain ⟨later, move, source, moved⟩ := timing_simulates kept taken
    exact ⟨later, move, fits state act move allowed source, moved⟩) steps kept

end Restrictions

theorem timing_inv (width : W ≤ 64) {start : Fin W → Int}
    (reached : Steps (timed F cfg)
      (Host.initial cfg start, Clock.initial) state) :
    ReadingKept state ∧ Timing.Inv F (timing state) := by
  have first : ReadingKept (Host.initial cfg start, Clock.initial) := by
    intro j now snap loading
    simp [Host.initial, Worker.initial] at loading
  obtain ⟨kept, steps⟩ := timing_refines (fun _ _ => True)
    (fun _ _ _ _ _ => trivial) reached first
  refine ⟨kept, Timing.inv_of_steps width ?_ steps⟩
  constructor
  · exact fun h => ⟨le_refl _, le_refl _⟩
  · intro p now read
    simp [timing, Host.initial, Worker.initial, Pc.pass, Pass.reading] at read
  · intro p now snap loading
    simp [timing, Host.initial, Worker.initial, Pc.pass] at loading
  · intro p now result waiting
    simp [timing, Host.initial, Worker.initial, Pc.pass] at waiting
  · intro i _ small
    simp [timing, Host.initial]

theorem begin_pass {p : Fin W} {now : Int}
    (taken : timed F cfg state (.worker p (.clock now)) = some next)
    (scheduling : (state.1.workers p).pc = .scheduleNow) :
    (∀ w, (timing next).stampOf w = (timing state).stampOf w) ∧
      (timing next).pass p = .loading now .start ∧ (timing next).latest = now := by
  obtain ⟨hostTaken, read⟩ := (product_eq_some ..).1 taken
  obtain ⟨op, w, moved, hostNext⟩ := Host.step_worker hostTaken
  have latest := ((clockStep_worker read).read now rfl).2.2.1
  have pass := moved.pass
  have after : op = .none ∧ w.pc = .snapshot now .start := by
    generalize w.pc = pc at pass ⊢
    rw [scheduling] at pass
    cases pass with
    | start => exact ⟨rfl, rfl⟩
    | work _ noStart => exact absurd rfl noStart
  obtain ⟨rfl, position⟩ := after
  refine ⟨fun other => ?_, ?_, latest⟩
  · simp [timing, hostNext, Timing.stampOf, Shared.apply, MemOp.onSlot]
  · simp [timing, hostNext, position, Pc.pass]

section Passes

variable {start : Fin W → Int} {later : Host W × Clock W} {p w : Fin W} {now now' : Int}
  {snap : SnapshotPc W}

theorem loading_of_pc (position : (later.1.workers p).pc = .snapshot now snap) :
    (timing later).pass p = .loading now snap := by
  simp [timing, position, Pc.pass]

theorem dropped_was_hung (width : W ≤ 64)
    (reached : Steps (timed F cfg)
      (Host.initial cfg start, Clock.initial) state)
    (scheduling : (state.1.workers p).pc = .scheduleNow)
    (taken : timed F cfg state (.worker p (.clock now)) = some next)
    (steps : StepsIf (timed F cfg)
      (fun state act => begins p state act = false) next later)
    (position : (later.1.workers p).pc = .snapshot now' snap) (finished : snap.finished = true) :
    now' = now ∧ (w ∉ stage1 snap.taken now hangThresholdNs →
      (state.1.shared.wst w).lastLoopEntry ≠ 0 ∧
        hangThresholdNs ≤ now - (state.1.shared.wst w).lastLoopEntry) := by
  -- A pass that drops a worker has seen the stamp the worker had when the pass read the clock.
  have kept := (timing_simulates (timing_inv width reached).1 taken).1
  obtain ⟨sameStamps, loading, latest⟩ := begin_pass taken scheduling
  have first : Timing.SinceReading p w now (state.1.shared.wst w).lastLoopEntry (timing next) := by
    refine ⟨latest.ge, .inl (sameStamps w), fun reading snap current => ?_⟩
    rw [loading] at current
    cases current
    exact ⟨rfl, by simp [SnapshotPc.stamped, SnapshotPc.start]⟩
  have refined := (timing_refines (fun _ move => Timing.startsPass p move = false)
    (fun _ _ _ same source => startsPass_of_begins same source) steps kept).2
  have since := StepsIf.preserve _ (fun _ _ _ inv same moved => Timing.SinceReading.step inv same moved)
    refined first
  obtain ⟨rfl, seen⟩ := since.pass now' snap (loading_of_pc position)
  refine ⟨rfl, fun dropped => ?_⟩
  have held := seen (SnapshotPc.stamped_of_finished finished w)
  rw [mem_stage1] at dropped
  simp only [hangThresholdNs] at dropped ⊢
  omega

theorem hung_is_dropped (width : W ≤ 64)
    (reached : Steps (timed F cfg)
      (Host.initial cfg start, Clock.initial) state)
    (scheduling : (state.1.workers p).pc = .scheduleNow)
    (taken : timed F cfg state (.worker p (.clock now)) = some next)
    (steps : StepsIf (timed F cfg)
      (fun state act => begins p state act = false ∧
        (toLoad p w state = true → stamps w state act = false)) next later)
    (position : (later.1.workers p).pc = .snapshot now' snap) (finished : snap.finished = true)
    (nonzero : (state.1.shared.wst w).lastLoopEntry ≠ 0)
    (old : hangThresholdNs ≤ now - (state.1.shared.wst w).lastLoopEntry) :
    w ∉ stage1 snap.taken now hangThresholdNs := by
  -- A worker that was hung at the reading and does not stamp before its slot is loaded is dropped.
  have kept := (timing_simulates (timing_inv width reached).1 taken).1
  obtain ⟨sameStamps, loading, _⟩ := begin_pass taken scheduling
  have first : Timing.Unstamped p w now (state.1.shared.wst w).lastLoopEntry (timing next) := by
    intro reading snap current
    rw [loading] at current
    cases current
    exact ⟨rfl, by simp [SnapshotPc.stamped, SnapshotPc.start], fun _ => sameStamps w⟩
  have refined := (timing_refines
    (fun state move =>
      Timing.startsPass p move = false ∧ ¬ Timing.stampsEarly p w state move)
    (fun _ _ _ quiet source =>
      ⟨startsPass_of_begins quiet.1 source, not_stampsEarly quiet.2 source⟩) steps kept).2
  have unstamped := StepsIf.preserve _
    (fun _ _ _ inv quiet moved => Timing.Unstamped.step inv quiet.1 quiet.2 moved) refined first
  obtain ⟨rfl, seen, _⟩ := unstamped now' snap (loading_of_pc position)
  rw [mem_stage1, seen (SnapshotPc.stamped_of_finished finished w)]
  omega

end Passes

section Results

variable {computed waiting after : Host W × Clock W} {p : Fin W} {now : Int} {snap : SnapshotPc W}
  {result : ScheduleResult}

theorem computed_result (position : (state.1.workers p).pc = .snapshot now snap)
    (finished : snap.finished = true)
    (taken : timed F cfg state (.worker p .internal) = some computed) :
    (computed.1.workers p).pc =
      .publish (scheduleFromSnapshots F snap.taken now hangThresholdNs) := by
  obtain ⟨hostTaken, _⟩ := (product_eq_some ..).1 taken
  simp only [Host.step, workerStep, position, Sys.asInternal, Option.map_some, finished, if_true,
    Option.some.injEq] at hostTaken
  rw [← hostTaken]
  simp

theorem worker_kept (steps : StepsIf (timed F cfg)
    (fun _ act => ∀ sys, act ≠ .worker p sys) computed waiting) :
    waiting.1.workers p = computed.1.workers p := by
  refine StepsIf.preserve (fun state => state.1.workers p = computed.1.workers p) ?_ steps rfl
  intro state act next same others taken
  obtain ⟨hostTaken, _⟩ := (product_eq_some ..).1 taken
  cases act with
  | outside i event =>
      simp only [Host.step, Option.some.injEq] at hostTaken
      rw [← hostTaken]
      exact same
  | worker i sys =>
      obtain ⟨_, _, _, hostNext⟩ := Host.step_worker hostTaken
      have other : p ≠ i := by
        rintro rfl
        exact others sys rfl
      rw [hostNext]
      exact (Function.update_of_ne other ..).trans same

theorem published_result (position : (waiting.1.workers p).pc = .publish result)
    (taken : timed F cfg waiting (.worker p (.mapSet true)) = some after) :
    after.1.shared.mSel = result.bitmap := by
  obtain ⟨hostTaken, _⟩ := (product_eq_some ..).1 taken
  obtain ⟨op, w, moved, hostNext⟩ := Host.step_worker hostTaken
  have pass := moved.pass
  rw [position] at pass
  rw [hostNext]
  generalize w.pc = pc at pass
  cases pass with
  | publish => rfl
  | work _ _ noPublish => exact absurd rfl noPublish

-- Whether a worker counts as hung for a pass that reads `now`, by its stamp.
def hungAt (now : Int) (slot : WorkerSlot) : Bool :=
  decide (slot.lastLoopEntry ≠ 0) && decide (hangThresholdNs ≤ now - slot.lastLoopEntry)

theorem hungAt_iff (slot : WorkerSlot) :
    hungAt now slot = true ↔
      slot.lastLoopEntry ≠ 0 ∧ hangThresholdNs ≤ now - slot.lastLoopEntry := by
  simp [hungAt]

theorem stage1_length_ge {taken : Snapshots W} {wst : Wst W}
    (exact_ : ∀ w, w ∉ stage1 taken now hangThresholdNs → hungAt now (wst w) = true) :
    ((List.finRange W).countP fun w => !hungAt now (wst w)) ≤
      (stage1 taken now hangThresholdNs).length := by
  rw [stage1, ← List.countP_eq_length_filter]
  refine List.countP_mono_left fun w inside healthy => ?_
  by_contra dropped
  have hung := exact_ w (by simpa [stage1, inside] using dropped)
  simp [hung] at healthy

end Results

theorem publish_of_comesFrom {p : Fin W} {move : TimedMove W}
    (source : ComesFrom state (.worker p (.mapSet true)) move) : move = .publish p true := by
  cases move with
  | publish owner written =>
      simp only [ComesFrom, Act.worker.injEq, Sys.mapSet.injEq] at source
      rw [source.1, ← source.2]
  | stamp | start => simp [ComesFrom] at source
  | load | compute | work => simp [ComesFrom] at source

theorem hung_of_noStale {h : Fin W} {t : Int} (kept : ReadingKept state)
    (stamped : (state.1.shared.wst h).lastLoopEntry = t)
    (noStale : ∀ p, (state.1.workers p).pc.passing = true →
      t + hangThresholdNs ≤ state.2.lastOf p) : Timing.Hung h t (timing state) where
  stamp := stamped
  overdue p now read := by
    have late := noStale p
    have current := kept p
    simp only [timing] at read
    generalize (state.1.workers p).pc = pc at read late current
    cases pc with
    | snapshot reading snap =>
        cases read
        exact current now snap rfl ▸ late rfl
    | publish result =>
        cases read
        exact late rfl
    | _ => cases read

section Publish

variable {start : Fin W → Int} {published after final : Host W × Clock W} {p h : Fin W}

theorem hung_stays_out (width : W ≤ 64)
    (reached : Steps (timed F cfg)
      (Host.initial cfg start, Clock.initial) state)
    (nonzero : (state.1.shared.wst h).lastLoopEntry ≠ 0)
    (noStale : ∀ p, (state.1.workers p).pc.passing = true →
      (state.1.shared.wst h).lastLoopEntry + hangThresholdNs ≤ state.2.lastOf p)
    (waiting : StepsIf (timed F cfg)
      (fun now act => stamps h now act = false ∧
        beginsBefore ((state.1.shared.wst h).lastLoopEntry + hangThresholdNs) now act = false)
      state published)
    (publish : timed F cfg published (.worker p (.mapSet true)) =
      some after)
    (later : StepsIf (timed F cfg)
      (fun now act => stamps h now act = false) after final) :
    bit final.1.shared.mSel h = false ∧
      ∀ hash, 2 ≤ (countOnes final.1.shared.mSel).toNat →
        ∃ i, Ebpf.trySelect W (some final.1.shared.mSel) ⟨ipprotoTcp, hash⟩ = some i ∧
          i < W ∧ i ≠ h.val := by
  -- Once no pass with an early reading is under way, the next publish puts a hung worker out, and
  -- it stays out until it stamps again.
  obtain ⟨kept, inv⟩ := timing_inv width reached
  obtain ⟨keptPublished, quiet⟩ := timing_refines
    (fun _ move =>
      Timing.revives h (state.1.shared.wst h).lastLoopEntry move = false)
    (fun _ _ _ quiet source => revives_of_stamps quiet.1 quiet.2 source) waiting kept
  have invPublished := Timing.inv_of_steps width inv quiet.forget
  have hung := StepsIf.preserve _ (fun _ _ _ holds still moved => Timing.Hung.step holds still moved)
    quiet (hung_of_noStale kept rfl noStale)
  obtain ⟨keptAfter, move, source, moved⟩ := timing_simulates keptPublished publish
  rw [publish_of_comesFrom source] at moved
  have out := Timing.Out.of_publish invPublished hung nonzero width moved
  have invAfter := Timing.step_inv width invPublished moved
  have steps := (timing_refines
    (fun _ move => Timing.stampsSlot h move = false)
    (fun _ _ _ still source => stampsSlot_of_stamps still source) later keptAfter).2
  have invFinal := Timing.inv_of_steps width invAfter steps.forget
  have clear := (Timing.out_of_steps width nonzero invAfter out steps).clear
  refine ⟨clear, fun hash several => ?_⟩
  obtain ⟨i, found, below, set⟩ := findNthSetBit_some width invFinal.named hash several
  refine ⟨i, (trySelect_several _ _ several).trans found, below, fun same => ?_⟩
  subst same
  exact absurd (set.symm.trans clear) (by decide)

end Publish

theorem Host.hang_detection (width : W ≤ 64) {start : Fin W → Int}
    (reached : Steps (timed F cfg)
      (Host.initial cfg start, Clock.initial) state) :
    (∀ (p : Fin W) (now now' : Int) (next loaded : Host W × Clock W) (snap : SnapshotPc W),
      (state.1.workers p).pc = .scheduleNow →
      timed F cfg state (.worker p (.clock now)) = some next →
      (loaded.1.workers p).pc = .snapshot now' snap → snap.finished = true →
      StepsIf (timed F cfg)
        (fun state act => begins p state act = false) next loaded →
      now' = now ∧
      (∀ computed, timed F cfg loaded (.worker p .internal) = some computed →
        ∃ result, (computed.1.workers p).pc = .publish result ∧
          result.Keeps F (stage1 snap.taken now hangThresholdNs) snap.taken ∧
          ((List.finRange W).countP fun w => !hungAt now (state.1.shared.wst w)) ≤
            result.afterStage1 ∧
          ∀ waiting after, StepsIf (timed F cfg)
              (fun _ act => ∀ sys, act ≠ .worker p sys) computed waiting →
            timed F cfg waiting (.worker p (.mapSet true)) = some after →
            after.1.shared.mSel = result.bitmap) ∧
      (∀ w, w ∉ stage1 snap.taken now hangThresholdNs →
        hungAt now (state.1.shared.wst w) = true) ∧
      ∀ w, StepsIf (timed F cfg)
          (fun state act => begins p state act = false ∧
            (toLoad p w state = true → stamps w state act = false)) next loaded →
        hungAt now (state.1.shared.wst w) = true →
        w ∉ stage1 snap.taken now hangThresholdNs) ∧
    (∀ (h p : Fin W) (published after final : Host W × Clock W),
      (state.1.shared.wst h).lastLoopEntry ≠ 0 →
      (∀ p, (state.1.workers p).pc.passing = true →
        (state.1.shared.wst h).lastLoopEntry + hangThresholdNs ≤ state.2.lastOf p) →
      StepsIf (timed F cfg)
        (fun now act => stamps h now act = false ∧
          beginsBefore ((state.1.shared.wst h).lastLoopEntry + hangThresholdNs) now act = false)
        state published →
      timed F cfg published (.worker p (.mapSet true)) = some after →
      StepsIf (timed F cfg)
        (fun now act => stamps h now act = false) after final →
      bit final.1.shared.mSel h = false ∧
        ∀ hash, 2 ≤ (countOnes final.1.shared.mSel).toNat →
          ∃ i, Ebpf.trySelect W (some final.1.shared.mSel) ⟨ipprotoTcp, hash⟩ = some i ∧
            i < W ∧ i ≠ h.val) := by
  refine ⟨fun p now now' next loaded snap scheduling taken position finished steps => ?_,
    fun _ _ _ _ _ nonzero noStale waiting publish later =>
      hung_stays_out width reached nonzero noStale waiting publish later⟩
  have dropped (w : Fin W) (gone : w ∉ stage1 snap.taken now hangThresholdNs) :
      hungAt now (state.1.shared.wst w) = true :=
    (hungAt_iff _).2
      ((dropped_was_hung width reached scheduling taken steps position finished).2 gone)
  obtain ⟨rfl, _⟩ :=
    dropped_was_hung (w := p) width reached scheduling taken steps position finished
  refine ⟨rfl, fun computed computes => ?_, dropped, fun w quiet hung => ?_⟩
  · have result := computed_result position finished computes
    refine ⟨_, result, scheduleFromSnapshots_keeps F width _ _ _, stage1_length_ge dropped, ?_⟩
    intro waiting after others publish
    refine published_result ?_ publish
    rw [worker_kept others]
    exact result
  · obtain ⟨nonzero, old⟩ := (hungAt_iff _).1 hung
    exact hung_is_dropped width reached scheduling taken quiet position finished nonzero old

end System

def pairConfig : Config 2 where
  policy := .hermes
  listenFd _ := 3
  other _ := {0, 1, 2, 3}
  listenOpen := by decide
  hang _ := none

abbrev pairStart : Host 2 × Clock 2 := (Host.initial pairConfig fun _ => 0, Clock.initial)

def stalledRun : List (Act 2) :=
  -- Worker 1 stamps at 1 and stops; worker 0 is about to start a pass.
  [Sys.shutdown false, .clock 1].map (Act.worker 1) ++
    [Sys.shutdown false, .clock 5, .internal, .epollWait (.ok []), .internal].map (Act.worker 0)

def reading : Act 2 := .worker 0 (.clock 200000001)

def loads : List (Act 2) := List.replicate 6 (.worker 0 .internal)

def loadedAll {W : Nat} : Pc W → Bool
  | .snapshot _ snap => snap.finished
  | _ => false

theorem loadedAll_iff {W : Nat} {pc : Pc W} :
    loadedAll pc = true ↔ ∃ now snap, pc = .snapshot now snap ∧ snap.finished = true := by
  cases pc <;> simp [loadedAll]

theorem Host.hang_detection_stalled :
    ∃ state later after final : Host 2 × Clock 2, Steps (timed Rat pairConfig) pairStart state ∧
      (∃ snap, (later.1.workers 0).pc = .snapshot 200000001 snap ∧
        (1 : Fin 2) ∉ stage1 snap.taken 200000001 hangThresholdNs ∧
        ∃ result : ScheduleResult, 1 ≤ result.afterStage1 ∧
          result.Keeps Rat (stage1 snap.taken 200000001 hangThresholdNs) snap.taken ∧
          after.1.shared.mSel = result.bitmap) ∧
      bit final.1.shared.mSel 1 = false := by
  have ran : (do
      let state ← exec (timed Rat pairConfig) pairStart stalledRun
      let next ← timed Rat pairConfig state reading
      let later ← exec (restrict (timed Rat pairConfig) fun state act =>
        !begins 0 state act && !stamps 1 state act) next loads
      let computed ← timed Rat pairConfig later (.worker 0 .internal)
      let after ← timed Rat pairConfig computed (.worker 0 (.mapSet true))
      let published ← exec (restrict (timed Rat pairConfig) fun state act =>
        !stamps 1 state act && !beginsBefore 200000001 state act) state
        (reading :: loads ++ [.worker 0 .internal])
      let final ← timed Rat pairConfig published (.worker 0 (.mapSet true))
      some ((state.1.workers 0).pc.atSchedule, (state.1.shared.wst 0).lastLoopEntry,
        (state.1.shared.wst 1).lastLoopEntry,
        (state.1.workers 0).pc.passing || (state.1.workers 1).pc.passing,
        loadedAll (later.1.workers 0).pc)) =
      some (true, 5, 1, false, true) := by decide +kernel
  simp only [Option.bind_eq_bind, Option.bind_eq_some_iff, Option.some.injEq, Prod.mk.injEq] at ran
  obtain ⟨state, before, next, started, later, loaded, computed, computes, after, publishes,
    published, waited, final, set, scheduling, own, stamp, idle, complete⟩ := ran
  obtain ⟨idle0, idle1⟩ := Bool.or_eq_false_iff.1 idle
  obtain ⟨exact_, out⟩ := Host.hang_detection (by decide) (exec_steps before)
  obtain ⟨now, snap, position, finished⟩ := loadedAll_iff.1 complete
  have nonzero : (state.1.shared.wst 1).lastLoopEntry ≠ 0 := by simp [stamp]
  have neither {first second : Bool} (holds : (!first && !second) = true) :
      first = false ∧ second = false := by simpa using holds
  have quiet := steps_restrict (exec_steps loaded)
  obtain ⟨rfl, results, _, dropped⟩ := exact_ 0 200000001 now next later snap
    (Pc.atSchedule_iff.1 scheduling) started position finished
    (quiet.weaken fun _ _ holds => (neither holds).1)
  obtain ⟨result, _, keeps, healthy, shown⟩ := results computed computes
  refine ⟨state, later, after, final, exec_steps before,
    ⟨snap, position, ?_, result, le_trans ?_ healthy, keeps, shown computed after .refl publishes⟩,
    ?_⟩
  · refine dropped 1
      (quiet.weaken fun _ _ holds => ⟨(neither holds).1, fun _ => (neither holds).2⟩) ?_
    rw [hungAt_iff, stamp]
    decide
  · refine List.countP_pos_iff.2 ⟨0, by decide, ?_⟩
    simp [hungAt, own, hangThresholdNs]
  · refine (out 1 0 published final final nonzero ?_ ?_ set .refl).1
    · intro p passing
      obtain rfl | rfl : p = 0 ∨ p = 1 := by omega
      · rw [idle0] at passing
        cases passing
      · rw [idle1] at passing
        cases passing
    · rw [stamp]
      exact (steps_restrict (exec_steps waited)).weaken fun _ _ holds => neither holds

end MicroHermes.Server
