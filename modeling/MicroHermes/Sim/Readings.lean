import MicroHermes.Timing
import MicroHermes.Sim.Accounting

set_option autoImplicit false

namespace MicroHermes.Sim

open Transition

variable {W : Nat}

/-- One clock for all processes: its latest reading, and the last one of each worker. -/
structure Readings (W : Nat) where
  latest : Int
  lastOf : Fin W → Int

def Readings.initial : Readings W := ⟨0, fun _ => 0⟩

def readStep (readings : Readings W) : Act W → Option (Readings W)
  -- Readings are positive and never go back.
  | .gen (.clock now) =>
      if readings.latest ≤ now ∧ 0 < now then some { readings with latest := now } else none
  | .worker i (.clock now) =>
      if readings.latest ≤ now ∧ 0 < now then
        some ⟨now, Function.update readings.lastOf i now⟩
      else none
  | .gen .internal | .worker _ .internal => some readings

abbrev readingStep (F : Type) [MetricArith F] (policy : Policy) (cfg : WorkloadConfig)
    (seed : UInt64) : SimState W × Readings W → Act W → Option (SimState W × Readings W) :=
  product (step F policy cfg seed) readStep

def Pc.pass (reading : Int) : Pc W → Pass W
  -- The pass a worker is in, given its last clock reading.
  | .snapshot now snap => .loading now snap
  | .publish result => .computed reading result
  | _ => .idle

def Pc.passing : Pc W → Bool
  | .snapshot _ _ | .publish _ => true
  | _ => false

def timing (state : SimState W × Readings W) : Timing W where
  wst := state.1.shared.wst
  pass i := (state.1.workers i).pc.pass (state.2.lastOf i)
  mSel := state.1.shared.msel
  latest := state.2.latest

section Continuations

variable (policy : Policy) (reading : Int)

theorem endOfLoop_pass : (endOfLoop policy : Pc W).pass reading = .idle := by
  unfold endOfLoop
  split <;> rfl

theorem nextBurst_pass (ids : List Nat) : (nextBurst policy ids : Pc W).pass reading = .idle := by
  cases ids with
  | nil => exact endOfLoop_pass policy reading
  | cons connId rest => rfl

theorem nextAccept_pass (batch : List ConnDesc) :
    (nextAccept policy batch : Pc W).pass reading = .idle := by
  cases batch with
  | nil => exact endOfLoop_pass policy reading
  | cons desc rest => rfl

theorem pollStep_pass (deadline : Int) (batch : List ConnDesc) (pop : PopPc) :
    (pollStep deadline batch pop : Pc W).pass reading = .idle := by
  unfold pollStep
  split
  · split <;> rfl
  · split <;> rfl
  · rfl

end Continuations

inductive PassMoves (F : Type) [MetricArith F] (wst : Wst W) : Pc W → Sys → MemOp → Pc W → Prop
  | stamp (now : Int) : PassMoves F wst .stamp (.clock now) (.storeLoopEntry now) .hangTest
  | start (now : Int) : PassMoves F wst .scheduleNow (.clock now) .none (.snapshot now .start)
  | load (now : Int) (snap : SnapshotPc W) :
      PassMoves F wst (.snapshot now snap) .internal .none (.snapshot now (snap.step wst))
  | compute (now : Int) (snap : SnapshotPc W) (finished : snap.finished = true) :
      PassMoves F wst (.snapshot now snap) .internal .none
        (.publish (scheduleFromSnapshots F snap.taken now hangThresholdNs))
  | publish (result : ScheduleResult) :
      PassMoves F wst (.publish result) .internal (.storeSel result.bitmap) (.tickNow (some result))
  | work {pc pc' : Pc W} {label : Sys} {op : MemOp} (noStamp : pc ≠ .stamp)
      (noStart : pc ≠ .scheduleNow) (before : ∀ reading, pc.pass reading = .idle)
      (after : ∀ reading, pc'.pass reading = .idle)
      (slot : ∀ slot, (op.onSlot slot).lastLoopEntry = slot.lastLoopEntry)
      (sel : ∀ msel, op.onSel msel = msel) : PassMoves F wst pc label op pc'

section Steps

variable {F : Type} [MetricArith F] {policy : Policy} {cfg : WorkloadConfig} {seed : UInt64}
  {i : Fin W}

theorem Moves.pass {shared : SharedState W} {w w' : Worker W} {label : Sys} {op : MemOp}
    (moved : Moves F policy cfg i shared w label op w') :
    PassMoves F shared.wst w.pc label op w'.pc := by
  cases moved with
  | stamp now pc => exact pc ▸ .stamp now
  | scheduleNow now pc => exact pc ▸ .start now
  | load now snap pc => exact pc ▸ .load now snap
  | schedule now snap pc finished => exact pc ▸ .compute now snap finished
  | publish result pc => exact pc ▸ .publish result
  | burstAdd ids pc | burstSub _ ids _ _ _ pc =>
      exact .work (by simp [pc]) (by simp [pc]) (by simp [pc, Pc.pass])
        (fun _ => nextBurst_pass policy _ ids) (fun _ => rfl) fun _ => rfl
  | acceptAdd batch pc | acceptSub _ batch _ _ pc =>
      exact .work (by simp [pc]) (by simp [pc]) (by simp [pc, Pc.pass])
        (fun _ => nextAccept_pass policy _ batch) (fun _ => rfl) fun _ => rfl
  | pop deadline batch call pc =>
      exact .work (by simp [pc]) (by simp [pc]) (by simp [pc, Pc.pass])
        (fun _ => pollStep_pass _ deadline batch _) (fun _ => rfl) fun _ => rfl
  | _ =>
      have here := ‹w.pc = _›
      exact .work (by simp [here]) (by simp [here]) (by simp [here, Pc.pass])
        (by simp [Pc.pass]) (fun _ => rfl) fun _ => rfl

structure Ticked (readings next : Readings W) (i : Fin W) (label : Sys) : Prop where
  others : ∀ j, j ≠ i → next.lastOf j = readings.lastOf j
  later : readings.latest ≤ next.latest
  read : ∀ now, label = .clock now →
    readings.latest ≤ now ∧ 0 < now ∧ next.latest = now ∧ next.lastOf i = now
  kept : label = .internal → next = readings

theorem readStep_worker {readings next : Readings W} {label : Sys}
    (taken : readStep readings (.worker i label) = some next) : Ticked readings next i label := by
  cases label with
  | clock now =>
      simp only [readStep, Option.ite_none_right_eq_some, Option.some.injEq] at taken
      obtain ⟨⟨later, positive⟩, rfl⟩ := taken
      exact ⟨fun j other => by simp [other], later, by simp [later, positive], nofun⟩
  | internal =>
      simp only [readStep, Option.some.injEq] at taken
      subst taken
      exact ⟨fun _ _ => rfl, le_refl _, nofun, fun _ => rfl⟩

theorem readStep_gen {readings next : Readings W} {label : Sys}
    (taken : readStep readings (.gen label) = some next) :
    readings.latest ≤ next.latest ∧ next.lastOf = readings.lastOf := by
  cases label with
  | clock now =>
      simp only [readStep, Option.ite_none_right_eq_some, Option.some.injEq] at taken
      obtain ⟨⟨later, _⟩, rfl⟩ := taken
      exact ⟨later, rfl⟩
  | internal =>
      simp only [readStep, Option.some.injEq] at taken
      exact taken ▸ ⟨le_refl _, rfl⟩

def ReadingKept (state : SimState W × Readings W) : Prop :=
  -- A pass loads slots under the worker's last reading of the clock.
  ∀ j now snap, (state.1.workers j).pc = .snapshot now snap → state.2.lastOf j = now

def ComesFrom (state : SimState W × Readings W) (act : Act W) : TimedMove W → Prop
  | .stamp h now => act = .worker h (.clock now) ∧ (state.1.workers h).pc = .stamp
  | .start p now => act = .worker p (.clock now) ∧ (state.1.workers p).pc = .scheduleNow
  | .publish p written => act = .worker p .internal ∧ written = true ∧
      ∃ result, (state.1.workers p).pc = .publish result
  | _ => ∀ p result, act = .worker p .internal → (state.1.workers p).pc ≠ .publish result

theorem timing_worker {state next : SimState W × Readings W} {op : MemOp}
    (shared : next.1.shared = state.1.shared.apply i op)
    (workers : ∀ j, j ≠ i → next.1.workers j = state.1.workers j)
    (lastOf : ∀ j, j ≠ i → next.2.lastOf j = state.2.lastOf j) :
    timing next =
      { wst := Function.update state.1.shared.wst i (op.onSlot (state.1.shared.wst i))
        pass := Function.update (timing state).pass i
          ((next.1.workers i).pc.pass (next.2.lastOf i))
        mSel := op.onSel state.1.shared.msel
        latest := next.2.latest } := by
  have pass : (timing next).pass = Function.update (timing state).pass i
      ((next.1.workers i).pc.pass (next.2.lastOf i)) := by
    funext j
    by_cases same : j = i
    · subst same
      simp [timing]
    · simp [timing, same, workers j same, lastOf j same]
  simp only [← pass]
  simp [timing, shared, SharedState.apply]

theorem readingKept_step {state next : SimState W × Readings W} {label : Sys} {op : MemOp}
    (kept : ReadingKept state) (ticked : Ticked state.2 next.2 i label)
    (workers : ∀ j, j ≠ i → next.1.workers j = state.1.workers j)
    (pass : PassMoves F state.1.shared.wst (state.1.workers i).pc label op (next.1.workers i).pc) :
    ReadingKept next := by
  intro j now snap loading
  by_cases same : j = i
  · subst same
    have current := kept j
    generalize (state.1.workers j).pc = pc at pass current
    generalize (next.1.workers j).pc = pc' at pass loading
    cases pass with
    | start now =>
        cases loading
        exact (ticked.read now rfl).2.2.2
    | load now snap =>
        cases loading
        rw [ticked.kept rfl]
        exact current now _ rfl
    | work _ _ _ after => simpa [loading, Pc.pass] using after 0
    | _ => cases loading
  · rw [ticked.others j same]
    rw [workers j same] at loading
    exact kept j now snap loading

theorem timing_step {state next : SimState W × Readings W} {label : Sys} {op : MemOp}
    (kept : ReadingKept state) (ticked : Ticked state.2 next.2 i label)
    (shared : next.1.shared = state.1.shared.apply i op)
    (workers : ∀ j, j ≠ i → next.1.workers j = state.1.workers j)
    (pass : PassMoves F state.1.shared.wst (state.1.workers i).pc label op (next.1.workers i).pc) :
    ∃ move, ComesFrom state (.worker i label) move ∧
      Timing.step F (timing state) move = some (timing next) := by
  have same : (timing state).pass i = (state.1.workers i).pc.pass (state.2.lastOf i) := rfl
  have current := kept i
  rw [timing_worker shared workers ticked.others]
  generalize here : (state.1.workers i).pc = pc at pass same current
  generalize (next.1.workers i).pc = pc' at pass
  cases pass with
  | stamp now =>
      obtain ⟨later, positive, latest, _⟩ := ticked.read now rfl
      have unchanged : Function.update (timing state).pass i
          (Pc.hangTest.pass (next.2.lastOf i)) = (timing state).pass :=
        Function.update_eq_self_iff.2 same.symm
      refine ⟨.stamp i now, ⟨rfl, here⟩, ?_⟩
      rw [unchanged, latest]
      simp [Timing.step, timing, later, positive, MemOp.onSlot, MemOp.onSel]
  | start now =>
      obtain ⟨later, positive, latest, _⟩ := ticked.read now rfl
      refine ⟨.start i now, ⟨rfl, here⟩, ?_⟩
      rw [latest]
      simp [Timing.step, timing, later, positive, MemOp.onSlot, MemOp.onSel, Pc.pass]
  | load now snap =>
      have loading : (timing state).pass i = .loading now snap := same
      refine ⟨.load i, ?_, ?_⟩
      · rintro p result ⟨rfl⟩
        simp [here]
      · rw [ticked.kept rfl]
        simp only [Timing.step, loading]
        simp [timing, MemOp.onSlot, MemOp.onSel, Pc.pass]
  | compute now snap finished =>
      have loading : (timing state).pass i = .loading now snap := same
      refine ⟨.compute i, ?_, ?_⟩
      · rintro p result ⟨rfl⟩
        simp [here]
      · rw [ticked.kept rfl, current now snap rfl]
        simp only [Timing.step, loading, finished]
        simp [timing, MemOp.onSlot, MemOp.onSel, Pc.pass]
  | publish result =>
      have waiting : (timing state).pass i = .computed (state.2.lastOf i) result := same
      refine ⟨.publish i true, ⟨rfl, rfl, result, here⟩, ?_⟩
      rw [ticked.kept rfl]
      simp only [Timing.step, waiting]
      simp [timing, MemOp.onSlot, MemOp.onSel, Pc.pass]
  | work _ _ before after slot sel =>
      have unchanged : Function.update (timing state).pass i (pc'.pass (next.2.lastOf i)) =
          (timing state).pass :=
        Function.update_eq_self_iff.2 ((after _).trans (same.trans (before _)).symm)
      have stamps : ∀ h, (Function.update state.1.shared.wst i
          (op.onSlot (state.1.shared.wst i)) h).lastLoopEntry =
            ((timing state).wst h).lastLoopEntry := by
        intro h
        by_cases own : h = i
        · subst own
          simpa [timing] using slot _
        · simp [own, timing]
      refine ⟨.work (Function.update state.1.shared.wst i (op.onSlot (state.1.shared.wst i)))
        next.2.latest, ?_, ?_⟩
      · rintro p result ⟨rfl⟩ position
        have idle := before 0
        rw [← here, position] at idle
        cases idle
      · rw [unchanged, sel]
        exact if_pos ⟨stamps, ticked.later⟩

theorem GenMoves.msel {shared shared' : SharedState W} {gen gen' : Generator W} {label : Sys}
    (moved : GenMoves policy cfg seed shared gen label shared' gen') :
    shared'.msel = shared.msel := by
  cases moved <;> rfl

theorem timing_simulates {state next : SimState W × Readings W} {act : Act W}
    (kept : ReadingKept state)
    (taken : readingStep F policy cfg seed state act = some next) :
    ReadingKept next ∧
      ∃ move, ComesFrom state act move ∧ Timing.step F (timing state) move = some (timing next) := by
  obtain ⟨moved, read⟩ := (product_eq_some ..).1 taken
  cases act with
  | gen label =>
      obtain ⟨sent, workers⟩ := step_gen moved
      obtain ⟨later, lastOf⟩ := readStep_gen read
      refine ⟨fun j now snap loading => ?_, .work state.1.shared.wst next.2.latest, ?_, ?_⟩
      · rw [lastOf]
        rw [workers] at loading
        exact kept j now snap loading
      · simp [ComesFrom]
      · simp [Timing.step, timing, later, workers, lastOf, sent.wst, sent.msel]
  | worker i label =>
      obtain ⟨op, own, shared, _, workers⟩ := step_worker moved
      have ticked := readStep_worker read
      exact ⟨readingKept_step kept ticked workers own.pass,
        timing_step kept ticked shared workers own.pass⟩

variable {genStart : Int} {starts : Fin W → Int}

theorem timing_refines {allowed : SimState W × Readings W → Act W → Prop}
    (permitted : Timing W → TimedMove W → Prop) {state final : SimState W × Readings W}
    (fits : ∀ state act move, allowed state act → ComesFrom state act move →
      permitted (timing state) move)
    (steps : StepsIf (readingStep F policy cfg seed) allowed state final)
    (kept : ReadingKept state) :
    ReadingKept final ∧ StepsIf (Timing.step F) permitted (timing state) (timing final) :=
  StepsIf.refine timing (fun state act next kept allowed taken => by
    obtain ⟨later, move, source, moved⟩ := timing_simulates kept taken
    exact ⟨later, move, fits state act move allowed source, moved⟩) steps kept

theorem timing_inv (width : W ≤ 64) {state : SimState W × Readings W}
    (reached : Steps (readingStep F policy cfg seed) (initial cfg genStart starts, .initial) state) :
    ReadingKept state ∧ Timing.Inv F (timing state) := by
  have first : ReadingKept (initial cfg genStart starts, .initial) := by
    intro j now snap loading
    simp [initial, Worker.initial] at loading
  obtain ⟨kept, steps⟩ := timing_refines (fun _ _ => True) (fun _ _ _ _ _ => trivial) reached first
  refine ⟨kept, Timing.inv_of_steps width ?_ steps⟩
  constructor
  · exact fun h => ⟨le_refl _, le_refl _⟩
  · intro p now read
    simp [timing, initial, Worker.initial, Pc.pass, Pass.reading] at read
  · intro p now snap loading
    simp [timing, initial, Worker.initial, Pc.pass] at loading
  · intro p now result waiting
    simp [timing, initial, Worker.initial, Pc.pass] at waiting
  · intro i _ small
    simp [timing, initial, SharedState.zero]

theorem steps_step {allowed : SimState W × Readings W → Act W → Prop}
    {state final : SimState W × Readings W}
    (steps : StepsIf (readingStep F policy cfg seed) allowed state final) :
    Steps (step F policy cfg seed) state.1 final.1 :=
  steps.lift Prod.fst fun _ _ ⟨act, _, taken⟩ =>
    ⟨act, trivial, ((product_eq_some ..).1 taken).1⟩

theorem reading_of_passing {state : SimState W × Readings W} (kept : ReadingKept state)
    {bound : Int → Prop}
    (late : ∀ p, (state.1.workers p).pc.passing = true → bound (state.2.lastOf p)) :
    ∀ p, ∀ now ∈ ((timing state).pass p).reading, bound now := by
  intro p now read
  have passing := late p
  have current := kept p
  simp only [timing] at read
  generalize (state.1.workers p).pc = pc at read passing current
  cases pc with
  | snapshot reading snap =>
      cases read
      exact current now snap rfl ▸ passing rfl
  | publish result =>
      cases read
      exact passing rfl
  | _ => cases read

theorem publish_of_comesFrom {state : SimState W × Readings W} {p : Fin W}
    {move : TimedMove W} {result : ScheduleResult}
    (position : (state.1.workers p).pc = .publish result)
    (source : ComesFrom state (.worker p .internal) move) : move = .publish p true := by
  cases move with
  | publish owner written =>
      obtain ⟨same, rfl, _⟩ := source
      cases same
      rfl
  | stamp | start =>
      obtain ⟨same, _⟩ := source
      cases same
  | load | compute | work => exact absurd position (source p result rfl)

end Steps

end MicroHermes.Sim
