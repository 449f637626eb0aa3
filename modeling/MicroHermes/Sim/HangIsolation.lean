import MicroHermes.Kernel
import MicroHermes.Readmission
import MicroHermes.Sim.Readings

set_option autoImplicit false

namespace MicroHermes.Sim

open Transition Bitmap

variable {W : Nat} {F : Type} [MetricArith F] {cfg : WorkloadConfig} {seed : UInt64}
  {genStart : Int} {starts : Fin W → Int} {state published after final : SimState W × Readings W}
  {h p : Fin W}

def stamps (h : Fin W) (state : SimState W × Readings W) : Act W → Bool
  -- The step is a stamp of worker `h`.
  | .worker i (.clock _) => i == h && match (state.1.workers i).pc with
    | .stamp => true
    | _ => false
  | _ => false

def beginsBefore (deadline : Int) (state : SimState W × Readings W) : Act W → Bool
  -- The step starts a pass with a reading before `deadline`.
  | .worker i (.clock now) => (match (state.1.workers i).pc with
    | .scheduleNow => true
    | _ => false) && decide (now < deadline)
  | _ => false

section Dispatch

def GenPc.chosen : GenPc W → Option Nat
  -- The worker that the connection in hand goes to.
  | .describe target => some target
  | .push target _ | .drop target _ => some target.val
  | _ => none

def GenPc.atDispatch : GenPc W → Bool
  | .dispatch _ => true
  | _ => false

def Avoids (h : Fin W) (base : List (Sent W)) (room : Nat) (gen : Generator W) : Prop :=
  ∃ settled new, gen.sent = base ++ settled ++ new ∧ settled.length ≤ room ∧
    (∀ e ∈ new, e.target ≠ h) ∧
    (gen.pc.chosen = some h.val → settled = [] ∧ new = [] ∧ room = 1)

def ScansFirst (gen : Generator W) : Prop :=
  -- The hermes policy picks in the first step of `dispatch`.
  ∀ scan, gen.pc = .dispatch scan → scan = .start

variable {base : List (Sent W)} {room : Nat}

theorem Avoids.kept {gen gen' : Generator W} (inv : Avoids h base room gen)
    (sent : gen'.sent = gen.sent)
    (chosen : gen'.pc.chosen = some h.val → gen.pc.chosen = some h.val) :
    Avoids h base room gen' := by
  obtain ⟨settled, new, split, few, others, first⟩ := inv
  exact ⟨settled, new, sent.trans split, few, others, fun same => first (chosen same)⟩

theorem Avoids.complete {gen : Generator W} (inv : Avoids h base room gen) {e : Sent W}
    (chosen : gen.pc.chosen = some e.target.val) : Avoids h base room (gen.complete cfg e) := by
  obtain ⟨settled, new, split, few, others, first⟩ := inv
  by_cases same : e.target = h
  · -- Only the connection that was in hand at the start goes to `h`.
    obtain ⟨rfl, rfl, one⟩ := first (by rw [chosen, same])
    exact ⟨[e], [], by simp [Generator.complete, split], one.ge, nofun, nofun⟩
  · refine ⟨settled, new ++ [e], by simp [Generator.complete, split], few, ?_, nofun⟩
    exact List.forall_mem_append.2 ⟨others, List.forall_mem_singleton.2 same⟩

variable (cfg) in
theorem afterPush_cases (gen : Generator W) (target : Fin W) (call next : PushPc) :
    (∃ desc, afterPush cfg gen target call next = gen.complete cfg ⟨desc, target, true⟩) ∨
      (afterPush cfg gen target call next).sent = gen.sent ∧
        (afterPush cfg gen target call next).pc.chosen = some target.val ∧
        ∀ scan, (afterPush cfg gen target call next).pc ≠ .dispatch scan := by
  unfold afterPush
  split
  · exact .inl ⟨_, rfl⟩
  · split <;> exact .inr ⟨rfl, rfl, nofun⟩
  · exact .inr ⟨rfl, rfl, nofun⟩

theorem dispatchHermes_ne (width : W ≤ 64) {bitmap : UInt64}
    (named : ∀ i, W ≤ i → i < 64 → bit bitmap i = false) (clear : bit bitmap h = false)
    (several : 2 ≤ (countOnes bitmap).toNat) (connHash : UInt64) :
    dispatchHermes W bitmap connHash ≠ h.val := by
  obtain ⟨i, found, _, set⟩ := findNthSetBit_some width named connHash.toUInt32 several
  rw [dispatchHermes_several bitmap connHash several found]
  rintro rfl
  rw [clear] at set
  cases set

theorem GenMoves.scansFirst {shared shared' : SharedState W} {gen gen' : Generator W} {label : Sys}
    (moved : GenMoves .hermes cfg seed shared gen label shared' gen') (scans : ScansFirst gen) :
    ScansFirst gen' := by
  cases moved with
  | late _ pc | slept pc =>
      intro scan same
      cases same
      rfl
  | dispatch scan pc =>
      obtain rfl := scans scan pc
      nofun
  | push target call pc =>
      rcases afterPush_cases cfg gen target call (pushStep (shared.queues target) call).2 with
        ⟨desc, completed⟩ | ⟨_, _, running⟩
      · rw [completed]
        nofun
      · exact fun scan same => absurd same (running scan)
  | _ => nofun

theorem Avoids.step {shared shared' : SharedState W} {gen gen' : Generator W} {label : Sys}
    (inv : Avoids h base room gen) (scans : ScansFirst gen)
    (avoided : gen.pc.atDispatch = true →
      ∀ connHash, dispatchHermes W shared.msel connHash ≠ h.val)
    (moved : GenMoves .hermes cfg seed shared gen label shared' gen') :
    Avoids h base room gen' := by
  cases moved with
  | dispatch scan pc =>
      obtain rfl := scans scan pc
      have other := avoided (by rw [pc]; rfl) (connHash seed gen.generated)
      exact inv.kept rfl fun same => absurd (Option.some.inj same) other
  | push target call pc =>
      have chosen : gen.pc.chosen = some target.val := by rw [pc]; rfl
      rcases afterPush_cases cfg gen target call (pushStep (shared.queues target) call).2 with
        ⟨desc, completed⟩ | ⟨sent, current, _⟩
      · rw [completed]
        exact inv.complete chosen
      · exact inv.kept sent fun same => chosen.trans (current.symm.trans same)
  | drop target desc pc =>
      have before : Avoids h base room { gen with dropped := gen.dropped + 1 } := inv.kept rfl id
      exact before.complete (by simp [pc, GenPc.chosen])
  | _ => exact inv.kept rfl (by simp [‹gen.pc = _›, GenPc.chosen])

end Dispatch

section Hung

variable {act : Act W} {move : TimedMove W} {t : Int}

theorem stampsSlot_of_stamps (quiet : stamps h state act = false)
    (source : ComesFrom state act move) : Timing.stampsSlot h move = false := by
  cases move with
  | stamp owner now =>
      obtain ⟨rfl, here⟩ := source
      simpa [stamps, here, Timing.stampsSlot] using quiet
  | _ => rfl

theorem revives_of_stamps (quiet : stamps h state act = false)
    (late : beginsBefore (t + hangThresholdNs) state act = false)
    (source : ComesFrom state act move) : Timing.revives h t move = false := by
  cases move with
  | stamp owner now => exact stampsSlot_of_stamps quiet source
  | start owner now =>
      obtain ⟨rfl, here⟩ := source
      simpa [beginsBefore, here, Timing.revives] using late
  | _ => rfl

theorem run_scansFirst {s : SimState W}
    (steps : Steps (step F .hermes cfg seed) (initial cfg genStart starts) s) :
    ScansFirst s.gen := by
  refine Steps.preserve (fun s => ScansFirst s.gen) ?_ steps nofun
  intro s act next scans taken
  cases act with
  | gen label => exact (step_gen taken).1.scansFirst scans
  | worker i label =>
      obtain ⟨_, _, _, gen, _⟩ := step_worker taken
      rwa [gen]

structure Isolated (F : Type) [MetricArith F] (h : Fin W) (t : Int) (base : List (Sent W))
    (room : Nat) (state : SimState W × Readings W) : Prop where
  kept : ReadingKept state
  inv : Timing.Inv F (timing state)
  out : Timing.Out h t (timing state)
  scans : ScansFirst state.1.gen
  avoids : Avoids h base room state.1.gen

def quietFor (h : Fin W) (state : SimState W × Readings W) (act : Act W) : Prop :=
  -- `h` does not stamp, and a dispatch finds two candidates.
  stamps h state act = false ∧
    (state.1.gen.pc.atDispatch = true → 2 ≤ (countOnes state.1.shared.msel).toNat)

theorem Isolated.step {next : SimState W × Readings W} {base : List (Sent W)} {room : Nat}
    (isolated : Isolated F h t base room state) (width : W ≤ 64) (nonzero : t ≠ 0)
    (quiet : quietFor h state act)
    (taken : readingStep F .hermes cfg seed state act = some next) :
    Isolated F h t base room next := by
  obtain ⟨kept, inv, out, scans, avoids⟩ := isolated
  obtain ⟨keptNext, move, source, moved⟩ := timing_simulates kept taken
  have stepped := ((product_eq_some ..).1 taken).1
  have invNext := Timing.step_inv width inv moved
  have outNext := out.step inv nonzero width (stampsSlot_of_stamps quiet.1 source) moved
  cases act with
  | gen label =>
      obtain ⟨sent, _⟩ := step_gen stepped
      refine ⟨keptNext, invNext, outNext, sent.scansFirst scans, avoids.step scans ?_ sent⟩
      exact fun dispatching => dispatchHermes_ne width inv.named out.clear (quiet.2 dispatching)
  | worker i label =>
      obtain ⟨_, _, _, gen, _⟩ := step_worker stepped
      exact ⟨keptNext, invNext, outNext, gen ▸ scans, gen ▸ avoids⟩

theorem hung_worker_isolated (width : W ≤ 64) {result : ScheduleResult}
    (reached : Steps (readingStep F .hermes cfg seed) (initial cfg genStart starts, .initial) state)
    (nonzero : (state.1.shared.wst h).lastLoopEntry ≠ 0)
    (noStale : ∀ p, (state.1.workers p).pc.passing = true →
      (state.1.shared.wst h).lastLoopEntry + hangThresholdNs ≤ state.2.lastOf p)
    (waiting : StepsIf (readingStep F .hermes cfg seed)
      (fun now act => stamps h now act = false ∧
        beginsBefore ((state.1.shared.wst h).lastLoopEntry + hangThresholdNs) now act = false)
      state published)
    (position : (published.1.workers p).pc = .publish result)
    (publish : readingStep F .hermes cfg seed published (.worker p .internal) = some after)
    (later : StepsIf (readingStep F .hermes cfg seed) (quietFor h) after final) :
    bit final.1.shared.msel h = false ∧
      ∃ settled new, final.1.gen.sent = after.1.gen.sent ++ settled ++ new ∧
        settled.length ≤ (if after.1.gen.pc.chosen = some h.val then 1 else 0) ∧
        ∀ e ∈ new, e.target ≠ h := by
  obtain ⟨kept, inv⟩ := timing_inv width reached
  obtain ⟨keptPublished, quiet⟩ := timing_refines
    (fun _ move => Timing.revives h (state.1.shared.wst h).lastLoopEntry move = false)
    (fun _ _ _ quiet source => revives_of_stamps quiet.1 quiet.2 source) waiting kept
  have invPublished := Timing.inv_of_steps width inv quiet.forget
  have hung : Timing.Hung h (state.1.shared.wst h).lastLoopEntry (timing state) :=
    ⟨rfl, reading_of_passing kept noStale⟩
  have hungPublished := StepsIf.preserve _
    (fun _ _ _ holds still moved => Timing.Hung.step holds still moved) quiet hung
  obtain ⟨keptAfter, move, source, moved⟩ := timing_simulates keptPublished publish
  rw [publish_of_comesFrom position source] at moved
  have reachedAfter := (Relation.ReflTransGen.trans reached waiting.forget).tail
    ⟨_, trivial, publish⟩
  have first : Isolated F h (state.1.shared.wst h).lastLoopEntry after.1.gen.sent
      (if after.1.gen.pc.chosen = some h.val then 1 else 0) after := by
    refine ⟨keptAfter, Timing.step_inv width invPublished moved,
      Timing.Out.of_publish invPublished hungPublished nonzero width moved,
      run_scansFirst (steps_step reachedAfter), [], [], by simp, Nat.zero_le _, nofun, ?_⟩
    exact fun chosen => ⟨rfl, rfl, if_pos chosen⟩
  have isolated := StepsIf.preserve (Isolated F h (state.1.shared.wst h).lastLoopEntry
    after.1.gen.sent (if after.1.gen.pc.chosen = some h.val then 1 else 0))
    (fun _ _ _ holds quiet taken => holds.step width nonzero quiet taken) later first
  obtain ⟨settled, new, split, few, others, _⟩ := isolated.avoids
  exact ⟨isolated.out.clear, settled, new, split, few, others⟩

end Hung

def plainTraffic : WorkloadConfig := { hangAndBurst with hang := none, burst := none }

def untilPass (stopped idle : Fin 3) : List (Act 3) :=
  -- One worker stamps at 1 and stops; the other waits for a connection until its poll times out.
  [.worker stopped (.clock 1)] ++
    [Sys.clock 200000000, .internal, .clock 200000000, .internal, .internal, .internal,
      .clock 200000000, .internal, .internal, .clock 205000000, .internal].map (Act.worker idle)

def passAt (p : Fin 3) (now : Int) : List (Act 3) :=
  -- Nine loads, then the filter.
  .worker p (.clock now) :: List.replicate 10 (.worker p .internal)

def sendLate : List (Act 3) :=
  [Sys.internal, .clock 205000000, .internal, .clock 205000000, .internal, .internal, .internal,
    .internal].map Act.gen

abbrev plainStep : SimState 3 × Readings 3 → Act 3 → Option (SimState 3 × Readings 3) :=
  readingStep Rat .hermes plainTraffic 0

def publishing {W : Nat} : Pc W → Option ScheduleResult
  | .publish result => some result
  | _ => none

theorem publishing_eq_some {W : Nat} {pc : Pc W} {result : ScheduleResult} :
    publishing pc = some result ↔ pc = .publish result := by
  cases pc <;> simp [publishing]

theorem hung_worker_isolated_third :
    ∃ state : SimState 3 × Readings 3,
      (state.1.gen.sent.map fun e => e.target) = [0] ∧
      bit state.1.shared.msel 2 = false ∧ ∀ e ∈ state.1.gen.sent, e.target ≠ 2 := by
  have ran : (do
      let state ← exec plainStep (initial plainTraffic 0 fun _ => 0, Readings.initial) (untilPass 2 0)
      let published ← exec (restrict plainStep fun now act =>
        !stamps 2 now act && !beginsBefore 200000001 now act) state (passAt 0 205000000)
      let result ← publishing (published.1.workers 0).pc
      let after ← plainStep published (.worker 0 .internal)
      let final ← exec (restrict plainStep fun now act => !stamps 2 now act &&
        (!now.1.gen.pc.atDispatch || decide (2 ≤ (countOnes now.1.shared.msel).toNat))) after
        sendLate
      some ((state.1.shared.wst 2).lastLoopEntry, (List.finRange 3).map fun p =>
        (state.1.workers p).pc.passing, after.1.gen.sent.length, after.1.gen.pc.chosen,
        final.1.gen.sent.map fun e => e.target)) =
      some (1, [false, false, false], 0, none, [0]) := by decide +kernel
  simp only [Option.bind_eq_bind, Option.bind_eq_some_iff, Option.some.injEq, Prod.mk.injEq] at ran
  obtain ⟨state, before, published, waited, result, position, after, set, final, sent, stamp, idle,
    none, free, targets⟩ := ran
  have passing (p : Fin 3) : (state.1.workers p).pc.passing = false := by
    have all : ∀ b ∈ (List.finRange 3).map fun p => (state.1.workers p).pc.passing, b = false := by
      rw [idle]
      decide
    exact all _ (List.mem_map_of_mem (List.mem_finRange p))
  have isolated := hung_worker_isolated (F := Rat) (h := 2) (p := 0) (by decide)
    (exec_steps before) (by rw [stamp]; decide)
    (fun p busy => absurd (busy.symm.trans (passing p)) (by decide))
    ((steps_restrict (exec_steps waited)).weaken fun now act quiet => by
      rw [stamp]
      simpa [hangThresholdNs] using quiet)
    (publishing_eq_some.1 position) set
    ((steps_restrict (exec_steps sent)).weaken fun now act quiet => by
      simp only [Bool.and_eq_true, Bool.not_eq_true', Bool.or_eq_true, decide_eq_true_eq] at quiet
      exact ⟨quiet.1, fun dispatching => quiet.2.resolve_left (by simp [dispatching])⟩)
  obtain ⟨clear, settled, new, split, few, others⟩ := isolated
  rw [free] at few
  obtain rfl : settled = [] := List.length_eq_zero_iff.1 (by simpa using few)
  rw [List.length_eq_zero_iff.1 none] at split
  exact ⟨final, targets, clear, by simpa [split] using others⟩

end MicroHermes.Sim
