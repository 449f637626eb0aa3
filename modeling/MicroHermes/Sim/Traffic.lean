import Mathlib.Algebra.Order.Floor.Div
import MicroHermes.Sim.Conservation

set_option autoImplicit false

namespace MicroHermes.Sim

open Transition

variable {W : Nat}

def offer (cfg : WorkloadConfig) (seed : UInt64) (connId : Nat) : Nat × UInt64 × UInt32 :=
  (connId, connHash seed connId, asMicros (cfg.service.sample (connHash seed connId)))

def connCount (cfg : WorkloadConfig) : Nat := cfg.durationNs ⌈/⌉ cfg.intervalNs

def offered (cfg : WorkloadConfig) (seed : UInt64) : List (Nat × UInt64 × UInt32) :=
  (List.range (connCount cfg)).map (offer cfg seed)

def ConnDesc.offer (desc : ConnDesc) : Nat × UInt64 × UInt32 :=
  (desc.connId, desc.hash, desc.serviceUs)

def Generator.offered (gen : Generator W) : List (Nat × UInt64 × UInt32) :=
  gen.sent.map fun e => e.desc.offer

def generate (policy : Policy) (cfg : WorkloadConfig) (seed : UInt64) (gen : Generator W)
    (act : SharedState W × Sys) : Option (Generator W) :=
  (genStep policy cfg seed act.1 gen act.2).map Prod.snd

section Progress

def DispatchPc.active : DispatchPc W → Bool
  | .picked _ | .noWorker => false
  | _ => true

def PushPc.active : PushPc → Bool
  | .idle | .returned _ => false
  | _ => true

def DispatchPc.rank : DispatchPc W → Nat
  -- The loads that the scans of `dispatch` can still make.
  | .start => 5 * W + 1
  | .idleTail _ rest => 3 * rest.length + 3 + 2 * W
  | .idleHead _ rest _ => 3 * rest.length + 2 + 2 * W
  | .idlePending _ rest => 3 * rest.length + 1 + 2 * W
  | .lenTail _ rest _ => 2 * rest.length + 2
  | .lenHead _ rest _ _ => 2 * rest.length + 1
  | .picked _ | .noWorker => 0

def PushPc.rank : PushPc → Nat
  | .loadTail _ => 4
  | .loadHead _ _ => 3
  | .writeSlot _ _ => 2
  | .storeTail _ _ => 1
  | .idle | .returned _ => 0

def GenPc.rank : GenPc W → Nat
  -- The steps that the current connection can still take.
  | .pace => 5 * W + 10
  | .paceSleep => 5 * W + 9
  | .dispatch pc => pc.rank + 7
  | .describe _ => 6
  | .push _ call => call.rank + 1
  | .drop _ _ => 1
  | _ => 0

def connSteps (W : Nat) : Nat := 5 * W + 11

def stepsLeft (cfg : WorkloadConfig) (gen : Generator W) : Nat :=
  match gen.pc with
  | .loopTest => (connCount cfg - gen.generated) * connSteps W + 2
  | .shutdown => 1
  | .finished | .panicked => 0
  | pc => (connCount cfg - (gen.generated + 1)) * connSteps W + 2 + pc.rank

variable (policy : Policy) (shared : SharedState W)

theorem nextLen_rank (best : Option (Nat × Fin W)) (rest : List (Fin W)) :
    (nextLen best rest).rank ≤ 2 * rest.length := by
  cases rest with
  | nil => cases best <;> exact Nat.zero_le _
  | cons i rest => simp [nextLen, DispatchPc.rank]; omega

theorem nextIdle_rank (rest : List (Fin W)) :
    (nextIdle rest).rank ≤ 3 * rest.length + 2 * W := by
  cases rest with
  | nil =>
      have scan := nextLen_rank (W := W) none (List.finRange W)
      rw [List.length_finRange] at scan
      simpa [nextIdle] using scan
  | cons i rest => simp [nextIdle, DispatchPc.rank]; omega

theorem dispatchStep_rank (connHash : UInt64) {pc : DispatchPc W} (active : pc.active = true) :
    (dispatchStep policy shared connHash pc).rank < pc.rank := by
  cases pc with
  | start =>
      have scan := nextIdle_rank (List.finRange W).reverse
      rw [List.length_reverse, List.length_finRange] at scan
      cases policy with
      | lifo => exact scan.trans_lt (by simp only [DispatchPc.rank]; omega)
      | hermes | reuseportHash => exact Nat.succ_pos _
  | idleTail i rest => simp only [dispatchStep, DispatchPc.rank]; omega
  | idleHead i rest tail =>
      simp only [dispatchStep]
      split
      · simp only [DispatchPc.rank]; omega
      · exact (nextIdle_rank rest).trans_lt (by simp only [DispatchPc.rank]; omega)
  | idlePending i rest =>
      simp only [dispatchStep]
      split
      · simp only [DispatchPc.rank]; omega
      · exact (nextIdle_rank rest).trans_lt (by simp only [DispatchPc.rank]; omega)
  | lenTail i rest best => simp only [dispatchStep, DispatchPc.rank]; omega
  | lenHead i rest best tail => exact Nat.lt_succ_of_le (nextLen_rank _ rest)
  | picked target => cases active
  | noWorker => cases active

end Progress

section Targets

def DispatchPc.Valid : DispatchPc W → Prop
  | .picked target => target < W
  | .noWorker => False
  | _ => True

theorem nextLen_valid (best : Option (Nat × Fin W)) (rest : List (Fin W))
    (some : best.isSome ∨ rest ≠ []) : (nextLen best rest).Valid := by
  cases rest with
  | cons i rest => trivial
  | nil =>
      cases best with
      | none => simp at some
      | some least => exact least.2.isLt

theorem nextIdle_valid (workers : 0 < W) (rest : List (Fin W)) : (nextIdle rest).Valid := by
  cases rest with
  | cons i rest => trivial
  | nil =>
      refine nextLen_valid none _ (.inr ?_)
      rw [ne_eq, List.finRange_eq_nil_iff]
      omega

theorem dispatchStep_valid (workers : 0 < W) (width : W ≤ 64) (policy : Policy)
    (shared : SharedState W) (connHash : UInt64) {pc : DispatchPc W} (active : pc.active = true) :
    (dispatchStep policy shared connHash pc).Valid := by
  cases pc with
  | start =>
      cases policy with
      | hermes => exact dispatchHermes_lt workers (by omega) _ connHash
      | lifo => exact nextIdle_valid workers _
      | reuseportHash => exact reuseportHash_lt workers (by omega) connHash
  | idleTail i rest => trivial
  | idleHead i rest tail =>
      simp only [dispatchStep]
      split
      · trivial
      · exact nextIdle_valid workers rest
  | idlePending i rest =>
      simp only [dispatchStep]
      split
      · exact i.isLt
      · exact nextIdle_valid workers rest
  | lenTail i rest best => trivial
  | lenHead i rest best tail => exact nextLen_valid _ rest (.inl rfl)
  | picked target => cases active
  | noWorker => cases active

end Targets

def GenPc.Fits (running : Prop) : GenPc W → Prop
  -- What the place of the generator says of its loop test and of its calls.
  | .loopTest => True
  | .shutdown | .finished => ¬ running
  | .panicked => False
  | .dispatch pc => running ∧ pc.active = true
  | .describe target => running ∧ target < W
  | .push _ call => running ∧ call.active = true
  | _ => running

structure Offering (cfg : WorkloadConfig) (seed : UInt64) (gen : Generator W) : Prop where
  stream : gen.offered = (List.range gen.generated).map (offer cfg seed)
  current : ∀ desc, gen.pc.inHand = some desc → desc.offer = offer cfg seed gen.generated
  paced : gen.nextArrival = gen.generated * cfg.intervalNs
  bounded : gen.generated ≤ connCount cfg
  place : gen.pc.Fits (gen.nextArrival < cfg.durationNs)

section Invariant

variable {policy : Policy} {cfg : WorkloadConfig} {seed : UInt64} {shared shared' : SharedState W}
  {gen gen' : Generator W} {label : Sys}

theorem not_inHand {pc : GenPc W} (empty : pc.inHand = none) {p : ConnDesc → Prop} :
    ∀ desc, pc.inHand = some desc → p desc := by
  simp [empty]

theorem offering_initial (start : Int) : Offering cfg seed (Generator.initial start : Generator W) where
  stream := rfl
  current := not_inHand rfl
  paced := (Nat.zero_mul _).symm
  bounded := Nat.zero_le _
  place := trivial

theorem Offering.kept (inv : Offering cfg seed gen) (sent : gen'.sent = gen.sent)
    (generated : gen'.generated = gen.generated) (arrival : gen'.nextArrival = gen.nextArrival)
    (current : ∀ desc, gen'.pc.inHand = some desc → desc.offer = offer cfg seed gen.generated)
    (place : gen'.pc.Fits (gen.nextArrival < cfg.durationNs)) : Offering cfg seed gen' where
  stream := by rw [Generator.offered, sent, generated]; exact inv.stream
  current := by rwa [generated]
  paced := by rw [arrival, generated]; exact inv.paced
  bounded := generated ▸ inv.bounded
  place := by rwa [arrival]

theorem Offering.alive (inv : Offering cfg seed gen) : gen.pc ≠ .panicked := by
  intro panicked
  have place := inv.place
  rw [panicked] at place
  exact place

theorem Offering.running_iff (inv : Offering cfg seed gen) (paced : 0 < cfg.intervalNs) :
    gen.nextArrival < cfg.durationNs ↔ gen.generated < connCount cfg := by
  rw [inv.paced, connCount, ← not_le, ← not_le, ceilDiv_le_iff_le_mul paced, Nat.mul_comm]

theorem Offering.complete (inv : Offering cfg seed gen) (paced : 0 < cfg.intervalNs)
    (running : gen.nextArrival < cfg.durationNs) {desc : ConnDesc}
    (inHand : desc.offer = offer cfg seed gen.generated) (target : Fin W) (pushed : Bool)
    (dropped : Nat) :
    Offering cfg seed ({ gen with dropped }.complete cfg ⟨desc, target, pushed⟩) where
  stream := by
    have before := inv.stream
    simp only [Generator.offered] at before
    simp [Generator.complete, Generator.offered, before, inHand, List.range_succ]
  current := not_inHand rfl
  paced := by
    have before := inv.paced
    simp only [Generator.complete, Nat.add_one_mul]
    omega
  bounded := (inv.running_iff paced).1 running
  place := trivial

theorem afterDispatch_fits {running : Prop} (here : running) {pc : DispatchPc W} (valid : pc.Valid) :
    (afterDispatch pc).Fits running := by
  cases pc with
  | picked target => exact ⟨here, valid⟩
  | noWorker => exact valid.elim
  | start | idleTail _ _ | idleHead _ _ _ | idlePending _ _ | lenTail _ _ _ | lenHead _ _ _ _ =>
      exact ⟨here, rfl⟩

theorem moves_offering (workers : 0 < W) (width : W ≤ 64) (paced : 0 < cfg.intervalNs)
    (inv : Offering cfg seed gen) (moved : GenMoves policy cfg seed shared gen label shared' gen') :
    Offering cfg seed gen' := by
  have place := inv.place
  have current := inv.current
  cases moved with
  | enter pc inside => exact inv.kept rfl rfl rfl (not_inHand rfl) inside
  | leave pc past => exact inv.kept rfl rfl rfl (not_inHand rfl) past
  | early now pc ahead | late now pc due | slept pc =>
      rw [pc] at place
      first
        | exact inv.kept rfl rfl rfl (not_inHand rfl) place
        | exact inv.kept rfl rfl rfl (not_inHand rfl) ⟨place, rfl⟩
  | dispatch scan pc =>
      rw [pc] at place
      have valid := dispatchStep_valid workers width policy shared
        (connHash seed gen.generated) place.2
      refine inv.kept rfl rfl rfl ?_ (afterDispatch_fits place.1 valid)
      cases dispatchStep policy shared (connHash seed gen.generated) scan <;> exact not_inHand rfl
  | describe now target pc =>
      rw [pc] at place
      refine inv.kept rfl rfl rfl ?_ ⟨place.1, rfl⟩
      rintro desc ⟨rfl⟩
      rfl
  | misdirected now target pc outside =>
      rw [pc] at place
      exact absurd place.2 outside
  | push target call pc =>
      rw [pc] at place current
      cases call with
      | storeTail desc tail => exact inv.complete paced place.1 (current desc rfl) target true _
      | loadHead desc tail =>
          by_cases full : (tail - (shared.queues target).head).toNat ≥ queueCap
          · simp only [afterPush, pushStep, full, if_true]
            exact inv.kept rfl rfl rfl current place.1
          · simp only [afterPush, pushStep, full, if_false, reduceCtorEq]
            exact inv.kept rfl rfl rfl current ⟨place.1, rfl⟩
      | loadTail desc | writeSlot desc tail =>
          exact inv.kept rfl rfl rfl current ⟨place.1, rfl⟩
      | idle | returned _ => cases place.2
  | drop target desc pc =>
      rw [pc] at place current
      exact inv.complete paced place (current desc rfl) target false _
  | shutdown pc =>
      rw [pc] at place
      exact inv.kept rfl rfl rfl (not_inHand rfl) place

theorem afterDispatch_stepsLeft (gen : Generator W) {pc : DispatchPc W} :
    stepsLeft cfg { gen with pc := afterDispatch pc } ≤
      (connCount cfg - (gen.generated + 1)) * connSteps W + 2 + (pc.rank + 7) := by
  cases pc <;> simp only [afterDispatch, stepsLeft, GenPc.rank, DispatchPc.rank] <;> omega

theorem complete_stepsLeft (gen : Generator W) (sent : Sent W) :
    stepsLeft cfg (gen.complete cfg sent) =
      (connCount cfg - (gen.generated + 1)) * connSteps W + 2 := rfl

theorem moves_stepsLeft (paced : 0 < cfg.intervalNs) (inv : Offering cfg seed gen)
    (moved : GenMoves policy cfg seed shared gen label shared' gen') :
    stepsLeft cfg gen' < stepsLeft cfg gen := by
  have place := inv.place
  cases moved with
  | enter pc inside =>
      have room := (inv.running_iff paced).1 inside
      have split : connCount cfg - gen.generated = connCount cfg - (gen.generated + 1) + 1 := by
        omega
      simp only [stepsLeft, pc, GenPc.rank, connSteps, split, Nat.add_one_mul]
      omega
  | leave pc past =>
      simp only [stepsLeft, pc]
      omega
  | dispatch scan pc =>
      rw [pc] at place
      have fewer := dispatchStep_rank policy shared
        (connHash seed gen.generated) place.2
      refine (afterDispatch_stepsLeft gen).trans_lt ?_
      simp only [stepsLeft, pc, GenPc.rank]
      omega
  | push target call pc =>
      rw [pc] at place
      cases call with
      | storeTail desc tail =>
          refine (complete_stepsLeft gen _).trans_lt ?_
          simp only [stepsLeft, pc, GenPc.rank, PushPc.rank]
          omega
      | loadHead desc tail =>
          by_cases full : (tail - (shared.queues target).head).toNat ≥ queueCap
          · simp only [afterPush, pushStep, full, if_true, stepsLeft, pc, GenPc.rank, PushPc.rank]
            omega
          · simp only [afterPush, pushStep, full, if_false, reduceCtorEq, stepsLeft, pc, GenPc.rank,
              PushPc.rank]
            omega
      | loadTail desc | writeSlot desc tail =>
          simp only [afterPush, pushStep, stepsLeft, pc, GenPc.rank, PushPc.rank]
          omega
      | idle | returned _ => cases place.2
  | drop target desc pc =>
      refine (complete_stepsLeft { gen with dropped := gen.dropped + 1 } _).trans_lt ?_
      simp only [stepsLeft, pc, GenPc.rank]
      omega
  | _ =>
      simp only [stepsLeft, ‹gen.pc = _›, GenPc.rank, DispatchPc.rank, PushPc.rank, Generator.count]
      omega

theorem genStep_ready (running : gen.pc ≠ .finished) (alive : gen.pc ≠ .panicked)
    (shared : SharedState W) (now : Int) :
    ∃ label : Sys, label.standsAt now ∧ (genStep policy cfg seed shared gen label).isSome := by
  cases pc : gen.pc with
  | pace => exact ⟨.clock now, rfl, by simp [genStep, pc, Sys.asClock]⟩
  | describe target =>
      refine ⟨.clock now, rfl, ?_⟩
      simp only [genStep, pc, Sys.asClock, Option.map_some]
      split <;> rfl
  | finished => exact absurd pc running
  | panicked => exact absurd pc alive
  | _ => exact ⟨.internal, trivial, by simp [genStep, pc, Sys.asInternal]⟩

end Invariant

section Runs

variable {policy : Policy} {cfg : WorkloadConfig} {seed : UInt64} {gen : Generator W}

theorem generate_moves {next : Generator W} {act : SharedState W × Sys}
    (taken : generate policy cfg seed gen act = some next) :
    ∃ shared', GenMoves policy cfg seed act.1 gen act.2 shared' next := by
  simp only [generate, Option.map_eq_some_iff] at taken
  obtain ⟨⟨shared', _⟩, moved, rfl⟩ := taken
  exact ⟨shared', genStep_moves moved⟩

theorem run_offering (workers : 0 < W) (width : W ≤ 64) (paced : 0 < cfg.intervalNs) {start : Int}
    {acts : List (SharedState W × Sys)}
    (run : exec (generate policy cfg seed) (Generator.initial start) acts = some gen) :
    Offering cfg seed gen ∧ acts.length ≤ connCount cfg * connSteps W + 2 := by
  have kept (gen : Generator W) (act : SharedState W × Sys) (next : Generator W)
      (inv : Offering cfg seed gen) (taken : generate policy cfg seed gen act = some next) :
      Offering cfg seed next ∧ stepsLeft cfg next < stepsLeft cfg gen := by
    obtain ⟨shared', moved⟩ := generate_moves taken
    exact ⟨moves_offering workers width paced inv moved, moves_stepsLeft paced inv moved⟩
  constructor
  · exact Steps.preserve (Offering cfg seed)
      (fun gen act next inv taken => (kept gen act next inv taken).1) (exec_steps run)
      (offering_initial start)
  · have length := exec_length (Offering cfg seed) (stepsLeft cfg) kept run (offering_initial start)
    exact (Nat.le_add_right ..).trans length

theorem system_offering (workers : 0 < W) (width : W ≤ 64) (paced : 0 < cfg.intervalNs) {F : Type}
    [MetricArith F] {genStart : Int} {starts : Fin W → Int} {s : SimState W}
    (steps : Steps (step F policy cfg seed) (initial cfg genStart starts) s) :
    Offering cfg seed s.gen := by
  refine Steps.preserve (fun s : SimState W => Offering cfg seed s.gen) ?_ steps
    (offering_initial genStart)
  intro s act next inv taken
  cases act with
  | gen label => exact moves_offering workers width paced inv (step_gen taken).1
  | worker i label =>
      obtain ⟨_, _, _, same, _⟩ := step_worker taken
      rwa [same]

theorem Offering.outcome (inv : Offering cfg seed gen) (paced : 0 < cfg.intervalNs) :
    gen.offered <+: offered cfg seed ∧ (gen.pc = .finished → gen.offered = offered cfg seed) := by
  rw [inv.stream]
  constructor
  · have front : List.range gen.generated = (List.range (connCount cfg)).take gen.generated := by
      rw [List.take_range, Nat.min_eq_left inv.bounded]
    rw [front]
    exact (List.take_prefix ..).map _
  · intro finished
    have place := inv.place
    rw [finished] at place
    have all := mt (inv.running_iff paced).2 place
    rw [offered, le_antisymm inv.bounded (by omega)]

end Runs

end MicroHermes.Sim
