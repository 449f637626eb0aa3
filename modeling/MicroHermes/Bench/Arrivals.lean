import MicroHermes.Bench.Cases
import MicroHermes.Sim.Traffic

set_option autoImplicit false

/-!
# The arrivals of the load generator

`hermes-bench/src/main.rs`: the loop that paces the connections and samples their kinds.
-/

namespace MicroHermes.Bench

open Sim (asMicros fromMillis)

def grace : Nat := fromMillis 500

structure Arrivals where
  now : Nat
  nextArrival : Nat
  connId : Nat
  -- The tasks and the instants they were spawned at.
  spawned : List (Task × Nat)

section Loop

variable (interval : Nat → Nat) (config : WorkloadConfig) (seed : UInt64) (clockStart genStart : Nat)
  (label : String) (oversleep : Nat → Nat)

def connHash (connId : Nat) : UInt64 :=
  (UInt64.ofNat connId ^^^ (seed * 0xff51afd7ed558ccd)) * 0x9e3779b97f4a7c15

def taskOf (connId : Nat) : Task where
  connId
  initialServiceUs := asMicros (config.service.sample (connHash seed connId))
  closeAt := genStart + min config.lifetimeNs (config.durationNs + grace)
  burst := config.burst
  clockStart
  genStart
  label

def arrivalLoop (fuel : Nat) (a : Arrivals) : Option Arrivals :=
  match fuel with
  | 0 => none
  | fuel + 1 =>
      if a.nextArrival - genStart < config.durationNs then
        -- `sleep_until` returns at the deadline or later.
        let now := max a.now a.nextArrival + oversleep a.connId
        arrivalLoop fuel
          { now
            nextArrival := a.nextArrival + interval config.cps
            connId := a.connId + 1
            spawned := a.spawned ++
              [(taskOf config seed clockStart genStart label a.connId, now)] }
      else some a

def arrivals (fuel : Nat) : Option Arrivals :=
  arrivalLoop interval config seed clockStart genStart label oversleep fuel
    { now := genStart, nextArrival := genStart, connId := 0, spawned := [] }

end Loop

def Task.offer (task : Task) : Nat × UInt32 := (task.connId, task.initialServiceUs)

def Arrivals.offered (a : Arrivals) : List (Nat × UInt32) := a.spawned.map fun s => s.1.offer

section Outcome

variable {interval : Nat → Nat} {config : WorkloadConfig} {seed : UInt64}
  {clockStart genStart : Nat} {label : String} {oversleep : Nat → Nat}

theorem arrivalLoop_offers (paced : 0 < interval config.cps) {count fuel : Nat} {a : Arrivals}
    (total : count = config.durationNs ⌈/⌉ interval config.cps)
    (arrival : a.nextArrival = genStart + a.connId * interval config.cps)
    (bounded : a.connId ≤ count) (enough : count - a.connId < fuel)
    (stream : a.offered = (List.range a.connId).map fun connId =>
      (taskOf config seed clockStart genStart label connId).offer) :
    ∃ out, arrivalLoop interval config seed clockStart genStart label oversleep fuel a = some out ∧
      out.offered = (List.range count).map fun connId =>
        (taskOf config seed clockStart genStart label connId).offer := by
  -- By induction on the fuel, which is more than the connections still to come.
  induction fuel generalizing a with
  | zero => omega
  | succ fuel ih =>
      have running : a.nextArrival - genStart < config.durationNs ↔ a.connId < count := by
        rw [arrival, Nat.add_sub_cancel_left, total, ← not_le, ← not_le,
          ceilDiv_le_iff_le_mul paced, Nat.mul_comm]
      unfold arrivalLoop
      by_cases inside : a.connId < count
      · rw [if_pos (running.2 inside)]
        refine ih ?_ inside (by dsimp only; omega) ?_
        · rw [arrival, Nat.add_one_mul, Nat.add_assoc]
        · simp only [Arrivals.offered] at stream
          simp [Arrivals.offered, stream, List.range_succ]
      · rw [if_neg (mt running.1 inside)]
        refine ⟨a, rfl, ?_⟩
        rw [stream, le_antisymm bounded (by omega)]

theorem arrivalLoop_spawned {fuel : Nat} {a out : Arrivals}
    (ids : a.spawned.map (fun spawn => spawn.1.connId) = List.range a.connId)
    (ran : arrivalLoop interval config seed clockStart genStart label oversleep fuel a = some out) :
    out.spawned.map (fun spawn => spawn.1.connId) = List.range out.connId := by
  induction fuel generalizing a with
  | zero => cases ran
  | succ fuel ih =>
      unfold arrivalLoop at ran
      split at ran
      · refine ih ?_ ran
        rw [List.map_append, ids, List.range_succ]
        rfl
      · obtain rfl := Option.some.inj ran
        exact ids

theorem arrivals_spawned {fuel : Nat} {out : Arrivals}
    (ran : arrivals interval config seed clockStart genStart label oversleep fuel = some out) :
    out.spawned.map (fun spawn => spawn.1.connId) = List.range out.connId :=
  arrivalLoop_spawned rfl ran

theorem arrivals_offer {case load : Option String} (accepted : configFromCli case load = .ok config)
    (paced : 0 < interval config.cps) {fuel : Nat}
    (enough : Sim.connCount ((Sim.configFromEnv case load).paced interval) < fuel) :
    ∃ out, arrivals interval config seed clockStart genStart label oversleep fuel = some out ∧
      out.offered = (Sim.offered ((Sim.configFromEnv case load).paced interval) seed).map
        fun offer => (offer.1, offer.2.2) := by
  obtain ⟨cps, duration, service⟩ := configFromCli_agrees accepted
  have total : Sim.connCount ((Sim.configFromEnv case load).paced interval) =
      config.durationNs ⌈/⌉ interval config.cps := by
    rw [Sim.connCount, Sim.CaseConfig.paced, cps, duration]
  have first : genStart = genStart + 0 * interval config.cps := by rw [Nat.zero_mul, Nat.add_zero]
  have start : Arrivals.offered ⟨genStart, genStart, 0, []⟩ =
      (List.range 0).map fun connId =>
        (taskOf config seed clockStart genStart label connId).offer := rfl
  obtain ⟨out, ran, stream⟩ := arrivalLoop_offers paced total first (Nat.zero_le _)
    (by simpa using enough) start
  refine ⟨out, ran, ?_⟩
  rw [stream, Sim.offered, List.map_map]
  refine List.map_congr_left fun connId _ => ?_
  simp only [Task.offer, taskOf, service, Function.comp_apply, Sim.offer, Sim.CaseConfig.paced]
  rfl

end Outcome

open Transition in
theorem offered_traffic_fixed {W : Nat} (workers : 0 < W) (width : W ≤ 64) (F : Type)
    [MetricArith F] :
    (∀ (policy : Sim.Policy) (cfg : Sim.WorkloadConfig) (seed : UInt64) (start : Int)
        (acts : List (Sim.SharedState W × Sim.Sys)) (gen : Sim.Generator W), 0 < cfg.intervalNs →
      exec (Sim.generate policy cfg seed) (Sim.Generator.initial start) acts = some gen →
      gen.offered <+: Sim.offered cfg seed ∧
      (gen.pc = .finished → gen.offered = Sim.offered cfg seed) ∧
      acts.length ≤ Sim.connCount cfg * Sim.connSteps W + 2 ∧
      (gen.pc ≠ .finished →
        ∀ shared, ∃ sys, (Sim.genStep policy cfg seed shared gen sys).isSome)) ∧
    (∀ (policy : Sim.Policy) (cfg : Sim.WorkloadConfig) (seed : UInt64) (genStart : Int)
        (starts : Fin W → Int) (acts : List (Sim.Act W)) (s : Sim.SimState W), 0 < cfg.intervalNs →
      exec (Sim.step F policy cfg seed) (Sim.initial cfg genStart starts) acts = some s →
      s.gen.offered <+: Sim.offered cfg seed ∧
      (s.gen.pc = .finished → s.gen.offered = Sim.offered cfg seed)) ∧
    (∀ cfg seed, (Sim.offered cfg seed).length = cfg.durationNs ⌈/⌉ cfg.intervalNs) ∧
    ∀ (interval : Nat → Nat) (case load : Option String) (config : WorkloadConfig),
      configFromCli case load = .ok config → 0 < interval config.cps →
      ∀ (seed : UInt64) (clockStart genStart : Nat) (label : String) (oversleep : Nat → Nat)
          (fuel : Nat), Sim.connCount ((Sim.configFromEnv case load).paced interval) < fuel →
        ∃ out, arrivals interval config seed clockStart genStart label oversleep fuel = some out ∧
          out.offered = (Sim.offered ((Sim.configFromEnv case load).paced interval) seed).map
            fun offer => (offer.1, offer.2.2) := by
  refine ⟨fun policy cfg seed start acts gen paced run => ?_,
    fun policy cfg seed genStart starts acts s paced run => ?_, fun cfg seed => ?_,
    fun interval case load config accepted paced seed clockStart genStart label oversleep fuel enough =>
      arrivals_offer accepted paced enough⟩
  · obtain ⟨inv, length⟩ := Sim.run_offering workers width paced run
    obtain ⟨prefixed, all⟩ := inv.outcome paced
    refine ⟨prefixed, all, length, fun running shared => ?_⟩
    exact (Sim.genStep_ready running inv.alive shared 0).imp fun _ => And.right
  · exact (Sim.system_offering workers width paced (exec_steps run)).outcome paced
  · rw [Sim.offered, List.length_map, List.length_range, Sim.connCount]

open Transition in
theorem offered_traffic_fixed_burst_case :
    (∃ config out, configFromCli (some "5") none = .ok config ∧
      arrivals (fun _ => 16666667) config 7 0 0 "run" (fun _ => 3) 241 = some out ∧
      out.offered.length = 240) ∧
    ∃ s : Sim.SimState 1,
      exec (Sim.step Rat .reuseportHash Sim.hangAndBurst 0)
        (Sim.initial Sim.hangAndBurst 0 fun _ => 0)
        ((Sim.sendOne ++ Sim.lastTwo).map .gen) = some s ∧
      s.gen.offered = Sim.offered Sim.hangAndBurst 0 ∧ s.gen.offered.length = 1 := by
  constructor
  · have count : Sim.connCount ((Sim.configFromEnv (some "5") none).paced fun _ => 16666667) =
        240 := by
      decide
    obtain ⟨_, _, lengths, bench⟩ :=
      offered_traffic_fixed (W := numWorkers) (by decide) (by decide) Rat
    obtain ⟨out, ran, stream⟩ := bench (fun _ => 16666667) (some "5") none _ rfl (by decide) 7 0 0
      "run" (fun _ => 3) 241 (by rw [count]; decide)
    refine ⟨_, out, rfl, ran, ?_⟩
    rw [stream, List.length_map, lengths]
    exact count
  · have run : ((exec (Sim.step Rat .reuseportHash Sim.hangAndBurst 0)
        (Sim.initial Sim.hangAndBurst 0 fun _ => 0)
        ((Sim.sendOne ++ Sim.lastTwo).map .gen)).map fun s : Sim.SimState 1 =>
          s.gen.pc.hasFinished) = some true := by decide +kernel
    obtain ⟨s, executed, finished⟩ := Option.map_eq_some_iff.1 run
    obtain ⟨_, system, lengths, _⟩ := offered_traffic_fixed (W := 1) (by decide) (by decide) Rat
    have all := (system .reuseportHash Sim.hangAndBurst 0 0 (fun _ => 0) _ s (by decide)
      executed).2 (Sim.GenPc.hasFinished_iff.1 finished)
    refine ⟨s, executed, all, ?_⟩
    rw [all, lengths]
    decide

end MicroHermes.Bench
