import MicroHermes.Bench.Client
import MicroHermes.Sim.Cases

set_option autoImplicit false

/-!
# The workload cases of the load generator

`hermes-bench/src/workload.rs`, a second copy of the simulation's tables, and the choice `main`
makes from the command line.
-/

namespace MicroHermes.Bench

open Sim (LoadLevel WorkloadCase fromSecs fromMillis double01 double03)

inductive ProcessingTime where
  | fixed (cost : Nat)
  | bimodal (fast slow : Nat) (slowProbability : Rat)

def lcgFloat (seed : UInt64) : Rat :=
  let x := seed * 6364136223846793005 + 1442695040888963407
  ((x >>> 11).toNat : Rat) / 2 ^ 53

def ProcessingTime.sample (time : ProcessingTime) (seed : UInt64) : Nat :=
  match time with
  | .fixed cost => cost
  | .bimodal fast slow slowProbability =>
      if lcgFloat seed < slowProbability then slow else fast

structure WorkloadConfig where
  cps : Nat
  durationNs : Nat
  service : ProcessingTime
  lifetimeNs : Nat
  burst : Option BurstSpec

def loadFromStr : String → Option LoadLevel
  | "light" => some .light
  | "medium" => some .medium
  | "heavy" => some .heavy
  | _ => none

def caseFromStr : String → Option WorkloadCase
  | "1" => some .case1
  | "2" => some .case2
  | "3" => some .case3
  | "4" => some .case4
  | "5" => some .case5
  | _ => none

def baseCase : WorkloadCase → WorkloadConfig
  -- The hang of Case 2 is injected into the load balancer.
  | .case1 =>
      { cps := 400
        durationNs := fromSecs 3
        service := .fixed (fromMillis 1)
        lifetimeNs := fromMillis 150
        burst := none }
  | .case2 =>
      { cps := 100
        durationNs := fromSecs 4
        service := .bimodal (fromMillis 10) (fromMillis 150) (1 / 4)
        lifetimeNs := fromMillis 200
        burst := none }
  | .case3 =>
      { cps := 60
        durationNs := fromSecs 4
        service := .fixed (fromMillis 2)
        lifetimeNs := fromSecs 60
        burst := none }
  | .case4 =>
      { cps := 40
        durationNs := fromSecs 4
        service := .bimodal (fromMillis 20) (fromMillis 200) double03
        lifetimeNs := fromMillis 400
        burst := none }
  | .case5 =>
      { cps := 60
        durationNs := fromSecs 4
        service := .fixed (fromMillis 2)
        lifetimeNs := fromSecs 60
        burst := some ⟨fromMillis 2500, fromMillis 5⟩ }

def forCaseWithLoad (case : WorkloadCase) (load : LoadLevel) : WorkloadConfig :=
  let config := baseCase case
  { config with
    cps :=
      match case, load with
      | .case1, .light => 400
      | .case1, .medium => 1600
      | .case1, .heavy => 3000
      | .case2, .light => 40
      | .case2, .medium => 75
      | .case2, .heavy => 100
      | .case3, .light => 30
      | .case3, .medium => 60
      | .case3, .heavy => 150
      | .case4, .light => 15
      | .case4, .medium => 40
      | .case4, .heavy => 50
      | .case5, _ => config.cps }

def forCase (case : WorkloadCase) : WorkloadConfig :=
  let level :=
    match case with
    | .case1 => .light
    | .case2 => .heavy
    | _ => .medium
  forCaseWithLoad case level

def defaultCase : WorkloadConfig where
  cps := 150
  durationNs := fromMillis 2500
  service := .bimodal (fromMillis 2) (fromMillis 40) double01
  lifetimeNs := fromMillis 250
  burst := none

def configFromCli (case load : Option String) : Except String WorkloadConfig :=
  -- `--case` and `--load`. The load is not looked at when no case is given.
  match case with
  | none => .ok defaultCase
  | some c =>
      match caseFromStr c with
      | none => .error s!"unknown --case '{c}' (want 1|2|3|4|5)"
      | some case =>
          match load with
          | none => .ok (forCase case)
          | some l =>
              match loadFromStr l with
              | some level => .ok (forCaseWithLoad case level)
              | none => .error s!"unknown --load '{l}' (want light|medium|heavy)"

structure Agrees (bench : WorkloadConfig) (sim : Sim.CaseConfig) : Prop where
  cps : bench.cps = sim.cps
  duration : bench.durationNs = sim.durationNs
  service : ∀ seed, bench.service.sample seed = sim.service.sample seed

theorem forCaseWithLoad_agrees (case : WorkloadCase) (load : LoadLevel) :
    Agrees (forCaseWithLoad case load) (Sim.forCaseWithLoad case load) := by
  cases case <;> cases load <;> exact ⟨rfl, rfl, fun _ => rfl⟩

theorem forCase_agrees (case : WorkloadCase) : Agrees (forCase case) (Sim.forCase case) := by
  cases case with
  | case1 => exact forCaseWithLoad_agrees .case1 .light
  | case2 => exact forCaseWithLoad_agrees .case2 .heavy
  | case3 => exact forCaseWithLoad_agrees .case3 .medium
  | case4 => exact forCaseWithLoad_agrees .case4 .medium
  | case5 => exact forCaseWithLoad_agrees .case5 .medium

theorem caseFromStr_eq (s : String) : caseFromStr s = Sim.caseFromStr s := rfl

theorem loadFromStr_eq (s : String) : loadFromStr s = LoadLevel.fromEnvStr s := rfl

theorem configFromCli_agrees {case load : Option String} {config : WorkloadConfig}
    (accepted : configFromCli case load = .ok config) :
    Agrees config (Sim.configFromEnv case load) := by
  unfold configFromCli at accepted
  cases case with
  | none =>
      obtain rfl := Except.ok.inj accepted
      have unset : Sim.caseFromStr "default" = none := by decide
      rw [Sim.configFromEnv, Option.getD_none, unset]
      exact ⟨rfl, rfl, fun _ => rfl⟩
  | some c =>
      simp only [caseFromStr_eq] at accepted
      cases known : Sim.caseFromStr c with
      | none => simp [known] at accepted
      | some case =>
          rw [Sim.configFromEnv, Option.getD_some, known]
          simp only [known] at accepted
          cases load with
          | none =>
              obtain rfl := Except.ok.inj accepted
              exact forCase_agrees case
          | some l =>
              simp only [loadFromStr_eq] at accepted
              rw [Option.bind_some]
              cases level : LoadLevel.fromEnvStr l with
              | none => simp [level] at accepted
              | some level' =>
                  simp only [level, Except.ok.injEq] at accepted
                  subst accepted
                  exact forCaseWithLoad_agrees case level'

end MicroHermes.Bench
