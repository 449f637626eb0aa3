import MicroHermes.Sim.Workload

set_option autoImplicit false

/-!
# The workload cases of the simulation

The tables of `workload.rs` and the choice `main` makes from the environment.
-/

namespace MicroHermes.Sim

def fromSecs (n : Nat) : Nat := n * 1000000000

def fromMillis (n : Nat) : Nat := n * 1000000

inductive LoadLevel where
  | light
  | medium
  | heavy
  deriving DecidableEq, Repr

inductive WorkloadCase where
  | case1
  | case2
  | case3
  | case4
  | case5
  deriving DecidableEq, Repr

def LoadLevel.fromEnvStr : String → Option LoadLevel
  | "light" => some .light
  | "medium" => some .medium
  | "heavy" => some .heavy
  | _ => none

/-- `WorkloadConfig` with the rate the source gives, connections per second. -/
structure CaseConfig where
  cps : Nat
  durationNs : Nat
  service : ProcessingTime
  lifetimeNs : Nat
  hang : Option HangSpec
  burst : Option BurstSpec

def CaseConfig.paced (interval : Nat → Nat) (config : CaseConfig) : WorkloadConfig where
  -- `interval` is `Duration::from_secs_f64(1.0 / cps)`.
  intervalNs := interval config.cps
  durationNs := config.durationNs
  service := config.service
  lifetimeNs := config.lifetimeNs
  hang := config.hang
  burst := config.burst

-- The doubles nearest to 0.1 and 0.3.
def double01 : Rat := 7205759403792794 / 2 ^ 56
def double03 : Rat := 5404319552844595 / 2 ^ 54

def baseCase : WorkloadCase → CaseConfig
  | .case1 =>
      { cps := 400
        durationNs := fromSecs 3
        service := .fixed (fromMillis 1)
        lifetimeNs := fromMillis 150
        hang := none
        burst := none }
  | .case2 =>
      { cps := 100
        durationNs := fromSecs 4
        service := .bimodal (fromMillis 10) (fromMillis 150) (1 / 4)
        lifetimeNs := fromMillis 200
        hang := some ⟨0, fromMillis 1500, fromMillis 400⟩
        burst := none }
  | .case3 =>
      { cps := 60
        durationNs := fromSecs 4
        service := .fixed (fromMillis 2)
        lifetimeNs := fromSecs 60
        hang := none
        burst := none }
  | .case4 =>
      { cps := 40
        durationNs := fromSecs 4
        service := .bimodal (fromMillis 20) (fromMillis 200) double03
        lifetimeNs := fromMillis 400
        hang := none
        burst := none }
  | .case5 =>
      { cps := 60
        durationNs := fromSecs 4
        service := .fixed (fromMillis 2)
        lifetimeNs := fromSecs 60
        hang := none
        burst := some ⟨fromMillis 2500, fromMillis 5⟩ }

def forCaseWithLoad (case : WorkloadCase) (load : LoadLevel) : CaseConfig :=
  let config := baseCase case
  { config with
    cps :=
      match case, load with
      | .case1, .light => 400
      | .case1, .medium => 1600
      | .case1, .heavy => 3000
      | .case2, .light => 40
      | .case2, .medium => 75
      | .case2, .heavy => 100
      | .case3, .light => 30
      | .case3, .medium => 60
      | .case3, .heavy => 150
      | .case4, .light => 15
      | .case4, .medium => 40
      | .case4, .heavy => 50
      | .case5, _ => config.cps }

def forCase (case : WorkloadCase) : CaseConfig :=
  let level :=
    match case with
    | .case1 => .light
    | .case2 => .heavy
    | _ => .medium
  forCaseWithLoad case level

def defaultCase : CaseConfig where
  cps := 150
  durationNs := fromMillis 2500
  service := .bimodal (fromMillis 2) (fromMillis 40) double01
  lifetimeNs := fromMillis 250
  hang := none
  burst := none

def caseFromStr : String → Option WorkloadCase
  | "1" => some .case1
  | "2" => some .case2
  | "3" => some .case3
  | "4" => some .case4
  | "5" => some .case5
  | _ => none

def configFromEnv (workloadCase load : Option String) : CaseConfig :=
  -- WORKLOAD_CASE and LOAD, none for a variable that is not set. An unknown value counts as unset.
  match caseFromStr (workloadCase.getD "default"), load.bind LoadLevel.fromEnvStr with
  | some case, some level => forCaseWithLoad case level
  | some case, none => forCase case
  | none, _ => defaultCase

end MicroHermes.Sim
