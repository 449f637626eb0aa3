import Mathlib.Algebra.Order.Ring.Rat
import MicroHermes.Sim.ConnQueue
import MicroHermes.Wst
import MicroHermes.Scheduler

set_option autoImplicit false

/-!
# Workloads and the shared state of the simulation

`workload.rs` and `shm.rs`. Durations are in nanoseconds.
-/

namespace MicroHermes.Sim

inductive Policy where
  | hermes
  | lifo
  | reuseportHash
  deriving DecidableEq, Repr

inductive ProcessingTime where
  | fixed (cost : Nat)
  | bimodal (fast slow : Nat) (slowProbability : Rat)

def lcgFloat (seed : UInt64) : Rat :=
  -- The scramble to `[0, 1)`, as the exact quotient.
  let x := seed * 6364136223846793005 + 1442695040888963407
  ((x >>> 11).toNat : Rat) / 2 ^ 53

def ProcessingTime.sample (time : ProcessingTime) (seed : UInt64) : Nat :=
  match time with
  | .fixed cost => cost
  | .bimodal fast slow slowProbability =>
      if lcgFloat seed < slowProbability then slow else fast

structure HangSpec where
  workerId : Nat
  atNs : Nat
  durationNs : Nat
  deriving DecidableEq, Repr

structure BurstSpec where
  atNs : Nat
  serviceNs : Nat
  deriving DecidableEq, Repr

/-- Full traffic profile for one run. The pacing interval is what the code makes of `1 / cps`. -/
structure WorkloadConfig where
  intervalNs : Nat
  durationNs : Nat
  service : ProcessingTime
  lifetimeNs : Nat
  hang : Option HangSpec
  burst : Option BurstSpec

-- `Duration::as_micros() as u32`
def asMicros (duration : Nat) : UInt32 := UInt32.ofNat (duration / 1000)

-- `Duration::as_millis() as u32`
def asMillis (duration : Nat) : UInt32 := UInt32.ofNat (duration / 1000000)

structure SharedState (W : Nat) where
  wst : Wst W
  msel : UInt64
  shutdown : UInt32
  drops : Fin W → Nat
  queues : Fin W → ConnQueue

def ConnQueue.zero : ConnQueue := ⟨0, 0, fun _ => ⟨0, 0, 0, 0, 0⟩⟩

def SharedState.zero (W : Nat) : SharedState W where
  wst _ := .zero
  msel := 0
  shutdown := 0
  drops _ := 0
  queues _ := .zero

/-- An atomic operation takes a step of its own, as does a clock reading. -/
inductive Sys where
  | internal
  | clock (now : Int)
  deriving DecidableEq

def Sys.standsAt (now : Int) : Sys → Prop
  | .internal => True
  | .clock reading => reading = now

def Sys.asInternal : Sys → Option Unit
  | .internal => some ()
  | .clock _ => none

def Sys.asClock : Sys → Option Int
  | .internal => none
  | .clock now => some now

@[simp] theorem Sys.asInternal_eq_some {label : Sys} {value : Unit} :
    label.asInternal = some value ↔ label = .internal := by
  cases label <;> simp [Sys.asInternal]

@[simp] theorem Sys.asClock_eq_some {label : Sys} {now : Int} :
    label.asClock = some now ↔ label = .clock now := by
  cases label <;> simp [Sys.asClock]

end MicroHermes.Sim
