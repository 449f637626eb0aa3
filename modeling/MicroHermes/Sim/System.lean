import MicroHermes.Lib.Transition
import MicroHermes.Sim.Generator
import MicroHermes.Sim.Worker

set_option autoImplicit false

/-!
# The simulation

`main.rs`: one generator and `W` workers over the shared region, their steps interleaved in any
order. Memory is sequentially consistent here.
-/

namespace MicroHermes.Sim

open Transition

structure SimState (W : Nat) where
  shared : SharedState W
  gen : Generator W
  workers : Fin W → Worker W

inductive Act (W : Nat) where
  | gen (label : Sys)
  | worker (i : Fin W) (label : Sys)

section Step

variable (F : Type) [MetricArith F] {W : Nat} (policy : Policy) (cfg : WorkloadConfig) (seed : UInt64)

def initial (genStart : Int) (starts : Fin W → Int) : SimState W where
  -- Every process has a clock reading of its own for its `start`.
  shared := .zero W
  gen := .initial genStart
  workers i := .initial cfg i (starts i)

def step (s : SimState W) : Act W → Option (SimState W)
  | .gen label => (genStep policy cfg seed s.shared s.gen label).map fun (shared, gen) =>
      { s with shared, gen }
  | .worker i label =>
      (workerStep F policy cfg i s.shared (s.workers i) label).map fun (op, w) =>
        { s with shared := s.shared.apply i op, workers := Function.update s.workers i w }

variable {F policy cfg seed}

theorem step_gen {s next : SimState W} {label : Sys}
    (taken : step F policy cfg seed s (.gen label) = some next) :
    GenMoves policy cfg seed s.shared s.gen label next.shared next.gen ∧
      next.workers = s.workers := by
  simp only [step, Option.map_eq_some_iff] at taken
  obtain ⟨⟨shared, gen⟩, moved, rfl⟩ := taken
  exact ⟨genStep_moves moved, rfl⟩

theorem step_worker {s next : SimState W} {i : Fin W} {label : Sys}
    (taken : step F policy cfg seed s (.worker i label) = some next) :
    ∃ op, Moves F policy cfg i s.shared (s.workers i) label op (next.workers i) ∧
      next.shared = s.shared.apply i op ∧ next.gen = s.gen ∧
      ∀ j, j ≠ i → next.workers j = s.workers j := by
  simp only [step, Option.map_eq_some_iff] at taken
  obtain ⟨⟨op, w⟩, moved, rfl⟩ := taken
  refine ⟨op, ?_, rfl, rfl, fun j other => Function.update_of_ne other ..⟩
  simpa using workerStep_moves moved

theorem preserve_each {Inv : Fin W → SharedState W → Generator W → Worker W → Prop}
    (own : ∀ i shared gen w label op w', Inv i shared gen w →
      Moves F policy cfg i shared w label op w' → Inv i (shared.apply i op) gen w')
    (other : ∀ i j shared gen w op, Inv i shared gen w → i ≠ j →
      Inv i (shared.apply j op) gen w)
    (produce : ∀ i shared gen w label shared' gen', Inv i shared gen w →
      GenMoves policy cfg seed shared gen label shared' gen' → Inv i shared' gen' w)
    {s final : SimState W} (steps : Steps (step F policy cfg seed) s final)
    (holds : ∀ i, Inv i s.shared s.gen (s.workers i)) :
    ∀ i, Inv i final.shared final.gen (final.workers i) := by
  -- The rule for a property of one worker and what it shares: every step of the worker and every
  -- step of the others keeps it.
  refine Steps.preserve (fun s => ∀ i, Inv i s.shared s.gen (s.workers i)) ?_ steps holds
  intro s act next inv taken i
  cases act with
  | gen label =>
      obtain ⟨moved, same⟩ := step_gen taken
      rw [same]
      exact produce i _ _ _ _ _ _ (inv i) moved
  | worker j label =>
      obtain ⟨op, moved, shared, gen, others⟩ := step_worker taken
      rw [shared, gen]
      by_cases self : i = j
      · subst self
        exact own i _ _ _ _ _ _ (inv i) moved
      · rw [others i self]
        exact other i j _ _ _ _ (inv i) self

theorem preserve_worker {i : Fin W} (Inv : Worker W → Prop)
    (own : ∀ shared w label op w', Inv w → Moves F policy cfg i shared w label op w' → Inv w')
    {s final : SimState W} (steps : Steps (step F policy cfg seed) s final)
    (holds : Inv (s.workers i)) : Inv (final.workers i) := by
  -- The rule for a property of one worker alone.
  refine Steps.preserve (fun s => Inv (s.workers i)) ?_ steps holds
  intro s act next inv taken
  cases act with
  | gen label => rwa [(step_gen taken).2]
  | worker j label =>
      obtain ⟨op, moved, _, _, others⟩ := step_worker taken
      by_cases self : i = j
      · subst self
        exact own _ _ _ _ _ inv moved
      · rwa [others i self]

end Step

end MicroHermes.Sim
