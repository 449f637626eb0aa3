import MicroHermes.Lib.Transition
import MicroHermes.Server.Worker

set_option autoImplicit false

/-!
# All workers of the load balancer

The workers' steps interleave in any order; what happens outside them (an arrival at a listener)
is a label of its own that leaves the workers alone.
-/

namespace MicroHermes.Server

open Transition

structure Host (W : Nat) where
  shared : Shared W
  workers : Fin W → Worker W

inductive Outside where
  -- A connection is established and joins the backlog.
  | connect
  deriving DecidableEq

inductive Act (W : Nat) where
  | worker (i : Fin W) (sys : Sys)
  | outside (i : Fin W) (event : Outside)

section System

variable (F : Type) [MetricArith F] {W : Nat} (cfg : Config W)

def Worker.initial (i : Fin W) (start : Int) : Worker W where
  pc := .top
  conns := ∅
  events := []
  hangPending := cfg.hang i
  start
  iter := 0

def Host.initial (start : Fin W → Int) : Host W where
  -- The zeroed table, an empty M_Sel, every worker before its first iteration.
  shared := { wst := fun _ => .zero, mSel := 0 }
  workers i := Worker.initial cfg i (start i)

def Host.step (host : Host W) : Act W → Option (Host W)
  | .worker i sys =>
      (workerStep F cfg i host.shared.wst (host.workers i) sys).map fun (op, w) =>
        { shared := host.shared.apply i op, workers := Function.update host.workers i w }
  | .outside _ _ => some host

variable {F} {cfg}

theorem Host.step_worker {host next : Host W} {i : Fin W} {sys : Sys}
    (taken : Host.step F cfg host (.worker i sys) = some next) :
    ∃ op w, Moves F cfg i host.shared.wst (host.workers i) sys op w ∧
      next = { shared := host.shared.apply i op, workers := Function.update host.workers i w } := by
  simp only [Host.step, Option.map_eq_some_iff, Prod.exists] at taken
  obtain ⟨op, w, moved, rfl⟩ := taken
  exact ⟨op, w, workerStep_moves moved, rfl⟩

theorem Host.step_slot_other {host next : Host W} {i j : Fin W} {sys : Sys}
    (taken : Host.step F cfg host (.worker i sys) = some next) (other : j ≠ i) :
    next.shared.wst j = host.shared.wst j := by
  obtain ⟨op, w, _, rfl⟩ := Host.step_worker taken
  exact host.shared.apply_other op other

def perWorker {E : Type} (inner : Fin W → E → Sys → Option E) (outer : E → Outside → Option E)
    (env : Fin W → E) : Act W → Option (Fin W → E)
  -- An environment made of one part for each worker, which only that worker's steps and what
  -- happens outside at its listener concern.
  | .worker i sys => (inner i (env i) sys).map (Function.update env i)
  | .outside i event => (outer (env i) event).map (Function.update env i)

theorem Host.keep_each {E : Type} {inner : Fin W → E → Sys → Option E}
    {outer : E → Outside → Option E} (Inv : Fin W → Worker W → WorkerSlot → E → Prop)
    {state next : Host W × (Fin W → E)} {act : Act W}
    (own : ∀ (i : Fin W) (sys : Sys) (op : MemOp) (w : Worker W) (env : E), act = .worker i sys →
      Inv i (state.1.workers i) (state.1.shared.wst i) (state.2 i) →
      Moves F cfg i state.1.shared.wst (state.1.workers i) sys op w →
      inner i (state.2 i) sys = some env → Inv i w (op.onSlot (state.1.shared.wst i)) env)
    (outside : ∀ (i : Fin W) (event : Outside) (w : Worker W) (slot : WorkerSlot) (env next : E),
      Inv i w slot env → outer env event = some next → Inv i w slot next)
    (taken : product (Host.step F cfg) (perWorker inner outer) state act = some next)
    (holds : ∀ i, Inv i (state.1.workers i) (state.1.shared.wst i) (state.2 i)) (i : Fin W) :
    Inv i (next.1.workers i) (next.1.shared.wst i) (next.2 i) := by
  obtain ⟨hostTaken, envTaken⟩ := (product_eq_some ..).1 taken
  cases act with
  | outside j event =>
      simp only [Host.step, Option.some.injEq] at hostTaken
      simp only [perWorker, Option.map_eq_some_iff] at envTaken
      obtain ⟨after, happened, envNext⟩ := envTaken
      rw [← hostTaken, ← envNext]
      by_cases same : i = j
      · subst same
        simpa using outside i event _ _ _ after (holds i) happened
      · simpa [same] using holds i
  | worker j sys =>
      obtain ⟨op, w, moved, hostNext⟩ := Host.step_worker hostTaken
      simp only [perWorker, Option.map_eq_some_iff] at envTaken
      obtain ⟨after, happened, envNext⟩ := envTaken
      rw [hostNext, ← envNext]
      by_cases same : i = j
      · subst same
        simpa using own i sys op w after rfl (holds i) moved happened
      · simpa [same] using holds i

theorem Host.preserve_each {E : Type} {inner : Fin W → E → Sys → Option E}
    {outer : E → Outside → Option E} {allowed : Host W × (Fin W → E) → Act W → Prop}
    (Inv : Fin W → Worker W → WorkerSlot → E → Prop)
    (own : ∀ (state : Host W × (Fin W → E)) (i : Fin W) (sys : Sys) (op : MemOp) (w : Worker W)
      (env : E), Inv i (state.1.workers i) (state.1.shared.wst i) (state.2 i) →
      allowed state (.worker i sys) →
      Moves F cfg i state.1.shared.wst (state.1.workers i) sys op w →
      inner i (state.2 i) sys = some env → Inv i w (op.onSlot (state.1.shared.wst i)) env)
    (outside : ∀ (i : Fin W) (event : Outside) (w : Worker W) (slot : WorkerSlot) (env next : E),
      Inv i w slot env → outer env event = some next → Inv i w slot next)
    {state final : Host W × (Fin W → E)}
    (steps : StepsIf (product (Host.step F cfg) (perWorker inner outer)) allowed state final)
    (holds : ∀ i, Inv i (state.1.workers i) (state.1.shared.wst i) (state.2 i)) (i : Fin W) :
    Inv i (final.1.workers i) (final.1.shared.wst i) (final.2 i) := by
  refine StepsIf.preserve (fun state : Host W × (Fin W → E) =>
    ∀ i, Inv i (state.1.workers i) (state.1.shared.wst i) (state.2 i)) ?_ steps holds i
  intro state act next inv permitted taken
  refine Host.keep_each Inv ?_ outside taken inv
  rintro j sys op w env rfl holds moved answered
  exact own state j sys op w env holds permitted moved answered

end System

def soloConfig (policy : Policy) : Config 1 where
  policy
  listenFd _ := 3
  other _ := {0, 1, 2, 3}
  listenOpen := by decide
  hang _ := none

def awaitEvents (events : List EpollEvent) : List Sys :=
  -- From the top of the loop to the first entry of a non-empty batch.
  [.shutdown false, .clock 5, .internal, .epollWait (.ok events), .internal]

def acceptOne (fd : RawFd) : List Sys :=
  -- The listener's entry of a batch when one connection can be accepted.
  [.internal, .accept4 (.ok fd), .internal, .ctlAdd fd true, .accept4 (.err eagain), .internal]

-- From the end of a batch to the top of the loop, without a scheduling pass.
def endBatch : List Sys := [.internal, .writeTick true]

def soloRun (steps : List Sys) : List (Act 1) := steps.map (Act.worker soloWorker)

end MicroHermes.Server
