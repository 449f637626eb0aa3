import MicroHermes.Dispatch
import MicroHermes.Sim.Workload

set_option autoImplicit false

/-!
# The connection generator

`generator.rs` with the dispatch of `dispatcher.rs`, run in the parent. Steps are taken as in the
worker: one atomic operation, queue step, sleep or clock reading each.
-/

namespace MicroHermes.Sim

inductive DispatchPc (W : Nat) where
  | start
  | idleTail (i : Fin W) (rest : List (Fin W))
  | idleHead (i : Fin W) (rest : List (Fin W)) (tail : UInt32)
  | idlePending (i : Fin W) (rest : List (Fin W))
  | lenTail (i : Fin W) (rest : List (Fin W)) (best : Option (Nat × Fin W))
  | lenHead (i : Fin W) (rest : List (Fin W)) (best : Option (Nat × Fin W)) (tail : UInt32)
  | picked (target : Nat)
  | noWorker
  deriving DecidableEq

inductive GenPc (W : Nat) where
  | loopTest
  | pace
  | paceSleep
  | dispatch (pc : DispatchPc W)
  | describe (target : Nat)
  | push (target : Fin W) (pc : PushPc)
  | drop (target : Fin W) (desc : ConnDesc)
  | shutdown
  | finished
  | panicked
  deriving DecidableEq

def GenPc.hasFinished {W : Nat} : GenPc W → Bool
  | .finished => true
  | _ => false

theorem GenPc.hasFinished_iff {W : Nat} {pc : GenPc W} :
    pc.hasFinished = true ↔ pc = .finished := by
  cases pc <;> simp [hasFinished]

structure Sent (W : Nat) where
  desc : ConnDesc
  target : Fin W
  pushed : Bool

/-- The locals of `generator::run` and its outcome. `nextArrival` counts from `start`. -/
structure Generator (W : Nat) where
  pc : GenPc W
  start : Int
  nextArrival : Nat
  generated : Nat
  dropped : Nat
  dispatchedPerWorker : Fin W → Nat
  -- The connections generated so far. Only the proofs read it.
  sent : List (Sent W)

section Dispatch

variable {W : Nat} (policy : Policy) (shared : SharedState W)

def shorterBacklog (a b : Nat × Fin W) : Bool :=
  -- The key `(len, Reverse(i))` of the first pair is smaller.
  decide (a.1 < b.1 ∨ a.1 = b.1 ∧ b.2 < a.2)

def shortestBacklog (best : Option (Nat × Fin W)) (key : Nat × Fin W) : Nat × Fin W :=
  match best with
  | none => key
  | some least => if shorterBacklog key least then key else least

def nextLen (best : Option (Nat × Fin W)) : List (Fin W) → DispatchPc W
  -- `min_by_key`, then `unwrap` after the last worker.
  | i :: rest => .lenTail i rest best
  | [] =>
      match best with
      | some (_, i) => .picked i.val
      | none => .noWorker

def nextIdle : List (Fin W) → DispatchPc W
  -- The search for an idle worker, from the last registered one down.
  | i :: rest => .idleTail i rest
  | [] => nextLen none (List.finRange W)

def dispatchStep (connHash : UInt64) : DispatchPc W → DispatchPc W
  | .start =>
      match policy with
      | .hermes => .picked (dispatchHermes W shared.msel connHash)
      | .lifo => nextIdle (List.finRange W).reverse
      | .reuseportHash => .picked (reuseportHash W connHash)
  | .idleTail i rest => .idleHead i rest (shared.queues i).tail
  | .idleHead i rest tail =>
      if tail - (shared.queues i).head = 0 then .idlePending i rest else nextIdle rest
  | .idlePending i rest => if (shared.wst i).pendingEvents = 0 then .picked i.val else nextIdle rest
  | .lenTail i rest best => .lenHead i rest best (shared.queues i).tail
  | .lenHead i rest best tail =>
      nextLen (some (shortestBacklog best ((tail - (shared.queues i).head).toNat, i))) rest
  | .picked target => .picked target
  | .noWorker => .noWorker

end Dispatch

section Step

variable {W : Nat} (policy : Policy) (cfg : WorkloadConfig) (seed : UInt64)

def connHash (connId : Nat) : UInt64 :=
  -- Synthetic 4-tuple hash, a seeded counter mixed by Knuth's constant.
  (UInt64.ofNat connId ^^^ (seed * 0xff51afd7ed558ccd)) * 0x9e3779b97f4a7c15

def describe (connId : Nat) (now : Int) : ConnDesc where
  connId
  hash := connHash seed connId
  arrivalNs := now
  serviceUs := asMicros (cfg.service.sample (connHash seed connId))
  lifetimeMs := asMillis cfg.lifetimeNs

def Generator.initial (start : Int) : Generator W where
  pc := .loopTest
  start
  nextArrival := 0
  generated := 0
  dropped := 0
  dispatchedPerWorker _ := 0
  sent := []

def afterDispatch : DispatchPc W → GenPc W
  | .picked target => .describe target
  | .noWorker => .panicked
  | pc => .dispatch pc

def Generator.complete (g : Generator W) (sent : Sent W) : Generator W :=
  { g with
    generated := g.generated + 1
    nextArrival := g.nextArrival + cfg.intervalNs
    sent := g.sent ++ [sent]
    pc := .loopTest }

def afterPush (g : Generator W) (target : Fin W) (push next : PushPc) : Generator W :=
  match push with
  | .storeTail desc _ => g.complete cfg ⟨desc, target, true⟩
  | .loadHead desc _ =>
      if next = .returned false then { g with pc := .drop target desc }
      else { g with pc := .push target next }
  | _ => { g with pc := .push target next }

def Generator.count (g : Generator W) (target : Fin W) : Generator W :=
  { g with
    dispatchedPerWorker := Function.update g.dispatchedPerWorker target
      (g.dispatchedPerWorker target + 1) }

def genStep (shared : SharedState W) (g : Generator W) (label : Sys) :
    Option (SharedState W × Generator W) :=
  match g.pc with
  | .loopTest => label.asInternal.map fun _ =>
      (shared, { g with pc := if g.nextArrival < cfg.durationNs then .pace else .shutdown })
  | .pace => label.asClock.map fun now =>
      (shared, { g with
        pc := if now < g.start + g.nextArrival then .paceSleep else .dispatch .start })
  | .paceSleep => label.asInternal.map fun _ => (shared, { g with pc := .dispatch .start })
  | .dispatch pc => label.asInternal.map fun _ =>
      (shared, { g with
        pc := afterDispatch (dispatchStep policy shared (connHash seed g.generated) pc) })
  | .describe target => label.asClock.map fun now =>
      if inside : target < W then
        (shared, { g.count ⟨target, inside⟩ with
          pc := .push ⟨target, inside⟩ (.loadTail (describe cfg seed g.generated now)) })
      else (shared, { g with pc := .panicked })
  | .push target pc => label.asInternal.map fun _ =>
      let (queue, next) := pushStep (shared.queues target) pc
      ({ shared with queues := Function.update shared.queues target queue },
        afterPush cfg g target pc next)
  | .drop target desc => label.asInternal.map fun _ =>
      ({ shared with drops := Function.update shared.drops target (shared.drops target + 1) },
        { g with dropped := g.dropped + 1 }.complete cfg ⟨desc, target, false⟩)
  | .shutdown => label.asInternal.map fun _ =>
      ({ shared with shutdown := 1 }, { g with pc := .finished })
  | .finished | .panicked => none

inductive GenMoves (shared : SharedState W) (g : Generator W) :
    Sys → SharedState W → Generator W → Prop
  | enter (pc : g.pc = .loopTest) (inside : g.nextArrival < cfg.durationNs) :
      GenMoves shared g .internal shared { g with pc := .pace }
  | leave (pc : g.pc = .loopTest) (past : ¬ g.nextArrival < cfg.durationNs) :
      GenMoves shared g .internal shared { g with pc := .shutdown }
  | early (now : Int) (pc : g.pc = .pace) (ahead : now < g.start + g.nextArrival) :
      GenMoves shared g (.clock now) shared { g with pc := .paceSleep }
  | late (now : Int) (pc : g.pc = .pace) (due : ¬ now < g.start + g.nextArrival) :
      GenMoves shared g (.clock now) shared { g with pc := .dispatch .start }
  | slept (pc : g.pc = .paceSleep) :
      GenMoves shared g .internal shared { g with pc := .dispatch .start }
  | dispatch (scan : DispatchPc W) (pc : g.pc = .dispatch scan) :
      GenMoves shared g .internal shared
        { g with pc := afterDispatch (dispatchStep policy shared (connHash seed g.generated) scan) }
  | describe (now : Int) (target : Fin W) (pc : g.pc = .describe target.val) :
      GenMoves shared g (.clock now) shared
        { g.count target with
          pc := .push target (.loadTail (describe cfg seed g.generated now)) }
  | misdirected (now : Int) (target : Nat) (pc : g.pc = .describe target) (outside : ¬ target < W) :
      GenMoves shared g (.clock now) shared { g with pc := .panicked }
  | push (target : Fin W) (push : PushPc) (pc : g.pc = .push target push) :
      GenMoves shared g .internal
        { shared with
          queues := Function.update shared.queues target (pushStep (shared.queues target) push).1 }
        (afterPush cfg g target push (pushStep (shared.queues target) push).2)
  | drop (target : Fin W) (desc : ConnDesc) (pc : g.pc = .drop target desc) :
      GenMoves shared g .internal
        { shared with drops := Function.update shared.drops target (shared.drops target + 1) }
        ({ g with dropped := g.dropped + 1 }.complete cfg ⟨desc, target, false⟩)
  | shutdown (pc : g.pc = .shutdown) :
      GenMoves shared g .internal { shared with shutdown := 1 } { g with pc := .finished }

variable {policy cfg seed}

theorem genStep_moves {shared shared' : SharedState W} {g g' : Generator W} {label : Sys}
    (taken : genStep policy cfg seed shared g label = some (shared', g')) :
    GenMoves policy cfg seed shared g label shared' g' := by
  unfold genStep at taken
  split at taken <;> try simp only [Option.map_eq_some_iff, Prod.mk.injEq] at taken
  · next here =>
      obtain ⟨_, label, rfl, rfl⟩ := taken
      obtain rfl := Sys.asInternal_eq_some.1 label
      split
      · next inside => exact .enter here inside
      · next past => exact .leave here past
  · next here =>
      obtain ⟨now, label, rfl, rfl⟩ := taken
      obtain rfl := Sys.asClock_eq_some.1 label
      split
      · next ahead => exact .early now here ahead
      · next due => exact .late now here due
  · next here =>
      obtain ⟨_, label, rfl, rfl⟩ := taken
      obtain rfl := Sys.asInternal_eq_some.1 label
      exact .slept here
  · next scan here =>
      obtain ⟨_, label, rfl, rfl⟩ := taken
      obtain rfl := Sys.asInternal_eq_some.1 label
      exact .dispatch scan here
  · next target here =>
      obtain ⟨now, label, outcome⟩ := taken
      obtain rfl := Sys.asClock_eq_some.1 label
      split at outcome
      · next inside =>
          obtain ⟨rfl, rfl⟩ := Prod.mk.inj outcome
          exact .describe now ⟨target, inside⟩ here
      · next outside =>
          obtain ⟨rfl, rfl⟩ := Prod.mk.inj outcome
          exact .misdirected now target here outside
  · next target push here =>
      obtain ⟨_, label, rfl, rfl⟩ := taken
      obtain rfl := Sys.asInternal_eq_some.1 label
      exact .push target push here
  · next target desc here =>
      obtain ⟨_, label, rfl, rfl⟩ := taken
      obtain rfl := Sys.asInternal_eq_some.1 label
      exact .drop target desc here
  · next here =>
      obtain ⟨_, label, rfl, rfl⟩ := taken
      obtain rfl := Sys.asInternal_eq_some.1 label
      exact .shutdown here
  · cases taken
  · cases taken

theorem GenMoves.running {shared shared' : SharedState W} {g g' : Generator W} {label : Sys}
    (moved : GenMoves policy cfg seed shared g label shared' g') : g.pc ≠ .finished := by
  cases moved <;> simp [‹g.pc = _›]

end Step

end MicroHermes.Sim
