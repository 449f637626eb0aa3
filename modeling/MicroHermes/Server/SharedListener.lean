import MicroHermes.Server.Backlog
import MicroHermes.Server.HangDetection

set_option autoImplicit false

/-!
# The shared listener of the lifo policy

All workers register one listener with EPOLLEXCLUSIVE. An arrival raises the edge of at least one of
them, the kernel chooses which, and every worker takes connections off the one backlog.
-/

namespace MicroHermes.Server

open Transition

variable {W : Nat}

structure SharedListener (W : Nat) where
  backlog : Nat
  edges : Fin W → Bool

inductive LifoAct (W : Nat) where
  | worker (i : Fin W) (sys : Sys)
  | arrive (raised : Finset (Fin W))

def SharedListener.initial : SharedListener W := ⟨0, fun _ => false⟩

def SharedListener.seenBy (listener : SharedListener W) (i : Fin W) : Listener :=
  ⟨listener.backlog, listener.edges i⟩

section Step

variable (F : Type) [MetricArith F] (cfg : Config W) (consumes : Errno → Bool)

def SharedListener.step (listener : SharedListener W) (i : Fin W) (sys : Sys) :
    Option (SharedListener W) :=
  (Listener.step cfg consumes i (listener.seenBy i) sys).map fun seen =>
    ⟨seen.backlog, Function.update listener.edges i seen.edge⟩

/-- The kernel wakes at least one of the workers that still run, when there is one. -/
def lifoStep (state : Host W × SharedListener W) : LifoAct W → Option (Host W × SharedListener W)
  | .worker i sys =>
      (Host.step F cfg state.1 (.worker i sys)).bind fun host =>
        (state.2.step cfg consumes i sys).map fun listener => (host, listener)
  | .arrive raised =>
      if (∃ i ∈ raised, (state.1.workers i).pc.exiting = false) ∨
          ∀ i, (state.1.workers i).pc.exiting = true then
        some (state.1,
          ⟨state.2.backlog + 1, fun i => state.2.edges i || decide (i ∈ raised)⟩)
      else none

def watches (state : Host W × SharedListener W) (i : Fin W) : Bool :=
  -- A running worker that has queued connections to accept or to be told of.
  !(state.1.workers i).pc.exiting &&
    (state.2.edges i || (state.1.workers i).pc.accepting ||
      (state.1.workers i).events.any fun event => event.fd == cfg.listenFd i)

def leavesNothing (state : Host W × SharedListener W) : LifoAct W → Bool
  -- A worker whose `accept4` fails, EAGAIN apart, or that leaves its loop leaves no connection
  -- behind that nobody watches.
  | .worker i (.accept4 (.err errno)) =>
      (state.2.seenBy i).nothingLeft consumes (.accept4 (.err errno)) ||
        decide (∃ j, j ≠ i ∧ watches cfg state j = true)
  | .worker i (.epollWait (.err errno)) =>
      errno == eintr || state.2.backlog == 0 || decide (∃ j, j ≠ i ∧ watches cfg state j = true)
  | .worker i (.shutdown true) | .worker i (.writeTick false) =>
      state.2.backlog == 0 || decide (∃ j, j ≠ i ∧ watches cfg state j = true)
  | _ => true

end Step

section Invariant

variable {F : Type} [MetricArith F] {cfg : Config W} {consumes : Errno → Bool}
  {state next : Host W × SharedListener W} {i j : Fin W} {sys : Sys}

theorem watches_iff : watches cfg state i = true ↔
    (state.1.workers i).pc.exiting = false ∧ (state.2.edges i = true ∨
      (state.1.workers i).pc.accepting = true ∨
      ∃ event ∈ (state.1.workers i).events, event.fd = cfg.listenFd i) := by
  simp [watches, or_assoc]

structure Attended (cfg : Config W) (state : Host W × SharedListener W) : Prop where
  watched : state.2.backlog = 0 ∨ (∃ i, watches cfg state i = true) ∨
    ∀ i, (state.1.workers i).pc.exiting = true
  settled : ∀ i, (state.1.workers i).pc.inBatch = false → (state.1.workers i).events = []

theorem lifoStep_worker (taken : lifoStep F cfg consumes state (.worker i sys) = some next) :
    ∃ op w seen, Moves F cfg i state.1.shared.wst (state.1.workers i) sys op w ∧
      Listener.step cfg consumes i (state.2.seenBy i) sys = some seen ∧
      next = (⟨state.1.shared.apply i op, Function.update state.1.workers i w⟩,
        ⟨seen.backlog, Function.update state.2.edges i seen.edge⟩) := by
  simp only [lifoStep, SharedListener.step, Option.bind_eq_some_iff, Option.map_eq_some_iff] at taken
  obtain ⟨host, hostTaken, _, ⟨seen, answered, rfl⟩, rfl⟩ := taken
  obtain ⟨op, w, moved, rfl⟩ := Host.step_worker hostTaken
  exact ⟨op, w, seen, moved, answered, rfl⟩

theorem Listener.step_backlog {listener seen : Listener}
    (answered : Listener.step cfg consumes i listener sys = some seen) :
    seen.backlog ≤ listener.backlog := by
  unfold Listener.step at answered
  repeat' split at answered
  all_goals cases answered
  all_goals simp

theorem watches_other {op : MemOp} {w : Worker W} {seen : Listener} (other : j ≠ i) :
    watches cfg (⟨state.1.shared.apply i op, Function.update state.1.workers i w⟩,
      ⟨seen.backlog, Function.update state.2.edges i seen.edge⟩) j = watches cfg state j := by
  simp [watches, other]

theorem Attended.initial (start : Fin W → Int) :
    Attended cfg (Host.initial cfg start, SharedListener.initial) where
  watched := .inl rfl
  settled _ _ := rfl

theorem Attended.arrive {raised : Finset (Fin W)} (inv : Attended cfg state)
    (taken : lifoStep F cfg consumes state (.arrive raised) = some next) : Attended cfg next := by
  simp only [lifoStep, Option.ite_none_right_eq_some, Option.some.injEq] at taken
  obtain ⟨chosen, rfl⟩ := taken
  refine ⟨.inr (chosen.imp_left fun ⟨i, inside, alive⟩ => ⟨i, ?_⟩), inv.settled⟩
  exact watches_iff.2 ⟨alive, .inl (by simp [inside])⟩

theorem Moves.running {wst : Wst W} {w w' : Worker W} {op : MemOp}
    (moved : Moves F cfg i wst w sys op w') : w.pc.exiting = false := by
  cases moved <;> simp [‹w.pc = _›, Pc.exiting]

theorem settled_of_moves {wst : Wst W} {w w' : Worker W} {op : MemOp}
    (moved : Moves F cfg i wst w sys op w') (settled : w.pc.inBatch = false → w.events = []) :
    w'.pc.inBatch = false → w'.events = [] := by
  cases moved with
  | batchDone here empty => exact fun _ => empty
  | timeout | interrupted | waitFailed => exact fun _ => rfl
  | _ => simp_all [Pc.inBatch]

theorem watched_of_step {wst : Wst W} {w w' : Worker W} {op : MemOp} {listener seen : Listener}
    (inv : Watched cfg i w listener) (moved : Moves F cfg i wst w sys op w')
    (answered : Listener.step cfg consumes i listener sys = some seen)
    (allowed : listener.nothingLeft consumes sys = true)
    (leaves : w'.pc.exiting = true → listener.backlog = 0) :
    seen.backlog = 0 ∨ w'.pc.exiting = false ∧ (seen.edge = true ∨ w'.pc.accepting = true ∨
      ∃ event ∈ w'.events, event.fd = cfg.listenFd i) := by
  cases stopped : w'.pc.exiting with
  | true => exact .inl (Nat.le_zero.1 (leaves stopped ▸ Listener.step_backlog answered))
  | false =>
      rcases (inv.step moved allowed answered).noticed with edge | empty | accepting | reported
      · exact .inr ⟨rfl, .inl edge⟩
      · exact .inl empty
      · exact .inr ⟨rfl, .inr (.inl accepting)⟩
      · exact .inr ⟨rfl, .inr (.inr reported)⟩

theorem leavesNothing_cases {w : Worker W} {op : MemOp}
    (moved : Moves F cfg i state.1.shared.wst (state.1.workers i) sys op w)
    (allowed : leavesNothing cfg consumes state (.worker i sys) = true) :
    (∃ j, j ≠ i ∧ watches cfg state j = true) ∨
      (state.2.seenBy i).nothingLeft consumes sys = true ∧
        (w.pc.exiting = true → state.2.backlog = 0) := by
  cases moved with
  | acceptFailed errno =>
      simp only [leavesNothing, Bool.or_eq_true, decide_eq_true_eq] at allowed
      exact allowed.symm.imp_right fun nothing => ⟨nothing, nofun⟩
  | shutdown | tickFailed =>
      simp only [leavesNothing, Bool.or_eq_true, beq_iff_eq, decide_eq_true_eq] at allowed
      exact allowed.symm.imp_right fun empty => ⟨rfl, fun _ => empty⟩
  | waitFailed errno here real =>
      simp only [leavesNothing, Bool.or_eq_true, beq_iff_eq, decide_eq_true_eq, real,
        false_or] at allowed
      exact allowed.symm.imp_right fun empty => ⟨rfl, fun _ => empty⟩
  | batchDone here empty =>
      have onward : (if cfg.policy.runsScheduler then .scheduleNow else .tick : Pc W).exiting =
          false := by split <;> rfl
      exact .inr ⟨rfl, fun stopped => absurd (onward.symm.trans stopped) (by decide)⟩
  | _ => exact .inr ⟨rfl, nofun⟩

theorem Attended.step (inv : Attended cfg state)
    (allowed : leavesNothing cfg consumes state (.worker i sys) = true)
    (taken : lifoStep F cfg consumes state (.worker i sys) = some next) : Attended cfg next := by
  obtain ⟨op, w, seen, moved, answered, rfl⟩ := lifoStep_worker taken
  refine ⟨?_, fun j => ?_⟩
  · have others (j : Fin W) (other : j ≠ i) (watching : watches cfg state j = true) :
        watches cfg (⟨state.1.shared.apply i op, Function.update state.1.workers i w⟩,
          ⟨seen.backlog, Function.update state.2.edges i seen.edge⟩) j = true :=
      (watches_other other).trans watching
    rcases leavesNothing_cases moved allowed with ⟨j, other, watching⟩ | ⟨nothing, leaves⟩
    · exact .inr (.inl ⟨j, others j other watching⟩)
    · rcases inv.watched with empty | ⟨j, watching⟩ | stopped
      · exact .inl (Nat.le_zero.1 (empty ▸ Listener.step_backlog answered))
      · by_cases other : j = i
        · subst other
          obtain ⟨_, noticed⟩ := watches_iff.1 watching
          have watched : Watched cfg j (state.1.workers j) (state.2.seenBy j) :=
            ⟨noticed.imp_right .inr, inv.settled j⟩
          refine (watched_of_step watched moved answered nothing leaves).imp_right fun still =>
            .inl ⟨j, watches_iff.2 ?_⟩
          simpa using still
        · exact .inr (.inl ⟨j, others j other watching⟩)
      · have running := moved.running
        rw [stopped i] at running
        cases running
  · by_cases same : j = i
    · subst same
      simpa using settled_of_moves moved (inv.settled j)
    · simpa [same] using inv.settled j

theorem attended_of_steps {start : Fin W → Int}
    (steps : StepsIf (lifoStep F cfg consumes)
      (fun state act => leavesNothing cfg consumes state act = true)
      (Host.initial cfg start, SharedListener.initial) state) : Attended cfg state := by
  refine StepsIf.preserve (Attended cfg) ?_ steps (Attended.initial start)
  intro state act next inv allowed taken
  cases act with
  | worker i sys => exact inv.step allowed taken
  | arrive raised => exact inv.arrive taken

theorem Host.shared_backlog_attended {start : Fin W → Int}
    (steps : StepsIf (lifoStep F cfg consumes)
      (fun state act => leavesNothing cfg consumes state act = true)
      (Host.initial cfg start, SharedListener.initial) state)
    (running : ∃ i, (state.1.workers i).pc.exiting = false) :
    (0 < state.2.backlog → ∃ i, (state.1.workers i).pc.exiting = false ∧
      (state.2.edges i = true ∨ (state.1.workers i).pc.accepting = true ∨
        ∃ event ∈ (state.1.workers i).events, event.fd = cfg.listenFd i)) ∧
    ((∀ i, (state.1.workers i).pc = .epollWait ∨ (state.1.workers i).pc = .exited) →
      (∀ i, state.2.edges i = false) → state.2.backlog = 0) := by
  have inv := attended_of_steps steps
  have attended : 0 < state.2.backlog → ∃ i, watches cfg state i = true := by
    intro queued
    rcases inv.watched with empty | watched | stopped
    · omega
    · exact watched
    · obtain ⟨i, alive⟩ := running
      rw [stopped i] at alive
      cases alive
  refine ⟨fun queued => ?_, fun waiting quiet => ?_⟩
  · obtain ⟨i, watching⟩ := attended queued
    exact ⟨i, watches_iff.1 watching⟩
  · by_contra queued
    obtain ⟨i, watching⟩ := attended (Nat.pos_of_ne_zero queued)
    obtain ⟨alive, noticed⟩ := watches_iff.1 watching
    rcases waiting i with here | here
    · have idle := inv.settled i (by simp [here, Pc.inBatch])
      simp [here, idle, quiet i, Pc.accepting] at noticed
    · rw [here] at alive
      cases alive

end Invariant

def lifoConfig : Config 2 := { pairConfig with policy := .lifo }

def acceptBoth : List Sys :=
  [.accept4 (.ok 7), .internal, .ctlAdd 7 true, .accept4 (.ok 8), .internal, .ctlAdd 8 true,
    .accept4 (.err eagain), .internal]

def nextWait : List Sys := endBatch ++ [.shutdown false, .clock 6, .internal]

def takesBoth (winner loser : Fin 2) : List (LifoAct 2) :=
  -- Two arrivals wake both workers. One accepts both and the other finds nothing.
  let woken : List Sys := awaitEvents [⟨3, 1⟩] ++ [.internal]
  let tooLate : List Sys := [.accept4 (.err eagain), .internal]
  [.arrive {loser, winner}, .arrive {winner}] ++ woken.map (LifoAct.worker loser) ++
    (woken ++ acceptBoth).map (LifoAct.worker winner) ++
    (tooLate ++ nextWait).map (LifoAct.worker loser) ++ nextWait.map (LifoAct.worker winner)

theorem Host.shared_backlog_attended_both :
    ∃ state : Host 2 × SharedListener 2, (state.1.workers 1).conns.size = 2 ∧
      (∀ i, (state.1.workers i).pc = .epollWait) ∧ state.2.backlog = 0 := by
  have ran : ((exec (restrict (lifoStep Rat lifoConfig (· == econnaborted))
      (leavesNothing lifoConfig (· == econnaborted)))
      (Host.initial lifoConfig fun _ => 0, SharedListener.initial) (takesBoth 1 0)).map fun state =>
        (decide (∀ i, (state.1.workers i).pc.atWait = true ∧ state.2.edges i = false),
          (state.1.workers 1).conns.size)) = some (true, 2) := by decide +kernel
  obtain ⟨state, run, seen⟩ := Option.map_eq_some_iff.1 ran
  simp only [Prod.mk.injEq, decide_eq_true_eq, Pc.atWait_iff] at seen
  obtain ⟨waiting, size⟩ := seen
  refine ⟨state, size, fun i => (waiting i).1, ?_⟩
  exact (Host.shared_backlog_attended (steps_restrict (exec_steps run))
    ⟨0, by simp [(waiting 0).1, Pc.exiting]⟩).2 (fun i => .inl (waiting i).1) fun i => (waiting i).2

end MicroHermes.Server
