import MicroHermes.Server.Host

set_option autoImplicit false

/-!
# The accept backlog under edge triggering

A worker that owns its listener hears of the backlog only through edges, so a connection that
`accept_all` leaves behind waits until the next arrival.
-/

namespace MicroHermes.Server

open Transition

/-- A listener: the connections in its backlog, and whether an edge is still to be reported. -/
structure Listener where
  backlog : Nat
  edge : Bool
  deriving DecidableEq

def Listener.initial : Listener := ⟨0, false⟩

section Kernel

variable {W : Nat} (cfg : Config W) (consumes : Errno → Bool)

def Listener.step (i : Fin W) (listener : Listener) : Sys → Option Listener
  -- Reporting the listener takes its edge. `accept4` takes a connection off the backlog when it
  -- succeeds, says EAGAIN only of an empty backlog, and fails otherwise with or without consuming
  -- the connection it failed on.
  | .epollWait (.ok events) =>
      if ∃ event ∈ events, event.fd = cfg.listenFd i then
        if listener.edge then some { listener with edge := false } else none
      else some listener
  | .accept4 (.ok _) =>
      if 0 < listener.backlog then some { listener with backlog := listener.backlog - 1 } else none
  | .accept4 (.err errno) =>
      if errno = eagain then if listener.backlog = 0 then some listener else none
      else if consumes errno then
        if 0 < listener.backlog then some { listener with backlog := listener.backlog - 1 }
        else none
      else some listener
  | _ => some listener

def Listener.arrive (listener : Listener) : Outside → Option Listener
  | .connect => some ⟨listener.backlog + 1, true⟩

def listenerStep : (Fin W → Listener) → Act W → Option (Fin W → Listener) :=
  perWorker (Listener.step cfg consumes) Listener.arrive

def Listener.nothingLeft (listener : Listener) : Sys → Bool
  -- A failing `accept4`, EAGAIN apart, leaves no connection behind unless an edge is still to be
  -- reported.
  | .accept4 (.err errno) =>
      errno == eagain || listener.edge || listener.backlog == 0 ||
        (consumes errno && listener.backlog == 1)
  | _ => true

def failuresLeaveNothing (state : Host W × (Fin W → Listener)) : Act W → Bool
  | .worker i sys => (state.2 i).nothingLeft consumes sys
  | .outside _ _ => true

end Kernel

section Views

variable {W : Nat}

def Pc.accepting : Pc W → Bool
  | .accept4 | .addConn _ | .ctlAdd _ | .closeFailed _ | .subFailed => true
  | _ => false

def Pc.inBatch : Pc W → Bool
  | .addPending | .nextEvent | .accept4 | .addConn _ | .ctlAdd _ | .closeFailed _ | .subFailed
  | .read _ | .process _ | .execute _ _ | .write _ _ _ _ | .ctlDel _ | .close _ | .subConn
  | .subPending => true
  | _ => false

def Pc.atWait : Pc W → Bool
  | .epollWait => true
  | _ => false

def Pc.exiting : Pc W → Bool
  | .exited => true
  | _ => false

theorem Pc.atWait_iff {pc : Pc W} : pc.atWait = true ↔ pc = .epollWait := by
  cases pc <;> simp [Pc.atWait]

end Views

/-- Queued connections are about to be accepted or still to be reported. -/
structure Watched {W : Nat} (cfg : Config W) (i : Fin W) (w : Worker W) (listener : Listener) :
    Prop where
  noticed : listener.edge = true ∨ listener.backlog = 0 ∨ w.pc.accepting = true ∨
    ∃ event ∈ w.events, event.fd = cfg.listenFd i
  settled : w.pc.inBatch = false → w.events = []

section Invariant

variable {F : Type} [MetricArith F] {W : Nat} {cfg : Config W} {consumes : Errno → Bool}
  {i : Fin W} {w w' : Worker W} {listener listener' : Listener}

theorem Watched.initial (cfg : Config W) (i : Fin W) (start : Int) :
    Watched cfg i (Worker.initial cfg i start) .initial := by
  constructor <;> simp [Worker.initial, Listener.initial]

theorem Watched.arrive (inv : Watched cfg i w listener) {event : Outside}
    (happened : listener.arrive event = some listener') : Watched cfg i w listener' := by
  cases event
  simp only [Listener.arrive, Option.some.injEq] at happened
  exact ⟨.inl (happened ▸ rfl), inv.settled⟩

theorem Watched.quiet (inv : Watched cfg i w listener) (events : w'.events = w.events)
    (accepting : w.pc.accepting = true → w'.pc.accepting = true)
    (settled : w'.pc.inBatch = false → w.pc.inBatch = false) : Watched cfg i w' listener where
  noticed := by
    rw [events]
    rcases inv.noticed with edge | empty | inside | reported
    · exact .inl edge
    · exact .inr (.inl empty)
    · exact .inr (.inr (.inl (accepting inside)))
    · exact .inr (.inr (.inr reported))
  settled outside := by rw [events]; exact inv.settled (settled outside)

theorem Listener.nothingLeft_iff {errno : Errno}
    (failed : Listener.step cfg consumes i listener (.accept4 (.err errno)) = some listener') :
    listener.nothingLeft consumes (.accept4 (.err errno)) = true ↔
      listener'.edge = true ∨ listener'.backlog = 0 := by
  simp only [Listener.step] at failed
  simp only [Listener.nothingLeft, Bool.or_eq_true, Bool.and_eq_true, beq_iff_eq, or_assoc]
  by_cases again : errno = eagain
  · simp only [again, if_true, Option.ite_none_right_eq_some, Option.some.injEq] at failed
    obtain ⟨empty, rfl⟩ := failed
    simp [again, empty]
  · by_cases consumed : consumes errno = true
    · simp only [again, consumed, if_false, if_true, Option.ite_none_right_eq_some,
        Option.some.injEq] at failed
      obtain ⟨queued, rfl⟩ := failed
      simp only [again, consumed, true_and, false_or]
      have last : listener.backlog - 1 = 0 ↔ listener.backlog = 0 ∨ listener.backlog = 1 := by
        omega
      rw [last]
    · simp only [again, consumed, if_false, Bool.false_eq_true, Option.some.injEq] at failed
      subst failed
      simp [again, consumed]

theorem Watched.step (inv : Watched cfg i w listener) {wst : Wst W} {sys : Sys} {op : MemOp}
    (moved : Moves F cfg i wst w sys op w') (allowed : listener.nothingLeft consumes sys = true)
    (answered : Listener.step cfg consumes i listener sys = some listener') :
    Watched cfg i w' listener' := by
  cases moved with
  | shutdown here | enter here | stamp _ here | noHang here | hang _ _ here | hangLater _ _ here
  | hangSleep here | addPending here | addConn _ here | registered _ here | registerFailed _ here
  | closeFailed _ here | subFailed here | eof _ here | data _ _ _ here | strayData _ _ here
  | drained _ _ here | readFailed _ _ here | strayProcess _ here | partialHeader _ _ here
  | badMagic _ _ here | request _ _ _ here | execute _ _ here | wrotePart _ _ _ _ _ here
  | wroteAll _ _ _ _ _ here | writeRetry _ _ _ _ here | writeFailed _ _ _ _ _ here
  | ctlDel _ here | close _ here | subConn here | subPending here | scheduleNow _ here
  | load _ _ here | filter _ _ here | publish _ here | publishFailed _ here | tick here
  | tickFailed here =>
      simp only [Listener.step, Option.some.injEq] at answered
      subst answered
      exact inv.quiet rfl (by simp [here, Pc.accepting]) (by simp [here, Pc.inBatch])
  | ready events here =>
      have idle : w.events = [] := inv.settled (by simp [here, Pc.inBatch])
      have noticed := inv.noticed
      simp only [here, idle, Pc.accepting, Bool.false_eq_true, List.not_mem_nil, false_and,
        exists_false, or_false] at noticed
      refine ⟨?_, by simp [Pc.inBatch]⟩
      simp only [Listener.step] at answered
      split at answered
      · next reported => exact .inr (.inr (.inr reported))
      · simp only [Option.some.injEq] at answered
        subst answered
        exact noticed.imp_right .inl
  | timeout here | interrupted here | waitFailed _ here =>
      have idle : w.events = [] := inv.settled (by simp [here, Pc.inBatch])
      simp only [Listener.step, List.not_mem_nil, false_and, exists_false, if_false,
        Option.some.injEq] at answered
      subst answered
      exact ⟨by simpa [here, idle, Pc.accepting] using inv.noticed, by simp⟩
  | batchDone here empty =>
      simp only [Listener.step, Option.some.injEq] at answered
      subst answered
      refine ⟨?_, fun _ => empty⟩
      have noticed : listener.edge = true ∨ listener.backlog = 0 := by
        simpa [here, empty, Pc.accepting] using inv.noticed
      exact noticed.imp_right .inl
  | listener event rest here next =>
      exact ⟨.inr (.inr (.inl rfl)), by simp [Pc.inBatch]⟩
  | hangup event rest here next connection | readable event rest here next connection =>
      simp only [Listener.step, Option.some.injEq] at answered
      subst answered
      exact ⟨by simpa [here, next, connection, Pc.accepting] using inv.noticed,
        by simp [Pc.inBatch]⟩
  | accepted fd here => exact ⟨.inr (.inr (.inl rfl)), by simp [Pc.inBatch]⟩
  | acceptFailed errno here =>
      have noticed := (Listener.nothingLeft_iff answered).1 allowed
      exact ⟨noticed.imp_right .inl, by simp [Pc.inBatch]⟩

theorem Host.watched {start : Fin W → Int} {state : Host W × (Fin W → Listener)}
    (steps : StepsIf (product (Host.step F cfg) (listenerStep cfg consumes))
      (fun state act => failuresLeaveNothing consumes state act = true)
      (Host.initial cfg start, fun _ => .initial) state)
    (i : Fin W) : Watched cfg i (state.1.workers i) (state.2 i) :=
  Host.preserve_each (fun i w _ listener => Watched cfg i w listener)
    (fun _ _ _ _ _ _ inv allowed moved answered => inv.step moved allowed answered)
    (fun _ _ _ _ _ _ inv happened => inv.arrive happened)
    steps (fun j => .initial cfg j (start j)) i

theorem Host.backlog_empty_before_wait {start : Fin W → Int}
    {state : Host W × (Fin W → Listener)}
    (steps : StepsIf (product (Host.step F cfg) (listenerStep cfg consumes))
      (fun state act => failuresLeaveNothing consumes state act = true)
      (Host.initial cfg start, fun _ => .initial) state)
    (i : Fin W) (waiting : (state.1.workers i).pc = .epollWait)
    (noEdge : (state.2 i).edge = false) : (state.2 i).backlog = 0 := by
  obtain ⟨noticed, settled⟩ := Host.watched steps i
  have idle := settled (by simp [waiting, Pc.inBatch])
  simpa [waiting, idle, noEdge, Pc.accepting] using noticed

end Invariant

def listenerIteration (handling : List Sys) : List (Act 1) :=
  -- One iteration of a worker whose only event is on the listener, and the way to the next wait.
  let scheduling : List Sys :=
    [.internal, .internal, .clock 6, .internal, .internal, .internal, .internal, .mapSet true]
  let again : List Sys := [.writeTick true, .shutdown false, .clock 7, .internal]
  soloRun (awaitEvents [⟨3, 1⟩] ++ .internal :: handling ++ scheduling ++ again)

def abortRun : List (Act 1) :=
  -- The condition is met by a run in which `accept4` loses its only connection to an abort.
  [.outside soloWorker .connect] ++ listenerIteration [.accept4 (.err econnaborted)]

theorem Host.backlog_empty_after_abort :
    ∃ state, exec (restrict (product (Host.step Rat (soloConfig .hermes))
        (listenerStep (soloConfig .hermes) (· == econnaborted)))
        (failuresLeaveNothing (· == econnaborted)))
        (Host.initial (soloConfig .hermes) fun _ => 0, fun _ => .initial) abortRun = some state ∧
      (state.1.workers 0).pc = .epollWait ∧ (state.2 0).backlog = 0 := by
  have ran : (exec (restrict (product (Host.step Rat (soloConfig .hermes))
      (listenerStep (soloConfig .hermes) (· == econnaborted)))
      (failuresLeaveNothing (· == econnaborted)))
      (Host.initial (soloConfig .hermes) fun _ => 0, fun _ => .initial) abortRun).map
        (fun state => ((state.1.workers 0).pc.atWait, (state.2 0).edge)) =
      some (true, false) := by decide +kernel
  obtain ⟨state, run, seen⟩ := Option.map_eq_some_iff.1 ran
  simp only [Prod.mk.injEq] at seen
  have waiting := Pc.atWait_iff.1 seen.1
  exact ⟨state, run, waiting, Host.backlog_empty_before_wait
    (steps_restrict (exec_steps run)) 0 waiting seen.2⟩

def emfileRun : List (Act 1) :=
  -- Two connections arrive and `accept4` runs out of descriptors at once.
  [.outside soloWorker .connect, .outside soloWorker .connect] ++
    listenerIteration [.accept4 (.err emfile)]

theorem Host.backlog_stranded_by_emfile :
    ∃ state, Steps (product (Host.step Rat (soloConfig .hermes))
        (listenerStep (soloConfig .hermes) (· == econnaborted)))
        (Host.initial (soloConfig .hermes) fun _ => 0, fun _ => .initial) state ∧
      (state.1.workers 0).pc = .epollWait ∧
      (state.2 0).edge = false ∧ (state.2 0).backlog = 2 := by
  -- Both queued connections wait for a third to arrive.
  have ran : (exec (product (Host.step Rat (soloConfig .hermes))
      (listenerStep (soloConfig .hermes) (· == econnaborted)))
      (Host.initial (soloConfig .hermes) fun _ => 0, fun _ => .initial) emfileRun).map
        (fun state => ((state.1.workers 0).pc.atWait, state.2 0)) =
      some (true, ⟨2, false⟩) := by decide +kernel
  obtain ⟨state, run, seen⟩ := Option.map_eq_some_iff.1 ran
  simp only [Prod.mk.injEq] at seen
  exact ⟨state, exec_steps run, Pc.atWait_iff.1 seen.1, by rw [seen.2], by rw [seen.2]⟩

end MicroHermes.Server
