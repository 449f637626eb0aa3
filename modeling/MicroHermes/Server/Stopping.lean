import MicroHermes.Server.Descriptors
import MicroHermes.Server.Responses

set_option autoImplicit false

namespace MicroHermes.Server

open Transition

/-- What clients still have for a worker: connections to be accepted and bytes to be read. -/
structure Traffic where
  conns : Nat
  bytes : Nat
  deriving DecidableEq

def Traffic.step (traffic : Traffic) : Sys → Option Traffic
  | .epollWait (.ok events) => if events.length ≤ maxEvents then some traffic else none
  | .accept4 (.ok _) =>
      if 0 < traffic.conns then some { traffic with conns := traffic.conns - 1 } else none
  | .read _ (.ok bytes) =>
      if bytes.length ≤ traffic.bytes then
        some { traffic with bytes := traffic.bytes - bytes.length }
      else none
  | _ => some traffic

def trafficStep {W : Nat} : (Fin W → Traffic) → Act W → Option (Fin W → Traffic) :=
  perWorker (fun _ => Traffic.step) fun traffic _ => some traffic

def Sys.waits : Sys → Bool
  | .epollWait _ => true
  | _ => false

section Buffers

def entryBytes (entry : Sigma fun _ : RawFd => ConnState) : Nat := entry.2.buf.length

def Conns.buffered (conns : Conns) : Nat := (conns.entries.map entryBytes).sum

theorem sum_kerase {fd : RawFd} {state : ConnState}
    {entries : List (Sigma fun _ : RawFd => ConnState)}
    (found : entries.dlookup fd = some state) :
    ((entries.kerase fd).map entryBytes).sum + state.buf.length = (entries.map entryBytes).sum := by
  induction entries with
  | nil => cases found
  | cons entry rest ih =>
      obtain ⟨other, value⟩ := entry
      by_cases same : fd = other
      · subst same
        simp only [List.dlookup_cons_eq, Option.some.injEq] at found
        simp [found, entryBytes, Nat.add_comm]
      · let entry : Sigma fun _ : RawFd => ConnState := ⟨other, value⟩
        have later := ih ((List.dlookup_cons_ne rest entry same).symm.trans found)
        have kept : (entry :: rest).kerase fd = entry :: rest.kerase fd := List.kerase_cons_ne same
        simp only [entry] at kept
        rw [kept, List.map_cons, List.map_cons, List.sum_cons, List.sum_cons, ← later, Nat.add_assoc]

variable {conns : Conns} {fd : RawFd} {state : ConnState}

theorem Conns.entries_erase (conns : Conns) (fd : RawFd) :
    (conns.erase fd).entries = conns.entries.kerase fd := rfl

theorem Conns.buffered_erase (found : conns.lookup fd = some state) :
    Conns.buffered (conns.erase fd) + state.buf.length = conns.buffered :=
  sum_kerase found

theorem Conns.buffered_erase_le (conns : Conns) (fd : RawFd) :
    Conns.buffered (conns.erase fd) ≤ conns.buffered := by
  cases found : conns.lookup fd with
  | some state => exact Nat.le.intro (buffered_erase found)
  | none =>
      have absent : fd ∉ conns.entries.keys := List.dlookup_eq_none.1 found
      rw [buffered, entries_erase, List.kerase_of_notMem_keys absent, buffered]

theorem Conns.buffered_insert (conns : Conns) (fd : RawFd) (after : ConnState) :
    Conns.buffered (conns.insert fd after) = after.buf.length + Conns.buffered (conns.erase fd) := by
  rw [buffered, AList.entries_insert, List.map_cons, List.sum_cons, buffered, entries_erase,
    entryBytes]

theorem Conns.buffered_replace (after : ConnState) (found : conns.lookup fd = some state) :
    Conns.buffered (conns.insert fd after) + state.buf.length =
      conns.buffered + after.buf.length := by
  have before := buffered_erase found
  rw [buffered_insert]
  omega

end Buffers

section Measure

variable {W : Nat}

def Pc.left : Pc W → Nat
  -- Steps left to the end of the loop, without those for events, bytes and connections to come.
  | .exited => 0
  | .top => 1
  | .hangSleep | .tick => 2
  | .publish _ => 3
  | .snapshot _ snap => 4 + (3 * W - snap.cursor)
  | .scheduleNow => 5 + 3 * W
  | .nextEvent => 6 + 3 * W
  | .subPending | .addPending => 7 + 3 * W
  | .subConn | .accept4 => 8 + 3 * W
  | .close _ | .subFailed => 9 + 3 * W
  | .ctlDel _ | .closeFailed _ => 10 + 3 * W
  | .process _ | .ctlAdd _ => 11 + 3 * W
  | .read _ | .addConn _ => 12 + 3 * W
  | .write _ resp off spins => 11 + 3 * W + (resp.length - off) + (maxSpins - spins)
  | .execute _ _ => 12 + 3 * W + responseLen + maxSpins
  | .epollWait => 8 + 3 * W + 7 * maxEvents
  | .hangTest => 9 + 3 * W + 7 * maxEvents
  | .stamp => 10 + 3 * W + 7 * maxEvents

def Worker.stepsLeft (w : Worker W) (traffic : Traffic) : Nat :=
  w.pc.left + 7 * w.events.length + 43 * w.conns.buffered + 5 * traffic.conns + 44 * traffic.bytes

def Pc.waitsLeft : Pc W → Nat
  | .stamp | .hangTest | .epollWait => 1
  | _ => 0

end Measure

section Step

variable {F : Type} [MetricArith F] {W : Nat} {cfg : Config W} {i : Fin W} {w w' : Worker W}
  {wst : Wst W} {sys : Sys} {op : MemOp} {traffic traffic' : Traffic}

theorem stepsLeft_lt (spent : traffic' = traffic) (pc : w'.pc.left < w.pc.left)
    (events : w'.events.length ≤ w.events.length)
    (conns : w'.conns.buffered ≤ w.conns.buffered) :
    w'.stepsLeft traffic' < w.stepsLeft traffic := by
  subst spent
  unfold Worker.stepsLeft
  omega

theorem Moves.stepsLeft_lt (moved : Moves F cfg i wst w sys op w')
    (requested : sys ≠ .shutdown false) (answered : traffic.step sys = some traffic') :
    w'.stepsLeft traffic' < w.stepsLeft traffic := by
  cases moved with
  | enter => exact absurd rfl requested
  | ready events here =>
      simp only [Traffic.step, Option.ite_none_right_eq_some, Option.some.injEq] at answered
      obtain ⟨few, rfl⟩ := answered
      simp only [Worker.stepsLeft, here, Pc.left]
      omega
  | timeout here =>
      simp only [Traffic.step, Option.ite_none_right_eq_some, Option.some.injEq] at answered
      obtain ⟨_, rfl⟩ := answered
      exact Server.stepsLeft_lt rfl (by simp only [here, Pc.left]; omega) (Nat.zero_le _) le_rfl
  | batchDone here empty =>
      simp only [Traffic.step, Option.some.injEq] at answered
      have onward : (if cfg.policy.runsScheduler then .scheduleNow else .tick : Pc W).left ≤
          5 + 3 * W := by
        split <;> simp only [Pc.left] <;> omega
      refine Server.stepsLeft_lt answered.symm (Nat.lt_of_le_of_lt onward ?_) le_rfl le_rfl
      simp only [here, Pc.left]
      omega
  | listener event rest here next | hangup event rest here next | readable event rest here next =>
      simp only [Traffic.step, Option.some.injEq] at answered
      simp only [Worker.stepsLeft, here, next, Pc.left, List.length_cons, answered]
      omega
  | accepted fd here =>
      simp only [Traffic.step, Option.ite_none_right_eq_some, Option.some.injEq] at answered
      obtain ⟨more, rfl⟩ := answered
      simp only [Worker.stepsLeft, here, Pc.left]
      omega
  | registered fd here =>
      simp only [Traffic.step, Option.some.injEq] at answered
      have fewer := Conns.buffered_erase_le w.conns fd
      refine Server.stepsLeft_lt answered.symm (by simp only [here, Pc.left]; omega) le_rfl ?_
      simp only [Conns.buffered_insert, List.length_nil]
      omega
  | eof fd here =>
      simp only [Traffic.step, Option.ite_none_right_eq_some, Option.some.injEq] at answered
      obtain ⟨_, rfl⟩ := answered
      exact Server.stepsLeft_lt (by simp) (by simp only [here, Pc.left]; omega) le_rfl le_rfl
  | data fd bytes state here nonempty found =>
      simp only [Traffic.step, Option.ite_none_right_eq_some, Option.some.injEq] at answered
      obtain ⟨few, rfl⟩ := answered
      have more := Conns.buffered_replace ⟨state.buf ++ bytes⟩ found
      have some := List.length_pos_of_ne_nil nonempty
      simp only [List.length_append] at more
      simp only [Worker.stepsLeft, here, Pc.left]
      omega
  | strayData fd bytes here nonempty =>
      simp only [Traffic.step, Option.ite_none_right_eq_some, Option.some.injEq] at answered
      obtain ⟨few, rfl⟩ := answered
      have some := List.length_pos_of_ne_nil nonempty
      simp only [Worker.stepsLeft, here, Pc.left]
      omega
  | badMagic fd state here found long =>
      simp only [Traffic.step, Option.some.injEq] at answered
      have fewer := Conns.buffered_replace ⟨state.buf.drop requestHeaderLen⟩ found
      simp only [List.length_drop] at fewer
      refine Server.stepsLeft_lt answered.symm (by simp only [here, Pc.left]; omega) le_rfl ?_
      simp only
      omega
  | request fd state request here found long =>
      simp only [Traffic.step, Option.some.injEq] at answered
      have fewer := Conns.buffered_replace ⟨state.buf.drop requestHeaderLen⟩ found
      have taken : requestHeaderLen = 24 ∧ responseLen = 16 ∧ maxSpins = 1000 := ⟨rfl, rfl, rfl⟩
      simp only [List.length_drop] at fewer
      simp only [Worker.stepsLeft, here, Pc.left, answered]
      omega
  | execute fd request here =>
      simp only [Traffic.step, Option.some.injEq] at answered
      have whole := responseTo_length (i := i) request
      refine Server.stepsLeft_lt answered.symm ?_ le_rfl le_rfl
      simp only [here, Pc.left, whole]
      omega
  | wrotePart fd resp off spins count here | wroteAll fd resp off spins count here
  | writeRetry fd resp off spins here =>
      simp only [Traffic.step, Option.some.injEq] at answered
      refine Server.stepsLeft_lt answered.symm ?_ le_rfl le_rfl
      simp only [here, Pc.left]
      omega
  | load now snap here more =>
      simp only [Traffic.step, Option.some.injEq] at answered
      refine Server.stepsLeft_lt answered.symm ?_ le_rfl le_rfl
      simp only [SnapshotPc.finished, decide_eq_false_iff_not] at more
      have inside : snap.cursor / 3 < W := by omega
      simp only [here, Pc.left, SnapshotPc.step, inside, dif_pos]
      omega
  | close fd here =>
      simp only [Traffic.step, Option.some.injEq] at answered
      exact Server.stepsLeft_lt answered.symm (by simp only [here, Pc.left]; omega) le_rfl
        (Conns.buffered_erase_le w.conns fd)
  | scheduleNow now here =>
      simp only [Traffic.step, Option.some.injEq] at answered
      refine Server.stepsLeft_lt answered.symm ?_ le_rfl le_rfl
      simp only [here, Pc.left, SnapshotPc.start]
      omega
  | interrupted here | waitFailed _ here =>
      simp only [Traffic.step, Option.some.injEq] at answered
      exact Server.stepsLeft_lt answered.symm (by simp only [here, Pc.left]; omega)
        (Nat.zero_le _) le_rfl
  | shutdown here | stamp _ here | noHang here | hang _ _ here | hangLater _ _ here
  | hangSleep here | addPending here | acceptFailed _ here | addConn _ here
  | registerFailed _ here | closeFailed _ here | subFailed here | drained _ _ here
  | readFailed _ _ here | strayProcess _ here | partialHeader _ _ here
  | writeFailed _ _ _ _ _ here | ctlDel _ here | subConn here | subPending here
  | filter _ _ here | publish _ here | publishFailed _ here | tick here | tickFailed here =>
      simp only [Traffic.step, Option.some.injEq] at answered
      exact Server.stepsLeft_lt answered.symm (by simp only [here, Pc.left]; omega) le_rfl le_rfl

theorem Moves.waitsLeft_le (moved : Moves F cfg i wst w sys op w')
    (requested : sys ≠ .shutdown false) :
    (if sys.waits = true then 1 else 0) + w'.pc.waitsLeft ≤ w.pc.waitsLeft := by
  cases moved with
  | enter => exact absurd rfl requested
  | batchDone here =>
      have onward : (if cfg.policy.runsScheduler then .scheduleNow else .tick : Pc W).waitsLeft = 0 := by
        split <;> rfl
      simp [Sys.waits, onward]
  | _ => simp_all [Sys.waits, Pc.waitsLeft]

def Worker.call (w : Worker W) : Sys :=
  -- What the worker does next, with an answer that the kernel can always give.
  match w.pc with
  | .top => .shutdown true
  | .stamp | .scheduleNow => .clock 0
  | .hangTest => if w.hangPending.isSome then .clock 0 else .internal
  | .epollWait => .epollWait (.err eintr)
  | .accept4 => .accept4 (.err eagain)
  | .ctlAdd fd => .ctlAdd fd true
  | .closeFailed fd | .close fd => .close fd
  | .read fd => .read fd (.err eagain)
  | .execute fd request => .execute fd request
  | .write fd resp off _ => .write fd (resp.drop off) (.err eagain)
  | .ctlDel fd => .ctlDel fd
  | .publish _ => .mapSet true
  | .tick => .writeTick true
  | _ => .internal

theorem Worker.call_not_refused (w : Worker W) : w.call ≠ .shutdown false := by
  unfold call
  split <;> try split
  all_goals nofun

theorem Worker.call_free (w : Worker W) (traffic : Traffic) : traffic.step w.call = some traffic := by
  unfold call
  split <;> try split
  all_goals rfl

variable (F) (cfg) (i) in
theorem Worker.call_possible (wst : Wst W) (w : Worker W) (running : w.pc ≠ .exited) :
    (workerStep F cfg i wst w w.call).isSome = true := by
  cases here : w.pc with
  | hangTest =>
      cases planned : w.hangPending <;>
        simp [workerStep, Worker.call, here, planned, Sys.asInternal, Sys.asClock]
  | exited => exact absurd here running
  | _ =>
      simp [workerStep, Worker.call, here, Sys.asShutdown, Sys.asClock, Sys.asEpollWait,
        Sys.asAccept4, Sys.asCtlAdd, Sys.asRead, Sys.asWrite, Sys.asMapSet, Sys.asWriteTick,
        Sys.asInternal, Sys.exactly]

theorem Host.worker_returns {state final : Host W × (Fin W → Traffic)} {acts : List (Act W)}
    (run : exec (product (Host.step F cfg) trafficStep) state acts = some final)
    (requested : .shutdown false ∉ acts.filterMap (Act.call i)) :
    (acts.filterMap (Act.call i)).length + (final.1.workers i).stepsLeft (final.2 i) ≤
      (state.1.workers i).stepsLeft (state.2 i) ∧
    (acts.filterMap (Act.call i)).countP Sys.waits ≤ 1 ∧
    ((final.1.workers i).pc ≠ .exited → ∃ sys, sys ≠ .shutdown false ∧
      (product (Host.step F cfg) trafficStep final (.worker i sys)).isSome = true) := by
  have spent : (acts.filterMap (Act.call i)).length + (final.1.workers i).stepsLeft (final.2 i) ≤
      (state.1.workers i).stepsLeft (state.2 i) ∧
      (acts.filterMap (Act.call i)).countP Sys.waits + (final.1.workers i).pc.waitsLeft ≤
        (state.1.workers i).pc.waitsLeft := by
    refine exec_induct (fun acts final => .shutdown false ∉ acts.filterMap (Act.call i) →
      (acts.filterMap (Act.call i)).length + (final.1.workers i).stepsLeft (final.2 i) ≤
        (state.1.workers i).stepsLeft (state.2 i) ∧
      (acts.filterMap (Act.call i)).countP Sys.waits + (final.1.workers i).pc.waitsLeft ≤
        (state.1.workers i).pc.waitsLeft) ?_ ?_ run requested
    · simp
    · intro earlier act before next _ ih taken fresh
      simp only [List.filterMap_append, List.mem_append, not_or] at fresh
      obtain ⟨length, waits⟩ := ih fresh.1
      rw [List.filterMap_append]
      rcases worker_view taken i with ⟨sys, op, rfl, moved, answered⟩ | ⟨other, worker, traffic⟩
      · have asked : sys ≠ .shutdown false := by
          simpa [Act.call, eq_comm] using fresh.2
        have fewer := moved.stepsLeft_lt asked answered
        have once := moved.waitsLeft_le asked
        simp only [List.filterMap_cons, Act.call, if_true, List.filterMap_nil, List.length_append,
          List.length_singleton, List.countP_append, List.countP_singleton]
        omega
      · simpa [other, worker, traffic] using ⟨length, waits⟩
  refine ⟨spent.1, ?_, fun running => ?_⟩
  · have once : (state.1.workers i).pc.waitsLeft ≤ 1 := by
      unfold Pc.waitsLeft
      split <;> omega
    omega
  · obtain ⟨⟨op, w⟩, moved⟩ := Option.isSome_iff_exists.1
      (Worker.call_possible F cfg i final.1.shared.wst (final.1.workers i) running)
    refine ⟨(final.1.workers i).call, (final.1.workers i).call_not_refused, ?_⟩
    simp [product, Host.step, moved, trafficStep, perWorker, Worker.call_free]

end Step

def stopRun : List (Act 1) :=
  -- The flag is set while the worker handles a connection that is closed on it.
  soloRun [.internal, .read 7 (.ok []), .ctlDel 7, .close 7, .internal, .internal, .internal,
    .writeTick true, .shutdown true]

def beforeStop : List (Act 1) :=
  soloRun (awaitEvents [⟨3, 1⟩] ++ acceptOne 7 ++ endBatch ++ awaitEvents [⟨7, 1⟩])

theorem Host.worker_returns_after_batch :
    ∃ state final, exec (product (Host.step Rat (soloConfig .reuseport)) trafficStep) state stopRun =
        some final ∧ (final.1.workers 0).pc.left = 0 ∧
      (stopRun.filterMap (Act.call 0)).length + (final.1.workers 0).stepsLeft (final.2 0) ≤
        (state.1.workers 0).stepsLeft (state.2 0) := by
  have ran : (do
      let state ← exec (product (Host.step Rat (soloConfig .reuseport)) trafficStep)
        (Host.initial (soloConfig .reuseport) fun _ => 0, fun _ => ⟨1, 0⟩) beforeStop
      let final ← exec (product (Host.step Rat (soloConfig .reuseport)) trafficStep) state stopRun
      some (final.1.workers 0).pc.left) = some 0 := by decide +kernel
  simp only [Option.bind_eq_bind, Option.bind_eq_some_iff, Option.some.injEq] at ran
  obtain ⟨state, _, final, run, exits⟩ := ran
  exact ⟨state, final, run, exits, (Host.worker_returns run (by decide)).1⟩

end MicroHermes.Server
