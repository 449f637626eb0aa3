import MicroHermes.Server.Framing
import MicroHermes.Server.Readiness
import MicroHermes.Server.Stopping

set_option autoImplicit false

namespace MicroHermes.Server

open Transition Blocks

structure Peers where
  net : Net
  streams : RawFd → Option Stream
  traffic : Traffic

def Peers.arrive (peers : Peers) (conn : Nat) (arrival : Arrival) : Peers :=
  { peers with net := peers.net.arrive conn arrival }

section System

variable (F : Type) [MetricArith F] {W : Nat} (cfg : Config W)

def Peers.initial (i : Fin W) (traffic : Traffic) : Peers :=
  ⟨.initial cfg i, fun _ => none, traffic⟩

def Peers.step (i : Fin W) (peers : Peers) (sys : Sys) : Option Peers :=
  (Net.step cfg i peers.net sys).bind fun net =>
    (peers.traffic.step sys).map fun traffic =>
      ⟨net, fun fd => watch fd (peers.streams fd) sys, traffic⟩

def serviceStep (state : Host W × (Fin W → Peers)) : NetAct W → Option (Host W × (Fin W → Peers))
  | .host act =>
      product (Host.step F cfg) (perWorker (Peers.step cfg) fun peers _ => some peers) state act
  | .arrive i conn arrival =>
      some (state.1, Function.update state.2 i ((state.2 i).arrive conn arrival))

end System

section Invariant

variable {F : Type} [MetricArith F] {W : Nat} {cfg : Config W} {i : Fin W} {w w' : Worker W}
  {slot : WorkerSlot} {wst : Wst W} {sys : Sys} {op : MemOp} {peers after : Peers}
  {state next : Host W × (Fin W → Peers)} {fd : RawFd} {stream : Stream}

theorem Peers.step_eq_some : Peers.step cfg i peers sys = some after ↔
    Net.step cfg i peers.net sys = some after.net ∧
    peers.traffic.step sys = some after.traffic ∧
    after.streams = fun fd => watch fd (peers.streams fd) sys := by
  obtain ⟨net, streams, traffic⟩ := after
  simp only [Peers.step, Option.bind_eq_some_iff, Option.map_eq_some_iff, Peers.mk.injEq]
  constructor
  · rintro ⟨_, stepped, _, spent, rfl, rfl, rfl⟩
    exact ⟨stepped, spent, rfl⟩
  · rintro ⟨stepped, spent, rfl⟩
    exact ⟨_, stepped, _, spent, rfl, rfl, rfl⟩

theorem service_view {act : NetAct W} (taken : serviceStep F cfg state act = some next)
    (i : Fin W) :
    (∃ sys op, act = .host (.worker i sys) ∧
      Moves F cfg i state.1.shared.wst (state.1.workers i) sys op (next.1.workers i) ∧
      Peers.step cfg i (state.2 i) sys = some (next.2 i)) ∨
    ((∀ sys, act ≠ .host (.worker i sys)) ∧ next.1.workers i = state.1.workers i ∧
      (next.2 i = state.2 i ∨
        ∃ conn arrival, next.2 i = (state.2 i).arrive conn arrival)) := by
  cases act with
  | host act =>
      rcases worker_view taken i with ⟨sys, op, rfl, moved, answered⟩ | ⟨other, worker, kept⟩
      · exact .inl ⟨sys, op, rfl, moved, answered⟩
      · refine .inr ⟨fun sys same => ?_, worker, .inl kept⟩
        obtain rfl := NetAct.host.inj same
        simp [Act.call] at other
  | arrive j conn arrival =>
      simp only [serviceStep, Option.some.injEq] at taken
      subst taken
      refine .inr ⟨by simp, rfl, ?_⟩
      by_cases same : i = j
      · subst same
        exact .inr ⟨conn, arrival, by simp⟩
      · exact .inl (by simp [same])

structure Connected (cfg : Config W) (i : Fin W) (w : Worker W) (slot : WorkerSlot)
    (peers : Peers) : Prop where
  books : Accounted cfg i w slot peers.net.table
  ready : Ready w peers.net
  histories : Histories cfg i w peers.streams

theorem Connected.step (inv : Connected cfg i w slot peers)
    (moved : Moves F cfg i wst w sys op w') (answered : Peers.step cfg i peers sys = some after) :
    Connected cfg i w' (op.onSlot slot) after := by
  obtain ⟨stepped, _, streams⟩ := Peers.step_eq_some.1 answered
  refine ⟨inv.books.step moved ?_, inv.ready.step inv.books moved stepped, ?_⟩
  · simp only [Net.step, Option.bind_eq_some_iff, Option.map_eq_some_iff] at stepped
    obtain ⟨table, listed, _, _, same⟩ := stepped
    rw [listed, ← same]
  · rw [streams]
    exact inv.histories.step inv.books moved

theorem Connected.arrive (inv : Connected cfg i w slot peers) (conn : Nat) (arrival : Arrival) :
    Connected cfg i w slot (peers.arrive conn arrival) :=
  ⟨inv.books, inv.ready.arrive conn arrival, inv.histories⟩

theorem Host.connected {start : Fin W → Int} {traffic : Fin W → Traffic}
    (steps : Steps (serviceStep F cfg)
      (Host.initial cfg start, fun i => Peers.initial cfg i (traffic i)) state) (i : Fin W) :
    Connected cfg i (state.1.workers i) (state.1.shared.wst i) (state.2 i) := by
  refine Steps.preserve (fun state : Host W × (Fin W → Peers) => ∀ i,
    Connected cfg i (state.1.workers i) (state.1.shared.wst i) (state.2 i)) ?_ steps (fun j =>
      ⟨.initial cfg j (start j), .initial cfg j (start j), by constructor <;> simp [Peers.initial]⟩) i
  intro state act next inv taken
  cases act with
  | host act =>
      refine Host.keep_each (Connected cfg) ?_ ?_ taken inv
      · rintro j sys op w peers rfl connected moved answered
        exact connected.step moved answered
      · rintro _ _ _ _ _ _ connected ⟨rfl⟩
        exact connected
  | arrive j conn arrival =>
      simp only [serviceStep, Option.some.injEq] at taken
      subst taken
      intro k
      by_cases same : k = j
      · subst same
        simpa using (inv k).arrive conn arrival
      · simpa [same] using inv k

end Invariant

section Connections

variable {F : Type} [MetricArith F] {W : Nat} {cfg : Config W} {i : Fin W} {w w' : Worker W}
  {slot : WorkerSlot} {wst : Wst W} {sys : Sys} {op : MemOp} {peers after : Peers} {fd : RawFd}
  {arrived : List UInt8} {stream later : Stream}

/-- The connection failed, the peer ended it, or it ended with a bad block and everything before
that was executed. -/
def Stream.Over (stream : Stream) : Prop :=
  stream.failed = true ∨ stream.eof = true ∨
    (hasBadBlock stream.received ∧ stream.executed = requestsOf stream.received)

structure Held (w : Worker W) (fd : RawFd) (stream : Stream) : Prop where
  inside : fd ∈ w.conns
  staying : w.pc.leaving ≠ some fd
  working : stream.failed = false
  noEof : stream.eof = false

theorem Histories.standing (histories : Histories cfg i w peers.streams)
    (found : peers.streams fd = some stream) : stream.Over ∨ Held w fd stream := by
  cases working : stream.failed with
  | true => exact .inl (.inl working)
  | false =>
      cases noEof : stream.eof with
      | true => exact .inl (.inr (.inl noEof))
      | false =>
          obtain ⟨done, rest, parsed, stage⟩ := histories.framed fd stream found working
          have held (state : ConnState) (inside : w.conns.lookup fd = some state)
              (staying : w.pc.phase fd ≠ .ending) : Held w fd stream := by
            refine ⟨AList.lookup_isSome.1 (by rw [inside]; rfl), fun leaving => staying ?_,
              working, noEof⟩
            cases here : w.pc <;> simp_all [Pc.leaving, Pc.phase]
          have bad (due : (w.pc.phase fd).due = []) (ended : Ended done rest stream) :
              stream.Over := by
            rcases ended with ⟨eof, _⟩ | ⟨_, long, bad⟩
            · rw [noEof] at eof
              cases eof
            · obtain ⟨requests, dirty⟩ := parsed.bad_first long bad
              rw [due, List.append_nil] at requests
              exact .inr (.inr ⟨dirty, requests.symm⟩)
          generalize phase : w.pc.phase fd = phase at stage bad held
          generalize entry : w.conns.lookup fd = entry at stage held
          cases stage with
          | idle | reading | processing | executing | writing =>
              exact .inr (held _ rfl (by simp))
          | ending _ ended => exact .inl (bad rfl ended)
          | gone ended => exact .inl (bad rfl ended)

theorem Stream.observe_received (stream : Stream)
    (notRead : ∀ bytes, sys ≠ .read fd (.ok bytes)) :
    (stream.observe fd sys).received = stream.received := by
  unfold Stream.observe
  split <;> (try split) <;> (try split) <;> simp_all

theorem Connected.apart (inv : Connected cfg i w slot peers)
    (moved : Moves F cfg i wst w sys op w')
    (stepped : Net.step cfg i peers.net sys = some after.net) (inside : fd ∈ w.conns)
    (other : sys.target ≠ some fd) : after.net.conn fd = peers.net.conn fd ∧
      (after.net.channel fd).unread = (peers.net.channel fd).unread := by
  have taken := inv.books.accepted_of_open inside
  have put (target : RawFd) (called : sys.target = some target) (channel : Channel) :
      (peers.net.put target channel).channel fd = peers.net.channel fd := by
    refine peers.net.channel_put_other channel fun same => other ?_
    rw [inv.ready.distinct fd taken target (inv.books.target_accepted moved called) same, called]
  simp only [Net.step, Option.bind_eq_some_iff, Option.map_eq_some_iff] at stepped
  obtain ⟨table, listed, net, told, same⟩ := stepped
  have conn : after.net.conn fd = net.conn fd := by rw [← same]
  have channel : after.net.channel fd = net.channel fd := by rw [← same]; rfl
  rw [conn, channel]
  cases sys with
  | epollWait ret =>
      cases ret with
      | ok events =>
          obtain rfl := Option.some.inj told
          refine ⟨rfl, ?_⟩
          simp only [Net.report, Net.channel]
          split <;> rfl
      | err errno =>
          obtain rfl := Option.some.inj told
          exact ⟨rfl, rfl⟩
  | accept4 ret =>
      cases ret with
      | ok opened =>
          obtain rfl := Option.some.inj told
          simp only [FdTable.step, Option.ite_none_right_eq_some] at listed
          have differs : fd ≠ opened := fun same => listed.1.2 (same ▸ taken)
          simp [Net.channel, differs]
      | err errno =>
          obtain rfl := Option.some.inj told
          exact ⟨rfl, rfl⟩
  | ctlAdd target added =>
      cases added with
      | true =>
          obtain rfl := Option.some.inj told
          exact ⟨rfl, by rw [put target rfl]⟩
      | false =>
          obtain rfl := Option.some.inj told
          exact ⟨rfl, rfl⟩
  | ctlDel target | close target =>
      obtain rfl := Option.some.inj told
      exact ⟨rfl, by rw [put target rfl]⟩
  | read target ret =>
      obtain ⟨channel, _, rfl⟩ := Option.map_eq_some_iff.1 told
      exact ⟨rfl, by rw [put target rfl]⟩
  | internal | shutdown _ | clock _ | execute _ _ | write _ _ _ | mapSet _ | writeTick _ =>
      obtain rfl := Option.some.inj told
      exact ⟨rfl, rfl⟩

theorem Channel.read_ok {channel rest : Channel} {bytes : List UInt8}
    (answered : channel.read (.ok bytes) = some rest) : bytes ++ rest.unread = channel.unread := by
  cases bytes with
  | nil =>
      simp only [Channel.read, Option.ite_none_right_eq_some, Option.some.injEq] at answered
      rw [answered.2, List.nil_append]
  | cons first bytes =>
      simp only [Channel.read, Option.ite_none_right_eq_some, Option.some.injEq] at answered
      obtain ⟨⟨⟨more, whole⟩, _⟩, rfl⟩ := answered
      rw [← whole, List.drop_left]

theorem Channel.read_err {channel rest : Channel} {errno : Errno}
    (answered : channel.read (.err errno) = some rest) : rest = channel := by
  simp only [Channel.read, Option.ite_none_left_eq_some, Option.some.injEq] at answered
  exact answered.2.symm

theorem Net.step_read {net next : Net} {ret : SysRet (List UInt8)}
    (stepped : Net.step cfg i net (.read fd ret) = some next) :
    next.conn = net.conn ∧ (net.channel fd).read ret = some (next.channel fd) := by
  simp only [Net.step, FdTable.step, Net.answer, Option.bind_some, Option.map_eq_some_iff]
    at stepped
  obtain ⟨_, ⟨rest, answered, rfl⟩, rfl⟩ := stepped
  exact ⟨rfl, answered.trans (congrArg some (net.channel_put_self fd rest).symm)⟩

theorem Net.step_drained {net next : Net} {errno : Errno}
    (stepped : Net.step cfg i net (.read fd (.err errno)) = some next)
    (empty : errno = eagain ∨ errno = ewouldblock) : (next.channel fd).unread = [] := by
  obtain ⟨same, nothing⟩ := Channel.read_drained empty (Net.step_read stepped).2
  rw [same]
  simp_all [Channel.readable]

theorem Held.calls (held : Held w fd stream) (inv : Connected cfg i w slot peers)
    (moved : Moves F cfg i wst w sys op w') (target : sys.target = some fd) :
    (∃ ret, sys = .read fd ret) ∨ ∃ offered ret, sys = .write fd offered ret := by
  have outside : fd ∉ w.pc.held := fun kept => (inv.books.held_accepted kept).2 held.inside
  have staying := held.staying
  cases moved with
  | registered _ here | registerFailed _ here | closeFailed _ here =>
      obtain rfl := Option.some.inj target
      exact absurd (by simp [here, Pc.held]) outside
  | ctlDel _ here | close _ here =>
      obtain rfl := Option.some.inj target
      exact absurd (by rw [here]; rfl) staying
  | eof | data | strayData | drained | readFailed =>
      obtain rfl := Option.some.inj target
      exact .inl ⟨_, rfl⟩
  | wrotePart | wroteAll | writeRetry | writeFailed =>
      obtain rfl := Option.some.inj target
      exact .inr ⟨_, _, rfl⟩
  | _ => cases target

theorem Held.unread_step (held : Held w fd stream) (inv : Connected cfg i w slot peers)
    (moved : Moves F cfg i wst w sys op w')
    (stepped : Net.step cfg i peers.net sys = some after.net) :
    after.net.conn fd = peers.net.conn fd ∧
      (stream.observe fd sys).received ++ (after.net.channel fd).unread =
        stream.received ++ (peers.net.channel fd).unread := by
  by_cases target : sys.target = some fd
  · rcases held.calls inv moved target with ⟨ret, rfl⟩ | ⟨offered, ret, rfl⟩
    · obtain ⟨conn, answered⟩ := Net.step_read stepped
      refine ⟨by rw [conn], ?_⟩
      cases ret with
      | ok bytes => simp [Stream.observe, ← Channel.read_ok answered]
      | err errno => rw [stream.observe_received (by simp), Channel.read_err answered]
    · simp only [Net.step, FdTable.step, Net.answer, Option.bind_some, Option.map_some,
        Option.some.injEq] at stepped
      rw [← stepped, stream.observe_received (by simp)]
      exact ⟨rfl, rfl⟩
  · obtain ⟨conn, unread⟩ := inv.apart moved stepped held.inside target
    rw [conn, unread, stream.observe_received fun bytes same => target (by rw [same]; rfl)]
    exact ⟨rfl, rfl⟩

structure Serves (w : Worker W) (peers : Peers) (fd : RawFd) (arrived : List UInt8)
    (stream : Stream) : Prop where
  found : peers.streams fd = some stream
  held : Held w fd stream
  arrived : arrived <+: stream.received ++ (peers.net.channel fd).unread

theorem Serves.step (serves : Serves w peers fd arrived stream)
    (inv : Connected cfg i w slot peers) (moved : Moves F cfg i wst w sys op w')
    (answered : Peers.step cfg i peers sys = some after) :
    after.net.conn fd = peers.net.conn fd ∧
      after.streams fd = some (stream.observe fd sys) ∧
      ((stream.observe fd sys).Over ∨ Serves w' after fd arrived (stream.observe fd sys)) := by
  obtain ⟨stepped, _, streams⟩ := Peers.step_eq_some.1 answered
  have kept : sys ≠ .ctlAdd fd true := by
    rintro rfl
    exact (inv.books.held_accepted moved.registers_held).2 serves.held.inside
  have found : after.streams fd = some (stream.observe fd sys) := by
    simp only [streams, watch, if_neg kept, serves.found, Option.map_some]
  obtain ⟨conn, unread⟩ := serves.held.unread_step inv moved stepped
  refine ⟨conn, found, ((inv.step moved answered).histories.standing found).imp_right fun held => ?_⟩
  exact ⟨found, held, unread ▸ serves.arrived⟩

theorem Serves.arrive (serves : Serves w peers fd arrived stream) (conn : Nat)
    (arrival : Arrival) : Serves w (peers.arrive conn arrival) fd arrived stream where
  found := serves.found
  held := serves.held
  arrived := by
    have more : (peers.net.channel fd).unread <+:
        ((peers.arrive conn arrival).net.channel fd).unread := by
      rw [Peers.arrive, Net.channel_arrive]
      split
      · cases arrival with
        | data bytes => exact List.prefix_append _ _
        | eof => exact List.prefix_rfl
      · exact List.prefix_rfl
    exact serves.arrived.trans ((List.prefix_append_right_inj _).2 more)

def Underway (w : Worker W) (fd : RawFd) (arrived : List UInt8) (stream : Stream) : Prop :=
  (∃ event ∈ w.events, event.fd = fd) ∨ w.pc.reading = some fd ∨ arrived <+: stream.received

theorem Stream.received_observe (stream : Stream) (fd : RawFd) (sys : Sys) :
    stream.received <+: (stream.observe fd sys).received := by
  by_cases data : ∃ bytes, sys = .read fd (.ok bytes)
  · obtain ⟨bytes, rfl⟩ := data
    simp [Stream.observe]
  · rw [stream.observe_received fun bytes same => data ⟨bytes, same⟩]

theorem Serves.underway_or_edge (serves : Serves w peers fd arrived stream)
    (inv : Connected cfg i w slot peers) :
    Underway w fd arrived stream ∨ (peers.net.channel fd).edge = true := by
  by_cases readable : (peers.net.channel fd).readable = true
  · have noticed := inv.ready.noticed fd serves.held.inside serves.held.staying
    rcases noticed.told readable with edge | listed | reading
    · exact .inr edge
    · exact .inl (.inl listed)
    · exact .inl (.inr (.inl reading))
  · have empty : (peers.net.channel fd).unread = [] := by simp_all [Channel.readable]
    have received := serves.arrived
    rw [empty, List.append_nil] at received
    exact .inl (.inr (.inr received))

theorem Underway.step (underway : Underway w fd arrived stream)
    (serves : Serves w peers fd arrived stream) (inv : Connected cfg i w slot peers)
    (moved : Moves F cfg i wst w sys op w') (answered : Peers.step cfg i peers sys = some after)
    (onward : Serves w' after fd arrived (stream.observe fd sys)) :
    Underway w' fd arrived (stream.observe fd sys) := by
  rcases underway with ⟨event, listed, rfl⟩ | reading | received
  · -- An event stays in the batch until the worker looks at it.
    have idle (outside : w.pc.inBatch = false) : False := by
      rw [inv.ready.settled outside] at listed
      cases listed
    cases moved with
    | ready _ here | timeout here | interrupted here | waitFailed _ here =>
        exact (idle (by rw [here]; rfl)).elim
    | listener first rest here next listening =>
        rw [next] at listed
        rcases List.mem_cons.1 listed with rfl | later
        · exact absurd listening (inv.books.ne_listener serves.held.inside)
        · exact .inl ⟨event, later, rfl⟩
    | hangup first rest here next =>
        rw [next] at listed
        rcases List.mem_cons.1 listed with rfl | later
        · exact absurd rfl onward.held.staying
        · exact .inl ⟨event, later, rfl⟩
    | readable first rest here next =>
        rw [next] at listed
        rcases List.mem_cons.1 listed with rfl | later
        · exact .inr (.inl rfl)
        · exact .inl ⟨event, later, rfl⟩
    | _ => exact .inl ⟨event, listed, rfl⟩
  · have here : w.pc = .read fd := by
      cases pc : w.pc <;> simp_all [Pc.reading]
    have staying := onward.held.staying
    cases moved with
    | data target _ _ reads | strayData target _ reads =>
        rw [here] at reads
        obtain rfl := Pc.read.inj reads
        exact .inr (.inl rfl)
    | eof target reads | readFailed target _ reads =>
        rw [here] at reads
        obtain rfl := Pc.read.inj reads
        exact absurd rfl staying
    | drained target errno reads empty =>
        rw [here] at reads
        obtain rfl := Pc.read.inj reads
        have received := onward.arrived
        rw [Net.step_drained (Peers.step_eq_some.1 answered).1 empty, List.append_nil] at received
        exact .inr (.inr received)
    | _ => simp_all
  · exact .inr (.inr (received.trans (stream.received_observe fd sys)))

theorem Underway.answered (underway : Underway w fd arrived stream)
    (serves : Serves w peers fd arrived stream) (inv : Connected cfg i w slot peers)
    (waiting : w.pc = .epollWait) : requestsOf arrived <+: stream.executed ∧
      stream.sent = stream.executed.flatMap (responseTo i) := by
  have received : arrived <+: stream.received := by
    rcases underway with ⟨event, listed, _⟩ | reading | received
    · rw [inv.ready.settled (by rw [waiting]; rfl)] at listed
      cases listed
    · rw [waiting] at reading
      cases reading
    · exact received
  have framed := inv.histories.framed fd stream serves.found serves.held.working
  rw [waiting] at framed
  obtain ⟨executed, sent, _⟩ := framed.settled serves.held.noEof
  refine ⟨?_, sent⟩
  rw [executed]
  exact prefix_decodeUntil (prefix_blocks received)

end Connections

section Rounds

variable {F : Type} [MetricArith F] {W : Nat} {cfg : Config W} {i : Fin W} {w w' : Worker W}
  {wst : Wst W} {sys : Sys} {op : MemOp} {traffic traffic' : Traffic}

def Worker.hangSteps (w : Worker W) : Nat := if w.hangPending.isSome then 5 else 0

def Worker.beforeWait (w : Worker W) (traffic : Traffic) : Nat :=
  -- The steps a worker may take before it waits for events again.
  match w.pc with
  | .epollWait | .exited => 0
  | .hangTest => 1 + w.hangSteps
  | .stamp => 2 + w.hangSteps
  | .top => 3 + w.hangSteps
  | .hangSleep => 4
  | _ => 3 + w.hangSteps + w.stepsLeft traffic

theorem Worker.beforeWait_le (w : Worker W) (traffic : Traffic) :
    w.beforeWait traffic ≤ 3 + w.hangSteps + w.stepsLeft traffic := by
  unfold beforeWait stepsLeft
  split <;> simp_all only [Pc.left] <;> omega

theorem Worker.beforeWait_lt (hang : w'.hangPending = w.hangPending)
    (inBatch : w.beforeWait traffic = 3 + w.hangSteps + w.stepsLeft traffic)
    (uses : w'.stepsLeft traffic' < w.stepsLeft traffic) :
    w'.beforeWait traffic' < w.beforeWait traffic := by
  have bound := w'.beforeWait_le traffic'
  rw [hangSteps, hang, ← hangSteps] at bound
  omega

theorem Moves.beforeWait_lt (moved : Moves F cfg i wst w sys op w') (away : w.pc ≠ .epollWait)
    (answered : traffic.step sys = some traffic') :
    w'.beforeWait traffic' < w.beforeWait traffic := by
  have uses (onward : sys ≠ .shutdown false) := moved.stepsLeft_lt onward answered
  cases moved with
  | ready _ here | timeout here | interrupted here | waitFailed _ here => exact absurd here away
  | shutdown here | enter here | stamp _ here | noHang here =>
      simp only [Worker.beforeWait, Worker.hangSteps, here]
      omega
  | hang _ _ here planned | hangLater _ _ here planned =>
      simp only [Worker.beforeWait, Worker.hangSteps, here, planned, Option.isSome_some, if_true]
      omega
  | hangSleep here => simp [Worker.beforeWait, Worker.hangSteps, here]
  | addPending here | batchDone here | listener _ _ here | hangup _ _ here | readable _ _ here
  | accepted _ here | acceptFailed _ here | addConn _ here | registered _ here
  | registerFailed _ here | closeFailed _ here | subFailed here | eof _ here | data _ _ _ here
  | strayData _ _ here | drained _ _ here | readFailed _ _ here | strayProcess _ here
  | partialHeader _ _ here | badMagic _ _ here | request _ _ _ here | execute _ _ here
  | wrotePart _ _ _ _ _ here | wroteAll _ _ _ _ _ here | writeRetry _ _ _ _ here
  | writeFailed _ _ _ _ _ here | ctlDel _ here | close _ here | subConn here | subPending here
  | scheduleNow _ here | load _ _ here | filter _ _ here | publish _ here | publishFailed _ here
  | tick here | tickFailed here =>
      exact Worker.beforeWait_lt rfl (by simp only [Worker.beforeWait, here]) (uses (by simp))

end Rounds

section Fair

variable (F : Type) [MetricArith F] {W : Nat} (cfg : Config W)

/-- An infinite run, standing still or taking steps, in which no worker in its loop is passed over
for ever by the scheduler, and no edge by a worker that waits again and again. -/
structure FairService (run : Nat → Host W × (Fin W → Peers)) : Prop where
  steps : ∀ n, run (n + 1) = run n ∨ ∃ act, serviceStep F cfg (run n) act = some (run (n + 1))
  scheduled : ∀ i n, (∀ m, n ≤ m → ((run m).1.workers i).pc ≠ .exited) → ∃ m sys, n ≤ m ∧
    serviceStep F cfg (run m) (.host (.worker i sys)) = some (run (m + 1))
  told : ∀ i conn n, (∀ m, n ≤ m → (((run m).2 i).net.channels conn).edge = true) →
    ∃ m, n ≤ m ∧ ∀ k, m ≤ k → ((run k).1.workers i).pc ≠ .epollWait

end Fair

section Liveness

variable {F : Type} [MetricArith F] {W : Nat} {cfg : Config W} {i : Fin W}
  {run : Nat → Host W × (Fin W → Peers)} {fd : RawFd} {arrived : List UInt8} {stream : Stream}
  {n : Nat}

theorem FairService.connected (fair : FairService F cfg run) {start : Fin W → Int}
    {traffic : Fin W → Traffic} (reached : Steps (serviceStep F cfg)
      (Host.initial cfg start, fun i => Peers.initial cfg i (traffic i)) (run 0)) (n : Nat)
    (i : Fin W) :
    Connected cfg i ((run n).1.workers i) ((run n).1.shared.wst i) ((run n).2 i) := by
  have reached : Steps (serviceStep F cfg)
      (Host.initial cfg start, fun i => Peers.initial cfg i (traffic i)) (run n) := by
    induction n with
    | zero => exact reached
    | succ n ih =>
        rcases fair.steps n with still | ⟨act, taken⟩
        · rwa [still]
        · exact ih.tail ⟨act, trivial, taken⟩
  exact Host.connected reached i

theorem FairService.view (fair : FairService F cfg run) (n : Nat) (i : Fin W) :
    (∃ sys op, Moves F cfg i (run n).1.shared.wst ((run n).1.workers i) sys op
        ((run (n + 1)).1.workers i) ∧
      Peers.step cfg i ((run n).2 i) sys = some ((run (n + 1)).2 i)) ∨
    ((run (n + 1)).1.workers i = (run n).1.workers i ∧
      ((run (n + 1)).2 i = (run n).2 i ∨
        ∃ conn arrival, (run (n + 1)).2 i = ((run n).2 i).arrive conn arrival)) := by
  rcases fair.steps n with still | ⟨act, taken⟩
  · rw [still]
    exact .inr ⟨rfl, .inl rfl⟩
  · rcases service_view taken i with ⟨sys, op, _, moved, answered⟩ | ⟨_, worker, peers⟩
    · exact .inl ⟨sys, op, moved, answered⟩
    · exact .inr ⟨worker, peers⟩

theorem FairService.waits (fair : FairService F cfg run) (n : Nat)
    (inLoop : ∀ m, n ≤ m → ((run m).1.workers i).pc ≠ .exited) :
    ∃ m, n ≤ m ∧ ((run m).1.workers i).pc = .epollWait := by
  by_contra never
  push Not at never
  have absent : ¬ ∃ k, ((run (n + k)).1.workers i).pc = .epollWait := fun ⟨k, here⟩ =>
    never (n + k) (Nat.le_add_right ..) here
  refine absent (@eventually _ _ _ _ (fun k => run (n + k))
    (fun state => (state.1.workers i).pc = .epollWait)
    (fun state => (state.1.workers i).beforeWait (state.2 i).traffic) (fun k => ?_) fun k _ => ?_)
  · rcases fair.view (n + k) i with ⟨sys, op, moved, answered⟩ | ⟨worker, peers⟩
    · exact (moved.beforeWait_lt (never _ (Nat.le_add_right ..))
        (Peers.step_eq_some.1 answered).2.1).le
    · have traffic : ((run (n + k + 1)).2 i).traffic = ((run (n + k)).2 i).traffic := by
        rcases peers with same | ⟨conn, arrival, same⟩
        · rw [same]
        · rw [same]
          rfl
      rw [← Nat.add_assoc, worker, traffic]
  · obtain ⟨m, sys, later, taken⟩ := fair.scheduled i (n + k) fun m later =>
      inLoop m (by omega)
    rcases service_view taken i with ⟨sys, op, _, moved, answered⟩ | ⟨other, _⟩
    · refine ⟨m - n, by omega, ?_⟩
      have first : n + (m - n) = m := by omega
      have second : n + (m - n + 1) = m + 1 := by omega
      rw [first, second]
      exact moved.beforeWait_lt (never m (by omega)) (Peers.step_eq_some.1 answered).2.1
    · exact absurd rfl (other sys)

/-- What had arrived on a connection is answered as far as it is whole requests, unless the
connection has come to its end or the worker has left its loop. -/
def Served (i : Fin W) (fd : RawFd) (arrived : List UInt8) (state : Host W × (Fin W → Peers)) :
    Prop :=
  (state.1.workers i).pc = .exited ∨ ∃ stream, (state.2 i).streams fd = some stream ∧
    (stream.Over ∨ requestsOf arrived <+: stream.executed ∧
      stream.sent = stream.executed.flatMap (responseTo i))

theorem FairService.serves_step (fair : FairService F cfg run)
    (inv : Connected cfg i ((run n).1.workers i) ((run n).1.shared.wst i) ((run n).2 i))
    (serves : Serves ((run n).1.workers i) ((run n).2 i) fd arrived stream)
    (unserved : ¬ Served i fd arrived (run (n + 1))) :
    ∃ later, Serves ((run (n + 1)).1.workers i) ((run (n + 1)).2 i) fd arrived later ∧
      ((run (n + 1)).2 i).net.conn fd = ((run n).2 i).net.conn fd ∧
      (Underway ((run n).1.workers i) fd arrived stream →
        Underway ((run (n + 1)).1.workers i) fd arrived later) := by
  rcases fair.view n i with ⟨sys, op, moved, answered⟩ | ⟨worker, peers⟩
  · obtain ⟨conn, found, ended | onward⟩ := serves.step inv moved answered
    · exact absurd (.inr ⟨_, found, .inl ended⟩) unserved
    · exact ⟨_, onward, conn, fun underway => underway.step serves inv moved answered onward⟩
  · rw [worker]
    rcases peers with same | ⟨conn, arrival, same⟩
    · rw [same]
      exact ⟨stream, serves, rfl, id⟩
    · rw [same]
      exact ⟨stream, serves.arrive conn arrival, rfl, id⟩

theorem FairService.serves_until (fair : FairService F cfg run)
    (inv : ∀ n, Connected cfg i ((run n).1.workers i) ((run n).1.shared.wst i) ((run n).2 i))
    (serves : Serves ((run n).1.workers i) ((run n).2 i) fd arrived stream) (m : Nat)
    (later : n ≤ m) (unserved : ∀ k, n ≤ k → k ≤ m → ¬ Served i fd arrived (run k)) :
    ∃ after, Serves ((run m).1.workers i) ((run m).2 i) fd arrived after ∧
      ((run m).2 i).net.conn fd = ((run n).2 i).net.conn fd ∧
      (Underway ((run n).1.workers i) fd arrived stream →
        Underway ((run m).1.workers i) fd arrived after) := by
  induction m, later using Nat.le_induction with
  | base => exact ⟨stream, serves, rfl, id⟩
  | succ m later ih =>
      obtain ⟨middle, serving, conn, underway⟩ := ih fun k from_start upto =>
        unserved k from_start (Nat.le_succ_of_le upto)
      obtain ⟨after, onward, conn', underway'⟩ := fair.serves_step (inv m) serving
        (unserved (m + 1) (Nat.le_succ_of_le later) le_rfl)
      exact ⟨after, onward, conn'.trans conn, fun start => underway' (underway start)⟩

theorem FairService.served (fair : FairService F cfg run)
    (inv : ∀ n, Connected cfg i ((run n).1.workers i) ((run n).1.shared.wst i) ((run n).2 i))
    (serves : Serves ((run n).1.workers i) ((run n).2 i) fd arrived stream) :
    ∃ m, n ≤ m ∧ Served i fd arrived (run m) := by
  by_contra never
  push Not at never
  have inLoop (m : Nat) (later : n ≤ m) : ((run m).1.workers i).pc ≠ .exited := fun exited =>
    never m later (.inl exited)
  have serving (m : Nat) (later : n ≤ m) := fair.serves_until inv serves m later fun k from_start _ =>
    never k from_start
  by_cases taken : ∃ m after, n ≤ m ∧
    Serves ((run m).1.workers i) ((run m).2 i) fd arrived after ∧
    Underway ((run m).1.workers i) fd arrived after
  · obtain ⟨m, middle, later, serves, underway⟩ := taken
    obtain ⟨k, onward, waiting⟩ := fair.waits m fun k onward => inLoop k (later.trans onward)
    obtain ⟨after, serving, _, kept⟩ := fair.serves_until inv serves k onward fun j from_start _ =>
      never j (later.trans from_start)
    exact never k (later.trans onward)
      (.inr ⟨after, serving.found, .inr ((kept underway).answered serving (inv k) waiting)⟩)
  · push Not at taken
    obtain ⟨m, later, away⟩ := fair.told i (((run n).2 i).net.conn fd) n fun m later => by
      obtain ⟨after, serving, conn, _⟩ := serving m later
      rw [← conn]
      exact (serving.underway_or_edge (inv m)).resolve_left (taken m after later serving)
    obtain ⟨k, onward, waiting⟩ := fair.waits m fun k onward => inLoop k (later.trans onward)
    exact away k onward waiting

theorem Host.requests_served {start : Fin W → Int} {traffic : Fin W → Traffic}
    (reached : Steps (serviceStep F cfg)
      (Host.initial cfg start, fun i => Peers.initial cfg i (traffic i)) (run 0))
    (fair : FairService F cfg run) (found : ((run n).2 i).streams fd = some stream) :
    ∃ m, n ≤ m ∧
      Served i fd (stream.received ++ (((run n).2 i).net.channel fd).unread) (run m) ∧
      ∀ k, n ≤ k → k < m → fd ∈ ((run k).1.workers i).conns := by
  classical
  have inv (n : Nat) := fair.connected reached n i
  rcases (inv n).histories.standing found with ended | held
  · exact ⟨n, le_rfl, .inr ⟨stream, found, .inl ended⟩, fun k from_start before => by omega⟩
  · have serves : Serves ((run n).1.workers i) ((run n).2 i) fd
        (stream.received ++ (((run n).2 i).net.channel fd).unread) stream :=
      ⟨found, held, List.prefix_rfl⟩
    have ends := fair.served inv serves
    obtain ⟨later, served⟩ := Nat.find_spec ends
    refine ⟨Nat.find ends, later, served, fun k from_start before => ?_⟩
    obtain ⟨after, serving, _⟩ := fair.serves_until inv serves k from_start fun j earlier upto =>
      fun served => Nat.find_min ends (upto.trans_lt before) ⟨earlier, served⟩
    exact serving.held.inside

theorem FairService.of_exec {state final : Host W × (Fin W → Peers)} {acts : List (NetAct W)}
    (possible : exec (serviceStep F cfg) state acts = some final)
    (exited : ∀ i, (final.1.workers i).pc = .exited) :
    FairService F cfg (standing (serviceStep F cfg) state acts final) where
  steps := standing_steps possible
  scheduled i n inLoop := by
    have last := inLoop (n + acts.length) (Nat.le_add_right ..)
    rw [standing_ended possible (Nat.le_add_left ..)] at last
    exact absurd (exited i) last
  told i conn n _ := ⟨n + acts.length, Nat.le_add_right .., fun k later => by
    rw [standing_ended possible (by omega), exited i]
    simp⟩

end Liveness

def requestArrives : List (NetAct 1) :=
  (soloRun (awaitEvents [⟨3, 1⟩] ++ acceptOne 7 ++ endBatch)).map .host ++
    [.arrive soloWorker 0 (.data firstRequest)]

def requestIsServed : List (NetAct 1) :=
  (soloRun (awaitEvents [⟨7, 1⟩] ++ [.internal, .read 7 (.ok firstRequest), .read 7 (.err eagain)] ++
    executeAndAnswer 7 ⟨0, 100, 1000⟩ ++ [.internal, .internal] ++ endBatch ++
    [.shutdown true])).map .host

theorem Host.requests_served_first :
    ∃ run : Nat → Host 1 × (Fin 1 → Peers), (((run 0).2 0).net.channel 7).unread = firstRequest ∧
      ∃ m, Served 0 7 firstRequest (run m) := by
  have ran : (do
      let state ← exec (serviceStep Rat (soloConfig .reuseport))
        (Host.initial (soloConfig .reuseport) (fun _ => 0),
          fun i => Peers.initial (soloConfig .reuseport) i ⟨1, 24⟩) requestArrives
      let final ← exec (serviceStep Rat (soloConfig .reuseport)) state requestIsServed
      some (((state.2 0).net.channel 7).unread, ((state.2 0).streams 7).map Stream.received,
        (final.1.workers 0).pc.left)) = some (firstRequest, some [], 0) := by decide +kernel
  simp only [Option.bind_eq_bind, Option.bind_eq_some_iff, Option.some.injEq, Prod.mk.injEq,
    Option.map_eq_some_iff] at ran
  obtain ⟨state, before, final, possible, unread, ⟨stream, found, received⟩, left⟩ := ran
  have exited : ∀ i, (final.1.workers i).pc = .exited := fun i => by
    rw [Subsingleton.elim i 0]
    cases pc : (final.1.workers 0).pc <;> simp_all [Pc.left]
  let run := standing (serviceStep Rat (soloConfig .reuseport)) state requestIsServed final
  have here : ((run 0).2 0).streams 7 = some stream := found
  obtain ⟨m, _, served, _⟩ := Host.requests_served (exec_steps before)
    (FairService.of_exec possible exited) here
  refine ⟨run, unread, m, ?_⟩
  have waiting : ((run 0).2 0).net.channel 7 = (state.2 0).net.channel 7 := rfl
  rwa [waiting, unread, received, List.nil_append] at served

end MicroHermes.Server
