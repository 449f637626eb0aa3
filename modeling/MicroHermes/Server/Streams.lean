import MicroHermes.Lib.Blocks
import MicroHermes.Server.Accounting

set_option autoImplicit false

namespace MicroHermes.Server

open Transition Blocks

def decodeBlock (block : List UInt8) : Option Request :=
  if full : block.length = requestHeaderLen then decodeRequest ⟨block, full⟩ else none

theorem decodeBlock_take {buf : List UInt8} (long : ¬ buf.length < requestHeaderLen) :
    decodeBlock (buf.take requestHeaderLen) = decodeRequest (header buf long) := by
  have full : (buf.take requestHeaderLen).length = requestHeaderLen := (header buf long).2
  simp [decodeBlock, full, header]

def requestsOf (stream : List UInt8) : List Request :=
  -- The requests of a stream up to but excluding the first block with a wrong magic.
  decodeUntil decodeBlock (blocks requestHeaderLen stream)

def hasBadBlock (stream : List UInt8) : Prop :=
  ∃ block ∈ blocks requestHeaderLen stream, decodeBlock block = none

instance (stream : List UInt8) : Decidable (hasBadBlock stream) :=
  inferInstanceAs (Decidable (∃ block ∈ blocks requestHeaderLen stream, decodeBlock block = none))

/-- The history of a connection since its descriptor was registered. -/
structure Stream where
  received : List UInt8
  executed : List Request
  sent : List UInt8
  -- What had been received when a drain last ended in EAGAIN.
  drained : List UInt8
  -- EAGAIN answers to the response that is being written.
  refused : Nat
  eof : Bool
  -- A socket error, a hangup or a failed `write_all`.
  failed : Bool
  closed : Bool
  deriving DecidableEq

def Stream.fresh : Stream := ⟨[], [], [], [], 0, false, false, false⟩

def Stream.observe (fd : RawFd) (stream : Stream) : Sys → Stream
  -- What a step on the connection itself adds to its history.
  | .epollWait (.ok events) =>
      if ∃ event ∈ events, event.fd = fd ∧ event.hangup = true then { stream with failed := true }
      else stream
  | .read target (.ok bytes) =>
      if target = fd then
        { stream with received := stream.received ++ bytes, eof := stream.eof || bytes.isEmpty }
      else stream
  | .read target (.err errno) =>
      if target = fd then
        if errno = eagain ∨ errno = ewouldblock then { stream with drained := stream.received }
        else { stream with failed := true }
      else stream
  | .execute target request =>
      if target = fd then { stream with executed := stream.executed ++ [request], refused := 0 }
      else stream
  | .write target offered (.ok count) =>
      if target = fd then { stream with sent := stream.sent ++ offered.take count } else stream
  | .write target _ (.err errno) =>
      if target = fd then
        if errno = eagain ∧ stream.refused < maxSpins then
          { stream with refused := stream.refused + 1 }
        else { stream with failed := true }
      else stream
  | .close target => if target = fd then { stream with closed := true } else stream
  | _ => stream

def watch (fd : RawFd) (stream : Option Stream) (sys : Sys) : Option Stream :=
  -- A history starts when the descriptor is registered; a reused descriptor starts a new one.
  if sys = .ctlAdd fd true then some .fresh else stream.map fun stream => stream.observe fd sys

structure Sockets where
  table : FdTable
  streams : RawFd → Option Stream

def Sockets.initial {W : Nat} (cfg : Config W) (i : Fin W) : Sockets :=
  ⟨.initial cfg i, fun _ => none⟩

def Sockets.step {W : Nat} (cfg : Config W) (i : Fin W) (sockets : Sockets) (sys : Sys) :
    Option Sockets :=
  (FdTable.step cfg i sockets.table sys).map fun table =>
    ⟨table, fun fd => watch fd (sockets.streams fd) sys⟩

def socketStep {W : Nat} (cfg : Config W) : (Fin W → Sockets) → Act W → Option (Fin W → Sockets) :=
  perWorker (Sockets.step cfg) fun sockets _ => some sockets

theorem exec_closes {W : Nat} {cfg : Config W} {i : Fin W} (sockets : Sockets)
    (fds : List RawFd) :
    exec (Sockets.step cfg i) sockets (fds.map .close) =
      some ⟨⟨sockets.table.accepted \ fds.toFinset, sockets.table.registered \ fds.toFinset⟩,
        fun fd => (sockets.streams fd).map fun stream =>
          { stream with closed := stream.closed || decide (fd ∈ fds) }⟩ := by
  induction fds generalizing sockets with
  | nil => simp
  | cons target rest ih =>
      have first : Sockets.step cfg i sockets (.close target) =
          some ⟨⟨sockets.table.accepted.erase target, sockets.table.registered.erase target⟩,
            fun fd => watch fd (sockets.streams fd) (.close target)⟩ := rfl
      rw [List.map_cons, exec_cons, first, Option.bind_some, ih]
      simp only [Option.some.injEq, Sockets.mk.injEq, FdTable.mk.injEq]
      refine ⟨⟨?_, ?_⟩, ?_⟩
      · rw [Finset.erase_sdiff_comm, ← Finset.sdiff_insert, List.toFinset_cons]
      · rw [Finset.erase_sdiff_comm, ← Finset.sdiff_insert, List.toFinset_cons]
      · funext fd
        cases sockets.streams fd with
        | none => rfl
        | some stream =>
            by_cases same : target = fd
            · simp [watch, Stream.observe, same]
            · simp [watch, Stream.observe, same, Ne.symm same]

inductive Phase where
  | idle
  | reading
  | processing
  | executing (request : Request)
  | writing (left : List UInt8) (spins : Nat)
  | ending

def Pc.phase {W : Nat} (fd : RawFd) : Pc W → Phase
  | .read target => if target = fd then .reading else .idle
  | .process target => if target = fd then .processing else .idle
  | .execute target request => if target = fd then .executing request else .idle
  | .write target resp off spins => if target = fd then .writing (resp.drop off) spins else .idle
  | .ctlDel target | .close target => if target = fd then .ending else .idle
  | _ => .idle

def Phase.due : Phase → List Request
  -- The request that is taken from the buffer but not executed.
  | .executing request => [request]
  | _ => []

def Phase.owed : Phase → List UInt8
  -- The bytes of the current response still to be written.
  | .writing left _ => left
  | _ => []

structure Parsed {W : Nat} (i : Fin W) (due : List Request) (owed : List UInt8)
    (done : List (List UInt8)) (rest : List UInt8) (stream : Stream) : Prop where
  split : stream.received = done.flatten ++ rest
  full : ∀ block ∈ done, block.length = requestHeaderLen
  decoded : done.map decodeBlock = (stream.executed ++ due).map some
  answered : stream.sent ++ owed = stream.executed.flatMap (responseTo i)

/-- Why the worker ends a connection that has not failed: it read EOF, or a block with a wrong
magic. -/
def Ended (done : List (List UInt8)) (rest : List UInt8) (stream : Stream) : Prop :=
  (stream.eof = true ∧ done.length = stream.drained.length / requestHeaderLen) ∨
    (stream.eof = false ∧ requestHeaderLen ≤ rest.length ∧
      decodeBlock (rest.take requestHeaderLen) = none)

inductive Stage (done : List (List UInt8)) (rest : List UInt8) (stream : Stream) :
    Option ConnState → Phase → Prop
  | idle (short : rest.length < requestHeaderLen) (drained : stream.drained = stream.received)
      (noEof : stream.eof = false) (stillOpen : stream.closed = false) :
      Stage done rest stream (some ⟨rest⟩) .idle
  | reading (before : done.length = stream.drained.length / requestHeaderLen)
      (noEof : stream.eof = false) (stillOpen : stream.closed = false) :
      Stage done rest stream (some ⟨rest⟩) .reading
  | processing (drained : stream.drained = stream.received) (noEof : stream.eof = false)
      (stillOpen : stream.closed = false) : Stage done rest stream (some ⟨rest⟩) .processing
  | executing (request : Request) (drained : stream.drained = stream.received)
      (noEof : stream.eof = false) (stillOpen : stream.closed = false) :
      Stage done rest stream (some ⟨rest⟩) (.executing request)
  | writing (left : List UInt8) (drained : stream.drained = stream.received)
      (noEof : stream.eof = false) (stillOpen : stream.closed = false) :
      Stage done rest stream (some ⟨rest⟩) (.writing left stream.refused)
  | ending (held : Option ConnState) (ended : Ended done rest stream)
      (stillOpen : stream.closed = false) : Stage done rest stream held .ending
  | gone (ended : Ended done rest stream) (isClosed : stream.closed = true) :
      Stage done rest stream none .idle

def Framed {W : Nat} (i : Fin W) (phase : Phase) (held : Option ConnState) (stream : Stream) :
    Prop :=
  ∃ done rest, Parsed i phase.due phase.owed done rest stream ∧ Stage done rest stream held phase

inductive ConnMoves {W : Nat} (i : Fin W) (hangup : Prop) (stream : Stream) :
    Phase → Option ConnState → Phase → Option ConnState → Stream → Prop
  | kept (phase : Phase) (held : Option ConnState) :
      ConnMoves i hangup stream phase held phase held stream
  | reported (phase : Phase) (held : Option ConnState) :
      ConnMoves i hangup stream phase held phase held { stream with failed := true }
  | hungUp (state : ConnState) (batched : hangup) :
      ConnMoves i hangup stream .idle (some state) .ending (some state) stream
  | readable (state : ConnState) :
      ConnMoves i hangup stream .idle (some state) .reading (some state) stream
  | data (state : ConnState) (bytes : List UInt8) (nonempty : bytes ≠ []) :
      ConnMoves i hangup stream .reading (some state) .reading (some ⟨state.buf ++ bytes⟩)
        { stream with
          received := stream.received ++ bytes, eof := stream.eof || bytes.isEmpty }
  | eof (state : ConnState) :
      ConnMoves i hangup stream .reading (some state) .ending (some state)
        { stream with received := stream.received ++ [], eof := stream.eof || true }
  | drained (state : ConnState) :
      ConnMoves i hangup stream .reading (some state) .processing (some state)
        { stream with drained := stream.received }
  | readFailed (state : ConnState) :
      ConnMoves i hangup stream .reading (some state) .ending (some state)
        { stream with failed := true }
  | partialHeader (state : ConnState) (short : state.buf.length < requestHeaderLen) :
      ConnMoves i hangup stream .processing (some state) .idle (some state) stream
  | badMagic (state : ConnState) (long : ¬ state.buf.length < requestHeaderLen)
      (bad : decodeRequest (header state.buf long) = none) (held : Option ConnState) :
      ConnMoves i hangup stream .processing (some state) .ending held stream
  | request (state : ConnState) (request : Request) (long : ¬ state.buf.length < requestHeaderLen)
      (good : decodeRequest (header state.buf long) = some request) :
      ConnMoves i hangup stream .processing (some state) (.executing request)
        (some ⟨state.buf.drop requestHeaderLen⟩) stream
  | execute (state : ConnState) (request : Request) :
      ConnMoves i hangup stream (.executing request) (some state)
        (.writing ((responseTo i request).drop 0) 0) (some state)
        { stream with executed := stream.executed ++ [request], refused := 0 }
  | wrotePart (state : ConnState) (left : List UInt8) (spins count : Nat)
      (part : count < left.length) :
      ConnMoves i hangup stream (.writing left spins) (some state) (.writing (left.drop count) spins)
        (some state) { stream with sent := stream.sent ++ left.take count }
  | wroteAll (state : ConnState) (left : List UInt8) (spins : Nat) :
      ConnMoves i hangup stream (.writing left spins) (some state) .processing (some state)
        { stream with sent := stream.sent ++ left }
  | writeRetry (state : ConnState) (left : List UInt8) (spins : Nat) (few : spins < maxSpins) :
      ConnMoves i hangup stream (.writing left spins) (some state) (.writing left (spins + 1))
        (some state)
        (if stream.refused < maxSpins then { stream with refused := stream.refused + 1 }
          else { stream with failed := true })
  | writeFailed (state : ConnState) (left : List UInt8) (spins : Nat) (errno : Errno)
      (real : ¬ (errno = eagain ∧ spins < maxSpins)) :
      ConnMoves i hangup stream (.writing left spins) (some state) .ending (some state)
        (if errno = eagain ∧ stream.refused < maxSpins then
          { stream with refused := stream.refused + 1 }
        else { stream with failed := true })
  | close (held : Option ConnState) :
      ConnMoves i hangup stream .ending held .idle none { stream with closed := true }
  | closeAgain : ConnMoves i hangup stream .idle none .idle none { stream with closed := true }

theorem requestHeaderLen_pos : 0 < requestHeaderLen := by decide

section Transitions

variable {W : Nat} {i : Fin W} {state : ConnState} {stream : Stream} {bytes left : List UInt8}
  {request : Request} {spins count : Nat} {due : List Request} {owed rest : List UInt8}
  {done : List (List UInt8)}

theorem Parsed.blocks_received (parsed : Parsed i due owed done rest stream) :
    blocks requestHeaderLen stream.received = done ++ blocks requestHeaderLen rest := by
  rw [parsed.split, blocks_flatten_append requestHeaderLen_pos parsed.full]

theorem Parsed.requests_received (parsed : Parsed i due owed done rest stream) :
    requestsOf stream.received =
      stream.executed ++ due ++ decodeUntil decodeBlock (blocks requestHeaderLen rest) := by
  rw [requestsOf, parsed.blocks_received, decodeUntil_append parsed.decoded]

theorem Parsed.done_length (parsed : Parsed i due owed done rest stream)
    (short : rest.length < requestHeaderLen) :
    done.length = stream.received.length / requestHeaderLen := by
  have whole := parsed.blocks_received
  rw [blocks_of_short short, List.append_nil] at whole
  rw [← whole, blocks_length]

theorem Parsed.takeRequest (parsed : Parsed i [] owed done rest stream)
    (long : ¬ rest.length < requestHeaderLen)
    (good : decodeRequest (header rest long) = some request) :
    Parsed i [request] owed (done ++ [rest.take requestHeaderLen]) (rest.drop requestHeaderLen)
      stream where
  split := by simp [parsed.split]
  full := List.forall_mem_append.2
    ⟨parsed.full, List.forall_mem_singleton.2 (header rest long).2⟩
  decoded := by
    rw [← decodeBlock_take] at good
    have decoded := parsed.decoded
    rw [List.append_nil] at decoded
    simp [decoded, good]
  answered := parsed.answered

theorem Framed.fresh : Framed i .idle (some ⟨[]⟩) .fresh :=
  ⟨[], [], ⟨rfl, by simp, rfl, rfl⟩, .idle (by decide) rfl rfl rfl⟩

theorem Framed.startReading (inv : Framed i .idle (some state) stream) :
    Framed i .reading (some state) stream := by
  obtain ⟨done, rest, parsed, stage⟩ := inv
  cases stage with
  | idle short drained noEof stillOpen =>
      exact ⟨done, rest, parsed, .reading (drained ▸ parsed.done_length short) noEof stillOpen⟩

theorem Framed.data (inv : Framed i .reading (some state) stream) (nonempty : bytes ≠ []) :
    Framed i .reading (some ⟨state.buf ++ bytes⟩)
      { stream with
        received := stream.received ++ bytes, eof := stream.eof || bytes.isEmpty } := by
  obtain ⟨done, rest, parsed, stage⟩ := inv
  cases stage with
  | reading before noEof stillOpen =>
      refine ⟨done, rest ++ bytes, ⟨?_, parsed.full, parsed.decoded, parsed.answered⟩,
        .reading before (by simp [noEof, nonempty]) stillOpen⟩
      simp only [parsed.split, List.append_assoc]

theorem Framed.eof (inv : Framed i .reading (some state) stream) :
    Framed i .ending (some state)
      { stream with received := stream.received ++ [], eof := stream.eof || true } := by
  obtain ⟨done, rest, parsed, stage⟩ := inv
  cases stage with
  | reading before noEof stillOpen =>
      refine ⟨done, rest, ⟨by simp [parsed.split], parsed.full, parsed.decoded, parsed.answered⟩,
        .ending _ (.inl ⟨by simp, before⟩) stillOpen⟩

theorem Framed.drain (inv : Framed i .reading (some state) stream) :
    Framed i .processing (some state) { stream with drained := stream.received } := by
  obtain ⟨done, rest, parsed, stage⟩ := inv
  cases stage with
  | reading before noEof stillOpen =>
      exact ⟨done, rest, ⟨parsed.split, parsed.full, parsed.decoded, parsed.answered⟩,
        .processing rfl noEof stillOpen⟩

theorem Framed.finish (inv : Framed i .processing (some state) stream)
    (short : state.buf.length < requestHeaderLen) : Framed i .idle (some state) stream := by
  obtain ⟨done, rest, parsed, stage⟩ := inv
  cases stage with
  | processing drained noEof stillOpen =>
      exact ⟨done, rest, parsed, .idle short drained noEof stillOpen⟩

theorem Framed.badMagic (inv : Framed i .processing (some state) stream)
    (long : ¬ state.buf.length < requestHeaderLen)
    (bad : decodeRequest (header state.buf long) = none) (held : Option ConnState) :
    Framed i .ending held stream := by
  obtain ⟨done, rest, parsed, stage⟩ := inv
  cases stage with
  | processing drained noEof stillOpen =>
      rw [← decodeBlock_take] at bad
      exact ⟨done, rest, parsed, .ending held (.inr ⟨noEof, Nat.le_of_not_lt long, bad⟩) stillOpen⟩

theorem Framed.takeRequest (inv : Framed i .processing (some state) stream)
    (long : ¬ state.buf.length < requestHeaderLen)
    (good : decodeRequest (header state.buf long) = some request) :
    Framed i (.executing request) (some ⟨state.buf.drop requestHeaderLen⟩) stream := by
  obtain ⟨done, rest, parsed, stage⟩ := inv
  cases stage with
  | processing drained noEof stillOpen =>
      exact ⟨_, _, parsed.takeRequest long good, .executing request drained noEof stillOpen⟩

theorem Framed.execute (inv : Framed i (.executing request) (some state) stream) :
    Framed i (.writing ((responseTo i request).drop 0) 0) (some state)
      { stream with executed := stream.executed ++ [request], refused := 0 } := by
  obtain ⟨done, rest, parsed, stage⟩ := inv
  cases stage with
  | executing request drained noEof stillOpen =>
      refine ⟨done, rest, ⟨parsed.split, parsed.full, ?_, ?_⟩,
        .writing _ drained noEof stillOpen⟩
      · simpa [Phase.due] using parsed.decoded
      · have answered := parsed.answered
        simp only [Phase.owed, List.append_nil] at answered
        simp [Phase.owed, answered]

variable (count) in
theorem Framed.wrote (inv : Framed i (.writing left spins) (some state) stream) :
    Framed i (.writing (left.drop count) spins) (some state)
      { stream with sent := stream.sent ++ left.take count } := by
  obtain ⟨done, rest, parsed, stage⟩ := inv
  cases stage with
  | writing left drained noEof stillOpen =>
      refine ⟨done, rest, ⟨parsed.split, parsed.full, parsed.decoded, ?_⟩,
        .writing _ drained noEof stillOpen⟩
      simpa [Phase.owed] using parsed.answered

theorem Framed.answered (inv : Framed i (.writing [] spins) (some state) stream) :
    Framed i .processing (some state) stream := by
  obtain ⟨done, rest, parsed, stage⟩ := inv
  cases stage with
  | writing left drained noEof stillOpen =>
      exact ⟨done, rest, parsed, .processing drained noEof stillOpen⟩

theorem Framed.refuse (inv : Framed i (.writing left spins) (some state) stream) :
    spins = stream.refused ∧ Framed i (.writing left (spins + 1)) (some state)
      { stream with refused := stream.refused + 1 } := by
  obtain ⟨done, rest, parsed, stage⟩ := inv
  cases stage with
  | writing left drained noEof stillOpen =>
      exact ⟨rfl, done, rest, ⟨parsed.split, parsed.full, parsed.decoded, parsed.answered⟩,
        .writing _ drained noEof stillOpen⟩

theorem Framed.close {held : Option ConnState} (inv : Framed i .ending held stream) :
    Framed i .idle none { stream with closed := true } := by
  obtain ⟨done, rest, parsed, stage⟩ := inv
  cases stage with
  | ending held ended stillOpen =>
      exact ⟨done, rest, ⟨parsed.split, parsed.full, parsed.decoded, parsed.answered⟩,
        .gone ended rfl⟩

theorem Framed.closeAgain (inv : Framed i .idle none stream) :
    Framed i .idle none { stream with closed := true } := by
  -- Closing a descriptor whose registration failed does not touch the history of the connection
  -- that had the descriptor before: that one is closed.
  obtain ⟨done, rest, parsed, stage⟩ := inv
  cases stage with
  | gone ended isClosed =>
      exact ⟨done, rest, ⟨parsed.split, parsed.full, parsed.decoded, parsed.answered⟩,
        .gone ended rfl⟩

end Transitions

structure Histories {W : Nat} (cfg : Config W) (i : Fin W) (w : Worker W)
    (streams : RawFd → Option Stream) : Prop where
  framed : ∀ fd stream, streams fd = some stream → stream.failed = false →
    Framed i (w.pc.phase fd) (w.conns.lookup fd) stream
  hangups : ∀ event ∈ w.events, event.hangup = true → event.fd ≠ cfg.listenFd i →
    ∀ stream, streams event.fd = some stream → stream.failed = true

section Invariant

variable {F : Type} [MetricArith F] {W : Nat} {cfg : Config W} {i : Fin W} {w w' : Worker W}
  {slot : WorkerSlot} {table : FdTable} {streams : RawFd → Option Stream} {wst : Wst W}
  {sys : Sys} {op : MemOp} {fd : RawFd} {stream : Stream}

theorem Stream.observe_failed (failed : stream.failed = true) :
    (stream.observe fd sys).failed = true := by
  unfold Stream.observe
  split <;> (try split) <;> (try split) <;> simp [failed]

theorem watch_eq_some {before : Option Stream} (kept : sys ≠ .ctlAdd fd true) :
    watch fd before sys = some stream ↔
      ∃ earlier, before = some earlier ∧ earlier.observe fd sys = stream := by
  simp [watch, kept]

theorem Conns.lookup_of_handled (inv : Accounted cfg i w slot table)
    (handling : w.pc.handling = some fd) : ∃ state, w.conns.lookup fd = some state := by
  have inside := Conns.mem_fds.1 (inv.2.handled fd handling).1
  exact Option.isSome_iff_exists.1 (AList.lookup_isSome.2 inside)

variable (cfg i w fd) in
def Hangup : Prop :=
  ∃ event ∈ w.events, event.fd = fd ∧ event.hangup = true ∧ event.fd ≠ cfg.listenFd i

variable (stream) in
theorem connMoves_of_moves (accounted : Accounted cfg i w slot table)
    (moved : Moves F cfg i wst w sys op w') (kept : sys ≠ .ctlAdd fd true) :
    ConnMoves i (Hangup cfg i w fd) stream (w.pc.phase fd) (w.conns.lookup fd) (w'.pc.phase fd)
      (w'.conns.lookup fd) (stream.observe fd sys) := by
  -- A step on a connection moves its history along; other connections are not concerned.
  cases moved with
  | shutdown here | enter here | stamp _ here | noHang here | hang _ _ here | hangLater _ _ here
  | hangSleep here | addPending here | listener _ _ here | accepted _ here | acceptFailed _ here
  | addConn _ here | registerFailed _ here | subFailed here | subConn here | subPending here
  | timeout here | interrupted here | waitFailed _ here
  | scheduleNow _ here | load _ _ here | filter _ _ here | publish _ here | publishFailed _ here
  | tick here | tickFailed here =>
      simpa only [here, Pc.phase, Stream.observe] using .kept ..
  | ready events here =>
      simp only [here, Pc.phase, Stream.observe]
      split
      · exact .reported ..
      · exact .kept ..
  | batchDone here =>
      cases cfg.policy.runsScheduler <;> simpa [here, Pc.phase, Stream.observe] using .kept ..
  | hangup event rest here next connection gone =>
      by_cases same : event.fd = fd
      · subst same
        have among : event ∈ w.events := by simp [next]
        have known := accounted.2.known event among
        have inside := Conns.mem_fds.1 ((Finset.mem_insert.1 known).resolve_left connection)
        obtain ⟨state, held⟩ := Option.isSome_iff_exists.1 (AList.lookup_isSome.2 inside)
        simpa only [here, Pc.phase, Stream.observe, held, if_true] using
          .hungUp state ⟨event, among, rfl, gone, connection⟩
      · simpa only [here, Pc.phase, Stream.observe, same, if_false] using .kept ..
  | readable event rest here next connection =>
      by_cases same : event.fd = fd
      · subst same
        have known := accounted.2.known event (by simp [next])
        have inside := Conns.mem_fds.1 ((Finset.mem_insert.1 known).resolve_left connection)
        obtain ⟨state, held⟩ := Option.isSome_iff_exists.1 (AList.lookup_isSome.2 inside)
        simpa only [here, Pc.phase, Stream.observe, held, if_true] using .readable state
      · simpa only [here, Pc.phase, Stream.observe, same, if_false] using .kept ..
  | registered target here =>
      have same : fd ≠ target := fun same => kept (by rw [same])
      simpa only [here, Pc.phase, Stream.observe, AList.lookup_insert_ne same] using .kept ..
  | closeFailed target here =>
      by_cases same : target = fd
      · subst same
        have apart := accounted.1.apart
        simp only [here, Pc.held, Finset.disjoint_singleton_right, Conns.mem_fds] at apart
        have held : w.conns.lookup target = none := AList.lookup_eq_none.2 apart
        simpa only [here, Pc.phase, Stream.observe, held, if_true] using .closeAgain
      · simpa only [here, Pc.phase, Stream.observe, same, if_false] using .kept ..
  | eof target here =>
      by_cases same : target = fd
      · subst same
        obtain ⟨state, held⟩ := Conns.lookup_of_handled accounted (by rw [here]; rfl)
        simpa only [here, Pc.phase, Stream.observe, held, if_true] using .eof state
      · simpa only [here, Pc.phase, Stream.observe, same, if_false] using .kept ..
  | data target bytes state here nonempty held =>
      by_cases same : target = fd
      · subst same
        simpa only [here, Pc.phase, Stream.observe, held, if_true, AList.lookup_insert] using
          .data state bytes nonempty
      · simpa only [here, Pc.phase, Stream.observe, same, if_false,
          AList.lookup_insert_ne (Ne.symm same)] using .kept ..
  | strayData target bytes here nonempty absent | strayProcess target here absent =>
      obtain ⟨state, held⟩ := Conns.lookup_of_handled accounted (by rw [here]; rfl)
      rw [absent] at held
      cases held
  | drained target errno here empty =>
      by_cases same : target = fd
      · subst same
        obtain ⟨state, held⟩ := Conns.lookup_of_handled accounted (by rw [here]; rfl)
        simpa only [here, Pc.phase, Stream.observe, held, if_true, empty] using .drained state
      · simpa only [here, Pc.phase, Stream.observe, same, if_false] using .kept ..
  | readFailed target errno here real =>
      by_cases same : target = fd
      · subst same
        obtain ⟨state, held⟩ := Conns.lookup_of_handled accounted (by rw [here]; rfl)
        simpa only [here, Pc.phase, Stream.observe, held, if_true, real, if_false] using
          .readFailed state
      · simpa only [here, Pc.phase, Stream.observe, same, if_false] using .kept ..
  | partialHeader target state here held short =>
      by_cases same : target = fd
      · subst same
        simpa only [here, Pc.phase, Stream.observe, held, if_true] using .partialHeader state short
      · simpa only [here, Pc.phase, Stream.observe, same, if_false] using .kept ..
  | badMagic target state here held long bad =>
      by_cases same : target = fd
      · subst same
        simpa only [here, Pc.phase, Stream.observe, held, if_true, AList.lookup_insert] using
          .badMagic state long bad _
      · simpa only [here, Pc.phase, Stream.observe, same, if_false,
          AList.lookup_insert_ne (Ne.symm same)] using .kept ..
  | request target state request here held long good =>
      by_cases same : target = fd
      · subst same
        simpa only [here, Pc.phase, Stream.observe, held, if_true, AList.lookup_insert] using
          .request state request long good
      · simpa only [here, Pc.phase, Stream.observe, same, if_false,
          AList.lookup_insert_ne (Ne.symm same)] using .kept ..
  | execute target request here =>
      by_cases same : target = fd
      · subst same
        obtain ⟨state, held⟩ := Conns.lookup_of_handled accounted (by rw [here]; rfl)
        simpa only [here, Pc.phase, Stream.observe, held, if_true] using .execute state request
      · simpa only [here, Pc.phase, Stream.observe, same, if_false] using .kept ..
  | wrotePart target resp off spins count here positive part =>
      by_cases same : target = fd
      · subst same
        obtain ⟨state, held⟩ := Conns.lookup_of_handled accounted (by rw [here]; rfl)
        have unfinished : count < (resp.drop off).length := by
          rw [List.length_drop]
          omega
        simpa only [here, Pc.phase, Stream.observe, held, if_true, List.drop_drop] using
          ConnMoves.wrotePart state (resp.drop off) spins count unfinished
      · simpa only [here, Pc.phase, Stream.observe, same, if_false] using .kept ..
  | wroteAll target resp off spins count here positive all =>
      by_cases same : target = fd
      · subst same
        obtain ⟨state, held⟩ := Conns.lookup_of_handled accounted (by rw [here]; rfl)
        have length : (resp.drop off).length ≤ count := by
          rw [List.length_drop]
          omega
        simpa only [here, Pc.phase, Stream.observe, held, if_true,
          List.take_of_length_le length] using .wroteAll state (resp.drop off) spins
      · simpa only [here, Pc.phase, Stream.observe, same, if_false] using .kept ..
  | writeRetry target resp off spins here few =>
      by_cases same : target = fd
      · subst same
        obtain ⟨state, held⟩ := Conns.lookup_of_handled accounted (by rw [here]; rfl)
        simpa only [here, Pc.phase, Stream.observe, held, if_true, true_and] using
          .writeRetry state (resp.drop off) spins few
      · simpa only [here, Pc.phase, Stream.observe, same, if_false] using .kept ..
  | writeFailed target resp off spins errno here real =>
      by_cases same : target = fd
      · subst same
        obtain ⟨state, held⟩ := Conns.lookup_of_handled accounted (by rw [here]; rfl)
        simpa only [here, Pc.phase, Stream.observe, held, if_true] using
          .writeFailed state (resp.drop off) spins errno real
      · simpa only [here, Pc.phase, Stream.observe, same, if_false] using .kept ..
  | ctlDel target here =>
      by_cases same : target = fd
      · simpa only [here, Pc.phase, Stream.observe, same, if_true] using .kept ..
      · simpa only [here, Pc.phase, Stream.observe, same, if_false] using .kept ..
  | close target here =>
      by_cases same : target = fd
      · subst same
        simpa only [here, Pc.phase, Stream.observe, if_true, AList.lookup_erase] using .close _
      · simpa only [here, Pc.phase, Stream.observe, same, if_false,
          AList.lookup_erase_ne (Ne.symm same)] using .kept ..

theorem Framed.step (accounted : Accounted cfg i w slot table) (inv : Histories cfg i w streams)
    (moved : Moves F cfg i wst w sys op w') (kept : sys ≠ .ctlAdd fd true)
    (found : streams fd = some stream) (alive : (stream.observe fd sys).failed = false) :
    Framed i (w'.pc.phase fd) (w'.conns.lookup fd) (stream.observe fd sys) := by
  have before : Framed i (w.pc.phase fd) (w.conns.lookup fd) stream := by
    refine inv.framed fd stream found ?_
    by_contra failed
    rw [Stream.observe_failed (by simpa using failed)] at alive
    cases alive
  have concerned := connMoves_of_moves stream accounted moved kept
  generalize w.pc.phase fd = phase, w.conns.lookup fd = held at before concerned
  generalize w'.pc.phase fd = phase', w'.conns.lookup fd = held', stream.observe fd sys = after
    at concerned alive ⊢
  cases concerned with
  | kept => exact before
  | reported | readFailed => cases alive
  | hungUp state batched =>
      obtain ⟨event, among, rfl, gone, connection⟩ := batched
      rw [inv.hangups event among gone connection stream found] at alive
      cases alive
  | readable => exact before.startReading
  | data state bytes nonempty => exact before.data nonempty
  | eof => exact before.eof
  | drained => exact before.drain
  | partialHeader state short => exact before.finish short
  | badMagic state long bad => exact before.badMagic long bad _
  | request state request long good => exact before.takeRequest long good
  | execute => exact before.execute
  | wrotePart state left spins count => exact before.wrote count
  | wroteAll state left spins =>
      have wrote := before.wrote left.length
      rw [List.drop_length, List.take_length] at wrote
      exact wrote.answered
  | writeRetry state left spins few =>
      obtain ⟨rfl, refused⟩ := before.refuse
      rwa [if_pos few]
  | writeFailed state left spins errno real =>
      obtain ⟨rfl, -⟩ := before.refuse
      rw [if_neg real] at alive
      cases alive
  | close => exact before.close
  | closeAgain => exact before.closeAgain

theorem Framed.registered {target : RawFd} (moved : Moves F cfg i wst w (.ctlAdd target true) op w') :
    Framed i (w'.pc.phase target) (w'.conns.lookup target) .fresh := by
  cases moved
  simpa [Pc.phase] using Framed.fresh

theorem Histories.step_hangups (accounted : Accounted cfg i w slot table)
    (inv : Histories cfg i w streams) (moved : Moves F cfg i wst w sys op w')
    {event : EpollEvent} (inside : event ∈ w'.events) (gone : event.hangup = true)
    (connection : event.fd ≠ cfg.listenFd i)
    (found : watch event.fd (streams event.fd) sys = some stream) : stream.failed = true := by
  -- The events of a batch are still unhandled when a descriptor is registered within it, so none of
  -- them is on that descriptor.
  have marked (earlier : event ∈ w.events) (kept : sys ≠ .ctlAdd event.fd true) :
      stream.failed = true := by
    obtain ⟨before, recorded, rfl⟩ := (watch_eq_some kept).1 found
    exact Stream.observe_failed (inv.hangups event earlier gone connection before recorded)
  cases moved with
  | ready events here =>
      obtain ⟨before, recorded, rfl⟩ := (watch_eq_some (by simp)).1 found
      have reported : ∃ other ∈ events, other.fd = event.fd ∧ other.hangup = true :=
        ⟨event, inside, rfl, gone⟩
      simp [Stream.observe, reported]
  | timeout here | interrupted here | waitFailed _ here => simp at inside
  | listener _ rest _ next | hangup _ rest _ next | readable _ rest _ next =>
      exact marked (next ▸ List.mem_cons_of_mem _ inside) (by simp)
  | registered target here =>
      have apart := accounted.1.apart
      simp only [here, Pc.held, Finset.disjoint_singleton_right] at apart
      have known := (Finset.mem_insert.1 (accounted.2.known event inside)).resolve_left connection
      refine marked inside fun same => apart ?_
      simp only [Sys.ctlAdd.injEq, and_true] at same
      exact same ▸ known
  | _ => exact marked inside (by simp)

theorem Histories.step (accounted : Accounted cfg i w slot table)
    (inv : Histories cfg i w streams) (moved : Moves F cfg i wst w sys op w') :
    Histories cfg i w' fun fd => watch fd (streams fd) sys where
  framed fd stream found alive := by
    by_cases kept : sys = .ctlAdd fd true
    · subst kept
      simp only [watch, if_true, Option.some.injEq] at found
      exact found ▸ Framed.registered moved
    · obtain ⟨before, recorded, rfl⟩ := (watch_eq_some kept).1 found
      exact Framed.step accounted inv moved kept recorded alive
  hangups event inside gone connection stream found :=
    inv.step_hangups accounted moved inside gone connection found

end Invariant

section Runs

variable {F : Type} [MetricArith F] {W : Nat} {cfg : Config W} {start : Fin W → Int}
  {state : Host W × (Fin W → Sockets)}

theorem Host.histories
    (steps : Steps (product (Host.step F cfg) (socketStep cfg))
      (Host.initial cfg start, Sockets.initial cfg) state) (i : Fin W) :
    Accounted cfg i (state.1.workers i) (state.1.shared.wst i) (state.2 i).table ∧
      Histories cfg i (state.1.workers i) (state.2 i).streams := by
  refine Host.preserve_each (fun i w slot (sockets : Sockets) =>
    Accounted cfg i w slot sockets.table ∧ Histories cfg i w sockets.streams) ?_ ?_ steps ?_ i
  · intro state i sys op w env inv _ moved answered
    simp only [Sockets.step, Option.map_eq_some_iff] at answered
    obtain ⟨table, taken, rfl⟩ := answered
    exact ⟨inv.1.step moved taken, inv.2.step inv.1 moved⟩
  · intro i event w slot env next inv happened
    simp only [Option.some.injEq] at happened
    exact happened ▸ inv
  · intro j
    exact ⟨.initial cfg j (start j), by constructor <;> simp [Sockets.initial]⟩

end Runs

end MicroHermes.Server
