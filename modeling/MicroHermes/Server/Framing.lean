import MicroHermes.Server.Streams

set_option autoImplicit false

namespace MicroHermes.Server

open Transition Blocks

section Framed

variable {W : Nat} {i : Fin W} {phase : Phase} {held : Option ConnState} {stream : Stream}
  {due : List Request} {owed rest : List UInt8} {done : List (List UInt8)}

theorem Parsed.badBlock_iff (parsed : Parsed i due owed done rest stream) :
    hasBadBlock stream.received ↔
      ∃ block ∈ blocks requestHeaderLen rest, decodeBlock block = none := by
  rw [hasBadBlock, parsed.blocks_received]
  constructor
  · rintro ⟨block, inside, bad⟩
    rcases List.mem_append.1 inside with earlier | later
    · have decoded : decodeBlock block ∈ done.map decodeBlock := List.mem_map_of_mem earlier
      rw [parsed.decoded, bad] at decoded
      simp at decoded
    · exact ⟨block, later, bad⟩
  · rintro ⟨block, inside, bad⟩
    exact ⟨block, List.mem_append_right done inside, bad⟩

theorem Parsed.bad_first (parsed : Parsed i due owed done rest stream)
    (long : requestHeaderLen ≤ rest.length)
    (bad : decodeBlock (rest.take requestHeaderLen) = none) :
    requestsOf stream.received = stream.executed ++ due ∧ hasBadBlock stream.received := by
  have first : blocks requestHeaderLen rest =
      rest.take requestHeaderLen :: blocks requestHeaderLen (rest.drop requestHeaderLen) := by
    conv_lhs => rw [← List.take_append_drop requestHeaderLen rest]
    exact blocks_cons requestHeaderLen_pos (by simpa using long)
  refine ⟨?_, parsed.badBlock_iff.2 ⟨_, ?_, bad⟩⟩
  · rw [parsed.requests_received, first, decodeUntil_bad bad, List.append_nil]
  · rw [first]
    exact List.mem_cons_self

theorem Parsed.all_consumed (parsed : Parsed i due owed done rest stream)
    (short : rest.length < requestHeaderLen) :
    requestsOf stream.received = stream.executed ++ due ∧ ¬ hasBadBlock stream.received := by
  rw [parsed.requests_received, parsed.badBlock_iff, blocks_of_short short]
  simp [decodeUntil]

theorem Stage.bad_of_closed (stage : Stage done rest stream held phase)
    (noEof : stream.eof = false) (isClosed : stream.closed = true) :
    requestHeaderLen ≤ rest.length ∧ decodeBlock (rest.take requestHeaderLen) = none := by
  have ended : Ended done rest stream := by
    cases stage <;> simp_all
  simpa [Ended, noEof] using ended

theorem Framed.partway (inv : Framed i phase held stream) (noEof : stream.eof = false) :
    stream.executed <+: requestsOf stream.received ∧
      stream.sent <+: stream.executed.flatMap (responseTo i) ∧
      (stream.closed = true → hasBadBlock stream.received) := by
  obtain ⟨done, rest, parsed, stage⟩ := inv
  refine ⟨?_, ⟨phase.owed, parsed.answered⟩, fun isClosed => ?_⟩
  · rw [parsed.requests_received, List.append_assoc]
    exact List.prefix_append ..
  · obtain ⟨long, bad⟩ := stage.bad_of_closed noEof isClosed
    exact (parsed.bad_first long bad).2

theorem Framed.settled (inv : Framed i .idle held stream) (noEof : stream.eof = false) :
    stream.executed = requestsOf stream.received ∧
      stream.sent = stream.executed.flatMap (responseTo i) ∧
      (stream.closed = true ↔ hasBadBlock stream.received) ∧
      (stream.closed = false →
        held = some ⟨leftover requestHeaderLen stream.received⟩) := by
  obtain ⟨done, rest, parsed, stage⟩ := inv
  have answered := parsed.answered
  simp only [Phase.owed, Phase.due, List.append_nil] at answered parsed
  cases stage with
  | idle short _ _ stillOpen =>
      obtain ⟨requests, clean⟩ := parsed.all_consumed short
      rw [List.append_nil] at requests
      refine ⟨requests.symm, answered, by simp [stillOpen, clean], fun _ => ?_⟩
      rw [parsed.split, leftover_flatten_append parsed.full short]
  | gone ended isClosed =>
      have bad := Stage.bad_of_closed (.gone ended isClosed) noEof isClosed
      obtain ⟨requests, dirty⟩ := parsed.bad_first bad.1 bad.2
      rw [List.append_nil] at requests
      exact ⟨requests.symm, answered, by simp [isClosed, dirty], by simp [isClosed]⟩

theorem Framed.ended_by_eof (inv : Framed i phase held stream) (isClosed : stream.closed = true)
    (wellFormed : ¬ hasBadBlock stream.received) :
    stream.sent = stream.executed.flatMap (responseTo i) ∧
      (stream.executed = requestsOf stream.received ↔
        stream.received.length / requestHeaderLen = stream.drained.length / requestHeaderLen) := by
  -- A closed connection of well-formed requests was closed at EOF, with the blocks consumed that
  -- were complete before the drain that read EOF.
  obtain ⟨done, rest, parsed, stage⟩ := inv
  have gone : phase = .idle ∧ Ended done rest stream := by
    cases stage <;> simp_all
  obtain ⟨rfl, ended⟩ := gone
  have answered := parsed.answered
  simp only [Phase.owed, Phase.due, List.append_nil] at answered parsed
  refine ⟨answered, ?_⟩
  rcases ended with ⟨_, before⟩ | ⟨_, long, bad⟩
  · have decodes : ∀ block ∈ blocks requestHeaderLen rest, decodeBlock block ≠ none :=
      fun block inside bad => wellFormed (parsed.badBlock_iff.2 ⟨block, inside, bad⟩)
    have total := congrArg List.length parsed.blocks_received
    rw [List.length_append, blocks_length, before] at total
    rw [parsed.requests_received, List.append_nil, List.self_eq_append_right,
      ← List.length_eq_zero_iff, decodeUntil_length decodes]
    omega
  · exact absurd (parsed.bad_first long bad).2 wellFormed

end Framed

section Runs

variable {F : Type} [MetricArith F] {W : Nat} {cfg : Config W} {start : Fin W → Int}
  {state : Host W × (Fin W → Sockets)}

theorem Pc.phase_of_not_handling {pc : Pc W} {fd : RawFd} (idle : pc.handling ≠ some fd) :
    pc.phase fd = .idle := by
  cases pc <;> simp_all [Pc.handling, Pc.phase]

theorem decodeResponse_responseTo (i : Fin W) (request : Request) :
    ∃ buf : ResponseBuf, responseTo i request = buf.1 ∧
      decodeResponse buf = (request.seq, UInt32.ofNat i.val, request.sendNs) :=
  ⟨_, rfl, decodeResponse_encodeResponse ..⟩

theorem Framed.left {w : Worker W} {i : Fin W} {sockets : Sockets} {fd : RawFd} {stream : Stream}
    (inv : Framed i .idle (w.conns.lookup fd) stream) (noEof : stream.eof = false)
    (found : sockets.streams fd = some stream) (flushed : Bool) :
    ∃ last, exec (Sockets.step cfg i) sockets (w.leave flushed) = some last ∧
      last.streams fd = some { stream with closed := stream.closed || flushed } := by
  cases flushed with
  | false => exact ⟨sockets, rfl, by simp [found]⟩
  | true =>
      refine ⟨_, exec_closes sockets w.conns.keys, ?_⟩
      simp only [found, Option.map_some, Option.some.injEq, Stream.mk.injEq, true_and, Bool.or_true]
      cases isClosed : stream.closed with
      | true => rfl
      | false =>
          have held := (inv.settled noEof).2.2.2 isClosed
          have inMap : fd ∈ w.conns.keys :=
            AList.mem_keys.1 (AList.lookup_isSome.1 (by rw [held]; rfl))
          simp [inMap]

theorem Host.framing_exact
    (steps : Steps (product (Host.step F cfg) (socketStep cfg))
      (Host.initial cfg start, Sockets.initial cfg) state) (i : Fin W) (fd : RawFd)
    (stream : Stream) (found : (state.2 i).streams fd = some stream)
    (noFailure : stream.failed = false) (noEof : stream.eof = false) :
    (stream.executed <+: requestsOf stream.received ∧
      stream.sent <+: stream.executed.flatMap (responseTo i) ∧
      (stream.closed = true → hasBadBlock stream.received)) ∧
    ((state.1.workers i).pc.handling ≠ some fd →
      stream.executed = requestsOf stream.received ∧
      stream.sent = stream.executed.flatMap (responseTo i) ∧
      (stream.closed = true ↔ hasBadBlock stream.received) ∧
      (stream.closed = false →
        (state.1.workers i).conns.lookup fd =
          some ⟨leftover requestHeaderLen stream.received⟩ ∧
        (leftover requestHeaderLen stream.received).length < requestHeaderLen)) ∧
    ((state.1.workers i).pc = .exited → ∀ flushed, ∃ last,
      exec (Sockets.step cfg i) (state.2 i) ((state.1.workers i).leave flushed) = some last ∧
      last.streams fd = some { stream with closed := stream.closed || flushed }) ∧
    ∀ request, ∃ buf : ResponseBuf, responseTo i request = buf.1 ∧
      decodeResponse buf = (request.seq, UInt32.ofNat i.val, request.sendNs) := by
  have framed := (Host.histories steps i).2.framed fd stream found noFailure
  refine ⟨framed.partway noEof, fun idle => ?_, fun left flushed => ?_,
    decodeResponse_responseTo i⟩
  · rw [Pc.phase_of_not_handling idle] at framed
    obtain ⟨requests, answered, bad, buffer⟩ := framed.settled noEof
    exact ⟨requests, answered, bad, fun stillOpen =>
      ⟨buffer stillOpen, leftover_length requestHeaderLen_pos _⟩⟩
  · rw [left] at framed
    exact framed.left noEof found flushed

theorem Host.answered_before_close_iff
    (steps : Steps (product (Host.step F cfg) (socketStep cfg))
      (Host.initial cfg start, Sockets.initial cfg) state) (i : Fin W) (fd : RawFd)
    (stream : Stream) (found : (state.2 i).streams fd = some stream)
    (noFailure : stream.failed = false) (wellFormed : ¬ hasBadBlock stream.received)
    (isClosed : stream.closed = true) :
    (stream.executed = requestsOf stream.received ∧
      stream.sent = stream.executed.flatMap (responseTo i)) ↔
    stream.received.length / requestHeaderLen = stream.drained.length / requestHeaderLen := by
  have framed := (Host.histories steps i).2.framed fd stream found noFailure
  obtain ⟨answered, exact⟩ := framed.ended_by_eof isClosed wellFormed
  rw [← exact]
  exact ⟨fun both => both.1, fun requests => ⟨requests, answered⟩⟩

end Runs

def firstRequest : List UInt8 := (encodeRequest 0 100 1000 zeroHeader).1

def secondRequest : List UInt8 := (encodeRequest 1 50 2000 zeroHeader).1

def badFrame : List UInt8 := List.replicate requestHeaderLen 0

def readableRun (handling : List Sys) : List (Act 1) :=
  soloRun (awaitEvents [⟨3, 1⟩] ++ acceptOne 7 ++ endBatch ++ awaitEvents [⟨7, 1⟩] ++
    .internal :: handling)

def executeAndAnswer (fd : RawFd) (request : Request) : List Sys :=
  [.internal, .execute fd request, .write fd (responseTo soloWorker request) (.ok responseLen)]

def choppedRun : List (Act 1) :=
  -- Two requests and a bad frame are cut into three reads.
  readableRun ([.read 7 (.ok (firstRequest.take 10)),
    .read 7 (.ok (firstRequest.drop 10 ++ secondRequest ++ badFrame.take 3)),
    .read 7 (.ok (badFrame.drop 3)), .read 7 (.err eagain)] ++
    executeAndAnswer 7 ⟨0, 100, 1000⟩ ++ executeAndAnswer 7 ⟨1, 50, 2000⟩ ++
    [.internal, .ctlDel 7, .close 7])

abbrev soloSockets : Host 1 × (Fin 1 → Sockets) → Act 1 → Option (Host 1 × (Fin 1 → Sockets)) :=
  product (Host.step Rat (soloConfig .reuseport)) (socketStep (soloConfig .reuseport))

abbrev soloStart : Host 1 × (Fin 1 → Sockets) :=
  (Host.initial (soloConfig .reuseport) fun _ => 0, Sockets.initial (soloConfig .reuseport))

theorem Host.framing_exact_chopped :
    ∃ state stream, exec soloSockets soloStart choppedRun = some state ∧
      (state.2 0).streams 7 = some stream ∧ stream.closed = true ∧
      stream.executed = requestsOf stream.received := by
  have ran : (exec soloSockets soloStart choppedRun).map (fun state =>
      ((state.1.workers 0).pc.handling, ((state.2 0).streams 7).map fun stream =>
        (stream.failed, stream.eof, stream.closed))) =
      some (none, some (false, false, true)) := by decide +kernel
  obtain ⟨state, run, seen⟩ := Option.map_eq_some_iff.1 ran
  simp only [Prod.mk.injEq, Option.map_eq_some_iff] at seen
  obtain ⟨idle, stream, found, noFailure, noEof, isClosed⟩ := seen
  have exact := (Host.framing_exact (exec_steps run) 0 7 stream found noFailure noEof).2.1
    (by simp [idle])
  exact ⟨state, stream, run, found, isClosed, exact.1⟩

def laterEofRun : List (Act 1) :=
  -- EOF comes in an event of its own.
  readableRun ([.read 7 (.ok firstRequest), .read 7 (.err eagain)] ++
    executeAndAnswer 7 ⟨0, 100, 1000⟩ ++ [.internal, .internal] ++ endBatch) ++
    soloRun (awaitEvents [⟨7, 1⟩] ++ [.internal, .read 7 (.ok []), .ctlDel 7, .close 7])

theorem Host.answered_before_later_eof :
    ∃ state stream, exec soloSockets soloStart laterEofRun = some state ∧
      (state.2 0).streams 7 = some stream ∧ stream.closed = true ∧
      stream.executed = requestsOf stream.received ∧
      stream.sent = stream.executed.flatMap (responseTo (0 : Fin 1)) := by
  have ran : (exec soloSockets soloStart laterEofRun).map (fun state =>
      ((state.2 0).streams 7).map fun stream =>
        (stream.failed, stream.received, stream.closed, stream.drained)) =
      some (some (false, firstRequest, true, firstRequest)) := by decide +kernel
  obtain ⟨state, run, seen⟩ := Option.map_eq_some_iff.1 ran
  simp only [Prod.mk.injEq, Option.map_eq_some_iff] at seen
  obtain ⟨stream, found, noFailure, received, isClosed, drained⟩ := seen
  have wellFormed : ¬ hasBadBlock stream.received := by
    rw [received]
    decide
  exact ⟨state, stream, run, found, isClosed,
    (Host.answered_before_close_iff (exec_steps run) 0 7 stream found noFailure wellFormed
      isClosed).2 (by rw [received, drained])⟩

def sameDrainEofRun : List (Act 1) :=
  -- The request and EOF are read in one drain.
  readableRun [.read 7 (.ok firstRequest), .read 7 (.ok []), .ctlDel 7, .close 7]

theorem Host.unanswered_at_eof :
    ∃ state stream, Steps soloSockets soloStart state ∧
      (state.2 0).streams 7 = some stream ∧ stream.failed = false ∧
      ¬ hasBadBlock stream.received ∧ stream.closed = true ∧
      requestsOf stream.received = [⟨0, 100, 1000⟩] ∧
      stream.executed = [] ∧ stream.sent = [] := by
  have ran : (exec soloSockets soloStart sameDrainEofRun).map (fun state =>
      (state.2 0).streams 7) =
      some (some ⟨firstRequest, [], [], [], 0, true, false, true⟩) := by decide +kernel
  obtain ⟨state, run, seen⟩ := Option.map_eq_some_iff.1 ran
  exact ⟨state, _, exec_steps run, seen, rfl, by decide, rfl, by decide, rfl, rfl⟩

end MicroHermes.Server
