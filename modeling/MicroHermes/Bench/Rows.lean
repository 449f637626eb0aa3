import MicroHermes.Bench.Burst
import MicroHermes.Server.Responses
import MicroHermes.Wire

set_option autoImplicit false

namespace MicroHermes.Bench

open Blocks
open Sim (asMicros)
open Server (responseTo responseTo_length requestsOf decodeBlock)

def Fired.request (fired : Fired) : Option Request := decodeRequest fired.bytes

def Client.requests (c : Client) : List Request := c.fired.filterMap Fired.request

def Client.written (c : Client) : List UInt8 := c.fired.flatMap fun fired => fired.bytes.1

def Exchange.read : Exchange → List UInt8
  -- The buffer, when `read_exact` filled it.
  | .answered _ resp => resp.1
  | .writeFailed _ | .readFailed _ => []

def World.received (world : World) (requests : List Request) : List UInt8 :=
  requests.flatMap fun request => (world.exchange request.seq).read

def AnsweredBy {W : Nat} (i : Fin W) (world : World) (c : Client) : Prop :=
  world.received c.requests <+: c.requests.flatMap (responseTo i)

instance {W : Nat} (i : Fin W) (world : World) (c : Client) : Decidable (AnsweredBy i world c) :=
  inferInstanceAs (Decidable (_ <+: _))

def firedAs (kind : RowKind) (request : Request) : Fired :=
  ⟨kind, encodeRequest request.seq request.serviceUs request.sendNs zeroHeader⟩

@[simp]
theorem firedAs_request (kind : RowKind) (request : Request) :
    (firedAs kind request).request = some request :=
  decodeRequest_encodeRequest ..

section Outcome

variable (task : Task) (world : World)

inductive Answer (kind : RowKind) (request : Request) : ConnRow → Prop
  | failed (unread : (world.exchange request.seq).read = []) :
      Answer kind request (.failed task.connId request.seq .error task.label)
  | answered (delay : Nat) (resp : ResponseBuf) (recvNs : Int64)
      (outcome : world.exchange request.seq = .answered delay resp) :
      Answer kind request (.ok task.connId (decodeResponse resp).1 kind (decodeResponse resp).2.1
        (decodeResponse resp).2.2 recvNs request.serviceUs task.label)

/-- The requests and the rows of a task that has ended, where `answers` relates them. -/
inductive Outcome (answers : RowKind → Request → ConnRow → Prop) :
    List Fired → List ConnRow → Prop
  | dropped : Outcome answers [] [.failed task.connId 0 .drop task.label]
  | first (request : Request) (row : ConnRow) (seq : request.seq = 0)
      (answer : answers .accept request row) : Outcome answers [firedAs .accept request] [row]
  | second (request : Request) (row : ConnRow) (next : Request) (last : ConnRow)
      (seq : request.seq = 0) (answer : answers .accept request row)
      (served : row.workerId.isSome = true) (nextSeq : next.seq = 1)
      (nextAnswer : answers .burst next last) :
      Outcome answers [firedAs .accept request, firedAs .burst next] [row, last]

theorem fireRequest_answer (seq serviceUs : UInt32) (kind : RowKind) (c : Client) :
    ∃ ok after row, fireRequest task world seq serviceUs kind c = (ok, after) ∧
      after.fired = c.fired ++ [firedAs kind ⟨seq, serviceUs, task.nowNs c.now⟩] ∧
      after.rows = c.rows ++ [row] ∧
      Answer task world kind ⟨seq, serviceUs, task.nowNs c.now⟩ row ∧ ok = row.workerId.isSome := by
  cases outcome : world.exchange seq with
  | writeFailed delay | readFailed delay =>
      exact ⟨_, _, _, by simp only [fireRequest, outcome]; rfl, rfl, rfl,
        .failed (by rw [outcome, Exchange.read]), rfl⟩
  | answered delay resp =>
      exact ⟨_, _, _, by simp only [fireRequest, outcome]; rfl, rfl, rfl,
        .answered delay resp _ outcome, rfl⟩

variable {task world}

theorem selectLoop_closes {fuel turn : Nat} {seq : UInt32} {c last : Client}
    (run : selectLoop task world fuel turn seq true c = some last) :
    last.fired = c.fired ∧ last.rows = c.rows := by
  cases fuel with
  | zero => cases run
  | succ fuel =>
      rw [selectLoop_fired] at run
      obtain rfl := Option.some.inj run
      exact ⟨rfl, rfl⟩

theorem selectLoop_answer {fuel turn : Nat} {seq : UInt32} {c last : Client}
    (run : selectLoop task world fuel turn seq false c = some last) :
    (last.fired = c.fired ∧ last.rows = c.rows) ∨
      ∃ request row, last.fired = c.fired ++ [firedAs .burst request] ∧
        last.rows = c.rows ++ [row] ∧ request.seq = seq ∧ Answer task world .burst request row := by
  cases fuel with
  | zero => cases run
  | succ fuel =>
      simp only [selectLoop] at run
      split at run
      · obtain rfl := Option.some.inj run
        exact .inl ⟨rfl, rfl⟩
      · next now chosen =>
          obtain ⟨burst, configured, run⟩ := Option.bind_eq_some_iff.1 run
          obtain ⟨ok, after, row, fires, fired, rows, answer, served⟩ :=
            fireRequest_answer task world seq (asMicros burst.serviceNs) .burst
              { c with now }
          rw [fires] at run
          have kept : last.fired = after.fired ∧ last.rows = after.rows := by
            cases ok with
            | false =>
                obtain rfl := Option.some.inj run
                exact ⟨rfl, rfl⟩
            | true => exact selectLoop_closes run
          exact .inr ⟨_, row, kept.1.trans fired, kept.2.trans rows, rfl, answer⟩

theorem runConnection_outcome {fuel : Nat} {c : Client}
    (run : runConnection task world fuel = some c) :
    Outcome task (Answer task world) c.fired c.rows := by
  unfold runConnection at run
  split at run
  · obtain rfl := Option.some.inj run
    exact .dropped
  · next delay connected =>
      obtain ⟨ok, after, row, fires, fired, rows, answer, served⟩ :=
        fireRequest_answer task world 0 task.initialServiceUs .accept
          { now := world.start + delay, fired := [], rows := [] }
      rw [fires] at run
      cases ok with
      | false =>
          obtain rfl := Option.some.inj run
          rw [fired, rows]
          exact .first _ row rfl answer
      | true =>
          rcases selectLoop_answer run with ⟨sameFired, sameRows⟩ |
            ⟨next, last, laterFired, laterRows, nextSeq, nextAnswer⟩
          · rw [sameFired, sameRows, fired, rows]
            exact .first _ row rfl answer
          · rw [laterFired, laterRows, fired, rows]
            exact .second _ row next last rfl answer served.symm nextSeq nextAnswer

theorem runConnection_ends (task : Task) (world : World) (fuel : Nat) :
    ∃ c, runConnection task world (fuel + 2) = some c := by
  by_cases served : ∃ established delay resp, world.established = some established ∧
    world.exchange 0 = .answered delay resp
  · obtain ⟨established, delay, resp, connected, answered⟩ := served
    cases configured : task.burst with
    | none => exact runConnection_unconfigured task world configured connected answered (fuel + 1)
    | some burst =>
        obtain ⟨c, run, _⟩ :=
          runConnection_bursts_of_served task world configured connected answered fuel
        exact ⟨c, run⟩
  · obtain ⟨c, run, _⟩ := runConnection_bursts_of_unserved task world
      (fun established delay resp connected answered =>
        served ⟨established, delay, resp, connected, answered⟩) (fuel + 2)
    exact ⟨c, run⟩

end Outcome

section Attribution

variable {W : Nat} (task : Task) (i : Fin W)

inductive Reply (kind : RowKind) (request : Request) : ConnRow → Prop
  | failed : Reply kind request (.failed task.connId request.seq .error task.label)
  | served (recvNs : Int64) :
      Reply kind request (.ok task.connId request.seq kind (UInt32.ofNat i.val) request.sendNs
        recvNs request.serviceUs task.label)

/-- The rows of a task: one for the first request, at most one more, none after a failure, and each
success with what identifies the request it is for. -/
structure Reported (c : Client) : Prop where
  rows : ∃ row rest, c.rows = row :: rest ∧ row.seq = 0 ∧
    (row.kind = .drop ∨ row.kind = .error ∨ row.kind = .accept) ∧ rest.length ≤ 1 ∧
    ∀ last ∈ rest, last.seq = 1 ∧ (last.kind = .burst ∨ last.kind = .error)
  final : ∀ before row after, c.rows = before ++ row :: after →
    row.kind = .drop ∨ row.kind = .error → after = []
  own : ∀ row ∈ c.rows, row.connId = task.connId ∧ row.label = task.label ∧
    (row.workerId.isSome = true ↔ row.kind = .accept ∨ row.kind = .burst)
  -- The k-th row is for the k-th request.
  attributed : ∀ (k : Nat) (row : ConnRow), c.rows[k]? = some row → row.workerId.isSome = true →
    ∃ (fired : Fired) (request : Request), c.fired[k]? = some fired ∧
      fired.request = some request ∧
      row = .ok task.connId request.seq fired.kind (UInt32.ofNat i.val) request.sendNs row.recvNs
        request.serviceUs task.label

variable {task i} {world : World} {c : Client}

theorem Answer.reply {kind : RowKind} {request : Request} {row : ConnRow}
    {more stream : List UInt8} (answer : Answer task world kind request row)
    (read : (world.exchange request.seq).read ++ more <+: responseTo i request ++ stream) :
    Reply task i kind request row ∧ (row.workerId.isSome = true → more <+: stream) := by
  cases answer with
  | failed unread => exact ⟨.failed, fun served => nomatch served⟩
  | answered delay resp recvNs outcome =>
      rw [outcome, Exchange.read] at read
      obtain ⟨rest, whole⟩ := read
      rw [List.append_assoc] at whole
      obtain ⟨own, later⟩ := List.append_inj whole
        (resp.2.trans (responseTo_length (i := i) request).symm)
      obtain ⟨buf, bytes, decoded⟩ := Server.decodeResponse_responseTo i request
      obtain rfl : resp = buf := Subtype.ext (own.trans bytes)
      rw [decoded]
      exact ⟨.served recvNs, fun _ => ⟨rest, later⟩⟩

theorem Outcome.replies (outcome : Outcome task (Answer task world) c.fired c.rows)
    (answered : AnsweredBy i world c) : Outcome task (Reply task i) c.fired c.rows := by
  unfold AnsweredBy Client.requests World.received at answered
  generalize c.fired = fired, c.rows = rows at outcome answered
  cases outcome with
  | dropped => exact .dropped
  | first request row seq answer =>
      have read : (world.exchange request.seq).read ++ [] <+: responseTo i request ++ [] := by
        simpa using answered
      have reply := answer.reply read
      exact .first request row seq reply.1
  | second request row next last seq answer served nextSeq nextAnswer =>
      have read : (world.exchange request.seq).read ++ (world.exchange next.seq).read <+:
          responseTo i request ++ responseTo i next := by
        simpa using answered
      have reply := answer.reply read
      have nextRead : (world.exchange next.seq).read ++ [] <+: responseTo i next ++ [] := by
        simpa using reply.2 served
      have nextReply := nextAnswer.reply nextRead
      exact .second request row next last seq reply.1 served nextSeq nextReply.1

theorem Reply.own {kind : RowKind} {request : Request} {row : ConnRow}
    (reply : Reply task i kind request row) (sent : kind = .accept ∨ kind = .burst) :
    row.connId = task.connId ∧ row.label = task.label ∧
      (row.workerId.isSome = true ↔ row.kind = .accept ∨ row.kind = .burst) ∧
      row.seq = request.seq ∧ (row.kind = .error ∨ row.kind = kind) := by
  cases reply with
  | failed => exact ⟨rfl, rfl, by simp [ConnRow.failed], rfl, .inl rfl⟩
  | served recvNs => exact ⟨rfl, rfl, iff_of_true rfl sent, rfl, .inr rfl⟩

theorem Reply.attributed {kind : RowKind} {request : Request} {row : ConnRow}
    (reply : Reply task i kind request row) (served : row.workerId.isSome = true) :
    ∃ (fired : Fired) (named : Request), some (firedAs kind request) = some fired ∧
      fired.request = some named ∧
      row = .ok task.connId named.seq fired.kind (UInt32.ofNat i.val) named.sendNs row.recvNs
        named.serviceUs task.label := by
  cases reply with
  | failed => cases served
  | served recvNs => exact ⟨_, request, rfl, firedAs_request .., rfl⟩

theorem final_of_short {row : ConnRow} {rest : List ConnRow} (short : rest.length ≤ 1)
    (stops : row.kind = .drop ∨ row.kind = .error → rest = []) (before : List ConnRow)
    (last : ConnRow) (after : List ConnRow) (rows : row :: rest = before ++ last :: after)
    (failed : last.kind = .drop ∨ last.kind = .error) : after = [] := by
  cases before with
  | nil =>
      obtain ⟨rfl, rfl⟩ := List.cons.inj rows
      exact stops failed
  | cons _ before =>
      obtain ⟨_, rfl⟩ := List.cons.inj rows
      rw [List.append_eq, List.length_append, List.length_cons] at short
      exact List.length_eq_zero_iff.1 (by omega)

theorem Outcome.reported (outcome : Outcome task (Reply task i) c.fired c.rows) :
    Reported task i c := by
  obtain ⟨now, fired, rows⟩ := c
  dsimp only at outcome
  cases outcome with
  | dropped =>
      exact
        { rows := ⟨_, [], rfl, rfl, .inl rfl, Nat.zero_le _, List.forall_mem_nil _⟩
          final := final_of_short (Nat.zero_le _) fun _ => rfl
          own := List.forall_mem_singleton.2 ⟨rfl, rfl, by simp [ConnRow.failed]⟩
          attributed := fun
            | 0, row, found, served => by
                obtain rfl := Option.some.inj found
                cases served }
  | first request row seq reply =>
      obtain ⟨conn, label, succeeds, named, kind⟩ := reply.own (.inl rfl)
      exact
        { rows := ⟨row, [], rfl, named.trans seq, .inr kind, Nat.zero_le _, List.forall_mem_nil _⟩
          final := final_of_short (Nat.zero_le _) fun _ => rfl
          own := List.forall_mem_singleton.2 ⟨conn, label, succeeds⟩
          attributed := fun
            | 0, row, found, served => by
                obtain rfl := Option.some.inj found
                exact reply.attributed served }
  | second request row next last seq reply served nextSeq nextReply =>
      obtain ⟨conn, label, succeeds, named, kind⟩ := reply.own (.inl rfl)
      obtain ⟨nextConn, nextLabel, nextSucceeds, nextNamed, nextKind⟩ := nextReply.own (.inr rfl)
      have accepted : row.kind = .accept := by
        rcases succeeds.1 served with accept | burst
        · exact accept
        · simp [burst] at kind
      exact
        { rows := ⟨row, [last], rfl, named.trans seq, .inr kind, le_rfl,
            List.forall_mem_singleton.2 ⟨nextNamed.trans nextSeq, nextKind.symm⟩⟩
          final := final_of_short le_rfl (by simp [accepted])
          own := List.forall_mem_cons.2 ⟨⟨conn, label, succeeds⟩,
            List.forall_mem_singleton.2 ⟨nextConn, nextLabel, nextSucceeds⟩⟩
          attributed := fun
            | 0, row, found, served => by
                obtain rfl := Option.some.inj found
                exact reply.attributed served
            | 1, row, found, served => by
                obtain rfl := Option.some.inj found
                exact nextReply.attributed served }

theorem runConnection_reported {fuel : Nat} (run : runConnection task world fuel = some c)
    (answered : AnsweredBy i world c) : Reported task i c :=
  ((runConnection_outcome run).replies answered).reported

end Attribution

section Worker

open Transition
open Server (Host Sockets socketStep Config RawFd)

theorem requestsOf_fired {fired : List Fired}
    (whole : ∀ request ∈ fired, request.request.isSome = true) :
    requestsOf (fired.flatMap fun request => request.bytes.1) = fired.filterMap Fired.request := by
  induction fired with
  | nil => exact congrArg (decodeUntil decodeBlock) (blocks_of_short (by decide))
  | cons first rest ih =>
      obtain ⟨one, others⟩ := List.forall_mem_cons.1 whole
      obtain ⟨request, decoded⟩ := Option.isSome_iff_exists.1 one
      have block : decodeBlock first.bytes.1 = some request := by
        rw [decodeBlock, dif_pos first.bytes.2]
        exact decoded
      have later := ih others
      rw [requestsOf] at later ⊢
      rw [List.flatMap_cons, blocks_cons (by decide) first.bytes.2, decodeUntil, block,
        List.filterMap_cons_some decoded, ← later]

theorem Outcome.decodes {task : Task} {answers : RowKind → Request → ConnRow → Prop}
    {fired : List Fired} {rows : List ConnRow} (outcome : Outcome task answers fired rows) :
    ∀ request ∈ fired, request.request.isSome = true := by
  cases outcome <;> simp

variable {F : Type} [MetricArith F] {W : Nat} {cfg : Config W} {start : Fin W → Int}
  {state : Host W × (Fin W → Sockets)} {task : Task} {world : World} {c : Client}

theorem answeredBy_host
    (steps : Steps (product (Host.step F cfg) (socketStep cfg))
      (Host.initial cfg start, Sockets.initial cfg) state) {i : Fin W} {fd : RawFd}
    {stream : Server.Stream} (found : (state.2 i).streams fd = some stream) {fuel : Nat}
    (run : runConnection task world fuel = some c) (delivered : stream.received <+: c.written)
    (read : world.received c.requests <+: stream.sent) : AnsweredBy i world c := by
  obtain ⟨executed, answered, cut, sent, shape⟩ :=
    ((Host.responding steps i).2 fd stream found).shape
  have whole : stream.executed <+: c.requests := by
    have known := executed.trans (prefix_decodeUntil (prefix_blocks delivered))
    rwa [← requestsOf, Client.written, requestsOf_fired (runConnection_outcome run).decodes] at known
  have answers : stream.sent <+: stream.executed.flatMap (responseTo i) := by
    rcases shape with ⟨same, rfl⟩ | ⟨request, last, part, _⟩
    · rw [sent, same, List.append_nil]
    · rw [sent, last, List.flatMap_append, List.flatMap_singleton]
      exact (List.prefix_append_right_inj _).2 part
  have more : stream.executed.flatMap (responseTo i) <+: c.requests.flatMap (responseTo i) := by
    obtain ⟨rest, all⟩ := whole
    rw [← all, List.flatMap_append]
    exact List.prefix_append ..
  exact (read.trans answers).trans more

end Worker

end MicroHermes.Bench
