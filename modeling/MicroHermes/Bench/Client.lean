import MicroHermes.Common
import MicroHermes.Sim.Workload

set_option autoImplicit false

/-!
# One connection of the load generator

`hermes-bench/src/client.rs`. Instants and durations are in nanoseconds of the monotonic clock that
`StdInstant` and `TokioInstant` share.
-/

namespace MicroHermes.Bench

open Sim (asMicros)

inductive RowKind where
  -- `accept` for the first request, `burst` for a follow-up, `error` for a failed read or write,
  -- `drop` for a failed connect.
  | accept
  | burst
  | error
  | drop
  deriving DecidableEq, Repr

structure ConnRow where
  connId : Nat
  seq : UInt32
  kind : RowKind
  workerId : Option UInt32
  sendNs : Int64
  recvNs : Int64
  serviceUs : UInt32
  label : String
  deriving DecidableEq

def ConnRow.ok (connId : Nat) (seq : UInt32) (kind : RowKind) (workerId : UInt32)
    (sendNs recvNs : Int64) (serviceUs : UInt32) (label : String) : ConnRow :=
  { connId, seq, kind, workerId := some workerId, sendNs, recvNs, serviceUs, label }

def ConnRow.failed (connId : Nat) (seq : UInt32) (kind : RowKind) (label : String) : ConnRow :=
  { connId, seq, kind, workerId := none, sendNs := 0, recvNs := 0, serviceUs := 0, label }

structure BurstSpec where
  -- At time `atNs` every connection still held open fires one follow-up request.
  atNs : Nat
  serviceNs : Nat

structure Task where
  connId : Nat
  initialServiceUs : UInt32
  closeAt : Nat
  burst : Option BurstSpec
  clockStart : Nat
  genStart : Nat
  label : String

inductive Exchange where
  | writeFailed (delay : Nat)
  | readFailed (delay : Nat)
  | answered (delay : Nat) (resp : ResponseBuf)

/-- What the task does not decide. -/
structure World where
  -- The instant the task starts.
  start : Nat
  connect : Option Nat
  exchange : UInt32 → Exchange
  -- Whether the n-th `select!` picks the close timer when both timers are due.
  picksClose : Nat → Bool

structure Fired where
  kind : RowKind
  bytes : RequestHeader

structure Client where
  now : Nat
  fired : List Fired
  rows : List ConnRow

inductive Branch where
  | close
  | burst
  deriving DecidableEq, Repr

/-- The branch a `select!` entered at `now` completes with, and when. A timer is ready at its
deadline, or at once when that has passed; of two that are ready together either may be picked. -/
def select (now closeAt : Nat) (burstAt : Option Nat) (picksClose : Bool) : Branch × Nat :=
  let closeReady := max now closeAt
  match burstAt with
  | none => (.close, closeReady)
  | some due =>
      let burstReady := max now due
      if closeReady < burstReady then (.close, closeReady)
      else if burstReady < closeReady then (.burst, burstReady)
      else (if picksClose then .close else .burst, closeReady)

section Run

variable (task : Task) (world : World)

def Task.nowNs (now : Nat) : Int64 := Int64.ofNat (now - task.clockStart)

def fireRequest (seq serviceUs : UInt32) (kind : RowKind) (c : Client) : Bool × Client :=
  -- The result is that of the source; the rows sent and the requests fired are in the state.
  let sendNs := task.nowNs c.now
  let req := encodeRequest seq serviceUs sendNs zeroHeader
  let fired := c.fired ++ [⟨kind, req⟩]
  match world.exchange seq with
  | .writeFailed delay | .readFailed delay =>
      let rows := c.rows ++ [.failed task.connId seq .error task.label]
      (false, { now := c.now + delay, fired, rows })
  | .answered delay resp =>
      let recvNs := task.nowNs (c.now + delay)
      let (rseq, workerId, echoedSendNs) := decodeResponse resp
      let rows := c.rows ++
        [.ok task.connId rseq kind workerId echoedSendNs recvNs serviceUs task.label]
      (true, { now := c.now + delay, fired, rows })

def selectLoop (fuel turn : Nat) (seq : UInt32) (burstFired : Bool) (c : Client) : Option Client :=
  -- The loop of `run_connection`; `turn` counts its iterations.
  match fuel with
  | 0 => none
  | fuel + 1 =>
      let burstActive := !burstFired && task.burst.isSome
      let burstAt := task.genStart + (task.burst.map BurstSpec.atNs).getD 0
      match select c.now task.closeAt (if burstActive then some burstAt else none)
          (world.picksClose turn) with
      | (.close, now) => some { c with now }
      | (.burst, now) =>
          -- `burst.unwrap()`
          task.burst.bind fun burst =>
            match fireRequest task world seq (asMicros burst.serviceNs) .burst { c with now } with
            | (false, c) => some c
            | (true, c) => selectLoop fuel (turn + 1) (seq + 1) true c

def runConnection (fuel : Nat) : Option Client :=
  match world.connect with
  | none =>
      some { now := world.start, fired := [], rows := [.failed task.connId 0 .drop task.label] }
  | some delay =>
      match fireRequest task world 0 task.initialServiceUs .accept
          { now := world.start + delay, fired := [], rows := [] } with
      | (false, c) => some c
      | (true, c) => selectLoop task world fuel 0 1 false c

end Run

end MicroHermes.Bench
