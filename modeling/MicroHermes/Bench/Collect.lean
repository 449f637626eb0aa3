import MicroHermes.Bench.Arrivals
import MicroHermes.Bench.Rows
import MicroHermes.Sim.Metrics

set_option autoImplicit false

/-!
# Collecting the rows

The writer task of `hermes-bench/src/main.rs`.
-/

namespace MicroHermes.Bench

open Sim (asI64 fromMillis fromSecs)

def RowKind.asStr : RowKind → String
  | .accept => "accept"
  | .burst => "burst"
  | .error => "error"
  | .drop => "drop"

def ConnRow.latencyUs (row : ConnRow) : Option Int :=
  row.workerId.map fun _ => ((row.recvNs - row.sendNs) / 1000).toInt

def ConnRow.toCsvLine (row : ConnRow) : List Char :=
  let worker := (row.workerId.map fun worker => Text.ofNat worker.toNat).getD []
  let latency := (row.latencyUs.map Text.ofInt).getD []
  Text.record
    [Text.ofNat row.connId,
      Text.ofNat row.seq.toNat,
      row.kind.asStr.toList,
      worker,
      Text.ofInt row.sendNs.toInt,
      Text.ofInt row.recvNs.toInt,
      latency,
      Text.ofNat row.serviceUs.toNat,
      row.label.toList]

def csvHeader : List Char :=
  "conn_id,seq,kind,worker_id,send_ns,recv_ns,latency_us,service_us,label".toList

structure Summary where
  completed : Nat
  errors : Nat
  drops : Nat
  meanUs : Rat
  p50Us : Int
  p99Us : Int
  maxUs : Int
  deriving DecidableEq

def percentile (sorted : List Int) (p : Rat) : Int := Sim.percentile sorted p

structure Disk (Fault : Type) where
  create : Except Fault Unit
  -- The n-th line, counted from the header, and the flush after n lines.
  writeln : Nat → Except Fault Unit
  flush : Nat → Except Fault Unit

structure CollectError (Fault : Type) where
  context : Option String
  cause : Fault

structure Collector where
  lines : List (List Char)
  latencies : List Int
  completed : Nat
  errors : Nat
  drops : Nat
  sinceFlush : Nat

def Collector.count (c : Collector) (row : ConnRow) : Collector :=
  match row.kind with
  | .drop => { c with drops := c.drops + 1 }
  | .error => { c with errors := c.errors + 1 }
  | .accept | .burst =>
      { c with
        completed := c.completed + 1
        latencies := c.latencies ++ row.latencyUs.toList }

def Collector.summary (c : Collector) : Summary :=
  let sorted := c.latencies.insertionSort (· ≤ ·)
  if c.latencies.isEmpty then
    { completed := c.completed
      errors := c.errors
      drops := c.drops
      meanUs := 0
      p50Us := 0
      p99Us := 0
      maxUs := 0 }
  else
    { completed := c.completed
      errors := c.errors
      drops := c.drops
      meanUs := asI64 sorted.sum / sorted.length
      p50Us := percentile sorted (1 / 2)
      p99Us := percentile sorted (99 / 100)
      maxUs := sorted.getLast?.getD 0 }

section Collect

variable {Fault : Type} (disk : Disk Fault)

def collectRow (c : Collector) (row : ConnRow) : Except Fault Collector := do
  disk.writeln c.lines.length
  let c := { c with lines := c.lines ++ [row.toCsvLine] }.count row
  if 256 ≤ c.sinceFlush + 1 then
    disk.flush c.lines.length
    return { c with sinceFlush := 0 }
  else return { c with sinceFlush := c.sinceFlush + 1 }

def collect (path : String) (rows : List ConnRow) :
    Except (CollectError Fault) (Summary × List Char) := do
  disk.create.mapError fun cause => ⟨some ("creating " ++ path), cause⟩
  let c ← Except.mapError (fun cause => ⟨none, cause⟩) do
    disk.writeln 0
    let c ← rows.foldlM (collectRow disk)
      { lines := [csvHeader]
        latencies := []
        completed := 0
        errors := 0
        drops := 0
        sinceFlush := 0 }
    disk.flush c.lines.length
    return c
  return (c.summary, Text.unlines c.lines)

end Collect

section Except

variable {E E' A B : Type}

theorem bind_ok {x : Except E A} {f : A → Except E B} {result : B}
    (ran : x >>= f = .ok result) : ∃ value, x = .ok value ∧ f value = .ok result := by
  cases x with
  | error cause => cases ran
  | ok value => exact ⟨value, rfl, ran⟩

theorem mapError_ok {x : Except E A} {f : E → E'} {result : A}
    (ran : x.mapError f = .ok result) : x = .ok result := by
  cases x with
  | error cause => cases ran
  | ok value => simpa [Except.mapError] using ran

end Except

structure Counted (rows : List ConnRow) (c : Collector) : Prop where
  lines : c.lines = csvHeader :: rows.map ConnRow.toCsvLine
  completed : c.completed = rows.countP fun row => row.kind = .accept ∨ row.kind = .burst
  errors : c.errors = rows.countP fun row => row.kind = .error
  drops : c.drops = rows.countP fun row => row.kind = .drop

section Counting

variable {Fault : Type} {disk : Disk Fault} {rows : List ConnRow} {c next : Collector}

theorem Counted.count (counted : Counted rows c) (row : ConnRow) :
    Counted (rows ++ [row]) ({ c with lines := c.lines ++ [row.toCsvLine] }.count row) := by
  obtain ⟨lines, completed, errors, drops⟩ := counted
  have line : c.lines ++ [row.toCsvLine] = csvHeader :: (rows ++ [row]).map ConnRow.toCsvLine := by
    rw [lines, List.map_append]
    rfl
  cases kind : row.kind <;>
    constructor <;>
      simp [Collector.count, kind, line, completed, errors, drops]

theorem collectRow_ok {row : ConnRow} (ran : collectRow disk c row = .ok next) :
    ∃ sinceFlush,
      next = { { c with lines := c.lines ++ [row.toCsvLine] }.count row with sinceFlush } := by
  obtain ⟨_, _, ran⟩ := bind_ok ran
  dsimp only at ran
  split at ran
  · obtain ⟨_, _, ran⟩ := bind_ok ran
    exact ⟨0, (Except.ok.inj ran).symm⟩
  · exact ⟨_, (Except.ok.inj ran).symm⟩

theorem collectRow_counted {row : ConnRow} (counted : Counted rows c)
    (ran : collectRow disk c row = .ok next) : Counted (rows ++ [row]) next := by
  obtain ⟨sinceFlush, rfl⟩ := collectRow_ok ran
  obtain ⟨lines, completed, errors, drops⟩ := counted.count row
  exact ⟨lines, completed, errors, drops⟩

theorem foldlM_counted {received : List ConnRow} (counted : Counted rows c)
    (ran : received.foldlM (collectRow disk) c = .ok next) : Counted (rows ++ received) next := by
  induction received generalizing rows c with
  | nil =>
      obtain rfl := Except.ok.inj ran
      rwa [List.append_nil]
  | cons row received ih =>
      rw [List.foldlM_cons] at ran
      obtain ⟨after, first, rest⟩ := bind_ok ran
      have later := ih (collectRow_counted counted first) rest
      rwa [List.append_assoc, List.singleton_append] at later

theorem Counted.total (counted : Counted rows c) :
    c.completed + c.errors + c.drops = rows.length := by
  rw [counted.completed, counted.errors, counted.drops]
  clear counted
  induction rows with
  | nil => rfl
  | cons row rows ih =>
      simp only [List.countP_cons, List.length_cons, decide_eq_true_eq]
      cases row.kind <;>
        simp only [reduceCtorEq, or_false, or_true, if_true, if_false] <;>
          omega

theorem Collector.summary_counters (c : Collector) :
    c.summary.completed = c.completed ∧ c.summary.errors = c.errors ∧ c.summary.drops = c.drops := by
  simp only [Collector.summary]
  split <;> exact ⟨rfl, rfl, rfl⟩

theorem collect_counted {path : String} {summary : Summary} {file : List Char}
    (ran : collect disk path rows = .ok (summary, file)) :
    summary.completed + summary.errors + summary.drops = rows.length ∧
      summary.errors = rows.countP (fun row => row.kind = .error) ∧
      summary.drops = rows.countP (fun row => row.kind = .drop) ∧
      file = Text.unlines (csvHeader :: rows.map ConnRow.toCsvLine) := by
  have start : Counted [] ⟨[csvHeader], [], 0, 0, 0, 0⟩ := ⟨rfl, rfl, rfl, rfl⟩
  obtain ⟨_, _, ran⟩ := bind_ok ran
  obtain ⟨c, stored, done⟩ := bind_ok ran
  obtain ⟨_, _, stored⟩ := bind_ok (mapError_ok stored)
  obtain ⟨last, folded, stored⟩ := bind_ok stored
  obtain ⟨_, _, stored⟩ := bind_ok stored
  obtain rfl : last = c := Except.ok.inj stored
  obtain ⟨rfl, rfl⟩ := Prod.mk.inj (Except.ok.inj done)
  have counted := foldlM_counted start folded
  rw [List.nil_append] at counted
  obtain ⟨completed, errors, drops⟩ := Collector.summary_counters last
  rw [completed, errors, drops, counted.lines]
  exact ⟨counted.total, counted.errors, counted.drops, rfl⟩

theorem collect_healthy {path : String} (created : disk.create = .ok ())
    (writes : ∀ line, disk.writeln line = .ok ()) (flushes : ∀ line, disk.flush line = .ok ()) :
    ∃ result, collect disk path rows = .ok result := by
  have step (c : Collector) (row : ConnRow) : ∃ after, collectRow disk c row = .ok after := by
    simp only [collectRow, writes, flushes]
    split <;> exact ⟨_, rfl⟩
  have run (c : Collector) : ∃ after, rows.foldlM (collectRow disk) c = .ok after := by
    induction rows generalizing c with
    | nil => exact ⟨c, rfl⟩
    | cons row rows ih =>
        obtain ⟨after, first⟩ := step c row
        obtain ⟨last, rest⟩ := ih after
        exact ⟨last, by rw [List.foldlM_cons, first]; exact rest⟩
  obtain ⟨c, folded⟩ := run ⟨[csvHeader], [], 0, 0, 0, 0⟩
  exact ⟨(c.summary, Text.unlines c.lines), by
    simp only [collect, created, writes, flushes, folded]
    rfl⟩

end Counting

section Connections

open Transition
open Server (Host Sockets socketStep Config RawFd)

variable {W : Nat}

/-- The rows of every task that was spawned, each with its own exchanges and its own worker. -/
def Ended (W : Nat) (spawned : List (Task × Nat)) (clients : List Client) : Prop :=
  List.Forall₂ (fun spawn client => ∃ (world : World) (fuel : Nat) (i : Fin W),
    runConnection spawn.1 world fuel = some client ∧ AnsweredBy i world client) spawned clients

theorem Reported.firsts {task : Task} {i : Fin W} {c : Client} (reported : Reported task i c) :
    c.rows.countP (fun row => row.seq = 0) = 1 := by
  obtain ⟨row, rest, rows, zero, _, _, others⟩ := reported.rows
  have none : rest.countP (fun row => row.seq = 0) = 0 := by
    refine List.countP_eq_zero.2 fun last among => ?_
    rw [(others last among).1]
    decide
  rw [rows, List.countP_cons_of_pos (by simpa using zero), none]

theorem Ended.firsts {spawned : List (Task × Nat)} {clients : List Client}
    (ended : Ended W spawned clients) :
    (clients.flatMap Client.rows).countP (fun row => row.seq = 0) = spawned.length := by
  induction ended with
  | nil => rfl
  | cons one _ ih =>
      obtain ⟨world, fuel, i, run, answered⟩ := one
      rw [List.flatMap_cons, List.countP_append, ih, (runConnection_reported run answered).firsts,
        List.length_cons, Nat.add_comm]

theorem connections_reported :
    (∀ (task : Task) (world : World) (fuel : Nat),
      ∃ c, runConnection task world (fuel + 2) = some c) ∧
    (∀ (task : Task) (world : World) (fuel : Nat) (c : Client) (i : Fin W),
      runConnection task world fuel = some c → AnsweredBy i world c → Reported task i c) ∧
    (∀ (F : Type) [MetricArith F] (cfg : Config W) (start : Fin W → Int)
        (state : Host W × (Fin W → Sockets)) (i : Fin W) (fd : RawFd) (stream : Server.Stream)
        (task : Task) (world : World) (fuel : Nat) (c : Client),
      Steps (product (Host.step F cfg) (socketStep cfg))
        (Host.initial cfg start, Sockets.initial cfg) state →
      (state.2 i).streams fd = some stream → runConnection task world fuel = some c →
      stream.received <+: c.written → world.received c.requests <+: stream.sent →
      AnsweredBy i world c) ∧
    ∀ (interval : Nat → Nat) (config : WorkloadConfig) (seed : UInt64) (clockStart genStart : Nat)
        (label : String) (oversleep : Nat → Nat) (fuel : Nat) (out : Arrivals)
        (clients : List Client) (rows : List ConnRow),
      arrivals interval config seed clockStart genStart label oversleep fuel = some out →
      Ended W out.spawned clients → rows.Perm (clients.flatMap Client.rows) →
      rows.countP (fun row => row.seq = 0) = out.connId ∧
      ∀ (Fault : Type) (disk : Disk Fault) (path : String),
        (∀ summary file, collect disk path rows = .ok (summary, file) →
          summary.completed + summary.errors + summary.drops = rows.length) ∧
        (disk.create = .ok () → (∀ line, disk.writeln line = .ok ()) →
          (∀ line, disk.flush line = .ok ()) → ∃ result, collect disk path rows = .ok result) := by
  refine ⟨runConnection_ends, fun task world fuel c i => runConnection_reported,
    fun F _ cfg start state i fd stream task world fuel c steps found run delivered read =>
      answeredBy_host steps found run delivered read,
    fun interval config seed clockStart genStart label oversleep fuel out clients rows ran ended
      order => ⟨?_, fun Fault disk path => ⟨fun summary file collected =>
        (collect_counted collected).1, collect_healthy⟩⟩⟩
  have generated := congrArg List.length (arrivals_spawned ran)
  rw [List.length_map, List.length_range] at generated
  rw [order.countP_eq, ended.firsts, generated]

end Connections

def twoConns : WorkloadConfig where
  -- Two connections in one second, a burst at its end and half a second of grace.
  cps := 2
  durationNs := fromSecs 1
  service := .fixed (fromMillis 2)
  lifetimeNs := fromSecs 60
  burst := some ⟨fromSecs 1, fromMillis 5⟩

def refused : World where
  start := 0
  connect := none
  exchange _ := .writeFailed 0
  picksClose _ := false

def answering : World where
  start := 500000000
  connect := some 1000
  exchange seq := .answered 4000000
    (encodeResponse seq 0 (if seq = 0 then 500001000 else 1000000000) zeroResponse)
  picksClose _ := false

def soundDisk : Disk String := ⟨.ok (), fun _ => .ok (), fun _ => .ok ()⟩

theorem connections_reported_refused_and_burst :
    ∃ out dropped served,
      arrivals (fun _ => 500000000) twoConns 7 0 0 "run" (fun _ => 0) 3 = some out ∧
      out.spawned.length = 2 ∧ Ended 1 out.spawned [dropped, served] ∧ served.rows.length = 2 ∧
      (dropped.rows ++ served.rows).countP (fun row => row.seq = 0) = 2 ∧
      ∃ summary file, collect soundDisk "conns.csv" (dropped.rows ++ served.rows) =
          .ok (summary, file) ∧
        summary.completed + summary.errors + summary.drops = 3 := by
  let first := taskOf twoConns 7 0 0 "run" 0
  let second := taskOf twoConns 7 0 0 "run" 1
  have spawned : arrivals (fun _ => 500000000) twoConns 7 0 0 "run" (fun _ => 0) 3 =
      some ⟨500000000, 1000000000, 2, [(first, 0), (second, 500000000)]⟩ := rfl
  have ran : (runConnection second answering 2).map (fun c =>
      (decide (AnsweredBy (0 : Fin 1) answering c), c.rows.length)) = some (true, 2) := by
    decide +kernel
  obtain ⟨served, run, values⟩ := Option.map_eq_some_iff.1 ran
  obtain ⟨answered, length⟩ := Prod.mk.inj values
  let dropped : Client := ⟨0, [], [.failed 0 0 .drop "run"]⟩
  have ended : Ended 1 [(first, 0), (second, 500000000)] [dropped, served] :=
    .cons ⟨refused, 2, 0, rfl, List.nil_prefix⟩
      (.cons ⟨answering, 2, 0, run, of_decide_eq_true answered⟩ .nil)
  have order : (dropped.rows ++ served.rows).Perm ([dropped, served].flatMap Client.rows) := by
    rw [List.flatMap_cons, List.flatMap_singleton]
  obtain ⟨_, _, _, all⟩ := connections_reported (W := 1)
  obtain ⟨firsts, collects⟩ := all _ _ _ _ _ _ _ _ _ _ _ spawned ended order
  obtain ⟨counts, finishes⟩ := collects String soundDisk "conns.csv"
  obtain ⟨⟨summary, file⟩, collected⟩ := finishes rfl (fun _ => rfl) fun _ => rfl
  refine ⟨_, dropped, served, spawned, rfl, ended, length, firsts, summary, file, collected, ?_⟩
  rw [counts summary file collected, List.length_append, length]
  rfl

end MicroHermes.Bench
