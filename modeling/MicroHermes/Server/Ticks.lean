import MicroHermes.Lib.LineLog
import MicroHermes.Server.Worker
import MicroHermes.Sim.Metrics

set_option autoImplicit false

/-!
# The tick file of a worker

`hermes/src/metrics.rs`: a worker streams one row for each pass through a buffered writer, which it
flushes after every 64 rows and once more when it stops.
-/

namespace MicroHermes.Server

open Fallible BufWriter

structure TickRow (W : Nat) where
  timestampNs : Int
  workerId : Nat
  iter : UInt32
  snapshots : Snapshots W
  openConns : Nat
  result : Option ScheduleResult
  policy : Policy

def Policy.asStr : Policy → String
  | .hermes => "hermes"
  | .lifo => "lifo"
  | .reuseport => "reuseport"

section Header

variable {W : Nat}

def tickHeader (W : Nat) : List Char :=
  ("timestamp_ns,worker_id,iter,bitmap_hex,bitmap_bin,after_stage1,after_stage2,after_stage3," ++
      "open_conns,policy").toList ++
    (List.range W).flatMap (fun i => ",w".toList ++ Text.ofNat i ++ "_conns,w".toList ++
      Text.ofNat i ++ "_events".toList) ++
    ",conn_sd,events_sd".toList

theorem tickHeader_clean {c : Char} (control : c = '\n' ∨ c = '\r') : c ∉ tickHeader W := by
  have digits : ∀ i, c ∉ Text.ofNat i := by
    intro i
    rcases control with rfl | rfl <;> exact (Text.plain_ofNat i).not_mem (by decide)
  have fixed : ∀ text : List Char, text.all (fun c => c != '\n' && c != '\r') = true → c ∉ text := by
    intro text clean member
    have neither := List.all_eq_true.1 clean c member
    rcases control with rfl | rfl <;> cases neither
  intro member
  rcases List.mem_append.1 member with front | last
  · rcases List.mem_append.1 front with first | columns
    · exact fixed _ (by decide +kernel) first
    · obtain ⟨i, _, column⟩ := List.mem_flatMap.1 columns
      rcases List.mem_append.1 column with column | events
      · rcases List.mem_append.1 column with column | index
        · rcases List.mem_append.1 column with column | conns
          · rcases List.mem_append.1 column with worker | index
            · exact fixed _ (by decide +kernel) worker
            · exact digits i index
          · exact fixed _ (by decide +kernel) conns
        · exact digits i index
      · exact fixed _ (by decide +kernel) events
  · exact fixed _ (by decide +kernel) last

theorem tickHeader_whole : Text.Whole (tickHeader W) where
  nonempty := List.append_ne_nil_of_right_ne_nil _ (by decide +kernel)
  newline := tickHeader_clean (.inl rfl)
  carriage := tickHeader_clean (.inr rfl)

end Header

section Rows

variable [Sim.DeviationText] {W : Nat}

def TickRow.columns (row : TickRow W) : List (List Char) :=
  let result := row.result.getD ⟨0, 0, 0, 0⟩
  let conns := (List.finRange W).map fun i => (row.snapshots i).accumulatedConns
  let events := (List.finRange W).map fun i => (row.snapshots i).pendingEvents
  [Text.ofInt row.timestampNs,
    Text.ofNat row.workerId,
    Text.ofNat row.iter.toNat,
    '0' :: 'x' :: Text.padded 4 (Nat.toDigits 16 result.bitmap.toNat),
    Text.padded W (Nat.toDigits 2 result.bitmap.toNat),
    Text.ofNat result.afterStage1,
    Text.ofNat result.afterStage2,
    Text.ofNat result.afterStage3,
    Text.ofNat row.openConns,
    row.policy.asStr.toList] ++
  (List.finRange W).flatMap (fun i =>
    [Text.ofInt (row.snapshots i).accumulatedConns, Text.ofInt (row.snapshots i).pendingEvents]) ++
  [Sim.DeviationText.text conns, Sim.DeviationText.text events]

def formatTickRow (row : TickRow W) : List Char := Text.record row.columns

-- The row of the simulation with the same columns.
def TickRow.simulated (row : TickRow W) : Sim.TickRow W where
  timestampNs := row.timestampNs
  workerId := row.workerId
  iter := row.iter
  snapshots := row.snapshots
  queueLen := row.openConns
  result := row.result
  policy := match row.policy with
    | .hermes => .hermes
    | .lifo => .lifo
    | .reuseport => .reuseportHash

theorem TickRow.columns_simulated (row : TickRow W) : row.simulated.columns = row.columns := by
  obtain ⟨timestampNs, workerId, iter, snapshots, openConns, result, policy⟩ := row
  cases policy <;> rfl

theorem formatTickRow_simulated (row : TickRow W) :
    Sim.formatTickRow row.simulated = formatTickRow row := by
  rw [Sim.formatTickRow, row.columns_simulated, formatTickRow]

theorem formatTickRow_whole (row : TickRow W) : Text.Whole (formatTickRow row) := by
  rw [← formatTickRow_simulated]
  exact Sim.formatTickRow_whole row.simulated

theorem fields_formatTickRow (row : TickRow W) : Text.fields (formatTickRow row) = row.columns := by
  rw [← formatTickRow_simulated, Sim.fields_formatTickRow, row.columns_simulated]

end Rows

section Writer

variable [Sim.DeviationText] (device : Nat → Option Nat) {W : Nat}

-- The capacity of a `BufWriter`.
def bufCapacity : Nat := 8192

def flushEvery : Nat := 64

def TickWriter.create (W : Nat) : Writing Char Nat := do
  LineLog.writeln device bufCapacity (tickHeader W)
  return 0

def TickWriter.write (pending : Nat) (row : TickRow W) : Writing Char Nat :=
  LineLog.append device bufCapacity flushEvery pending (formatTickRow row)

def TickWriter.flush : Writing Char Unit := flushBuf device

-- The calls of a worker until it stops.
def TickWriter.session (rows : List (TickRow W)) : Writing Char Nat := do
  let pending ← TickWriter.create device W
  rows.foldlM (TickWriter.write device) pending

end Writer

section Runs

variable [Sim.DeviationText] {device : Nat → Option Nat} {W : Nat} {rows : List (TickRow W)}
  {row : TickRow W} {pending : Nat} {w : BufWriter Char}

def tickLines (rows : List (TickRow W)) : List (List Char) :=
  tickHeader W :: rows.map formatTickRow

theorem tickLines_whole (rows : List (TickRow W)) : ∀ line ∈ tickLines rows, Text.Whole line :=
  List.forall_mem_cons.2 ⟨tickHeader_whole, fun line among => by
    obtain ⟨row, _, rfl⟩ := List.mem_map.1 among
    exact formatTickRow_whole row⟩

theorem TickWriter.session_logged (empty : w.text = []) (rows : List (TickRow W)) :
    Ensures w (TickWriter.session device rows)
      (LineLog.Logged flushEvery (tickHeader W) (rows.map formatTickRow)) (fun _ _ => True) := by
  have positive : 0 < flushEvery := by decide
  have created := @LineLog.writeln_logged device bufCapacity flushEvery w (tickHeader W) positive empty
  refine Ensures.bind (Ensures.bind created fun _ _ logged => Ensures.pure logged) ?_
  intro pending after logged
  have written := @LineLog.appends_logged device bufCapacity flushEvery pending after (tickHeader W) []
    logged (rows.map formatTickRow)
  rwa [LineLog.appends, List.foldlM_map, List.nil_append] at written

theorem TickWriter.rows_survive
    (logged : outcome (TickWriter.session device rows) BufWriter.new = (.ok pending, w))
    (row : TickRow W) :
    LineLog.Kept flushEvery (tickHeader W) (rows.map formatTickRow) rows.length w.file ∧
    (∀ result after, outcome (TickWriter.write device pending row) w = (result, after) →
      LineLog.Kept flushEvery (tickHeader W) ((rows ++ [row]).map formatTickRow) rows.length
        after.file) ∧
    ∀ result after, outcome (TickWriter.flush device) w = (result, after) →
      LineLog.Kept flushEvery (tickHeader W) (rows.map formatTickRow) rows.length after.file ∧
      (result = .ok () → Text.lines after.file = tickLines rows ∧
        ∀ row ∈ rows, Text.fields (formatTickRow row) = row.columns) := by
  have here : LineLog.Logged flushEvery (tickHeader W) (rows.map formatTickRow) pending w := by
    obtain ⟨start, new⟩ : ∃ start : BufWriter Char, start = BufWriter.new := ⟨_, rfl⟩
    rw [← new] at logged
    have session := @session_logged _ device W start (by rw [new]; rfl) rows
    rwa [Ensures, logged] at session
  have clean := fun rows : List (TickRow W) => fun line among =>
    (tickLines_whole rows line among).newline
  have count : (rows.map formatTickRow).length = rows.length := List.length_map _
  rw [← count]
  refine ⟨here.kept (clean rows), fun result after ran => ?_, fun result after ran => ?_⟩
  · have more := clean (rows ++ [row])
    rw [tickLines, List.map_append, List.map_singleton] at more
    rw [List.map_append, List.map_singleton]
    exact here.kept_append more ran
  · obtain ⟨kept, whole⟩ := here.kept_flush (clean rows) ran
    refine ⟨kept, fun done => ⟨?_, fun row _ => fields_formatTickRow row⟩⟩
    rw [whole done]
    exact Text.lines_unlines (tickLines_whole rows)

end Runs

theorem TickWriter.rows_survive_first :
    -- One row is written, and the last flush goes through.
    let row : TickRow 1 := ⟨5, 0, 0, fun _ => ⟨7, 1, 0⟩, 1, none, .lifo⟩
    ∃ pending w, outcome (TickWriter.session (fun _ => none) [row]) BufWriter.new =
        (.ok pending, w) ∧
      ∀ after, outcome (TickWriter.flush fun _ => none) w = (.ok (), after) →
        Text.lines after.file = tickLines [row] := by
  intro row
  have finished : (outcome (TickWriter.session (fun _ => none) [row]) BufWriter.new).1.toBool =
      true := by decide +kernel
  cases ran : outcome (TickWriter.session (fun _ => none) [row]) BufWriter.new with
  | mk result w =>
      rw [ran] at finished
      cases result with
      | error fault => cases finished
      | ok pending =>
          exact ⟨pending, w, rfl, fun after flushed =>
            (((TickWriter.rows_survive ran row).2.2 _ after flushed).2 rfl).1⟩

end MicroHermes.Server
