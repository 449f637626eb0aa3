import Mathlib.Algebra.BigOperators.Fin
import Mathlib.Algebra.Order.Ring.Rat
import Mathlib.Data.List.Sort
import MicroHermes.Lib.Text
import MicroHermes.Sim.Worker

set_option autoImplicit false

/-!
# CSV metrics

`metrics.rs` of the simulation: a worker writes its rows as the lines of two shards, one for its
ticks and one for its connections. The parent merges the shards and computes the summary from the
merged connection lines. Files and lines are texts.
-/

namespace MicroHermes.Sim

def asI64 (value : Int) : Int :=
  -- Arithmetic on `i64` wraps in a release build.
  value.bmod (2 ^ 64)

def Policy.asStr : Policy → String
  | .hermes => "hermes"
  | .lifo => "lifo"
  | .reuseportHash => "reuseport"

def RowKind.asStr : RowKind → String
  | .accept => "accept"
  | .burst => "burst"

section Rows

def connHeader : List Char :=
  ("conn_id,worker_id,arrival_ns,dequeue_ns,done_ns,queue_wait_us,service_us,latency_us," ++
    "policy,kind").toList

def ConnRow.queueWaitUs (row : ConnRow) : Int := (asI64 (row.dequeueNs - row.arrivalNs)).tdiv 1000

def ConnRow.latencyUs (row : ConnRow) : Int := (asI64 (row.doneNs - row.arrivalNs)).tdiv 1000

def ConnRow.columns (row : ConnRow) : List (List Char) :=
  [Text.ofNat row.connId,
    Text.ofNat row.workerId,
    Text.ofInt row.arrivalNs,
    Text.ofInt row.dequeueNs,
    Text.ofInt row.doneNs,
    Text.ofInt row.queueWaitUs,
    Text.ofNat row.serviceUs.toNat,
    Text.ofInt row.latencyUs,
    row.policy.asStr.toList,
    row.kind.asStr.toList]

def formatConnRow (row : ConnRow) : List Char := Text.record row.columns

-- The shard file of the connection rows of one worker.
def writeShard (rows : List ConnRow) : List Char := Text.unlines (rows.map formatConnRow)

theorem ConnRow.latencyUs_range (row : ConnRow) :
    -2 ^ 63 ≤ row.latencyUs ∧ row.latencyUs < 2 ^ 63 := by
  have least : -(2 ^ 63) ≤ asI64 (row.doneNs - row.arrivalNs) :=
    Int.le_bmod (m := 2 ^ 64) (by decide)
  have most : asI64 (row.doneNs - row.arrivalNs) < 2 ^ 63 :=
    Int.bmod_lt (m := 2 ^ 64) (by decide)
  rw [ConnRow.latencyUs, Int.tdiv_eq_ediv, show Int.sign 1000 = 1 from rfl]
  split <;> omega

theorem ConnRow.latencyUs_of_fits {row : ConnRow} (least : -2 ^ 63 ≤ row.doneNs - row.arrivalNs)
    (most : row.doneNs - row.arrivalNs < 2 ^ 63) :
    row.latencyUs = (row.doneNs - row.arrivalNs).tdiv 1000 := by
  rw [ConnRow.latencyUs, asI64, Int.bmod_eq_of_le (by omega) (by omega)]

theorem ConnRow.queueWaitUs_of_fits {row : ConnRow}
    (least : -2 ^ 63 ≤ row.dequeueNs - row.arrivalNs)
    (most : row.dequeueNs - row.arrivalNs < 2 ^ 63) :
    row.queueWaitUs = (row.dequeueNs - row.arrivalNs).tdiv 1000 := by
  rw [ConnRow.queueWaitUs, asI64, Int.bmod_eq_of_le (by omega) (by omega)]

theorem ConnRow.columns_plain (row : ConnRow) : ∀ column ∈ row.columns, Text.Plain column := by
  have policy : Text.Plain row.policy.asStr.toList := by
    cases row.policy <;> exact List.all_eq_true.1 (by decide)
  have kind : Text.Plain row.kind.asStr.toList := by
    cases row.kind <;> exact List.all_eq_true.1 (by decide)
  simp only [ConnRow.columns, List.forall_mem_cons, List.not_mem_nil, Text.plain_ofNat,
    Text.plain_ofInt, policy, kind, true_and, false_implies, implies_true]

theorem fields_formatConnRow (row : ConnRow) : Text.fields (formatConnRow row) = row.columns :=
  Text.fields_record (List.cons_ne_nil _ _) fun column among =>
    (row.columns_plain column among).not_mem (by decide)

theorem formatConnRow_whole (row : ConnRow) : Text.Whole (formatConnRow row) where
  nonempty := by
    intro empty
    have columns := fields_formatConnRow row
    rw [empty] at columns
    exact absurd (congrArg List.length columns) (show 1 ≠ 10 by decide)
  newline := Text.not_mem_record (by decide) fun column among =>
    (row.columns_plain column among).not_mem (by decide)
  carriage := Text.not_mem_record (by decide) fun column among =>
    (row.columns_plain column among).not_mem (by decide)

end Rows

section Ticks

/-- What `{:.3}` prints of the standard deviation of a worker metric. The code computes it in `f64`;
results that hold for every instance do not depend on how it rounds. -/
class DeviationText where
  text : List Int → List Char
  clean : ∀ values, ∀ c ∈ text values, (c.isAlphanum || c == '-' || c == '.') = true

def exactDeviation (values : List Int) : List Char :=
  -- The root of the variance to the nearest thousandth. `spread` is the variance times the square
  -- of the length.
  let spread := (values.length * (values.map fun value => value * value).sum - values.sum ^ 2).toNat
  let thousandths := (Nat.sqrt (4000000 * spread) + values.length) / (2 * values.length)
  Text.ofNat (thousandths / 1000) ++ '.' :: Text.padded 3 (Text.ofNat (thousandths % 1000))

instance DeviationText.exact : DeviationText where
  text := exactDeviation
  clean values c member := by
    have digits {text : List Char} (plain : Text.Plain text) (inside : c ∈ text) :
        (c.isAlphanum || c == '-' || c == '.') = true := by
      rw [plain c inside, Bool.true_or]
    rcases List.mem_append.1 member with whole | fraction
    · exact digits (Text.plain_ofNat _) whole
    · rcases List.mem_cons.1 fraction with rfl | inside
      · rfl
      · exact digits (Text.plain_padded 3 (Text.plain_ofNat _)) inside

variable [DeviationText] {W : Nat}

def tickHeader (W : Nat) : List Char :=
  ("timestamp_ns,worker_id,iter,bitmap_hex,bitmap_bin,after_stage1,after_stage2,after_stage3," ++
      "queue_len,policy").toList ++
    (List.range W).flatMap (fun i => ",w".toList ++ Text.ofNat i ++ "_conns,w".toList ++
      Text.ofNat i ++ "_events".toList) ++
    ",conn_sd,events_sd".toList

def TickRow.columns (row : TickRow W) : List (List Char) :=
  -- The baselines have no result: zeros, so that the columns are the same under every policy.
  let result := row.result.getD ⟨0, 0, 0, 0⟩
  let conns := (List.finRange W).map fun i => (row.snapshots i).accumulatedConns
  let events := (List.finRange W).map fun i => (row.snapshots i).pendingEvents
  [Text.ofInt row.timestampNs,
    Text.ofNat row.workerId,
    Text.ofNat row.iter.toNat,
    '0' :: 'x' :: Text.padded 4 (Nat.toDigits 16 result.bitmap.toNat),
    Text.padded W (Nat.toDigits 2 result.bitmap.toNat),
    Text.ofNat result.afterStage1,
    Text.ofNat result.afterStage2,
    Text.ofNat result.afterStage3,
    Text.ofNat row.queueLen,
    row.policy.asStr.toList] ++
  (List.finRange W).flatMap (fun i =>
    [Text.ofInt (row.snapshots i).accumulatedConns, Text.ofInt (row.snapshots i).pendingEvents]) ++
  [DeviationText.text conns, DeviationText.text events]

def formatTickRow (row : TickRow W) : List Char := Text.record row.columns

-- The shard file of the tick rows of one worker.
def writeTickShard (rows : List (TickRow W)) : List Char := Text.unlines (rows.map formatTickRow)

theorem TickRow.columns_clean (row : TickRow W) {c : Char}
    (other : (c.isAlphanum || c == '-' || c == '.') = false) :
    ∀ column ∈ row.columns, c ∉ column := by
  obtain ⟨separates, _⟩ := Bool.or_eq_false_iff.1 other
  have plain {column : List Char} (plain : Text.Plain column) : c ∉ column := plain.not_mem separates
  have deviation (values : List Int) : c ∉ DeviationText.text values := fun member =>
    Bool.false_ne_true (other.symm.trans (DeviationText.clean values c member))
  have bitmap (value : Nat) : c ∉ '0' :: 'x' :: Text.padded 4 (Nat.toDigits 16 value) :=
    plain (List.forall_mem_cons.2 ⟨rfl, List.forall_mem_cons.2
      ⟨rfl, Text.plain_padded 4 (Text.plain_toDigits (by decide) (by decide) value)⟩⟩)
  have bits (value : Nat) : c ∉ Text.padded W (Nat.toDigits 2 value) :=
    plain (Text.plain_padded W (Text.plain_toDigits (by decide) (by decide) value))
  have policy : c ∉ row.policy.asStr.toList := by
    refine plain ?_
    cases row.policy <;> exact List.all_eq_true.1 (by decide)
  intro column among
  rcases List.mem_append.1 among with among | among
  · rcases List.mem_append.1 among with among | among
    · simp only [List.mem_cons, List.not_mem_nil, or_false] at among
      rcases among with rfl | rfl | rfl | rfl | rfl | rfl | rfl | rfl | rfl | rfl
      · exact plain (Text.plain_ofInt _)
      · exact plain (Text.plain_ofNat _)
      · exact plain (Text.plain_ofNat _)
      · exact bitmap _
      · exact bits _
      · exact plain (Text.plain_ofNat _)
      · exact plain (Text.plain_ofNat _)
      · exact plain (Text.plain_ofNat _)
      · exact plain (Text.plain_ofNat _)
      · exact policy
    · obtain ⟨i, _, metric⟩ := List.mem_flatMap.1 among
      simp only [List.mem_cons, List.not_mem_nil, or_false] at metric
      rcases metric with rfl | rfl <;> exact plain (Text.plain_ofInt _)
  · simp only [List.mem_cons, List.not_mem_nil, or_false] at among
    rcases among with rfl | rfl <;> exact deviation _

theorem TickRow.columns_ne_nil (row : TickRow W) : row.columns ≠ [] := by
  simp [TickRow.columns]

theorem fields_formatTickRow (row : TickRow W) : Text.fields (formatTickRow row) = row.columns :=
  Text.fields_record row.columns_ne_nil (row.columns_clean (by decide))

theorem formatTickRow_whole (row : TickRow W) : Text.Whole (formatTickRow row) where
  nonempty := by
    intro empty
    have columns := fields_formatTickRow row
    rw [empty] at columns
    have count := congrArg List.length columns
    simp [TickRow.columns, Text.fields] at count
  newline := Text.not_mem_record (by decide) (row.columns_clean (by decide))
  carriage := Text.not_mem_record (by decide) (row.columns_clean (by decide))

end Ticks

section Merge

def lineKey (line : List Char) : Int :=
  -- The first field, `0` when it is no `i64`.
  (Text.parseSigned 64 ((Text.fields line).head?.getD ['0'])).getD 0

def shardLines (shards : List (Option (List Char))) : List (List Char) :=
  -- A missing shard has no lines, and empty lines are skipped.
  shards.flatMap fun shard => ((shard.map Text.lines).getD []).filter fun line => !line.isEmpty

def mergeShards (shards : List (Option (List Char))) (header : List Char) :
    List Char × List (List Char) :=
  let keyed := (shardLines shards).map fun line => (lineKey line, line)
  -- `sort_by_key`, a stable sort.
  let merged := (keyed.insertionSort fun first second => first.1 ≤ second.1).map Prod.snd
  (Text.unlines (header :: merged), merged)

theorem mergeShards_perm (shards : List (Option (List Char))) (header : List Char) :
    ((mergeShards shards header).2).Perm (shardLines shards) := by
  have sorted := (List.perm_insertionSort (fun first second : Int × List Char => first.1 ≤ second.1)
    ((shardLines shards).map fun line => (lineKey line, line))).map Prod.snd
  rwa [List.map_map, show Prod.snd ∘ (fun line => (lineKey line, line)) = id from rfl,
    List.map_id] at sorted

theorem shardLines_formatted {A : Type} {format : A → List Char}
    (whole : ∀ row, Text.Whole (format row)) (shards : List (List A)) :
    shardLines (shards.map fun rows => some (Text.unlines (rows.map format))) =
      shards.flatten.map format := by
  -- No line that was written is empty or split.
  rw [shardLines, List.flatMap_map, List.flatMap_def, List.map_flatten]
  refine congrArg List.flatten (List.map_congr_left fun rows _ => ?_)
  have lines : ∀ line ∈ rows.map format, Text.Whole line :=
    List.forall_mem_map.2 fun row _ => whole row
  rw [Option.map_some, Option.getD_some, Text.lines_unlines lines, List.filter_eq_self]
  intro line inside
  simpa using (lines line inside).nonempty

theorem shardLines_written (shards : List (List ConnRow)) :
    shardLines (shards.map fun rows => some (writeShard rows)) =
      shards.flatten.map formatConnRow :=
  shardLines_formatted formatConnRow_whole shards

theorem shardLines_writtenTicks [DeviationText] {W : Nat} (shards : List (List (TickRow W))) :
    shardLines (shards.map fun rows => some (writeTickShard rows)) =
      shards.flatten.map formatTickRow :=
  shardLines_formatted formatTickRow_whole shards

end Merge

section Summary

structure ConnSummary (W : Nat) where
  completed : Nat
  completedPerWorker : Fin W → Nat
  meanUs : Rat
  p50Us : Int
  p99Us : Int
  maxUs : Int

def percentile (sorted : List Int) (p : Rat) : Int :=
  -- Nearest rank, with `p` and the rank as exact rationals.
  let rank := min (max (sorted.length * p).ceil.toNat 1) sorted.length
  sorted.getD (rank - 1) 0

def scanLine (line : List Char) : Option (Nat × Int) :=
  -- `worker_id` is field 1, `latency_us` is field 7.
  let fields := Text.fields line
  match fields[1]?.bind (Text.parseUnsigned 64), fields[7]?.bind (Text.parseSigned 64) with
  | some worker, some latency => some (worker, latency)
  | _, _ => none

theorem scanLine_formatConnRow {row : ConnRow} (usize : row.workerId < 2 ^ 64) :
    scanLine (formatConnRow row) = some (row.workerId, row.latencyUs) := by
  have worker : row.columns[1]?.bind (Text.parseUnsigned 64) = some row.workerId :=
    Text.parseUnsigned_ofNat usize
  have latency : row.columns[7]?.bind (Text.parseSigned 64) = some row.latencyUs :=
    Text.parseSigned_ofInt row.latencyUs_range.1 row.latencyUs_range.2
  simp only [scanLine, fields_formatConnRow, worker, latency]

theorem filterMap_scanLine {rows : List ConnRow} (usize : ∀ row ∈ rows, row.workerId < 2 ^ 64) :
    (rows.map formatConnRow).filterMap scanLine =
      rows.map fun row => (row.workerId, row.latencyUs) := by
  rw [List.filterMap_map, ← List.filterMap_eq_map]
  exact List.filterMap_congr fun row among => scanLine_formatConnRow (usize row among)

structure Tally (W : Nat) where
  completedPerWorker : Fin W → Nat
  latencies : List Int

variable {W : Nat}

def Tally.count (tally : Tally W) (line : List Char) : Tally W :=
  match scanLine line with
  | none => tally
  | some (worker, latency) =>
      { completedPerWorker :=
          if inside : worker < W then
            Function.update tally.completedPerWorker ⟨worker, inside⟩
              (tally.completedPerWorker ⟨worker, inside⟩ + 1)
          else tally.completedPerWorker
        latencies := tally.latencies ++ [latency] }

theorem Tally.count_completed (tally : Tally W) {line : List Char} {entry : Nat × Int}
    (scanned : scanLine line = some entry) (i : Fin W) :
    (tally.count line).completedPerWorker i =
      tally.completedPerWorker i + if entry.1 = i.val then 1 else 0 := by
  simp only [Tally.count, scanned]
  split
  · next inside =>
      rw [Function.update_apply]
      by_cases self : i = ⟨entry.1, inside⟩
      · subst self
        simp
      · rw [if_neg self, if_neg fun same => self (Fin.ext same.symm), Nat.add_zero]
  · next outside =>
      rw [if_neg fun same : entry.1 = i.val => outside (same ▸ i.isLt), Nat.add_zero]

theorem foldl_count (lines : List (List Char)) (tally : Tally W) :
    (lines.foldl Tally.count tally).latencies =
        tally.latencies ++ (lines.filterMap scanLine).map Prod.snd ∧
      ∀ i : Fin W, (lines.foldl Tally.count tally).completedPerWorker i =
        tally.completedPerWorker i +
          (lines.filterMap scanLine).countP fun entry => entry.1 = i.val := by
  induction lines generalizing tally with
  | nil => simp
  | cons line rest ih =>
      rw [List.foldl_cons]
      cases scanned : scanLine line with
      | none =>
          have same : tally.count line = tally := by rw [Tally.count, scanned]
          rw [List.filterMap_cons_none scanned, same]
          exact ih tally
      | some entry =>
          obtain ⟨latencies, completed⟩ := ih (tally.count line)
          rw [List.filterMap_cons_some scanned, latencies]
          refine ⟨by simp [Tally.count, scanned], fun i => ?_⟩
          rw [completed i, tally.count_completed scanned, List.countP_cons]
          simp only [decide_eq_true_eq]
          omega

variable (W) in
def summarizeConns (lines : List (List Char)) : ConnSummary W :=
  let tally := lines.foldl Tally.count ⟨fun _ => 0, []⟩
  let sorted := tally.latencies.insertionSort (· ≤ ·)
  if tally.latencies.isEmpty then
    { completed := 0
      completedPerWorker := tally.completedPerWorker
      meanUs := 0
      p50Us := 0
      p99Us := 0
      maxUs := 0 }
  else
    { completed := sorted.length
      completedPerWorker := tally.completedPerWorker
      meanUs := asI64 sorted.sum / sorted.length
      p50Us := percentile sorted (1 / 2)
      p99Us := percentile sorted (99 / 100)
      maxUs := sorted.getLast?.getD 0 }

theorem summarizeConns_completed (lines : List (List Char)) :
    (summarizeConns W lines).completed = (lines.filterMap scanLine).length ∧
      ∀ i : Fin W, (summarizeConns W lines).completedPerWorker i =
        (lines.filterMap scanLine).countP fun entry => entry.1 = i.val := by
  obtain ⟨latencies, completed⟩ := foldl_count lines (⟨fun _ => 0, []⟩ : Tally W)
  simp only [List.nil_append, Nat.zero_add] at latencies completed
  constructor
  · simp only [summarizeConns]
    split
    · next empty =>
        rw [latencies, List.isEmpty_iff, List.map_eq_nil_iff] at empty
        rw [empty, List.length_nil]
    · rw [List.length_insertionSort, latencies, List.length_map]
  · intro i
    simp only [summarizeConns]
    split <;> exact completed i

-- Both rows of a connection that a burst found open, written, merged and counted.
example :
    let accept : ConnRow := ⟨7, 0, 1000, 5000, 2000000, 2, .lifo, .accept⟩
    let burst : ConnRow := ⟨7, 0, 3000000, 3000000, 8000000, 5, .lifo, .burst⟩
    let merged := (mergeShards [none, some (writeShard [accept, burst])] connHeader).2
    merged = ["7,0,1000,5000,2000000,4,2,1999,lifo,accept".toList,
      "7,0,3000000,3000000,8000000,0,5,5000,lifo,burst".toList] ∧
    (summarizeConns 1 merged).completed = 2 ∧ (summarizeConns 1 merged).p99Us = 5000 := by
  decide +kernel

end Summary

end MicroHermes.Sim
