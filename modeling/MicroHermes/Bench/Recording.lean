import MicroHermes.Lib.LineLog
import MicroHermes.Bench.Collect

set_option autoImplicit false

namespace MicroHermes.Bench

open Fallible BufWriter

section Writer

variable (device : Nat → Option Nat)

-- The capacity of a `BufWriter`, and the rows after which `collect` flushes.
def csvCapacity : Nat := 8192

def csvFlushEvery : Nat := 256

def collectRowFile (sinceFlush : Nat) (row : ConnRow) : Writing Char Nat :=
  LineLog.append device csvCapacity csvFlushEvery sinceFlush row.toCsvLine

-- `collect` up to the row that it waits for.
def collectRowsFile (rows : List ConnRow) : Writing Char Nat := do
  LineLog.writeln device csvCapacity csvHeader
  rows.foldlM (collectRowFile device) 0

end Writer

section Runs

variable {device : Nat → Option Nat} {rows : List ConnRow} {sinceFlush : Nat} {w : BufWriter Char}

theorem ConnRow.toCsvLine_clean {row : ConnRow} (label : '\n' ∉ row.label.toList) :
    '\n' ∉ row.toCsvLine := by
  have plain : ∀ {text : List Char}, Text.Plain text → '\n' ∉ text := fun plain =>
    plain.not_mem (by decide)
  refine Text.not_mem_record (by decide) ?_
  simp only [List.forall_mem_cons, List.not_mem_nil, false_implies, implies_true, and_true]
  refine ⟨plain (Text.plain_ofNat _), plain (Text.plain_ofNat _), ?_, ?_, plain (Text.plain_ofInt _),
    plain (Text.plain_ofInt _), ?_, plain (Text.plain_ofNat _), label⟩
  · cases row.kind <;> decide +kernel
  · cases row.workerId with
    | none => exact List.not_mem_nil
    | some worker => exact plain (Text.plain_ofNat _)
  · cases row.latencyUs with
    | none => exact List.not_mem_nil
    | some latency => exact plain (Text.plain_ofInt _)

theorem csvLines_clean (labels : ∀ row ∈ rows, '\n' ∉ row.label.toList) :
    ∀ line ∈ csvHeader :: rows.map ConnRow.toCsvLine, '\n' ∉ line :=
  List.forall_mem_cons.2 ⟨by decide +kernel, fun line among => by
    obtain ⟨row, inside, rfl⟩ := List.mem_map.1 among
    exact ConnRow.toCsvLine_clean (labels row inside)⟩

theorem collectRowsFile_logged (empty : w.text = []) (rows : List ConnRow) :
    Ensures w (collectRowsFile device rows)
      (LineLog.Logged csvFlushEvery csvHeader (rows.map ConnRow.toCsvLine)) (fun _ _ => True) := by
  have positive : 0 < csvFlushEvery := by decide
  have created := @LineLog.writeln_logged device csvCapacity csvFlushEvery w csvHeader positive empty
  refine Ensures.bind created ?_
  intro _ after logged
  have written := @LineLog.appends_logged device csvCapacity csvFlushEvery 0 after csvHeader []
    logged (rows.map ConnRow.toCsvLine)
  rwa [LineLog.appends, List.foldlM_map, List.nil_append] at written

theorem collected_rows_survive (labels : ∀ row ∈ rows, '\n' ∉ row.label.toList)
    (logged : outcome (collectRowsFile device rows) BufWriter.new = (.ok sinceFlush, w)) :
    LineLog.Kept csvFlushEvery csvHeader (rows.map ConnRow.toCsvLine) rows.length w.file ∧
    (∀ row result after, '\n' ∉ row.label.toList →
      outcome (collectRowFile device sinceFlush row) w = (result, after) →
      LineLog.Kept csvFlushEvery csvHeader ((rows ++ [row]).map ConnRow.toCsvLine) rows.length
        after.file) ∧
    ∀ result after, outcome (flushBuf device) w = (result, after) →
      LineLog.Kept csvFlushEvery csvHeader (rows.map ConnRow.toCsvLine) rows.length after.file ∧
      (result = .ok () → ∀ (Fault : Type) (disk : Disk Fault) path summary text,
        collect disk path rows = .ok (summary, text) → after.file = text) := by
  have here : LineLog.Logged csvFlushEvery csvHeader (rows.map ConnRow.toCsvLine) sinceFlush w := by
    obtain ⟨start, new⟩ : ∃ start : BufWriter Char, start = BufWriter.new := ⟨_, rfl⟩
    rw [← new] at logged
    have session := @collectRowsFile_logged device start (by rw [new]; rfl) rows
    rwa [Ensures, logged] at session
  have count : (rows.map ConnRow.toCsvLine).length = rows.length := List.length_map _
  rw [← count]
  refine ⟨here.kept (csvLines_clean labels), fun row result after label ran => ?_,
    fun result after ran => ?_⟩
  · have more : ∀ line ∈ csvHeader :: (rows ++ [row]).map ConnRow.toCsvLine, '\n' ∉ line :=
      csvLines_clean (List.forall_mem_append.2 ⟨labels, List.forall_mem_singleton.2 label⟩)
    rw [List.map_append, List.map_singleton] at more ⊢
    exact here.kept_append more ran
  · obtain ⟨kept, whole⟩ := here.kept_flush (csvLines_clean labels) ran
    refine ⟨kept, fun flushed Fault disk path summary text collected => ?_⟩
    rw [whole flushed, (collect_counted collected).2.2.2]

end Runs

theorem collected_rows_survive_first :
    -- One reply is on the buffer when the run is stopped before its flush.
    let row : ConnRow := .ok 0 0 .accept 1 5 9 3 "lifo"
    ∃ sinceFlush w, outcome (collectRowsFile (fun _ => none) [row]) BufWriter.new =
        (.ok sinceFlush, w) ∧
      LineLog.Kept csvFlushEvery csvHeader [row.toCsvLine] 1 w.file := by
  intro row
  have finished : (outcome (collectRowsFile (fun _ => none) [row]) BufWriter.new).1.toBool =
      true := by decide +kernel
  have label : '\n' ∉ row.label.toList := by decide +kernel
  cases ran : outcome (collectRowsFile (fun _ => none) [row]) BufWriter.new with
  | mk result w =>
      rw [ran] at finished
      cases result with
      | error fault => cases finished
      | ok sinceFlush =>
          exact ⟨sinceFlush, w, rfl,
            (collected_rows_survive (List.forall_mem_singleton.2 label) ran).1⟩

end MicroHermes.Bench
