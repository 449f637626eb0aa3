import Mathlib.Data.Int.ConditionallyCompleteOrder
import Mathlib.Tactic.NormNum
import MicroHermes.Lib.OrderStatistics
import MicroHermes.Sim.Metrics

set_option autoImplicit false

/-!
# What the summary says of the rows

`summarize_conns` reads the lines of `format_conn_row` back. Its percentiles are nearest ranks, with
`p` and the rank as exact rationals.
-/

namespace MicroHermes.Sim

open OrderStatistics

variable {W : Nat}

section Percentile

variable {sorted : List Int} {p : Rat}

theorem rank_le_iff (nonempty : sorted ≠ []) (positive : 0 < p) (most : p ≤ 1) :
    ∃ k < sorted.length, percentile sorted p = sorted.getD k 0 ∧
      ∀ count : Nat, k + 1 ≤ count ↔ sorted.length * p ≤ count := by
  have length : (0 : Rat) < sorted.length := by exact_mod_cast List.length_pos_iff.2 nonempty
  have low : 0 < (sorted.length * p).ceil := Rat.lt_ceil_iff.2 (mul_pos length positive)
  have high : (sorted.length * p).ceil ≤ sorted.length := by
    rw [Rat.ceil_le_iff]
    exact_mod_cast mul_le_of_le_one_right length.le most
  refine ⟨(sorted.length * p).ceil.toNat - 1, by omega, ?_, fun count => ?_⟩
  · rw [percentile]
    congr 1
    omega
  · have reached : (sorted.length * p).ceil ≤ count ↔ sorted.length * p ≤ count := by
      rw [Rat.ceil_le_iff, Int.cast_natCast]
    rw [← reached]
    omega

theorem percentile_isLeast (ascending : sorted.SortedLE) (nonempty : sorted ≠ [])
    (positive : 0 < p) (most : p ≤ 1) :
    IsLeast {value | value ∈ sorted ∧ sorted.length * p ≤ sorted.countP (· ≤ value)}
      (percentile sorted p) := by
  obtain ⟨k, inside, value, rank⟩ := rank_le_iff nonempty positive most
  have least := isLeast_rank ascending inside
  simp only [rank] at least
  rwa [value, List.getD_eq_getElem _ _ inside]

theorem percentile_of_values {values : List Int} (nonempty : values ≠ []) (positive : 0 < p)
    (most : p ≤ 1) :
    IsLeast {value | value ∈ values ∧ values.length * p ≤ values.countP (· ≤ value)}
      (percentile (values.insertionSort (· ≤ ·)) p) := by
  have perm := List.perm_insertionSort (· ≤ ·) values
  have least := percentile_isLeast (List.sortedLE_insertionSort ..)
    (fun none => nonempty (perm.symm.trans (none ▸ .refl _)).eq_nil) positive most
  simpa only [perm.mem_iff, perm.countP_eq, perm.length_eq] using least

theorem greatest_of_values {values : List Int} (nonempty : values ≠ []) :
    IsGreatest {value | value ∈ values} ((values.insertionSort (· ≤ ·)).getLast?.getD 0) := by
  have perm := List.perm_insertionSort (· ≤ ·) values
  have filled : values.insertionSort (· ≤ ·) ≠ [] :=
    fun none => nonempty (perm.symm.trans (none ▸ .refl _)).eq_nil
  have greatest := isGreatest_last (List.sortedLE_insertionSort ..) filled
  rw [List.getLast?_eq_some_getLast filled, Option.getD_some]
  simpa only [perm.mem_iff] using greatest

end Percentile

theorem summarizeConns_eq_of_latencies {lines : List (List Char)} (some : lines.filterMap scanLine ≠ []) :
    let sorted := ((lines.filterMap scanLine).map Prod.snd).insertionSort (· ≤ ·)
    (summarizeConns W lines).p50Us = percentile sorted (1 / 2) ∧
      (summarizeConns W lines).p99Us = percentile sorted (99 / 100) ∧
      (summarizeConns W lines).maxUs = sorted.getLast?.getD 0 := by
  obtain ⟨latencies, _⟩ := foldl_count lines (⟨fun _ => 0, []⟩ : Tally W)
  rw [List.nil_append] at latencies
  have nonempty : ((lines.filterMap scanLine).map Prod.snd).isEmpty = false := by
    simpa using some
  simp only [summarizeConns, latencies, nonempty, Bool.false_eq_true, if_false, and_self]

theorem summarizeConns_perm {lines lines' : List (List Char)} (same : lines.Perm lines') :
    summarizeConns W lines = summarizeConns W lines' := by
  have entries := same.filterMap scanLine
  obtain ⟨latencies, completed⟩ := foldl_count lines (⟨fun _ => 0, []⟩ : Tally W)
  obtain ⟨latencies', completed'⟩ := foldl_count lines' (⟨fun _ => 0, []⟩ : Tally W)
  have counts : (lines.foldl Tally.count ⟨fun _ => 0, []⟩ : Tally W).completedPerWorker =
      (lines'.foldl Tally.count ⟨fun _ => 0, []⟩ : Tally W).completedPerWorker := by
    funext i
    rw [completed i, completed' i, entries.countP_eq]
  have values := entries.map Prod.snd
  rw [List.nil_append] at latencies latencies'
  rw [← latencies, ← latencies'] at values
  have sorted := ((List.perm_insertionSort (· ≤ ·) _).trans
    (values.trans (List.perm_insertionSort (· ≤ ·) _).symm)).eq_of_sortedLE
      (List.sortedLE_insertionSort ..) (List.sortedLE_insertionSort ..)
  simp only [summarizeConns, counts, sorted, values.isEmpty_eq]

theorem summary_of_rows (usize : W ≤ 2 ^ 64) {rows : List ConnRow}
    (workers : ∀ row ∈ rows, row.workerId < W)
    (fits : ∀ row ∈ rows, -2 ^ 63 ≤ row.doneNs - row.arrivalNs ∧
      row.doneNs - row.arrivalNs < 2 ^ 63) :
    let latencies := rows.map fun row => (row.doneNs - row.arrivalNs).tdiv 1000
    let summary := summarizeConns W (rows.map formatConnRow)
    summary.completed = rows.length ∧
    (∀ i, summary.completedPerWorker i = rows.countP fun row => row.workerId = i.val) ∧
    (rows ≠ [] →
      IsGreatest {value | value ∈ latencies} summary.maxUs ∧
      IsLeast {value | value ∈ latencies ∧
        (rows.length : Rat) * (1 / 2) ≤ latencies.countP (· ≤ value)} summary.p50Us ∧
      IsLeast {value | value ∈ latencies ∧
        (rows.length : Rat) * (99 / 100) ≤ latencies.countP (· ≤ value)} summary.p99Us) ∧
    summary.p50Us ≤ summary.p99Us ∧ summary.p99Us ≤ summary.maxUs ∧
    ∀ lines : List (List Char), lines.Perm (rows.map formatConnRow) →
      summarizeConns W lines = summary := by
  intro latencies summary
  have scanned := filterMap_scanLine fun row among => (workers row among).trans_le usize
  have read : ((rows.map formatConnRow).filterMap scanLine).map Prod.snd = latencies := by
    rw [scanned, List.map_map]
    exact List.map_congr_left fun row among =>
      ConnRow.latencyUs_of_fits (fits row among).1 (fits row among).2
  have length : latencies.length = rows.length := List.length_map ..
  have orders (nonempty : rows ≠ []) :
      IsGreatest {value | value ∈ latencies} summary.maxUs ∧
      IsLeast {value | value ∈ latencies ∧
        (rows.length : Rat) * (1 / 2) ≤ latencies.countP (· ≤ value)} summary.p50Us ∧
      IsLeast {value | value ∈ latencies ∧
        (rows.length : Rat) * (99 / 100) ≤ latencies.countP (· ≤ value)} summary.p99Us := by
    have some : latencies ≠ [] := by simpa [latencies] using nonempty
    have entries : (rows.map formatConnRow).filterMap scanLine ≠ [] := by
      simpa [scanned] using nonempty
    obtain ⟨p50, p99, most⟩ := summarizeConns_eq_of_latencies (W := W) entries
    rw [read] at p50 p99 most
    rw [← length, p50, p99, most]
    exact ⟨greatest_of_values some, percentile_of_values some (by norm_num) (by norm_num),
      percentile_of_values some (by norm_num) (by norm_num)⟩
  obtain ⟨completed, perWorker⟩ := summarizeConns_completed (W := W) (rows.map formatConnRow)
  refine ⟨?_, fun i => ?_, orders, ?_⟩
  · rw [completed, scanned, List.length_map]
  · rw [perWorker i, scanned, List.countP_map]
    rfl
  · rw [← and_assoc]
    refine ⟨?_, fun lines same => summarizeConns_perm same⟩
    by_cases nonempty : rows = []
    · subst nonempty
      exact ⟨le_rfl, le_rfl⟩
    · obtain ⟨greatest, half, most⟩ := orders nonempty
      have fewer : (rows.length : Rat) * (1 / 2) ≤ rows.length * (99 / 100) :=
        mul_le_mul_of_nonneg_left (by norm_num) (Nat.cast_nonneg _)
      exact ⟨most.mono half fun value reached => ⟨reached.1, fewer.trans reached.2⟩,
        greatest.2 most.1.1⟩

theorem summary_of_rows_two :
    IsGreatest {value | value ∈ [(1999 : Int), 5000]}
      (summarizeConns numWorkers ([(⟨7, 0, 1000, 5000, 2000000, 2, .lifo, .accept⟩ : ConnRow),
        ⟨7, 0, 3000000, 3000000, 8000000, 5, .lifo, .burst⟩].map formatConnRow)).maxUs := by
  let rows : List ConnRow := [⟨7, 0, 1000, 5000, 2000000, 2, .lifo, .accept⟩,
    ⟨7, 0, 3000000, 3000000, 8000000, 5, .lifo, .burst⟩]
  have workers : ∀ row ∈ rows, row.workerId < numWorkers := by decide
  obtain ⟨_, _, orders, _⟩ := summary_of_rows (W := numWorkers) (by decide) workers (by decide)
  exact (orders (List.cons_ne_nil _ _)).1

end MicroHermes.Sim
