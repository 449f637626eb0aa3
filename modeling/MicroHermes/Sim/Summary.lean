import MicroHermes.Sim.Cases
import MicroHermes.Sim.Completion
import MicroHermes.Sim.Metrics

set_option autoImplicit false

/-!
# The run summary

`main.rs` after the workers have exited: the connection shards are merged and what the summary
prints is put together from the merged lines, the generator's counters and the shared drops. Every
merged line counts as completed, the follow-ups of a burst too.
-/

namespace MicroHermes.Sim

open Transition

variable {W : Nat}

structure WorkerSummary where
  dispatched : Nat
  completed : Nat
  openAtExit : Int
  dropped : Nat

structure RunSummary (W : Nat) where
  generated : Nat
  completed : Nat
  dropped : Nat
  workers : Fin W → WorkerSummary
  conns : ConnSummary W

def connShards (s : SimState W) : List (Option (List Char)) :=
  (List.finRange W).map fun i => some (writeShard (s.workers i).conns)

def runSummary (s : SimState W) : RunSummary W :=
  let conns := summarizeConns W (mergeShards (connShards s) connHeader).2
  { generated := s.gen.generated
    completed := conns.completed
    dropped := s.gen.dropped
    workers i :=
      { dispatched := s.gen.dispatchedPerWorker i
        completed := conns.completedPerWorker i
        openAtExit := (s.shared.wst i).accumulatedConns
        dropped := s.shared.drops i }
    conns }

structure RunSummary.Reconciles (summary : RunSummary W) : Prop where
  total : summary.completed + summary.dropped = summary.generated
  worker : ∀ i,
    (summary.workers i).completed + (summary.workers i).dropped = (summary.workers i).dispatched

section Rows

def SimState.rows (s : SimState W) : List ConnRow :=
  ((List.finRange W).map fun i => (s.workers i).conns).flatten

theorem merged_scan {s : SimState W} (usize : W ≤ 2 ^ 64)
    (shard : ∀ i, ∀ row ∈ (s.workers i).conns, row.workerId = i.val) :
    ((mergeShards (connShards s) connHeader).2.filterMap scanLine).Perm
      (s.rows.map fun row => (row.workerId, row.latencyUs)) := by
  have lines : shardLines (connShards s) = s.rows.map formatConnRow := by
    have written := shardLines_written ((List.finRange W).map fun i => (s.workers i).conns)
    rwa [List.map_map] at written
  have scanned : (s.rows.map formatConnRow).filterMap scanLine =
      s.rows.map fun row => (row.workerId, row.latencyUs) := by
    refine filterMap_scanLine fun row recorded => ?_
    obtain ⟨conns, among, inside⟩ := List.mem_flatten.1 recorded
    obtain ⟨i, _, rfl⟩ := List.mem_map.1 among
    have numbered := shard i row inside
    omega
  rw [← scanned, ← lines]
  exact (mergeShards_perm (connShards s) connHeader).filterMap scanLine

theorem filter_shards {A : Type} {shard : Fin W → List A} {worker : A → Nat}
    (own : ∀ i, ∀ row ∈ shard i, worker row = i.val) (i : Fin W) :
    ((List.finRange W).map shard).flatten.filter (fun row => worker row = i.val) = shard i := by
  have among (ids : List (Fin W)) (distinct : ids.Nodup) :
      (ids.map shard).flatten.filter (fun row => worker row = i.val) =
        if i ∈ ids then shard i else [] := by
    induction ids with
    | nil => rfl
    | cons j rest ih =>
        obtain ⟨fresh, distinct⟩ := List.nodup_cons.1 distinct
        rw [List.map_cons, List.flatten_cons, List.filter_append, ih distinct]
        by_cases self : i = j
        · subst self
          rw [if_neg fresh, if_pos List.mem_cons_self, List.append_nil, List.filter_eq_self]
          exact fun row recorded => decide_eq_true (own i row recorded)
        · have other : (shard j).filter (fun row => worker row = i.val) = [] := by
            refine List.filter_eq_nil_iff.2 fun row recorded => ?_
            simpa [own j row recorded] using fun same => self (Fin.ext same.symm)
          rw [other, List.nil_append]
          simp [self]
  rw [among _ (List.nodup_finRange W), if_pos (List.mem_finRange i)]

theorem rows_countP {s : SimState W}
    (shard : ∀ i, ∀ row ∈ (s.workers i).conns, row.workerId = i.val) (i : Fin W) :
    s.rows.countP (fun row => row.workerId = i.val) = (s.workers i).conns.length := by
  rw [List.countP_eq_length_filter, SimState.rows, filter_shards shard]

theorem completed_eq_rows {s : SimState W} (usize : W ≤ 2 ^ 64)
    (shard : ∀ i, ∀ row ∈ (s.workers i).conns, row.workerId = i.val) :
    (runSummary s).completed = ∑ i, (s.workers i).conns.length ∧
      ∀ i, ((runSummary s).workers i).completed = (s.workers i).conns.length := by
  have scan := merged_scan usize shard
  obtain ⟨completed, perWorker⟩ := summarizeConns_completed (W := W)
    (mergeShards (connShards s) connHeader).2
  constructor
  · rw [runSummary, completed, scan.length_eq, List.length_map, SimState.rows, List.length_flatten,
      List.map_map, Fin.sum_univ_def]
    rfl
  · intro i
    rw [← rows_countP shard i]
    refine (perWorker i).trans ?_
    rw [scan.countP_eq, List.countP_map]
    rfl

theorem conns_length (w : Worker W) : w.conns.length = w.accepted.length + w.bursts.length := by
  have other (row : ConnRow) : row.kind = .burst ↔ ¬ row.kind = .accept := by
    cases row.kind <;> decide
  have split := List.length_eq_countP_add_countP (fun row : ConnRow => decide (row.kind = .accept))
    (l := w.conns)
  simpa only [Worker.accepted, Worker.bursts, ← List.countP_eq_length_filter, other,
    decide_eq_true_eq] using split

end Rows

section Runs

variable {F : Type} [MetricArith F] {policy : Policy} {cfg : WorkloadConfig} {seed : UInt64}
  {genStart : Int} {starts : Fin W → Int}

theorem reconciles_iff_no_bursts {s : SimState W} (usize : W ≤ 2 ^ 64)
    (steps : Steps (step F policy cfg seed) (initial cfg genStart starts) s)
    (requested : s.gen.pc = .finished) (exited : ∀ i, (s.workers i).pc = .exited) :
    (runSummary s).Reconciles ↔ ∀ i, (s.workers i).bursts = [] := by
  have inv := run_simInv steps (simInv_initial genStart starts)
  have ledger := run_ledger steps (ledger_initial genStart _ fun _ => rfl)
  have idle : s.gen.pc.handing = none := by rw [requested]; rfl
  obtain ⟨total, worker⟩ := completed_eq_rows usize fun i => (inv i).served.shard
  have dispatched i : s.gen.dispatchedPerWorker i =
      (s.workers i).accepted.length + s.shared.drops i := by
    rw [ledger.dispatched_eq idle, (inv i).accepted_length (exited i)]
  constructor
  · intro reconciles i
    have counts : ((runSummary s).workers i).completed + s.shared.drops i =
      s.gen.dispatchedPerWorker i := reconciles.worker i
    rw [worker i, conns_length, dispatched i] at counts
    exact List.length_eq_zero_iff.1 (by omega)
  · intro quiet
    have completed i : (s.workers i).conns.length = (s.workers i).accepted.length := by
      rw [conns_length, quiet i, List.length_nil, Nat.add_zero]
    refine ⟨?_, fun i => ?_⟩
    · change (runSummary s).completed + s.gen.dropped = s.gen.generated
      rw [total, ledger.dropped_eq_sum, ledger.generated_eq_sum idle, ← Finset.sum_add_distrib]
      exact Finset.sum_congr rfl fun i _ => by rw [completed i, dispatched i]
    · change ((runSummary s).workers i).completed + s.shared.drops i = s.gen.dispatchedPerWorker i
      rw [worker i, completed i, dispatched i]

structure Quiet (w : Worker W) : Prop where
  followUps : w.followUps = []
  bursts : w.bursts = []

theorem Quiet.kept {w w' : Worker W} (quiet : Quiet w) (followUps : w'.followUps = w.followUps)
    (bursts : w'.bursts = w.bursts) : Quiet w' where
  followUps := followUps.trans quiet.followUps
  bursts := bursts.trans quiet.bursts

theorem moves_quiet {i : Fin W} {shared : SharedState W} {w w' : Worker W} {label : Sys}
    {op : MemOp} (quiet : Quiet w) (closed : w.pc = .burstNow → w.openConns = [])
    (moved : Moves F policy cfg i shared w label op w') : Quiet w' := by
  cases moved with
  | burstNow now pc => exact ⟨by simp [Worker.followUps, Pc.burstIds, closed pc], quiet.bursts⟩
  | chooseBurst pc backlog => exact quiet.kept (followUps_chosen pc _) rfl
  | burstAdd ids pc =>
      have phase := nextBurst_phase (W := W) policy ids
      exact quiet.kept (followUps_kept pc phase.1 rfl) rfl
  | burstMissing _ connId rest pc _ | burstSub connId rest _ _ _ pc _ =>
      have none := quiet.followUps
      simp [Worker.followUps, pc, Pc.burstIds] at none
  | pop deadline batch call pc =>
      have phase := pollStep_phase (W := W) deadline batch (popStep (shared.queues i) call).2
      exact quiet.kept (followUps_kept pc phase.1 rfl) rfl
  | acceptAdd batch pc =>
      have phase := nextAccept_phase (W := W) policy batch
      exact quiet.kept (followUps_kept pc phase.1 rfl) rfl
  | acceptSub desc rest dequeueNs doneNs pc =>
      have phase := nextAccept_phase (W := W) policy rest
      exact quiet.kept (followUps_kept pc phase.1 rfl) (by simp [Worker.bursts, acceptRow])
  | _ =>
      have here := ‹w.pc = _›
      exact quiet.kept (followUps_kept here rfl rfl) rfl

theorem quiet_of_closed {s : SimState W}
    (steps : StepsIf (step F policy cfg seed) (fun s act => ∀ i label, act = .worker i label →
      (s.workers i).pc = .burstNow → (s.workers i).openConns = []) (initial cfg genStart starts) s) :
    ∀ i, Quiet (s.workers i) := by
  refine StepsIf.preserve (fun s => ∀ i, Quiet (s.workers i)) ?_ steps fun i => ⟨rfl, rfl⟩
  intro s act next quiet closed taken i
  cases act with
  | gen label =>
      rw [(step_gen taken).2]
      exact quiet i
  | worker j label =>
      obtain ⟨op, moved, _, _, others⟩ := step_worker taken
      by_cases self : i = j
      · subst self
        exact moves_quiet (quiet i) (closed i label rfl) moved
      · rw [others i self]
        exact quiet i

theorem fired_bursts {before fired final : SimState W} {i : Fin W} {label : Sys}
    (steps : Steps (step F policy cfg seed) (initial cfg genStart starts) before)
    (trigger : (before.workers i).pc = .burstNow)
    (fires : step F policy cfg seed before (.worker i label) = some fired)
    (rest : Steps (step F policy cfg seed) fired final)
    (exited : (final.workers i).pc = .exited) (none : (final.workers i).bursts = []) :
    (before.workers i).openConns = [] := by
  -- The follow-ups of a burst that fired are all recorded when the worker exits.
  have done := run_fired steps trigger fires rest
  obtain ⟨bursts, after, conns, allBurst, _, served, _⟩ := done.rows
  have drained : (final.workers i).pc.drained = true := by rw [exited]; rfl
  have unrecorded : bursts = [] := by
    refine List.eq_nil_iff_forall_not_mem.2 fun row recorded => ?_
    have among : row ∈ (final.workers i).conns := by simp [conns, recorded]
    simpa [allBurst row recorded] using List.filter_eq_nil_iff.1 none row among
  rw [followUps_of_drained drained (done.backlog drained), unrecorded] at served
  exact List.map_eq_nil_iff.1 served.symm

theorem summary_reconciles_iff (usize : W ≤ 2 ^ 64) {acts : List (Act W)} {s : SimState W}
    (run : exec (step F policy cfg seed) (initial cfg genStart starts) acts = some s)
    (requested : s.gen.pc = .finished) (exited : ∀ i, (s.workers i).pc = .exited) :
    (runSummary s).Reconciles ↔
      ∀ earlier i label later before, acts = earlier ++ .worker i label :: later →
        exec (step F policy cfg seed) (initial cfg genStart starts) earlier = some before →
        (before.workers i).pc = .burstNow → (before.workers i).openConns = [] := by
  rw [reconciles_iff_no_bursts usize (exec_steps run) requested exited]
  constructor
  · rintro none earlier i label later before rfl ran trigger
    rw [exec_append, ran, Option.bind_some, exec_cons, Option.bind_eq_some_iff] at run
    obtain ⟨fired, fires, rest⟩ := run
    exact fired_bursts (exec_steps ran) trigger fires (exec_steps rest) (exited i) (none i)
  · intro closed i
    refine (quiet_of_closed (exec_stepsIf run ?_) i).bursts
    rintro earlier act later before split ran i label rfl
    exact closed earlier i label later before split ran

end Runs

-- Case 5, 60 connections per second.
def caseFive : WorkloadConfig := (forCase .case5).paced fun _ => 16666667

def firstWorker : Fin numWorkers := ⟨0, by decide⟩

def acceptFirst : List Sys :=
  -- An iteration that accepts connection 0 in the first 4 ms, up to its row.
  [.clock 0, .internal, .clock 0, .internal, .clock 0, .internal, .clock 0, .internal, .internal,
    .internal, .internal, .internal, .internal, .internal, .internal, .clock 2000, .internal,
    .clock 4000000, .internal]

def scheduleAt (now : Int) : List Sys := .clock now :: List.replicate 14 .internal

def tickAt (now : Int) : List Sys := .clock now :: List.replicate 16 .internal

def reachBurst : List Sys :=
  [.clock 2500000000, .internal, .clock 2500000000, .internal, .internal, .clock 2500000000]

def openAtBurst : List (Act numWorkers) :=
  -- Up to the clock reading that fires the burst, with connection 0 still open.
  sendOne.map .gen ++
    (acceptFirst ++ scheduleAt 4000000 ++ tickAt 4000000 ++ reachBurst).map (.worker firstWorker)

theorem openAtBurst_reaches :
    ∃ before fired : SimState numWorkers,
      exec (step Rat .hermes caseFive 0) (initial caseFive 0 fun _ => 0) openAtBurst = some before ∧
      (before.workers firstWorker).pc = .burstNow ∧
      (before.workers firstWorker).openConns.length = 1 ∧
      step Rat .hermes caseFive 0 before (.worker firstWorker (.clock 2500000000)) = some fired := by
  have reached : ((exec (step Rat .hermes caseFive 0) (initial caseFive 0 fun _ => 0)
      openAtBurst).map fun before : SimState numWorkers =>
        ((before.workers firstWorker).pc.triggers,
          (before.workers firstWorker).openConns.length)) = some (true, 1) := by decide +kernel
  obtain ⟨before, ran, values⟩ := Option.map_eq_some_iff.1 reached
  obtain ⟨triggers, opened⟩ := Prod.mk.inj values
  have trigger := Pc.triggers_iff.1 triggers
  exact ⟨before, _, ran, trigger, opened, by simp [step, workerStep, trigger, Sys.asClock]; rfl⟩

theorem openAtBurst_ends {before fired : SimState numWorkers}
    (ran : exec (step Rat .hermes caseFive 0) (initial caseFive 0 fun _ => 0) openAtBurst =
      some before)
    (fires : step Rat .hermes caseFive 0 before (.worker firstWorker (.clock 2500000000)) =
      some fired) :
    ∃ s, StepsIf (step Rat .hermes caseFive 0) (fun _ act => act.standsAt 2500000000) fired s ∧
      s.gen.pc = .finished ∧ ∀ i, (s.workers i).pc = .exited :=
  run_completes (by decide) (by decide) (by decide) 2500000000
    ((exec_steps ran).tail ⟨_, trivial, fires⟩)

theorem summary_reconciles_iff_case_five :
    ∃ acts, ∃ s : SimState numWorkers,
      exec (step Rat .hermes caseFive 0) (initial caseFive 0 fun _ => 0) acts = some s ∧
      openAtBurst <+: acts ∧ ¬ (runSummary s).Reconciles := by
  obtain ⟨before, fired, ran, trigger, opened, fires⟩ := openAtBurst_reaches
  obtain ⟨s, rest, finished, exited⟩ := openAtBurst_ends ran fires
  obtain ⟨later, rest⟩ := rest.exec
  have whole : exec (step Rat .hermes caseFive 0) (initial caseFive 0 fun _ => 0)
      (openAtBurst ++ .worker firstWorker (.clock 2500000000) :: later) = some s := by
    rw [exec_append, ran, Option.bind_some, exec_cons, fires, Option.bind_some, rest]
  refine ⟨_, s, whole, List.prefix_append .., fun reconciles => ?_⟩
  have closed := (summary_reconciles_iff (by decide) whole finished exited).1 reconciles openAtBurst
    firstWorker (.clock 2500000000) later before rfl ran trigger
  rw [closed] at opened
  cases opened

theorem follow_up_counted_as_connection :
    ∃ before fired s : SimState numWorkers,
      exec (step Rat .hermes caseFive 0) (initial caseFive 0 fun _ => 0) openAtBurst = some before ∧
      step Rat .hermes caseFive 0 before (.worker firstWorker (.clock 2500000000)) = some fired ∧
      StepsIf (step Rat .hermes caseFive 0) (fun _ act => act.standsAt 2500000000) fired s ∧
      s.gen.pc = .finished ∧ (∀ i, (s.workers i).pc = .exited) ∧ ¬ (runSummary s).Reconciles := by
  obtain ⟨before, fired, ran, trigger, opened, fires⟩ := openAtBurst_reaches
  obtain ⟨s, rest, finished, exited⟩ := openAtBurst_ends ran fires
  refine ⟨before, fired, s, ran, fires, rest, finished, exited, fun reconciles => ?_⟩
  have steps := (exec_steps ran).tail ⟨_, trivial, fires⟩
  have none := (reconciles_iff_no_bursts (by decide) (steps.trans rest.forget) finished exited).1
    reconciles firstWorker
  have closed := fired_bursts (exec_steps ran) trigger fires rest.forget (exited firstWorker) none
  rw [closed] at opened
  cases opened

end MicroHermes.Sim
