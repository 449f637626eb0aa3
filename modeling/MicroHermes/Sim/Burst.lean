import MicroHermes.Sim.Conservation

set_option autoImplicit false

namespace MicroHermes.Sim

open Transition

variable {W : Nat}

def Pc.burstIds : Pc W → List Nat
  -- Follow-ups taken off the backlog but not yet recorded.
  | .burstAdd ids => ids
  | .burstDequeue connId rest | .burstSleep connId rest _ | .burstDone connId rest _
  | .burstSub connId rest _ _ => connId :: rest
  | _ => []

def Pc.triggers : Pc W → Bool
  | .burstNow => true
  | _ => false

theorem Pc.triggers_iff {pc : Pc W} : pc.triggers = true ↔ pc = .burstNow := by
  cases pc <;> simp [triggers]

def Pc.hasPanicked : Pc W → Bool
  | .panicked => true
  | _ => false

def Pc.drained : Pc W → Bool
  -- The places that are reached only with an empty backlog.
  | .pollDeadline | .pop _ _ _ | .pollNow _ | .pollShutdown _ | .pollSleep _ | .acceptAdd _
  | .acceptConn _ _ | .acceptDequeue _ _ | .acceptSleep _ _ _ | .acceptDone _ _ _
  | .acceptSub _ _ _ _ | .exited => true
  | _ => false

def Worker.followUps (w : Worker W) : List Nat := w.pc.burstIds ++ w.burstBacklog

def Worker.bursts (w : Worker W) : List ConnRow := w.conns.filter fun row => row.kind = .burst

theorem Pc.burstIds_of_drained {pc : Pc W} (drained : pc.drained = true) : pc.burstIds = [] := by
  cases pc <;> first | rfl | cases drained

section Continuations

variable (policy : Policy)

@[simp] theorem endOfLoop_phase : (endOfLoop policy : Pc W).burstIds = [] ∧
    (endOfLoop policy : Pc W).triggers = false ∧
    (endOfLoop policy : Pc W).hasPanicked = false ∧
    (endOfLoop policy : Pc W).drained = false := by
  unfold endOfLoop
  split <;> exact ⟨rfl, rfl, rfl, rfl⟩

@[simp] theorem nextBurst_phase (ids : List Nat) : (nextBurst policy ids : Pc W).burstIds = ids ∧
    (nextBurst policy ids : Pc W).triggers = false ∧
    (nextBurst policy ids : Pc W).hasPanicked = false ∧
    (nextBurst policy ids : Pc W).drained = false := by
  cases ids with
  | nil => exact endOfLoop_phase policy
  | cons connId rest => exact ⟨rfl, rfl, rfl, rfl⟩

@[simp] theorem nextAccept_phase (batch : List ConnDesc) :
    (nextAccept policy batch : Pc W).burstIds = [] ∧
    (nextAccept policy batch : Pc W).triggers = false ∧
    (nextAccept policy batch : Pc W).hasPanicked = false := by
  cases batch with
  | nil => exact ⟨(endOfLoop_phase policy).1, (endOfLoop_phase policy).2.1,
      (endOfLoop_phase policy).2.2.1⟩
  | cons desc rest => exact ⟨rfl, rfl, rfl⟩

@[simp] theorem pollStep_phase (deadline : Int) (batch : List ConnDesc) (pop : PopPc) :
    (pollStep deadline batch pop : Pc W).burstIds = [] ∧
    (pollStep deadline batch pop : Pc W).triggers = false ∧
    (pollStep deadline batch pop : Pc W).hasPanicked = false := by
  unfold pollStep
  split
  · split <;> exact ⟨rfl, rfl, rfl⟩
  · split <;> exact ⟨rfl, rfl, rfl⟩
  · exact ⟨rfl, rfl, rfl⟩

end Continuations

section Worker

variable {F : Type} [MetricArith F] {policy : Policy} {cfg : WorkloadConfig} {i : Fin W}

theorem followUps_kept {w w' : Worker W} {pc : Pc W} (here : w.pc = pc)
    (ids : w'.pc.burstIds = pc.burstIds) (backlog : w'.burstBacklog = w.burstBacklog) :
    w'.followUps = w.followUps := by
  rw [Worker.followUps, ids, backlog, ← here, Worker.followUps]

theorem followUps_of_drained {w : Worker W} (drained : w.pc.drained = true)
    (backlog : w.burstBacklog = []) : w.followUps = [] := by
  rw [Worker.followUps, Pc.burstIds_of_drained drained, backlog, List.append_nil]

theorem followUps_chosen {w : Worker W} (here : w.pc = .choose) (n : Nat) :
    Worker.followUps { w with
      burstBacklog := w.burstBacklog.drop n
      pc := .burstAdd (w.burstBacklog.take n) } = w.followUps := by
  simp [Worker.followUps, here, Pc.burstIds]

structure Planned (cfg : WorkloadConfig) (w : Worker W) : Prop where
  configured : w.burstPending.isSome → cfg.burst.isSome
  due : w.pc.triggers = true → w.burstPending.isSome
  quiet : w.burstPending.isSome ∨ cfg.burst = none → w.followUps = [] ∧ w.bursts = []
  alive : w.pc.hasPanicked = false

theorem planned_initial (start : Int) : Planned cfg (Worker.initial cfg i start) where
  configured := id
  due := (absurd · Bool.false_ne_true)
  quiet _ := ⟨rfl, rfl⟩
  alive := rfl

theorem Planned.kept {w w' : Worker W} (inv : Planned cfg w)
    (pending : w'.burstPending = w.burstPending) (followUps : w'.followUps = w.followUps)
    (bursts : w'.bursts = w.bursts) (due : w'.pc.triggers = true → w.burstPending.isSome)
    (alive : w'.pc.hasPanicked = false) : Planned cfg w' where
  configured := pending ▸ inv.configured
  due := pending ▸ due
  quiet := by
    rw [pending, followUps, bursts]
    exact inv.quiet
  alive := alive

theorem Planned.serving {w : Worker W} (inv : Planned cfg w) {connId : Nat} {rest : List Nat}
    (ids : w.pc.burstIds = connId :: rest) : ¬ (w.burstPending.isSome ∨ cfg.burst = none) := by
  -- A worker that serves follow-ups has fired the burst.
  intro unfired
  have empty := (inv.quiet unfired).1
  simp [Worker.followUps, ids] at empty

theorem Planned.burst_of_serving {w : Worker W} (inv : Planned cfg w)
    (serves : w.pc.burstIds ≠ []) : cfg.burst.isSome := by
  obtain ⟨connId, rest, ids⟩ := List.exists_cons_of_ne_nil serves
  exact Option.isSome_iff_ne_none.2 fun none => inv.serving ids (.inr none)

theorem moves_planned {shared : SharedState W} {w w' : Worker W} {label : Sys} {op : MemOp}
    (inv : Planned cfg w) (moved : Moves F policy cfg i shared w label op w') : Planned cfg w' := by
  cases moved with
  | burstDue now burst pc pending due =>
      refine inv.kept rfl (followUps_kept pc rfl rfl) rfl (fun _ => ?_) rfl
      rw [pending, Option.isSome_some]
  | burstNow now pc =>
      have planned := inv.configured (inv.due (by rw [pc]; rfl))
      refine ⟨(absurd · Bool.false_ne_true), (absurd · Bool.false_ne_true), fun unfired => ?_, rfl⟩
      rcases unfired with pending | missing
      · cases pending
      · simp [missing] at planned
  | chooseBurst pc backlog =>
      exact inv.kept rfl (followUps_chosen pc _) rfl (absurd · Bool.false_ne_true) rfl
  | burstAdd ids pc =>
      have phase := nextBurst_phase (W := W) policy ids
      exact inv.kept rfl (followUps_kept pc phase.1 rfl) rfl (by simp [phase.2.1])
        phase.2.2.1
  | burstMissing now connId rest pc missing =>
      exact absurd (.inr missing) (inv.serving (by rw [pc]; rfl))
  | burstSub connId rest dequeueNs doneNs burst pc found =>
      have phase := nextBurst_phase (W := W) policy rest
      have serving := inv.serving (by rw [pc]; rfl)
      exact ⟨inv.configured, by simp [phase.2.1], fun unfired => absurd unfired serving, phase.2.2.1⟩
  | pop deadline batch call pc =>
      have phase := pollStep_phase (W := W) deadline batch (popStep (shared.queues i) call).2
      exact inv.kept rfl (followUps_kept pc phase.1 rfl) rfl (by simp [phase.2.1])
        phase.2.2
  | acceptAdd batch pc =>
      have phase := nextAccept_phase (W := W) policy batch
      exact inv.kept rfl (followUps_kept pc phase.1 rfl) rfl (by simp [phase.2.1])
        phase.2.2
  | acceptSub desc rest dequeueNs doneNs pc =>
      have phase := nextAccept_phase (W := W) policy rest
      refine inv.kept rfl (followUps_kept pc phase.1 rfl) ?_
        (by simp [phase.2.1]) phase.2.2
      simp [Worker.bursts, acceptRow]
  | _ =>
      have here := ‹w.pc = _›
      exact inv.kept rfl (followUps_kept here rfl rfl) rfl (absurd · Bool.false_ne_true) rfl

/-- A worker after its burst: `earlier` are its rows at the trigger, `ids` its open connections. -/
structure Fired (earlier : List ConnRow) (ids : List Nat) (w : Worker W) : Prop where
  once : w.burstPending = none ∧ w.pc.triggers = false
  rows : ∃ bursts after, w.conns = earlier ++ bursts ++ after ∧
    (∀ row ∈ bursts, row.kind = .burst) ∧ (∀ row ∈ after, row.kind = .accept) ∧
    bursts.map ConnRow.connId ++ w.followUps = ids ∧ (after ≠ [] → w.followUps = [])
  backlog : w.pc.drained = true → w.burstBacklog = []

theorem Fired.kept {earlier : List ConnRow} {ids : List Nat} {w w' : Worker W}
    (inv : Fired earlier ids w) (pending : w'.burstPending = w.burstPending)
    (followUps : w'.followUps = w.followUps) (conns : w'.conns = w.conns)
    (triggers : w'.pc.triggers = false) (backlog : w'.pc.drained = true → w'.burstBacklog = []) :
    Fired earlier ids w' where
  once := ⟨pending.trans inv.once.1, triggers⟩
  rows := by
    rw [followUps, conns]
    exact inv.rows
  backlog := backlog

theorem fired_of_trigger {shared : SharedState W} {w w' : Worker W} {label : Sys} {op : MemOp}
    (moved : Moves F policy cfg i shared w label op w') (trigger : w.pc = .burstNow) :
    Fired w.conns (w.openConns.map Prod.fst) w' := by
  cases moved with
  | burstNow now pc =>
      exact ⟨⟨rfl, rfl⟩, ⟨[], [], by simp [Worker.followUps, Pc.burstIds]⟩,
        (absurd · Bool.false_ne_true)⟩
  | _ => simp [trigger] at *

theorem moves_fired {earlier : List ConnRow} {ids : List Nat} {shared : SharedState W}
    {w w' : Worker W} {label : Sys} {op : MemOp} (configured : cfg.burst.isSome)
    (inv : Fired earlier ids w) (moved : Moves F policy cfg i shared w label op w') :
    Fired earlier ids w' := by
  cases moved with
  | burstDue now burst pc pending due => simp [inv.once.1] at pending
  | burstNow now pc =>
      have triggers := inv.once.2
      simp [pc, Pc.triggers] at triggers
  | chooseAccept pc backlog =>
      exact inv.kept rfl (followUps_kept pc rfl rfl) rfl rfl fun _ => backlog
  | chooseBurst pc backlog =>
      exact inv.kept rfl (followUps_chosen pc _) rfl rfl (absurd · Bool.false_ne_true)
  | burstAdd batch pc =>
      have phase := nextBurst_phase (W := W) policy batch
      refine inv.kept rfl (followUps_kept pc phase.1 rfl) rfl phase.2.1 ?_
      simp [phase.2.2.2]
  | burstMissing now connId rest pc missing => simp [missing] at configured
  | burstSub connId rest dequeueNs doneNs burst pc found =>
      have phase := nextBurst_phase (W := W) policy rest
      obtain ⟨bursts, after, conns, allBurst, allAccept, served, waits⟩ := inv.rows
      have none : after = [] := by
        by_contra accepted
        have empty := waits accepted
        simp [Worker.followUps, pc, Pc.burstIds] at empty
      subst none
      refine ⟨⟨inv.once.1, phase.2.1⟩,
        ⟨bursts ++ [burstRow policy i w burst connId dequeueNs doneNs], [], ?_, ?_, by simp, ?_,
          by simp⟩, ?_⟩
      · simp [conns]
      · exact List.forall_mem_append.2 ⟨allBurst, List.forall_mem_singleton.2 rfl⟩
      · rw [← served]
        simp only [Worker.followUps, phase.1, pc]
        simp [Pc.burstIds, burstRow]
      · simp [phase.2.2.2]
  | pop deadline batch call pc =>
      have phase := pollStep_phase (W := W) deadline batch (popStep (shared.queues i) call).2
      exact inv.kept rfl (followUps_kept pc phase.1 rfl) rfl phase.2.1
        fun _ => inv.backlog (by rw [pc]; rfl)
  | acceptAdd batch pc =>
      have phase := nextAccept_phase (W := W) policy batch
      exact inv.kept rfl (followUps_kept pc phase.1 rfl) rfl phase.2.1
        fun _ => inv.backlog (by rw [pc]; rfl)
  | acceptSub desc rest dequeueNs doneNs pc =>
      have phase := nextAccept_phase (W := W) policy rest
      have drained : w.pc.drained = true := by rw [pc]; rfl
      obtain ⟨bursts, after, conns, allBurst, allAccept, served, _⟩ := inv.rows
      have none := followUps_of_drained drained (inv.backlog drained)
      have same : Worker.followUps { w with
          openConns := w.openConns ++ [(desc.connId, doneNs + desc.lifetimeMs.toNat * 1000000)]
          conns := w.conns ++ [acceptRow policy i desc dequeueNs doneNs]
          pc := nextAccept policy rest } = w.followUps :=
        followUps_kept pc phase.1 rfl
      refine ⟨⟨inv.once.1, phase.2.1⟩,
        ⟨bursts, after ++ [acceptRow policy i desc dequeueNs doneNs], ?_, allBurst, ?_, ?_, ?_⟩, ?_⟩
      · simp [conns]
      · exact List.forall_mem_append.2 ⟨allAccept, List.forall_mem_singleton.2 rfl⟩
      · rw [same, served]
      · exact fun _ => same.trans none
      · exact fun _ => inv.backlog drained
  | exit tail pc empty backlog =>
      exact inv.kept rfl (followUps_kept pc rfl rfl) rfl rfl fun _ => backlog
  | _ =>
      have here := ‹w.pc = _›
      refine inv.kept rfl (followUps_kept here rfl rfl) rfl rfl fun drained => ?_
      first
        | exact absurd drained Bool.false_ne_true
        | exact inv.backlog (by simp [here, Pc.drained])

theorem moves_openIds {shared : SharedState W} {w w' : Worker W} {label : Sys} {op : MemOp}
    (inv : (w.openConns.map Prod.fst).Sublist (w.accepted.map ConnRow.connId))
    (moved : Moves F policy cfg i shared w label op w') :
    (w'.openConns.map Prod.fst).Sublist (w'.accepted.map ConnRow.connId) := by
  -- A connection held open has been accepted.
  cases moved with
  | close now cursor connId deadline pc entry due =>
      exact ((List.eraseIdx_sublist ..).map _).trans inv
  | burstSub connId rest dequeueNs doneNs burst pc found =>
      simpa [Worker.accepted, burstRow] using inv
  | acceptSub desc rest dequeueNs doneNs pc =>
      simpa [Worker.accepted, acceptRow] using inv
  | _ => exact inv

end Worker

section Runs

variable {F : Type} [MetricArith F] {policy : Policy} {cfg : WorkloadConfig} {seed : UInt64}
  {genStart : Int} {starts : Fin W → Int}

theorem accepted_nodup {s : SimState W}
    (steps : Steps (step F policy cfg seed) (initial cfg genStart starts) s) (i : Fin W) :
    ((s.workers i).accepted.map ConnRow.connId).Nodup := by
  have inv := run_simInv steps (simInv_initial genStart starts) i
  have distinct := inv.popped_nodup (run_ledger steps (ledger_initial genStart _ fun _ => rfl))
  rw [inv.served.rows] at distinct
  exact distinct.sublist (List.sublist_append_left ..)

theorem run_planned {s : SimState W}
    (steps : Steps (step F policy cfg seed) (initial cfg genStart starts) s) (i : Fin W) :
    Planned cfg (s.workers i) :=
  preserve_worker (Planned cfg) (fun _ _ _ _ _ => moves_planned) steps (planned_initial (starts i))

theorem run_openIds {s : SimState W}
    (steps : Steps (step F policy cfg seed) (initial cfg genStart starts) s) (i : Fin W) :
    ((s.workers i).openConns.map Prod.fst).Sublist
      ((s.workers i).accepted.map ConnRow.connId) :=
  preserve_worker
    (fun w => (w.openConns.map Prod.fst).Sublist (w.accepted.map ConnRow.connId))
    (fun _ _ _ _ _ => moves_openIds) steps (List.Sublist.refl [])

theorem run_fired {before fired final : SimState W} {i : Fin W} {label : Sys}
    (steps : Steps (step F policy cfg seed) (initial cfg genStart starts) before)
    (trigger : (before.workers i).pc = .burstNow)
    (fires : step F policy cfg seed before (.worker i label) = some fired)
    (rest : Steps (step F policy cfg seed) fired final) :
    Fired (before.workers i).conns ((before.workers i).openConns.map Prod.fst)
      (final.workers i) := by
  have planned := run_planned steps i
  have pending := planned.due (by rw [trigger]; rfl)
  obtain ⟨op, moved, _⟩ := step_worker fires
  exact preserve_worker (Fired _ _)
    (fun _ _ _ _ _ => moves_fired (planned.configured pending)) rest (fired_of_trigger moved trigger)

theorem accepted_of_quiet {w : Worker W} (quiet : w.bursts = []) : w.accepted = w.conns := by
  refine List.filter_eq_self.2 fun row recorded => ?_
  have notBurst := List.filter_eq_nil_iff.1 quiet row recorded
  cases kind : row.kind <;> simp [kind] at notBurst ⊢

theorem burst_complete {earlier later : List (Act W)} {before fired final : SimState W} {i : Fin W}
    {label : Sys}
    (run : exec (step F policy cfg seed) (initial cfg genStart starts) earlier = some before)
    (trigger : (before.workers i).pc = .burstNow)
    (fires : step F policy cfg seed before (.worker i label) = some fired)
    (rest : exec (step F policy cfg seed) fired later = some final) :
    ((before.workers i).openConns.map Prod.fst).Nodup ∧
    (∀ row ∈ (before.workers i).conns, row.kind = .accept) ∧
    (final.workers i).pc ≠ .panicked ∧
    ∃ bursts after, (final.workers i).conns = (before.workers i).conns ++ bursts ++ after ∧
      (∀ row ∈ bursts, row.kind = .burst) ∧
      bursts.map ConnRow.connId <+: (before.workers i).openConns.map Prod.fst ∧
      (after ≠ [] ∨ (final.workers i).pc = .exited →
        bursts.map ConnRow.connId = (before.workers i).openConns.map Prod.fst) ∧
      ∀ row ∈ after, row.kind = .accept ∧
        row.connId ∉ (before.workers i).openConns.map Prod.fst := by
  have steps := exec_steps run
  have whole := (steps.tail ⟨_, trivial, fires⟩).trans (exec_steps rest)
  have planned := run_planned steps i
  have pending := planned.due (by rw [trigger]; rfl)
  have opened := run_openIds steps i
  have accepted := accepted_of_quiet (planned.quiet (.inl pending)).2
  have done := run_fired steps trigger fires (exec_steps rest)
  obtain ⟨bursts, after, conns, allBurst, allAccept, served, waits⟩ := done.rows
  have complete : (final.workers i).followUps = [] →
      bursts.map ConnRow.connId = (before.workers i).openConns.map Prod.fst := by
    intro none
    rw [← served, none, List.append_nil]
  refine ⟨(accepted_nodup steps i).sublist opened, ?_, ?_, bursts, after, conns, allBurst,
    ⟨_, served⟩, ?_, fun row late => ⟨allAccept row late, fun reused => ?_⟩⟩
  · intro row recorded
    rw [← accepted] at recorded
    simpa using (List.mem_filter.1 recorded).2
  · intro panicked
    have alive := (run_planned whole i).alive
    rw [panicked] at alive
    cases alive
  · rintro (late | exited)
    · exact complete (waits late)
    · have drained : (final.workers i).pc.drained = true := by rw [exited]; rfl
      exact complete (followUps_of_drained drained (done.backlog drained))
  · have distinct := accepted_nodup whole i
    have split : (final.workers i).accepted = (before.workers i).accepted ++ after := by
      rw [Worker.accepted, conns, List.filter_append, List.filter_append, ← Worker.accepted]
      have noBurst : bursts.filter (fun row => row.kind = .accept) = [] := by
        refine List.filter_eq_nil_iff.2 fun row recorded => ?_
        simp [allBurst row recorded]
      have keepAfter : after.filter (fun row => row.kind = .accept) = after := by
        refine List.filter_eq_self.2 fun row recorded => ?_
        simp [allAccept row recorded]
      rw [noBurst, keepAfter, List.append_nil]
    rw [split, List.map_append] at distinct
    exact List.disjoint_of_nodup_append distinct (opened.subset reused)
      (List.mem_map_of_mem late)

end Runs

theorem burst_complete_hang_and_burst :
    ∃ before final : SimState 1, ∃ bursts after : List ConnRow,
      (before.workers 0).openConns.map Prod.fst = [0] ∧ bursts.map ConnRow.connId = [0] ∧
      (final.workers 0).conns = (before.workers 0).conns ++ bursts ++ after := by
  -- The burst fires in the seventh step of `burstOne`.
  have run : ((exec (step Rat .reuseportHash hangAndBurst 0) (initial hangAndBurst 0 fun _ => 0)
        (sendOne.map .gen ++ (hangThenAccept ++ recordTick).map (.worker 0) ++ lastTwo.map .gen ++
          (burstOne.take 6).map (.worker 0))).bind fun before =>
      (step Rat .reuseportHash hangAndBurst 0 before (.worker 0 (.clock 12))).bind fun fired =>
      (exec (step Rat .reuseportHash hangAndBurst 0) fired
        ((burstOne.drop 7 ++ recordTick ++ lastTwo).map (.worker 0))).map fun final : SimState 1 =>
      ((before, final), (before.workers 0).pc.triggers, (before.workers 0).openConns.map Prod.fst,
        (final.workers 0).pc.hasExited)).map Prod.snd = some (true, [0], true) := by decide +kernel
  obtain ⟨_, observed, values⟩ := Option.map_eq_some_iff.1 run
  obtain ⟨before, earlier, observed⟩ := Option.bind_eq_some_iff.1 observed
  obtain ⟨fired, fires, observed⟩ := Option.bind_eq_some_iff.1 observed
  obtain ⟨final, later, rfl⟩ := Option.map_eq_some_iff.1 observed
  simp only [Prod.mk.injEq] at values
  obtain ⟨triggers, opened, exited⟩ := values
  have trigger := Pc.triggers_iff.1 triggers
  obtain ⟨_, _, _, bursts, after, conns, _, _, complete, _⟩ :=
    burst_complete earlier trigger fires later
  have served := complete (.inr (Pc.hasExited_iff.1 exited))
  exact ⟨before, final, bursts, after, opened, served.trans opened, conns⟩

end MicroHermes.Sim
