import MicroHermes.Sim.Completion

set_option autoImplicit false

namespace MicroHermes.Sim

open Transition

variable {W : Nat}

/-- What one iteration of the loop has done. -/
structure Iteration where
  hung : Bool
  handled : Nat
  deriving DecidableEq

def Iteration.useful (iteration : Iteration) : Prop := iteration.hung = true ∨ 0 < iteration.handled

def Iteration.uses (iteration : Iteration) : Nat := iteration.hung.toNat + iteration.handled

def logIteration (w : Worker W) (log : List Iteration) : List Iteration :=
  -- The latest iteration comes first.
  match w.pc with
  | .stamp => ⟨false, 0⟩ :: log
  | .hangSleep => log.modifyHead fun current => { current with hung := true }
  | .burstSub _ _ _ _ | .acceptSub _ _ _ _ =>
      log.modifyHead fun current => { current with handled := current.handled + 1 }
  | _ => log

def keepLog (i : Fin W) (s : SimState W) (act : Act W) (log : List Iteration) : List Iteration :=
  match act with
  | .gen _ => log
  | .worker j _ => if j = i then logIteration (s.workers i) log else log

def spent (log : List Iteration) : Nat := (log.map Iteration.uses).sum

theorem length_le_spent {log : List Iteration} (useful : ∀ iteration ∈ log, iteration.useful) :
    log.length ≤ spent log := by
  induction log with
  | nil => exact le_rfl
  | cons iteration rest ih =>
      have earlier := ih fun other inside => useful other (List.mem_cons_of_mem iteration inside)
      have first : 0 < iteration.uses := by
        rcases useful iteration List.mem_cons_self with hung | handled
        · simp [Iteration.uses, hung]
        · exact Nat.add_pos_right _ handled
      simp only [spent, List.map_cons, List.sum_cons, List.length_cons] at earlier ⊢
      omega

def Worker.due (queue : ConnQueue) (w : Worker W) : Nat :=
  -- The events still to be handled, with those of a burst to come.
  queue.depth + w.pc.holding.length + w.followUps.length +
    if w.burstPending.isSome then w.openConns.length + w.pc.holding.length + queue.depth else 0

def Pc.Pays (idle useful : Prop) : Pc W → Prop
  | .burstAdd ids => ids ≠ []
  | .pollNow _ | .pollShutdown _ | .exited => idle
  | .stamp | .pollSleep _ => False
  | .acceptAdd batch => batch ≠ [] ∨ idle
  | .scheduleNow | .snapshot _ _ | .publish _ | .tickNow _ | .tickSnapshot _ _ _ | .tickTail _ _ _
  | .tickHead _ _ _ _ | .exitShutdown | .exitTail | .exitHead _ => useful ∨ idle
  | _ => True

section Continuations

variable (policy : Policy) {idle useful : Prop}

theorem endOfLoop_pays (pays : useful ∨ idle) : (endOfLoop policy : Pc W).Pays idle useful := by
  unfold endOfLoop
  split <;> exact pays

theorem nextBurst_pays {ids : List Nat} (pays : ids ≠ [] ∨ useful) :
    (nextBurst policy ids : Pc W).Pays idle useful := by
  cases ids with
  | nil => exact endOfLoop_pays policy (.inl (pays.resolve_left (absurd rfl)))
  | cons connId rest => trivial

theorem nextAccept_pays {batch : List ConnDesc} (pays : batch ≠ [] ∨ useful ∨ idle) :
    (nextAccept policy batch : Pc W).Pays idle useful := by
  cases batch with
  | nil => exact endOfLoop_pays policy (pays.resolve_left (absurd rfl))
  | cons desc rest => trivial

theorem pollStep_pays (deadline : Int) (batch : List ConnDesc) {queue : ConnQueue} {call : PopPc}
    (current : call.Current queue) (calling : call.ready = false)
    (none : queue.depth = 0 → idle) :
    (pollStep deadline batch (popStep queue call).2 : Pc W).Pays idle useful := by
  cases call with
  | idle | returned _ => cases calling
  | loadHead | readSlot _ => trivial
  | loadTail head =>
      simp only [popStep]
      split
      · next empty =>
          have loaded : head = queue.head := current
          have zero : queue.depth = 0 := by simp [ConnQueue.depth, ← loaded, empty]
          simp only [pollStep]
          split
          · exact none zero
          · next nonempty => exact .inl (by simpa using nonempty)
      · trivial
  | storeHead head desc =>
      simp only [popStep, pollStep]
      split
      · trivial
      · exact .inl (by simp)

theorem pollStep_hanging (deadline : Int) (batch : List ConnDesc) (pop : PopPc) :
    (pollStep deadline batch pop : Pc W).hanging = false := by
  unfold pollStep
  split <;> (try split) <;> rfl

end Continuations

section Worker

variable {F : Type} [MetricArith F] {policy : Policy} {cfg : WorkloadConfig} {i : Fin W}

theorem pollStep_current (deadline : Int) (batch : List ConnDesc) {queue : ConnQueue}
    {call : PopPc} (current : call.Current queue) :
    (pollStep deadline batch (popStep queue call).2 : Pc W).Current (popStep queue call).1 := by
  cases call with
  | idle | loadHead => trivial
  | loadTail head =>
      simp only [popStep]
      split
      · simp only [pollStep]
        split <;> trivial
      · next nonempty =>
          obtain rfl : head = queue.head := current
          exact ⟨rfl, nonempty⟩
  | readSlot head => exact current
  | storeHead head desc =>
      simp only [popStep, pollStep]
      split <;> trivial
  | returned result =>
      cases result with
      | none =>
          simp only [popStep, pollStep]
          split <;> trivial
      | some desc =>
          simp only [popStep, pollStep]
          split <;> trivial

theorem endOfLoop_current (queue : ConnQueue) : (endOfLoop policy : Pc W).Current queue := by
  unfold endOfLoop
  split <;> trivial

theorem nextBurst_current (queue : ConnQueue) (ids : List Nat) :
    (nextBurst policy ids : Pc W).Current queue := by
  cases ids with
  | nil => exact endOfLoop_current queue
  | cons connId rest => trivial

theorem nextAccept_current (queue : ConnQueue) (batch : List ConnDesc) :
    (nextAccept policy batch : Pc W).Current queue := by
  cases batch with
  | nil => exact endOfLoop_current queue
  | cons desc rest => trivial

theorem moves_current {shared : SharedState W} {w w' : Worker W} {label : Sys} {op : MemOp}
    (current : w.pc.Current (shared.queues i)) (moved : Moves F policy cfg i shared w label op w') :
    w'.pc.Current (op.onQueue (shared.queues i)) := by
  -- Without a producer only the worker's own steps change its queue.
  cases moved with
  | pop deadline batch call pc =>
      rw [pc] at current
      exact pollStep_current deadline batch current
  | burstAdd ids pc => exact nextBurst_current _ ids
  | burstSub _ rest _ _ _ pc _ => exact nextBurst_current _ rest
  | acceptAdd batch pc => exact nextAccept_current _ batch
  | acceptSub _ rest _ _ pc => exact nextAccept_current _ rest
  | exitTail pc => rfl
  | _ => trivial

structure Furnished (cfg : WorkloadConfig) (w : Worker W) : Prop where
  burst : w.burstPending.isSome ∨ w.followUps ≠ [] → cfg.burst.isSome
  hanging : w.pc.hanging = true → w.hangPending.isSome
  triggers : w.pc.triggers = true → w.burstPending.isSome
  alive : w.pc.hasPanicked = false

theorem Furnished.kept {w w' : Worker W} (inv : Furnished cfg w)
    (pending : w'.burstPending = w.burstPending) (followUps : w'.followUps = w.followUps)
    (hanging : w'.pc.hanging = true → w'.hangPending.isSome)
    (triggers : w'.pc.triggers = true → w'.burstPending.isSome)
    (alive : w'.pc.hasPanicked = false) : Furnished cfg w' where
  burst := by
    rw [pending, followUps]
    exact inv.burst
  hanging := hanging
  triggers := triggers
  alive := alive

theorem moves_furnished {shared : SharedState W} {w w' : Worker W} {label : Sys} {op : MemOp}
    (inv : Furnished cfg w) (moved : Moves F policy cfg i shared w label op w') :
    Furnished cfg w' := by
  cases moved with
  | hangDue now hang pc pending due =>
      refine inv.kept rfl (followUps_kept pc rfl rfl) (fun _ => ?_) (absurd · Bool.false_ne_true) rfl
      rw [pending, Option.isSome_some]
  | burstDue now burst pc pending due =>
      refine inv.kept rfl (followUps_kept pc rfl rfl) (absurd · Bool.false_ne_true) (fun _ => ?_) rfl
      rw [pending, Option.isSome_some]
  | burstNow now pc =>
      have configured := inv.burst (.inl (inv.triggers (by rw [pc]; rfl)))
      exact ⟨fun _ => configured, (absurd · Bool.false_ne_true), (absurd · Bool.false_ne_true), rfl⟩
  | chooseBurst pc backlog =>
      exact inv.kept rfl (followUps_chosen pc _) (absurd · Bool.false_ne_true)
        (absurd · Bool.false_ne_true) rfl
  | burstAdd ids pc =>
      have phase := nextBurst_phase (W := W) policy ids
      have late := nextBurst_late (W := W) policy 0 ids
      exact inv.kept rfl (followUps_kept pc phase.1 rfl) (by simp [late.2.1]) (by simp [phase.2.1])
        phase.2.2.1
  | burstMissing now connId rest pc missing =>
      have configured := inv.burst (.inr (by simp [Worker.followUps, pc, Pc.burstIds]))
      simp [missing] at configured
  | burstSub connId rest dequeueNs doneNs burst pc found =>
      have phase := nextBurst_phase (W := W) policy rest
      have late := nextBurst_late (W := W) policy 0 rest
      refine ⟨fun _ => ?_, by simp [late.2.1], by simp [phase.2.1], phase.2.2.1⟩
      rw [found, Option.isSome_some]
  | pop deadline batch call pc =>
      have phase := pollStep_phase (W := W) deadline batch (popStep (shared.queues i) call).2
      exact inv.kept rfl (followUps_kept pc phase.1 rfl) (by simp [pollStep_hanging])
        (by simp [phase.2.1]) phase.2.2
  | acceptAdd batch pc =>
      have phase := nextAccept_phase (W := W) policy batch
      have late := nextAccept_late (W := W) policy 0 batch
      exact inv.kept rfl (followUps_kept pc phase.1 rfl) (by simp [late.2.1]) (by simp [phase.2.1])
        phase.2.2
  | acceptSub desc rest dequeueNs doneNs pc =>
      have phase := nextAccept_phase (W := W) policy rest
      have late := nextAccept_late (W := W) policy 0 rest
      exact inv.kept rfl (followUps_kept pc phase.1 rfl) (by simp [late.2.1]) (by simp [phase.2.1])
        phase.2.2
  | _ =>
      have here := ‹w.pc = _›
      exact inv.kept rfl (followUps_kept here rfl rfl) (absurd · Bool.false_ne_true)
        (absurd · Bool.false_ne_true) rfl

theorem spent_modifyHead {change : Iteration → Iteration}
    (one : ∀ current, (change current).uses ≤ current.uses + 1) (log : List Iteration) :
    spent (log.modifyHead change) ≤ spent log + 1 := by
  cases log with
  | nil => exact Nat.zero_le _
  | cons current earlier =>
      have more := one current
      simp only [spent, List.modifyHead_cons, List.map_cons, List.sum_cons]
      omega

theorem uses_handled (current : Iteration) :
    Iteration.uses { current with handled := current.handled + 1 } ≤ current.uses + 1 :=
  le_rfl

theorem due_kept {queue queue' : ConnQueue} {w w' : Worker W} {pc : Pc W} (here : w.pc = pc)
    (depth : queue'.depth = queue.depth) (holding : w'.pc.holding.length = pc.holding.length)
    (followUps : w'.followUps = w.followUps) (pending : w'.burstPending = w.burstPending)
    (conns : w'.openConns.length ≤ w.openConns.length) : w'.due queue' ≤ w.due queue := by
  simp only [Worker.due, depth, holding, followUps, pending, here]
  split <;> omega

theorem pop_due {queue : ConnQueue} {w : Worker W} {deadline : Int} {batch : List ConnDesc}
    {call : PopPc} (current : call.Current queue) (here : w.pc = .pop deadline batch call)
    (popped : List ConnDesc) :
    Worker.due (popStep queue call).1
      { w with popped, pc := pollStep deadline batch (popStep queue call).2 } ≤ w.due queue := by
  have phase := pollStep_phase (W := W) deadline batch (popStep queue call).2
  have followUps : Worker.followUps { w with
      popped, pc := pollStep deadline batch (popStep queue call).2 } = w.followUps :=
    followUps_kept here phase.1 rfl
  have holding := congrArg List.length (pollStep_holding (W := W) deadline batch (popStep queue call).2)
  have before : w.pc.holding.length = batch.length + call.result.length := by
    simp [here, Pc.holding]
  rw [popStep_result] at holding
  simp only [List.length_append] at holding
  have moved := current.depth_add
  simp only [Worker.due, followUps, holding, before]
  split <;> omega

theorem paid_kept {queue queue' : ConnQueue} {w w' : Worker W} {log : List Iteration}
    (same : spent (logIteration w log) = spent log) (hang : w'.hangPending = w.hangPending)
    (due : w'.due queue' ≤ w.due queue) :
    spent (logIteration w log) + w'.hangPending.isSome.toNat + w'.due queue' ≤
      spent log + w.hangPending.isSome.toNat + w.due queue := by
  rw [same, hang]
  exact Nat.add_le_add_left due _

theorem moves_due {shared : SharedState W} {w w' : Worker W} {label : Sys} {op : MemOp}
    (current : w.pc.Current (shared.queues i)) (furnished : Furnished cfg w)
    (moved : Moves F policy cfg i shared w label op w') (log : List Iteration) :
    spent (logIteration w log) + w'.hangPending.isSome.toNat +
        w'.due (op.onQueue (shared.queues i)) ≤
      spent log + w.hangPending.isSome.toNat + w.due (shared.queues i) := by
  cases moved with
  | stamp now pc =>
      refine paid_kept ?_ rfl (due_kept pc rfl rfl (followUps_kept pc rfl rfl) rfl le_rfl)
      simp [logIteration, pc, spent, Iteration.uses]
  | hung pc =>
      have more : spent (logIteration w log) ≤ spent log + 1 := by
        simp only [logIteration, pc]
        refine spent_modifyHead (fun current => ?_) log
        simp only [Iteration.uses, Bool.toNat_true]
        omega
      have pending : w.hangPending.isSome.toNat = 1 := by
        rw [furnished.hanging (by rw [pc]; rfl), Bool.toNat_true]
      have due : Worker.due (shared.queues i) { w with hangPending := none, pc := .stamp } ≤
          w.due (shared.queues i) :=
        due_kept pc rfl rfl (followUps_kept pc rfl rfl) rfl le_rfl
      simp only [MemOp.onQueue, Option.isSome_none, Bool.toNat_false]
      omega
  | close now cursor connId deadline pc entry due =>
      refine paid_kept (by simp [logIteration, pc]) rfl
        (due_kept pc rfl rfl (followUps_kept pc rfl rfl) rfl ?_)
      exact (List.eraseIdx_sublist ..).length_le
  | burstNow now pc =>
      have pending := furnished.triggers (by rw [pc]; rfl)
      refine paid_kept (by simp [logIteration, pc]) rfl ?_
      simp only [Worker.due, Worker.followUps, pending, pc, Pc.holding, Pc.burstIds, MemOp.onQueue,
        Option.isSome_none, Bool.false_eq_true, if_false, if_true, List.length_nil,
        List.nil_append, List.length_map]
      omega
  | chooseBurst pc backlog =>
      exact paid_kept (by simp [logIteration, pc]) rfl
        (due_kept pc rfl rfl (followUps_chosen pc _) rfl le_rfl)
  | burstAdd ids pc =>
      have phase := nextBurst_phase (W := W) policy ids
      refine paid_kept (by simp [logIteration, pc]) rfl
        (due_kept pc rfl ?_ (followUps_kept pc phase.1 rfl) rfl le_rfl)
      rw [nextBurst_holding]
      rfl
  | burstSub connId rest dequeueNs doneNs burst pc found =>
      have more : spent (logIteration w log) ≤ spent log + 1 := by
        simp only [logIteration, pc]
        exact spent_modifyHead uses_handled log
      have phase := nextBurst_phase (W := W) policy rest
      have due : Worker.due (shared.queues i)
          { w with
            conns := w.conns ++ [burstRow policy i w burst connId dequeueNs doneNs]
            pc := nextBurst policy rest } + 1 = w.due (shared.queues i) := by
        simp only [Worker.due, Worker.followUps, phase.1, nextBurst_holding]
        simp only [pc, Pc.holding, Pc.burstIds, List.length_append, List.length_cons]
        omega
      simp only [MemOp.onQueue]
      omega
  | burstMissing now connId rest pc missing =>
      have configured := furnished.burst (.inr (by simp [Worker.followUps, pc, Pc.burstIds]))
      simp [missing] at configured
  | pop deadline batch call pc =>
      rw [pc] at current
      exact paid_kept (by simp [logIteration, pc]) rfl (pop_due current pc _)
  | acceptAdd batch pc =>
      have phase := nextAccept_phase (W := W) policy batch
      refine paid_kept (by simp [logIteration, pc]) rfl
        (due_kept pc rfl ?_ (followUps_kept pc phase.1 rfl) rfl le_rfl)
      rw [nextAccept_holding]
      rfl
  | acceptSub desc rest dequeueNs doneNs pc =>
      have more : spent (logIteration w log) ≤ spent log + 1 := by
        simp only [logIteration, pc]
        exact spent_modifyHead uses_handled log
      have phase := nextAccept_phase (W := W) policy rest
      have due : Worker.due (shared.queues i)
          { w with
            openConns := w.openConns ++ [(desc.connId, doneNs + desc.lifetimeMs.toNat * 1000000)]
            conns := w.conns ++ [acceptRow policy i desc dequeueNs doneNs]
            pc := nextAccept policy rest } + 1 = w.due (shared.queues i) := by
        simp only [Worker.due, Worker.followUps, phase.1, nextAccept_holding]
        simp only [pc, Pc.holding, Pc.burstIds, List.length_append, List.length_cons,
          List.length_nil]
        split <;> omega
      simp only [MemOp.onQueue]
      omega
  | _ =>
      have here := ‹w.pc = _›
      exact paid_kept (by simp [logIteration, here]) rfl
        (due_kept here rfl rfl (followUps_kept here rfl rfl) rfl le_rfl)

inductive Logged (queue : ConnQueue) (w : Worker W) : List Iteration → Prop
  | top (log : List Iteration) (pc : w.pc = .stamp) (useful : ∀ iteration ∈ log, iteration.useful) :
      Logged queue w log
  | within (current : Iteration) (earlier : List Iteration)
      (useful : ∀ iteration ∈ earlier, iteration.useful)
      (pays : w.pc.Pays (w.waiting queue = 0) current.useful) : Logged queue w (current :: earlier)

theorem Logged.tail_useful {queue : ConnQueue} {w : Worker W} {log : List Iteration}
    (inv : Logged queue w log) : ∀ iteration ∈ log.tail, iteration.useful := by
  cases inv with
  | top _ pc useful => exact fun iteration inside => useful iteration (List.mem_of_mem_tail inside)
  | within current earlier useful pays => exact useful

theorem Logged.current {queue : ConnQueue} {w : Worker W} {log : List Iteration}
    (inv : Logged queue w log) (within : w.pc ≠ .stamp) :
    ∃ current earlier, log = current :: earlier ∧ (∀ iteration ∈ earlier, iteration.useful) ∧
      w.pc.Pays (w.waiting queue = 0) current.useful := by
  cases inv with
  | top _ pc useful => exact absurd pc within
  | within current earlier useful pays => exact ⟨current, earlier, rfl, useful, pays⟩

theorem moves_logged {shared : SharedState W} {w w' : Worker W} {label : Sys} {op : MemOp}
    (requested : shared.shutdown = 1) (current : w.pc.Current (shared.queues i))
    (settled : Settled w) (moved : Moves F policy cfg i shared w label op w') {log : List Iteration}
    (inv : Logged (shared.queues i) w log) :
    Logged (op.onQueue (shared.queues i)) w' (logIteration w log) := by
  by_cases top : w.pc = .stamp
  · cases moved with
    | stamp now pc =>
        simp only [logIteration, pc]
        cases inv with
        | top _ pc useful => exact .within ⟨false, 0⟩ log useful trivial
        | within latest earlier useful pays => simp [pc, Pc.Pays] at pays
    | _ => simp_all
  · obtain ⟨latest, earlier, rfl, useful, pays⟩ := inv.current top
    cases moved with
    | stamp now pc => exact absurd pc top
    | hung pc =>
        simp only [logIteration, pc, List.modifyHead_cons]
        exact .top _ rfl (List.forall_mem_cons.2 ⟨.inl rfl, useful⟩)
    | chooseBurst pc backlog =>
        simp only [logIteration, pc]
        refine .within latest earlier useful fun none => backlog ?_
        simpa [maxEvents] using none
    | burstAdd ids pc =>
        rw [pc] at pays
        simp only [logIteration, pc]
        exact .within latest earlier useful (nextBurst_pays policy (.inl pays))
    | burstSub connId rest dequeueNs doneNs burst pc found =>
        simp only [logIteration, pc, List.modifyHead_cons]
        exact .within _ earlier useful (nextBurst_pays policy (.inr (.inr (Nat.succ_pos _))))
    | pop deadline batch call pc =>
        rw [pc] at current
        have calls := settled.calls
        rw [pc] at calls
        simp only [logIteration, pc]
        refine .within latest earlier useful
          (pollStep_pays deadline batch current (by simpa [Pc.calls] using calls) fun none => ?_)
        have fewer := current.depth_add
        simp only [MemOp.onQueue, Worker.waiting, settled.drained (by rw [pc]; rfl), List.length_nil]
        omega
    | pollTimeout now deadline pc due | pollStop deadline pc requested =>
        rw [pc] at pays
        simp only [logIteration, pc]
        exact .within latest earlier useful (.inr pays)
    | pollSlept deadline pc =>
        rw [pc] at pays
        exact pays.elim
    | pollWait deadline pc running | exitRunning pc running => exact absurd requested running
    | acceptAdd batch pc =>
        rw [pc] at pays
        simp only [logIteration, pc]
        exact .within latest earlier useful (nextAccept_pays policy (pays.imp_right .inr))
    | acceptSub desc rest dequeueNs doneNs pc =>
        simp only [logIteration, pc, List.modifyHead_cons]
        exact .within _ earlier useful (nextAccept_pays policy (.inr (.inl (.inr (Nat.succ_pos _)))))
    | exit tail pc empty backlog =>
        rw [pc] at current
        obtain rfl : tail = (shared.queues i).tail := current
        simp only [logIteration, pc]
        exact .within latest earlier useful (waiting_eq_zero.2 ⟨empty, backlog⟩)
    | again tail pc left =>
        rw [pc] at current pays
        obtain rfl : tail = (shared.queues i).tail := current
        have busy : latest.useful :=
          pays.resolve_right fun none => not_and_or.2 left (waiting_eq_zero.1 none)
        simp only [logIteration, pc]
        exact .top _ rfl (List.forall_mem_cons.2 ⟨busy, useful⟩)
    | _ =>
        have here := ‹w.pc = _›
        rw [here] at pays
        simp only [logIteration, here]
        exact .within latest earlier useful pays

end Worker

section Runs

variable {F : Type} [MetricArith F] {policy : Policy} {cfg : WorkloadConfig} {seed : UInt64}
  {i : Fin W}

theorem moves_unfinished {shared shared' : SharedState W} {gen gen' : Generator W} {label : Sys}
    (moved : GenMoves policy cfg seed shared gen label shared' gen') : gen.pc ≠ .finished := by
  cases moved with
  | _ =>
      have here := ‹gen.pc = _›
      simp [here]

theorem step_finished {s next : SimState W} {act : Act W} (finished : s.gen.pc = .finished)
    (taken : step F policy cfg seed s act = some next) (i : Fin W) :
    next.gen = s.gen ∧ next.shared.shutdown = s.shared.shutdown ∧
      ((∃ label op, act = .worker i label ∧
          Moves F policy cfg i s.shared (s.workers i) label op (next.workers i) ∧
          next.shared.queues i = op.onQueue (s.shared.queues i)) ∨
        (∀ label, act ≠ .worker i label) ∧ next.workers i = s.workers i ∧
          next.shared.queues i = s.shared.queues i) := by
  -- After the generator only a worker itself changes what it works on.
  cases act with
  | gen label => exact absurd finished (moves_unfinished (step_gen taken).1)
  | worker j label =>
      obtain ⟨op, moved, shared, gen, others⟩ := step_worker taken
      refine ⟨gen, by rw [shared]; rfl, ?_⟩
      by_cases self : i = j
      · subst self
        exact .inl ⟨label, op, rfl, moved, by simp [shared]⟩
      · refine .inr ⟨fun other same => ?_, others i self, by simp [shared, self]⟩
        cases same
        exact self rfl

structure Stopping (cfg : WorkloadConfig) (i : Fin W) (s : SimState W) : Prop where
  finished : s.gen.pc = .finished
  requested : s.shared.shutdown = 1
  current : (s.workers i).pc.Current (s.shared.queues i)
  settled : Settled (s.workers i)
  furnished : Furnished cfg (s.workers i)

theorem Stopping.top {s : SimState W} (finished : s.gen.pc = .finished)
    (requested : s.shared.shutdown = 1) (top : (s.workers i).pc = .stamp)
    (spec : (s.workers i).burstPending.isSome ∨ (s.workers i).burstBacklog ≠ [] →
      cfg.burst.isSome) : Stopping cfg i s where
  finished := finished
  requested := requested
  current := by
    rw [top]
    trivial
  settled := ⟨by rw [top]; rfl, by simp [top, Pc.drained]⟩
  furnished :=
    ⟨by simpa [Worker.followUps, top, Pc.burstIds] using spec, by simp [top, Pc.hanging],
      by simp [top, Pc.triggers], by rw [top]; rfl⟩

theorem step_stopping {s next : SimState W} {act : Act W} (inv : Stopping cfg i s)
    (taken : step F policy cfg seed s act = some next) : Stopping cfg i next := by
  obtain ⟨gen, shutdown, own | ⟨_, same, queue⟩⟩ := step_finished inv.finished taken i
  · obtain ⟨label, op, _, moved, queue⟩ := own
    refine ⟨gen ▸ inv.finished, shutdown.trans inv.requested, ?_, moves_settled inv.settled moved,
      moves_furnished inv.furnished moved⟩
    rw [queue]
    exact moves_current inv.current moved
  · refine ⟨gen ▸ inv.finished, shutdown.trans inv.requested, ?_, ?_, ?_⟩
    · rw [same, queue]
      exact inv.current
    · rw [same]
      exact inv.settled
    · rw [same]
      exact inv.furnished

structure Stopped (cfg : WorkloadConfig) (i : Fin W) (bound : Nat) (s : SimState W)
    (log : List Iteration) : Prop where
  stopping : Stopping cfg i s
  logged : Logged (s.shared.queues i) (s.workers i) log
  paid : spent log + (s.workers i).hangPending.isSome.toNat +
    (s.workers i).due (s.shared.queues i) ≤ bound

theorem step_stopped {bound : Nat} {s next : SimState W} {log : List Iteration} {act : Act W}
    (inv : Stopped cfg i bound s log) (taken : step F policy cfg seed s act = some next) :
    Stopped cfg i bound next (keepLog i s act log) := by
  have stopping := inv.stopping
  obtain ⟨gen, shutdown, own | ⟨other, same, queue⟩⟩ := step_finished stopping.finished taken i
  · obtain ⟨label, op, rfl, moved, queue⟩ := own
    have logged := moves_logged stopping.requested stopping.current stopping.settled moved inv.logged
    have paid := moves_due stopping.current stopping.furnished moved log
    rw [← queue] at logged paid
    simp only [keepLog, if_true]
    exact ⟨step_stopping stopping taken, logged, paid.trans inv.paid⟩
  · have unlogged : keepLog i s act log = log := by
      cases act with
      | gen label => rfl
      | worker j label => exact if_neg fun self => other label (by rw [self])
    rw [unlogged]
    refine ⟨step_stopping stopping taken, ?_, ?_⟩
    · rw [same, queue]
      exact inv.logged
    · rw [same, queue]
      exact inv.paid

/-- An infinite run, standing still or taking steps, in which worker `i` goes on until it exits. -/
structure FairRun (F : Type) [MetricArith F] (policy : Policy) (cfg : WorkloadConfig)
    (seed : UInt64) (i : Fin W) (run : Nat → SimState W) : Prop where
  steps : ∀ n, run (n + 1) = run n ∨
    ∃ act, step F policy cfg seed (run n) act = some (run (n + 1))
  fair : ∀ n, ((run n).workers i).pc ≠ .exited →
    ∃ m label, n ≤ m ∧ step F policy cfg seed (run m) (.worker i label) = some (run (m + 1))

theorem fairRun_exits {run : Nat → SimState W} (fair : FairRun F policy cfg seed i run)
    (start : Stopping cfg i (run 0)) : ∃ n, ((run n).workers i).pc = .exited := by
  have stopping (n : Nat) : Stopping cfg i (run n) := by
    induction n with
    | zero => exact start
    | succ n ih =>
        rcases fair.steps n with still | ⟨act, taken⟩
        · exact still ▸ ih
        · exact step_stopping ih taken
  let left (s : SimState W) := (s.workers i).left (s.shared.queues i)
  refine eventually (fun s : SimState W => (s.workers i).pc = .exited) left (fun n => ?_)
    fun n running => ?_
  · rcases fair.steps n with still | ⟨act, taken⟩
    · rw [still]
    · have inv := stopping n
      obtain ⟨_, _, own | ⟨_, same, queue⟩⟩ := step_finished inv.finished taken i
      · obtain ⟨label, op, _, moved, queue⟩ := own
        have fewer := moves_left inv.requested inv.current inv.settled moved
        rw [← queue] at fewer
        exact fewer.le
      · simp only [left, same, queue, le_refl]
  · obtain ⟨m, label, later, taken⟩ := fair.fair n running
    have inv := stopping m
    obtain ⟨_, _, own | ⟨other, _⟩⟩ := step_finished inv.finished taken i
    · obtain ⟨label, op, _, moved, queue⟩ := own
      have fewer := moves_left inv.requested inv.current inv.settled moved
      rw [← queue] at fewer
      exact ⟨m, later, fewer⟩
    · exact absurd rfl (other label)

theorem worker_stops {s : SimState W} (top : (s.workers i).pc = .stamp)
    (requested : s.shared.shutdown = 1) (finished : s.gen.pc = .finished)
    (spec : (s.workers i).burstPending.isSome ∨ (s.workers i).burstBacklog ≠ [] →
      cfg.burst.isSome) :
    (∀ acts final, exec (step F policy cfg seed) s acts = some final →
      ∃ log, exec (observed (step F policy cfg seed) (keepLog i)) (s, []) acts = some (final, log) ∧
        log.length ≤ 2 + (s.shared.queues i).depth + (s.workers i).burstBacklog.length +
          (if (s.workers i).burstPending.isSome then
            (s.workers i).openConns.length + (s.shared.queues i).depth else 0) ∧
        (∀ iteration ∈ log.tail, iteration.useful) ∧
        (∀ deadline, (final.workers i).pc ≠ .pollSleep deadline) ∧
        ((final.workers i).pc = .exited →
          (final.shared.queues i).depth = 0 ∧ (final.workers i).burstBacklog = []) ∧
        ((final.workers i).pc ≠ .exited → ∀ now, ∃ label : Sys, label.standsAt now ∧
          (step F policy cfg seed final (.worker i label)).isSome)) ∧
    ∀ run : Nat → SimState W, run 0 = s → FairRun F policy cfg seed i run →
      ∃ n, ((run n).workers i).pc = .exited := by
  have start := Stopping.top finished requested top spec
  refine ⟨fun acts final run => ?_, fun run first fair => fairRun_exits fair (first ▸ start)⟩
  obtain ⟨log, recorded⟩ := exec_observed (keepLog i) run []
  let bound := 1 + (s.workers i).due (s.shared.queues i)
  have initial : Stopped cfg i bound s [] := by
    refine ⟨start, .top [] top (by simp), ?_⟩
    have hang := Bool.toNat_le (s.workers i).hangPending.isSome
    simp only [spent, List.map_nil, List.sum_nil, bound]
    omega
  have inv : Stopped cfg i bound final log := by
    refine (exec_steps recorded).preserve (fun state => Stopped cfg i bound state.1 state.2) ?_
      initial
    intro state act next kept taken
    obtain ⟨moved, logged⟩ := (observed_eq_some ..).1 taken
    exact logged ▸ step_stopped kept moved
  have useful := inv.logged.tail_useful
  refine ⟨log, recorded, ?_, useful, fun deadline asleep => ?_, fun exited => ?_,
    fun running now => ?_⟩
  · have others : log.tail.length ≤ spent log.tail := length_le_spent useful
    have among : spent log.tail ≤ spent log := by
      cases log with
      | nil => exact le_rfl
      | cons current earlier => simp [spent]
    have paid := inv.paid
    rw [List.length_tail] at others
    simp only [bound, Worker.due, Worker.followUps, top, Pc.holding, Pc.burstIds, List.length_nil,
      List.nil_append, Nat.add_zero] at paid
    omega
  · obtain ⟨_, _, _, _, pays⟩ := inv.logged.current (by simp [asleep])
    rw [asleep] at pays
    exact pays
  · obtain ⟨_, _, _, _, pays⟩ := inv.logged.current (by simp [exited])
    rw [exited] at pays
    obtain ⟨empty, backlog⟩ := Nat.add_eq_zero_iff.1 pays
    exact ⟨empty, List.length_eq_zero_iff.1 backlog⟩
  · have furnished := inv.stopping.furnished
    have serving (serves : (final.workers i).pc.burstIds ≠ []) : cfg.burst.isSome :=
      furnished.burst (.inr (by simp [Worker.followUps, serves]))
    obtain ⟨label, still, ready⟩ : ∃ label : Sys, label.standsAt now ∧
        (workerStep F policy cfg i final.shared (final.workers i) label).isSome :=
      workerStep_ready now furnished.alive serving running final.shared
    exact ⟨label, still, by simpa [step] using ready⟩

end Runs

def oneWaiting : SimState 1 where
  -- The generator has finished before the worker has started.
  shared := { SharedState.zero 1 with
    shutdown := 1
    queues := fun _ => { ConnQueue.zero with tail := 1 } }
  gen := { Generator.initial 0 with pc := .finished }
  workers i := .initial hangAndBurst i 0

theorem worker_stops_hang_and_accept :
    ∃ final log, exec (observed (step Rat .reuseportHash hangAndBurst 0) (keepLog 0)) (oneWaiting, [])
        ((hangThenAccept ++ recordTick ++ lastTwo).map (.worker 0)) = some (final, log) ∧
      log.length ≤ 4 ∧ (∀ iteration ∈ log.tail, iteration.useful) ∧
      (final.shared.queues 0).depth = 0 := by
  have run : ((exec (step Rat .reuseportHash hangAndBurst 0) oneWaiting
      ((hangThenAccept ++ recordTick ++ lastTwo).map (.worker 0))).map fun final : SimState 1 =>
        (final.workers 0).pc.hasExited) = some true := by decide +kernel
  obtain ⟨final, executed, exited⟩ := Option.map_eq_some_iff.1 run
  obtain ⟨log, recorded, length, useful, _, empty, _⟩ :=
    (worker_stops (i := 0) rfl rfl rfl (fun _ => rfl)).1 _ final executed
  exact ⟨final, log, recorded, length, useful, (empty (Pc.hasExited_iff.1 exited)).1⟩

end MicroHermes.Sim
