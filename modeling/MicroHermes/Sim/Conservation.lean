import Mathlib.Algebra.BigOperators.Fin
import MicroHermes.Sim.QueueRuns
import MicroHermes.Sim.System

set_option autoImplicit false

namespace MicroHermes.Sim

open Transition

variable {W : Nat}

def Pc.popPc : Pc W → PopPc
  | .pop _ _ call => call
  | _ => .idle

def Pc.holding : Pc W → List ConnDesc
  -- Descriptors popped but not yet recorded.
  | .pop _ batch call => batch ++ call.result
  | .acceptAdd batch => batch
  | .acceptConn desc rest | .acceptDequeue desc rest | .acceptSleep desc rest _
  | .acceptDone desc rest _ | .acceptSub desc rest _ _ => desc :: rest
  | _ => []

def Worker.accepted (w : Worker W) : List ConnRow := w.conns.filter fun row => row.kind = .accept

def GenPc.pushPc (i : Fin W) : GenPc W → PushPc
  | .push target call => if target = i then call else .idle
  | _ => .idle

def pushedTo (i : Fin W) (sent : List (Sent W)) : List ConnDesc :=
  (sent.filter fun e => e.target = i ∧ e.pushed).map Sent.desc

section Continuations

variable (policy : Policy)

@[simp] theorem endOfLoop_popPc : (endOfLoop policy : Pc W).popPc = .idle := by
  unfold endOfLoop
  split <;> rfl

@[simp] theorem nextBurst_popPc (ids : List Nat) : (nextBurst policy ids : Pc W).popPc = .idle := by
  cases ids with
  | nil => exact endOfLoop_popPc policy
  | cons connId rest => rfl

@[simp] theorem nextAccept_popPc (batch : List ConnDesc) :
    (nextAccept policy batch : Pc W).popPc = .idle := by
  cases batch with
  | nil => exact endOfLoop_popPc policy
  | cons desc rest => rfl

@[simp] theorem endOfLoop_holding : (endOfLoop policy : Pc W).holding = [] := by
  unfold endOfLoop
  split <;> rfl

@[simp] theorem nextBurst_holding (ids : List Nat) :
    (nextBurst policy ids : Pc W).holding = [] := by
  cases ids with
  | nil => exact endOfLoop_holding policy
  | cons connId rest => rfl

@[simp] theorem nextAccept_holding (batch : List ConnDesc) :
    (nextAccept policy batch : Pc W).holding = batch := by
  cases batch with
  | nil => exact endOfLoop_holding policy
  | cons desc rest => rfl

theorem pollStep_holding (deadline : Int) (batch : List ConnDesc) (pop : PopPc) :
    (pollStep deadline batch pop : Pc W).holding = batch ++ pop.result := by
  unfold pollStep
  split
  · split <;> simp [Pc.holding, PopPc.result]
  · split
    · next empty => simp [Pc.holding, PopPc.result, List.isEmpty_iff.1 empty]
    · simp [Pc.holding, PopPc.result]
  · rfl

theorem popStep_result (queue : ConnQueue) (pop : PopPc) :
    (popStep queue pop).2.result = pop.result ++ pop.takes := by
  cases pop with
  | loadTail head =>
      by_cases empty : head = queue.tail <;>
        simp [popStep, empty, PopPc.takes, PopPc.result]
  | idle | loadHead | readSlot _ | storeHead _ _ => rfl
  | returned result => exact (List.append_nil _).symm

theorem pollStep_popPc (deadline : Int) (batch : List ConnDesc) (pop : PopPc) :
    (pollStep deadline batch pop : Pc W).popPc = pop ∨
      (pollStep deadline batch pop : Pc W).popPc = .loadHead ∨
      (pollStep deadline batch pop : Pc W).popPc = .idle := by
  -- Between two calls of `pop` the worker is about to load the head or not popping at all.
  unfold pollStep
  split
  · split
    · exact .inr (.inl rfl)
    · exact .inr (.inr rfl)
  · split <;> exact .inr (.inr rfl)
  · exact .inl rfl

end Continuations

section Worker

variable {F : Type} [MetricArith F] {policy : Policy} {cfg : WorkloadConfig} {i : Fin W}

theorem Moves.queue {shared : SharedState W} {w w' : Worker W} {label : Sys} {op : MemOp}
    (moved : Moves F policy cfg i shared w label op w') :
    (∃ deadline batch, w.pc = .pop deadline batch w.pc.popPc ∧
      op = .queue (popStep (shared.queues i) w.pc.popPc).1 ∧
      w'.popped = w.popped ++ w.pc.popPc.takes ∧
      w'.pc = pollStep deadline batch (popStep (shared.queues i) w.pc.popPc).2) ∨
    w.pc.popPc = .idle ∧ (∀ queue, op.onQueue queue = queue) ∧ w'.popped = w.popped ∧
      (w'.pc.popPc = .idle ∨ w'.pc.popPc = .loadHead) := by
  cases moved with
  | pop deadline batch call pc =>
      refine .inl ⟨deadline, batch, ?_⟩
      simp [pc, Pc.popPc, popReturns_eq_takes]
  | pollDeadline _ pc | pollSlept _ pc =>
      exact .inr ⟨by rw [pc]; rfl, fun _ => rfl, rfl, .inr rfl⟩
  | burstAdd ids pc =>
      exact .inr ⟨by rw [pc]; rfl, fun _ => rfl, rfl, .inl (nextBurst_popPc policy ids)⟩
  | burstSub _ rest _ _ _ pc _ =>
      exact .inr ⟨by rw [pc]; rfl, fun _ => rfl, rfl, .inl (nextBurst_popPc policy rest)⟩
  | acceptAdd batch pc =>
      exact .inr ⟨by rw [pc]; rfl, fun _ => rfl, rfl, .inl (nextAccept_popPc policy batch)⟩
  | acceptSub _ rest _ _ pc =>
      exact .inr ⟨by rw [pc]; rfl, fun _ => rfl, rfl, .inl (nextAccept_popPc policy rest)⟩
  | _ => exact .inr ⟨by rw [‹w.pc = _›]; rfl, fun _ => rfl, rfl, .inl rfl⟩

structure Served (i : Fin W) (w : Worker W) : Prop where
  -- Every descriptor popped has its row or waits for it, and the rows carry the worker's number.
  rows : w.popped.map ConnDesc.connId =
    w.accepted.map ConnRow.connId ++ w.pc.holding.map ConnDesc.connId
  shard : ∀ row ∈ w.conns, row.workerId = i.val

theorem served_initial (start : Int) : Served i (Worker.initial cfg i start) where
  rows := rfl
  shard := by simp [Worker.initial]

theorem moves_rows {α : Type} {key : ConnDesc → α} {read : ConnRow → α}
    (faithful : ∀ desc dequeueNs doneNs,
      read (acceptRow policy i desc dequeueNs doneNs) = key desc)
    {shared : SharedState W} {w w' : Worker W} {label : Sys} {op : MemOp}
    (moved : Moves F policy cfg i shared w label op w')
    (rows : w.popped.map key = w.accepted.map read ++ w.pc.holding.map key) :
    w'.popped.map key = w'.accepted.map read ++ w'.pc.holding.map key := by
  -- What a row tells of its descriptor, every descriptor popped has told or has still to tell.
  cases moved with
  | pop deadline batch call pc =>
      simp only [pc, Pc.holding] at rows
      simp only [pollStep_holding, popStep_result, popReturns_eq_takes, List.map_append, rows,
        Worker.accepted, List.append_assoc]
  | burstSub connId rest dequeueNs doneNs burst pc configured =>
      simp only [pc, Pc.holding, Worker.accepted] at rows
      simpa [Worker.accepted, burstRow] using rows
  | acceptSub desc rest dequeueNs doneNs pc =>
      have accepted : Worker.accepted { w with
          openConns := w.openConns ++ [(desc.connId, doneNs + desc.lifetimeMs.toNat * 1000000)]
          conns := w.conns ++ [acceptRow policy i desc dequeueNs doneNs]
          pc := nextAccept policy rest } =
          w.accepted ++ [acceptRow policy i desc dequeueNs doneNs] := by
        simp [Worker.accepted, acceptRow]
      simp only [pc, Pc.holding] at rows
      rw [accepted, nextAccept_holding, List.map_append, List.map_singleton, faithful]
      simpa using rows
  | burstAdd ids pc =>
      rw [pc] at rows
      rwa [nextBurst_holding]
  | acceptAdd batch pc =>
      rw [pc] at rows
      rwa [nextAccept_holding]
  | _ =>
      rw [‹w.pc = _›] at rows
      exact rows

theorem moves_shard {shared : SharedState W} {w w' : Worker W} {label : Sys} {op : MemOp}
    (moved : Moves F policy cfg i shared w label op w')
    (shard : ∀ row ∈ w.conns, row.workerId = i.val) : ∀ row ∈ w'.conns, row.workerId = i.val := by
  cases moved with
  | burstSub connId rest dequeueNs doneNs burst pc configured =>
      exact List.forall_mem_append.2 ⟨shard, List.forall_mem_singleton.2 rfl⟩
  | acceptSub desc rest dequeueNs doneNs pc =>
      exact List.forall_mem_append.2 ⟨shard, List.forall_mem_singleton.2 rfl⟩
  | _ => exact shard

theorem moves_served {shared : SharedState W} {w w' : Worker W} {label : Sys} {op : MemOp}
    (moved : Moves F policy cfg i shared w label op w') (inv : Served i w) : Served i w' where
  rows := moves_rows (fun _ _ _ => rfl) moved inv.rows
  shard := moves_shard moved inv.shard

def StopInv (gen : Generator W) (queue : ConnQueue) : Pc W → Prop
  | .exitTail => gen.pc = .finished
  | .exitHead tail => gen.pc = .finished ∧ tail = queue.tail
  | .exited => gen.pc = .finished ∧ queue.depth = 0
  | _ => True

theorem stopInv_endOfLoop (gen : Generator W) (queue : ConnQueue) :
    StopInv gen queue (endOfLoop policy) := by
  unfold endOfLoop
  split <;> trivial

theorem stopInv_nextBurst (gen : Generator W) (queue : ConnQueue) (ids : List Nat) :
    StopInv gen queue (nextBurst policy ids) := by
  cases ids with
  | nil => exact stopInv_endOfLoop gen queue
  | cons connId rest => trivial

theorem stopInv_nextAccept (gen : Generator W) (queue : ConnQueue) (batch : List ConnDesc) :
    StopInv gen queue (nextAccept policy batch) := by
  cases batch with
  | nil => exact stopInv_endOfLoop gen queue
  | cons desc rest => trivial

theorem stopInv_pollStep (gen : Generator W) (queue : ConnQueue) (deadline : Int)
    (batch : List ConnDesc) (pop : PopPc) :
    StopInv gen queue (pollStep deadline batch pop) := by
  unfold pollStep
  split
  · split <;> trivial
  · split <;> trivial
  · trivial

theorem StopInv.running {gen gen' : Generator W} {queue queue' : ConnQueue} {pc : Pc W}
    (inv : StopInv gen queue pc) (running : gen.pc ≠ .finished) : StopInv gen' queue' pc := by
  cases pc with
  | exitTail => exact absurd inv running
  | exitHead _ | exited => exact absurd inv.1 running
  | _ => trivial

theorem moves_stopInv {shared : SharedState W} {gen : Generator W} {queue : ConnQueue}
    {w w' : Worker W} {label : Sys} {op : MemOp} (moved : Moves F policy cfg i shared w label op w')
    (requested : shared.shutdown = 1 → gen.pc = .finished)
    (tail : w.pc = .exitTail → (shared.queues i).tail = queue.tail)
    (head : (shared.queues i).head = queue.head) (inv : StopInv gen queue w.pc) :
    StopInv gen (op.onQueue queue) w'.pc := by
  -- The flag is read before the queue, so a worker that saw it and then reads the tail of `queue`
  -- knows the final tail.
  cases moved with
  | pop deadline batch call pc => exact stopInv_pollStep ..
  | burstAdd ids pc => exact stopInv_nextBurst ..
  | burstSub connId rest dequeueNs doneNs burst pc configured => exact stopInv_nextBurst ..
  | acceptAdd batch pc => exact stopInv_nextAccept ..
  | acceptSub desc rest dequeueNs doneNs pc => exact stopInv_nextAccept ..
  | exitRequested pc flag => exact requested flag
  | exitTail pc =>
      have newest := tail pc
      rw [pc] at inv
      exact ⟨inv, newest⟩
  | exit last pc empty backlog =>
      rw [pc] at inv
      refine ⟨inv.1, ?_⟩
      rw [inv.2, head] at empty
      simp [ConnQueue.depth, MemOp.onQueue, empty]
  | _ => trivial

end Worker

section Ring

variable {F : Type} [MetricArith F] {policy : Policy} {cfg : WorkloadConfig} {seed : UInt64}
  {i : Fin W}

def queueRun (i : Fin W) (shared : SharedState W) (gen : Generator W) (w : Worker W) : QueueRun where
  queue := shared.queues i
  push := gen.pc.pushPc i
  pop := w.pc.popPc
  pushed := pushedTo i gen.sent
  popped := w.popped

theorem queueRun_consume {shared : SharedState W} {gen : Generator W} {w w' : Worker W}
    {label : Sys} {op : MemOp} (moved : Moves F policy cfg i shared w label op w')
    (inv : QueueRun.Inv 0 (queueRun i shared gen w)) :
    QueueRun.Inv 0 (queueRun i (shared.apply i op) gen w') := by
  rcases moved.queue with ⟨deadline, batch, _, rfl, popped, pc⟩ | ⟨_, kept, popped, pc⟩
  · have popping := inv.afterPop
    have after : queueRun i (shared.apply i (.queue (popStep (shared.queues i) w.pc.popPc).1)) gen w' =
        { queueRun i shared gen w with
          queue := (popStep (shared.queues i) w.pc.popPc).1
          pop := w'.pc.popPc
          popped := w.popped ++ w.pc.popPc.takes } := by
      simp [queueRun, popped, MemOp.onQueue]
    rw [after, pc]
    rcases pollStep_popPc (W := W) deadline batch (popStep (shared.queues i) w.pc.popPc).2 with
      same | fresh | fresh
    · rw [same]
      exact popping
    · rw [fresh]
      exact popping.withPop trivial
    · rw [fresh]
      exact popping.withPop trivial
  · have after : queueRun i (shared.apply i op) gen w' =
        { queueRun i shared gen w with pop := w'.pc.popPc } := by
      simp [queueRun, popped, kept]
    rw [after]
    rcases pc with fresh | fresh
    · rw [fresh]
      exact inv.withPop trivial
    · rw [fresh]
      exact inv.withPop trivial

theorem pushedTo_append (sent : List (Sent W)) (last : Sent W) :
    pushedTo i (sent ++ [last]) =
      pushedTo i sent ++ if last.target = i ∧ last.pushed then [last.desc] else [] := by
  by_cases counted : last.target = i ∧ last.pushed <;> simp [pushedTo, counted]

variable (cfg) in
theorem afterPush_other (g : Generator W) {target : Fin W} (other : target ≠ i)
    (call next : PushPc) :
    (afterPush cfg g target call next).pc.pushPc i = .idle ∧
      pushedTo i (afterPush cfg g target call next).sent = pushedTo i g.sent := by
  unfold afterPush
  split
  · simp [Generator.complete, GenPc.pushPc, pushedTo_append, other]
  · split <;> simp [GenPc.pushPc, other]
  · simp [GenPc.pushPc, other]

variable (cfg i) in
theorem afterPush_self (g : Generator W) (call next : PushPc) :
    ((afterPush cfg g i call next).pc.pushPc i = next ∨
      (afterPush cfg g i call next).pc.pushPc i = .idle) ∧
      pushedTo i (afterPush cfg g i call next).sent = pushedTo i g.sent ++ call.publishes := by
  unfold afterPush
  split
  · exact ⟨.inr rfl, by simp [Generator.complete, pushedTo_append, PushPc.publishes]⟩
  · split
    · exact ⟨.inr rfl, by simp [PushPc.publishes]⟩
    · exact ⟨.inl (by simp [GenPc.pushPc]), by simp [PushPc.publishes]⟩
  · next ending _ =>
      refine ⟨.inl (by simp [GenPc.pushPc]), ?_⟩
      cases call with
      | storeTail desc tail => exact (ending desc tail rfl).elim
      | idle | loadTail _ | loadHead _ _ | writeSlot _ _ | returned _ => simp [PushPc.publishes]

theorem queueRun_kept {shared shared' : SharedState W} {gen gen' : Generator W} {w : Worker W}
    (inv : QueueRun.Inv 0 (queueRun i shared gen w))
    (queue : shared'.queues i = shared.queues i) (call : gen'.pc.pushPc i = gen.pc.pushPc i)
    (pushed : pushedTo i gen'.sent = pushedTo i gen.sent) :
    QueueRun.Inv 0 (queueRun i shared' gen' w) := by
  simpa only [queueRun, queue, call, pushed] using inv

theorem queueRun_produce {shared shared' : SharedState W} {gen gen' : Generator W} {w : Worker W}
    {label : Sys} (moved : GenMoves policy cfg seed shared gen label shared' gen')
    (inv : QueueRun.Inv 0 (queueRun i shared gen w)) :
    QueueRun.Inv 0 (queueRun i shared' gen' w) := by
  cases moved with
  | push target call pc =>
      by_cases self : target = i
      · subst self
        have current : gen.pc.pushPc target = call := by simp [pc, GenPc.pushPc]
        have pushing := inv.afterPush
        obtain ⟨call', pushed⟩ := afterPush_self cfg target gen call
          (pushStep (shared.queues target) call).2
        simp only [queueRun, current, Function.update_self, pushed] at pushing ⊢
        rcases call' with same | fresh
        · rw [same]
          exact pushing
        · rw [fresh]
          exact pushing.withPush trivial
      · obtain ⟨call', pushed⟩ := afterPush_other cfg gen self call
          (pushStep (shared.queues target) call).2
        refine queueRun_kept inv (Function.update_of_ne (Ne.symm self) ..) ?_ pushed
        rw [call', pc]
        simp [GenPc.pushPc, self]
  | describe now target pc =>
      by_cases self : target = i
      · have calling : QueueRun.Inv 0 { queueRun i shared gen w with
            push := .loadTail (describe cfg seed gen.generated now) } := inv.withPush trivial
        simpa [queueRun, GenPc.pushPc, self, Generator.count] using calling
      · refine queueRun_kept inv rfl ?_ rfl
        simp [pc, GenPc.pushPc, self]
  | drop target desc pc =>
      refine queueRun_kept inv rfl ?_ ?_
      · simp [pc, GenPc.pushPc, Generator.complete]
      · simp [Generator.complete, pushedTo_append]
  | dispatch scan pc =>
      refine queueRun_kept inv rfl ?_ rfl
      rw [pc]
      cases dispatchStep policy shared (connHash seed gen.generated) scan <;> rfl
  | _ =>
      refine queueRun_kept inv rfl ?_ rfl
      simp [‹gen.pc = _›, GenPc.pushPc]

end Ring

section Ledger

variable {policy : Policy} {cfg : WorkloadConfig} {seed : UInt64}

def PushPc.inHand : PushPc → Option ConnDesc
  | .loadTail desc | .loadHead desc _ | .writeSlot desc _ | .storeTail desc _ => some desc
  | .idle | .returned _ => none

def GenPc.inHand : GenPc W → Option ConnDesc
  | .push _ call => call.inHand
  | .drop _ desc => some desc
  | _ => none

def GenPc.handing : GenPc W → Option (Fin W)
  -- The worker whose connection is counted but not yet pushed or dropped.
  | .push target _ | .drop target _ => some target
  | _ => none

structure Ledger (gen : Generator W) (drops : Fin W → Nat) : Prop where
  ids : gen.sent.map (fun e => e.desc.connId) = List.range gen.generated
  current : ∀ desc, gen.pc.inHand = some desc → desc.connId = gen.generated
  dispatched : ∀ i, gen.dispatchedPerWorker i =
    gen.sent.countP (fun e => e.target = i) + if gen.pc.handing = some i then 1 else 0
  drops : ∀ i, drops i = gen.sent.countP fun e => e.target = i ∧ e.pushed = false
  dropped : gen.dropped = gen.sent.countP fun e => e.pushed = false

theorem ledger_initial (start : Int) (drops : Fin W → Nat) (zero : ∀ i, drops i = 0) :
    Ledger (Generator.initial start) drops where
  ids := rfl
  current := by simp [Generator.initial, GenPc.inHand]
  dispatched := by simp [Generator.initial, GenPc.handing]
  drops := by simpa [Generator.initial] using zero
  dropped := rfl

theorem Ledger.kept {gen gen' : Generator W} {drops : Fin W → Nat} (inv : Ledger gen drops)
    (sent : gen'.sent = gen.sent) (generated : gen'.generated = gen.generated)
    (counts : gen'.dispatchedPerWorker = gen.dispatchedPerWorker)
    (dropped : gen'.dropped = gen.dropped) (handing : gen'.pc.handing = gen.pc.handing)
    (inHand : gen'.pc.inHand = gen.pc.inHand) : Ledger gen' drops := by
  obtain ⟨ids, current, dispatched, drops, droppedInv⟩ := inv
  constructor
  · rw [sent, generated, ids]
  · rwa [inHand, generated]
  · rwa [counts, sent, handing]
  · rwa [sent]
  · rwa [dropped, sent]

theorem Ledger.pushed {gen : Generator W} {drops : Fin W → Nat} (inv : Ledger gen drops)
    {target : Fin W} {desc : ConnDesc} (handing : gen.pc.handing = some target)
    (inHand : gen.pc.inHand = some desc) : Ledger (gen.complete cfg ⟨desc, target, true⟩) drops where
  ids := by
    simp [Generator.complete, inv.ids, inv.current desc inHand, List.range_succ]
  current := by simp [Generator.complete, GenPc.inHand]
  dispatched i := by
    have counts := inv.dispatched i
    rw [handing] at counts
    simpa [Generator.complete, GenPc.handing, List.countP_append, List.countP_cons] using counts
  drops i := by simpa [Generator.complete, List.countP_append] using inv.drops i
  dropped := by simpa [Generator.complete, List.countP_append] using inv.dropped

theorem Ledger.rejected {gen : Generator W} {drops : Fin W → Nat} (inv : Ledger gen drops)
    {target : Fin W} {desc : ConnDesc} (handing : gen.pc.handing = some target)
    (inHand : gen.pc.inHand = some desc) :
    Ledger ({ gen with dropped := gen.dropped + 1 }.complete cfg ⟨desc, target, false⟩)
      (Function.update drops target (drops target + 1)) where
  ids := by
    simp [Generator.complete, inv.ids, inv.current desc inHand, List.range_succ]
  current := by simp [Generator.complete, GenPc.inHand]
  dispatched i := by
    have counts := inv.dispatched i
    rw [handing] at counts
    simpa [Generator.complete, GenPc.handing, List.countP_append, List.countP_cons] using counts
  drops i := by
    have counts := inv.drops i
    by_cases self : i = target
    · subst self
      simp [Generator.complete, List.countP_append, counts]
    · simp [Generator.complete, List.countP_append, counts, self, Ne.symm self]
  dropped := by simp [Generator.complete, List.countP_append, inv.dropped]

theorem moves_ledger {shared shared' : SharedState W} {gen gen' : Generator W} {label : Sys}
    (moved : GenMoves policy cfg seed shared gen label shared' gen')
    (inv : Ledger gen shared.drops) : Ledger gen' shared'.drops := by
  cases moved with
  | push target call pc =>
      have handing : gen.pc.handing = some target := by rw [pc]; rfl
      have inHand : gen.pc.inHand = call.inHand := by rw [pc]; rfl
      cases call with
      | storeTail desc tail => exact inv.pushed handing inHand
      | loadHead desc tail =>
          simp only [afterPush, pushStep]
          split
          · exact inv.kept rfl rfl rfl rfl handing.symm inHand.symm
          · refine inv.kept rfl rfl rfl rfl handing.symm (.trans ?_ inHand.symm)
            split <;> rfl
      | idle | loadTail _ | writeSlot _ _ | returned _ =>
          exact inv.kept rfl rfl rfl rfl handing.symm inHand.symm
  | drop target desc pc =>
      exact inv.rejected (by rw [pc]; rfl) (by rw [pc]; rfl)
  | describe now target pc =>
      refine ⟨inv.ids, ?_, fun i => ?_, inv.drops, inv.dropped⟩
      · rintro desc ⟨rfl⟩
        rfl
      · have counts := inv.dispatched i
        rw [pc] at counts
        by_cases self : i = target
        · subst self
          simpa [Generator.count, GenPc.handing] using counts
        · simpa [Generator.count, GenPc.handing, self, Ne.symm self] using counts
  | dispatch scan pc =>
      refine inv.kept rfl rfl rfl rfl ?_ ?_ <;> rw [pc] <;>
        cases dispatchStep policy shared (connHash seed gen.generated) scan <;> rfl
  | _ => exact inv.kept rfl rfl rfl rfl (by rw [‹gen.pc = _›]; rfl) (by rw [‹gen.pc = _›]; rfl)

end Ledger

section Runs

variable {F : Type} [MetricArith F] {policy : Policy} {cfg : WorkloadConfig} {seed : UInt64}

structure SimInv (i : Fin W) (shared : SharedState W) (gen : Generator W) (w : Worker W) : Prop where
  ring : QueueRun.Inv 0 (queueRun i shared gen w)
  served : Served i w
  requested : shared.shutdown ≠ 0 → gen.pc = .finished
  stop : StopInv gen (shared.queues i) w.pc

theorem simInv_initial (genStart : Int) (starts : Fin W → Int) (i : Fin W) :
    SimInv i (initial cfg genStart starts).shared (initial cfg genStart starts).gen
      ((initial cfg genStart starts).workers i) where
  ring := QueueRun.inv_initial 0 _
  served := served_initial (starts i)
  requested := fun requested => (requested rfl).elim
  stop := trivial

theorem moves_requested {shared shared' : SharedState W} {gen gen' : Generator W} {label : Sys}
    (moved : GenMoves policy cfg seed shared gen label shared' gen')
    (inv : shared.shutdown ≠ 0 → gen.pc = .finished) :
    gen.pc ≠ .finished ∧ (shared'.shutdown ≠ 0 → gen'.pc = .finished) := by
  have running := moved.running
  refine ⟨running, ?_⟩
  cases moved with
  | shutdown pc => exact fun _ => rfl
  | _ => exact fun requested => absurd (inv requested) running

theorem run_simInv {s s' : SimState W} (steps : Steps (step F policy cfg seed) s s')
    (holds : ∀ i, SimInv i s.shared s.gen (s.workers i)) :
    ∀ i, SimInv i s'.shared s'.gen (s'.workers i) := by
  refine preserve_each ?_ ?_ ?_ steps holds
  · intro i shared gen w label op w' inv moved
    refine ⟨queueRun_consume moved inv.ring, moves_served moved inv.served, inv.requested, ?_⟩
    rw [SharedState.apply_queue_self]
    exact moves_stopInv moved (fun flag => inv.requested (by rw [flag]; decide)) (fun _ => rfl) rfl
      inv.stop
  · intro i j shared gen w op inv other
    refine ⟨?_, inv.served, inv.requested, ?_⟩
    · simpa only [queueRun, SharedState.apply_queue_other shared op other] using inv.ring
    · rw [SharedState.apply_queue_other shared op other]
      exact inv.stop
  · intro i shared gen w label shared' gen' inv moved
    obtain ⟨running, requested⟩ := moves_requested moved inv.requested
    exact ⟨queueRun_produce moved inv.ring, inv.served, requested, inv.stop.running running⟩

theorem run_ledger {s s' : SimState W} (steps : Steps (step F policy cfg seed) s s')
    (holds : Ledger s.gen s.shared.drops) : Ledger s'.gen s'.shared.drops := by
  refine Steps.preserve (fun s => Ledger s.gen s.shared.drops) ?_ steps holds
  intro s act next inv taken
  cases act with
  | gen label => exact moves_ledger (step_gen taken).1 inv
  | worker i label =>
      obtain ⟨op, _, shared, gen, _⟩ := step_worker taken
      rw [shared, gen]
      exact inv

theorem SimInv.exited {i : Fin W} {shared : SharedState W} {gen : Generator W} {w : Worker W}
    (inv : SimInv i shared gen w) (exited : w.pc = .exited) :
    w.accepted.map ConnRow.connId = (pushedTo i gen.sent).map ConnDesc.connId := by
  have stop := inv.stop
  have rows := inv.served.rows
  rw [exited] at stop rows
  have drained : w.popped = pushedTo i gen.sent := inv.ring.drained stop.2
  rw [← drained, rows]
  simp [Pc.holding]

theorem sum_countP {α : Type} (target : α → Fin W) (p : α → Prop) [DecidablePred p]
    (entries : List α) :
    ∑ i, entries.countP (fun e => target e = i ∧ p e) = entries.countP p := by
  induction entries with
  | nil => simp
  | cons e rest ih =>
      simp only [List.countP_cons, Finset.sum_add_distrib, ih]
      by_cases counted : p e <;> simp [counted]

theorem pushedTo_length (i : Fin W) (sent : List (Sent W)) :
    sent.countP (fun e => e.target = i) =
      (pushedTo i sent).length + sent.countP fun e => e.target = i ∧ e.pushed = false := by
  induction sent with
  | nil => rfl
  | cons e rest ih =>
      by_cases here : e.target = i <;> cases outcome : e.pushed <;>
        simp_all [pushedTo] <;> omega

theorem Ledger.dispatched_eq {gen : Generator W} {drops : Fin W → Nat} (inv : Ledger gen drops)
    (idle : gen.pc.handing = none) (i : Fin W) :
    gen.dispatchedPerWorker i = (pushedTo i gen.sent).length + drops i := by
  have counts := inv.dispatched i
  rw [idle] at counts
  rw [counts, inv.drops i, pushedTo_length]
  rfl

theorem Ledger.generated_eq_sum {gen : Generator W} {drops : Fin W → Nat}
    (inv : Ledger gen drops) (idle : gen.pc.handing = none) :
    gen.generated = ∑ i, gen.dispatchedPerWorker i := by
  have count := congrArg List.length inv.ids
  simp only [List.length_map, List.length_range] at count
  have total := sum_countP (fun e : Sent W => e.target) (fun _ => True) gen.sent
  simp only [and_true] at total
  simp [inv.dispatched, idle, total, count]

theorem Ledger.dropped_eq_sum {gen : Generator W} {drops : Fin W → Nat}
    (inv : Ledger gen drops) : gen.dropped = ∑ i, drops i := by
  have total := sum_countP (fun e : Sent W => e.target) (fun e => e.pushed = false) gen.sent
  rw [inv.dropped, ← total]
  exact Finset.sum_congr rfl fun i _ => (inv.drops i).symm

theorem SimInv.accepted_length {i : Fin W} {shared : SharedState W} {gen : Generator W}
    {w : Worker W} (inv : SimInv i shared gen w) (exited : w.pc = .exited) :
    w.accepted.length = (pushedTo i gen.sent).length := by
  have count := congrArg List.length (inv.exited exited)
  rwa [List.length_map, List.length_map] at count

theorem pushedTo_nodup {sent : List (Sent W)} {n : Nat}
    (ids : sent.map (fun e => e.desc.connId) = List.range n) (i : Fin W) :
    ((pushedTo i sent).map ConnDesc.connId).Nodup := by
  have distinct : (sent.map fun e => e.desc.connId).Nodup := ids ▸ List.nodup_range
  rw [pushedTo, List.map_map]
  exact distinct.sublist (List.filter_sublist.map _)

theorem count_pushedTo {sent : List (Sent W)} {n : Nat}
    (ids : sent.map (fun e => e.desc.connId) = List.range n) {e : Sent W} (member : e ∈ sent)
    (i : Fin W) :
    ((pushedTo i sent).map ConnDesc.connId).count e.desc.connId =
      if e.target = i ∧ e.pushed then 1 else 0 := by
  have distinct : (sent.map fun e => e.desc.connId).Nodup := ids ▸ List.nodup_range
  rw [(pushedTo_nodup ids i).count]
  refine if_congr ⟨fun recorded => ?_, fun counted => ?_⟩ rfl rfl
  · obtain ⟨desc, pushed, recorded⟩ := List.mem_map.1 recorded
    obtain ⟨e', kept, rfl⟩ := List.mem_map.1 pushed
    obtain ⟨member', counted⟩ := List.mem_filter.1 kept
    rw [← List.inj_on_of_nodup_map distinct member' member recorded]
    simpa using counted
  · refine List.mem_map.2 ⟨e.desc, List.mem_map.2 ⟨e, ?_, rfl⟩, rfl⟩
    exact List.mem_filter.2 ⟨member, by simpa using counted⟩

theorem SimInv.popped_nodup {i : Fin W} {shared : SharedState W} {gen : Generator W} {w : Worker W}
    (inv : SimInv i shared gen w) {drops : Fin W → Nat} (ledger : Ledger gen drops) :
    (w.popped.map ConnDesc.connId).Nodup := by
  have prefixed : w.popped = (pushedTo i gen.sent).take w.popped.length := inv.ring.prefixed
  rw [prefixed]
  exact (pushedTo_nodup ledger.ids i).sublist ((List.take_sublist ..).map _)

theorem connections_conserved {genStart : Int} {starts : Fin W → Int} {acts : List (Act W)}
    {s : SimState W}
    (run : exec (step F policy cfg seed) (initial cfg genStart starts) acts = some s)
    (requested : s.gen.pc = .finished) (exited : ∀ i, (s.workers i).pc = .exited) :
    s.gen.sent.map (fun e => e.desc.connId) = List.range s.gen.generated ∧
    (∀ e ∈ s.gen.sent, ∀ i,
      ((s.workers i).accepted.map ConnRow.connId).count e.desc.connId =
        if e.target = i ∧ e.pushed then 1 else 0) ∧
    (∀ i, s.shared.drops i = s.gen.sent.countP fun e => e.target = i ∧ e.pushed = false) ∧
    (∀ i, (s.workers i).accepted.map ConnRow.connId =
      (pushedTo i s.gen.sent).map ConnDesc.connId) ∧
    (∀ i, ∀ row ∈ (s.workers i).conns, row.workerId = i.val) ∧
    (∀ i, s.gen.dispatchedPerWorker i = (s.workers i).accepted.length + s.shared.drops i) ∧
    s.gen.generated = ∑ i, s.gen.dispatchedPerWorker i ∧
    s.gen.dropped = ∑ i, s.shared.drops i := by
  have steps := exec_steps run
  have inv := run_simInv steps (simInv_initial genStart starts)
  have ledger := run_ledger steps (ledger_initial genStart _ fun _ => rfl)
  have rows i := (inv i).exited (exited i)
  have idle : s.gen.pc.handing = none := by rw [requested]; rfl
  refine ⟨ledger.ids, ?_, ledger.drops, rows, fun i => (inv i).served.shard, fun i => ?_,
    ledger.generated_eq_sum idle, ledger.dropped_eq_sum⟩
  · intro e member i
    rw [rows i]
    exact count_pushedTo ledger.ids member i
  · rw [ledger.dispatched_eq idle, (inv i).accepted_length (exited i)]

end Runs

def hangAndBurst : WorkloadConfig where
  -- One worker, one connection, a hang and a burst.
  intervalNs := 1
  durationNs := 1
  service := .fixed 1000
  lifetimeNs := 1000000
  hang := some ⟨0, 0, 5⟩
  burst := some ⟨10, 1000⟩

def sendOne : List Sys :=
  [.internal, .clock 0, .internal, .clock 1] ++ List.replicate 4 .internal

def hangThenAccept : List Sys :=
  -- The hang, then an iteration that accepts one connection.
  [.clock 0, .clock 0, .internal, .clock 2, .internal, .clock 2, .internal, .clock 2, .internal,
    .clock 2] ++ List.replicate 8 .internal ++ [.clock 3, .internal, .clock 4, .internal]

def burstOne : List Sys :=
  -- An iteration that serves the follow-up of one open connection.
  [.clock 12, .internal, .clock 12, .internal, .internal, .clock 12, .clock 12, .internal, .internal,
    .clock 12, .internal, .clock 13, .internal]

-- The tick row and the load of the shutdown flag.
def recordTick : List Sys := .clock 13 :: List.replicate 7 .internal

-- The last loop test and the shutdown of the generator, or the rest of a worker's exit test.
def lastTwo : List Sys := [.internal, .internal]

theorem connections_conserved_hang_and_burst :
    ∃ s : SimState 1, ((s.workers 0).conns.map fun row => (row.connId, row.kind)) =
        [(0, .accept), (0, .burst)] ∧
      s.gen.dispatchedPerWorker 0 = (s.workers 0).accepted.length + s.shared.drops 0 := by
  have run : ((exec (step Rat .reuseportHash hangAndBurst 0) (initial hangAndBurst 0 fun _ => 0)
      (sendOne.map .gen ++ (hangThenAccept ++ recordTick).map (.worker 0) ++ lastTwo.map .gen ++
        (burstOne ++ recordTick ++ lastTwo).map (.worker 0))).map fun s : SimState 1 =>
      ((s.workers 0).conns.map fun row => (row.connId, row.kind),
        s.gen.pc.hasFinished, (s.workers 0).pc.hasExited)) =
      some ([(0, .accept), (0, .burst)], true, true) := by decide +kernel
  obtain ⟨s, executed, values⟩ := Option.map_eq_some_iff.1 run
  simp only [Prod.mk.injEq] at values
  obtain ⟨rows, finished, exited⟩ := values
  have left (i : Fin 1) : (s.workers i).pc = .exited := by
    rw [Subsingleton.elim i 0]
    exact Pc.hasExited_iff.1 exited
  have conserved := connections_conserved executed (GenPc.hasFinished_iff.1 finished) left
  exact ⟨s, rows, conserved.2.2.2.2.2.1 0⟩

end MicroHermes.Sim
