import Mathlib.Data.Prod.Lex
import MicroHermes.Sim.Burst
import MicroHermes.Sim.Traffic

set_option autoImplicit false

namespace MicroHermes.Sim

open Transition

variable {W : Nat}

def Act.standsAt (now : Int) : Act W → Prop
  | .gen label | .worker _ label => label.standsAt now

def Pc.hanging : Pc W → Bool
  | .hangSleep => true
  | _ => false

def Pc.early : Pc W → Bool
  -- Before the work of the iteration is known.
  | .stamp | .hangTest | .hangSleep | .expireNow | .expire _ _ | .burstTest | .burstNow | .choose
  | .pollDeadline | .pop _ _ _ | .pollSleep _ => true
  | _ => false

def PopPc.rank : PopPc → Nat
  | .loadHead => 4
  | .loadTail _ => 3
  | .readSlot _ => 2
  | .storeHead _ _ => 1
  | .idle | .returned _ => 0

def tailSteps (W : Nat) : Nat := 6 * W + 11

def Pc.rank (openConns : Nat) : Pc W → Nat
  -- The steps that the iteration can still take.
  | .stamp => tailSteps W + openConns + 16
  | .hangTest => tailSteps W + openConns + 15
  | .hangSleep | .expireNow => tailSteps W + openConns + 14
  | .expire _ cursor => tailSteps W + (openConns - cursor) + 13
  | .burstTest => tailSteps W + 12
  | .burstNow => tailSteps W + 11
  | .choose => tailSteps W + 10
  | .pollDeadline | .pollSleep _ => tailSteps W + 9
  | .pop _ batch call => tailSteps W + 5 * batch.length + call.rank + 4
  | .pollNow _ => tailSteps W + 3
  | .pollShutdown _ => tailSteps W + 2
  | .burstAdd ids => tailSteps W + 4 * ids.length + 1
  | .burstDequeue _ rest => tailSteps W + 4 * rest.length + 4
  | .burstSleep _ rest _ => tailSteps W + 4 * rest.length + 3
  | .burstDone _ rest _ => tailSteps W + 4 * rest.length + 2
  | .burstSub _ rest _ _ => tailSteps W + 4 * rest.length + 1
  | .acceptAdd batch => tailSteps W + 5 * batch.length + 1
  | .acceptConn _ rest => tailSteps W + 5 * rest.length + 5
  | .acceptDequeue _ rest => tailSteps W + 5 * rest.length + 4
  | .acceptSleep _ rest _ => tailSteps W + 5 * rest.length + 3
  | .acceptDone _ rest _ => tailSteps W + 5 * rest.length + 2
  | .acceptSub _ rest _ _ => tailSteps W + 5 * rest.length + 1
  | .scheduleNow => 6 * W + 10
  | .snapshot _ snap => 3 * W + (3 * W - snap.cursor) + 9
  | .publish _ => 3 * W + 8
  | .tickNow _ => 3 * W + 7
  | .tickSnapshot _ _ snap => 3 * W - snap.cursor + 6
  | .tickTail _ _ _ => 5
  | .tickHead _ _ _ _ => 4
  | .exitShutdown => 3
  | .exitTail => 2
  | .exitHead _ => 1
  | .exited | .panicked => 0

def Worker.phases (w : Worker W) : Nat :=
  -- The hang and the burst that are still to come.
  (w.hangPending.isSome || w.pc.hanging).toNat + (w.burstPending.isSome || w.pc.triggers).toNat

def Worker.waiting (queue : ConnQueue) (w : Worker W) : Nat := queue.depth + w.burstBacklog.length

def Worker.work (queue : ConnQueue) (w : Worker W) : Nat :=
  -- Late in an iteration the worker may start another one, if anything waits.
  2 * w.waiting queue + if w.pc.early then 0 else min 1 (w.waiting queue)

def Worker.left (queue : ConnQueue) (w : Worker W) : ℕ ×ₗ ℕ ×ₗ ℕ :=
  toLex (w.phases, toLex (w.work queue, w.pc.rank w.openConns.length))

theorem waiting_eq_zero {queue : ConnQueue} {w : Worker W} :
    w.waiting queue = 0 ↔ queue.tail - queue.head = 0 ∧ w.burstBacklog = [] := by
  rw [Worker.waiting, Nat.add_eq_zero_iff, List.length_eq_zero_iff, ConnQueue.depth,
    ← UInt32.toNat_inj]
  rfl

theorem left_lt {queue queue' : ConnQueue} {w w' : Worker W} (phases : w'.phases ≤ w.phases)
    (work : w'.work queue' ≤ w.work queue)
    (rank : w'.pc.rank w'.openConns.length < w.pc.rank w.openConns.length) :
    w'.left queue' < w.left queue := by
  simp only [Worker.left, Prod.Lex.toLex_lt_toLex]
  omega

theorem left_lt_of_work {queue queue' : ConnQueue} {w w' : Worker W} (phases : w'.phases ≤ w.phases)
    (work : w'.work queue' < w.work queue) : w'.left queue' < w.left queue := by
  simp only [Worker.left, Prod.Lex.toLex_lt_toLex]
  omega

theorem left_lt_of_phases {queue queue' : ConnQueue} {w w' : Worker W}
    (phases : w'.phases < w.phases) : w'.left queue' < w.left queue := by
  simp only [Worker.left, Prod.Lex.toLex_lt_toLex]
  omega

def Pc.calls : Pc W → Bool
  -- A call of `pop` in the batch loop is under way.
  | .pop _ _ call => !call.ready
  | _ => true

def PopPc.Current (queue : ConnQueue) : PopPc → Prop
  -- The indices that a call of `pop` has loaded are those of the queue.
  | .loadTail head => head = queue.head
  | .readSlot head | .storeHead head _ => head = queue.head ∧ queue.head ≠ queue.tail
  | .idle | .loadHead | .returned _ => True

def Pc.Current (queue : ConnQueue) : Pc W → Prop
  | .pop _ _ call => call.Current queue
  | .exitHead tail => tail = queue.tail
  | _ => True

theorem PopPc.Current.depth_taken {queue : ConnQueue} {head : UInt32} {desc : ConnDesc}
    (current : (PopPc.storeHead head desc).Current queue) :
    (popStep queue (.storeHead head desc)).1.depth + 1 = queue.depth := by
  obtain ⟨rfl, nonempty⟩ := current
  have different : queue.head.toNat ≠ queue.tail.toNat := fun same =>
    nonempty (UInt32.toNat_inj.1 same)
  have bounds := queue.head.toNat_lt
  have bound := queue.tail.toNat_lt
  simp only [popStep, ConnQueue.depth, UInt32.toNat_sub, UInt32.toNat_add, UInt32.toNat_one]
  omega

theorem PopPc.Current.depth_add {queue : ConnQueue} {call : PopPc} (current : call.Current queue) :
    (popStep queue call).1.depth + call.takes.length = queue.depth := by
  cases call with
  | storeHead head desc => exact current.depth_taken
  | loadTail head =>
      simp only [popStep]
      split <;> rfl
  | idle | loadHead | readSlot _ | returned _ => rfl

theorem SimInv.current {i : Fin W} {shared : SharedState W} {gen : Generator W} {w : Worker W}
    (inv : SimInv i shared gen w) : w.pc.Current (shared.queues i) := by
  have ring := inv.ring.ring
  have stop := inv.stop
  cases pc : w.pc with
  | pop deadline batch call =>
      simp only [queueRun, pc, Pc.popPc] at ring
      have popInv := ring.pop
      have empty := ring.tail_eq_head
      cases call with
      | loadTail head => exact popInv
      | readSlot head => exact ⟨popInv.1, fun same => (empty.1 same).not_lt popInv.2⟩
      | storeHead head desc =>
          have inside := (List.getElem?_eq_some_iff.1 popInv.2).1
          exact ⟨popInv.1, fun same => (empty.1 same).not_lt inside⟩
      | idle | loadHead | returned _ => trivial
  | exitHead tail =>
      rw [pc] at stop
      exact stop.2
  | _ => trivial

section Continuations

variable (policy : Policy) (openConns : Nat)

theorem endOfLoop_late : (endOfLoop policy : Pc W).early = false ∧
    (endOfLoop policy : Pc W).hanging = false ∧ (endOfLoop policy : Pc W).calls = true ∧
    (endOfLoop policy : Pc W).rank openConns < tailSteps W := by
  unfold endOfLoop
  split
  · exact ⟨rfl, rfl, rfl, by simp only [Pc.rank, tailSteps]; omega⟩
  · exact ⟨rfl, rfl, rfl, by simp only [Pc.rank, tailSteps]; omega⟩

theorem nextBurst_late (ids : List Nat) : (nextBurst policy ids : Pc W).early = false ∧
    (nextBurst policy ids : Pc W).hanging = false ∧ (nextBurst policy ids : Pc W).calls = true ∧
    (nextBurst policy ids : Pc W).rank openConns ≤ tailSteps W + 4 * ids.length := by
  cases ids with
  | nil =>
      obtain ⟨early, hanging, calls, rank⟩ := endOfLoop_late (W := W) policy openConns
      exact ⟨early, hanging, calls, rank.le⟩
  | cons connId rest =>
      exact ⟨rfl, rfl, rfl, by simp only [nextBurst, Pc.rank, List.length_cons]; omega⟩

theorem nextAccept_late (batch : List ConnDesc) : (nextAccept policy batch : Pc W).early = false ∧
    (nextAccept policy batch : Pc W).hanging = false ∧
    (nextAccept policy batch : Pc W).calls = true ∧
    (nextAccept policy batch : Pc W).rank openConns ≤ tailSteps W + 5 * batch.length := by
  cases batch with
  | nil =>
      obtain ⟨early, hanging, calls, rank⟩ := endOfLoop_late (W := W) policy openConns
      exact ⟨early, hanging, calls, rank.le⟩
  | cons desc rest =>
      exact ⟨rfl, rfl, rfl, by simp only [nextAccept, Pc.rank, List.length_cons]; omega⟩

end Continuations

theorem pollStep_calls (deadline : Int) (batch : List ConnDesc) (queue : ConnQueue) {call : PopPc}
    (calling : call.ready = false) :
    (pollStep deadline batch (popStep queue call).2 : Pc W).calls = true := by
  cases call with
  | idle | returned _ => cases calling
  | loadHead | readSlot _ => rfl
  | loadTail head =>
      simp only [popStep]
      split
      · simp only [pollStep]
        split <;> rfl
      · rfl
  | storeHead head desc =>
      simp only [popStep, pollStep]
      split <;> rfl

structure Settled (w : Worker W) : Prop where
  calls : w.pc.calls = true
  drained : w.pc.drained = true → w.burstBacklog = []

section Worker

variable {F : Type} [MetricArith F] {policy : Policy} {cfg : WorkloadConfig} {i : Fin W}

theorem settled_initial (start : Int) : Settled (Worker.initial cfg i start) where
  calls := rfl
  drained _ := rfl

theorem moves_settled {shared : SharedState W} {w w' : Worker W} {label : Sys} {op : MemOp}
    (inv : Settled w) (moved : Moves F policy cfg i shared w label op w') : Settled w' := by
  cases moved with
  | chooseAccept pc backlog => exact ⟨rfl, fun _ => backlog⟩
  | burstAdd ids pc =>
      have phase := nextBurst_phase (W := W) policy ids
      exact ⟨(nextBurst_late policy 0 ids).2.2.1, by simp [phase.2.2.2]⟩
  | burstSub connId rest dequeueNs doneNs burst pc found =>
      have phase := nextBurst_phase (W := W) policy rest
      exact ⟨(nextBurst_late policy 0 rest).2.2.1, by simp [phase.2.2.2]⟩
  | pop deadline batch call pc =>
      have calls := inv.calls
      rw [pc] at calls
      have calling : call.ready = false := by simpa [Pc.calls] using calls
      exact ⟨pollStep_calls deadline batch _ calling, fun _ => inv.drained (by rw [pc]; rfl)⟩
  | acceptAdd batch pc =>
      exact ⟨(nextAccept_late policy 0 batch).2.2.1, fun _ => inv.drained (by rw [pc]; rfl)⟩
  | acceptSub desc rest dequeueNs doneNs pc =>
      exact ⟨(nextAccept_late policy 0 rest).2.2.1, fun _ => inv.drained (by rw [pc]; rfl)⟩
  | exit tail pc empty backlog => exact ⟨rfl, fun _ => backlog⟩
  | _ =>
      have here := ‹w.pc = _›
      refine ⟨rfl, fun drained => ?_⟩
      first
        | exact absurd drained Bool.false_ne_true
        | exact inv.drained (by rw [here]; rfl)

theorem phases_kept {w w' : Worker W} {pc : Pc W} (here : w.pc = pc)
    (hang : w'.hangPending = w.hangPending) (burst : w'.burstPending = w.burstPending)
    (hanging : w'.pc.hanging = pc.hanging) (triggers : w'.pc.triggers = pc.triggers) :
    w'.phases ≤ w.phases := by
  rw [Worker.phases, hang, burst, hanging, triggers, ← here, Worker.phases]

theorem work_kept {queue queue' : ConnQueue} {w w' : Worker W} {pc : Pc W} (here : w.pc = pc)
    (depth : queue'.depth = queue.depth) (backlog : w'.burstBacklog = w.burstBacklog)
    (early : w'.pc.early = pc.early) : w'.work queue' ≤ w.work queue := by
  simp only [Worker.work, Worker.waiting, depth, backlog, early, here, le_refl]

theorem work_le_of_none {queue : ConnQueue} {w : Worker W} (none : w.waiting queue = 0) {n : Nat} :
    w.work queue ≤ n := by
  simp [Worker.work, none]

theorem pop_left {queue : ConnQueue} {w : Worker W} {deadline : Int} {batch : List ConnDesc}
    {call : PopPc} (current : call.Current queue) (settled : Settled w)
    (here : w.pc = .pop deadline batch call) (popped : List ConnDesc) :
    Worker.left (popStep queue call).1
      { w with popped, pc := pollStep deadline batch (popStep queue call).2 } < w.left queue := by
  have calls := settled.calls
  rw [here] at calls
  cases call with
  | idle | returned _ => cases calls
  | loadHead | readSlot _ =>
      refine left_lt (phases_kept here rfl rfl rfl rfl) (work_kept here rfl rfl rfl) ?_
      simp only [here, popStep, pollStep, Pc.rank, PopPc.rank]
      omega
  | loadTail head =>
      simp only [popStep]
      split
      · next empty =>
          -- Nothing waits: the queue is empty, and so is the backlog of a worker that accepts.
          have none : w.waiting queue = 0 := by
            have loaded : head = queue.head := current
            have backlog := settled.drained (by rw [here]; rfl)
            simp [Worker.waiting, ConnQueue.depth, backlog, ← loaded, empty]
          simp only [pollStep]
          split
          · refine left_lt (phases_kept here rfl rfl rfl rfl) (work_le_of_none (by exact none)) ?_
            simp only [here, Pc.rank, PopPc.rank]
            omega
          · refine left_lt (phases_kept here rfl rfl rfl rfl) (work_le_of_none (by exact none)) ?_
            simp only [here, Pc.rank, PopPc.rank]
            omega
      · refine left_lt (phases_kept here rfl rfl rfl rfl) (work_kept here rfl rfl rfl) ?_
        simp only [here, pollStep, Pc.rank, PopPc.rank]
        omega
  | storeHead head desc =>
      have fewer := current.depth_taken
      simp only [popStep, pollStep] at fewer ⊢
      split
      · refine left_lt_of_work (phases_kept here rfl rfl rfl rfl) ?_
        simp only [Worker.work, Worker.waiting, here, Pc.early, if_true]
        omega
      · refine left_lt_of_work (phases_kept here rfl rfl rfl rfl) ?_
        simp only [Worker.work, Worker.waiting, here, Pc.early, if_true, Bool.false_eq_true, if_false]
        omega

theorem snapshot_cursor {snap : SnapshotPc W} (unfinished : snap.finished = false) (wst : Wst W) :
    snap.cursor < 3 * W ∧ (snap.step wst).cursor = snap.cursor + 1 := by
  simp only [SnapshotPc.finished, decide_eq_false_iff_not] at unfinished
  have inside : snap.cursor / 3 < W := by omega
  refine ⟨by omega, ?_⟩
  simp only [SnapshotPc.step, inside, dif_pos]

theorem moves_left {shared : SharedState W} {w w' : Worker W} {label : Sys} {op : MemOp}
    (requested : shared.shutdown = 1) (current : w.pc.Current (shared.queues i))
    (settled : Settled w) (moved : Moves F policy cfg i shared w label op w') :
    w'.left (op.onQueue (shared.queues i)) < w.left (shared.queues i) := by
  cases moved with
  | hangDue now hang pc pending due =>
      refine left_lt ?_ (work_kept pc rfl rfl rfl) ?_
      · simp [Worker.phases, pending, pc, Pc.triggers]
      · simp only [pc, Pc.rank]
        omega
  | hung pc =>
      refine left_lt_of_phases ?_
      simp [Worker.phases, pc, Pc.hanging, Pc.triggers]
  | burstDue now burst pc pending due =>
      refine left_lt ?_ (work_kept pc rfl rfl rfl) ?_
      · simp [Worker.phases, pending, pc, Pc.hanging]
      · simp only [pc, Pc.rank]
        omega
  | burstNow now pc =>
      refine left_lt_of_phases ?_
      simp [Worker.phases, pc, Pc.hanging, Pc.triggers]
  | close now cursor connId deadline pc entry due =>
      have inside := (List.getElem?_eq_some_iff.1 entry).1
      refine left_lt (phases_kept pc rfl rfl rfl rfl) (work_kept pc rfl rfl rfl) ?_
      simp only [pc, Pc.rank, List.length_eraseIdx_of_lt inside]
      omega
  | keep now cursor connId deadline pc entry early =>
      have inside := (List.getElem?_eq_some_iff.1 entry).1
      refine left_lt (phases_kept pc rfl rfl rfl rfl) (work_kept pc rfl rfl rfl) ?_
      simp only [pc, Pc.rank]
      omega
  | chooseBurst pc backlog =>
      have some := List.length_pos_iff.2 backlog
      refine left_lt_of_work (phases_kept pc rfl rfl rfl rfl) ?_
      simp only [Worker.work, Worker.waiting, pc, Pc.early, MemOp.onQueue, List.length_drop,
        maxEvents, if_true, Bool.false_eq_true, if_false]
      omega
  | burstAdd ids pc =>
      have phase := nextBurst_phase (W := W) policy ids
      obtain ⟨early, hanging, _, rank⟩ := nextBurst_late (W := W) policy w.openConns.length ids
      refine left_lt (phases_kept pc rfl rfl hanging phase.2.1) (work_kept pc rfl rfl early)
        (rank.trans_lt ?_)
      rw [pc]
      exact Nat.lt_succ_self _
  | burstSub connId rest dequeueNs doneNs burst pc found =>
      have phase := nextBurst_phase (W := W) policy rest
      obtain ⟨early, hanging, _, rank⟩ := nextBurst_late (W := W) policy w.openConns.length rest
      refine left_lt (phases_kept pc rfl rfl hanging phase.2.1) (work_kept pc rfl rfl early)
        (rank.trans_lt ?_)
      rw [pc]
      exact Nat.lt_succ_self _
  | pop deadline batch call pc =>
      rw [pc] at current
      exact pop_left current settled pc _
  | acceptAdd batch pc =>
      have phase := nextAccept_phase (W := W) policy batch
      obtain ⟨early, hanging, _, rank⟩ := nextAccept_late (W := W) policy w.openConns.length batch
      refine left_lt (phases_kept pc rfl rfl hanging phase.2.1) (work_kept pc rfl rfl early)
        (rank.trans_lt ?_)
      rw [pc]
      exact Nat.lt_succ_self _
  | acceptSub desc rest dequeueNs doneNs pc =>
      have phase := nextAccept_phase (W := W) policy rest
      obtain ⟨early, hanging, _, rank⟩ := nextAccept_late (W := W) policy
        (w.openConns ++ [(desc.connId, doneNs + desc.lifetimeMs.toNat * 1000000)]).length rest
      refine left_lt (phases_kept pc rfl rfl hanging phase.2.1) (work_kept pc rfl rfl early)
        (rank.trans_lt ?_)
      rw [pc]
      exact Nat.lt_succ_self _
  | load now snap pc unfinished =>
      obtain ⟨inside, cursor⟩ := snapshot_cursor unfinished shared.wst
      refine left_lt (phases_kept pc rfl rfl rfl rfl) (work_kept pc rfl rfl rfl) ?_
      simp only [pc, Pc.rank, cursor]
      omega
  | tickLoad result timestampNs snap pc unfinished =>
      obtain ⟨inside, cursor⟩ := snapshot_cursor unfinished shared.wst
      refine left_lt (phases_kept pc rfl rfl rfl rfl) (work_kept pc rfl rfl rfl) ?_
      simp only [pc, Pc.rank, cursor]
      omega
  | pollWait deadline pc running | exitRunning pc running => exact absurd requested running
  | again tail pc waits =>
      rw [pc] at current
      obtain rfl : tail = (shared.queues i).tail := current
      have some : 0 < w.waiting (shared.queues i) :=
        Nat.pos_of_ne_zero fun none => not_and_or.2 waits (waiting_eq_zero.1 none)
      refine left_lt_of_work (phases_kept pc rfl rfl rfl rfl) ?_
      change 2 * w.waiting (shared.queues i) + 0 < w.work (shared.queues i)
      simp only [Worker.work, pc, Pc.early, Bool.false_eq_true, if_false]
      omega
  | _ =>
      have here := ‹w.pc = _›
      refine left_lt (phases_kept here rfl rfl rfl rfl) (work_kept here rfl rfl rfl) ?_
      simp only [here, Pc.rank, SnapshotPc.start, List.length_nil, PopPc.rank, tailSteps]
      omega

theorem workerStep_ready (now : Int) {w : Worker W} (alive : w.pc.hasPanicked = false)
    (serving : w.pc.burstIds ≠ [] → cfg.burst.isSome) (running : w.pc ≠ .exited)
    (shared : SharedState W) :
    ∃ label, label.standsAt now ∧ (workerStep F policy cfg i shared w label).isSome := by
  cases pc : w.pc with
  | stamp | expireNow | burstNow | burstDequeue _ _ | burstDone _ _ _ | pollDeadline | pollNow _
  | acceptDequeue _ _ | acceptDone _ _ _ | scheduleNow | tickNow _ =>
      exact ⟨.clock now, rfl, by simp [workerStep, pc, Sys.asClock]⟩
  | hangTest =>
      cases pending : w.hangPending with
      | none => exact ⟨.internal, trivial, by simp [workerStep, pc, pending, Sys.asInternal]⟩
      | some hang => exact ⟨.clock now, rfl, by simp [workerStep, pc, pending, Sys.asClock]⟩
  | burstTest =>
      cases pending : w.burstPending with
      | none => exact ⟨.internal, trivial, by simp [workerStep, pc, pending, Sys.asInternal]⟩
      | some burst => exact ⟨.clock now, rfl, by simp [workerStep, pc, pending, Sys.asClock]⟩
  | burstSub connId rest dequeueNs doneNs =>
      obtain ⟨burst, configured⟩ := Option.isSome_iff_exists.1 (serving (by simp [pc, Pc.burstIds]))
      exact ⟨.internal, trivial, by simp [workerStep, pc, configured, Sys.asInternal]⟩
  | exited => exact absurd pc running
  | panicked =>
      rw [pc] at alive
      cases alive
  | _ => exact ⟨.internal, trivial, by simp [workerStep, pc, Sys.asInternal]⟩

end Worker

section Runs

variable {F : Type} [MetricArith F] {policy : Policy} {cfg : WorkloadConfig} {seed : UInt64}
  {genStart : Int} {starts : Fin W → Int}

theorem run_settled {s : SimState W}
    (steps : Steps (step F policy cfg seed) (initial cfg genStart starts) s) (i : Fin W) :
    Settled (s.workers i) :=
  preserve_worker Settled (fun _ _ _ _ _ => moves_settled) steps (settled_initial (starts i))

theorem generator_finishes (workers : 0 < W) (width : W ≤ 64) (paced : 0 < cfg.intervalNs)
    (now : Int) {s : SimState W}
    (steps : Steps (step F policy cfg seed) (initial cfg genStart starts) s) :
    ∃ next, StepsIf (step F policy cfg seed) (fun _ act => act.standsAt now) s next ∧
      next.gen.pc = .finished := by
  have progress (s : SimState W) (inv : Offering cfg seed s.gen) (running : s.gen.pc ≠ .finished) :
      ∃ act next, act.standsAt now ∧ step F policy cfg seed s act = some next ∧
        Offering cfg seed next.gen ∧ stepsLeft cfg next.gen < stepsLeft cfg s.gen := by
    obtain ⟨label, still, ready⟩ : ∃ label : Sys, label.standsAt now ∧
        (genStep policy cfg seed s.shared s.gen label).isSome :=
      genStep_ready running inv.alive s.shared now
    obtain ⟨⟨shared, gen⟩, moved⟩ := Option.isSome_iff_exists.1 ready
    refine ⟨.gen label, { s with shared, gen }, still, by simp [step, moved], ?_, ?_⟩
    · exact moves_offering workers width paced inv (genStep_moves moved)
    · exact moves_stepsLeft paced inv (genStep_moves moved)
  obtain ⟨next, taken, _, finished⟩ :=
    reach (fun s : SimState W => Offering cfg seed s.gen) (fun s => s.gen.pc = .finished)
      (fun s => stepsLeft cfg s.gen) progress (system_offering workers width paced steps)
  exact ⟨next, taken, finished⟩

theorem moves_finished {shared shared' : SharedState W} {gen gen' : Generator W} {label : Sys}
    (moved : GenMoves policy cfg seed shared gen label shared' gen')
    (finished : gen'.pc = .finished) : shared'.shutdown = 1 := by
  cases moved with
  | shutdown pc => rfl
  | dispatch scan pc =>
      cases outcome : dispatchStep policy shared (connHash seed gen.generated) scan <;>
        simp [outcome, afterDispatch] at finished
  | push target call pc =>
      unfold afterPush at finished
      split at finished
      · cases finished
      · split at finished <;> cases finished
      · cases finished
  | _ => cases finished

theorem run_shutdown {s : SimState W}
    (steps : Steps (step F policy cfg seed) (initial cfg genStart starts) s)
    (finished : s.gen.pc = .finished) : s.shared.shutdown = 1 := by
  refine Steps.preserve (fun s : SimState W => s.gen.pc = .finished → s.shared.shutdown = 1) ?_
    steps (fun started => by cases started) finished
  intro s act next inv taken done
  cases act with
  | gen label => exact moves_finished (step_gen taken).1 done
  | worker i label =>
      obtain ⟨op, _, shared, same, _⟩ := step_worker taken
      rw [same] at done
      rw [shared]
      exact inv done

theorem worker_exits (now : Int) (i : Fin W) {s : SimState W}
    (steps : Steps (step F policy cfg seed) (initial cfg genStart starts) s)
    (finished : s.gen.pc = .finished) :
    ∃ next, StepsIf (step F policy cfg seed) (fun _ act => act.standsAt now) s next ∧
      next.gen.pc = .finished ∧ (next.workers i).pc = .exited := by
  have progress (s : SimState W)
      (inv : Steps (step F policy cfg seed) (initial cfg genStart starts) s ∧
        s.gen.pc = .finished) (running : (s.workers i).pc ≠ .exited) :
      ∃ act next, act.standsAt now ∧ step F policy cfg seed s act = some next ∧
        (Steps (step F policy cfg seed) (initial cfg genStart starts) next ∧
          next.gen.pc = .finished) ∧
        (next.workers i).left (next.shared.queues i) < (s.workers i).left (s.shared.queues i) := by
    obtain ⟨steps, finished⟩ := inv
    obtain ⟨label, still, ready⟩ : ∃ label : Sys, label.standsAt now ∧
        (workerStep F policy cfg i s.shared (s.workers i) label).isSome :=
      workerStep_ready now (run_planned steps i).alive (run_planned steps i).burst_of_serving running
        s.shared
    obtain ⟨⟨op, w⟩, moved⟩ := Option.isSome_iff_exists.1 ready
    have taken : step F policy cfg seed s (.worker i label) = some
        { s with shared := s.shared.apply i op, workers := Function.update s.workers i w } := by
      simp [step, moved]
    refine ⟨.worker i label, _, still, taken, ⟨steps.tail ⟨_, trivial, taken⟩, finished⟩, ?_⟩
    have fewer := moves_left (run_shutdown steps finished)
      (run_simInv steps (simInv_initial genStart starts) i).current (run_settled steps i)
      (workerStep_moves moved)
    simpa using fewer
  obtain ⟨next, taken, ⟨_, done⟩, exited⟩ := reach
    (fun s => Steps (step F policy cfg seed) (initial cfg genStart starts) s ∧ s.gen.pc = .finished)
    (fun s => (s.workers i).pc = .exited) (fun s => (s.workers i).left (s.shared.queues i)) progress
    ⟨steps, finished⟩
  exact ⟨next, taken, done, exited⟩

theorem exited_stays {s next : SimState W} (steps : Steps (step F policy cfg seed) s next)
    {i : Fin W} (exited : (s.workers i).pc = .exited) : (next.workers i).pc = .exited := by
  refine preserve_worker (fun w => w.pc = .exited) ?_ steps exited
  intro shared w label op w' gone moved
  cases moved with
  | _ =>
      have here := ‹w.pc = _›
      cases gone.symm.trans here

theorem run_completes (workers : 0 < W) (width : W ≤ 64) (paced : 0 < cfg.intervalNs) (now : Int)
    {s : SimState W} (steps : Steps (step F policy cfg seed) (initial cfg genStart starts) s) :
    ∃ final, StepsIf (step F policy cfg seed) (fun _ act => act.standsAt now) s final ∧
      final.gen.pc = .finished ∧ ∀ i, (final.workers i).pc = .exited := by
  obtain ⟨next, generated, finished⟩ := generator_finishes workers width paced now steps
  have all (ids : List (Fin W)) :
      ∃ final, StepsIf (step F policy cfg seed) (fun _ act => act.standsAt now) next final ∧
        final.gen.pc = .finished ∧ ∀ i ∈ ids, (final.workers i).pc = .exited := by
    induction ids with
    | nil => exact ⟨next, .refl, finished, by simp⟩
    | cons i rest ih =>
        obtain ⟨middle, taken, done, exited⟩ := ih
        obtain ⟨final, later, done, self⟩ := worker_exits now i
          (steps.trans (StepsIf.forget (generated.trans taken))) done
        refine ⟨final, taken.trans later, done, List.forall_mem_cons.2 ⟨self, fun j among => ?_⟩⟩
        exact exited_stays later.forget (exited j among)
  obtain ⟨final, taken, done, exited⟩ := all (List.finRange W)
  exact ⟨final, generated.trans taken, done, fun i => exited i (List.mem_finRange i)⟩

end Runs

end MicroHermes.Sim
