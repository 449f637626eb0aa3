import MicroHermes.Sim.Accounting
import MicroHermes.Sim.Completion

set_option autoImplicit false

namespace MicroHermes.Sim

open Transition

variable {W : Nat}

/-- A call of `dispatch_lifo` that has looked at the queue of worker `i`, is about to load its
pending events, and returns it for being idle. -/
structure IdleCall (F : Type) [MetricArith F] (cfg : WorkloadConfig) (seed : UInt64)
    (called : SimState W) (acts : List (Act W)) (s : SimState W) (i : Fin W) : Prop where
  begins : called.gen.pc = .dispatch .start
  run : exec (step F .lifo cfg seed) called acts = some s
  same : s.gen.generated = called.gen.generated
  reads : ∃ rest, s.gen.pc = .dispatch (.idlePending i rest)
  returns : (step F .lifo cfg seed s (.gen .internal)).map (fun next => next.gen.pc) =
    some (.describe i.val)

def GenPc.Searching (queues : Fin W → ConnQueue) : GenPc W → Prop
  -- What the search has learnt stays true: only the generator fills a queue.
  | .dispatch (.idleHead i _ tail) => tail = (queues i).tail
  | .dispatch (.idlePending i _) => (queues i).depth = 0
  | _ => True

theorem GenPc.Searching.shrink {queues queues' : Fin W → ConnQueue} {pc : GenPc W}
    (inv : pc.Searching queues)
    (less : ∀ i, (queues' i).tail = (queues i).tail ∧ (queues' i).depth ≤ (queues i).depth) :
    pc.Searching queues' := by
  cases pc with
  | dispatch scan =>
      cases scan with
      | idleHead i rest tail => exact Eq.trans inv (less i).1.symm
      | idlePending i rest => exact Nat.le_zero.1 ((less i).2.trans_eq inv)
      | _ => trivial
  | _ => trivial

theorem nextLen_searching (queues : Fin W → ConnQueue) (best : Option (Nat × Fin W))
    (rest : List (Fin W)) : (afterDispatch (nextLen best rest)).Searching queues := by
  cases rest with
  | cons i rest => trivial
  | nil => cases best <;> trivial

theorem nextIdle_searching (queues : Fin W → ConnQueue) (rest : List (Fin W)) :
    (afterDispatch (nextIdle rest)).Searching queues := by
  cases rest with
  | cons i rest => trivial
  | nil => exact nextLen_searching queues none _

section Steps

variable {F : Type} [MetricArith F] {policy : Policy} {cfg : WorkloadConfig} {seed : UInt64}

theorem dispatchStep_searching {shared : SharedState W} {scan : DispatchPc W} (hash : UInt64)
    (inv : (GenPc.dispatch scan).Searching shared.queues) :
    (afterDispatch (dispatchStep policy shared hash scan)).Searching shared.queues := by
  cases scan with
  | start =>
      cases policy with
      | lifo => exact nextIdle_searching ..
      | hermes | reuseportHash => trivial
  | idleTail i rest => exact rfl
  | idleHead i rest tail =>
      obtain rfl : tail = (shared.queues i).tail := inv
      simp only [dispatchStep]
      split
      · next empty => exact congrArg UInt32.toNat empty
      · exact nextIdle_searching ..
  | idlePending i rest =>
      simp only [dispatchStep]
      split
      · trivial
      · exact nextIdle_searching ..
  | lenTail i rest best => trivial
  | lenHead i rest best tail => exact nextLen_searching ..
  | picked target | noWorker => trivial

theorem moves_searching {shared shared' : SharedState W} {gen gen' : Generator W} {label : Sys}
    (moved : GenMoves policy cfg seed shared gen label shared' gen')
    (inv : gen.pc.Searching shared.queues) : gen'.pc.Searching shared'.queues := by
  cases moved with
  | dispatch scan pc =>
      rw [pc] at inv
      exact dispatchStep_searching _ inv
  | push target call pc =>
      unfold afterPush
      split
      · trivial
      · split <;> trivial
      · trivial
  | _ => trivial

end Steps

section Runs

variable {F : Type} [MetricArith F] {policy : Policy} {cfg : WorkloadConfig} {seed : UInt64}
  {genStart : Int} {starts : Fin W → Int}

theorem moves_shrink {i : Fin W} {shared : SharedState W} {w w' : Worker W} {label : Sys}
    {op : MemOp} (moved : Moves F policy cfg i shared w label op w')
    (current : w.pc.Current (shared.queues i)) (j : Fin W) :
    ((shared.apply i op).queues j).tail = (shared.queues j).tail ∧
      ((shared.apply i op).queues j).depth ≤ (shared.queues j).depth := by
  by_cases self : j = i
  · subst self
    rw [SharedState.apply_queue_self]
    rcases moved.queue with ⟨deadline, batch, here, rfl, _, _⟩ | ⟨_, kept, _, _⟩
    · rw [here] at current
      have calling : w.pc.popPc.Current (shared.queues j) := current
      have taken := calling.depth_add
      exact ⟨popStep_tail .., by simp only [MemOp.onQueue]; omega⟩
    · rw [kept]
      exact ⟨rfl, le_rfl⟩
  · rw [SharedState.apply_queue_other _ _ self]
    exact ⟨rfl, le_rfl⟩

theorem run_searching {s : SimState W}
    (steps : Steps (step F policy cfg seed) (initial cfg genStart starts) s) :
    s.gen.pc.Searching s.shared.queues := by
  refine (Steps.preserve (fun s => Steps (step F policy cfg seed) (initial cfg genStart starts) s ∧
    s.gen.pc.Searching s.shared.queues) ?_ steps ⟨.refl, trivial⟩).2
  intro s act next inv taken
  obtain ⟨earlier, inv⟩ := inv
  refine ⟨earlier.tail ⟨act, trivial, taken⟩, ?_⟩
  cases act with
  | gen label => exact moves_searching (step_gen taken).1 inv
  | worker i label =>
      obtain ⟨op, moved, shared, gen, _⟩ := step_worker taken
      have current := (run_simInv earlier (simInv_initial genStart starts) i).current
      rw [shared, gen]
      exact inv.shrink (moves_shrink moved current)

theorem run_busy {s : SimState W}
    (steps : Steps (step F policy cfg seed) (initial cfg genStart starts) s) (i : Fin W) :
    BusyCount (s.shared.wst i) (s.workers i).pc := by
  obtain ⟨acts, run⟩ := StepsIf.exec steps
  obtain ⟨books, recorded⟩ := exec_observed keepBooks run fun _ => .empty
  exact (run_booked (exec_steps recorded) (fun i =>
    ⟨planned_initial (starts i), ⟨rfl, Nat.zero_le _⟩, balanced_initial (starts i)⟩) i).busy

theorem nextIdle_ne (rest : List (Fin W)) (target : Nat) :
    (afterDispatch (nextIdle rest) : GenPc W) ≠ .describe target := by
  -- The next worker is looked at, or the lengths are compared from the first one on.
  cases rest with
  | cons i rest => nofun
  | nil =>
      unfold nextIdle nextLen
      cases List.finRange W <;> nofun

theorem IdleCall.pending {called s : SimState W} {acts : List (Act W)} {i : Fin W}
    (call : IdleCall F cfg seed called acts s i) : (s.shared.wst i).pendingEvents = 0 := by
  obtain ⟨rest, here⟩ := call.reads
  have returns := call.returns
  simp only [step, genStep, here, Sys.asInternal, Option.map_some, dispatchStep,
    Option.some.injEq] at returns
  split at returns
  · next idle => exact idle
  · exact absurd returns (nextIdle_ne rest i.val)

theorem idle_search {earlier acts : List (Act W)} {called s : SimState W} {i : Fin W}
    (reached : exec (step F .lifo cfg seed) (initial cfg genStart starts) earlier = some called)
    (call : IdleCall F cfg seed called acts s i) :
    (s.shared.queues i).depth = 0 ∧ (s.workers i).pc.busy = 0 ∧
    ((s.workers i).pc.holding = [] ∨
      (s.workers i).burstBacklog = [] ∧
        ((∃ deadline batch pop, (s.workers i).pc = .pop deadline batch pop) ∨
          ∃ batch, (s.workers i).pc = .acceptAdd batch)) := by
  have steps := (exec_steps reached).trans (exec_steps call.run)
  have settled := run_settled steps i
  have busy : (s.workers i).pc.busy = 0 := by
    have pending := (run_busy steps i).pending
    rw [call.pending] at pending
    exact_mod_cast pending.symm
  refine ⟨?_, busy, ?_⟩
  · obtain ⟨rest, here⟩ := call.reads
    have searching := run_searching steps
    rwa [here] at searching
  · cases pc : (s.workers i).pc with
    | pop deadline batch pop =>
        exact .inr ⟨settled.drained (by rw [pc]; rfl), .inl ⟨deadline, batch, pop, rfl⟩⟩
    | acceptAdd batch => exact .inr ⟨settled.drained (by rw [pc]; rfl), .inr ⟨batch, rfl⟩⟩
    | acceptConn desc rest | acceptDequeue desc rest | acceptSleep desc rest _
    | acceptDone desc rest _ | acceptSub desc rest _ _ =>
        rw [pc] at busy
        cases busy
    | _ => exact .inl rfl

end Runs

section Windows

def FindsIdle (F : Type) [MetricArith F] (W : Nat) (cfg : WorkloadConfig) (seed : UInt64)
    (idle : Worker W → Prop) : Prop :=
  ∀ genStart starts earlier acts called s i,
    exec (step F .lifo cfg seed) (initial cfg genStart starts) earlier = some called →
    IdleCall F cfg seed called acts s i →
    ∃ seen middle, seen <+: acts ∧ exec (step F .lifo cfg seed) called seen = some middle ∧
      (middle.shared.queues i).depth = 0 ∧ idle (middle.workers i)

variable {F : Type} [MetricArith F] {cfg : WorkloadConfig} {seed : UInt64}

theorem exec_gen_workers {policy : Policy} {labels : List Sys} {s next : SimState W}
    (run : exec (step F policy cfg seed) s (labels.map .gen) = some next) :
    next.workers = s.workers := by
  induction labels generalizing s with
  | nil =>
      simp only [List.map_nil, exec_nil, Option.some.injEq] at run
      rw [run]
  | cons label rest ih =>
      simp only [List.map_cons, exec_cons, Option.bind_eq_some_iff] at run
      obtain ⟨middle, taken, later⟩ := run
      rw [ih later, (step_gen taken).2]

theorem IdleCall.not_findsIdle {idle : Worker W → Prop} {genStart : Int} {starts : Fin W → Int}
    {earlier : List (Act W)} {labels : List Sys} {called s : SimState W} {i : Fin W}
    (reached : exec (step F .lifo cfg seed) (initial cfg genStart starts) earlier = some called)
    (call : IdleCall F cfg seed called (labels.map .gen) s i) (busy : ¬ idle (called.workers i)) :
    ¬ FindsIdle F W cfg seed idle := by
  -- No worker takes a step during the call.
  intro finds
  obtain ⟨seen, middle, before, run, _, here⟩ := finds _ _ _ _ _ _ _ reached call
  obtain ⟨taken, _, rfl⟩ := List.prefix_map_iff.1 before
  rw [exec_gen_workers run] at here
  exact busy here

def twoArrivals : WorkloadConfig := { hangAndBurst with durationNs := 2, hang := none }

def sendFirst : List Sys :=
  [.internal, .clock 0] ++ List.replicate 4 .internal ++ [.clock 0] ++ List.replicate 4 .internal

def popBatch : List Sys :=
  -- Up to a batch of one connection that is not yet counted.
  [.clock 0, .internal, .clock 0, .internal, .clock 0, .internal, .clock 0] ++
    List.replicate 6 .internal

def serveUntilBurst : List Sys :=
  -- The connection is served and the tick row written, then the burst fires.
  [.internal, .internal, .clock 0, .internal, .clock 0, .internal, .clock 0] ++
    List.replicate 16 .internal ++
    [.clock 12, .internal, .clock 12, .internal, .internal, .clock 12, .clock 12]

-- The generator begins the dispatch of its second connection.
def openCall : List Sys := [.internal, .clock 1]

def searchTop : List Sys := List.replicate 3 .internal

def untilCall (served : List Sys) : List (Act numWorkers) :=
  sendFirst.map .gen ++ served.map (.worker 3) ++ openCall.map .gen

def arriving : SimState numWorkers := initial twoArrivals 0 fun _ => 0

theorem idleCall_of_values {α : Type} (value : Worker numWorkers → α) {served : List Sys}
    {found : α}
    (run : ((exec (step Rat .lifo twoArrivals 0) arriving (untilCall served)).bind fun called =>
      (exec (step Rat .lifo twoArrivals 0) called (searchTop.map .gen)).map fun s =>
        ([some called.gen.pc, some s.gen.pc,
            (step Rat .lifo twoArrivals 0 s (.gen .internal)).map fun next => next.gen.pc],
          [called.gen.generated, s.gen.generated], value (called.workers 3))) =
      some ([some (.dispatch .start), some (.dispatch (.idlePending 3 [2, 1, 0])),
        some (.describe 3)], [1, 1], found)) :
    ∃ called s, exec (step Rat .lifo twoArrivals 0) arriving (untilCall served) = some called ∧
      IdleCall Rat twoArrivals 0 called (searchTop.map .gen) s 3 ∧
      value (called.workers 3) = found := by
  obtain ⟨called, reached, rest⟩ := Option.bind_eq_some_iff.1 run
  obtain ⟨s, searched, values⟩ := Option.map_eq_some_iff.1 rest
  simp only [Prod.mk.injEq, List.cons.injEq, Option.some.injEq, and_true] at values
  obtain ⟨⟨begins, reads, returns⟩, ⟨first, second⟩, same⟩ := values
  exact ⟨called, s, reached, ⟨begins, searched, second.trans first.symm, ⟨_, reads⟩, returns⟩, same⟩

theorem popped_call : ∃ called s,
    exec (step Rat .lifo twoArrivals 0) arriving (untilCall popBatch) = some called ∧
      IdleCall Rat twoArrivals 0 called (searchTop.map .gen) s 3 ∧
      (called.workers 3).pc.holding = [describe twoArrivals 0 0 0] :=
  idleCall_of_values (fun w => w.pc.holding) (by decide +kernel)

theorem burst_call : ∃ called s,
    exec (step Rat .lifo twoArrivals 0) arriving (untilCall (popBatch ++ serveUntilBurst)) =
        some called ∧
      IdleCall Rat twoArrivals 0 called (searchTop.map .gen) s 3 ∧
      (called.workers 3).burstBacklog = [0] :=
  idleCall_of_values (fun w => w.burstBacklog) (by decide +kernel)

theorem idle_search_misled :
    ¬ FindsIdle Rat numWorkers twoArrivals 0 (fun w => w.pc.holding = []) ∧
    ¬ FindsIdle Rat numWorkers twoArrivals 0 (fun w => w.burstBacklog = []) := by
  obtain ⟨_, _, popped, searching, holding⟩ := popped_call
  obtain ⟨_, _, triggered, searching', backlog⟩ := burst_call
  exact ⟨searching.not_findsIdle popped (by simp [holding]),
    searching'.not_findsIdle triggered (by simp [backlog])⟩

theorem idle_search_popped : ∃ s : SimState numWorkers, (s.shared.queues 3).depth = 0 ∧
    (s.workers 3).pc.busy = 0 ∧ (s.workers 3).burstBacklog = [] ∧
    (s.workers 3).pc.holding = [describe twoArrivals 0 0 0] := by
  obtain ⟨called, s, reached, call, holding⟩ := popped_call
  have same : (s.workers 3).pc.holding = [describe twoArrivals 0 0 0] := by
    rw [exec_gen_workers call.run, holding]
  obtain ⟨empty, uncounted, idle | accepting⟩ := idle_search reached call
  · simp [same] at idle
  · exact ⟨s, empty, uncounted, accepting.1, same⟩

end Windows

end MicroHermes.Sim
