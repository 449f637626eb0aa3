import MicroHermes.Sim.Completion
import MicroHermes.Sim.Metrics

set_option autoImplicit false

/-!
# Recorded timelines

All processes read one clock that never goes back. A step takes place at an instant, a clock reading
is the instant of its step, and a process that sleeps takes its next step when the sleep is over.
-/

namespace MicroHermes.Sim

open Transition

variable {W : Nat}

instance (now : Int) (label : Sys) : Decidable (label.standsAt now) :=
  match label with
  | .internal => inferInstanceAs (Decidable True)
  | .clock reading => inferInstanceAs (Decidable (reading = now))

instance (now : Int) (act : Act W) : Decidable (act.standsAt now) :=
  match act with
  | .gen label | .worker _ label => inferInstanceAs (Decidable (label.standsAt now))

def pollSleepNs : Nat := 200000

def burstNs (cfg : WorkloadConfig) : Nat := (cfg.burst.map BurstSpec.serviceNs).getD 0

def Worker.sleepNs (cfg : WorkloadConfig) (w : Worker W) : Nat :=
  -- What the call of `sleep` asks for that the worker is in.
  match w.pc with
  | .hangSleep => (w.hangPending.map HangSpec.durationNs).getD 0
  | .burstSleep _ _ _ => burstNs cfg
  | .pollSleep _ => pollSleepNs
  | .acceptSleep desc _ _ => desc.serviceUs.toNat * 1000
  | _ => 0

structure Times (W : Nat) where
  now : Int
  gen : Int
  worker : Fin W → Int

def Times.start (now : Int) : Times W := ⟨now, now, fun _ => now⟩

def Times.advance (times : Times W) (act : Act W) (now : Int) : Times W :=
  match act with
  | .gen _ => { times with now, gen := now }
  | .worker i _ => { times with now, worker := Function.update times.worker i now }

@[simp] theorem Times.advance_now (times : Times W) (act : Act W) (now : Int) :
    (times.advance act now).now = now := by
  cases act <;> rfl

@[simp] theorem Times.advance_gen (times : Times W) (label : Sys) (now : Int) :
    (times.advance (.gen label) now).worker = times.worker := rfl

@[simp] theorem Times.advance_worker (times : Times W) (i : Fin W) (label : Sys) (now : Int) :
    (times.advance (.worker i label) now).worker = Function.update times.worker i now := rfl

def readyAt (cfg : WorkloadConfig) (s : SimState W) (times : Times W) : Act W → Int
  | .gen _ =>
      match s.gen.pc with
      | .paceSleep => s.gen.start + s.gen.nextArrival
      | _ => times.gen
  | .worker i _ => times.worker i + (s.workers i).sleepNs cfg

section Step

variable (F : Type) [MetricArith F] (policy : Policy) (cfg : WorkloadConfig) (seed : UInt64)

/-- The simulation with the instant of every step. -/
def clockedStep (p : SimState W × Times W) (move : Act W × Int) : Option (SimState W × Times W) :=
  if move.1.standsAt move.2 ∧ p.2.now ≤ move.2 then
    (step F policy cfg seed p.1 move.1).map fun next => (next, p.2.advance move.1 move.2)
  else none

/-- No sleep is shorter than requested. -/
def timedStep : SimState W × Times W → Act W × Int → Option (SimState W × Times W) :=
  restrict (clockedStep F policy cfg seed) fun p move =>
    decide (readyAt cfg p.1 p.2 move.1 ≤ move.2)

variable {F policy cfg seed}

theorem clockedStep_eq_some {p q : SimState W × Times W} {move : Act W × Int} :
    clockedStep F policy cfg seed p move = some q ↔
      (move.1.standsAt move.2 ∧ p.2.now ≤ move.2) ∧
        step F policy cfg seed p.1 move.1 = some q.1 ∧ p.2.advance move.1 move.2 = q.2 := by
  obtain ⟨next, times⟩ := q
  simp [clockedStep]

theorem timedStep_eq_some {p q : SimState W × Times W} {move : Act W × Int} :
    timedStep F policy cfg seed p move = some q ↔
      readyAt cfg p.1 p.2 move.1 ≤ move.2 ∧ clockedStep F policy cfg seed p move = some q := by
  simp [timedStep, restrict]

theorem clocked_steps {p q : SimState W × Times W}
    (steps : Steps (clockedStep F policy cfg seed) p q) : Steps (step F policy cfg seed) p.1 q.1 :=
  steps.lift Prod.fst fun _ _ ⟨_, _, taken⟩ => ⟨_, trivial, (clockedStep_eq_some.1 taken).2.1⟩

end Step

section Stamps

structure Stamped (start : Int) (stamps : List Int) (now : Int) : Prop where
  order : stamps.Pairwise (· ≤ ·)
  past : ∀ stamp ∈ stamps, start ≤ stamp ∧ stamp ≤ now

variable {start now next : Int} {stamps stamps' : List Int}

theorem stamped_nil : Stamped start [] now := ⟨.nil, nofun⟩

theorem Stamped.later (stamped : Stamped start stamps now) (after : now ≤ next) :
    Stamped start stamps next where
  order := stamped.order
  past stamp among := (stamped.past stamp among).imp_right fun past => past.trans after

theorem Stamped.read (stamped : Stamped start stamps now) (begun : start ≤ now) (after : now ≤ next)
    (reads : stamps' = stamps ∨ stamps' = stamps ++ [next]) : Stamped start stamps' next := by
  have earlier := stamped.later after
  rcases reads with rfl | rfl
  · exact earlier
  · constructor
    · rw [List.pairwise_append]
      exact ⟨earlier.order, List.pairwise_singleton .., fun stamp among last reads =>
        List.mem_singleton.1 reads ▸ (earlier.past stamp among).2⟩
    · exact List.forall_mem_append.2
        ⟨earlier.past, List.forall_mem_singleton.2 ⟨begun.trans after, le_rfl⟩⟩

theorem Stamped.sublist (stamped : Stamped start stamps now) (among : stamps'.Sublist stamps) :
    Stamped start stamps' now where
  order := stamped.order.sublist among
  past stamp member := stamped.past stamp (among.subset member)

end Stamps

section Arrivals

variable {policy : Policy} {cfg : WorkloadConfig} {seed : UInt64}

def Generator.stamps (g : Generator W) : List Int :=
  g.sent.map (fun e => e.desc.arrivalNs) ++ (g.pc.inHand.map ConnDesc.arrivalNs).toList

theorem afterPush_stamps (g : Generator W) {target : Fin W} {call : PushPc}
    (pc : g.pc = .push target call) (queue : ConnQueue) :
    (afterPush cfg g target call (pushStep queue call).2).stamps = g.stamps := by
  cases call with
  | storeTail desc tail =>
      simp [afterPush, Generator.complete, Generator.stamps, pc, GenPc.inHand, PushPc.inHand]
  | loadHead desc tail =>
      by_cases full : (tail - queue.head).toNat ≥ queueCap <;>
        simp [afterPush, pushStep, full, Generator.stamps, pc, GenPc.inHand, PushPc.inHand]
  | idle | loadTail _ | writeSlot _ _ | returned _ =>
      simp [afterPush, pushStep, Generator.stamps, pc, GenPc.inHand, PushPc.inHand]

theorem moves_stamps {shared shared' : SharedState W} {gen gen' : Generator W} {label : Sys}
    {now : Int} (stands : label.standsAt now)
    (moved : GenMoves policy cfg seed shared gen label shared' gen') :
    gen'.stamps = gen.stamps ∨ gen'.stamps = gen.stamps ++ [now] := by
  cases moved with
  | describe reading target pc =>
      obtain rfl : reading = now := stands
      right
      simp [Generator.stamps, Generator.count, pc, GenPc.inHand, PushPc.inHand, describe]
  | push target call pc => exact .inl (afterPush_stamps gen pc _)
  | drop target desc pc =>
      left
      simp [Generator.complete, Generator.stamps, pc, GenPc.inHand]
  | dispatch scan pc =>
      left
      simp only [Generator.stamps, pc]
      cases dispatchStep policy shared (connHash seed gen.generated) scan <;> rfl
  | _ =>
      left
      simp [Generator.stamps, ‹gen.pc = _›, GenPc.inHand]

theorem pushedTo_stamps (gen : Generator W) (i : Fin W) :
    ((pushedTo i gen.sent).map ConnDesc.arrivalNs).Sublist gen.stamps := by
  rw [pushedTo, List.map_map]
  exact (List.filter_sublist.map _).trans (List.sublist_append_left ..)

end Arrivals

section Worker

variable {F : Type} [MetricArith F] {policy : Policy} {cfg : WorkloadConfig} {i : Fin W}
  {start : Int}

structure ConnRow.Consistent (start : Int) (row : ConnRow) : Prop where
  since : start ≤ row.arrivalNs
  waited : row.arrivalNs ≤ row.dequeueNs
  served : row.dequeueNs + row.serviceUs.toNat * 1000 ≤ row.doneNs

structure Begun (start : Int) (conns : List ConnRow) (arrivalNs dequeueNs : Int) : Prop where
  since : start ≤ arrivalNs
  arrived : arrivalNs ≤ dequeueNs
  free : ∀ row ∈ conns, row.doneNs ≤ dequeueNs

def Worker.Serving (cfg : WorkloadConfig) (start : Int) (w : Worker W) (last : Int) : Prop :=
  match w.pc with
  | .acceptSleep desc _ dequeueNs => Begun start w.conns desc.arrivalNs dequeueNs ∧ dequeueNs ≤ last
  | .acceptDone desc _ dequeueNs =>
      Begun start w.conns desc.arrivalNs dequeueNs ∧ dequeueNs + desc.serviceUs.toNat * 1000 ≤ last
  | .acceptSub desc _ dequeueNs doneNs =>
      Begun start w.conns desc.arrivalNs dequeueNs ∧
        dequeueNs + desc.serviceUs.toNat * 1000 ≤ doneNs ∧ doneNs ≤ last
  | .burstSleep _ _ dequeueNs => Begun start w.conns w.burstTriggerNs dequeueNs ∧ dequeueNs ≤ last
  | .burstDone _ _ dequeueNs =>
      Begun start w.conns w.burstTriggerNs dequeueNs ∧ dequeueNs + burstNs cfg ≤ last
  | .burstSub _ _ dequeueNs doneNs =>
      Begun start w.conns w.burstTriggerNs dequeueNs ∧ dequeueNs + burstNs cfg ≤ doneNs ∧ doneNs ≤ last
  | _ => True

def Pc.handling : Pc W → Bool
  -- An event whose dequeue has been stamped is not yet recorded.
  | .acceptSleep _ _ _ | .acceptDone _ _ _ | .acceptSub _ _ _ _ | .burstSleep _ _ _
  | .burstDone _ _ _ | .burstSub _ _ _ _ => true
  | _ => false

theorem serving_of_free {w : Worker W} {last : Int} (free : w.pc.handling = false) :
    w.Serving cfg start last := by
  unfold Worker.Serving
  split <;> first | trivial | simp_all [Pc.handling]

theorem endOfLoop_handling : (endOfLoop policy : Pc W).handling = false := by
  unfold endOfLoop
  split <;> rfl

theorem nextBurst_handling (ids : List Nat) :
    (nextBurst policy ids : Pc W).handling = false := by
  cases ids with
  | nil => exact endOfLoop_handling
  | cons connId rest => rfl

theorem nextAccept_handling (batch : List ConnDesc) :
    (nextAccept policy batch : Pc W).handling = false := by
  cases batch with
  | nil => exact endOfLoop_handling
  | cons desc rest => rfl

theorem pollStep_handling (deadline : Int) (batch : List ConnDesc) (pop : PopPc) :
    (pollStep deadline batch pop : Pc W).handling = false := by
  unfold pollStep
  split
  · split <;> rfl
  · split <;> rfl
  · rfl

structure Timely (cfg : WorkloadConfig) (start : Int) (w : Worker W) (last : Int) : Prop where
  begun : start ≤ last
  rows : ∀ row ∈ w.conns, row.Consistent start ∧ row.doneNs ≤ last
  order : w.conns.Pairwise fun earlier later => earlier.doneNs ≤ later.dequeueNs
  trigger : w.followUps ≠ [] → start ≤ w.burstTriggerNs ∧ w.burstTriggerNs ≤ last
  serving : w.Serving cfg start last

theorem timely_initial (began : Int) : Timely cfg start (Worker.initial cfg i began) start where
  begun := le_rfl
  rows := by simp [Worker.initial]
  order := List.Pairwise.nil
  trigger := fun followUps => (followUps rfl).elim
  serving := trivial

theorem Timely.kept {w w' : Worker W} {last next : Int} (inv : Timely cfg start w last)
    (later : last ≤ next) (conns : w'.conns = w.conns)
    (triggerNs : w'.burstTriggerNs = w.burstTriggerNs)
    (none : w.followUps = [] → w'.followUps = []) (serving : w'.Serving cfg start next) :
    Timely cfg start w' next where
  begun := inv.begun.trans later
  rows := by
    rw [conns]
    exact fun row recorded => (inv.rows row recorded).imp_right fun done => done.trans later
  order := conns ▸ inv.order
  trigger waits := triggerNs ▸ (inv.trigger (mt none waits)).imp_right fun past => past.trans later
  serving := serving

theorem Timely.recorded {w w' : Worker W} {row : ConnRow} {last next : Int}
    (inv : Timely cfg start w last) (later : last ≤ next) (conns : w'.conns = w.conns ++ [row])
    (consistent : row.Consistent start) (free : ∀ earlier ∈ w.conns, earlier.doneNs ≤ row.dequeueNs)
    (done : row.doneNs ≤ last) (triggerNs : w'.burstTriggerNs = w.burstTriggerNs)
    (none : w.followUps = [] → w'.followUps = []) (serving : w'.Serving cfg start next) :
    Timely cfg start w' next where
  begun := inv.begun.trans later
  rows := by
    rw [conns]
    exact List.forall_mem_append.2
      ⟨fun earlier among => (inv.rows earlier among).imp_right fun past => past.trans later,
        List.forall_mem_singleton.2 ⟨consistent, done.trans later⟩⟩
  order := by
    rw [conns, List.pairwise_append]
    exact ⟨inv.order, List.pairwise_singleton .., fun earlier among other last =>
      List.mem_singleton.1 last ▸ free earlier among⟩
  trigger waits := triggerNs ▸ (inv.trigger (mt none waits)).imp_right fun past => past.trans later
  serving := serving

theorem asMicros_le (duration : Nat) : (asMicros duration).toNat * 1000 ≤ duration := by
  have whole : (asMicros duration).toNat ≤ duration / 1000 := by
    rw [asMicros, UInt32.toNat_ofNat']
    exact Nat.mod_le ..
  omega

theorem moves_timely {shared : SharedState W} {w w' : Worker W} {label : Sys} {op : MemOp}
    {last next : Int} (inv : Timely cfg start w last) (stands : label.standsAt next)
    (slept : last + w.sleepNs cfg ≤ next)
    (arrived : ∀ desc ∈ w.pc.holding, start ≤ desc.arrivalNs ∧ desc.arrivalNs ≤ next)
    (moved : Moves F policy cfg i shared w label op w') : Timely cfg start w' next := by
  have later : last ≤ next := by omega
  have past (row : ConnRow) (recorded : row ∈ w.conns) : row.doneNs ≤ next :=
    (inv.rows row recorded).2.trans later
  have waiting (serves : w.pc.burstIds ≠ []) : w.followUps ≠ [] := fun none =>
    serves (List.append_eq_nil_iff.1 none).1
  have serving := inv.serving
  simp only [Worker.Serving, Worker.sleepNs] at serving slept
  cases moved with
  | burstNow now pc =>
      obtain rfl : now = next := stands
      have begun := inv.begun.trans later
      exact ⟨begun, fun row recorded => ⟨(inv.rows row recorded).1, past row recorded⟩, inv.order,
        fun _ => ⟨begun, le_rfl⟩, trivial⟩
  | chooseBurst pc backlog =>
      exact inv.kept later rfl rfl (Eq.trans (followUps_chosen pc _)) trivial
  | burstAdd ids pc =>
      have phase := nextBurst_phase (W := W) policy ids
      exact inv.kept later rfl rfl (Eq.trans (followUps_kept pc phase.1 rfl))
        (serving_of_free (nextBurst_handling ids))
  | burstDequeue now connId rest pc configured =>
      obtain rfl : now = next := stands
      obtain ⟨since, triggered⟩ := inv.trigger (waiting (by simp [pc, Pc.burstIds]))
      exact inv.kept later rfl rfl (Eq.trans (followUps_kept pc rfl rfl))
        ⟨⟨since, triggered.trans later, past⟩, le_rfl⟩
  | burstMissing now connId rest pc missing =>
      have waits := waiting (by simp [pc, Pc.burstIds])
      exact inv.kept later rfl rfl (absurd · waits) trivial
  | burstSlept connId rest dequeueNs pc =>
      simp only [pc] at serving slept
      exact inv.kept later rfl rfl (Eq.trans (followUps_kept pc rfl rfl)) ⟨serving.1, by omega⟩
  | burstDone now connId rest dequeueNs pc =>
      simp only [pc] at serving
      obtain rfl : now = next := stands
      exact inv.kept later rfl rfl (Eq.trans (followUps_kept pc rfl rfl))
        ⟨serving.1, serving.2.trans later, le_rfl⟩
  | burstSub connId rest dequeueNs doneNs burst pc configured =>
      simp only [pc] at serving
      obtain ⟨⟨since, waited, free⟩, served, done⟩ := serving
      have waits := waiting (by simp [pc, Pc.burstIds])
      have cost : (asMicros burst.serviceNs).toNat * 1000 ≤ burstNs cfg := by
        simpa [burstNs, configured] using asMicros_le burst.serviceNs
      refine inv.recorded later rfl ⟨since, waited, ?_⟩ free done rfl (absurd · waits)
        (serving_of_free (nextBurst_handling rest))
      change dequeueNs + (asMicros burst.serviceNs).toNat * 1000 ≤ doneNs
      omega
  | pop deadline batch call pc =>
      have phase := pollStep_phase (W := W) deadline batch (popStep (shared.queues i) call).2
      exact inv.kept later rfl rfl (Eq.trans (followUps_kept pc phase.1 rfl))
        (serving_of_free (pollStep_handling ..))
  | acceptAdd batch pc =>
      have phase := nextAccept_phase (W := W) policy batch
      exact inv.kept later rfl rfl (Eq.trans (followUps_kept pc phase.1 rfl))
        (serving_of_free (nextAccept_handling batch))
  | acceptDequeue now desc rest pc =>
      obtain rfl : now = next := stands
      obtain ⟨since, known⟩ := arrived desc (by simp [pc, Pc.holding])
      exact inv.kept later rfl rfl (Eq.trans (followUps_kept pc rfl rfl))
        ⟨⟨since, known, past⟩, le_rfl⟩
  | acceptSlept desc rest dequeueNs pc =>
      simp only [pc] at serving slept
      exact inv.kept later rfl rfl (Eq.trans (followUps_kept pc rfl rfl)) ⟨serving.1, by omega⟩
  | acceptDone now desc rest dequeueNs pc =>
      simp only [pc] at serving
      obtain rfl : now = next := stands
      exact inv.kept later rfl rfl (Eq.trans (followUps_kept pc rfl rfl))
        ⟨serving.1, serving.2.trans later, le_rfl⟩
  | acceptSub desc rest dequeueNs doneNs pc =>
      simp only [pc] at serving
      obtain ⟨⟨since, waited, free⟩, served, done⟩ := serving
      have phase := nextAccept_phase (W := W) policy rest
      exact inv.recorded later rfl ⟨since, waited, served⟩ free done rfl
        (Eq.trans (followUps_kept pc phase.1 rfl)) (serving_of_free (nextAccept_handling rest))
  | _ =>
      have here := ‹w.pc = _›
      exact inv.kept later rfl rfl (Eq.trans (followUps_kept here rfl rfl)) trivial

end Worker

section Runs

variable {F : Type} [MetricArith F] {policy : Policy} {cfg : WorkloadConfig} {seed : UInt64}
  {genStart : Int} {starts : Fin W → Int} {start : Int}

theorem run_arrivals {s : SimState W}
    (steps : Steps (step F policy cfg seed) (initial cfg genStart starts) s) (i : Fin W) :
    ((s.workers i).accepted.map ConnRow.arrivalNs ++
      (s.workers i).pc.holding.map ConnDesc.arrivalNs).Sublist s.gen.stamps := by
  have rows : (s.workers i).popped.map ConnDesc.arrivalNs =
      (s.workers i).accepted.map ConnRow.arrivalNs ++
        (s.workers i).pc.holding.map ConnDesc.arrivalNs :=
    preserve_worker
      (fun w => w.popped.map ConnDesc.arrivalNs =
        w.accepted.map ConnRow.arrivalNs ++ w.pc.holding.map ConnDesc.arrivalNs)
      (fun _ _ _ _ _ rows moved => moves_rows (fun _ _ _ => rfl) moved rows) steps rfl
  have popped : (s.workers i).popped = (pushedTo i s.gen.sent).take (s.workers i).popped.length :=
    (run_simInv steps (simInv_initial genStart starts) i).ring.prefixed
  rw [← rows, popped]
  exact ((List.take_sublist ..).map _).trans (pushedTo_stamps s.gen i)

structure TimedInv (cfg : WorkloadConfig) (start : Int) (p : SimState W × Times W) : Prop where
  begun : start ≤ p.2.now
  arrivals : Stamped start p.1.gen.stamps p.2.now
  timely : ∀ i, Timely cfg start (p.1.workers i) (p.2.worker i)
  last : ∀ i, p.2.worker i ≤ p.2.now

theorem run_timed {p : SimState W × Times W}
    (steps : Steps (timedStep F policy cfg seed) (initial cfg genStart starts, .start start) p) :
    Steps (step F policy cfg seed) (initial cfg genStart starts) p.1 ∧ TimedInv cfg start p := by
  refine Steps.preserve (fun p =>
    Steps (step F policy cfg seed) (initial cfg genStart starts) p.1 ∧ TimedInv cfg start p) ?_ steps
    ⟨.refl, le_rfl, stamped_nil, fun i => timely_initial (starts i), fun _ => le_rfl⟩
  intro p move q inv taken
  obtain ⟨earlier, begun, arrivals, timely, last⟩ := inv
  obtain ⟨act, now⟩ := move
  obtain ⟨ready, taken⟩ := timedStep_eq_some.1 taken
  obtain ⟨⟨stands, later⟩, taken, times⟩ := clockedStep_eq_some.1 taken
  refine ⟨earlier.tail ⟨act, trivial, taken⟩, ?_⟩
  cases act with
  | gen label =>
      obtain ⟨moved, same⟩ := step_gen taken
      constructor
      · simpa [← times] using begun.trans later
      · simpa [← times] using arrivals.read begun later (moves_stamps stands moved)
      · simpa [← times, same] using timely
      · simpa [← times] using fun i => (last i).trans later
  | worker i label =>
      obtain ⟨op, moved, _, gen, others⟩ := step_worker taken
      have known := arrivals.later later
      constructor
      · simpa [← times] using begun.trans later
      · simpa [← times, gen] using known
      · intro j
        by_cases self : j = i
        · subst self
          simp only [← times, Times.advance_worker, Function.update_self]
          refine moves_timely (timely j) stands ready (fun desc held => ?_) moved
          exact known.past _ ((run_arrivals earlier j).subset
            (List.mem_append_right _ (List.mem_map_of_mem held)))
        · simpa only [← times, Times.advance_worker, Function.update_of_ne self, others j self] using
            timely j
      · intro j
        by_cases self : j = i
        · simp [← times, self]
        · simpa [← times, self] using (last j).trans later

theorem timelines_consistent {moves : List (Act W × Int)} {s : SimState W} {times : Times W}
    (run : exec (timedStep F policy cfg seed) (initial cfg genStart starts, .start start) moves =
      some (s, times)) :
    (∀ i, ∀ row ∈ (s.workers i).conns, row.arrivalNs ≤ row.dequeueNs ∧
      row.dequeueNs ≤ row.doneNs ∧ row.serviceUs.toNat * 1000 ≤ row.doneNs - row.dequeueNs) ∧
    (∀ i, (s.workers i).conns.Pairwise fun earlier later => earlier.doneNs ≤ later.dequeueNs) ∧
    (∀ i, ((s.workers i).accepted.map ConnRow.arrivalNs).Pairwise (· ≤ ·)) ∧
    (times.now - start < 2 ^ 63 → ∀ i, ∀ row ∈ (s.workers i).conns,
      0 ≤ row.queueWaitUs ∧ 0 ≤ row.latencyUs ∧
        row.queueWaitUs + row.serviceUs.toNat ≤ row.latencyUs) := by
  obtain ⟨steps, begun, arrivals, timely, last⟩ := run_timed (exec_steps run)
  refine ⟨fun i row recorded => ?_, fun i => (timely i).order, fun i => ?_,
    fun fits i row recorded => ?_⟩
  · obtain ⟨_, waited, served⟩ := ((timely i).rows row recorded).1
    exact ⟨waited, by omega, by omega⟩
  · exact (arrivals.sublist ((List.sublist_append_left ..).trans (run_arrivals steps i))).order
  · obtain ⟨⟨since, waited, served⟩, done⟩ : row.Consistent start ∧ row.doneNs ≤ times.worker i :=
      (timely i).rows row recorded
    have past : times.worker i ≤ times.now := last i
    rw [ConnRow.latencyUs_of_fits (by omega) (by omega),
      ConnRow.queueWaitUs_of_fits (by omega) (by omega), Int.tdiv_eq_ediv_of_nonneg (by omega),
      Int.tdiv_eq_ediv_of_nonneg (by omega)]
    omega

end Runs

def burstAtTen : WorkloadConfig := { hangAndBurst with hang := none }

def reads (now : Int) : Sys × Int := (.clock now, now)

def stepsAt (count : Nat) (now : Int) : List (Sys × Int) := List.replicate count (.internal, now)

def byGen (move : Sys × Int) : Act W × Int := (.gen move.1, move.2)

def byWorker (i : Fin W) (move : Sys × Int) : Act W × Int := (.worker i move.1, move.2)

def sentAtOne : List (Sys × Int) :=
  stepsAt 1 0 ++ [reads 0] ++ stepsAt 1 0 ++ [reads 1] ++ stepsAt 4 1

def acceptThenBurst : List (Sys × Int) :=
  -- The connection is served from 3 to 1004 and its follow-up, fired at 1006, from 1007 to 2008.
  [reads 2] ++ stepsAt 1 2 ++ [reads 2] ++ stepsAt 1 2 ++ [reads 2] ++ stepsAt 1 2 ++ [reads 3] ++
    stepsAt 8 3 ++ [reads 3] ++ stepsAt 1 1003 ++ [reads 1004] ++ stepsAt 1 1004 ++ [reads 1004] ++
    stepsAt 7 1004 ++ [reads 1005] ++ stepsAt 1 1005 ++ [reads 1005] ++ stepsAt 2 1005 ++
    [reads 1005, reads 1006] ++ stepsAt 2 1006 ++ [reads 1007] ++ stepsAt 1 2007 ++ [reads 2008] ++
    stepsAt 1 2008

theorem timelines_consistent_accept_and_burst :
    ∃ s : SimState 1, ((s.workers 0).conns.map fun row => (row.arrivalNs, row.dequeueNs, row.doneNs)) =
        [(1, 3, 1004), (1006, 1007, 2008)] ∧
      ((s.workers 0).conns.Pairwise fun earlier later => earlier.doneNs ≤ later.dequeueNs) ∧
      (s.workers 0).conns.all fun row =>
        decide (row.queueWaitUs + row.serviceUs.toNat ≤ row.latencyUs) := by
  have run : ((exec (timedStep Rat .reuseportHash burstAtTen 0)
      (initial burstAtTen 0 fun _ => 0, .start 0)
      (sentAtOne.map byGen ++ acceptThenBurst.map (byWorker (0 : Fin 1)))).map fun p =>
        (((p.1.workers 0).conns.map fun row => (row.arrivalNs, row.dequeueNs, row.doneNs)),
          p.2.now)) = some ([(1, 3, 1004), (1006, 1007, 2008)], 2008) := by decide +kernel
  obtain ⟨⟨s, times⟩, executed, values⟩ := Option.map_eq_some_iff.1 run
  obtain ⟨rows, now⟩ := Prod.mk.inj values
  obtain ⟨_, apart, _, columns⟩ := timelines_consistent executed
  have fits : times.now - 0 < 2 ^ 63 := by
    rw [show times.now = 2008 from now]
    decide
  refine ⟨s, rows, apart 0, List.all_eq_true.2 fun row recorded => ?_⟩
  exact decide_eq_true (columns fits 0 row recorded).2.2

end MicroHermes.Sim
