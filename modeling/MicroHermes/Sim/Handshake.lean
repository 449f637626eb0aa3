import MicroHermes.Sim.Conservation
import MicroHermes.Sim.WeakQueue

set_option autoImplicit false

namespace MicroHermes.Sim

open Counter Transition ViewMemory

variable {W : Nat}

def newestQueue (mem : Mem W) (i : Fin W) : ConnQueue where
  tail := mem.value (.tail i) (mem.last (.tail i))
  head := mem.value (.head i) (mem.last (.head i))
  slots cell := mem.value (.slot i cell) (mem.last (.slot i cell))

section Frame

variable {i : Fin W} {mem after : Mem W} {pushed popped : List ConnDesc} {push : PushPc}
  {pop : PopPc}

theorem newestQueue_observe (observes : mem.Observes after) (i : Fin W) :
    newestQueue after i = newestQueue mem i := by
  simp only [newestQueue, observes.value, observes.last]

theorem newestQueue_frame {loc : Loc W} (foreign : Foreign i loc) (t : Thread W) (value : Val loc)
    (release : Bool) : newestQueue (mem.store t loc value release) i = newestQueue mem i := by
  obtain ⟨tail, head, slot⟩ := foreign
  simp only [newestQueue, Memory.store_value_other mem t value release tail,
    Memory.store_value_other mem t value release head,
    Memory.store_value_other mem t value release (slot _),
    Memory.store_last_other mem t value release tail,
    Memory.store_last_other mem t value release head,
    Memory.store_last_other mem t value release (slot _)]

theorem foreign_shutdown (i : Fin W) : Foreign i .shutdown :=
  ⟨by simp, by simp, by simp⟩

theorem foreign_tail {i j : Fin W} (other : i ≠ j) : Foreign i (.tail j) :=
  ⟨by simpa using other, by simp, by simp⟩

theorem foreign_head {i j : Fin W} (other : i ≠ j) : Foreign i (.head j) :=
  ⟨by simp, by simpa using other, by simp⟩

theorem foreign_slot {i j : Fin W} (other : i ≠ j) (cell : Fin queueCap) :
    Foreign i (.slot j cell) :=
  ⟨by simp, by simp, by simp [other]⟩

theorem Pc.writes_of_idle (i : Fin W) {pc : Pc W} (idle : pc.popPc = .idle) (mem : Mem W) :
    pc.writes i mem = mem := by
  cases pc with
  | pop _ _ call =>
      simp only [Pc.popPc] at idle
      subst idle
      rfl
  | _ => rfl

theorem Pc.writes_head (j : Fin W) (pc : Pc W) (mem : Mem W) :
    pc.writes j mem = mem ∨ ∃ head : UInt32,
      pc.writes j mem = mem.store (.worker j) (.head j) head true := by
  cases pc with
  | pop _ _ call =>
      cases call with
      | storeHead head desc => exact .inr ⟨head + 1, rfl⟩
      | _ => exact .inl rfl
  | _ => exact .inl rfl

theorem PushPc.writes_other {j : Fin W} (other : i ≠ j) (call : PushPc) (mem : Mem W) :
    call.writes j mem = mem ∨ ∃ loc : Loc W, ∃ value : Val loc, ∃ release,
      Foreign i loc ∧ loc ≠ .shutdown ∧ call.writes j mem = mem.store .gen loc value release := by
  cases call with
  | writeSlot desc tail =>
      exact .inr ⟨.slot j (slotOf tail), desc, false, foreign_slot other _, by simp, rfl⟩
  | storeTail desc tail =>
      exact .inr ⟨.tail j, (tail + 1 : UInt32), true, foreign_tail other, by simp, rfl⟩
  | _ => exact .inl rfl

end Frame

section Handshake

variable {F : Type} [MetricArith F] {policy : Policy} {cfg : WorkloadConfig} {seed : UInt64}
  {i : Fin W}

structure Handshake (i : Fin W) (s : WeakState W) : Prop where
  coherent : s.mem.Coherent
  ring : WeakRing i s.mem (pushedTo i s.gen.sent) (s.workers i).popped (s.gen.pc.pushPc i)
    (s.workers i).pc.popPc
  flag : ∀ number, s.mem.value .shutdown number = (1 : UInt32) → s.gen.pc = .finished
  stop : StopInv s.gen (newestQueue s.mem i) (s.workers i).pc

theorem handshake_initial (genStart : Int) (starts : Fin W → Int) (i : Fin W) :
    Handshake i (weakInitial cfg genStart starts) where
  coherent := Memory.coherent_initial zeroVal
  ring := weakRing_initial i
  flag number set := absurd (show (0 : UInt32) = 1 from set) (by decide)
  stop := trivial

def ExitTailNewest (i : Fin W) (s : WeakState W) : WeakAct W → Prop
  -- The tail load of an exit test that has seen the flag returns the newest store.
  | .worker j _ pick _ => j = i → (s.workers i).pc = .exitTail →
      s.mem.index (.worker i) (.tail i) (pick (.tail i)) = s.mem.last (.tail i)
  | _ => True

theorem WeakRing.consume {mem : Mem W} {pushed : List ConnDesc} {push : PushPc} {w w' : Worker W}
    (inv : WeakRing i mem pushed w.popped push w.pc.popPc) (coherent : mem.Coherent)
    {outside : SharedState W} {pick : Loc W → Nat} {label : Sys} {op : MemOp}
    (moved : Moves F policy cfg i (apparent outside mem (.worker i) pick) w label op w') :
    WeakRing i (w.pc.writes i (read mem (.worker i) pick (w.pc.reads i))) pushed w'.popped push
      w'.pc.popPc := by
  rcases moved.queue with ⟨deadline, batch, here, _, popped, pc⟩ | ⟨idle, _, popped, pc⟩
  · have popping := inv.pops coherent outside pick
    have reads : w.pc.reads i = w.pc.popPc.reads i := by rw [here]; rfl
    have writes (mem : Mem W) : w.pc.writes i mem = w.pc.popPc.writes i mem := by rw [here]; rfl
    rw [popped, reads, writes, pc]
    rcases pollStep_popPc (W := W) deadline batch
        (popStep ((apparent outside mem (.worker i) pick).queues i) w.pc.popPc).2 with
      same | fresh | fresh
    · rw [same]
      exact popping
    · rw [fresh]
      exact { popping with pop := trivial }
    · rw [fresh]
      exact { popping with pop := trivial }
  · have kept := inv.observe (read_observes coherent (.worker i) pick (w.pc.reads i))
    rw [popped, Pc.writes_of_idle i idle]
    rcases pc with fresh | fresh
    · rw [fresh]
      exact { kept with pop := trivial }
    · rw [fresh]
      exact { kept with pop := trivial }

theorem WeakRing.produce {mem : Mem W} {gen gen' : Generator W} {popped : List ConnDesc}
    {pop : PopPc} (inv : WeakRing i mem (pushedTo i gen.sent) popped (gen.pc.pushPc i) pop)
    (coherent : mem.Coherent) {outside shared' : SharedState W} {pick : Loc W → Nat} {label : Sys}
    (moved : GenMoves policy cfg seed (apparent outside mem .gen pick) gen label shared' gen') :
    WeakRing i (gen.pc.writes (read mem .gen pick gen.pc.reads)) (pushedTo i gen'.sent) popped
      (gen'.pc.pushPc i) pop := by
  have observes := read_observes coherent .gen pick gen.pc.reads
  have kept := inv.observe observes
  cases moved with
  | push target call pc =>
      by_cases self : target = i
      · subst self
        have current : gen.pc.pushPc target = call := by simp [pc, GenPc.pushPc]
        rw [current] at inv
        have pushing := inv.pushes coherent outside pick
        obtain ⟨call', pushed⟩ := afterPush_self cfg target gen call
          (pushStep ((apparent outside mem .gen pick).queues target) call).2
        rw [pc, pushed]
        rcases call' with same | fresh
        · rw [same]
          exact pushing
        · rw [fresh]
          exact { pushing with push := trivial }
      · obtain ⟨call', pushed⟩ := afterPush_other cfg gen self call
          (pushStep ((apparent outside mem .gen pick).queues target) call).2
        rw [pc] at kept ⊢
        simp only [GenPc.pushPc, self, if_false] at kept
        rw [call', pushed, GenPc.writes]
        rcases call.writes_other (Ne.symm self) (read mem .gen pick (GenPc.push target call).reads) with
          same | ⟨loc, value, release, foreign, _, stored⟩
        · rw [same]
          exact kept
        · rw [stored]
          exact kept.frame foreign ..
  | describe now target pc =>
      rw [pc] at kept ⊢
      by_cases self : target = i
      · simp only [GenPc.pushPc, self, if_true]
        exact { kept with push := trivial }
      · have idle : (GenPc.push target (.loadTail (Sim.describe cfg seed gen.generated now))).pushPc i =
            .idle := by simp [GenPc.pushPc, self]
        rw [idle]
        exact kept
  | drop target desc pc =>
      rw [pc] at kept ⊢
      simp only [Generator.complete, pushedTo_append, Bool.false_eq_true, and_false, if_false,
        List.append_nil]
      exact kept
  | dispatch scan pc =>
      rw [pc] at kept ⊢
      have idle : (afterDispatch (dispatchStep policy (apparent outside mem .gen pick)
          (connHash seed gen.generated) scan)).pushPc i = .idle := by
        cases dispatchStep policy (apparent outside mem .gen pick) (connHash seed gen.generated)
          scan <;> rfl
      rw [idle]
      exact kept
  | shutdown pc =>
      rw [pc] at kept ⊢
      exact kept.frame (foreign_shutdown i) ..
  | _ =>
      rw [‹gen.pc = _›] at kept ⊢
      exact kept

theorem consume_stop {mem : Mem W} {gen : Generator W} {pushed : List ConnDesc} {push : PushPc}
    {w w' : Worker W} (inv : WeakRing i mem pushed w.popped push w.pc.popPc)
    (coherent : mem.Coherent) {outside : SharedState W} {pick : Loc W → Nat} {label : Sys}
    {op : MemOp} (moved : Moves F policy cfg i (apparent outside mem (.worker i) pick) w label op w')
    (flag : ∀ number, mem.value .shutdown number = (1 : UInt32) → gen.pc = .finished)
    (newest : w.pc = .exitTail →
      mem.index (.worker i) (.tail i) (pick (.tail i)) = mem.last (.tail i))
    (stop : StopInv gen (newestQueue mem i) w.pc) :
    StopInv gen (newestQueue (w.pc.writes i (read mem (.worker i) pick (w.pc.reads i))) i) w'.pc := by
  have observes := read_observes coherent (.worker i) pick (w.pc.reads i)
  have next : StopInv gen (op.onQueue (newestQueue mem i)) w'.pc := by
    refine moves_stopInv moved (flag _) (fun exiting => ?_) (coherent.seen_eq inv.headView _) stop
    simp only [apparent, Memory.seen, newest exiting, newestQueue]
  rcases moved.queue with ⟨deadline, batch, _, _, _, pc⟩ | ⟨idle, kept, _, _⟩
  · rw [pc]
    exact stopInv_pollStep ..
  · rw [Pc.writes_of_idle i idle, newestQueue_observe observes]
    rwa [kept] at next

theorem coherent_consume {mem : Mem W} (coherent : mem.Coherent) (j : Fin W) (pc : Pc W)
    (pick : Loc W → Nat) : (pc.writes j (read mem (.worker j) pick (pc.reads j))).Coherent := by
  have loaded := (read_observes coherent (.worker j) pick (pc.reads j)).coherent coherent
  rcases pc.writes_head j (read mem (.worker j) pick (pc.reads j)) with same | ⟨head, stored⟩
  · rw [same]
    exact loaded
  · rw [stored]
    exact Memory.store_coherent loaded ..

theorem coherent_produce {mem : Mem W} (coherent : mem.Coherent) (pc : GenPc W)
    (pick : Loc W → Nat) : (pc.writes (read mem .gen pick pc.reads)).Coherent := by
  have loaded := (read_observes coherent .gen pick pc.reads).coherent coherent
  cases pc with
  | push target call =>
      cases call with
      | writeSlot _ _ | storeTail _ _ => exact Memory.store_coherent loaded ..
      | _ => exact loaded
  | shutdown => exact Memory.store_coherent loaded ..
  | _ => exact loaded

theorem consume_other {mem : Mem W} (coherent : mem.Coherent) {j : Fin W} (other : j ≠ i)
    (pc : Pc W) (pick : Loc W → Nat) {pushed popped : List ConnDesc} {push : PushPc} {pop : PopPc}
    (inv : WeakRing i mem pushed popped push pop) :
    WeakRing i (pc.writes j (read mem (.worker j) pick (pc.reads j))) pushed popped push pop ∧
      newestQueue (pc.writes j (read mem (.worker j) pick (pc.reads j))) i = newestQueue mem i := by
  -- Another worker loads, and stores the head of its own queue at most.
  have observes := read_observes coherent (.worker j) pick (pc.reads j)
  rcases pc.writes_head j (read mem (.worker j) pick (pc.reads j)) with same | ⟨head, stored⟩
  · rw [same]
    exact ⟨inv.observe observes, newestQueue_observe observes i⟩
  · rw [stored]
    have foreign := foreign_head (Ne.symm other)
    exact ⟨(inv.observe observes).frame foreign ..,
      (newestQueue_frame foreign ..).trans (newestQueue_observe observes i)⟩

theorem shutdown_consume {mem : Mem W} (coherent : mem.Coherent) (j : Fin W) (pc : Pc W)
    (pick : Loc W → Nat) :
    (pc.writes j (read mem (.worker j) pick (pc.reads j))).value .shutdown = mem.value .shutdown := by
  have observes := read_observes coherent (.worker j) pick (pc.reads j)
  rcases pc.writes_head j (read mem (.worker j) pick (pc.reads j)) with same | ⟨head, stored⟩
  · rw [same, observes.value]
  · rw [stored, Memory.store_value_other _ _ _ _ (by simp), observes.value]

theorem shutdown_produce {mem : Mem W} (coherent : mem.Coherent) {gen gen' : Generator W}
    {outside shared' : SharedState W} {pick : Loc W → Nat} {label : Sys}
    (moved : GenMoves policy cfg seed (apparent outside mem .gen pick) gen label shared' gen')
    (flag : ∀ number, mem.value .shutdown number = (1 : UInt32) → gen.pc = .finished)
    (number : Nat)
    (set : (gen.pc.writes (read mem .gen pick gen.pc.reads)).value .shutdown number = (1 : UInt32)) :
    gen'.pc = .finished := by
  have observes := read_observes coherent .gen pick gen.pc.reads
  have running := moved.running
  cases moved with
  | shutdown pc => rfl
  | push target call pc =>
      refine absurd (flag number ?_) running
      rw [pc] at set observes
      cases call with
      | writeSlot _ _ | storeTail _ _ =>
          rwa [GenPc.writes, PushPc.writes, Memory.store_value_other _ _ _ _ (by simp),
            observes.value] at set
      | _ => exact observes.value ▸ set
  | _ =>
      refine absurd (flag number ?_) running
      rw [‹gen.pc = _›] at set observes
      exact observes.value ▸ set

theorem weakStep_handshake {s next : WeakState W} {act : WeakAct W} (inv : Handshake i s)
    (newest : ExitTailNewest i s act) (taken : weakStep F policy cfg seed s act = some next) :
    Handshake i next := by
  obtain ⟨coherent, ring, flag, stop⟩ := inv
  cases act with
  | deliver t loc =>
      simp only [weakStep, Option.some.injEq] at taken
      subst taken
      have observes := Memory.deliver_observes coherent t loc
      refine ⟨observes.coherent coherent, ring.observe observes, ?_, ?_⟩
      · rw [observes.value]
        exact flag
      · rw [newestQueue_observe observes]
        exact stop
  | gen label pick outside =>
      simp only [weakStep, Option.map_eq_some_iff] at taken
      obtain ⟨⟨shared, gen⟩, moved, rfl⟩ := taken
      have moves := genStep_moves moved
      exact ⟨coherent_produce coherent .., ring.produce coherent moves,
        shutdown_produce coherent moves flag, stop.running moves.running⟩
  | worker j label pick outside =>
      simp only [weakStep, Option.map_eq_some_iff] at taken
      obtain ⟨⟨op, w⟩, moved, rfl⟩ := taken
      have moves := workerStep_moves moved
      have kept := coherent_consume coherent j (s.workers j).pc pick
      have flag' := shutdown_consume coherent j (s.workers j).pc pick
      by_cases self : j = i
      · subst self
        refine ⟨kept, ?_, fun number => flag' ▸ flag number, ?_⟩
        · simpa only [Function.update_self] using ring.consume coherent moves
        · simpa only [Function.update_self] using
            consume_stop ring coherent moves flag (newest rfl) stop
      · obtain ⟨ring', queue⟩ := consume_other coherent self (s.workers j).pc pick ring
        refine ⟨kept, ?_, fun number => flag' ▸ flag number, ?_⟩
        · simpa only [Function.update_of_ne (Ne.symm self)] using ring'
        · simpa only [Function.update_of_ne (Ne.symm self), queue] using stop

theorem Handshake.drained {s : WeakState W} (inv : Handshake i s)
    (empty : (newestQueue s.mem i).depth = 0) :
    (s.workers i).popped = pushedTo i s.gen.sent := by
  -- Equal indices of the newest queue mean that everything pushed has been popped.
  have ring := inv.ring
  have room := ring.room
  have head := ring.headSeen inv.coherent
  have order := ring.seen.trans (ring.tailSeen inv.coherent)
  have distance := wrap_sub_toNat order (by simp only [queueCap] at room; omega)
  have indices : (newestQueue s.mem i).depth =
      (wrap (pushedTo i s.gen.sent).length - wrap (s.workers i).popped.length).toNat := by
    simp only [newestQueue, ConnQueue.depth, ring.tailLast, ring.headLast,
      ring.tailValue _ le_rfl, ring.headValue _ le_rfl]
  have count : (s.workers i).popped.length = (pushedTo i s.gen.sent).length := by omega
  rw [ring.prefixed, count, List.take_length]

/-- The exit test of worker `i` has seen the flag and finds the queue empty, or the worker is
gone. -/
def FoundEmpty (i : Fin W) (s : WeakState W) : Prop :=
  (∃ (tail : UInt32) (pick : Nat), (s.workers i).pc = .exitHead tail ∧
    tail - s.mem.seen (.worker i) (.head i) pick = 0) ∨ (s.workers i).pc = .exited

theorem handshake_publishes {genStart : Int} {starts : Fin W → Int} {s : WeakState W}
    (steps : StepsIf (weakStep F policy cfg seed) (ExitTailNewest i)
      (weakInitial cfg genStart starts) s) (found : FoundEmpty i s) :
    (s.workers i).popped = pushedTo i s.gen.sent := by
  have inv : Handshake i s := StepsIf.preserve _
    (fun _ _ _ inv newest taken => weakStep_handshake inv newest taken) steps
    (handshake_initial genStart starts i)
  have stop := inv.stop
  rcases found with ⟨tail, pick, here, empty⟩ | here
  · rw [here] at stop
    apply inv.drained
    rw [inv.coherent.seen_eq inv.ring.headView, stop.2] at empty
    exact congrArg UInt32.toNat empty
  · rw [here] at stop
    exact inv.drained stop.2

end Handshake

def newestStore : Loc 1 → Nat := fun _ => 2

def flagOnly : Loc 1 → Nat
  -- The flag is seen, the tail stores before it are not.
  | .shutdown => 1
  | _ => 0

def weakGen (labels : List Sys) : List (WeakAct 1) :=
  labels.map fun label => .gen label newestStore (.zero 1)

def weakWorker (pick : Loc 1 → Nat) (labels : List Sys) : List (WeakAct 1) :=
  labels.map fun label => .worker soloWorker label pick (.zero 1)

def hangThenIdle : List Sys :=
  -- The hang, then an iteration that finds no event and stops polling at the flag.
  [.clock 0, .clock 0, .internal, .clock 2, .internal, .clock 2, .internal, .clock 2, .internal,
    .clock 2, .internal, .internal, .clock 3, .internal, .internal]

def loadsNewest (s : WeakState 1) : WeakAct 1 → Bool
  | .worker _ _ pick _ =>
      s.mem.index (.worker soloWorker) (.tail soloWorker) (pick (.tail soloWorker)) ==
        s.mem.last (.tail soloWorker)
  | _ => true

theorem handshake_publishes_newest :
    ∃ s : WeakState 1, (s.workers 0).popped.length = 1 ∧
      (s.workers 0).popped = pushedTo 0 s.gen.sent := by
  have run : ((exec (restrict (weakStep Rat .reuseportHash hangAndBurst 0) loadsNewest)
      (weakInitial hangAndBurst 0 fun _ => 0)
      (weakGen (sendOne ++ lastTwo) ++
        weakWorker newestStore (hangThenAccept ++ recordTick ++ lastTwo))).map
      fun s : WeakState 1 => ((s.workers 0).popped.length,
        (s.workers 0).pc.hasExited)) = some (1, true) := by
    decide +kernel
  obtain ⟨s, executed, values⟩ := Option.map_eq_some_iff.1 run
  simp only [Prod.mk.injEq] at values
  obtain ⟨count, exited⟩ := values
  have steps : StepsIf (weakStep Rat .reuseportHash hangAndBurst 0) (ExitTailNewest 0)
      (weakInitial hangAndBurst 0 fun _ => 0) s := by
    refine (steps_restrict (exec_steps executed)).weaken fun s act loads => ?_
    cases act with
    | worker j label pick outside => exact fun _ _ => by simpa [loadsNewest] using loads
    | gen | deliver => trivial
  exact ⟨s, count, handshake_publishes steps (.inr (Pc.hasExited_iff.1 exited))⟩

theorem stale_tail_loses_connection :
    ¬ ∀ s : WeakState 1, Steps (weakStep Rat .reuseportHash hangAndBurst 0)
      (weakInitial hangAndBurst 0 fun _ => 0) s → FoundEmpty 0 s →
      (s.workers 0).popped = pushedTo 0 s.gen.sent := by
  intro published
  have run : ((exec (weakStep Rat .reuseportHash hangAndBurst 0)
      (weakInitial hangAndBurst 0 fun _ => 0)
      (weakGen (sendOne ++ lastTwo) ++
        weakWorker flagOnly (hangThenIdle ++ recordTick ++ lastTwo))).map
      fun s : WeakState 1 => ((s.workers 0).popped.length, (pushedTo 0 s.gen.sent).length,
        (s.workers 0).pc.hasExited)) = some (0, 1, true) := by
    decide +kernel
  obtain ⟨s, executed, values⟩ := Option.map_eq_some_iff.1 run
  simp only [Prod.mk.injEq] at values
  obtain ⟨popped, pushed, exited⟩ := values
  have same := congrArg List.length (published s (exec_steps executed) (.inr (Pc.hasExited_iff.1 exited)))
  omega

end MicroHermes.Sim
