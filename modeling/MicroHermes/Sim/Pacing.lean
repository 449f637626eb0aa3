import MicroHermes.Sim.Timeline

set_option autoImplicit false

namespace MicroHermes.Sim

open Transition

variable {W : Nat}

def OnTime (cfg : WorkloadConfig) (start : Int) (connId : Nat) (arrivalNs : Int) : Prop :=
  start + connId * cfg.intervalNs ≤ arrivalNs

def GenPc.waited : GenPc W → Bool
  -- Past the sleep, before the connection is stamped.
  | .dispatch _ | .describe _ => true
  | _ => false

def GenPc.generating : GenPc W → Bool
  | .pace | .paceSleep | .dispatch _ | .describe _ | .push _ _ | .drop _ _ => true
  | _ => false

structure Paced (cfg : WorkloadConfig) (start : Int) (g : Generator W) (now : Int) : Prop where
  begun : g.start = start
  due : g.nextArrival = g.generated * cfg.intervalNs
  sent : ∀ e ∈ g.sent, OnTime cfg start e.desc.connId e.desc.arrivalNs
  current : ∀ desc, g.pc.inHand = some desc → OnTime cfg start desc.connId desc.arrivalNs
  waited : g.pc.waited = true → start + g.nextArrival ≤ now
  inside : g.pc.generating = true → g.nextArrival < cfg.durationNs
  total : 0 < g.generated → (g.generated - 1) * cfg.intervalNs < cfg.durationNs

section Steps

variable {F : Type} [MetricArith F] {policy : Policy} {cfg : WorkloadConfig} {seed : UInt64}
  {start now next : Int} {g g' : Generator W} {shared shared' : SharedState W} {label : Sys}

theorem Paced.initial : Paced cfg start (Generator.initial start : Generator W) now where
  begun := rfl
  due := (Nat.zero_mul _).symm
  sent := nofun
  current := by simp [Generator.initial, GenPc.inHand]
  waited := nofun
  inside := nofun
  total := nofun

theorem Paced.later (inv : Paced cfg start g now) (after : now ≤ next) : Paced cfg start g next :=
  { inv with waited := fun waited => (inv.waited waited).trans after }

theorem Paced.complete (inv : Paced cfg start g now) {desc : ConnDesc} {target : Fin W}
    {pushed : Bool} (inHand : g.pc.inHand = some desc) (generating : g.pc.generating = true) :
    Paced cfg start (g.complete cfg ⟨desc, target, pushed⟩) now where
  begun := inv.begun
  due := by simp [Generator.complete, inv.due, Nat.add_mul]
  sent := List.forall_mem_append.2
    ⟨inv.sent, List.forall_mem_singleton.2 (inv.current desc inHand)⟩
  current := by simp [Generator.complete, GenPc.inHand]
  waited := nofun
  inside := nofun
  total _ := by
    have inside := inv.inside generating
    rw [inv.due] at inside
    simpa [Generator.complete] using inside

theorem Paced.moved (inv : Paced cfg start g now) {pc : GenPc W} (empty : pc.inHand = none)
    (waited : pc.waited = true → start + g.nextArrival ≤ now)
    (inside : pc.generating = true → g.nextArrival < cfg.durationNs) :
    Paced cfg start { g with pc } now :=
  { inv with current := by simp [empty], waited, inside }

theorem Paced.step (inv : Paced cfg start g now) (after : now ≤ next) (stands : label.standsAt next)
    (ready : g.pc = .paceSleep → start + g.nextArrival ≤ next)
    (moved : GenMoves policy cfg seed shared g label shared' g') : Paced cfg start g' next := by
  have inv := inv.later after
  cases moved with
  | enter pc inside => exact inv.moved rfl (absurd · Bool.false_ne_true) fun _ => inside
  | leave pc past =>
      exact inv.moved rfl (absurd · Bool.false_ne_true) (absurd · Bool.false_ne_true)
  | early reading pc ahead =>
      exact inv.moved rfl (absurd · Bool.false_ne_true) fun _ => inv.inside (by rw [pc]; rfl)
  | late reading pc due =>
      obtain rfl : reading = next := stands
      rw [inv.begun] at due
      exact inv.moved rfl (fun _ => not_lt.1 due) fun _ => inv.inside (by rw [pc]; rfl)
  | slept pc => exact inv.moved rfl (fun _ => ready pc) fun _ => inv.inside (by rw [pc]; rfl)
  | dispatch scan pc =>
      have waited := inv.waited (by rw [pc]; rfl)
      have inside := inv.inside (by rw [pc]; rfl)
      refine inv.moved ?_ (fun _ => waited) fun _ => inside
      cases dispatchStep policy shared (connHash seed g.generated) scan <;> rfl
  | describe reading target pc =>
      obtain rfl : reading = next := stands
      have waited := inv.waited (by rw [pc]; rfl)
      refine { inv with
        current := ?_, waited := (absurd · Bool.false_ne_true)
        inside := fun _ => inv.inside (by rw [pc]; rfl) }
      rintro desc ⟨rfl⟩
      rw [inv.due] at waited
      exact_mod_cast waited
  | misdirected reading target pc outside =>
      exact inv.moved rfl (absurd · Bool.false_ne_true) (absurd · Bool.false_ne_true)
  | push target call pc =>
      have inHand : g.pc.inHand = call.inHand := by rw [pc]; rfl
      have generating : g.pc.generating = true := by rw [pc]; rfl
      have kept : ∀ after : GenPc W, after.inHand = call.inHand → after.waited = false →
          Paced cfg start { g with pc := after } next := fun after held past =>
        { inv with
          current := fun desc holds => inv.current desc (by rw [inHand, ← held]; exact holds)
          waited := fun waited => absurd (past.symm.trans waited) Bool.false_ne_true
          inside := fun _ => inv.inside generating }
      cases call with
      | storeTail desc tail => exact inv.complete inHand generating
      | loadHead desc tail =>
          simp only [afterPush, pushStep]
          split
          · exact kept _ rfl rfl
          · exact kept _ rfl rfl
      | idle | loadTail _ | writeSlot _ _ | returned _ => exact kept _ rfl rfl
  | drop target desc pc =>
      have counted : Paced cfg start { g with dropped := g.dropped + 1 } next := { inv with }
      have inHand : g.pc.inHand = some desc := by rw [pc]; rfl
      exact counted.complete inHand (by rw [pc]; rfl)
  | shutdown pc =>
      exact inv.moved rfl (absurd · Bool.false_ne_true) (absurd · Bool.false_ne_true)

end Steps

section Runs

variable {F : Type} [MetricArith F] {policy : Policy} {cfg : WorkloadConfig} {seed : UInt64}
  {starts : Fin W → Int} {start : Int}

theorem run_paced {p : SimState W × Times W}
    (steps : Steps (timedStep F policy cfg seed) (initial cfg start starts, .start start) p) :
    Steps (step F policy cfg seed) (initial cfg start starts) p.1 ∧
      Paced cfg start p.1.gen p.2.now := by
  refine Steps.preserve (fun p =>
    Steps (step F policy cfg seed) (initial cfg start starts) p.1 ∧
      Paced cfg start p.1.gen p.2.now) ?_ steps ⟨.refl, Paced.initial⟩
  intro p move q ⟨earlier, paced⟩ taken
  obtain ⟨act, now⟩ := move
  obtain ⟨ready, taken⟩ := timedStep_eq_some.1 taken
  obtain ⟨⟨stands, later⟩, taken, times⟩ := clockedStep_eq_some.1 taken
  refine ⟨earlier.tail ⟨act, trivial, taken⟩, ?_⟩
  rw [← times, Times.advance_now]
  cases act with
  | gen label =>
      obtain ⟨moved, _⟩ := step_gen taken
      refine paced.step later stands (fun asleep => ?_) moved
      simpa [readyAt, asleep, paced.begun] using ready
  | worker i label =>
      obtain ⟨op, moved, _, gen, others⟩ := step_worker taken
      rw [gen]
      exact paced.later later

theorem run_accepted {s : SimState W}
    (steps : Steps (step F policy cfg seed) (initial cfg start starts) s) {i : Fin W} {row : ConnRow}
    (recorded : row ∈ (s.workers i).accepted) :
    ∃ e ∈ s.gen.sent, e.desc.connId = row.connId ∧ e.desc.arrivalNs = row.arrivalNs := by
  have rows : (s.workers i).popped.map (fun desc => (desc.connId, desc.arrivalNs)) =
      (s.workers i).accepted.map (fun row => (row.connId, row.arrivalNs)) ++
        (s.workers i).pc.holding.map fun desc => (desc.connId, desc.arrivalNs) :=
    preserve_worker
      (fun w => w.popped.map (fun desc => (desc.connId, desc.arrivalNs)) =
        w.accepted.map (fun row => (row.connId, row.arrivalNs)) ++
          w.pc.holding.map fun desc => (desc.connId, desc.arrivalNs))
      (fun _ _ _ _ _ rows moved => moves_rows (fun _ _ _ => rfl) moved rows) steps rfl
  have told : (row.connId, row.arrivalNs) ∈
      (s.workers i).popped.map fun desc => (desc.connId, desc.arrivalNs) := by
    rw [rows]
    exact List.mem_append_left _ (List.mem_map_of_mem recorded)
  obtain ⟨desc, popped, same⟩ := List.mem_map.1 told
  have prefixed : (s.workers i).popped =
      (pushedTo i s.gen.sent).take (s.workers i).popped.length :=
    (run_simInv steps (simInv_initial start starts) i).ring.prefixed
  rw [prefixed] at popped
  obtain ⟨e, pushed, rfl⟩ := List.mem_map.1 (List.mem_of_mem_take popped)
  obtain ⟨connId, arrivalNs⟩ := Prod.mk.inj same
  exact ⟨e, List.mem_of_mem_filter pushed, connId, arrivalNs⟩

theorem arrivals_paced {moves : List (Act W × Int)} {s : SimState W} {times : Times W}
    (run : exec (timedStep F policy cfg seed) (initial cfg start starts, .start start) moves =
      some (s, times)) :
    (∀ (k : Nat) e, s.gen.sent[k]? = some e → e.desc.connId = k ∧
      start + k * cfg.intervalNs ≤ e.desc.arrivalNs) ∧
    (∀ i, ∀ row ∈ (s.workers i).accepted,
      start + row.connId * cfg.intervalNs ≤ row.arrivalNs) ∧
    (0 < s.gen.generated → (s.gen.generated - 1) * cfg.intervalNs < cfg.durationNs) := by
  obtain ⟨steps, paced⟩ := run_paced (exec_steps run)
  have ids := (run_ledger steps (ledger_initial start _ fun _ => rfl)).ids
  refine ⟨fun k e found => ?_, fun i row recorded => ?_, paced.total⟩
  · have entry := congrArg (·[k]?) ids
    simp only [List.getElem?_map, found, Option.map_some] at entry
    obtain ⟨_, numbered⟩ := List.getElem?_eq_some_iff.1 entry.symm
    rw [List.getElem_range] at numbered
    refine ⟨numbered.symm, ?_⟩
    rw [numbered]
    exact paced.sent e (List.mem_of_getElem? found)
  · obtain ⟨e, sent, connId, arrivalNs⟩ := run_accepted steps recorded
    rw [← connId, ← arrivalNs]
    exact paced.sent e sent

end Runs

def pacedArrivals : WorkloadConfig :=
  { burstAtTen with intervalNs := 100, durationNs := 200, burst := none }

def sentLate : List (Sys × Int) :=
  -- The first connection is late by 30, and the second one is sent when it is due all the same.
  stepsAt 1 0 ++ [reads 30] ++ stepsAt 1 30 ++ [reads 30] ++ stepsAt 4 30 ++ stepsAt 1 30 ++
    [reads 30] ++ stepsAt 1 100 ++ stepsAt 1 100 ++ [reads 100] ++ stepsAt 4 100

theorem arrivals_paced_two :
    ∃ s : SimState 1, s.gen.sent.map (fun e => e.desc.arrivalNs) = [30, 100] ∧
      ∀ (k : Nat) e, s.gen.sent[k]? = some e → e.desc.connId = k ∧
        0 + k * pacedArrivals.intervalNs ≤ e.desc.arrivalNs := by
  have run : (exec (timedStep Rat .reuseportHash pacedArrivals 0)
      (initial pacedArrivals 0 fun _ : Fin 1 => 0, .start 0) (sentLate.map byGen)).map (fun p =>
        p.1.gen.sent.map fun e => e.desc.arrivalNs) = some [30, 100] := by decide +kernel
  obtain ⟨⟨s, times⟩, executed, values⟩ := Option.map_eq_some_iff.1 run
  exact ⟨s, values, (arrivals_paced executed).1⟩

end MicroHermes.Sim
