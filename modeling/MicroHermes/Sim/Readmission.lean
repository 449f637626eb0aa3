import MicroHermes.Readmission
import MicroHermes.Sim.HangIsolation

set_option autoImplicit false

namespace MicroHermes.Sim

open Transition Bitmap

variable {W : Nat} {F : Type} [MetricArith F] {policy : Policy} {cfg : WorkloadConfig}
  {seed : UInt64} {genStart : Int} {starts : Fin W → Int}
  {state published after final : SimState W × Readings W} {h p : Fin W}

theorem Balanced.conns_nonneg {slot : WorkerSlot} {w : Worker W} {books : Books}
    (inv : Balanced slot w books) (distinct : (books.closed.map Prod.fst).Nodup) :
    0 ≤ slot.accumulatedConns := by
  have known : books.closed.map Prod.fst ⊆ books.counted.map ConnDesc.connId := by
    intro connId gone
    obtain ⟨conn, member, rfl⟩ := List.mem_map.1 gone
    obtain ⟨_, _, desc, found, _, _, same, _⟩ := inv.expired conn member
    exact same ▸ List.mem_map_of_mem found
  have few := (distinct.subperm known).length_le
  have conns := inv.conns
  simp only [List.length_map] at few
  omega

theorem counters_nonneg {s : SimState W}
    (steps : Steps (step F policy cfg seed) (initial cfg genStart starts) s) (i : Fin W) :
    0 ≤ (s.shared.wst i).accumulatedConns ∧ 0 ≤ (s.shared.wst i).pendingEvents := by
  obtain ⟨acts, run⟩ := StepsIf.exec steps
  obtain ⟨books, recorded⟩ := exec_observed keepBooks run fun _ => .empty
  have booked : BookedInv cfg (s.shared.wst i) (s.workers i) (books i) :=
    run_booked (exec_steps recorded) (fun i =>
      ⟨planned_initial (starts i), ⟨rfl, Nat.zero_le _⟩, balanced_initial (starts i)⟩) i
  have distinct := booked.balanced.held.nodup_iff.2 (accepted_nodup steps i)
  refine ⟨booked.balanced.conns_nonneg (distinct.sublist (List.sublist_append_right ..)), ?_⟩
  rw [booked.busy.pending]
  exact Int.natCast_nonneg _

structure Idle (h : Fin W) (state : SimState W × Readings W) : Prop where
  fresh : (state.1.shared.wst h).lastLoopEntry = 0 ∨
    state.2.latest - (state.1.shared.wst h).lastLoopEntry < hangThresholdNs
  unconnected : (state.1.shared.wst h).accumulatedConns = 0
  settled : (state.1.shared.wst h).pendingEvents = 0

instance (h : Fin W) (state : SimState W × Readings W) : Decidable (Idle h state) :=
  decidable_of_iff
    (((state.1.shared.wst h).lastLoopEntry = 0 ∨
        state.2.latest - (state.1.shared.wst h).lastLoopEntry < hangThresholdNs) ∧
      (state.1.shared.wst h).accumulatedConns = 0 ∧ (state.1.shared.wst h).pendingEvents = 0)
    ⟨fun ⟨fresh, unconnected, settled⟩ => ⟨fresh, unconnected, settled⟩,
      fun idle => ⟨idle.fresh, idle.unconnected, idle.settled⟩⟩

theorem favoured_of_idle
    (reached : Steps (readingStep F policy cfg seed) (initial cfg genStart starts, .initial) state)
    (idle : Idle h state) : Timing.Favoured h 0 0 (timing state) where
  fresh := idle.fresh
  fewConns := idle.unconnected.le
  otherConns i _ := (counters_nonneg (steps_step reached) i).1
  fewPending := idle.settled.le
  otherPending i _ := (counters_nonneg (steps_step reached) i).2

theorem favoured_refines
    (reached : Steps (readingStep F policy cfg seed) (initial cfg genStart starts, .initial) state)
    (kept : ReadingKept state)
    (idle : StepsIf (readingStep F policy cfg seed) (fun now _ => Idle h now) state final) :
    ReadingKept final ∧ StepsIf (Timing.step F)
      (fun now _ => Timing.Favoured h 0 0 now) (timing state) (timing final) := by
  induction idle with
  | refl => exact ⟨kept, .refl⟩
  | tail earlier lastStep ih =>
      obtain ⟨keptMiddle, refined⟩ := ih
      obtain ⟨act, idle, taken⟩ := lastStep
      have known := Relation.ReflTransGen.trans reached (StepsIf.forget earlier)
      obtain ⟨keptLast, move, _, moved⟩ := timing_simulates keptMiddle taken
      exact ⟨keptLast, refined.tail ⟨move, favoured_of_idle known idle, moved⟩⟩

theorem idle_worker_readmitted (width : W ≤ 64) {result : ScheduleResult}
    (reached : Steps (readingStep Rat policy cfg seed) (initial cfg genStart starts, .initial) state)
    (idle : StepsIf (readingStep Rat policy cfg seed) (fun now _ => Idle h now) state published)
    (young : ∀ p, (published.1.workers p).pc.passing = true →
      state.2.latest < published.2.lastOf p)
    (still : Idle h published)
    (position : (published.1.workers p).pc = .publish result)
    (publish : readingStep Rat policy cfg seed published (.worker p .internal) = some after)
    (later : StepsIf (readingStep Rat policy cfg seed) (fun now _ => Idle h now) after final) :
    bit final.1.shared.msel h = true := by
  obtain ⟨kept, inv⟩ := timing_inv width reached
  obtain ⟨keptPublished, steps⟩ := favoured_refines reached kept idle
  have reachedPublished := Relation.ReflTransGen.trans reached idle.forget
  have invPublished := Timing.inv_of_steps width inv steps.forget
  have welcomed := Timing.welcomed_since width inv steps (reading_of_passing keptPublished young)
  obtain ⟨keptAfter, move, source, moved⟩ := timing_simulates keptPublished publish
  rw [publish_of_comesFrom position source] at moved
  have favoured := favoured_of_idle reachedPublished still
  have welcomedAfter := Timing.welcomed_of_steps width invPublished welcomed
    (.single ⟨_, favoured, moved⟩)
  exact Timing.selectable_of_steps width (Timing.step_inv width invPublished moved) welcomedAfter
    (welcomed.publish width moved)
    (favoured_refines (reachedPublished.tail ⟨_, trivial, publish⟩) keptAfter later).2

theorem idle_worker_readmitted_second :
    ∃ state : SimState 3 × Readings 3, state.1.shared.msel = 3 ∧
      bit state.1.shared.msel 1 = true := by
  -- Worker 2 hangs meanwhile and is left out.
  have ran : (do
      let state ← exec plainStep (initial plainTraffic 0 fun _ => 0, Readings.initial) (untilPass 2 0)
      let published ← exec (restrict plainStep fun now _ => decide (Idle 1 now)) state
        (passAt 0 205000001)
      let result ← publishing (published.1.workers 0).pc
      let after ← plainStep published (.worker 0 .internal)
      some (state.2.latest, (List.finRange 3).map fun p =>
        (!(published.1.workers p).pc.passing || decide (state.2.latest < published.2.lastOf p)),
        decide (Idle 1 published), after.1.shared.msel)) =
      some (205000000, [true, true, true], true, 3) := by decide +kernel
  simp only [Option.bind_eq_bind, Option.bind_eq_some_iff, Option.some.injEq, Prod.mk.injEq] at ran
  obtain ⟨state, before, published, waited, result, position, after, set, _, late, still, names⟩ :=
    ran
  have young (p : Fin 3) (passing : (published.1.workers p).pc.passing = true) :
      state.2.latest < published.2.lastOf p := by
    have all : ∀ b ∈ (List.finRange 3).map fun p => (!(published.1.workers p).pc.passing ||
        decide (state.2.latest < published.2.lastOf p)), b = true := by
      rw [late]
      decide
    simpa [passing] using all _ (List.mem_map_of_mem (List.mem_finRange p))
  have named := idle_worker_readmitted (h := 1) (p := 0) (by decide) (exec_steps before)
    ((steps_restrict (exec_steps waited)).weaken fun _ _ holds => of_decide_eq_true holds) young
    (of_decide_eq_true still) (publishing_eq_some.1 position) set .refl
  exact ⟨after, names, named⟩

end MicroHermes.Sim
