import MicroHermes.Readmission
import MicroHermes.Shares
import MicroHermes.Server.Accounting
import MicroHermes.Server.HangDetection

set_option autoImplicit false

namespace MicroHermes.Server

open Transition Bitmap

variable {W : Nat} {cfg : Config W} {start : Fin W → Int} {h p : Fin W} {conns pending : Int}

section Favoured

variable {state published after final : Host W × Clock W}

theorem favoured_refines
    (steps : StepsIf (timed Rat cfg)
      (fun now _ => Timing.Favoured h conns pending (timing now)) state final)
    (kept : ReadingKept state) :
    ReadingKept final ∧ StepsIf (Timing.step Rat)
      (fun now _ => Timing.Favoured h conns pending now) (timing state) (timing final) :=
  timing_refines (fun now _ => Timing.Favoured h conns pending now)
    (fun _ _ _ favoured _ => favoured) steps kept

theorem young_of_passing (kept : ReadingKept state) {since : Int}
    (young : ∀ p, (state.1.workers p).pc.passing = true → since < state.2.lastOf p) :
    ∀ p, ∀ now ∈ ((timing state).pass p).reading, since < now := by
  intro p now read
  have late := young p
  have current := kept p
  simp only [timing] at read
  generalize (state.1.workers p).pc = pc at read late current
  cases pc with
  | snapshot reading snap =>
      cases read
      exact current now snap rfl ▸ late rfl
  | publish result =>
      cases read
      exact late rfl
  | _ => cases read

theorem named_while_favoured (width : W ≤ 64)
    (reached : Steps (timed Rat cfg) (Host.initial cfg start, Clock.initial) state)
    (favoured : StepsIf (timed Rat cfg)
      (fun now _ => Timing.Favoured h conns pending (timing now)) state published)
    (young : ∀ p, (published.1.workers p).pc.passing = true →
      state.2.latest < published.2.lastOf p)
    (still : Timing.Favoured h conns pending (timing published))
    (publish : timed Rat cfg published (.worker p (.mapSet true)) = some after)
    (later : StepsIf (timed Rat cfg)
      (fun now _ => Timing.Favoured h conns pending (timing now)) after final) :
    bit final.1.shared.mSel h = true := by
  obtain ⟨kept, inv⟩ := timing_inv width reached
  obtain ⟨keptPublished, steps⟩ := favoured_refines favoured kept
  have invPublished := Timing.inv_of_steps width inv steps.forget
  have welcomed := Timing.welcomed_since width inv steps (young_of_passing keptPublished young)
  obtain ⟨keptAfter, move, source, moved⟩ := timing_simulates keptPublished publish
  rw [publish_of_comesFrom source] at moved
  have selectable := welcomed.publish width moved
  have welcomedAfter := Timing.welcomed_of_steps width invPublished welcomed
    (.single ⟨_, still, moved⟩)
  have invAfter := Timing.step_inv width invPublished moved
  exact Timing.selectable_of_steps width invAfter welcomedAfter selectable
    (favoured_refines later keptAfter).2

theorem Host.least_loaded_selectable (width : W ≤ 64)
    (reached : Steps (timed Rat cfg) (Host.initial cfg start, Clock.initial) state)
    (favoured : StepsIf (timed Rat cfg)
      (fun now _ => Timing.Favoured h conns pending (timing now)) state published)
    (young : ∀ p, (published.1.workers p).pc.passing = true →
      state.2.latest < published.2.lastOf p)
    (still : Timing.Favoured h conns pending (timing published))
    (publish : timed Rat cfg published (.worker p (.mapSet true)) = some after)
    (later : StepsIf (timed Rat cfg)
      (fun now _ => Timing.Favoured h conns pending (timing now)) after final) :
    bit final.1.shared.mSel h = true ∧
      (2 ≤ (countOnes final.1.shared.mSel).toNat →
        2 ^ 32 / (countOnes final.1.shared.mSel).toNat ≤ hashShare W final.1.shared.mSel h) := by
  have named := named_while_favoured width reached favoured young still publish later
  refine ⟨named, fun several => ?_⟩
  rcases hashShare_of_set width several h.isLt named with floor | ceiling
  · exact floor.ge
  · rw [ceiling]
    rw [Nat.ceilDiv_eq_add_pred_div]
    exact Nat.div_le_div_right (by omega)

end Favoured

section Idle

abbrev accountedTimed (F : Type) [MetricArith F] (cfg : Config W) :
    (Host W × Clock W) × (Fin W → FdTable) → Act W →
      Option ((Host W × Clock W) × (Fin W → FdTable)) :=
  product (timed F cfg) (kernelStep cfg)

abbrev accountedStart (cfg : Config W) (start : Fin W → Int) :
    (Host W × Clock W) × (Fin W → FdTable) :=
  ((Host.initial cfg start, Clock.initial), FdTable.initial cfg)

structure Idle (h : Fin W) (state : Host W × Clock W) : Prop where
  fresh : (state.1.shared.wst h).lastLoopEntry = 0 ∨
    state.2.latest - (state.1.shared.wst h).lastLoopEntry < hangThresholdNs
  unconnected : (state.1.shared.wst h).accumulatedConns = 0
  settled : (state.1.shared.wst h).pendingEvents = 0

instance (h : Fin W) (state : Host W × Clock W) : Decidable (Idle h state) :=
  decidable_of_iff
    (((state.1.shared.wst h).lastLoopEntry = 0 ∨
        state.2.latest - (state.1.shared.wst h).lastLoopEntry < hangThresholdNs) ∧
      (state.1.shared.wst h).accumulatedConns = 0 ∧ (state.1.shared.wst h).pendingEvents = 0)
    ⟨fun ⟨fresh, unconnected, settled⟩ => ⟨fresh, unconnected, settled⟩,
      fun idle => ⟨idle.fresh, idle.unconnected, idle.settled⟩⟩

variable {F : Type} [MetricArith F]
  {state published after final : (Host W × Clock W) × (Fin W → FdTable)}

theorem steps_timed
    (reached : Steps (accountedTimed F cfg) (accountedStart cfg start) state) :
    Steps (timed F cfg) (Host.initial cfg start, Clock.initial) state.1 :=
  reached.lift Prod.fst fun _ _ ⟨act, _, taken⟩ =>
    ⟨act, trivial, ((product_eq_some ..).1 taken).1⟩

theorem steps_accounted
    (reached : Steps (accountedTimed F cfg) (accountedStart cfg start) state) :
    Steps (product (Host.step F cfg) (kernelStep cfg))
      (Host.initial cfg start, FdTable.initial cfg) (state.1.1, state.2) := by
  refine reached.lift (fun state => (state.1.1, state.2)) fun _ _ ⟨act, _, taken⟩ => ?_
  obtain ⟨timedTaken, answered⟩ := (product_eq_some ..).1 taken
  obtain ⟨moved, _⟩ := (product_eq_some ..).1 timedTaken
  exact ⟨act, trivial, (product_eq_some ..).2 ⟨moved, answered⟩⟩

theorem Accounted.nonneg {i : Fin W} {w : Worker W} {slot : WorkerSlot} {table : FdTable}
    (inv : Accounted cfg i w slot table) : 0 ≤ slot.accumulatedConns ∧ 0 ≤ slot.pendingEvents := by
  obtain ⟨descriptors, batch⟩ := inv
  have counted := descriptors.counted
  have pending := batch.counted
  constructor
  · omega
  · omega

theorem counters_nonneg
    (reached : Steps (accountedTimed F cfg) (accountedStart cfg start) state) (i : Fin W) :
    0 ≤ (state.1.1.shared.wst i).accumulatedConns ∧
      0 ≤ (state.1.1.shared.wst i).pendingEvents :=
  (Host.accounted (steps_accounted reached) i).nonneg

theorem favoured_of_idle
    (reached : Steps (accountedTimed F cfg) (accountedStart cfg start) state)
    (idle : Idle h state.1) : Timing.Favoured h 0 0 (timing state.1) where
  fresh := idle.fresh
  fewConns := idle.unconnected.le
  otherConns i _ := (counters_nonneg reached i).1
  fewPending := idle.settled.le
  otherPending i _ := (counters_nonneg reached i).2

theorem timed_of_steps
    {allowed : (Host W × Clock W) × (Fin W → FdTable) → Act W → Prop}
    {permitted : Host W × Clock W → Act W → Prop}
    (fits : ∀ now act, Steps (accountedTimed F cfg) (accountedStart cfg start) now →
      allowed now act → permitted now.1 act)
    (reached : Steps (accountedTimed F cfg) (accountedStart cfg start) state)
    (steps : StepsIf (accountedTimed F cfg) allowed state final) :
    StepsIf (timed F cfg) permitted state.1 final.1 := by
  induction steps with
  | refl => exact .refl
  | tail earlier lastStep ih =>
      obtain ⟨act, allows, taken⟩ := lastStep
      have known := Relation.ReflTransGen.trans reached (StepsIf.forget earlier)
      exact ih.tail ⟨act, fits _ act known allows, ((product_eq_some ..).1 taken).1⟩

theorem favoured_of_steps
    (reached : Steps (accountedTimed F cfg) (accountedStart cfg start) state)
    (idle : StepsIf (accountedTimed F cfg) (fun now _ => Idle h now.1) state final) :
    StepsIf (timed F cfg) (fun now _ => Timing.Favoured h 0 0 (timing now)) state.1 final.1 :=
  timed_of_steps (fun _ _ known settled => favoured_of_idle known settled) reached idle

theorem Host.idle_worker_selectable (width : W ≤ 64)
    (reached : Steps (accountedTimed Rat cfg) (accountedStart cfg start) state)
    (idle : StepsIf (accountedTimed Rat cfg) (fun now _ => Idle h now.1) state published)
    (young : ∀ p, (published.1.1.workers p).pc.passing = true →
      state.1.2.latest < published.1.2.lastOf p)
    (still : Idle h published.1)
    (publish : accountedTimed Rat cfg published (.worker p (.mapSet true)) = some after)
    (later : StepsIf (accountedTimed Rat cfg) (fun now _ => Idle h now.1) after final) :
    bit final.1.1.shared.mSel h = true := by
  have reachedPublished := Relation.ReflTransGen.trans reached idle.forget
  have reachedAfter := reachedPublished.tail ⟨_, trivial, publish⟩
  exact named_while_favoured width (steps_timed reached) (favoured_of_steps reached idle) young
    (favoured_of_idle reachedPublished still) ((product_eq_some ..).1 publish).1
    (favoured_of_steps reachedAfter later)

end Idle

section Examples

structure WaitingRun (state published after : (Host 2 × Clock 2) × (Fin 2 → FdTable)) : Prop where
  reached : Steps (accountedTimed Rat pairConfig) (accountedStart pairConfig fun _ => 0) state
  idle : StepsIf (accountedTimed Rat pairConfig) (fun now _ => Idle 1 now.1) state published
  young : ∀ p, (published.1.1.workers p).pc.passing = true →
    state.1.2.latest < published.1.2.lastOf p
  still : Idle 1 published.1
  publish : accountedTimed Rat pairConfig published (.worker 0 (.mapSet true)) = some after
  names : after.1.1.shared.mSel = 3

theorem waitingRun : ∃ state published after, WaitingRun state published after := by
  have ran : (do
      let state ← exec (accountedTimed Rat pairConfig) (accountedStart pairConfig fun _ => 0)
        stalledRun
      let published ← exec (restrict (accountedTimed Rat pairConfig) fun now _ =>
        decide (Idle 1 now.1)) state (.worker 0 (.clock 10) :: loads ++ [.worker 0 .internal])
      let after ← accountedTimed Rat pairConfig published (.worker 0 (.mapSet true))
      some (state.1.2.latest, published.1.2.lastOf 0, (published.1.1.workers 1).pc.passing,
        decide (Idle 1 published.1), after.1.1.shared.mSel)) =
      some (5, 10, false, true, 3) := by decide +kernel
  simp only [Option.bind_eq_bind, Option.bind_eq_some_iff, Option.some.injEq, Prod.mk.injEq] at ran
  obtain ⟨state, before, published, waited, after, set, read, late, parked, idle, names⟩ := ran
  refine ⟨state, published, after, exec_steps before, ?_, fun p passing => ?_, ?_, set, names⟩
  · exact (steps_restrict (exec_steps waited)).weaken fun _ _ holds => of_decide_eq_true holds
  · obtain rfl | rfl : p = 0 ∨ p = 1 := by omega
    · omega
    · rw [parked] at passing
      cases passing
  · exact of_decide_eq_true idle

theorem Host.least_loaded_selectable_waiting :
    ∃ final : Host 2 × Clock 2, bit final.1.shared.mSel 1 = true := by
  obtain ⟨state, published, after, run⟩ := waitingRun
  have still := favoured_of_idle (Relation.ReflTransGen.trans run.reached run.idle.forget) run.still
  obtain ⟨moved, _⟩ := (product_eq_some (timed Rat pairConfig) _ _ _ _).1 run.publish
  exact ⟨after.1, (Host.least_loaded_selectable (by decide) (steps_timed run.reached)
    (favoured_of_steps run.reached run.idle) run.young still moved .refl).1⟩

theorem Host.idle_worker_selectable_waiting :
    ∃ final : (Host 2 × Clock 2) × (Fin 2 → FdTable), bit final.1.1.shared.mSel 1 = true := by
  obtain ⟨state, published, after, run⟩ := waitingRun
  have named := Host.idle_worker_selectable (by decide) run.reached run.idle run.young run.still
    run.publish .refl
  exact ⟨after, named⟩

end Examples

end MicroHermes.Server
