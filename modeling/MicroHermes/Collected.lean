import MicroHermes.Pruning
import MicroHermes.Timing

set_option autoImplicit false

namespace MicroHermes

open Transition Bitmap

variable {W : Nat}

-- The fields of a slot in the order `WorkerSlot::snapshot` loads them.
inductive Field where
  | lastLoopEntry
  | pendingEvents
  | accumulatedConns
  deriving DecidableEq

def Field.position : Field → Nat
  | .lastLoopEntry => 0
  | .pendingEvents => 1
  | .accumulatedConns => 2

def WorkerSlot.get (slot : WorkerSlot) : Field → Int
  | .lastLoopEntry => slot.lastLoopEntry
  | .pendingEvents => slot.pendingEvents
  | .accumulatedConns => slot.accumulatedConns

def WorkerSnapshot.get (taken : WorkerSnapshot) : Field → Int
  | .lastLoopEntry => taken.lastLoopEntry
  | .pendingEvents => taken.pendingEvents
  | .accumulatedConns => taken.accumulatedConns

def SnapshotPc.has (pc : SnapshotPc W) (i : Fin W) (field : Field) : Prop :=
  3 * i.val + field.position < pc.cursor

theorem WorkerSnapshot.get_load (slot : WorkerSlot) (taken : WorkerSnapshot) (field : Field) :
    (taken.load field.position slot).get field = slot.get field := by
  cases field <;> rfl

theorem WorkerSnapshot.get_load_other (slot : WorkerSlot) (taken : WorkerSnapshot) (field : Field)
    {loaded : Nat} (small : loaded < 3) (other : field.position ≠ loaded) :
    (taken.load loaded slot).get field = taken.get field := by
  obtain rfl | rfl | rfl : loaded = 0 ∨ loaded = 1 ∨ loaded = 2 := by omega
  · cases field <;> simp_all [Field.position, load, get]
  · cases field <;> simp_all [Field.position, load, get]
  · cases field <;> simp_all [Field.position, load, get]

theorem SnapshotPc.not_has_start (i : Fin W) (field : Field) :
    ¬ (SnapshotPc.start : SnapshotPc W).has i field := by
  simp [has, start]

theorem SnapshotPc.has_of_finished {pc : SnapshotPc W} (finished : pc.finished = true) (i : Fin W)
    (field : Field) : pc.has i field := by
  have inside := i.isLt
  simp only [SnapshotPc.finished, decide_eq_true_eq] at finished
  unfold SnapshotPc.has
  cases field <;> simp only [Field.position] <;> omega

theorem SnapshotPc.has_step (wst : Wst W) (pc : SnapshotPc W) (i : Fin W) (field : Field)
    (has : (pc.step wst).has i field) :
    pc.cursor = 3 * i.val + field.position ∧
        ((pc.step wst).taken i).get field = (wst i).get field ∨
      pc.has i field ∧ ((pc.step wst).taken i).get field = (pc.taken i).get field := by
  -- One more load changes the value it loads and no other.
  have small : field.position < 3 := by cases field <;> decide
  unfold SnapshotPc.step SnapshotPc.has at *
  split
  · next inside =>
      simp only [inside, dif_pos] at has ⊢
      by_cases current : i.val = pc.cursor / 3
      · have same : i = ⟨pc.cursor / 3, inside⟩ := Fin.ext current
        rw [← same, Function.update_self]
        by_cases loading : field.position = pc.cursor % 3
        · left
          refine ⟨by omega, ?_⟩
          rw [← loading, WorkerSnapshot.get_load]
        · right
          refine ⟨by omega, ?_⟩
          exact WorkerSnapshot.get_load_other _ _ field (Nat.mod_lt _ (by decide)) loading
      · have other : i ≠ ⟨pc.cursor / 3, inside⟩ := fun same => current (congrArg Fin.val same)
        right
        rw [Function.update_of_ne other]
        exact ⟨by omega, rfl⟩
  · next outside =>
      simp only [outside, dif_neg, not_false_eq_true] at has
      exact .inr ⟨has, rfl⟩

def Pass.Took (F : Type) [MetricArith F] (Held : Int → Fin W → Field → Int → Prop) :
    Pass W → Prop
  | .idle => True
  | .loading now snap => ∀ i field, snap.has i field → Held now i field ((snap.taken i).get field)
  | .computed now result => ∃ taken : Snapshots W,
      result = scheduleFromSnapshots F taken now hangThresholdNs ∧
        ∀ i field, Held now i field ((taken i).get field)

namespace Timing

variable {F : Type} [MetricArith F] {state next final : Timing W} {label : TimedMove W}
  {Held Held' : Int → Fin W → Field → Int → Prop} {p : Fin W} {old new : Pass W}

theorem PassStep.took (pass : PassStep F state next label p old new) (took : old.Took F Held)
    (stable : ∀ now i field value, Held now i field value → Held' now i field value)
    (held : ∀ now ∈ old.reading, ∀ i field, Held' now i field ((state.wst i).get field)) :
    new.Took F Held' := by
  cases pass with
  | kept =>
      cases old with
      | idle => trivial
      | loading now snap => exact fun i field has => stable _ _ _ _ (took i field has)
      | computed now result =>
          obtain ⟨taken, same, values⟩ := took
          exact ⟨taken, same, fun i field => stable _ _ _ _ (values i field)⟩
  | started => exact fun i field has => absurd has (SnapshotPc.not_has_start i field)
  | loaded now snap =>
      intro i field has
      rcases SnapshotPc.has_step state.wst snap i field has with ⟨_, same⟩ | ⟨earlier, same⟩
      · rw [same]
        exact held now rfl i field
      · rw [same]
        exact stable _ _ _ _ (took i field earlier)
  | computed now snap finished =>
      exact ⟨snap.taken, rfl, fun i field =>
        stable _ _ _ _ (took i field (SnapshotPc.has_of_finished finished i field))⟩
  | published => trivial

theorem took_of_steps {allowed : Timing W → TimedMove W → Prop} (recent : Int → Prop)
    (width : W ≤ 64) (inv : Inv F state)
    (held : ∀ state label, allowed state label → ∀ now, recent now → now ≤ state.latest →
      ∀ i field, Held now i field ((state.wst i).get field))
    (took : ∀ p, (∀ now ∈ (state.pass p).reading, recent now) → (state.pass p).Took F Held)
    (steps : StepsIf (step F) allowed state final) :
    ∀ p, (∀ now ∈ (final.pass p).reading, recent now) → (final.pass p).Took F Held := by
  refine (StepsIf.preserve (fun state : Timing W => Inv F state ∧
    ∀ p, (∀ now ∈ (state.pass p).reading, recent now) → (state.pass p).Took F Held)
    ?_ steps ⟨inv, took⟩).2
  intro state label next holds permitted moved
  obtain ⟨inv, took⟩ := holds
  refine ⟨step_inv width inv moved, fun p young => ?_⟩
  have pass := step_pass moved p
  by_cases before : ∀ now ∈ (state.pass p).reading, recent now
  · refine pass.took (took p before) (fun _ _ _ _ => id) fun now read => ?_
    exact held state label permitted now (before now read) (inv.readings p now read)
  · -- An old pass is over: this one has just begun.
    generalize state.pass p = old at pass before
    generalize next.pass p = new at pass young
    cases pass with
    | kept => exact absurd young before
    | started => exact fun i field has => absurd has (SnapshotPc.not_has_start i field)
    | loaded | computed => exact absurd young before
    | published => trivial

end Timing

end MicroHermes
