import Mathlib.Logic.Function.Basic
import Mathlib.Tactic.Common
import MicroHermes.Common

set_option autoImplicit false

/-!
# Worker Status Table

`wst.rs` of both programs: one slot per worker, each field an atomic that is loaded and stored on its
own.
-/

namespace MicroHermes

structure WorkerSlot where
  lastLoopEntry : Int
  pendingEvents : Int
  accumulatedConns : Int
  deriving DecidableEq, Repr

-- What MAP_ANONYMOUS gives: all fields zero.
def WorkerSlot.zero : WorkerSlot := ⟨0, 0, 0⟩

/-- Copy of a worker's metrics. The fields need not be from one instant. -/
structure WorkerSnapshot where
  lastLoopEntry : Int
  pendingEvents : Int
  accumulatedConns : Int
  deriving DecidableEq, Repr

abbrev Wst (W : Nat) := Fin W → WorkerSlot

abbrev Snapshots (W : Nat) := Fin W → WorkerSnapshot

variable {W : Nat}

def WorkerSlot.storeLoopEntry (slot : WorkerSlot) (now : Int) : WorkerSlot :=
  { slot with lastLoopEntry := now }

def WorkerSlot.addPending (slot : WorkerSlot) (amount : Int) : WorkerSlot :=
  { slot with pendingEvents := slot.pendingEvents + amount }

def WorkerSlot.addConns (slot : WorkerSlot) (amount : Int) : WorkerSlot :=
  { slot with accumulatedConns := slot.accumulatedConns + amount }

/-- A running `Wst::snapshot_all`: three loads per slot, slot after slot. `cursor` loads are done. -/
structure SnapshotPc (W : Nat) where
  cursor : Nat
  taken : Snapshots W

def SnapshotPc.start : SnapshotPc W := ⟨0, fun _ => ⟨0, 0, 0⟩⟩

def SnapshotPc.finished (pc : SnapshotPc W) : Bool := decide (3 * W ≤ pc.cursor)

def WorkerSnapshot.load (field : Nat) (slot : WorkerSlot) (taken : WorkerSnapshot) :
    WorkerSnapshot :=
  -- One of the three loads of `WorkerSlot::snapshot`.
  match field with
  | 0 => { taken with lastLoopEntry := slot.lastLoopEntry }
  | 1 => { taken with pendingEvents := slot.pendingEvents }
  | _ => { taken with accumulatedConns := slot.accumulatedConns }

def SnapshotPc.step (wst : Wst W) (pc : SnapshotPc W) : SnapshotPc W :=
  if inside : pc.cursor / 3 < W then
    let i : Fin W := ⟨pc.cursor / 3, inside⟩
    { cursor := pc.cursor + 1
      taken := Function.update pc.taken i ((pc.taken i).load (pc.cursor % 3) (wst i)) }
  else pc

def SnapshotPc.stamped (pc : SnapshotPc W) (i : Fin W) : Prop := 3 * i.val < pc.cursor

theorem SnapshotPc.step_stamp (wst : Wst W) (pc : SnapshotPc W) (i : Fin W)
    (stamped : (pc.step wst).stamped i) :
    pc.stamped i ∧ ((pc.step wst).taken i).lastLoopEntry = (pc.taken i).lastLoopEntry ∨
      ((pc.step wst).taken i).lastLoopEntry = (wst i).lastLoopEntry ∧ pc.cursor = 3 * i.val := by
  -- The stamps a pass holds after one more load: the one it has just read is the slot's, the others
  -- are unchanged.
  unfold SnapshotPc.step SnapshotPc.stamped at *
  split
  · next inside =>
      simp only [inside, dif_pos] at stamped ⊢
      by_cases current : i.val = pc.cursor / 3
      · have same : i = ⟨pc.cursor / 3, inside⟩ := Fin.ext current
        rw [← same]
        simp only [Function.update_self]
        by_cases first : pc.cursor % 3 = 0
        · right
          refine ⟨by simp [first, WorkerSnapshot.load], by omega⟩
        · left
          refine ⟨by omega, ?_⟩
          obtain second | third : pc.cursor % 3 = 1 ∨ pc.cursor % 3 = 2 := by omega
          · simp [second, WorkerSnapshot.load]
          · simp [third, WorkerSnapshot.load]
      · have other : i ≠ ⟨pc.cursor / 3, inside⟩ := fun same => current (congrArg Fin.val same)
        left
        refine ⟨by omega, ?_⟩
        rw [Function.update_of_ne other]
  · next outside =>
      simp only [outside, dif_neg, not_false_eq_true] at stamped
      exact .inl ⟨stamped, rfl⟩

theorem SnapshotPc.stamped_step (wst : Wst W) {pc : SnapshotPc W} {i : Fin W}
    (stamped : pc.stamped i) : (pc.step wst).stamped i := by
  unfold SnapshotPc.step SnapshotPc.stamped at *
  split
  · simp only
    omega
  · exact stamped

theorem SnapshotPc.stamped_of_finished {pc : SnapshotPc W} (finished : pc.finished = true)
    (i : Fin W) : pc.stamped i := by
  have inside := i.isLt
  simp only [SnapshotPc.finished, decide_eq_true_eq] at finished
  unfold SnapshotPc.stamped
  omega

end MicroHermes
