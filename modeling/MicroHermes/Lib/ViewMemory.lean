import Mathlib.Logic.Function.Basic
import Mathlib.Order.Lattice
import Mathlib.Order.Nat
import Mathlib.Tactic.Common

set_option autoImplicit false

/-!
# Memory with views

Each location keeps the list of its stores, numbered from 0 for the initial one. A thread's view of
a location is the newest store it has to respect: a load returns that one or a later one and moves
the view there. A release store carries the view of its thread, and an acquire load that reads it
joins that view to its own. A location has one writer at a time, so stores go to the end of the
list.
-/

namespace ViewMemory

variable {Thread Loc : Type} {Val : Loc → Type}

structure Memory (Thread Loc : Type) (Val : Loc → Type) where
  -- The number of the newest store.
  last : Loc → Nat
  value : (loc : Loc) → Nat → Val loc
  -- The view that a store carries; the empty view unless it is a release store.
  released : Loc → Nat → Loc → Nat
  view : Thread → Loc → Nat

namespace Memory

def initial (zero : (loc : Loc) → Val loc) : Memory Thread Loc Val where
  last _ := 0
  value loc _ := zero loc
  released _ _ _ := 0
  view _ _ := 0

/-- The store that a load returns when it goes for number `pick`. -/
def index (mem : Memory Thread Loc Val) (t : Thread) (loc : Loc) (pick : Nat) : Nat :=
  max (mem.view t loc) (min pick (mem.last loc))

def seen (mem : Memory Thread Loc Val) (t : Thread) (loc : Loc) (pick : Nat) : Val loc :=
  mem.value loc (mem.index t loc pick)

section Operations

variable [DecidableEq Thread] [DecidableEq Loc]

def load (mem : Memory Thread Loc Val) (t : Thread) (loc : Loc) (acquire : Bool) (pick : Nat) :
    Memory Thread Loc Val :=
  { mem with
    view := Function.update mem.view t fun other =>
      max (if other = loc then mem.index t loc pick else mem.view t other)
        (if acquire then mem.released loc (mem.index t loc pick) other else 0) }

def store (mem : Memory Thread Loc Val) (t : Thread) (loc : Loc) (value : Val loc)
    (release : Bool) : Memory Thread Loc Val :=
  let number := mem.last loc + 1
  let view := Function.update (mem.view t) loc number
  { last := Function.update mem.last loc number
    value := Function.update mem.value loc (Function.update (mem.value loc) number value)
    released := Function.update mem.released loc
      (Function.update (mem.released loc) number (if release then view else fun _ => 0))
    view := Function.update mem.view t view }

def deliver (mem : Memory Thread Loc Val) (t : Thread) (loc : Loc) : Memory Thread Loc Val :=
  -- A store reaches a thread that has not asked for it.
  mem.load t loc false (mem.view t loc + 1)

end Operations

structure Coherent (mem : Memory Thread Loc Val) : Prop where
  view : ∀ t loc, mem.view t loc ≤ mem.last loc
  released : ∀ loc number other, mem.released loc number other ≤ mem.last other

structure Observes (mem after : Memory Thread Loc Val) : Prop where
  last : after.last = mem.last
  value : after.value = mem.value
  released : after.released = mem.released
  view : ∀ t loc, mem.view t loc ≤ after.view t loc
  bounded : ∀ t loc, after.view t loc ≤ mem.last loc

section Rules

variable {mem after : Memory Thread Loc Val} {t : Thread} {loc : Loc}

theorem coherent_initial (zero : (loc : Loc) → Val loc) :
    Coherent (initial zero : Memory Thread Loc Val) :=
  ⟨fun _ _ => le_rfl, fun _ _ _ => le_rfl⟩

theorem view_le_index (mem : Memory Thread Loc Val) (t : Thread) (loc : Loc) (pick : Nat) :
    mem.view t loc ≤ mem.index t loc pick := le_max_left ..

theorem Coherent.index_le (coherent : mem.Coherent) (t : Thread) (loc : Loc) (pick : Nat) :
    mem.index t loc pick ≤ mem.last loc :=
  max_le (coherent.view t loc) (min_le_right ..)

theorem Coherent.index_eq (coherent : mem.Coherent) (current : mem.view t loc = mem.last loc)
    (pick : Nat) : mem.index t loc pick = mem.last loc :=
  le_antisymm (coherent.index_le t loc pick) (current ▸ view_le_index mem t loc pick)

theorem Coherent.seen_eq (coherent : mem.Coherent) (current : mem.view t loc = mem.last loc)
    (pick : Nat) : mem.seen t loc pick = mem.value loc (mem.last loc) := by
  rw [seen, coherent.index_eq current]

theorem Observes.refl (coherent : mem.Coherent) : mem.Observes mem :=
  ⟨rfl, rfl, rfl, fun _ _ => le_rfl, coherent.view⟩

theorem Observes.coherent (observes : mem.Observes after) (coherent : mem.Coherent) :
    after.Coherent where
  view t loc := by
    rw [observes.last]
    exact observes.bounded t loc
  released loc number other := by
    rw [observes.last, observes.released]
    exact coherent.released loc number other

theorem Observes.current (observes : mem.Observes after)
    (current : mem.view t loc = mem.last loc) : after.view t loc = after.last loc := by
  rw [observes.last]
  exact le_antisymm (observes.bounded t loc) (current ▸ observes.view t loc)

variable [DecidableEq Thread] [DecidableEq Loc]

theorem load_observes (coherent : mem.Coherent) (t : Thread) (loc : Loc) (acquire : Bool)
    (pick : Nat) : mem.Observes (mem.load t loc acquire pick) where
  last := rfl
  value := rfl
  released := rfl
  view u other := by
    by_cases reader : u = t
    · subst reader
      simp only [load, Function.update_self]
      split
      · next same => exact same ▸ (view_le_index ..).trans (le_max_left ..)
      · exact le_max_left ..
    · simp [load, reader]
  bounded u other := by
    by_cases reader : u = t
    · subst reader
      simp only [load, Function.update_self]
      refine max_le ?_ ?_
      · split
        · next same => exact same ▸ coherent.index_le ..
        · exact coherent.view u other
      · split
        · exact coherent.released ..
        · exact Nat.zero_le _
    · simpa [load, reader] using coherent.view u other

theorem deliver_observes (coherent : mem.Coherent) (t : Thread) (loc : Loc) :
    mem.Observes (mem.deliver t loc) :=
  load_observes coherent ..

theorem load_view_self (mem : Memory Thread Loc Val) (t : Thread) (loc : Loc) (acquire : Bool)
    (pick : Nat) : mem.index t loc pick ≤ (mem.load t loc acquire pick).view t loc := by
  simp [load]

theorem acquire_view (mem : Memory Thread Loc Val) (t : Thread) (loc other : Loc) (pick : Nat) :
    mem.released loc (mem.index t loc pick) other ≤ (mem.load t loc true pick).view t other := by
  simp [load]

@[simp] theorem store_last_self (mem : Memory Thread Loc Val) (t : Thread) (loc : Loc)
    (value : Val loc) (release : Bool) :
    (mem.store t loc value release).last loc = mem.last loc + 1 := by
  simp [store]

theorem store_last_other (mem : Memory Thread Loc Val) (t : Thread) {loc other : Loc}
    (value : Val loc) (release : Bool) (different : other ≠ loc) :
    (mem.store t loc value release).last other = mem.last other := by
  simp [store, different]

@[simp] theorem store_value_new (mem : Memory Thread Loc Val) (t : Thread) (loc : Loc)
    (value : Val loc) (release : Bool) :
    (mem.store t loc value release).value loc (mem.last loc + 1) = value := by
  simp [store]

theorem store_value_old (mem : Memory Thread Loc Val) (t : Thread) {loc : Loc} (value : Val loc)
    (release : Bool) {number : Nat} (old : number ≤ mem.last loc) :
    (mem.store t loc value release).value loc number = mem.value loc number := by
  have different : number ≠ mem.last loc + 1 := by omega
  simp [store, different]

theorem store_value_other (mem : Memory Thread Loc Val) (t : Thread) {loc other : Loc}
    (value : Val loc) (release : Bool) (different : other ≠ loc) :
    (mem.store t loc value release).value other = mem.value other := by
  simp [store, different]

theorem store_released_old (mem : Memory Thread Loc Val) (t : Thread) {loc : Loc}
    (value : Val loc) (release : Bool) {number : Nat} (old : number ≤ mem.last loc) :
    (mem.store t loc value release).released loc number = mem.released loc number := by
  have different : number ≠ mem.last loc + 1 := by omega
  simp [store, different]

theorem store_released_new (mem : Memory Thread Loc Val) (t : Thread) {loc other : Loc}
    (value : Val loc) (different : other ≠ loc) :
    (mem.store t loc value true).released loc (mem.last loc + 1) other = mem.view t other := by
  simp [store, different]

theorem store_released_other (mem : Memory Thread Loc Val) (t : Thread) {loc other : Loc}
    (value : Val loc) (release : Bool) (different : other ≠ loc) :
    (mem.store t loc value release).released other = mem.released other := by
  simp [store, different]

@[simp] theorem store_view_self (mem : Memory Thread Loc Val) (t : Thread) (loc : Loc)
    (value : Val loc) (release : Bool) :
    (mem.store t loc value release).view t loc = mem.last loc + 1 := by
  simp [store]

theorem store_view_other (mem : Memory Thread Loc Val) (t u : Thread) {loc other : Loc}
    (value : Val loc) (release : Bool) (different : other ≠ loc) :
    (mem.store t loc value release).view u other = mem.view u other := by
  by_cases writer : u = t
  · subst writer
    simp [store, different]
  · simp [store, writer]

theorem store_view_thread (mem : Memory Thread Loc Val) {t u : Thread} (loc : Loc)
    (value : Val loc) (release : Bool) (different : u ≠ t) :
    (mem.store t loc value release).view u = mem.view u := by
  simp [store, different]

theorem store_coherent (coherent : mem.Coherent) (t : Thread) (loc : Loc) (value : Val loc)
    (release : Bool) : (mem.store t loc value release).Coherent := by
  have grows (other : Loc) : mem.last other ≤ (mem.store t loc value release).last other := by
    by_cases same : other = loc
    · subst same
      simp
    · rw [store_last_other _ _ _ _ same]
  have carried (other : Loc) : Function.update (mem.view t) loc (mem.last loc + 1) other ≤
      (mem.store t loc value release).last other := by
    by_cases same : other = loc
    · subst same
      simp
    · rw [Function.update_of_ne same]
      exact (coherent.view t other).trans (grows other)
  constructor
  · intro u other
    by_cases writer : u = t
    · subst writer
      simpa [store] using carried other
    · rw [store_view_thread _ _ _ _ writer]
      exact (coherent.view u other).trans (grows other)
  · intro place number other
    by_cases same : place = loc
    · subst same
      by_cases new : number = mem.last place + 1
      · subst new
        cases release
        · simp [store]
        · simpa [store] using carried other
      · have old : (mem.store t place value release).released place number =
            mem.released place number := by
          simp [store, new]
        rw [old]
        exact (coherent.released place number other).trans (grows other)
    · rw [store_released_other _ _ _ _ same]
      exact (coherent.released place number other).trans (grows other)

end Rules

end Memory

end ViewMemory
