import MicroHermes.Sim.WeakMemory

set_option autoImplicit false

namespace MicroHermes.Sim

open Counter ViewMemory

variable {W : Nat}

abbrev cellOf (i : Fin W) (k : Nat) : Loc W := .slot i (slotOf (wrap k))

section Invariant

variable (i : Fin W) (mem : Mem W) (pushed popped : List ConnDesc)

def WeakPushInv : PushPc → Prop
  | .loadHead _ tail => tail = wrap pushed.length
  | .writeSlot _ tail =>
      tail = wrap pushed.length ∧ pushed.length < mem.view .gen (.head i) + queueCap
  | .storeTail desc tail =>
      tail = wrap pushed.length ∧ pushed.length < mem.view .gen (.head i) + queueCap ∧
        mem.value (cellOf i pushed.length) (mem.last (cellOf i pushed.length)) = desc
  | _ => True

def WeakPopInv : PopPc → Prop
  | .loadTail head => head = wrap popped.length
  | .readSlot head =>
      head = wrap popped.length ∧ popped.length < mem.view (.worker i) (.tail i) ∧
        mem.view (.worker i) (cellOf i popped.length) = mem.last (cellOf i popped.length)
  | .storeHead head desc =>
      head = wrap popped.length ∧ popped.length < mem.view (.worker i) (.tail i) ∧
        pushed[popped.length]? = some desc
  | _ => True

structure WeakRing (push : PushPc) (pop : PopPc) : Prop where
  tailLast : mem.last (.tail i) = pushed.length
  tailValue : ∀ k, k ≤ pushed.length → mem.value (.tail i) k = wrap k
  tailView : mem.view .gen (.tail i) = mem.last (.tail i)
  headLast : mem.last (.head i) = popped.length
  headValue : ∀ k, k ≤ popped.length → mem.value (.head i) k = wrap k
  headView : mem.view (.worker i) (.head i) = mem.last (.head i)
  slotView : ∀ cell, mem.view .gen (.slot i cell) = mem.last (.slot i cell)
  seen : popped.length ≤ mem.view (.worker i) (.tail i)
  room : pushed.length ≤ mem.view .gen (.head i) + queueCap
  cells : ∀ k, popped.length ≤ k → k < pushed.length →
    pushed[k]? = some (mem.value (cellOf i k) (mem.last (cellOf i k)))
  -- A tail store carries the slots it announces.
  published : ∀ k number, popped.length ≤ k → k < number → number ≤ pushed.length →
    mem.last (cellOf i k) ≤ mem.released (.tail i) number (cellOf i k)
  prefixed : popped = pushed.take popped.length
  push : WeakPushInv i mem pushed push
  pop : WeakPopInv i mem pushed popped pop

end Invariant

section Rules

variable {i : Fin W} {mem after : Mem W} {pushed popped : List ConnDesc} {push : PushPc}
  {pop : PopPc}

theorem weakRing_initial (i : Fin W) :
    WeakRing i (.initial zeroVal) [] [] .idle .idle where
  tailLast := rfl
  tailValue k first := by
    obtain rfl := Nat.le_zero.1 first
    rfl
  tailView := rfl
  headLast := rfl
  headValue k first := by
    obtain rfl := Nat.le_zero.1 first
    rfl
  headView := rfl
  slotView _ := rfl
  seen := le_rfl
  room := Nat.zero_le _
  cells k _ inside := absurd inside (Nat.not_lt_zero k)
  published k number _ before inside := by
    simp only [List.length_nil] at inside
    omega
  prefixed := rfl
  push := trivial
  pop := trivial

theorem WeakRing.headSeen (inv : WeakRing i mem pushed popped push pop) (coherent : mem.Coherent) :
    mem.view .gen (.head i) ≤ popped.length :=
  inv.headLast ▸ coherent.view ..

theorem WeakRing.tailSeen (inv : WeakRing i mem pushed popped push pop) (coherent : mem.Coherent) :
    mem.view (.worker i) (.tail i) ≤ pushed.length :=
  inv.tailLast ▸ coherent.view ..

theorem WeakRing.cell_ne (inv : WeakRing i mem pushed popped push pop) (coherent : mem.Coherent)
    (space : pushed.length < mem.view .gen (.head i) + queueCap) {k : Nat}
    (from_ : popped.length ≤ k) (inside : k < pushed.length) :
    cellOf i k ≠ cellOf i pushed.length := by
  have head := inv.headSeen coherent
  intro same
  exact slotOf_wrap_ne inside (by omega) (Loc.slot.inj same).2

theorem WeakPushInv.observe (observes : mem.Observes after)
    (inv : WeakPushInv i mem pushed push) : WeakPushInv i after pushed push := by
  have grows := observes.view .gen (.head i)
  cases push with
  | loadHead desc tail => exact inv
  | writeSlot desc tail => exact ⟨inv.1, inv.2.trans_le (Nat.add_le_add_right grows _)⟩
  | storeTail desc tail =>
      refine ⟨inv.1, inv.2.1.trans_le (Nat.add_le_add_right grows _), ?_⟩
      rw [observes.value, observes.last]
      exact inv.2.2
  | idle | loadTail _ | returned _ => trivial

theorem WeakPopInv.observe (observes : mem.Observes after)
    (inv : WeakPopInv i mem pushed popped pop) : WeakPopInv i after pushed popped pop := by
  have grows := observes.view (.worker i) (.tail i)
  cases pop with
  | loadTail head => exact inv
  | readSlot head => exact ⟨inv.1, inv.2.1.trans_le grows, observes.current inv.2.2⟩
  | storeHead head desc => exact ⟨inv.1, inv.2.1.trans_le grows, inv.2.2⟩
  | idle | loadHead | returned _ => trivial

theorem WeakRing.observe (inv : WeakRing i mem pushed popped push pop)
    (observes : mem.Observes after) : WeakRing i after pushed popped push pop where
  -- Loads and deliveries keep the invariant, whoever makes them.
  tailLast := by rw [observes.last, inv.tailLast]
  tailValue := by rw [observes.value]; exact inv.tailValue
  tailView := observes.current inv.tailView
  headLast := by rw [observes.last, inv.headLast]
  headValue := by rw [observes.value]; exact inv.headValue
  headView := observes.current inv.headView
  slotView cell := observes.current (inv.slotView cell)
  seen := inv.seen.trans (observes.view ..)
  room := inv.room.trans (Nat.add_le_add_right (observes.view ..) _)
  cells := by rw [observes.value, observes.last]; exact inv.cells
  published := by rw [observes.released, observes.last]; exact inv.published
  prefixed := inv.prefixed
  push := inv.push.observe observes
  pop := inv.pop.observe observes

def Foreign (i : Fin W) (loc : Loc W) : Prop :=
  .tail i ≠ loc ∧ .head i ≠ loc ∧ ∀ cell, .slot i cell ≠ loc

theorem WeakRing.frame (inv : WeakRing i mem pushed popped push pop) {loc : Loc W}
    (foreign : Foreign i loc) (t : Thread W) (value : Val loc) (release : Bool) :
    WeakRing i (mem.store t loc value release) pushed popped push pop := by
  obtain ⟨tail, head, slot⟩ := foreign
  have view (u : Thread W) {other : Loc W} (different : other ≠ loc) :
      (mem.store t loc value release).view u other = mem.view u other :=
    Memory.store_view_other mem t u value release different
  have last {other : Loc W} (different : other ≠ loc) :
      (mem.store t loc value release).last other = mem.last other :=
    Memory.store_last_other mem t value release different
  have stored {other : Loc W} (different : other ≠ loc) :
      (mem.store t loc value release).value other = mem.value other :=
    Memory.store_value_other mem t value release different
  constructor
  · rw [last tail, inv.tailLast]
  · rw [stored tail]
    exact inv.tailValue
  · rw [view _ tail, last tail, inv.tailView]
  · rw [last head, inv.headLast]
  · rw [stored head]
    exact inv.headValue
  · rw [view _ head, last head, inv.headView]
  · intro cell
    rw [view _ (slot cell), last (slot cell), inv.slotView]
  · rw [view _ tail]
    exact inv.seen
  · rw [view _ head]
    exact inv.room
  · intro k from_ inside
    rw [stored (slot _), last (slot _)]
    exact inv.cells k from_ inside
  · intro k number from_ before inside
    rw [last (slot _), Memory.store_released_other mem t value release tail]
    exact inv.published k number from_ before inside
  · exact inv.prefixed
  · have pushInv := inv.push
    cases push with
    | writeSlot desc index =>
        refine ⟨pushInv.1, ?_⟩
        rw [view _ head]
        exact pushInv.2
    | storeTail desc index =>
        refine ⟨pushInv.1, ?_, ?_⟩
        · rw [view _ head]
          exact pushInv.2.1
        · rw [stored (slot _), last (slot _)]
          exact pushInv.2.2
    | idle | loadTail _ | loadHead _ _ | returned _ => exact pushInv
  · have popInv := inv.pop
    cases pop with
    | readSlot index =>
        refine ⟨popInv.1, ?_, ?_⟩
        · rw [view _ tail]
          exact popInv.2.1
        · rw [view _ (slot _), last (slot _)]
          exact popInv.2.2
    | storeHead index desc =>
        refine ⟨popInv.1, ?_, popInv.2.2⟩
        rw [view _ tail]
        exact popInv.2.1
    | idle | loadHead | loadTail _ | returned _ => exact popInv

theorem read_observes (coherent : mem.Coherent) (t : Thread W) (pick : Loc W → Nat)
    (access : Option (Loc W × Bool)) : mem.Observes (read mem t pick access) := by
  cases access with
  | none => exact .refl coherent
  | some access => exact Memory.load_observes coherent ..

end Rules

section Steps

variable {i : Fin W} {mem : Mem W} {pushed popped : List ConnDesc} {push : PushPc} {pop : PopPc}

theorem WeakRing.afterSlotWrite {desc : ConnDesc} {tail : UInt32}
    (inv : WeakRing i mem pushed popped (.writeSlot desc tail) pop) (coherent : mem.Coherent) :
    WeakRing i (mem.store .gen (.slot i (slotOf tail)) desc false) pushed popped
      (.storeTail desc tail) pop := by
  obtain ⟨rfl, space⟩ := inv.push
  have apart {k : Nat} (from_ : popped.length ≤ k) (inside : k < pushed.length) :
      cellOf i k ≠ cellOf i pushed.length := inv.cell_ne coherent space from_ inside
  have seen := inv.tailSeen coherent
  constructor
  · rw [Memory.store_last_other _ _ _ _ (by simp), inv.tailLast]
  · rw [Memory.store_value_other _ _ _ _ (by simp)]
    exact inv.tailValue
  · rw [Memory.store_view_other _ _ _ _ _ (by simp), Memory.store_last_other _ _ _ _ (by simp),
      inv.tailView]
  · rw [Memory.store_last_other _ _ _ _ (by simp), inv.headLast]
  · rw [Memory.store_value_other _ _ _ _ (by simp)]
    exact inv.headValue
  · rw [Memory.store_view_other _ _ _ _ _ (by simp), Memory.store_last_other _ _ _ _ (by simp),
      inv.headView]
  · intro cell
    by_cases written : cell = slotOf (wrap pushed.length)
    · subst written
      simp
    · have different : (Loc.slot i cell) ≠ .slot i (slotOf (wrap pushed.length)) := by
        simpa using written
      rw [Memory.store_view_other _ _ _ _ _ different, Memory.store_last_other _ _ _ _ different,
        inv.slotView]
  · rw [Memory.store_view_other _ _ _ _ _ (by simp)]
    exact inv.seen
  · rw [Memory.store_view_other _ _ _ _ _ (by simp)]
    exact inv.room
  · intro k from_ inside
    rw [Memory.store_value_other _ _ _ _ (apart from_ inside),
      Memory.store_last_other _ _ _ _ (apart from_ inside)]
    exact inv.cells k from_ inside
  · intro k number from_ before inside
    rw [Memory.store_last_other _ _ _ _ (apart from_ (before.trans_le inside)),
      Memory.store_released_other _ _ _ _ (by simp)]
    exact inv.published k number from_ before inside
  · exact inv.prefixed
  · refine ⟨rfl, ?_, ?_⟩
    · rw [Memory.store_view_other _ _ _ _ _ (by simp)]
      exact space
    · simp
  · have popInv := inv.pop
    cases pop with
    | readSlot head =>
        have different := apart le_rfl (popInv.2.1.trans_le seen)
        refine ⟨popInv.1, ?_, ?_⟩
        · rw [Memory.store_view_other _ _ _ _ _ (by simp)]
          exact popInv.2.1
        · rw [Memory.store_view_other _ _ _ _ _ different, Memory.store_last_other _ _ _ _ different]
          exact popInv.2.2
    | storeHead head taken =>
        refine ⟨popInv.1, ?_, popInv.2.2⟩
        rw [Memory.store_view_other _ _ _ _ _ (by simp)]
        exact popInv.2.1
    | idle | loadHead | loadTail _ | returned _ => exact popInv

theorem WeakRing.afterTailStore {desc : ConnDesc} {tail : UInt32}
    (inv : WeakRing i mem pushed popped (.storeTail desc tail) pop) (coherent : mem.Coherent) :
    WeakRing i (mem.store .gen (.tail i) (tail + 1 : UInt32) true) (pushed ++ [desc]) popped
      (.returned true) pop := by
  obtain ⟨rfl, space, written⟩ := inv.push
  have count := inv.tailLast
  have order : popped.length ≤ pushed.length := inv.seen.trans (inv.tailSeen coherent)
  have length : (pushed ++ [desc]).length = pushed.length + 1 := by simp
  constructor
  · rw [Memory.store_last_self, count, length]
  · intro k inside
    rw [length] at inside
    by_cases new : k = pushed.length + 1
    · subst new
      rw [← count, Memory.store_value_new, count, wrap_succ]
    · rw [Memory.store_value_old _ _ _ _ (by omega)]
      exact inv.tailValue k (by omega)
  · simp
  · rw [Memory.store_last_other _ _ _ _ (by simp), inv.headLast]
  · rw [Memory.store_value_other _ _ _ _ (by simp)]
    exact inv.headValue
  · rw [Memory.store_view_other _ _ _ _ _ (by simp), Memory.store_last_other _ _ _ _ (by simp),
      inv.headView]
  · intro cell
    rw [Memory.store_view_other _ _ _ _ _ (by simp), Memory.store_last_other _ _ _ _ (by simp),
      inv.slotView]
  · rw [Memory.store_view_thread _ _ _ _ (by simp)]
    exact inv.seen
  · rw [Memory.store_view_other _ _ _ _ _ (by simp), length]
    exact space
  · intro k from_ inside
    rw [length] at inside
    rw [Memory.store_value_other _ _ _ _ (by simp), Memory.store_last_other _ _ _ _ (by simp)]
    by_cases last : k = pushed.length
    · subst last
      rw [written]
      simp
    · rw [List.getElem?_append_left (by omega)]
      exact inv.cells k from_ (by omega)
  · intro k number from_ before inside
    rw [length] at inside
    rw [Memory.store_last_other _ _ _ _ (by simp)]
    by_cases new : number = pushed.length + 1
    · subst new
      rw [← count, Memory.store_released_new _ _ _ (by simp), inv.slotView]
    · rw [Memory.store_released_old _ _ _ _ (by omega)]
      exact inv.published k number from_ before (by omega)
  · rw [List.take_append_of_le_length order]
    exact inv.prefixed
  · trivial
  · have popInv := inv.pop
    cases pop with
    | readSlot head =>
        refine ⟨popInv.1, ?_, ?_⟩
        · rw [Memory.store_view_thread _ _ _ _ (by simp)]
          exact popInv.2.1
        · rw [Memory.store_view_other _ _ _ _ _ (by simp), Memory.store_last_other _ _ _ _ (by simp)]
          exact popInv.2.2
    | storeHead head taken =>
        obtain ⟨inside, _⟩ := List.getElem?_eq_some_iff.1 popInv.2.2
        refine ⟨popInv.1, ?_, ?_⟩
        · rw [Memory.store_view_thread _ _ _ _ (by simp)]
          exact popInv.2.1
        · rw [List.getElem?_append_left inside]
          exact popInv.2.2
    | idle | loadHead | loadTail _ | returned _ => exact popInv

theorem WeakRing.afterHeadStore {head : UInt32} {desc : ConnDesc}
    (inv : WeakRing i mem pushed popped push (.storeHead head desc)) :
    WeakRing i (mem.store (.worker i) (.head i) (head + 1 : UInt32) true) pushed (popped ++ [desc])
      push (.returned (some desc)) := by
  obtain ⟨rfl, ahead, taken⟩ := inv.pop
  have count := inv.headLast
  have length : (popped ++ [desc]).length = popped.length + 1 := by simp
  constructor
  · rw [Memory.store_last_other _ _ _ _ (by simp), inv.tailLast]
  · rw [Memory.store_value_other _ _ _ _ (by simp)]
    exact inv.tailValue
  · rw [Memory.store_view_other _ _ _ _ _ (by simp), Memory.store_last_other _ _ _ _ (by simp),
      inv.tailView]
  · rw [Memory.store_last_self, count, length]
  · intro k inside
    rw [length] at inside
    by_cases new : k = popped.length + 1
    · subst new
      rw [← count, Memory.store_value_new, count, wrap_succ]
    · rw [Memory.store_value_old _ _ _ _ (by omega)]
      exact inv.headValue k (by omega)
  · simp
  · intro cell
    rw [Memory.store_view_other _ _ _ _ _ (by simp), Memory.store_last_other _ _ _ _ (by simp),
      inv.slotView]
  · rw [Memory.store_view_other _ _ _ _ _ (by simp), length]
    exact ahead
  · rw [Memory.store_view_thread _ _ _ _ (by simp)]
    exact inv.room
  · intro k from_ inside
    rw [length] at from_
    rw [Memory.store_value_other _ _ _ _ (by simp), Memory.store_last_other _ _ _ _ (by simp)]
    exact inv.cells k (by omega) inside
  · intro k number from_ before inside
    rw [length] at from_
    rw [Memory.store_last_other _ _ _ _ (by simp), Memory.store_released_other _ _ _ _ (by simp)]
    exact inv.published k number (by omega) before inside
  · rw [length, List.take_add_one, taken, ← inv.prefixed]
    rfl
  · have pushInv := inv.push
    cases push with
    | writeSlot _ _ =>
        refine ⟨pushInv.1, ?_⟩
        rw [Memory.store_view_thread _ _ _ _ (by simp)]
        exact pushInv.2
    | storeTail _ _ =>
        refine ⟨pushInv.1, ?_, ?_⟩
        · rw [Memory.store_view_thread _ _ _ _ (by simp)]
          exact pushInv.2.1
        · rw [Memory.store_value_other _ _ _ _ (by simp), Memory.store_last_other _ _ _ _ (by simp)]
          exact pushInv.2.2
    | idle | loadTail _ | loadHead _ _ | returned _ => exact pushInv
  · trivial

theorem WeakRing.pushes (inv : WeakRing i mem pushed popped push pop) (coherent : mem.Coherent)
    (outside : SharedState W) (pick : Loc W → Nat) :
    WeakRing i (push.writes i (read mem .gen pick (push.reads i))) (pushed ++ push.publishes) popped
      (pushStep ((apparent outside mem .gen pick).queues i) push).2 pop := by
  have observes := read_observes coherent .gen pick (push.reads i)
  have kept := inv.observe observes
  cases push with
  | idle | returned _ =>
      simp only [PushPc.publishes, List.append_nil]
      exact kept
  | loadTail desc =>
      simp only [PushPc.publishes, List.append_nil]
      refine { kept with push := ?_ }
      change mem.seen .gen (.tail i) _ = wrap pushed.length
      rw [coherent.seen_eq inv.tailView, inv.tailLast]
      exact inv.tailValue _ le_rfl
  | loadHead desc tail =>
      obtain rfl : tail = wrap pushed.length := inv.push
      have order : popped.length ≤ pushed.length := inv.seen.trans (inv.tailSeen coherent)
      have room := inv.room
      have stale := Memory.view_le_index mem .gen (.head i) (pick (.head i))
      have newest := coherent.index_le .gen (.head i) (pick (.head i))
      have viewed := Memory.load_view_self mem .gen (.head i) true (pick (.head i))
      rw [inv.headLast] at newest
      have loaded : mem.seen .gen (.head i) (pick (.head i)) =
          wrap (mem.index .gen (.head i) (pick (.head i))) := inv.headValue _ newest
      have distance : (wrap pushed.length -
          wrap (mem.index .gen (.head i) (pick (.head i)))).toNat =
            pushed.length - mem.index .gen (.head i) (pick (.head i)) :=
        wrap_sub_toNat (by omega) (by simp only [queueCap] at room; omega)
      simp only [PushPc.publishes, List.append_nil]
      simp only [pushStep, apparent, loaded, distance]
      split
      · exact { kept with push := trivial }
      · next space =>
          refine { kept with push := ⟨rfl, ?_⟩ }
          change pushed.length < (mem.load .gen (.head i) true (pick (.head i))).view .gen (.head i) +
            queueCap
          omega
  | writeSlot desc tail =>
      simp only [PushPc.publishes, List.append_nil]
      exact inv.afterSlotWrite coherent
  | storeTail desc tail => exact inv.afterTailStore coherent

theorem WeakRing.pops (inv : WeakRing i mem pushed popped push pop) (coherent : mem.Coherent)
    (outside : SharedState W) (pick : Loc W → Nat) :
    WeakRing i (pop.writes i (read mem (.worker i) pick (pop.reads i))) pushed
      (popped ++ pop.takes) push
      (popStep ((apparent outside mem (.worker i) pick).queues i) pop).2 := by
  have observes := read_observes coherent (.worker i) pick (pop.reads i)
  have kept := inv.observe observes
  cases pop with
  | idle | returned _ =>
      simp only [PopPc.takes, List.append_nil]
      exact kept
  | loadHead =>
      simp only [PopPc.takes, List.append_nil]
      refine { kept with pop := ?_ }
      change mem.seen (.worker i) (.head i) _ = wrap popped.length
      rw [coherent.seen_eq inv.headView, inv.headLast]
      exact inv.headValue _ le_rfl
  | loadTail head =>
      obtain rfl : head = wrap popped.length := inv.pop
      have order := inv.seen
      have tail := inv.tailSeen coherent
      have stale := Memory.view_le_index mem (.worker i) (.tail i) (pick (.tail i))
      have newest := coherent.index_le (.worker i) (.tail i) (pick (.tail i))
      have viewed := Memory.load_view_self mem (.worker i) (.tail i) true (pick (.tail i))
      rw [inv.tailLast] at newest
      have loaded : mem.seen (.worker i) (.tail i) (pick (.tail i)) =
          wrap (mem.index (.worker i) (.tail i) (pick (.tail i))) := inv.tailValue _ newest
      simp only [PopPc.takes, List.append_nil]
      simp only [popStep, apparent, loaded]
      split
      · exact { kept with pop := trivial }
      · next nonempty =>
          have ahead : popped.length < mem.index (.worker i) (.tail i) (pick (.tail i)) := by
            have different : popped.length ≠ mem.index (.worker i) (.tail i) (pick (.tail i)) :=
              fun same => nonempty (congrArg wrap same)
            omega
          refine { kept with pop := ⟨rfl, ahead.trans_le viewed, ?_⟩ }
          refine le_antisymm ((observes.coherent coherent).view ..) ?_
          exact (inv.published _ _ le_rfl ahead newest).trans (Memory.acquire_view ..)
  | readSlot head =>
      obtain ⟨rfl, ahead, current⟩ := inv.pop
      simp only [PopPc.takes, List.append_nil]
      refine { kept with pop := ⟨rfl, ahead.trans_le (observes.view ..), ?_⟩ }
      rw [inv.cells _ le_rfl (ahead.trans_le (inv.tailSeen coherent))]
      exact congrArg some (coherent.seen_eq current _).symm
  | storeHead head desc => exact inv.afterHeadStore

end Steps

end MicroHermes.Sim
