import Mathlib.Logic.Function.Basic
import MicroHermes.Lib.Counter
import MicroHermes.Lib.Transition

set_option autoImplicit false

/-!
# The simulated accept queue

`ConnQueue` of `shm.rs`: a single-producer single-consumer ring. Every atomic load, atomic store
and slot copy of `push` and `pop` is one step.
-/

namespace MicroHermes.Sim

open Counter

def queueCap : Nat := 512

structure ConnDesc where
  connId : Nat
  hash : UInt64
  arrivalNs : Int
  serviceUs : UInt32
  lifetimeMs : UInt32
  deriving DecidableEq, Repr

structure ConnQueue where
  tail : UInt32
  head : UInt32
  slots : Fin queueCap → ConnDesc

def slotOf (index : UInt32) : Fin queueCap :=
  -- `index as usize % QUEUE_CAP`
  ⟨index.toNat % queueCap, Nat.mod_lt _ (by decide)⟩

-- `tail.wrapping_sub(head)`
def ConnQueue.depth (queue : ConnQueue) : Nat := (queue.tail - queue.head).toNat

inductive PushPc where
  | idle
  | loadTail (desc : ConnDesc)
  | loadHead (desc : ConnDesc) (tail : UInt32)
  | writeSlot (desc : ConnDesc) (tail : UInt32)
  | storeTail (desc : ConnDesc) (tail : UInt32)
  | returned (pushed : Bool)
  deriving DecidableEq

inductive PopPc where
  | idle
  | loadHead
  | loadTail (head : UInt32)
  | readSlot (head : UInt32)
  | storeHead (head : UInt32) (desc : ConnDesc)
  | returned (result : Option ConnDesc)
  deriving DecidableEq

def pushStep (queue : ConnQueue) : PushPc → ConnQueue × PushPc
  | .idle => (queue, .idle)
  | .loadTail desc => (queue, .loadHead desc queue.tail)
  | .loadHead desc tail =>
      if (tail - queue.head).toNat ≥ queueCap then (queue, .returned false)
      else (queue, .writeSlot desc tail)
  | .writeSlot desc tail =>
      ({ queue with slots := Function.update queue.slots (slotOf tail) desc }, .storeTail desc tail)
  | .storeTail _ tail => ({ queue with tail := tail + 1 }, .returned true)
  | .returned pushed => (queue, .returned pushed)

def popStep (queue : ConnQueue) : PopPc → ConnQueue × PopPc
  | .idle => (queue, .idle)
  | .loadHead => (queue, .loadTail queue.head)
  | .loadTail head =>
      if head = queue.tail then (queue, .returned none) else (queue, .readSlot head)
  | .readSlot head => (queue, .storeHead head (queue.slots (slotOf head)))
  | .storeHead head desc => ({ queue with head := head + 1 }, .returned (some desc))
  | .returned result => (queue, .returned result)

def PushPc.publishes : PushPc → List ConnDesc
  | .storeTail desc _ => [desc]
  | _ => []

-- The descriptor that the call of `push` under way was given.
def PushPc.argument : PushPc → Option ConnDesc
  | .loadTail desc | .loadHead desc _ | .writeSlot desc _ | .storeTail desc _ => some desc
  | .idle | .returned _ => none

def PopPc.ready : PopPc → Bool
  | .idle | .returned _ => true
  | _ => false

-- The descriptor a call of `pop` has returned.
def PopPc.result : PopPc → List ConnDesc
  | .returned (some desc) => [desc]
  | _ => []

-- What one step hands to the caller of `pop`: nothing until the call returns.
def popReturns (queue : ConnQueue) (pop : PopPc) : List ConnDesc :=
  if pop.ready then [] else (popStep queue pop).2.result

def PopPc.takes : PopPc → List ConnDesc
  | .storeHead _ desc => [desc]
  | _ => []

def PushPc.writing : PushPc → Option (Fin queueCap)
  | .writeSlot _ tail => some (slotOf tail)
  | _ => none

def PopPc.reading : PopPc → Option (Fin queueCap)
  | .readSlot head => some (slotOf head)
  | _ => none

section Invariant

variable (base : Nat) (pushed : List ConnDesc) (popped : Nat) (queue : ConnQueue)

def PushInv : PushPc → Prop
  | .loadHead _ tail => tail = queue.tail
  | .writeSlot _ tail => tail = queue.tail ∧ pushed.length < popped + queueCap
  | .storeTail desc tail =>
      tail = queue.tail ∧ pushed.length < popped + queueCap ∧ queue.slots (slotOf tail) = desc
  | _ => True

def PopInv : PopPc → Prop
  | .loadTail head => head = queue.head
  | .readSlot head => head = queue.head ∧ popped < pushed.length
  | .storeHead head desc => head = queue.head ∧ pushed[popped]? = some desc
  | _ => True

structure QueueInv (push : PushPc) (pop : PopPc) : Prop where
  tail : queue.tail = wrap (base + pushed.length)
  head : queue.head = wrap (base + popped)
  order : popped ≤ pushed.length
  room : pushed.length ≤ popped + queueCap
  cells : ∀ k, popped ≤ k → k < pushed.length →
    pushed[k]? = some (queue.slots (slotOf (wrap (base + k))))
  push : PushInv pushed popped queue push
  pop : PopInv pushed popped queue pop

end Invariant

section Steps

variable {base : Nat} {pushed : List ConnDesc} {popped : Nat} {queue : ConnQueue}
  {push : PushPc} {pop : PopPc}

theorem slotOf_wrap_ne {low high : Nat} (before : low < high) (lap : high < low + queueCap) :
    slotOf (wrap low) ≠ slotOf (wrap high) := by
  have divides : queueCap ∣ 2 ^ 32 := by decide
  intro same
  have cells := congrArg Fin.val same
  simp only [slotOf, wrap_mod divides] at cells
  exact cell_ne before lap cells

theorem QueueInv.depth (inv : QueueInv base pushed popped queue push pop) :
    queue.depth = pushed.length - popped := by
  have order := inv.order
  have room := inv.room
  rw [ConnQueue.depth, inv.tail, inv.head, wrap_sub_toNat (by omega)
    (by simp only [queueCap] at room; omega)]
  omega

theorem QueueInv.tail_eq_head (inv : QueueInv base pushed popped queue push pop) :
    queue.head = queue.tail ↔ popped = pushed.length := by
  have order := inv.order
  have room := inv.room
  rw [inv.tail, inv.head, wrap_inj (by omega) (by simp only [queueCap] at room; omega)]
  omega

theorem pushStep_head (queue : ConnQueue) (push : PushPc) :
    (pushStep queue push).1.head = queue.head := by
  cases push <;> simp only [pushStep]
  split <;> rfl

theorem popStep_tail (queue : ConnQueue) (pop : PopPc) :
    (popStep queue pop).1.tail = queue.tail := by
  cases pop <;> simp only [popStep]
  split <;> rfl

theorem pushStep_argument (queue : ConnQueue) {push : PushPc} {desc : ConnDesc}
    (given : push.argument = some desc) :
    (pushStep queue push).2.argument = some desc ∧ push.publishes = [] ∨
      (pushStep queue push).2 = .returned false ∧ push.publishes = [] ∨
      (pushStep queue push).2 = .returned true ∧ push.publishes = [desc] := by
  cases push with
  | idle | returned _ => cases given
  | loadTail _ | writeSlot _ _ => exact .inl ⟨given, rfl⟩
  | loadHead _ tail =>
      simp only [pushStep]
      split
      · exact .inr (.inl ⟨rfl, rfl⟩)
      · exact .inl ⟨given, rfl⟩
  | storeTail _ _ =>
      obtain rfl := Option.some.inj given
      exact .inr (.inr ⟨rfl, rfl⟩)

theorem popReturns_eq_takes (queue : ConnQueue) (pop : PopPc) :
    popReturns queue pop = pop.takes := by
  cases pop with
  | loadTail head =>
      by_cases empty : head = queue.tail <;>
        simp [popReturns, PopPc.ready, popStep, empty, PopPc.result, PopPc.takes]
  | idle | loadHead | readSlot _ | storeHead _ _ | returned _ => rfl

theorem popStep_result_of_busy (queue : ConnQueue) {pop : PopPc} (busy : ¬pop.ready = true) :
    (popStep queue pop).2.result = pop.takes := by
  rw [← popReturns_eq_takes queue, popReturns, if_neg busy]

theorem PopInv.of_push {later : List ConnDesc} {after : ConnQueue}
    (inv : PopInv pushed popped queue pop) (head : after.head = queue.head) :
    PopInv (pushed ++ later) popped after pop := by
  -- What the consumer relies on survives a step of the producer that leaves the queued cells alone.
  cases pop with
  | loadTail index => exact inv.trans head.symm
  | readSlot index =>
      refine ⟨inv.1.trans head.symm, ?_⟩
      rw [List.length_append]
      exact inv.2.trans_le (Nat.le_add_right ..)
  | storeHead index desc =>
      refine ⟨inv.1.trans head.symm, ?_⟩
      have inside := (List.getElem?_eq_some_iff.1 inv.2).1
      rw [List.getElem?_append_left inside]
      exact inv.2
  | idle | loadHead | returned _ => trivial

theorem pushStep_inv (inv : QueueInv base pushed popped queue push pop) :
    QueueInv base (pushed ++ push.publishes) popped (pushStep queue push).1
      (pushStep queue push).2 pop := by
  have popInv : PopInv (pushed ++ push.publishes) popped (pushStep queue push).1 pop :=
    inv.pop.of_push (pushStep_head queue push)
  obtain ⟨tail, head, order, room, cells, pushInv, _⟩ := inv
  cases push with
  | idle | loadTail _ | returned _ =>
      simp only [PushPc.publishes, List.append_nil] at popInv ⊢
      exact ⟨tail, head, order, room, cells, by simp [pushStep, PushInv], popInv⟩
  | loadHead desc index =>
      simp only [PushInv] at pushInv
      have distance : (index - queue.head).toNat = pushed.length - popped := by
        rw [pushInv, tail, head, wrap_sub_toNat (by omega) (by simp only [queueCap] at room; omega)]
        omega
      simp only [PushPc.publishes, List.append_nil, pushStep] at popInv ⊢
      split
      · exact ⟨tail, head, order, room, cells, trivial, by assumption⟩
      · next space =>
          refine ⟨tail, head, order, room, cells, ⟨pushInv, by omega⟩, ?_⟩
          simpa [space] using popInv
  | writeSlot desc index =>
      obtain ⟨same, space⟩ := pushInv
      simp only [PushPc.publishes, List.append_nil, pushStep] at popInv ⊢
      refine ⟨tail, head, order, room, ?_, ⟨same, space, by simp⟩, popInv⟩
      intro k from_ inside
      have other : slotOf (wrap (base + k)) ≠ slotOf index := by
        rw [same, tail]
        exact slotOf_wrap_ne (by omega) (by omega)
      simpa only [Function.update_of_ne other] using cells k from_ inside
  | storeTail desc index =>
      obtain ⟨same, space, written⟩ := pushInv
      simp only [PushPc.publishes, pushStep] at popInv ⊢
      refine ⟨?_, head, ?_, ?_, ?_, trivial, popInv⟩
      · rw [same, tail, ← wrap_succ, List.length_append]
        rfl
      · rw [List.length_append]
        omega
      · rw [List.length_append]
        exact space
      · intro k from_ inside
        rw [List.length_append, List.length_singleton] at inside
        by_cases last : k = pushed.length
        · subst last
          rw [← tail, ← same, written]
          simp
        · rw [List.getElem?_append_left (by omega)]
          exact cells k from_ (by omega)

theorem popStep_inv (inv : QueueInv base pushed popped queue push pop) :
    QueueInv base pushed (popped + pop.takes.length) (popStep queue pop).1 push
      (popStep queue pop).2 := by
  obtain ⟨tail, head, order, room, cells, pushInv, popInv⟩ := inv
  cases pop with
  | idle | loadHead | returned _ =>
      exact ⟨tail, head, order, room, cells, pushInv, by simp [popStep, PopInv]⟩
  | loadTail index =>
      simp only [PopInv] at popInv
      have empty : index = queue.tail ↔ popped = pushed.length := by
        rw [popInv, tail, head, wrap_inj (by omega) (by simp only [queueCap] at room; omega)]
        omega
      simp only [PopPc.takes, popStep]
      split
      · exact ⟨tail, head, order, room, cells, pushInv, trivial⟩
      · next nonempty =>
          have inside : popped < pushed.length := by
            have different : popped ≠ pushed.length := fun same => nonempty (empty.2 same)
            omega
          exact ⟨tail, head, order, room, cells, pushInv, popInv, inside⟩
  | readSlot index =>
      obtain ⟨same, inside⟩ := popInv
      refine ⟨tail, head, order, room, cells, pushInv, same, ?_⟩
      rw [same, head]
      exact cells popped le_rfl inside
  | storeHead index desc =>
      obtain ⟨same, taken⟩ := popInv
      have inside := (List.getElem?_eq_some_iff.1 taken).1
      simp only [PopPc.takes, popStep, List.length_singleton]
      refine ⟨tail, ?_, inside, by omega, fun k from_ => cells k (by omega), ?_, trivial⟩
      · rw [same, head, ← wrap_succ]
        rfl
      · cases push with
        | loadHead _ _ => exact pushInv
        | writeSlot _ _ => exact ⟨pushInv.1, by have space := pushInv.2; omega⟩
        | storeTail _ _ => exact ⟨pushInv.1, by have space := pushInv.2.1; omega, pushInv.2.2⟩
        | idle | loadTail _ | returned _ => trivial

theorem QueueInv.writing_ne_reading (inv : QueueInv base pushed popped queue push pop)
    {written copied : Fin queueCap} (writing : push.writing = some written)
    (reading : pop.reading = some copied) : written ≠ copied := by
  cases push with
  | writeSlot desc tail =>
      cases pop with
      | readSlot head =>
          simp only [PushPc.writing, PopPc.reading, Option.some.injEq] at writing reading
          have space := inv.push.2
          have inside := inv.pop.2
          rw [← writing, ← reading, inv.push.1, inv.pop.1, inv.tail, inv.head]
          exact (slotOf_wrap_ne (by omega) (by omega)).symm
      | idle | loadHead | loadTail _ | storeHead _ _ | returned _ => simp [PopPc.reading] at reading
  | idle | loadTail _ | loadHead _ _ | storeTail _ _ | returned _ =>
      simp [PushPc.writing] at writing

theorem QueueInv.full_of_rejected (inv : QueueInv base pushed popped queue push pop)
    {desc : ConnDesc} {tail : UInt32} (loading : push = .loadHead desc tail)
    (rejected : (pushStep queue push).2 = .returned false) :
    pushed.length = popped + queueCap := by
  -- `push` gives up only on a queue that is full at the instant it loads the head.
  subst loading
  have depth := inv.depth
  have order := inv.order
  have room := inv.room
  have loaded : tail = queue.tail := inv.push
  simp only [pushStep] at rejected
  split at rejected
  · next full =>
      rw [loaded] at full
      change queue.depth ≥ queueCap at full
      omega
  · simp at rejected

theorem QueueInv.empty_of_none (inv : QueueInv base pushed popped queue push pop)
    {head : UInt32} (loading : pop = .loadTail head)
    (nothing : (popStep queue pop).2 = .returned none) : popped = pushed.length := by
  -- `pop` gives up only on a queue that is empty at the instant it loads the tail.
  subst loading
  have loaded : head = queue.head := inv.pop
  simp only [popStep] at nothing
  split at nothing
  · next empty => exact inv.tail_eq_head.1 (loaded ▸ empty)
  · simp at nothing

end Steps

end MicroHermes.Sim
