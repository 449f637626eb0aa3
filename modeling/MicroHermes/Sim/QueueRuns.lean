import MicroHermes.Lib.Fifo
import MicroHermes.Sim.ConnQueue

set_option autoImplicit false

namespace MicroHermes.Sim

open Counter Transition

structure QueueRun where
  queue : ConnQueue
  push : PushPc
  pop : PopPc
  -- Descriptors whose tail store is done, in push order.
  pushed : List ConnDesc
  -- The descriptors `pop` has returned, in order.
  popped : List ConnDesc

inductive QueueAct where
  | callPush (desc : ConnDesc)
  | push
  | callPop
  | pop
  deriving DecidableEq

def PushPc.ready : PushPc → Bool
  | .idle | .returned _ => true
  | _ => false

namespace QueueRun

def initial (start : UInt32) (slots : Fin queueCap → ConnDesc) : QueueRun where
  -- An empty queue whose indices start anywhere.
  queue := { tail := start, head := start, slots }
  push := .idle
  pop := .idle
  pushed := []
  popped := []

def step (state : QueueRun) : QueueAct → Option QueueRun
  | .callPush desc => if state.push.ready then some { state with push := .loadTail desc } else none
  | .push =>
      if state.push.ready then none
      else
        let (queue, push) := pushStep state.queue state.push
        some { state with queue, push, pushed := state.pushed ++ state.push.publishes }
  | .callPop => if state.pop.ready then some { state with pop := .loadHead } else none
  | .pop =>
      if state.pop.ready then none
      else
        let (queue, pop) := popStep state.queue state.pop
        some { state with queue, pop, popped := state.popped ++ pop.result }

def op (state : QueueRun) : QueueAct → Fifo.Op ConnDesc
  | .push =>
      match state.push with
      | .storeTail desc _ => .enter desc
      | .loadHead _ tail =>
          if (tail - state.queue.head).toNat ≥ queueCap then .reject else .internal
      | _ => .internal
  | .pop =>
      match state.pop with
      | .storeHead _ desc => .leave desc
      | .loadTail head => if head = state.queue.tail then .starve else .internal
      | _ => .internal
  | _ => .internal

def contents (state : QueueRun) : List ConnDesc := state.pushed.drop state.popped.length

structure Inv (base : Nat) (state : QueueRun) : Prop where
  ring : QueueInv base state.pushed state.popped.length state.queue state.push state.pop
  prefixed : state.popped = state.pushed.take state.popped.length

theorem inv_initial (start : UInt32) (slots : Fin queueCap → ConnDesc) :
    Inv start.toNat (initial start slots) where
  ring :=
    { tail := (wrap_surjective start).symm
      head := (wrap_surjective start).symm
      order := le_rfl
      room := Nat.zero_le _
      cells := by intro k _ inside; simp [initial] at inside
      push := trivial
      pop := trivial }
  prefixed := rfl

theorem Inv.takes {base : Nat} {state : QueueRun} (inv : Inv base state) :
    state.popped ++ state.pop.takes =
      state.pushed.take (state.popped.length + state.pop.takes.length) := by
  have popInv := inv.ring.pop
  cases pop : state.pop with
  | storeHead head desc =>
      rw [pop] at popInv
      simp only [PopPc.takes, List.length_singleton]
      rw [List.take_add_one, popInv.2, ← inv.prefixed]
      rfl
  | idle | loadHead | loadTail _ | readSlot _ | returned _ =>
      simpa [PopPc.takes] using inv.prefixed

theorem Inv.afterPush {base : Nat} {state : QueueRun} (inv : Inv base state) :
    Inv base { state with
      queue := (pushStep state.queue state.push).1
      push := (pushStep state.queue state.push).2
      pushed := state.pushed ++ state.push.publishes } where
  ring := pushStep_inv inv.ring
  prefixed := by
    rw [List.take_append_of_le_length inv.ring.order]
    exact inv.prefixed

theorem Inv.afterPop {base : Nat} {state : QueueRun} (inv : Inv base state) :
    Inv base { state with
      queue := (popStep state.queue state.pop).1
      pop := (popStep state.queue state.pop).2
      popped := state.popped ++ state.pop.takes } where
  ring := by simpa only [List.length_append] using popStep_inv inv.ring
  prefixed := by simpa only [List.length_append] using inv.takes

theorem Inv.withPush {base : Nat} {state : QueueRun} (inv : Inv base state) {push : PushPc}
    (fresh : PushInv state.pushed state.popped.length state.queue push) :
    Inv base { state with push } :=
  ⟨{ inv.ring with push := fresh }, inv.prefixed⟩

theorem Inv.withPop {base : Nat} {state : QueueRun} (inv : Inv base state) {pop : PopPc}
    (fresh : PopInv state.pushed state.popped.length state.queue pop) :
    Inv base { state with pop } :=
  ⟨{ inv.ring with pop := fresh }, inv.prefixed⟩

theorem Inv.drained {base : Nat} {state : QueueRun} (inv : Inv base state)
    (empty : state.queue.depth = 0) : state.popped = state.pushed := by
  have depth := inv.ring.depth
  have order := inv.ring.order
  have count : state.popped.length = state.pushed.length := by omega
  rw [inv.prefixed, count, List.take_length]

theorem step_inv {base : Nat} (state : QueueRun) (act : QueueAct) (next : QueueRun)
    (inv : Inv base state) (taken : step state act = some next) : Inv base next := by
  cases act with
  | callPush desc =>
      simp only [step, Option.ite_none_right_eq_some, Option.some.injEq] at taken
      obtain ⟨_, rfl⟩ := taken
      exact inv.withPush trivial
  | push =>
      simp only [step, Option.ite_none_left_eq_some, Option.some.injEq] at taken
      obtain ⟨_, rfl⟩ := taken
      exact inv.afterPush
  | callPop =>
      simp only [step, Option.ite_none_right_eq_some, Option.some.injEq] at taken
      obtain ⟨_, rfl⟩ := taken
      exact inv.withPop trivial
  | pop =>
      simp only [step, Option.ite_none_left_eq_some, Option.some.injEq] at taken
      obtain ⟨busy, rfl⟩ := taken
      rw [popStep_result_of_busy _ busy]
      exact inv.afterPop

theorem run_inv {start : UInt32} {slots : Fin queueCap → ConnDesc} {acts : List QueueAct}
    {state : QueueRun} (run : exec step (initial start slots) acts = some state) :
    Inv start.toNat state :=
  Steps.preserve _ step_inv (exec_steps run) (inv_initial start slots)

theorem Inv.contents_length {base : Nat} {state : QueueRun} (inv : Inv base state) :
    state.contents.length = state.queue.depth := by
  rw [inv.ring.depth, contents, List.length_drop]

theorem step_refines {base : Nat} {state next : QueueRun} {act : QueueAct} (inv : Inv base state)
    (taken : step state act = some next) :
    Fifo.Step queueCap state.contents (state.op act) next.contents := by
  have order := inv.ring.order
  have room := inv.ring.room
  cases act with
  | callPush desc =>
      simp only [step, Option.ite_none_right_eq_some, Option.some.injEq] at taken
      obtain ⟨_, rfl⟩ := taken
      exact .internal _
  | callPop =>
      simp only [step, Option.ite_none_right_eq_some, Option.some.injEq] at taken
      obtain ⟨_, rfl⟩ := taken
      exact .internal _
  | push =>
      simp only [step, Option.ite_none_left_eq_some, Option.some.injEq] at taken
      obtain ⟨_, rfl⟩ := taken
      have pushInv := inv.ring.push
      simp only [op, contents]
      cases push : state.push with
      | storeTail desc tail =>
          rw [push] at pushInv
          simp only [PushPc.publishes]
          rw [List.drop_append_of_le_length order]
          refine .enter desc ?_
          rw [List.length_drop]
          have space := pushInv.2.1
          omega
      | loadHead desc tail =>
          simp only [PushPc.publishes, List.append_nil]
          split
          · next full =>
              have rejected : (pushStep state.queue state.push).2 = .returned false := by
                simp [push, pushStep, full]
              have count := inv.ring.full_of_rejected push rejected
              refine .reject ?_
              rw [List.length_drop]
              omega
          · exact .internal _
      | idle | loadTail _ | writeSlot _ _ | returned _ =>
          simp only [PushPc.publishes, List.append_nil]
          exact .internal _
  | pop =>
      simp only [step, Option.ite_none_left_eq_some, Option.some.injEq] at taken
      obtain ⟨busy, rfl⟩ := taken
      have popInv := inv.ring.pop
      simp only [op, contents, popStep_result_of_busy _ busy]
      cases pop : state.pop with
      | storeHead head desc =>
          rw [pop] at popInv
          obtain ⟨inside, value⟩ := List.getElem?_eq_some_iff.1 popInv.2
          simp only [PopPc.takes, List.length_append, List.length_singleton]
          rw [List.drop_eq_getElem_cons inside, value]
          exact .leave desc _
      | loadTail head =>
          simp only [PopPc.takes, List.append_nil]
          split
          · next empty =>
              have nothing : (popStep state.queue state.pop).2 = .returned none := by
                simp [pop, popStep, empty]
              have count := inv.ring.empty_of_none pop nothing
              rw [count, List.drop_length]
              exact .starve
          · exact .internal _
      | idle | loadHead | readSlot _ | returned _ =>
          simp only [PopPc.takes, List.append_nil]
          exact .internal _

theorem step_history {state next : QueueRun} {act : QueueAct} (taken : step state act = some next) :
    next.pushed = state.pushed ++ Fifo.entered [state.op act] ∧
      next.popped = state.popped ++ Fifo.left [state.op act] := by
  cases act with
  | callPush desc =>
      simp only [step, Option.ite_none_right_eq_some, Option.some.injEq] at taken
      obtain ⟨_, rfl⟩ := taken
      simp [op, Fifo.entered, Fifo.left]
  | callPop =>
      simp only [step, Option.ite_none_right_eq_some, Option.some.injEq] at taken
      obtain ⟨_, rfl⟩ := taken
      simp [op, Fifo.entered, Fifo.left]
  | push =>
      simp only [step, Option.ite_none_left_eq_some, Option.some.injEq] at taken
      obtain ⟨_, rfl⟩ := taken
      simp only [op]
      cases state.push with
      | loadHead desc tail =>
          simp only [PushPc.publishes]
          split <;> simp [Fifo.entered, Fifo.left]
      | idle | loadTail _ | writeSlot _ _ | storeTail _ _ | returned _ =>
          simp [PushPc.publishes, Fifo.entered, Fifo.left]
  | pop =>
      simp only [step, Option.ite_none_left_eq_some, Option.some.injEq] at taken
      obtain ⟨busy, rfl⟩ := taken
      simp only [op, popStep_result_of_busy _ busy]
      cases state.pop with
      | loadTail head =>
          simp only [PopPc.takes]
          split <;> simp [Fifo.entered, Fifo.left]
      | idle | loadHead | readSlot _ | storeHead _ _ | returned _ =>
          simp [PopPc.takes, Fifo.entered, Fifo.left]

theorem run_refines {start : UInt32} {slots : Fin queueCap → ConnDesc} {state : QueueRun}
    (steps : Steps step (initial start slots) state) :
    ∃ ops, Fifo.Run queueCap [] ops state.contents ∧
      Fifo.entered ops = state.pushed ∧ Fifo.left ops = state.popped := by
  -- A whole run of the ring is a run of the bounded FIFO with the same history.
  induction steps with
  | refl => exact ⟨[], .nil [], rfl, rfl⟩
  | @tail middle last earlier taken ih =>
      obtain ⟨act, _, taken⟩ := taken
      obtain ⟨ops, run, entered, left⟩ := ih
      have inv : Inv start.toNat middle :=
        Steps.preserve _ step_inv earlier (inv_initial start slots)
      obtain ⟨pushed, popped⟩ := step_history taken
      refine ⟨ops ++ [middle.op act], run.snoc (step_refines inv taken), ?_, ?_⟩
      · rw [Fifo.entered_append, entered, pushed]
      · rw [Fifo.left_append, left, popped]

theorem step_argument {state next : QueueRun} (taken : step state .push = some next)
    {desc : ConnDesc} (given : state.push.argument = some desc) :
    next.push.argument = some desc ∧ next.pushed = state.pushed ∨
      next.push = .returned false ∧ next.pushed = state.pushed ∨
      next.push = .returned true ∧ next.pushed = state.pushed ++ [desc] := by
  simp only [step, Option.ite_none_left_eq_some, Option.some.injEq] at taken
  obtain ⟨_, rfl⟩ := taken
  rcases pushStep_argument state.queue given with ⟨going, none_⟩ | ⟨full, none_⟩ | ⟨stored, one⟩
  · exact .inl ⟨going, by simp [none_]⟩
  · exact .inr (.inl ⟨full, by simp [none_]⟩)
  · exact .inr (.inr ⟨stored, by simp [one]⟩)

theorem Inv.returned {base : Nat} {state next : QueueRun} (inv : Inv base state)
    (taken : step state .pop = some next) {desc : ConnDesc}
    (value : next.pop = .returned (some desc)) :
    next.popped = state.popped ++ [desc] ∧ state.pushed[state.popped.length]? = some desc := by
  have after : Inv base next := step_inv state .pop next inv taken
  have kept : next.popped = state.popped ++ next.pop.result ∧ next.pushed = state.pushed := by
    simp only [step, Option.ite_none_left_eq_some, Option.some.injEq] at taken
    obtain ⟨_, rfl⟩ := taken
    exact ⟨rfl, rfl⟩
  have popped : next.popped = state.popped ++ [desc] := by
    rw [kept.1, value]
    rfl
  have prefixed : state.popped ++ [desc] = state.pushed.take (state.popped ++ [desc]).length := by
    rw [← popped, ← kept.2]
    exact after.prefixed
  refine ⟨popped, ?_⟩
  have last : (state.popped ++ [desc])[state.popped.length]? = some desc := by simp
  rwa [prefixed, List.getElem?_take_of_lt (by simp)] at last

theorem connQueue_fifo {start : UInt32} {slots : Fin queueCap → ConnDesc} {acts : List QueueAct}
    {state : QueueRun} (run : exec step (initial start slots) acts = some state) :
    state.popped <+: state.pushed ∧
    state.pushed.length = state.popped.length + state.queue.depth ∧
    state.queue.depth ≤ queueCap ∧
    (∀ written copied, state.push.writing = some written → state.pop.reading = some copied →
      written ≠ copied) ∧
    (∀ next, step state .push = some next → next.push = .returned false →
      state.queue.depth = queueCap) ∧
    (∀ next, step state .pop = some next → next.pop = .returned none →
      state.queue.depth = 0) ∧
    (∀ next desc, step state .push = some next → state.push.argument = some desc →
      next.push.argument = some desc ∧ next.pushed = state.pushed ∨
        next.push = .returned false ∧ next.pushed = state.pushed ∨
        next.push = .returned true ∧ next.pushed = state.pushed ++ [desc]) ∧
    (∀ next desc, step state .pop = some next → next.pop = .returned (some desc) →
      next.popped = state.popped ++ [desc] ∧
        state.pushed[state.popped.length]? = some desc) := by
  have inv := run_inv run
  obtain ⟨ops, refined, entered, left⟩ := run_refines (exec_steps run)
  have split : state.pushed = state.popped ++ state.contents := by
    simpa [entered, left] using refined.conserves
  have length := inv.contents_length
  refine ⟨⟨_, split.symm⟩, ?_, ?_, ?_, ?_, ?_, fun _ _ taken => step_argument taken,
    fun _ _ taken => inv.returned taken⟩
  · rw [← length, ← List.length_append, ← split]
  · rw [← length]
    exact refined.bounded (Nat.zero_le _)
  · exact fun written copied writing reading => inv.ring.writing_ne_reading writing reading
  · intro next taken rejected
    have refines := step_refines inv taken
    simp only [step, Option.ite_none_left_eq_some, Option.some.injEq] at taken
    obtain ⟨_, rfl⟩ := taken
    simp only [op] at refines
    cases push : state.push with
    | loadHead desc tail =>
        simp only [push, pushStep] at rejected refines
        split at rejected
        · next full =>
            rw [if_pos full] at refines
            exact length.symm.trans refines.full
        · simp at rejected
    | idle | loadTail _ | writeSlot _ _ | storeTail _ _ => simp [push, pushStep] at rejected
    | returned pushed => simp_all [PushPc.ready]
  · intro next taken nothing
    have refines := step_refines inv taken
    simp only [step, Option.ite_none_left_eq_some, Option.some.injEq] at taken
    obtain ⟨_, rfl⟩ := taken
    simp only [op] at refines
    cases pop : state.pop with
    | loadTail head =>
        simp only [pop, popStep] at nothing refines
        split at nothing
        · next empty =>
            rw [if_pos empty] at refines
            rw [← length, refines.empty]
            rfl
        · simp at nothing
    | idle | loadHead | readSlot _ | storeHead _ _ => simp [pop, popStep] at nothing
    | returned result => simp_all [PopPc.ready]

theorem connQueue_fifo_across_wrap :
    ∃ state : QueueRun, state.queue.tail = 1 ∧ state.queue.head = 0 ∧
      state.pop = .returned (some ⟨7, 42, 1, 100, 5⟩) ∧
      state.popped = [⟨7, 42, 1, 100, 5⟩] ∧ state.popped <+: state.pushed := by
  -- A run whose tail wraps past `2 ^ 32` while the consumer is inside `pop`.
  have run : ((exec step (initial (2 ^ 32 - 1) fun _ => ⟨0, 0, 0, 0, 0⟩)
      [.callPush ⟨7, 42, 1, 100, 5⟩, .push, .callPop, .push, .pop, .push, .push, .pop,
        .callPush ⟨8, 43, 2, 100, 5⟩, .push, .pop, .push, .push, .pop, .push]).map fun state =>
      (state.queue.tail, state.queue.head, state.pop, state.popped)) =
      some (1, 0, .returned (some ⟨7, 42, 1, 100, 5⟩), [⟨7, 42, 1, 100, 5⟩]) := by decide +kernel
  obtain ⟨state, executed, values⟩ := Option.map_eq_some_iff.1 run
  simp only [Prod.mk.injEq] at values
  obtain ⟨tail, head, returned, popped⟩ := values
  exact ⟨state, tail, head, returned, popped, (connQueue_fifo executed).1⟩

end QueueRun

end MicroHermes.Sim
