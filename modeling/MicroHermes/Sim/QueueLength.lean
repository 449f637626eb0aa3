import MicroHermes.Sim.QueueRuns

set_option autoImplicit false

namespace MicroHermes.Sim

open Transition

inductive LenPc where
  | idle
  | loadTail
  | loadHead (tail : UInt32)
  | returned (result : Nat)
  deriving DecidableEq

def LenPc.ready : LenPc → Bool
  | .idle | .returned _ => true
  | _ => false

def lenStep (queue : ConnQueue) : LenPc → LenPc
  | .idle => .idle
  | .loadTail => .loadHead queue.tail
  | .loadHead tail => .returned (tail - queue.head).toNat
  | .returned result => .returned result

-- How many of its two loads a call has made.
def LenPc.loads : LenPc → Nat
  | .idle | .loadTail => 0
  | .loadHead _ => 1
  | .returned _ => 2

theorem lenStep_loads (queue : ConnQueue) {len : LenPc} (busy : ¬len.ready = true) :
    (lenStep queue len).loads = len.loads + 1 := by
  cases len with
  | idle | returned _ => exact absurd rfl busy
  | loadTail | loadHead _ => rfl

def isEmpty (len : Nat) : Bool := len == 0

inductive Side where
  | producer
  | consumer
  deriving DecidableEq

def QueueAct.side : QueueAct → Side
  | .callPush _ | .push => .producer
  | .callPop | .pop => .consumer

def QueueRun.free (run : QueueRun) : Side → Bool
  | .producer => run.push.ready
  | .consumer => run.pop.ready

structure QueueCalls where
  run : QueueRun
  len : Side → LenPc

inductive CallAct where
  | queue (act : QueueAct)
  | callLen (side : Side)
  | len (side : Side)
  deriving DecidableEq

namespace QueueCalls

def initial (start : UInt32) (slots : Fin queueCap → ConnDesc) : QueueCalls where
  run := .initial start slots
  len _ := .idle

def step (state : QueueCalls) : CallAct → Option QueueCalls
  | .queue act =>
      if (state.len act.side).ready then
        (QueueRun.step state.run act).map fun run => { state with run }
      else none
  | .callLen side =>
      if (state.len side).ready && state.run.free side then
        some { state with len := Function.update state.len side .loadTail }
      else none
  | .len side =>
      if (state.len side).ready then none
      else
        some { state with
          len := Function.update state.len side (lenStep state.run.queue (state.len side)) }

theorem queue_kept {run next : QueueRun} {act : QueueAct}
    (taken : QueueRun.step run act = some next) :
    (act.side = .consumer → next.queue.tail = run.queue.tail) ∧
      (act.side = .producer → next.queue.head = run.queue.head) := by
  -- Each side stores its own index only.
  cases act with
  | callPush desc | callPop =>
      simp only [QueueRun.step, Option.ite_none_right_eq_some, Option.some.injEq] at taken
      obtain ⟨_, rfl⟩ := taken
      exact ⟨fun _ => rfl, fun _ => rfl⟩
  | push =>
      simp only [QueueRun.step, Option.ite_none_left_eq_some, Option.some.injEq] at taken
      obtain ⟨_, rfl⟩ := taken
      exact ⟨by simp [QueueAct.side], fun _ => pushStep_head ..⟩
  | pop =>
      simp only [QueueRun.step, Option.ite_none_left_eq_some, Option.some.injEq] at taken
      obtain ⟨_, rfl⟩ := taken
      exact ⟨fun _ => popStep_tail .., by simp [QueueAct.side]⟩

theorem run_inv {start : UInt32} {slots : Fin queueCap → ConnDesc} {acts : List CallAct}
    {state : QueueCalls} (run : exec step (initial start slots) acts = some state) :
    QueueRun.Inv start.toNat state.run := by
  refine Steps.preserve (fun state => QueueRun.Inv start.toNat state.run) ?_ (exec_steps run)
    (QueueRun.inv_initial start slots)
  intro state act next inv taken
  cases act with
  | queue act =>
      simp only [step, Option.ite_none_right_eq_some, Option.map_eq_some_iff] at taken
      obtain ⟨_, after, moved, rfl⟩ := taken
      exact QueueRun.step_inv _ act after inv moved
  | callLen side =>
      simp only [step, Option.ite_none_right_eq_some, Option.some.injEq] at taken
      obtain ⟨_, rfl⟩ := taken
      exact inv
  | len side =>
      simp only [step, Option.ite_none_left_eq_some, Option.some.injEq] at taken
      obtain ⟨_, rfl⟩ := taken
      exact inv

/-- How far a call has got that `called` has begun and `acts` have followed. The producer's result
will be the depth when it loads the head, the consumer's is the depth when it has loaded the tail. -/
def Measures (called : QueueCalls) (side : Side) (acts : List CallAct) (state : QueueCalls) :
    LenPc → Prop
  | .idle => False
  | .loadTail => True
  | .loadHead tail =>
      match side with
      | .producer => tail = state.run.queue.tail
      | .consumer => ∃ seen middle, seen <+: acts ∧ exec step called seen = some middle ∧
          tail = middle.run.queue.tail ∧ state.run.queue.head = middle.run.queue.head
  | .returned result => ∃ seen middle, seen <+: acts ∧ exec step called seen = some middle ∧
      result = middle.run.queue.depth

theorem Measures.kept {called state next : QueueCalls} {side : Side} {acts later : List CallAct}
    {pc : LenPc} (inv : Measures called side acts state pc)
    (own : pc.ready = false →
      (side = .producer → next.run.queue.tail = state.run.queue.tail) ∧
      (side = .consumer → next.run.queue.head = state.run.queue.head)) :
    Measures called side (acts ++ later) next pc := by
  have longer {seen : List CallAct} (before : seen <+: acts) : seen <+: acts ++ later :=
    before.trans (List.prefix_append ..)
  cases pc with
  | idle => exact inv
  | loadTail => trivial
  | loadHead tail =>
      obtain ⟨tailKept, headKept⟩ := own rfl
      cases side with
      | producer => exact Eq.trans inv (tailKept rfl).symm
      | consumer =>
          obtain ⟨seen, middle, before, ran, loaded, same⟩ := inv
          exact ⟨seen, middle, longer before, ran, loaded, (headKept rfl).trans same⟩
  | returned result =>
      obtain ⟨seen, middle, before, ran, depth⟩ := inv
      exact ⟨seen, middle, longer before, ran, depth⟩

theorem Measures.step {called state : QueueCalls} {side : Side} {acts later : List CallAct}
    (ran : exec QueueCalls.step called acts = some state) {pc : LenPc}
    (inv : Measures called side acts state pc) (calling : pc.ready = false) {next : QueueCalls}
    (same : next.run = state.run) :
    Measures called side (acts ++ later) next (lenStep state.run.queue pc) := by
  cases pc with
  | idle | returned _ => cases calling
  | loadTail =>
      cases side with
      | producer => exact congrArg (fun run : QueueRun => run.queue.tail) same.symm
      | consumer => exact ⟨acts, state, List.prefix_append .., ran, rfl, by rw [same]⟩
  | loadHead tail =>
      cases side with
      | producer =>
          obtain rfl : tail = state.run.queue.tail := inv
          exact ⟨acts, state, List.prefix_append .., ran, rfl⟩
      | consumer =>
          obtain ⟨seen, middle, before, earlier, rfl, head⟩ := inv
          refine ⟨seen, middle, before.trans (List.prefix_append ..), earlier, ?_⟩
          rw [head]
          rfl

theorem call_measures {called final : QueueCalls} {side : Side} {acts : List CallAct}
    (calling : called.len side = .loadTail) (run : exec step called acts = some final)
    (once : .callLen side ∉ acts) : Measures called side acts final (final.len side) := by
  refine exec_induct (fun acts state => .callLen side ∉ acts →
    Measures called side acts state (state.len side)) ?_ ?_ run once
  · intro _
    rw [calling]
    trivial
  · intro earlier act before next ran inv taken fresh
    simp only [List.mem_append, List.mem_singleton, not_or] at fresh
    have inv := inv fresh.1
    cases act with
    | queue act =>
        simp only [QueueCalls.step, Option.ite_none_right_eq_some, Option.map_eq_some_iff] at taken
        obtain ⟨ready, after, moved, rfl⟩ := taken
        obtain ⟨tail, head⟩ := queue_kept moved
        refine inv.kept fun busy => ?_
        have other : act.side ≠ side := by
          rintro rfl
          exact Bool.false_ne_true (busy.symm.trans ready)
        constructor
        · rintro rfl
          refine tail ?_
          cases acting : act.side with
          | producer => exact absurd acting other
          | consumer => rfl
        · rintro rfl
          refine head ?_
          cases acting : act.side with
          | producer => rfl
          | consumer => exact absurd acting other
    | callLen caller =>
        simp only [QueueCalls.step, Option.ite_none_right_eq_some, Option.some.injEq] at taken
        obtain ⟨_, rfl⟩ := taken
        have other : side ≠ caller := by
          rintro rfl
          exact fresh.2 rfl
        simp only [Function.update_of_ne other]
        exact inv.kept fun _ => ⟨fun _ => rfl, fun _ => rfl⟩
    | len caller =>
        simp only [QueueCalls.step, Option.ite_none_left_eq_some, Option.some.injEq] at taken
        obtain ⟨busy, rfl⟩ := taken
        by_cases self : side = caller
        · subst self
          simp only [Function.update_self]
          exact inv.step ran (by simpa using busy) rfl
        · simp only [Function.update_of_ne self]
          exact inv.kept fun _ => ⟨fun _ => rfl, fun _ => rfl⟩

theorem call_loads {called final : QueueCalls} {side : Side} {acts : List CallAct}
    (calling : called.len side = .loadTail) (run : exec step called acts = some final)
    (once : .callLen side ∉ acts) :
    final.len side ≠ .idle ∧ acts.count (.len side) = (final.len side).loads := by
  refine exec_induct (fun acts state => .callLen side ∉ acts →
    state.len side ≠ .idle ∧ acts.count (.len side) = (state.len side).loads) ?_ ?_ run once
  · intro _
    rw [calling]
    exact ⟨nofun, rfl⟩
  · intro earlier act before next _ inv taken fresh
    simp only [List.mem_append, List.mem_singleton, not_or] at fresh
    obtain ⟨begun, count⟩ := inv fresh.1
    rw [List.count_append, count]
    cases act with
    | queue act =>
        simp only [step, Option.ite_none_right_eq_some, Option.map_eq_some_iff] at taken
        obtain ⟨_, after, _, rfl⟩ := taken
        exact ⟨begun, by simp⟩
    | callLen caller =>
        simp only [step, Option.ite_none_right_eq_some, Option.some.injEq] at taken
        obtain ⟨_, rfl⟩ := taken
        have other : side ≠ caller := by
          rintro rfl
          exact fresh.2 rfl
        simp only [Function.update_of_ne other]
        exact ⟨begun, by simp⟩
    | len caller =>
        simp only [step, Option.ite_none_left_eq_some, Option.some.injEq] at taken
        obtain ⟨busy, rfl⟩ := taken
        by_cases self : side = caller
        · subst self
          simp only [Function.update_self, lenStep_loads _ busy]
          refine ⟨?_, by simp⟩
          intro idle
          have loads := lenStep_loads before.run.queue busy
          rw [idle] at loads
          simp [LenPc.loads] at loads
        · simp only [Function.update_of_ne self]
          exact ⟨begun, by simp [Ne.symm self]⟩

theorem call_ends {called final : QueueCalls} {side : Side} {acts : List CallAct}
    (calling : called.len side = .loadTail) (run : exec step called acts = some final)
    (once : .callLen side ∉ acts) :
    ((∃ result, final.len side = .returned result) ↔ acts.count (.len side) = 2) ∧
      (acts.count (.len side) < 2 → (step final (.len side)).isSome) := by
  obtain ⟨begun, count⟩ := call_loads calling run once
  rw [count]
  cases here : final.len side with
  | idle => exact absurd here begun
  | loadTail | loadHead _ => simp [LenPc.loads, step, here, LenPc.ready]
  | returned result => simp [LenPc.loads]

theorem len_exact {start : UInt32} {slots : Fin queueCap → ConnDesc} {earlier acts : List CallAct}
    {called final : QueueCalls} {side : Side}
    (reached : exec step (initial start slots) earlier = some called)
    (calling : called.len side = .loadTail) (run : exec step called acts = some final)
    (once : .callLen side ∉ acts) :
    ((∃ result, final.len side = .returned result) ↔ acts.count (.len side) = 2) ∧
    (acts.count (.len side) < 2 → (step final (.len side)).isSome) ∧
    ∀ result, final.len side = .returned result →
      result ≤ queueCap ∧
      ∃ seen rest middle, acts = seen ++ rest ∧ exec step called seen = some middle ∧
        exec step middle rest = some final ∧
        middle.run.popped.length + result = middle.run.pushed.length ∧
        result = middle.run.contents.length ∧ isEmpty result = middle.run.contents.isEmpty := by
  obtain ⟨ends, enabled⟩ := call_ends calling run once
  refine ⟨ends, enabled, fun result returned => ?_⟩
  have measures := call_measures calling run once
  rw [returned] at measures
  obtain ⟨seen, middle, ⟨rest, rfl⟩, ran, rfl⟩ := measures
  have arrived : exec step (initial start slots) (earlier ++ seen) = some middle := by
    rw [exec_append, reached, Option.bind_some, ran]
  have inv : QueueRun.Inv start.toNat middle.run := run_inv arrived
  have order := inv.ring.order
  have room := inv.ring.room
  have length := inv.contents_length
  have depth := inv.ring.depth
  refine ⟨by omega, seen, rest, middle, rfl, ran, ?_, by omega, length.symm, ?_⟩
  · rw [exec_append, ran, Option.bind_some] at run
    exact run
  · rw [← length, isEmpty]
    cases middle.run.contents <;> rfl

def wholePush (desc : ConnDesc) : List CallAct :=
  .queue (.callPush desc) :: List.replicate 4 (.queue .push)

theorem len_exact_across_wrap :
    ∃ called final : QueueCalls, called.len .consumer = .loadTail ∧
      final.len .consumer = .returned 1 ∧ final.run.contents.length = 2 ∧
      ∃ seen middle, exec step called seen = some middle ∧ middle.run.contents.length = 1 := by
  -- Between the two loads of the consumer the producer pushes over the wrap.
  have run : ((exec step (initial (2 ^ 32 - 1) fun _ => ⟨0, 0, 0, 0, 0⟩)
      (wholePush ⟨7, 42, 1, 100, 5⟩ ++ [.callLen .consumer])).bind fun called : QueueCalls =>
      (exec step called (.len .consumer :: wholePush ⟨8, 43, 2, 100, 5⟩ ++
        [.len .consumer])).map fun final : QueueCalls =>
          ((called, final), called.len .consumer, final.len .consumer,
            final.run.contents.length)).map Prod.snd =
      some (.loadTail, .returned 1, 2) := by decide +kernel
  obtain ⟨_, observed, values⟩ := Option.map_eq_some_iff.1 run
  obtain ⟨called, reached, observed⟩ := Option.bind_eq_some_iff.1 observed
  obtain ⟨final, executed, rfl⟩ := Option.map_eq_some_iff.1 observed
  simp only [Prod.mk.injEq] at values
  obtain ⟨calling, returned, depth⟩ := values
  obtain ⟨_, _, exact_⟩ := len_exact reached calling executed (by simp [wholePush])
  obtain ⟨_, seen, _, middle, _, ran, _, _, length, _⟩ := exact_ 1 returned
  exact ⟨called, final, calling, returned, depth, seen, middle, ran, length.symm⟩

end QueueCalls

end MicroHermes.Sim
