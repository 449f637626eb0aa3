import Mathlib.Algebra.Order.BigOperators.Group.Finset
import MicroHermes.Server.Supervisor

set_option autoImplicit false

namespace MicroHermes.Server

open Transition

inductive Process (W : Nat) where
  | parent
  | worker (i : Fin W)

section Fair

variable {W : Nat}

def ProgramAct.process : ProgramAct W → Option (Process W)
  | .fork _ | .poll | .kill | .waitpid | .cleanupPins _ => some .parent
  | .startup i _ | .worker i _ | .flush i _ => some (.worker i)
  | .signal | .signalWorker _ | .sigkill _ => none

variable (F : Type) [MetricArith F] (cfg : Config W)

def Enabled (process : Process W) (program : Program W) : Prop :=
  ∃ act : ProgramAct W, act.process = some process ∧ (program.step F cfg act).isSome = true

/-- An infinite run, standing still or taking steps, in which no process that can always go on is
passed over for ever. -/
structure FairProgram (run : Nat → Program W) : Prop where
  steps : ∀ n, run (n + 1) = run n ∨ ∃ act, (run n).step F cfg act = some (run (n + 1))
  fair : ∀ process n, (∀ m, n ≤ m → Enabled F cfg process (run m)) →
    ∃ m act, n ≤ m ∧ act.process = some process ∧ (run m).step F cfg act = some (run (m + 1))

end Fair

section Measure

variable {W : Nat}

def ParentPc.left (W : Nat) : ParentPc → Nat
  | .fork worker => 4 + 2 * W + (W - worker)
  | .poll => 4 + 2 * W
  | .kill worker => 3 + W + (W - worker)
  | .waitpid worker => 2 + (W - worker)
  | .cleanupPins => 1
  | .returned | .failed _ => 0

-- All workers have been told to stop.
def ParentPc.hasTold : ParentPc → Bool
  | .waitpid _ | .cleanupPins | .returned => true
  | _ => false

def Startup.left : Startup → Nat
  | .epollCreate => 4
  | .addListener => 3
  | .openSel => 2
  | .createTicks => 1

def ChildPc.left (loop : Nat) : ChildPc → Nat
  | .starting call => call.left + 2 + loop
  | .looping => 2 + loop
  | .flush => 1
  | .unborn | .zombie _ | .reaped => 0

def Program.childLeft (program : Program W) (i : Fin W) : Nat :=
  (program.children i).pc.left ((program.host.1.workers i).stepsLeft (program.host.2 i))

def Program.left (program : Program W) : Nat :=
  program.pc.left W + Finset.univ.sum program.childLeft

theorem sum_lt_of_one {f g : Fin W → Nat} (i : Fin W) (fewer : f i < g i)
    (others : ∀ j, j ≠ i → f j = g j) : Finset.univ.sum f < Finset.univ.sum g := by
  refine Finset.sum_lt_sum (fun j _ => ?_) ⟨i, Finset.mem_univ i, fewer⟩
  by_cases same : j = i
  · exact same ▸ fewer.le
  · exact (others j same).le

theorem forkNext_left {worker : Nat} (inside : worker < W) :
    (forkNext W (worker + 1)).left W < (ParentPc.fork worker).left W := by
  unfold forkNext
  split <;> simp only [ParentPc.left] <;> omega

theorem killNext_left {worker : Nat} (inside : worker < W) :
    (killNext W (worker + 1)).left W < (ParentPc.kill worker).left W := by
  unfold killNext
  split <;> simp only [ParentPc.left] <;> omega

theorem killNext_zero_left : (killNext W 0).left W < ParentPc.poll.left W := by
  unfold killNext
  split <;> simp only [ParentPc.left] <;> omega

theorem waitNext_left {policy : Policy} {worker next : Nat} (onward : worker ≤ next)
    (later : worker < W → worker < next) :
    (waitNext policy W next).left W < (ParentPc.waitpid worker).left W := by
  unfold waitNext
  split <;> try split
  all_goals simp only [ParentPc.left]
  all_goals omega

theorem waitNext_hasTold {policy : Policy} {worker : Nat} :
    (waitNext policy W worker).hasTold = true := by
  unfold waitNext
  split <;> try split
  all_goals rfl

end Measure

section Progress

variable {F : Type} [MetricArith F] {W : Nat} {cfg : Config W} {program after : Program W}
  {act : ProgramAct W}

theorem Program.step_shutdown (told : program.shutdown = true)
    (taken : program.step F cfg act = some after) : after.shutdown = true := by
  -- The flag is never cleared.
  cases act with
  | fork forked =>
      simp only [Program.step, Program.forkStep] at taken
      split at taken <;> try split at taken
      all_goals try split at taken
      all_goals cases taken
      all_goals exact told
  | kill =>
      simp only [Program.step, Program.killStep] at taken
      split at taken <;> try split at taken
      all_goals cases taken
      exact told
  | waitpid =>
      simp only [Program.step, Program.waitpidStep] at taken
      split at taken <;> try split at taken
      all_goals try split at taken
      all_goals cases taken
      all_goals exact told
  | startup i done =>
      simp only [Program.step, Program.startupStep] at taken
      split at taken <;> try split at taken
      all_goals cases taken
      exact told
  | worker i sys =>
      simp only [Program.step, Program.workerStep, Option.ite_none_right_eq_some,
        Option.map_eq_some_iff] at taken
      obtain ⟨_, host, _, rfl⟩ := taken
      exact told
  | poll | cleanupPins | flush | sigkill =>
      simp only [Program.step, Option.ite_none_right_eq_some, Option.some.injEq] at taken
      obtain ⟨_, rfl⟩ := taken
      exact told
  | signal | signalWorker =>
      simp only [Program.step, Option.some.injEq] at taken
      subst taken
      first | rfl | exact told

theorem Program.step_pc (told : program.shutdown = true)
    (taken : program.step F cfg act = some after) :
    act.process = some .parent ∧ after.pc.left W < program.pc.left W ∨
      act.process ≠ some .parent ∧ after.pc = program.pc := by
  cases act with
  | fork forked =>
      simp only [Program.step, Program.forkStep] at taken
      split at taken
      · next worker here =>
          split at taken
          · next inside =>
              split at taken <;> cases taken <;> rw [here]
              · exact .inl ⟨rfl, forkNext_left inside⟩
              · exact .inl ⟨rfl, by simp only [ParentPc.left]; omega⟩
          · cases taken
      · cases taken
  | kill =>
      simp only [Program.step, Program.killStep] at taken
      split at taken
      · next worker here =>
          split at taken
          · next inside =>
              cases taken
              rw [here]
              exact .inl ⟨rfl, killNext_left inside⟩
          · cases taken
      · cases taken
  | waitpid =>
      simp only [Program.step, Program.waitpidStep] at taken
      split at taken
      · next worker here =>
          split at taken
          · split at taken <;> cases taken
            rw [here]
            exact .inl ⟨rfl, waitNext_left (Nat.le_succ worker) fun _ => Nat.lt_succ_self worker⟩
          · next outside =>
              cases taken
              rw [here]
              exact .inl ⟨rfl, waitNext_left le_rfl fun inside => absurd inside outside⟩
      · cases taken
  | poll =>
      simp only [Program.step, Option.ite_none_right_eq_some, Option.some.injEq] at taken
      obtain ⟨here, rfl⟩ := taken
      rw [here, told]
      exact .inl ⟨rfl, killNext_zero_left⟩
  | cleanupPins removed =>
      simp only [Program.step, Option.ite_none_right_eq_some, Option.some.injEq] at taken
      obtain ⟨here, rfl⟩ := taken
      rw [here]
      exact .inl ⟨rfl, Nat.zero_lt_one⟩
  | startup i done =>
      simp only [Program.step, Program.startupStep] at taken
      split at taken <;> try split at taken
      all_goals cases taken
      exact .inr ⟨by simp [ProgramAct.process], rfl⟩
  | worker i sys =>
      simp only [Program.step, Program.workerStep, Option.ite_none_right_eq_some,
        Option.map_eq_some_iff] at taken
      obtain ⟨_, host, _, rfl⟩ := taken
      exact .inr ⟨by simp [ProgramAct.process], rfl⟩
  | flush | sigkill =>
      simp only [Program.step, Option.ite_none_right_eq_some, Option.some.injEq] at taken
      obtain ⟨_, rfl⟩ := taken
      exact .inr ⟨by simp [ProgramAct.process], rfl⟩
  | signal | signalWorker =>
      simp only [Program.step, Option.some.injEq] at taken
      subst taken
      exact .inr ⟨by simp [ProgramAct.process], rfl⟩

structure Unmoved (program after : Program W) : Prop where
  pc : after.pc = program.pc
  host : after.host = program.host
  children : ∀ i, (after.children i).pc = (program.children i).pc

theorem Unmoved.refl (program : Program W) : Unmoved program program := ⟨rfl, rfl, fun _ => rfl⟩

theorem Unmoved.trans {later : Program W} (first : Unmoved program after)
    (second : Unmoved after later) : Unmoved program later :=
  ⟨second.pc.trans first.pc, second.host.trans first.host,
    fun i => (second.children i).trans (first.children i)⟩

theorem Unmoved.left (unmoved : Unmoved program after) : after.left = program.left := by
  have same : after.childLeft = program.childLeft := by
    funext i
    rw [Program.childLeft, Program.childLeft, unmoved.host, unmoved.children i]
  rw [Program.left, Program.left, unmoved.pc, same]

theorem ChildPc.left_pos {pc : ChildPc} (alive : pc.alive = true) (loop : Nat) :
    0 < pc.left loop := by
  cases pc with
  | starting call | looping => simp only [ChildPc.left]; omega
  | flush => exact Nat.zero_lt_one
  | unborn | zombie _ | reaped => cases alive

variable {i : Fin W} {child : Child}

theorem Program.setChild_left {host : Host W × (Fin W → Traffic)}
    (fewer : child.pc.left ((host.1.workers i).stepsLeft (host.2 i)) < program.childLeft i)
    (others : ∀ j, j ≠ i → host.1.workers j = program.host.1.workers j ∧
      host.2 j = program.host.2 j) :
    Program.left { program.setChild i child with host } < program.left := by
  refine Nat.add_lt_add_left (sum_lt_of_one i ?_ fun j other => ?_) _
  · simpa [Program.childLeft, Program.setChild] using fewer
  · simp [Program.childLeft, Program.setChild, other, others j other]

theorem Startup.next_left (policy : Policy) (call : Startup) (loop : Nat) :
    (call.next policy).left loop < (ChildPc.starting call).left loop := by
  cases call with
  | addListener =>
      simp only [Startup.next, ChildPc.left]
      split <;> simp only [Startup.left] <;> omega
  | _ => simp only [Startup.next, ChildPc.left, Startup.left]; omega

theorem Child.afterLoop_left {sys : Sys} {exits : Bool} {before loop : Nat}
    (looping : child.pc = .looping) (fewer : loop < before) :
    (child.afterLoop sys exits).pc.left loop < child.pc.left before := by
  unfold Child.afterLoop
  rw [looping]
  split
  · split <;> simp only [ChildPc.left] <;> omega
  · rw [looping]
    simp only [ChildPc.left]
    omega

theorem Program.step_left (inv : Supervised cfg program) (hasTold : program.pc.hasTold = true)
    (taken : program.step F cfg act = some after) :
    after.pc.hasTold = true ∧
      (after.left < program.left ∨ act.process = none ∧ Unmoved program after) := by
  cases act with
  | fork forked =>
      simp only [Program.step, Program.forkStep] at taken
      split at taken
      · next here => rw [here] at hasTold; cases hasTold
      · cases taken
  | kill =>
      simp only [Program.step, Program.killStep] at taken
      split at taken
      · next here => rw [here] at hasTold; cases hasTold
      · cases taken
  | poll =>
      simp only [Program.step, Option.ite_none_right_eq_some, Option.some.injEq] at taken
      rw [taken.1] at hasTold
      cases hasTold
  | waitpid =>
      simp only [Program.step, Program.waitpidStep] at taken
      split at taken
      · next worker here =>
          split at taken
          · next inside =>
              split at taken <;> cases taken
              next status gone =>
              refine ⟨waitNext_hasTold, .inl (Nat.add_lt_add_of_lt_of_le ?_
                (Finset.sum_le_sum fun j _ => ?_))⟩
              · rw [here]
                exact waitNext_left (Nat.le_succ worker) fun _ => Nat.lt_succ_self worker
              · by_cases same : j = ⟨worker, inside⟩
                · subst same
                  simp [Program.childLeft, Program.setChild, ChildPc.left]
                · simp [Program.childLeft, Program.setChild, same]
          · next outside =>
              cases taken
              refine ⟨waitNext_hasTold, .inl (Nat.add_lt_add_right ?_ _)⟩
              rw [here]
              exact waitNext_left le_rfl fun inside => absurd inside outside
      · cases taken
  | cleanupPins removed =>
      simp only [Program.step, Option.ite_none_right_eq_some, Option.some.injEq] at taken
      obtain ⟨here, rfl⟩ := taken
      refine ⟨rfl, .inl (Nat.add_lt_add_right ?_ _)⟩
      rw [here]
      exact Nat.zero_lt_one
  | startup i done =>
      simp only [Program.step, Program.startupStep] at taken
      split at taken
      · next call here =>
          simp only [Option.ite_none_left_eq_some, Option.some.injEq] at taken
          obtain ⟨_, rfl⟩ := taken
          refine ⟨hasTold, .inl (Program.setChild_left ?_ fun _ _ => ⟨rfl, rfl⟩)⟩
          rw [Program.childLeft, here]
          cases done with
          | true => exact Startup.next_left cfg.policy call _
          | false => exact ChildPc.left_pos rfl _
      · cases taken
  | worker i sys =>
      simp only [Program.step, Program.workerStep, Option.ite_none_right_eq_some,
        Option.map_eq_some_iff] at taken
      obtain ⟨⟨here, flag⟩, host, moved, rfl⟩ := taken
      have told : (program.children i).shutdown = true := by
        refine (inv.tended i).told ?_ (by rw [here]; rfl)
        cases pc : program.pc with
        | waitpid _ | cleanupPins | returned => exact i.isLt
        | _ => rw [pc] at hasTold; cases hasTold
      refine ⟨hasTold, .inl (Program.setChild_left ?_ fun j other => ?_)⟩
      · refine Child.afterLoop_left here ?_
        obtain ⟨op, step, answered⟩ := step_own moved
        refine step.stepsLeft_lt (fun asked => ?_) answered
        have := (flag false asked).trans told
        cases this
      · rcases worker_view moved j with ⟨_, _, same, _⟩ | ⟨_, worker, traffic⟩
        · cases same
          exact absurd rfl other
        · exact ⟨worker, traffic⟩
  | flush i flushed =>
      simp only [Program.step, Option.ite_none_right_eq_some, Option.some.injEq] at taken
      obtain ⟨here, rfl⟩ := taken
      refine ⟨hasTold, .inl (Program.setChild_left ?_ fun _ _ => ⟨rfl, rfl⟩)⟩
      rw [Program.childLeft, here]
      exact Nat.zero_lt_one
  | sigkill i =>
      simp only [Program.step, Option.ite_none_right_eq_some, Option.some.injEq] at taken
      obtain ⟨alive, rfl⟩ := taken
      exact ⟨hasTold, .inl (Program.setChild_left (ChildPc.left_pos alive _) fun _ _ => ⟨rfl, rfl⟩)⟩
  | signal =>
      simp only [Program.step, Option.some.injEq] at taken
      subst taken
      exact ⟨hasTold, .inr ⟨rfl, rfl, rfl, fun _ => rfl⟩⟩
  | signalWorker i =>
      simp only [Program.step, Option.some.injEq] at taken
      subst taken
      refine ⟨hasTold, .inr ⟨rfl, rfl, rfl, fun j => ?_⟩⟩
      by_cases same : j = i
      · subst same
        simp only [Program.setChild, Function.update_self, Child.signalled]
        split <;> rfl
      · simp [Program.setChild, same]

def Program.blocking (program : Program W) : Process W :=
  match program.pc with
  | .waitpid worker =>
      if inside : worker < W then
        if (program.children ⟨worker, inside⟩).pc.alive then .worker ⟨worker, inside⟩ else .parent
      else .parent
  | _ => .parent

theorem Unmoved.blocking (unmoved : Unmoved program after) : after.blocking = program.blocking := by
  simp only [Program.blocking, unmoved.pc, unmoved.children]

theorem enabled_worker (inv : Supervised cfg program) (alive : (program.children i).pc.alive = true)
    (told : (program.children i).shutdown = true) : Enabled F cfg (.worker i) program := by
  cases here : (program.children i).pc with
  | starting call =>
      exact ⟨.startup i false, rfl, by simp [Program.step, Program.startupStep, here]⟩
  | looping =>
      have running : (program.host.1.workers i).pc ≠ .exited := by
        intro exits
        have stopped := (inv.tended i).stopped (by rw [exits]; rfl)
        rw [here] at stopped
        cases stopped
      have asked (requested : Bool) (same : (program.host.1.workers i).call = .shutdown requested) :
          requested = (program.children i).shutdown := by
        cases requested with
        | false => exact absurd same (program.host.1.workers i).call_not_refused
        | true => exact told.symm
      obtain ⟨⟨op, w⟩, moved⟩ := Option.isSome_iff_exists.1
        (Worker.call_possible F cfg i program.host.1.shared.wst (program.host.1.workers i) running)
      refine ⟨.worker i (program.host.1.workers i).call, rfl, ?_⟩
      rw [Program.step, Program.workerStep, if_pos ⟨here, asked⟩]
      simp [product, Host.step, moved, trafficStep, perWorker, Worker.call_free]
  | flush => exact ⟨.flush i true, rfl, by simp [Program.step, here]⟩
  | unborn | zombie _ | reaped =>
      rw [here] at alive
      cases alive

theorem enabled_telling (within : program.pc.within W) (telling : program.pc.hasTold = false)
    (running : ∀ worker, program.pc ≠ .failed worker) : Enabled F cfg .parent program := by
  cases here : program.pc with
  | fork worker =>
      have inside : worker < W := by rwa [here] at within
      exact ⟨.fork true, rfl, by simp [Program.step, Program.forkStep, here, inside]⟩
  | poll => exact ⟨.poll, rfl, by simp [Program.step, here]⟩
  | kill worker =>
      have inside : worker < W := by rwa [here] at within
      exact ⟨.kill, rfl, by simp [Program.step, Program.killStep, here, inside]⟩
  | failed worker => exact absurd here (running worker)
  | waitpid _ | cleanupPins | returned =>
      rw [here] at telling
      cases telling

theorem enabled_blocking (inv : Supervised cfg program) (hasTold : program.pc.hasTold = true)
    (running : program.pc ≠ .returned) : Enabled F cfg program.blocking program := by
  cases here : program.pc with
  | waitpid worker =>
      by_cases inside : worker < W
      · have tended := here ▸ inv.tended ⟨worker, inside⟩
        cases alive : (program.children ⟨worker, inside⟩).pc.alive with
        | true =>
            simp only [Program.blocking, here, inside, alive, dif_pos, if_true]
            exact enabled_worker inv alive (tended.told inside alive)
        | false =>
            simp only [Program.blocking, here, inside, alive, dif_pos, Bool.false_eq_true, if_false]
            refine ⟨.waitpid, rfl, ?_⟩
            simp only [Program.step, Program.waitpidStep, here, inside, dif_pos]
            cases gone : (program.children ⟨worker, inside⟩).pc with
            | zombie status => rfl
            | unborn => exact absurd (tended.unborn.1 gone) (Nat.not_le.2 inside)
            | reaped => exact absurd (tended.reaped.1 gone) (Nat.lt_irrefl worker)
            | starting _ | looping | flush =>
                rw [gone] at alive
                cases alive
      · simp only [Program.blocking, here, inside, dif_neg, not_false_eq_true]
        exact ⟨.waitpid, rfl, by simp [Program.step, Program.waitpidStep, here, inside]⟩
  | cleanupPins =>
      simp only [Program.blocking, here]
      exact ⟨.cleanupPins true, rfl, by simp [Program.step, here]⟩
  | returned => exact absurd here running
  | fork _ | poll | kill _ | failed _ =>
      rw [here] at hasTold
      cases hasTold

end Progress

section Liveness

variable {F : Type} [MetricArith F] {W : Nat} {cfg : Config W} {run : Nat → Program W}

theorem FairProgram.later (fair : FairProgram F cfg run) (start : Nat) :
    FairProgram F cfg fun n => run (start + n) where
  steps n := fair.steps (start + n)
  fair process n ready := by
    obtain ⟨m, act, later, own, taken⟩ := fair.fair process (start + n) fun m later => by
      have shifted := ready (m - start) (by omega)
      rwa [Nat.add_sub_cancel' (by omega)] at shifted
    have from_start : start + (m - start) = m := Nat.add_sub_cancel' (by omega)
    refine ⟨m - start, act, by omega, own, ?_⟩
    rwa [← Nat.add_assoc, from_start]

theorem FairProgram.keeps (fair : FairProgram F cfg run) (Inv : Program W → Prop)
    (kept : ∀ program act after, Inv program → program.step F cfg act = some after → Inv after)
    (start : Inv (run 0)) (n : Nat) : Inv (run n) := by
  induction n with
  | zero => exact start
  | succ n ih =>
      rcases fair.steps n with still | ⟨act, taken⟩
      · rwa [still]
      · exact kept _ act _ ih taken

theorem FairProgram.told (fair : FairProgram F cfg run) (supervised : Supervised cfg (run 0))
    (signal : (run 0).shutdown = true) :
    ∃ n, (run n).pc.hasTold = true ∨ ∃ worker, (run n).pc = .failed worker := by
  have inv := fair.keeps (fun program => Supervised cfg program ∧ program.shutdown = true)
    (fun _ _ _ inv taken => ⟨inv.1.step taken, Program.step_shutdown inv.2 taken⟩)
    ⟨supervised, signal⟩
  refine eventually (fun program : Program W => program.pc.hasTold = true ∨
    ∃ worker, program.pc = .failed worker) (fun program => program.pc.left W) (fun n => ?_) ?_
  · rcases fair.steps n with still | ⟨act, taken⟩
    · rw [still]
    · rcases Program.step_pc (inv n).2 taken with ⟨_, fewer⟩ | ⟨_, same⟩
      · exact fewer.le
      · rw [same]
  · intro n unfinished
    by_contra stuck
    push Not at unfinished stuck
    have still (m : Nat) (later : n ≤ m) : (run m).pc = (run n).pc := by
      induction m, later using Nat.le_induction with
      | base => rfl
      | succ m later ih =>
          rcases fair.steps m with same | ⟨act, taken⟩
          · rw [same, ih]
          · rcases Program.step_pc (inv m).2 taken with ⟨_, fewer⟩ | ⟨_, same⟩
            · exact absurd fewer (Nat.not_lt.2 (stuck m later))
            · rw [same, ih]
    obtain ⟨m, act, later, own, taken⟩ := fair.fair .parent n fun m later => by
      refine enabled_telling (inv m).1.within ?_ ?_ <;> rw [still m later]
      · simpa using unfinished.1
      · exact unfinished.2
    rcases Program.step_pc (inv m).2 taken with ⟨_, fewer⟩ | ⟨other, _⟩
    · exact absurd fewer (Nat.not_lt.2 (stuck m later))
    · exact other own

theorem FairProgram.reaps (fair : FairProgram F cfg run) (supervised : Supervised cfg (run 0))
    (hasTold : (run 0).pc.hasTold = true) : ∃ n, (run n).pc = .returned := by
  have inv := fair.keeps (fun program => Supervised cfg program ∧ program.pc.hasTold = true)
    (fun _ _ _ inv taken => ⟨inv.1.step taken, (Program.step_left inv.1 inv.2 taken).1⟩)
    ⟨supervised, hasTold⟩
  refine eventually (fun program : Program W => program.pc = .returned) Program.left
    (fun n => ?_) ?_
  · rcases fair.steps n with still | ⟨act, taken⟩
    · rw [still]
    · rcases (Program.step_left (inv n).1 (inv n).2 taken).2 with fewer | ⟨_, unmoved⟩
      · exact fewer.le
      · exact unmoved.left.le
  · intro n running
    by_contra stuck
    push Not at stuck
    have still (m : Nat) (later : n ≤ m) : Unmoved (run n) (run m) := by
      induction m, later using Nat.le_induction with
      | base => exact .refl _
      | succ m later ih =>
          rcases fair.steps m with same | ⟨act, taken⟩
          · rwa [same]
          · rcases (Program.step_left (inv m).1 (inv m).2 taken).2 with fewer | ⟨_, unmoved⟩
            · exact absurd fewer (Nat.not_lt.2 (stuck m later))
            · exact ih.trans unmoved
    obtain ⟨m, act, later, own, taken⟩ := fair.fair (run n).blocking n fun m later => by
      rw [← (still m later).blocking]
      exact enabled_blocking (inv m).1 (inv m).2 (by rwa [(still m later).pc])
    rcases (Program.step_left (inv m).1 (inv m).2 taken).2 with fewer | ⟨outside, _⟩
    · exact absurd fewer (Nat.not_lt.2 (stuck m later))
    · rw [outside] at own
      cases own

theorem Program.shuts_down {start : Fin W → Int} {traffic : Fin W → Traffic}
    (reached : Steps (Program.step F cfg) (Program.initial cfg start traffic) (run 0))
    (fair : FairProgram F cfg run) (signal : (run 0).shutdown = true) :
    ∃ n, ((run n).pc = .returned ∧ ∀ i, ((run n).children i).pc = .reaped) ∨
      ∃ worker, (run n).pc = .failed worker := by
  have supervised := supervised_of_steps reached
  obtain ⟨told, hasTold | failed⟩ := fair.told supervised signal
  · have later := fair.keeps (Supervised cfg) (fun _ _ _ inv taken => inv.step taken) supervised
    obtain ⟨n, returned⟩ := (fair.later told).reaps (later told) hasTold
    refine ⟨told + n, .inl ⟨returned, fun i => ((later (told + n)).tended i).reaped.2 ?_⟩⟩
    rw [returned]
    exact i.isLt
  · exact ⟨told, .inr failed⟩

theorem FairProgram.of_exec {program final : Program W} {acts : List (ProgramAct W)}
    (possible : exec (Program.step F cfg) program acts = some final)
    (quiet : ∀ process, ¬ Enabled F cfg process final) :
    FairProgram F cfg (standing (Program.step F cfg) program acts final) where
  steps := standing_steps possible
  fair process n ready := by
    have last := ready (n + acts.length) (Nat.le_add_right ..)
    rw [standing_ended possible (Nat.le_add_left ..)] at last
    exact absurd last (quiet process)

theorem returned_over {program : Program W} (returned : program.pc = .returned)
    (reaped : ∀ i, (program.children i).pc = .reaped) (process : Process W) :
    ¬ Enabled F cfg process program := by
  rintro ⟨act, own, possible⟩
  cases act with
  | fork | kill | waitpid | poll | cleanupPins =>
      simp [Program.step, Program.forkStep, Program.killStep, Program.waitpidStep,
        returned] at possible
  | startup i | worker i | flush i =>
      simp [Program.step, Program.startupStep, Program.workerStep, reaped i] at possible
  | signal | signalWorker | sigkill => cases own

end Liveness

def startAll : List (ProgramAct 1) :=
  .fork true :: List.replicate 4 (.startup soloWorker true)

def stopAll : List (ProgramAct 1) :=
  [.poll, .kill, .worker soloWorker (.shutdown true), .flush soloWorker true, .waitpid,
    .cleanupPins true]

abbrev soloProgram : Program 1 := Program.initial (soloConfig .hermes) (fun _ => 0) fun _ => ⟨0, 0⟩

theorem Program.supervision_to_the_end :
    ∃ program : Program 1, (program.pc = .returned ∧ program.pinned = false) ∧
      ∀ i, (program.children i).pc = .reaped := by
  have ran : ((exec (Program.step Rat (soloConfig .hermes)) soloProgram
      (startAll ++ .signal :: stopAll)).map fun program => (program.pc, program.pinned)) =
      some (.returned, false) := by decide +kernel
  obtain ⟨program, run, seen⟩ := Option.map_eq_some_iff.1 ran
  simp only [Prod.mk.injEq] at seen
  exact ⟨program, seen,
    (Program.supervision (exec_steps run)).2.2.2.2.1 (.inr seen.1)⟩

theorem Program.shuts_down_solo :
    ∃ run : Nat → Program 1, (run 0).pc = .poll ∧ ((run 0).children 0).pc = .looping ∧
      ∃ n, (run n).pc = .returned ∨ ∃ worker, (run n).pc = .failed worker := by
  have ran : (do
      let program ← exec (Program.step Rat (soloConfig .hermes)) soloProgram (startAll ++ [.signal])
      let final ← exec (Program.step Rat (soloConfig .hermes)) program stopAll
      some (program.pc, (program.children 0).pc, program.shutdown, final.pc,
        (final.children 0).pc)) =
      some (.poll, .looping, true, .returned, .reaped) := by decide +kernel
  simp only [Option.bind_eq_bind, Option.bind_eq_some_iff, Option.some.injEq, Prod.mk.injEq] at ran
  obtain ⟨program, before, final, possible, poll, looping, signal, returned, reaped⟩ := ran
  have fair := FairProgram.of_exec possible (returned_over returned fun i => by
    rwa [Subsingleton.elim i 0])
  obtain ⟨n, ended⟩ := Program.shuts_down (exec_steps before) fair signal
  exact ⟨standing (Program.step Rat (soloConfig .hermes)) program stopAll final, poll, looping, n,
    ended.imp_left And.left⟩

end MicroHermes.Server
