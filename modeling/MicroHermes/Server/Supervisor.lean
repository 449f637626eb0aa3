import MicroHermes.Server.Backlog
import MicroHermes.Server.Stopping

set_option autoImplicit false

/-!
# The parent process and its workers

`hermes/src/main.rs` after the setup: the parent forks the workers, waits for a signal, passes it on
and reaps them. Every process has its own copy of the shutdown flag. Signals arrive at any process
at any time, and a worker can be killed.
-/

namespace MicroHermes.Server

open Transition

inductive ParentPc where
  | fork (worker : Nat)
  | poll
  | kill (worker : Nat)
  | waitpid (worker : Nat)
  | cleanupPins
  | returned
  -- `fork` failed for this worker, and `main` has returned an error.
  | failed (worker : Nat)
  deriving DecidableEq

inductive Startup where
  | epollCreate
  | addListener
  | openSel
  | createTicks
  deriving DecidableEq

inductive ChildPc where
  | unborn
  | starting (call : Startup)
  | looping
  -- Out of the loop after a shutdown, before the last flush.
  | flush
  | zombie (status : Nat)
  | reaped
  deriving DecidableEq

structure Child where
  pc : ChildPc
  shutdown : Bool
  deriving DecidableEq

structure Program (W : Nat) where
  pc : ParentPc
  shutdown : Bool
  -- M_Sel is pinned under BPFFS_DIR.
  pinned : Bool
  children : Fin W → Child
  host : Host W × (Fin W → Traffic)

inductive ProgramAct (W : Nat) where
  | fork (forked : Bool)
  | poll
  | kill
  | waitpid
  | cleanupPins (removed : Bool)
  | startup (i : Fin W) (done : Bool)
  | worker (i : Fin W) (sys : Sys)
  | flush (i : Fin W) (flushed : Bool)
  -- SIGINT or SIGTERM from outside, and SIGKILL of a worker.
  | signal
  | signalWorker (i : Fin W)
  | sigkill (i : Fin W)

def ChildPc.alive : ChildPc → Bool
  | .starting _ | .looping | .flush => true
  | _ => false

def Startup.next (policy : Policy) : Startup → ChildPc
  | .epollCreate => .starting .addListener
  | .addListener => .starting (if policy.runsScheduler then .openSel else .createTicks)
  | .openSel => .starting .createTicks
  | .createTicks => .looping

def Child.signalled (child : Child) : Child :=
  -- A signal reaches a process that has not exited; a zombie keeps its status.
  if child.pc.alive then { child with shutdown := true } else child

def Child.afterLoop (child : Child) (sys : Sys) (exited : Bool) : Child :=
  -- The loop is left with `break` on a shutdown and with an error otherwise.
  if exited then { child with pc := if sys = .shutdown true then .flush else .zombie 1 } else child

section Program

variable (F : Type) [MetricArith F] {W : Nat} (cfg : Config W)

def forkNext (W worker : Nat) : ParentPc := if worker < W then .fork worker else .poll

def killNext (W worker : Nat) : ParentPc := if worker < W then .kill worker else .waitpid 0

def waitNext (policy : Policy) (W worker : Nat) : ParentPc :=
  if worker < W then .waitpid worker
  else if policy.runsScheduler then .cleanupPins else .returned

def Program.initial (start : Fin W → Int) (traffic : Fin W → Traffic) : Program W where
  -- The sockets are set up and, under hermes, the maps are pinned.
  pc := forkNext W 0
  shutdown := false
  pinned := cfg.policy.runsScheduler
  children _ := ⟨.unborn, false⟩
  host := (Host.initial cfg start, traffic)

def Program.setChild (program : Program W) (i : Fin W) (child : Child) : Program W :=
  { program with children := Function.update program.children i child }

def Program.forkStep (program : Program W) (forked : Bool) : Option (Program W) :=
  -- The child gets a copy of the flag as it is.
  match program.pc with
  | .fork worker =>
      if inside : worker < W then
        if forked then
          some { program.setChild ⟨worker, inside⟩ ⟨.starting .epollCreate, program.shutdown⟩ with
            pc := forkNext W (worker + 1) }
        else some { program with pc := .failed worker }
      else none
  | _ => none

def Program.killStep (program : Program W) : Option (Program W) :=
  match program.pc with
  | .kill worker =>
      if inside : worker < W then
        some { program.setChild ⟨worker, inside⟩ (program.children ⟨worker, inside⟩).signalled with
          pc := killNext W (worker + 1) }
      else none
  | _ => none

def Program.waitpidStep (program : Program W) : Option (Program W) :=
  -- Blocks until the worker has exited; the handlers restart it when a signal interrupts it.
  match program.pc with
  | .waitpid worker =>
      if inside : worker < W then
        match (program.children ⟨worker, inside⟩).pc with
        | .zombie _ =>
            some { program.setChild ⟨worker, inside⟩
                { program.children ⟨worker, inside⟩ with pc := .reaped } with
              pc := waitNext cfg.policy W (worker + 1) }
        | _ => none
      else some { program with pc := waitNext cfg.policy W worker }
  | _ => none

def Program.startupStep (program : Program W) (i : Fin W) (done : Bool) : Option (Program W) :=
  -- `from_pin` opens M_Sel only where it is pinned.
  match (program.children i).pc with
  | .starting call =>
      if done && call == .openSel && !program.pinned then none
      else some (program.setChild i { program.children i with
        pc := if done then call.next cfg.policy else .zombie 1 })
  | _ => none

def Program.workerStep (program : Program W) (i : Fin W) (sys : Sys) : Option (Program W) :=
  if (program.children i).pc = .looping ∧ ∀ requested, sys = .shutdown requested →
      requested = (program.children i).shutdown then
    (product (Host.step F cfg) trafficStep program.host (.worker i sys)).map fun host =>
      { program.setChild i ((program.children i).afterLoop sys (host.1.workers i).pc.exiting) with
        host }
  else none

def Program.step (program : Program W) : ProgramAct W → Option (Program W)
  | .fork forked => program.forkStep forked
  | .poll =>
      if program.pc = .poll then
        some { program with pc := if program.shutdown then killNext W 0 else .poll }
      else none
  | .kill => program.killStep
  | .waitpid => program.waitpidStep cfg
  | .cleanupPins removed =>
      if program.pc = .cleanupPins then
        some { program with pc := .returned, pinned := program.pinned && !removed }
      else none
  | .startup i done => program.startupStep cfg i done
  | .worker i sys => program.workerStep F cfg i sys
  | .flush i flushed =>
      if (program.children i).pc = .flush then
        some (program.setChild i { program.children i with
          pc := .zombie (if flushed then 0 else 1) })
      else none
  | .signal => some { program with shutdown := true }
  | .signalWorker i => some (program.setChild i (program.children i).signalled)
  | .sigkill i =>
      if (program.children i).pc.alive then
        some (program.setChild i { program.children i with pc := .zombie 137 })
      else none

end Program

section Places

variable (W : Nat)

def ParentPc.forked : ParentPc → Nat
  | .fork worker | .failed worker => worker
  | _ => W

def ParentPc.signalled : ParentPc → Nat
  | .kill worker => worker
  | .waitpid _ | .cleanupPins | .returned => W
  | _ => 0

-- The loops over the workers stop at the last one.
def ParentPc.within : ParentPc → Prop
  | .fork worker | .kill worker => worker < W
  | _ => True

def ParentPc.waited : ParentPc → Nat
  | .waitpid worker => worker
  | .cleanupPins | .returned => W
  | _ => 0

variable {W} {policy : Policy} {worker : Nat}

@[simp] theorem forkNext_waited : (forkNext W worker).waited W = 0 := by
  unfold forkNext
  split <;> rfl

@[simp] theorem forkNext_signalled : (forkNext W worker).signalled W = 0 := by
  unfold forkNext
  split <;> rfl

@[simp] theorem forkNext_within : (forkNext W worker).within W := by
  unfold forkNext
  split <;> first | assumption | trivial

@[simp] theorem killNext_within : (killNext W worker).within W := by
  unfold killNext
  split <;> first | assumption | trivial

@[simp] theorem waitNext_within : (waitNext policy W worker).within W := by
  unfold waitNext
  split <;> try split
  all_goals trivial

theorem forkNext_forked (inside : worker ≤ W) : (forkNext W worker).forked W = worker := by
  unfold forkNext
  split
  · rfl
  · simp only [ParentPc.forked]
    omega

@[simp] theorem killNext_forked : (killNext W worker).forked W = W := by
  unfold killNext
  split <;> rfl

@[simp] theorem killNext_waited : (killNext W worker).waited W = 0 := by
  unfold killNext
  split <;> rfl

theorem killNext_signalled (inside : worker ≤ W) : (killNext W worker).signalled W = worker := by
  unfold killNext
  split
  · rfl
  · simp only [ParentPc.signalled]
    omega

@[simp] theorem waitNext_forked : (waitNext policy W worker).forked W = W := by
  unfold waitNext
  split <;> try split
  all_goals rfl

@[simp] theorem waitNext_signalled : (waitNext policy W worker).signalled W = W := by
  unfold waitNext
  split <;> try split
  all_goals rfl

theorem waitNext_waited (inside : worker ≤ W) : (waitNext policy W worker).waited W = worker := by
  unfold waitNext
  split
  · rfl
  · split <;> simp only [ParentPc.waited] <;> omega

end Places

def ChildPc.stopped : ChildPc → Bool
  | .flush | .zombie _ | .reaped => true
  | _ => false

theorem ChildPc.started_of_alive {pc : ChildPc} (alive : pc.alive = true) :
    pc ≠ .unborn ∧ pc ≠ .reaped := by
  constructor <;> rintro rfl <;> cases alive

structure Tended {W : Nat} (policy : Policy) (pc : ParentPc) (i : Fin W) (child : Child)
    (exited : Bool) : Prop where
  unborn : child.pc = .unborn ↔ pc.forked W ≤ i.val
  reaped : child.pc = .reaped ↔ i.val < pc.waited W
  told : i.val < pc.signalled W → child.pc.alive = true → child.shutdown = true
  opens : child.pc = .starting .openSel → policy.runsScheduler = true
  asked : child.pc = .flush ∨ child.pc = .zombie 0 → child.shutdown = true
  stopped : exited = true → child.pc.stopped = true

section Safety

variable {F : Type} [MetricArith F] {W : Nat} {cfg : Config W} {policy : Policy} {pc next : ParentPc}
  {i : Fin W} {child : Child} {exited : Bool}

theorem Tended.onward (inv : Tended policy pc i child exited)
    (forked : next.forked W ≤ i.val ↔ pc.forked W ≤ i.val)
    (waited : i.val < next.waited W ↔ i.val < pc.waited W)
    (signalled : i.val < next.signalled W → i.val < pc.signalled W) :
    Tended policy next i child exited :=
  { inv with
    unborn := inv.unborn.trans forked.symm
    reaped := inv.reaped.trans waited.symm
    told := fun told => inv.told (signalled told) }

theorem Tended.signalled (inv : Tended policy pc i child exited) :
    Tended policy pc i child.signalled exited := by
  unfold Child.signalled
  split
  · exact ⟨inv.unborn, inv.reaped, fun _ _ => rfl, inv.opens, fun _ => rfl, inv.stopped⟩
  · exact inv

theorem Tended.move (inv : Tended policy pc i child exited) {after : ChildPc} {still : Bool}
    (here : child.pc ≠ .unborn ∧ child.pc ≠ .reaped) (there : after ≠ .unborn ∧ after ≠ .reaped)
    (alive : after.alive = true → child.pc.alive = true)
    (opens : after = .starting .openSel → policy.runsScheduler = true)
    (asked : after = .flush ∨ after = .zombie 0 → child.shutdown = true)
    (stopped : still = true → after.stopped = true) :
    Tended policy pc i { child with pc := after } still where
  unborn := iff_of_false there.1 (mt inv.unborn.2 here.1)
  reaped := iff_of_false there.2 (mt inv.reaped.2 here.2)
  told told running := inv.told told (alive running)
  opens
  asked
  stopped

structure Supervised (cfg : Config W) (program : Program W) : Prop where
  tended : ∀ i, Tended cfg.policy program.pc i (program.children i)
    (program.host.1.workers i).pc.exiting
  pinned : program.pc ≠ .returned → program.pinned = cfg.policy.runsScheduler
  within : program.pc.within W

variable {program after : Program W}

theorem Supervised.initial (start : Fin W → Int) (traffic : Fin W → Traffic) :
    Supervised cfg (Program.initial cfg start traffic) where
  tended i := by
    have some : 0 < W := i.pos
    constructor <;> simp [Program.initial, forkNext, some, ParentPc.forked, ParentPc.waited,
      ParentPc.signalled, Host.initial, Worker.initial, Pc.exiting]
  pinned _ := rfl
  within := forkNext_within

theorem Supervised.setChild (inv : Supervised cfg program) {next : ParentPc}
    (own : Tended cfg.policy next i child (program.host.1.workers i).pc.exiting)
    (others : ∀ j, j ≠ i → Tended cfg.policy next j (program.children j)
      (program.host.1.workers j).pc.exiting)
    (running : next ≠ .returned → program.pc ≠ .returned) (within : next.within W) :
    Supervised cfg { program.setChild i child with pc := next } where
  tended j := by
    by_cases same : j = i
    · subst same
      simpa [Program.setChild] using own
    · simpa [Program.setChild, same] using others j same
  pinned here := inv.pinned (running here)
  within

theorem Supervised.fork {forked : Bool} (inv : Supervised cfg program)
    (taken : program.forkStep forked = some after) : Supervised cfg after := by
  unfold Program.forkStep at taken
  split at taken
  · next worker here =>
      split at taken
      · next inside =>
          have tended (j : Fin W) := here ▸ inv.tended j
          split at taken <;> simp only [Option.some.injEq] at taken <;> subst taken
          · refine inv.setChild ?_ (fun j other => (tended j).onward ?_ ?_ ?_) (fun _ => by simp [here])
              forkNext_within
            · have young : (program.host.1.workers ⟨worker, inside⟩).pc.exiting ≠ true := by
                intro exits
                have stopped := (tended ⟨worker, inside⟩).stopped exits
                rw [(tended ⟨worker, inside⟩).unborn.2 le_rfl] at stopped
                cases stopped
              constructor <;> simp [forkNext_forked inside, young]
            · have differs : worker ≠ j.val := fun same => other (Fin.ext same.symm)
              rw [forkNext_forked inside]
              simp only [ParentPc.forked]
              omega
            · rw [forkNext_waited]
              rfl
            · simp
          · exact ⟨fun j => (tended j).onward Iff.rfl Iff.rfl id, fun _ => inv.pinned (by simp [here]),
              trivial⟩
      · cases taken
  · cases taken

theorem Supervised.kill (inv : Supervised cfg program) (taken : program.killStep = some after) :
    Supervised cfg after := by
  unfold Program.killStep at taken
  split at taken
  · next worker here =>
      split at taken
      · next inside =>
          simp only [Option.some.injEq] at taken
          subst taken
          have tended (j : Fin W) := here ▸ inv.tended j
          refine inv.setChild ?_ (fun j other => (tended j).onward ?_ ?_ ?_) (fun _ => by simp [here])
            killNext_within
          · have told := (tended ⟨worker, inside⟩).signalled
            refine { told with unborn := ?_, reaped := ?_, told := fun _ running => ?_ }
            · rw [told.unborn, killNext_forked]
              rfl
            · rw [told.reaped, killNext_waited]
              rfl
            · unfold Child.signalled at running ⊢
              split
              · rfl
              · next gone => simp [gone] at running
          · rw [killNext_forked]
            rfl
          · rw [killNext_waited]
            rfl
          · have differs : worker ≠ j.val := fun same => other (Fin.ext same.symm)
            rw [killNext_signalled inside]
            simp only [ParentPc.signalled]
            omega
      · cases taken
  · cases taken

theorem Supervised.waitpid (inv : Supervised cfg program)
    (taken : program.waitpidStep cfg = some after) : Supervised cfg after := by
  unfold Program.waitpidStep at taken
  split at taken
  · next worker here =>
      have tended (j : Fin W) := here ▸ inv.tended j
      split at taken
      · next inside =>
          split at taken
          · next status gone =>
              simp only [Option.some.injEq] at taken
              subst taken
              refine inv.setChild ?_ (fun j other => (tended j).onward ?_ ?_ ?_)
                (fun _ => by simp [here]) waitNext_within
              · constructor <;>
                  simp [waitNext_waited inside, inside, ChildPc.alive, ChildPc.stopped]
              · rw [waitNext_forked]
                rfl
              · have differs : worker ≠ j.val := fun same => other (Fin.ext same.symm)
                rw [waitNext_waited inside]
                simp only [ParentPc.waited]
                omega
              · simp [ParentPc.signalled]
          · cases taken
      · next outside =>
          simp only [Option.some.injEq] at taken
          subst taken
          refine ⟨fun j => (tended j).onward ?_ ?_ ?_, fun _ => inv.pinned (by simp [here]),
            waitNext_within⟩
          · rw [waitNext_forked]
            rfl
          · have := j.isLt
            have all : W ≤ (waitNext cfg.policy W worker).waited W := by
              rw [waitNext, if_neg outside]
              split <;> exact le_rfl
            simp only [ParentPc.waited] at all ⊢
            omega
          · simp [ParentPc.signalled]
  · cases taken

theorem Supervised.move (inv : Supervised cfg program) {host : Host W × (Fin W → Traffic)}
    (own : Tended cfg.policy program.pc i child (host.1.workers i).pc.exiting)
    (others : ∀ j, j ≠ i → host.1.workers j = program.host.1.workers j) :
    Supervised cfg { program.setChild i child with host } where
  tended j := by
    by_cases same : j = i
    · subst same
      simpa [Program.setChild] using own
    · simpa [Program.setChild, same, others j same] using inv.tended j
  pinned := inv.pinned
  within := inv.within

theorem Supervised.startup {done : Bool} (inv : Supervised cfg program)
    (taken : program.startupStep cfg i done = some after) : Supervised cfg after := by
  unfold Program.startupStep at taken
  split at taken
  · next call here =>
      simp only [Option.ite_none_left_eq_some, Option.some.injEq] at taken
      obtain ⟨_, rfl⟩ := taken
      have tended := inv.tended i
      have young (exits : (program.host.1.workers i).pc.exiting = true) : False := by
        have stopped := tended.stopped exits
        rw [here] at stopped
        cases stopped
      refine inv.move (tended.move (by simp [here]) ?_ (fun _ => by simp [here, ChildPc.alive]) ?_ ?_
        fun exits => (young exits).elim) fun _ _ => rfl
      all_goals cases done <;> cases call <;> simp [Startup.next]
  · cases taken

theorem Supervised.worker {sys : Sys} (inv : Supervised cfg program)
    (taken : program.workerStep F cfg i sys = some after) : Supervised cfg after := by
  simp only [Program.workerStep, Option.ite_none_right_eq_some, Option.map_eq_some_iff] at taken
  obtain ⟨⟨here, flag⟩, host, moved, rfl⟩ := taken
  obtain ⟨hostTaken, _⟩ := (product_eq_some ..).1 moved
  have tended := inv.tended i
  refine inv.move ?_ fun j other => ?_
  · cases exits : (host.1.workers i).pc.exiting with
    | false =>
        have running : (program.host.1.workers i).pc.exiting ≠ true := fun before => by
          have stopped := tended.stopped before
          rw [here] at stopped
          cases stopped
        simpa [Child.afterLoop, running] using tended
    | true =>
        refine tended.move (by simp [here]) ?_ (fun _ => by simp [here, ChildPc.alive]) ?_ ?_ fun _ => ?_
        all_goals by_cases asked : sys = .shutdown true <;> simp [asked, ChildPc.stopped]
        · exact (flag true asked).symm
  · obtain ⟨op, w, _, next⟩ := Host.step_worker hostTaken
    rw [next]
    exact Function.update_of_ne other _ _

theorem Supervised.step {act : ProgramAct W} (inv : Supervised cfg program)
    (taken : program.step F cfg act = some after) : Supervised cfg after := by
  cases act with
  | fork forked => exact inv.fork taken
  | kill => exact inv.kill taken
  | waitpid => exact inv.waitpid taken
  | startup i done => exact inv.startup taken
  | worker i sys => exact inv.worker taken
  | poll =>
      simp only [Program.step, Option.ite_none_right_eq_some, Option.some.injEq] at taken
      obtain ⟨here, rfl⟩ := taken
      refine ⟨fun i => ?_, fun _ => inv.pinned (by simp [here]), ?_⟩
      · have tended := here ▸ inv.tended i
        split
        · refine tended.onward ?_ ?_ ?_
          · rw [killNext_forked]
            rfl
          · rw [killNext_waited]
            rfl
          · rw [killNext_signalled (Nat.zero_le W)]
            exact id
        · exact tended
      · split
        · exact killNext_within
        · trivial
  | cleanupPins removed =>
      simp only [Program.step, Option.ite_none_right_eq_some, Option.some.injEq] at taken
      obtain ⟨here, rfl⟩ := taken
      exact ⟨fun i => (here ▸ inv.tended i).onward Iff.rfl Iff.rfl id,
        fun running => absurd rfl running, trivial⟩
  | flush i flushed =>
      simp only [Program.step, Option.ite_none_right_eq_some, Option.some.injEq] at taken
      obtain ⟨here, rfl⟩ := taken
      have tended := inv.tended i
      refine inv.move (tended.move (by simp [here]) ?_ ?_ ?_ ?_ fun _ => rfl) fun _ _ => rfl
      · simp
      · exact fun alive => by cases alive
      · simp
      · exact fun _ => tended.asked (.inl here)
  | signal =>
      simp only [Program.step, Option.some.injEq] at taken
      subst taken
      exact ⟨inv.tended, inv.pinned, inv.within⟩
  | signalWorker i =>
      simp only [Program.step, Option.some.injEq] at taken
      subst taken
      exact inv.move (inv.tended i).signalled fun _ _ => rfl
  | sigkill i =>
      simp only [Program.step, Option.ite_none_right_eq_some, Option.some.injEq] at taken
      obtain ⟨alive, rfl⟩ := taken
      refine inv.move ((inv.tended i).move (ChildPc.started_of_alive alive) (by simp) ?_ ?_ ?_
        fun _ => rfl) fun _ _ => rfl
      · exact fun _ => alive
      · simp
      · simp

theorem supervised_of_steps {start : Fin W → Int} {traffic : Fin W → Traffic}
    (steps : Steps (Program.step F cfg) (Program.initial cfg start traffic) program) :
    Supervised cfg program :=
  Steps.preserve (Supervised cfg) (fun _ _ _ inv taken => inv.step taken) steps
    (.initial start traffic)

theorem Supervised.not_returned (inv : Supervised cfg program)
    (unreaped : (program.children i).pc ≠ .reaped) : program.pc ≠ .returned := by
  intro done
  refine unreaped ((inv.tended i).reaped.2 ?_)
  rw [done]
  exact i.isLt

theorem Program.supervision {start : Fin W → Int} {traffic : Fin W → Traffic}
    (steps : Steps (Program.step F cfg) (Program.initial cfg start traffic) program) :
    (∀ i, (program.children i).pc = .starting .openSel → program.pinned = true) ∧
    (∀ i, (program.children i).pc.alive = true → program.pinned = cfg.policy.runsScheduler) ∧
    (∀ worker, program.pc = .kill worker ∨ program.pc = .waitpid worker → ∀ i, worker ≤ i.val →
      (program.children i).pc ≠ .unborn ∧ (program.children i).pc ≠ .reaped) ∧
    (∀ worker, program.pc = .waitpid worker → ∀ i, (program.children i).pc.alive = true →
      (program.children i).shutdown = true) ∧
    (program.pc = .cleanupPins ∨ program.pc = .returned →
      ∀ i, (program.children i).pc = .reaped) ∧
    (∀ i, (program.children i).pc = .zombie 0 → (program.children i).shutdown = true) ∧
    ∀ worker, program.pc = .failed worker → program.pinned = cfg.policy.runsScheduler ∧
      ∀ i, (program.children i).pc = .unborn ↔ worker ≤ i.val := by
  have inv := supervised_of_steps steps
  have pinned (i : Fin W) (alive : (program.children i).pc.alive = true) :=
    inv.pinned (inv.not_returned (ChildPc.started_of_alive alive).2)
  refine ⟨fun i opening => ?_, pinned, ?_, ?_, ?_, fun i ended => (inv.tended i).asked (.inr ended), ?_⟩
  · rw [pinned i (by rw [opening]; rfl), (inv.tended i).opens opening]
  · intro worker here i later
    have unborn := (inv.tended i).unborn
    have reaped := (inv.tended i).reaped
    have within := i.isLt
    rcases here with here | here <;> rw [here] at unborn reaped <;>
      simp only [ParentPc.forked, ParentPc.waited] at unborn reaped <;>
      exact ⟨fun young => by have := unborn.1 young; omega, fun gone => by have := reaped.1 gone; omega⟩
  · intro worker here i alive
    refine (inv.tended i).told ?_ alive
    rw [here]
    exact i.isLt
  · intro done i
    refine (inv.tended i).reaped.2 ?_
    rcases done with here | here <;> rw [here] <;> exact i.isLt
  · intro worker here
    refine ⟨inv.pinned (by simp [here]), fun i => ?_⟩
    have unborn := (inv.tended i).unborn
    rwa [here] at unborn

end Safety

end MicroHermes.Server
