import MicroHermes.Server.Accounting

set_option autoImplicit false

namespace MicroHermes.Server

open Transition

def Sys.target : Sys → Option RawFd
  -- The descriptor a system call is made on, the listener's own `accept4` apart.
  | .ctlAdd fd _ | .ctlDel fd | .close fd | .read fd _ | .write fd _ _ => some fd
  | _ => none

section Views

variable {W : Nat}

def Pc.removed : Pc W → Finset RawFd
  -- Out of the epoll set, but not yet closed.
  | .close fd => {fd}
  | _ => ∅

def Act.call (i : Fin W) : Act W → Option Sys
  | .worker j sys => if j = i then some sys else none
  | .outside _ _ => none

end Views

section Invariant

variable {F : Type} [MetricArith F] {W : Nat} {cfg : Config W} {i : Fin W} {w w' : Worker W}
  {slot : WorkerSlot} {table table' : FdTable} {wst : Wst W} {sys : Sys} {op : MemOp} {fd : RawFd}

def Polled (cfg : Config W) (i : Fin W) (w : Worker W) (table : FdTable) : Prop :=
  table.registered = insert (cfg.listenFd i) (w.conns.fds \ w.pc.removed)

theorem Accounted.listener_apart (inv : Accounted cfg i w slot table)
    (inside : fd ∈ table.accepted) : fd ≠ cfg.listenFd i := by
  rintro rfl
  exact Finset.disjoint_left.1 inv.1.own inside (cfg.listenOpen i)

theorem Accounted.held_inside (inv : Accounted cfg i w slot table) (held : fd ∈ w.pc.held) :
    fd ∈ table.accepted := by
  rw [inv.1.accepted]
  exact Finset.mem_union_right _ held

theorem Accounted.handled_accepted (inv : Accounted cfg i w slot table)
    (handled : w.pc.handling = some fd) : fd ∈ w.conns.fds ∧ fd ∈ table.accepted := by
  have inside := (inv.2.handled fd handled).1
  refine ⟨inside, ?_⟩
  rw [inv.1.accepted]
  exact Finset.mem_union_left _ inside

theorem Accounted.target_accepted (inv : Accounted cfg i w slot table)
    (moved : Moves F cfg i wst w sys op w') (target : sys.target = some fd) :
    fd ∈ table.accepted := by
  cases moved with
  | registered _ here | registerFailed _ here | closeFailed _ here =>
      simp only [Sys.target, Option.some.injEq] at target
      subst target
      exact inv.held_inside (by simp [here, Pc.held])
  | eof _ here | data _ _ _ here | strayData _ _ here | drained _ _ here | readFailed _ _ here
  | wrotePart _ _ _ _ _ here | wroteAll _ _ _ _ _ here | writeRetry _ _ _ _ here
  | writeFailed _ _ _ _ _ here | ctlDel _ here | close _ here =>
      simp only [Sys.target, Option.some.injEq] at target
      subst target
      exact (inv.handled_accepted (by simp [here, Pc.handling])).2
  | _ => cases target

theorem Moves.registers_held {added : Bool} (moved : Moves F cfg i wst w (.ctlAdd fd added) op w') :
    fd ∈ w.pc.held := by
  cases moved with
  | registered _ here | registerFailed _ here => simp [here, Pc.held]

theorem Polled.initial (cfg : Config W) (i : Fin W) (start : Int) :
    Polled cfg i (Worker.initial cfg i start) (FdTable.initial cfg i) := by
  simp [Polled, Worker.initial, FdTable.initial, Pc.removed]

theorem Polled.quiet (inv : Polled cfg i w table) (fds : w'.conns.fds = w.conns.fds)
    (before : w.pc.removed = ∅) (after : w'.pc.removed = ∅)
    (registered : table'.registered = table.registered) : Polled cfg i w' table' := by
  unfold Polled at *
  rw [registered, fds, after, inv, before]

theorem Polled.step (accounted : Accounted cfg i w slot table) (inv : Polled cfg i w table)
    (moved : Moves F cfg i wst w sys op w') (answered : FdTable.step cfg i table sys = some table') :
    Polled cfg i w' table' := by
  cases moved with
  | ready _ here | timeout here | accepted _ here =>
      simp only [FdTable.step, Option.ite_none_right_eq_some, Option.some.injEq] at answered
      obtain ⟨_, rfl⟩ := answered
      exact inv.quiet rfl (by simp [here, Pc.removed]) rfl rfl
  | batchDone here =>
      simp only [FdTable.step, Option.some.injEq] at answered
      subst answered
      have onward : (if cfg.policy.runsScheduler then .scheduleNow else .tick : Pc W).removed = ∅ := by
        split <;> rfl
      exact inv.quiet rfl (by simp [here, Pc.removed]) onward rfl
  | data fd _ _ here _ found | badMagic fd _ here found | request fd _ _ here found =>
      simp only [FdTable.step, Option.some.injEq] at answered
      subst answered
      exact inv.quiet (Conns.fds_insert_of_lookup found) (by simp [here, Pc.removed]) rfl rfl
  | registered fd here =>
      simp only [FdTable.step, Option.some.injEq] at answered
      subst answered
      simp only [Polled, here, Pc.removed, Finset.sdiff_empty, Conns.fds_insert] at inv ⊢
      rw [inv, Finset.insert_comm]
  | closeFailed fd here =>
      simp only [FdTable.step, Option.some.injEq] at answered
      subst answered
      have held : fd ∈ w.pc.held := by simp [here, Pc.held]
      have unlisted : fd ∉ w.conns.fds := Finset.disjoint_right.1 accounted.1.apart held
      have other := accounted.listener_apart (accounted.held_inside held)
      simp only [Polled, here, Pc.removed, Finset.sdiff_empty] at inv ⊢
      rw [inv, Finset.erase_eq_of_notMem (by simp [other, unlisted])]
  | ctlDel fd here =>
      simp only [FdTable.step, Option.some.injEq] at answered
      subst answered
      have handled : w.pc.handling = some fd := by simp [here, Pc.handling]
      have other := accounted.listener_apart (accounted.handled_accepted handled).2
      simp only [Polled, here, Pc.removed, Finset.sdiff_empty] at inv ⊢
      rw [inv, Finset.erase_insert_of_ne other.symm, Finset.sdiff_singleton_eq_erase]
  | close fd here =>
      simp only [FdTable.step, Option.some.injEq] at answered
      subst answered
      have handled : w.pc.handling = some fd := by simp [here, Pc.handling]
      have other := accounted.listener_apart (accounted.handled_accepted handled).2
      simp only [Polled, here, Pc.removed, Finset.sdiff_empty, Conns.fds_erase,
        Finset.sdiff_singleton_eq_erase] at inv ⊢
      rw [inv, Finset.erase_insert_of_ne other.symm, Finset.erase_idem]
  | shutdown here | enter here | stamp _ here | noHang here | hang _ _ here | hangLater _ _ here
  | hangSleep here | interrupted here | waitFailed _ here | addPending here | listener _ _ here
  | hangup _ _ here | readable _ _ here | acceptFailed _ here | addConn _ here
  | registerFailed _ here | subFailed here | eof _ here | strayData _ _ here | drained _ _ here
  | readFailed _ _ here | strayProcess _ here | partialHeader _ _ here | execute _ _ here
  | wrotePart _ _ _ _ _ here | wroteAll _ _ _ _ _ here | writeRetry _ _ _ _ here
  | writeFailed _ _ _ _ _ here | subConn here | subPending here | scheduleNow _ here
  | load _ _ here | filter _ _ here | publish _ here | publishFailed _ here | tick here
  | tickFailed here =>
      simp only [FdTable.step, Option.some.injEq] at answered
      subst answered
      exact inv.quiet rfl (by simp [here, Pc.removed]) rfl rfl

theorem Host.polled {start : Fin W → Int} {state : Host W × (Fin W → FdTable)}
    (steps : Steps (product (Host.step F cfg) (kernelStep cfg))
      (Host.initial cfg start, FdTable.initial cfg) state) (i : Fin W) :
    Polled cfg i (state.1.workers i) (state.2 i) := by
  refine (Host.preserve_each
    (fun i w slot table => Accounted cfg i w slot table ∧ Polled cfg i w table) ?_ ?_ steps
    (fun j => ⟨.initial cfg j (start j), .initial cfg j (start j)⟩) i).2
  · intro _ _ _ _ _ _ inv _ moved answered
    exact ⟨inv.1.step moved answered, inv.2.step inv.1 moved answered⟩
  · intro _ _ _ _ _ _ inv happened
    simp only [Option.some.injEq] at happened
    exact happened ▸ inv

theorem worker_view {E : Type} {inner : Fin W → E → Sys → Option E} {state next : Host W × (Fin W → E)}
    {act : Act W}
    (taken : product (Host.step F cfg) (perWorker inner fun env _ => some env) state act = some next)
    (i : Fin W) :
    (∃ sys op, act = .worker i sys ∧
      Moves F cfg i state.1.shared.wst (state.1.workers i) sys op (next.1.workers i) ∧
      inner i (state.2 i) sys = some (next.2 i)) ∨
    (act.call i = none ∧ next.1.workers i = state.1.workers i ∧ next.2 i = state.2 i) := by
  obtain ⟨hostTaken, envTaken⟩ := (product_eq_some ..).1 taken
  cases act with
  | outside j event =>
      simp only [Host.step, Option.some.injEq] at hostTaken
      simp only [perWorker, Option.map_some, Option.some.injEq] at envTaken
      exact .inr ⟨rfl, by rw [← hostTaken], by rw [← envTaken, Function.update_eq_self]⟩
  | worker j sys =>
      obtain ⟨op, w, moved, hostNext⟩ := Host.step_worker hostTaken
      simp only [perWorker, Option.map_eq_some_iff] at envTaken
      obtain ⟨after, answered, envNext⟩ := envTaken
      by_cases own : i = j
      · subst own
        exact .inl ⟨sys, op, rfl, by simpa [hostNext] using moved, by simpa [← envNext] using answered⟩
      · exact .inr ⟨if_neg (Ne.symm own), by simp [hostNext, own], by simp [← envNext, own]⟩

theorem step_own {E : Type} {inner : Fin W → E → Sys → Option E} {state next : Host W × (Fin W → E)}
    (taken : product (Host.step F cfg) (perWorker inner fun env _ => some env) state (.worker i sys) =
      some next) :
    ∃ op, Moves F cfg i state.1.shared.wst (state.1.workers i) sys op (next.1.workers i) ∧
      inner i (state.2 i) sys = some (next.2 i) := by
  rcases worker_view taken i with ⟨_, op, same, moved, answered⟩ | ⟨other, _⟩
  · cases same
    exact ⟨op, moved, answered⟩
  · simp [Act.call] at other

def isOpen (fd : RawFd) (table : FdTable) : Nat := if fd ∈ table.accepted then 1 else 0

theorem FdTable.step_isOpen (fd : RawFd) (answered : FdTable.step cfg i table sys = some table')
    (owned : sys = .close fd → fd ∈ table.accepted) :
    isOpen fd table + [sys].count (.accept4 (.ok fd)) = isOpen fd table' + [sys].count (.close fd) := by
  unfold FdTable.step at answered
  split at answered
  · next opened =>
      simp only [Option.ite_none_right_eq_some, Option.some.injEq] at answered
      obtain ⟨_, rfl⟩ := answered
      simp [isOpen]
  · next opened =>
      simp only [Option.ite_none_right_eq_some, Option.some.injEq] at answered
      obtain ⟨⟨_, fresh⟩, rfl⟩ := answered
      by_cases same : opened = fd
      · subst same
        simp [isOpen, fresh]
      · simp [isOpen, same, Ne.symm same]
  · simp only [Option.some.injEq] at answered
    subst answered
    simp [isOpen]
  · simp only [Option.some.injEq] at answered
    subst answered
    simp [isOpen]
  · next closed =>
      simp only [Option.some.injEq] at answered
      subst answered
      by_cases same : closed = fd
      · subst same
        simp [isOpen, owned rfl]
      · simp [isOpen, same, Ne.symm same]
  · next others opened closed =>
      simp only [Option.some.injEq] at answered
      subst answered
      simp_all [isOpen]

theorem calls_isOpen {start : Fin W → Int} {acts : List (Act W)}
    {state : Host W × (Fin W → FdTable)}
    (run : exec (product (Host.step F cfg) (kernelStep cfg))
      (Host.initial cfg start, FdTable.initial cfg) acts = some state) (i : Fin W) (fd : RawFd) :
    (acts.filterMap (Act.call i)).count (.accept4 (.ok fd)) =
      isOpen fd (state.2 i) + (acts.filterMap (Act.call i)).count (.close fd) := by
  refine exec_induct (fun acts state => (acts.filterMap (Act.call i)).count (.accept4 (.ok fd)) =
    isOpen fd (state.2 i) + (acts.filterMap (Act.call i)).count (.close fd)) ?_ ?_ run
  · simp [isOpen, FdTable.initial]
  · intro earlier act before next ran counted taken
    rw [List.filterMap_append, List.count_append, List.count_append, counted]
    rcases worker_view taken i with ⟨sys, op, rfl, moved, answered⟩ | ⟨other, _, same⟩
    · have step := FdTable.step_isOpen fd answered fun closes =>
        (Host.accounted (exec_steps ran) i).target_accepted moved (by rw [closes]; rfl)
      simp only [List.filterMap_cons, Act.call, if_true, List.filterMap_nil]
      omega
    · simp [other, same]

theorem Host.descriptors_owned {start : Fin W → Int} {acts : List (Act W)}
    {state : Host W × (Fin W → FdTable)}
    (run : exec (product (Host.step F cfg) (kernelStep cfg))
      (Host.initial cfg start, FdTable.initial cfg) acts = some state) (i : Fin W) :
    (∀ sys fd next, product (Host.step F cfg) (kernelStep cfg) state (.worker i sys) = some next →
      sys.target = some fd → fd ∈ (state.2 i).accepted ∧ fd ∉ cfg.other i ∧
        ∀ added, sys = .ctlAdd fd added → fd ∉ (state.2 i).registered) ∧
    (state.2 i).registered = insert (cfg.listenFd i)
      ((state.1.workers i).conns.fds \ (state.1.workers i).pc.removed) ∧
    ∀ fd, (acts.filterMap (Act.call i)).count (.accept4 (.ok fd)) =
      (acts.filterMap (Act.call i)).count (.close fd) +
        if fd ∈ (state.2 i).accepted then 1 else 0 := by
  have accounted := Host.accounted (exec_steps run) i
  have polled := Host.polled (exec_steps run) i
  refine ⟨fun sys fd next taken target => ?_, polled, fun fd => ?_⟩
  · obtain ⟨op, moved, _⟩ := step_own taken
    have inside := accounted.target_accepted moved target
    refine ⟨inside, Finset.disjoint_left.1 accounted.1.own inside, ?_⟩
    rintro added rfl
    have unlisted := Finset.disjoint_right.1 accounted.1.apart moved.registers_held
    rw [polled]
    simp [accounted.listener_apart inside, unlisted]
  · rw [calls_isOpen run i fd, Nat.add_comm, isOpen]

end Invariant

theorem Host.descriptors_owned_after_reuse :
    ∃ state, exec (product (Host.step Rat (soloConfig .reuseport)) (kernelStep (soloConfig .reuseport)))
        (Host.initial (soloConfig .reuseport) (fun _ => 0), FdTable.initial (soloConfig .reuseport))
        reuseRun = some state ∧
      (state.1.workers 0).conns.fds = {7} ∧ (state.2 0).registered = {3, 7} := by
  -- Descriptor 7 is accepted, closed and accepted again.
  have ran : (exec (product (Host.step Rat (soloConfig .reuseport))
      (kernelStep (soloConfig .reuseport)))
      (Host.initial (soloConfig .reuseport) (fun _ => 0), FdTable.initial (soloConfig .reuseport))
      reuseRun).map
        (fun state => ((state.1.workers 0).conns.keys, (state.1.workers 0).pc.atTop)) =
      some ([7], true) := by decide +kernel
  obtain ⟨state, run, seen⟩ := Option.map_eq_some_iff.1 ran
  simp only [Prod.mk.injEq] at seen
  have conns : (state.1.workers 0).conns.fds = {7} := by simp [Conns.fds, seen.1]
  refine ⟨state, run, conns, ?_⟩
  rw [(Host.descriptors_owned run 0).2.1, conns, Pc.atTop_iff.1 seen.2]
  decide

end MicroHermes.Server
