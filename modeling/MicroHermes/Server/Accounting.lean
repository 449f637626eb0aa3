import Mathlib.Tactic.Common
import MicroHermes.Server.Host

set_option autoImplicit false

namespace MicroHermes.Server

open Transition

/-- The kernel's view of one worker's descriptors: those `accept4` returned and nobody closed, and
those in its epoll set. -/
structure FdTable where
  accepted : Finset RawFd
  registered : Finset RawFd
  deriving DecidableEq

section Kernel

variable {W : Nat} (cfg : Config W) (i : Fin W)

def FdTable.initial : FdTable where
  accepted := ∅
  registered := {cfg.listenFd i}

def FdTable.step (table : FdTable) : Sys → Option FdTable
  -- A batch lists registered descriptors, each at most once; `accept4` returns a descriptor that is
  -- not open; a closed descriptor leaves the epoll set.
  | .epollWait (.ok events) =>
      if events.length ≤ maxEvents ∧ (events.map EpollEvent.fd).Nodup ∧
          ∀ event ∈ events, event.fd ∈ table.registered then some table
      else none
  | .accept4 (.ok fd) =>
      if fd ∉ cfg.other i ∧ fd ∉ table.accepted then
        some { table with accepted := insert fd table.accepted }
      else none
  | .ctlAdd fd true => some { table with registered := insert fd table.registered }
  | .ctlDel fd => some { table with registered := table.registered.erase fd }
  | .close fd => some ⟨table.accepted.erase fd, table.registered.erase fd⟩
  | _ => some table

def kernelStep : (Fin W → FdTable) → Act W → Option (Fin W → FdTable) :=
  perWorker (FdTable.step cfg) fun table _ => some table

end Kernel

section Views

variable {W : Nat}

def Conns.fds (conns : Conns) : Finset RawFd := conns.keys.toFinset

@[simp] theorem Conns.fds_empty : Conns.fds ∅ = ∅ := rfl

@[simp] theorem Conns.mem_fds {conns : Conns} {fd : RawFd} : fd ∈ conns.fds ↔ fd ∈ conns := by
  simp [Conns.fds, AList.mem_keys]

@[simp] theorem Conns.fds_insert (conns : Conns) (fd : RawFd) (state : ConnState) :
    Conns.fds (conns.insert fd state) = insert fd conns.fds := by
  ext other
  simp

@[simp] theorem Conns.fds_erase (conns : Conns) (fd : RawFd) :
    Conns.fds (conns.erase fd) = conns.fds.erase fd := by
  ext other
  simp

theorem Conns.size_eq_card (conns : Conns) : conns.size = conns.fds.card :=
  (List.toFinset_card_of_nodup conns.nodupKeys).symm

def Pc.held : Pc W → Finset RawFd
  -- The accepted descriptor that is not in the map yet, or never will be.
  | .addConn fd | .ctlAdd fd | .closeFailed fd => {fd}
  | _ => ∅

def Pc.extraConns : Pc W → Nat
  -- How far the connection counter is ahead of the map.
  | .ctlAdd _ | .closeFailed _ | .subFailed | .subConn => 1
  | _ => 0

def Pc.pendingWith (left : Nat) : Pc W → Nat
  -- The events still counted as pending when `left` entries of the batch are not looked at.
  | .nextEvent => left
  | .accept4 | .addConn _ | .ctlAdd _ | .closeFailed _ | .subFailed | .read _ | .process _
  | .execute _ _ | .write _ _ _ _ | .ctlDel _ | .close _ | .subConn | .subPending => left + 1
  | _ => 0

def Pc.handling : Pc W → Option RawFd
  | .read fd | .process fd | .execute fd _ | .write fd _ _ _ | .ctlDel fd | .close fd => some fd
  | _ => none

def Pc.atTop : Pc W → Bool
  | .top => true
  | _ => false

theorem Pc.atTop_iff {pc : Pc W} : pc.atTop = true ↔ pc = .top := by
  cases pc <;> simp [Pc.atTop]

theorem Pc.extraConns_le_one (pc : Pc W) : pc.extraConns ≤ 1 := by
  cases pc <;> simp [Pc.extraConns]

end Views

structure Descriptors {W : Nat} (cfg : Config W) (i : Fin W) (fds held : Finset RawFd) (extra : Nat)
    (count : Int) (table : FdTable) : Prop where
  accepted : table.accepted = fds ∪ held
  apart : Disjoint fds held
  own : Disjoint table.accepted (cfg.other i)
  registered : table.registered ⊆ insert (cfg.listenFd i) fds
  counted : count = fds.card + extra

structure Batch {W : Nat} (cfg : Config W) (i : Fin W) (fds : Finset RawFd)
    (events : List EpollEvent) (left : Nat) (pending : Int) (handling : Option RawFd) : Prop where
  counted : pending = left
  bounded : left ≤ maxEvents ∧ events.length ≤ maxEvents
  distinct : (events.map EpollEvent.fd).Nodup
  known : ∀ event ∈ events, event.fd ∈ insert (cfg.listenFd i) fds
  handled : ∀ fd ∈ handling, fd ∈ fds ∧ ∀ event ∈ events, event.fd ≠ fd

def Accounted {W : Nat} (cfg : Config W) (i : Fin W) (w : Worker W) (slot : WorkerSlot)
    (table : FdTable) : Prop :=
  Descriptors cfg i w.conns.fds w.pc.held w.pc.extraConns slot.accumulatedConns table ∧
    Batch cfg i w.conns.fds w.events (w.pc.pendingWith w.events.length) slot.pendingEvents
      w.pc.handling

section Books

variable {W : Nat} {cfg : Config W} {i : Fin W} {fds held : Finset RawFd} {extra left : Nat}
  {count pending : Int} {table : FdTable} {events : List EpollEvent} {handling : Option RawFd}
  {fd : RawFd}

theorem Descriptors.accept (inv : Descriptors cfg i fds ∅ extra count table)
    (unused : fd ∉ cfg.other i) (fresh : fd ∉ table.accepted) :
    Descriptors cfg i fds {fd} extra count { table with accepted := insert fd table.accepted } where
  accepted := by rw [inv.accepted, Finset.union_empty, Finset.union_comm, Finset.insert_eq]
  apart := by simpa [inv.accepted] using fresh
  own := by simpa [unused] using inv.own
  registered := inv.registered
  counted := inv.counted

theorem Descriptors.count_one (inv : Descriptors cfg i fds held extra count table) :
    Descriptors cfg i fds held (extra + 1) (count + 1) table :=
  { inv with counted := by rw [inv.counted]; omega }

theorem Descriptors.uncount_one (inv : Descriptors cfg i fds held (extra + 1) count table) :
    Descriptors cfg i fds held extra (count + -1) table :=
  { inv with counted := by rw [inv.counted]; omega }

theorem Descriptors.register (inv : Descriptors cfg i fds {fd} (extra + 1) count table) :
    Descriptors cfg i (insert fd fds) ∅ extra count
      { table with registered := insert fd table.registered } where
  accepted := by rw [inv.accepted, Finset.union_empty, Finset.union_comm, Finset.insert_eq]
  apart := Finset.disjoint_empty_right _
  own := inv.own
  registered := by
    rw [Finset.insert_comm]
    exact Finset.insert_subset_insert fd inv.registered
  counted := by
    have fresh : fd ∉ fds := by simpa using inv.apart
    rw [inv.counted, Finset.card_insert_of_notMem fresh]
    omega

theorem Descriptors.close_held (inv : Descriptors cfg i fds {fd} extra count table) :
    Descriptors cfg i fds ∅ extra count
      ⟨table.accepted.erase fd, table.registered.erase fd⟩ where
  accepted := by
    have fresh : fd ∉ fds := by simpa using inv.apart
    rw [inv.accepted, Finset.union_comm, ← Finset.insert_eq, Finset.erase_insert fresh,
      Finset.union_empty]
  apart := Finset.disjoint_empty_right _
  own := inv.own.mono_left (Finset.erase_subset ..)
  registered := (Finset.erase_subset ..).trans inv.registered
  counted := inv.counted

theorem Descriptors.unregister (inv : Descriptors cfg i fds held extra count table) :
    Descriptors cfg i fds held extra count
      { table with registered := table.registered.erase fd } :=
  { inv with registered := (Finset.erase_subset ..).trans inv.registered }

theorem Descriptors.close (inv : Descriptors cfg i fds ∅ extra count table) (inside : fd ∈ fds) :
    Descriptors cfg i (fds.erase fd) ∅ (extra + 1) count
      ⟨table.accepted.erase fd, table.registered.erase fd⟩ where
  accepted := by rw [inv.accepted, Finset.union_empty, Finset.union_empty]
  apart := Finset.disjoint_empty_right _
  own := inv.own.mono_left (Finset.erase_subset ..)
  registered := by
    intro other kept
    obtain ⟨differs, before⟩ := Finset.mem_erase.1 kept
    rcases Finset.mem_insert.1 (inv.registered before) with listening | known
    · exact Finset.mem_insert.2 (.inl listening)
    · exact Finset.mem_insert.2 (.inr (Finset.mem_erase.2 ⟨differs, known⟩))
  counted := by
    rw [inv.counted, Finset.card_erase_of_mem inside]
    have := Finset.card_pos.2 ⟨fd, inside⟩
    omega

theorem Batch.empty (idle : pending = (0 : Nat)) : Batch cfg i fds [] 0 pending none := by
  constructor <;> simp [idle]

theorem Batch.start (idle : pending = (0 : Nat)) (few : events.length ≤ maxEvents)
    (distinct : (events.map EpollEvent.fd).Nodup)
    (registered : ∀ event ∈ events, event.fd ∈ table.registered)
    (inv : Descriptors cfg i fds held extra count table) :
    Batch cfg i fds events 0 pending none where
  counted := idle
  bounded := ⟨by omega, few⟩
  distinct
  known event inside := inv.registered (registered event inside)
  handled _ none := by simp at none

theorem Batch.count_all (inv : Batch cfg i fds events 0 pending handling) :
    Batch cfg i fds events events.length (pending + events.length) handling :=
  { inv with
    counted := by rw [inv.counted]; omega
    bounded := ⟨inv.bounded.2, inv.bounded.2⟩ }

theorem Batch.next {event : EpollEvent} {rest : List EpollEvent}
    (inv : Batch cfg i fds (event :: rest) left pending handling) {target : Option RawFd}
    (chosen : ∀ fd ∈ target, fd = event.fd ∧ event.fd ≠ cfg.listenFd i) :
    Batch cfg i fds rest left pending target where
  -- The next event is on the listener or on a connection of the map, and no later event of the
  -- batch is on the same descriptor.
  counted := inv.counted
  bounded := by
    have few := inv.bounded
    simp only [List.length_cons] at few
    omega
  distinct := (List.nodup_cons.1 inv.distinct).2
  known other inside := inv.known other (List.mem_cons_of_mem event inside)
  handled fd same := by
    obtain ⟨rfl, connection⟩ := chosen fd same
    have known := inv.known event List.mem_cons_self
    refine ⟨(Finset.mem_insert.1 known).resolve_left connection, fun other inside twice => ?_⟩
    exact (List.nodup_cons.1 inv.distinct).1 (twice ▸ List.mem_map_of_mem inside)

theorem Batch.finish (inv : Batch cfg i fds events (left + 1) pending none) :
    Batch cfg i fds events left (pending + -1) none :=
  { inv with
    counted := by rw [inv.counted]; omega
    bounded := ⟨by have := inv.bounded; omega, inv.bounded.2⟩ }

theorem Batch.handle_none (inv : Batch cfg i fds events left pending handling) :
    Batch cfg i fds events left pending none :=
  { inv with handled := by simp }

theorem Batch.insert (inv : Batch cfg i fds events left pending none) :
    Batch cfg i (insert fd fds) events left pending none :=
  -- A descriptor accepted within the batch is not one of the batch: those are all known.
  { inv with
    known := fun event inside => by
      rw [Finset.insert_comm]
      exact Finset.mem_insert_of_mem (inv.known event inside)
    handled := by simp }

theorem Batch.close (inv : Batch cfg i fds events left pending (some fd)) :
    Batch cfg i (fds.erase fd) events left pending none :=
  -- Closing the connection being handled leaves every other descriptor of the batch known.
  { inv with
    known := fun event inside => by
      rcases Finset.mem_insert.1 (inv.known event inside) with listening | known
      · exact Finset.mem_insert.2 (.inl listening)
      · have other := (inv.handled fd rfl).2 event inside
        exact Finset.mem_insert.2 (.inr (Finset.mem_erase.2 ⟨other, known⟩))
    handled := by simp }

end Books

section Invariant

variable {F : Type} [MetricArith F] {W : Nat} {cfg : Config W} {i : Fin W} {w w' : Worker W}
  {slot slot' : WorkerSlot} {table table' : FdTable}

theorem Accounted.initial (cfg : Config W) (i : Fin W) (start : Int) :
    Accounted cfg i (Worker.initial cfg i start) .zero (FdTable.initial cfg i) := by
  refine ⟨?_, Batch.empty rfl⟩
  constructor <;> simp [Worker.initial, FdTable.initial, WorkerSlot.zero, Pc.held, Pc.extraConns]

theorem Accounted.quiet (inv : Accounted cfg i w slot table) (fds : w'.conns.fds = w.conns.fds)
    (events : w'.events = w.events) (held : w'.pc.held = w.pc.held)
    (extra : w'.pc.extraConns = w.pc.extraConns)
    (pending : w'.pc.pendingWith w.events.length = w.pc.pendingWith w.events.length)
    (handling : w'.pc.handling = w.pc.handling ∨ w'.pc.handling = none)
    (sameConns : slot'.accumulatedConns = slot.accumulatedConns)
    (samePending : slot'.pendingEvents = slot.pendingEvents) :
    Accounted cfg i w' slot' table := by
  -- A step that opens and closes nothing and finishes no event.
  unfold Accounted
  rw [fds, events, held, extra, pending, sameConns, samePending]
  rcases handling with same | none
  · exact same ▸ inv
  · exact none ▸ ⟨inv.1, inv.2.handle_none⟩

theorem Conns.fds_insert_of_lookup {conns : Conns} {fd : RawFd} {state after : ConnState}
    (found : conns.lookup fd = some state) : Conns.fds (conns.insert fd after) = conns.fds := by
  have inside : fd ∈ conns := AList.lookup_isSome.1 (by simp [found])
  simp [inside]

theorem Accounted.step (inv : Accounted cfg i w slot table) {wst : Wst W} {sys : Sys} {op : MemOp}
    (moved : Moves F cfg i wst w sys op w') (answered : FdTable.step cfg i table sys = some table') :
    Accounted cfg i w' (op.onSlot slot) table' := by
  -- Every step of a worker keeps its books, whatever the kernel answers within its table.
  cases moved with
  | shutdown here | enter here | noHang here | hang _ _ here | hangLater _ _ here
  | hangSleep here | eof _ here | strayData _ _ here | drained _ _ here | readFailed _ _ here
  | strayProcess _ here | partialHeader _ _ here | execute _ _ here | wrotePart _ _ _ _ _ here
  | wroteAll _ _ _ _ _ here | writeRetry _ _ _ _ here | writeFailed _ _ _ _ _ here
  | acceptFailed _ here | scheduleNow _ here | load _ _ here | filter _ _ here | publish _ here
  | publishFailed _ here | tick here | tickFailed here | stamp _ here =>
      simp only [FdTable.step, Option.some.injEq] at answered
      subst answered
      exact inv.quiet rfl rfl (by simp [here, Pc.held]) (by simp [here, Pc.extraConns])
        (by simp [here, Pc.pendingWith]) (by simp [here, Pc.handling]) rfl rfl
  | data fd _ _ here _ found | badMagic fd _ here found | request fd _ _ here found =>
      simp only [FdTable.step, Option.some.injEq] at answered
      subst answered
      exact inv.quiet (Conns.fds_insert_of_lookup found) rfl (by simp [here, Pc.held])
        (by simp [here, Pc.extraConns]) (by simp [here, Pc.pendingWith])
        (by simp [here, Pc.handling]) rfl rfl
  | batchDone here empty =>
      simp only [FdTable.step, Option.some.injEq] at answered
      subst answered
      have after : (if cfg.policy.runsScheduler then Pc.scheduleNow else Pc.tick : Pc W) = .scheduleNow ∨
          (if cfg.policy.runsScheduler then Pc.scheduleNow else Pc.tick : Pc W) = .tick := by
        split <;> simp
      refine inv.quiet rfl rfl ?_ ?_ ?_ ?_ rfl rfl <;> obtain next | next := after <;>
        simp [next, here, empty, Pc.held, Pc.extraConns, Pc.pendingWith, Pc.handling]
  | ready events here nonempty =>
      obtain ⟨descriptors, batch⟩ := inv
      simp only [here, Pc.held, Pc.extraConns, Pc.pendingWith, Pc.handling] at descriptors batch
      simp only [FdTable.step, Option.ite_none_right_eq_some, Option.some.injEq] at answered
      obtain ⟨⟨few, distinct, registered⟩, rfl⟩ := answered
      exact ⟨descriptors, .start batch.counted few distinct registered descriptors⟩
  | timeout here =>
      obtain ⟨descriptors, batch⟩ := inv
      simp only [here, Pc.held, Pc.extraConns, Pc.pendingWith, Pc.handling] at descriptors batch
      simp only [FdTable.step, Option.ite_none_right_eq_some, Option.some.injEq] at answered
      obtain ⟨_, rfl⟩ := answered
      exact ⟨descriptors, Batch.empty batch.counted⟩
  | interrupted here | waitFailed _ here =>
      obtain ⟨descriptors, batch⟩ := inv
      simp only [here, Pc.held, Pc.extraConns, Pc.pendingWith, Pc.handling] at descriptors batch
      simp only [FdTable.step, Option.some.injEq] at answered
      subst answered
      exact ⟨descriptors, Batch.empty batch.counted⟩
  | addPending here =>
      obtain ⟨descriptors, batch⟩ := inv
      simp only [here, Pc.held, Pc.extraConns, Pc.pendingWith, Pc.handling] at descriptors batch
      simp only [FdTable.step, Option.some.injEq] at answered
      subst answered
      exact ⟨descriptors, batch.count_all⟩
  | listener event rest here next =>
      obtain ⟨descriptors, batch⟩ := inv
      simp only [here, next, Pc.held, Pc.extraConns, Pc.pendingWith, Pc.handling] at descriptors batch
      simp only [FdTable.step, Option.some.injEq] at answered
      subst answered
      exact ⟨descriptors, batch.next (by simp [Pc.handling])⟩
  | hangup event rest here next connection | readable event rest here next connection =>
      obtain ⟨descriptors, batch⟩ := inv
      simp only [here, next, Pc.held, Pc.extraConns, Pc.pendingWith, Pc.handling] at descriptors batch
      simp only [FdTable.step, Option.some.injEq] at answered
      subst answered
      exact ⟨descriptors, batch.next (by simp [Pc.handling, connection])⟩
  | accepted fd here =>
      obtain ⟨descriptors, batch⟩ := inv
      simp only [here, Pc.held, Pc.extraConns, Pc.pendingWith, Pc.handling] at descriptors batch
      simp only [FdTable.step, Option.ite_none_right_eq_some, Option.some.injEq] at answered
      obtain ⟨⟨unused, fresh⟩, rfl⟩ := answered
      exact ⟨descriptors.accept unused fresh, batch⟩
  | addConn fd here =>
      obtain ⟨descriptors, batch⟩ := inv
      simp only [here, Pc.held, Pc.extraConns, Pc.pendingWith, Pc.handling] at descriptors batch
      simp only [FdTable.step, Option.some.injEq] at answered
      subst answered
      exact ⟨descriptors.count_one, batch⟩
  | registered fd here =>
      obtain ⟨descriptors, batch⟩ := inv
      simp only [here, Pc.held, Pc.extraConns, Pc.pendingWith, Pc.handling] at descriptors batch
      simp only [FdTable.step, Option.some.injEq] at answered
      subst answered
      rw [Accounted, Conns.fds_insert]
      exact ⟨descriptors.register, batch.insert⟩
  | registerFailed fd here =>
      obtain ⟨descriptors, batch⟩ := inv
      simp only [here, Pc.held, Pc.extraConns, Pc.pendingWith, Pc.handling] at descriptors batch
      simp only [FdTable.step, Option.some.injEq] at answered
      subst answered
      exact ⟨descriptors, batch⟩
  | closeFailed fd here =>
      obtain ⟨descriptors, batch⟩ := inv
      simp only [here, Pc.held, Pc.extraConns, Pc.pendingWith, Pc.handling] at descriptors batch
      simp only [FdTable.step, Option.some.injEq] at answered
      subst answered
      exact ⟨descriptors.close_held, batch⟩
  | subFailed here | subConn here =>
      obtain ⟨descriptors, batch⟩ := inv
      simp only [here, Pc.held, Pc.extraConns, Pc.pendingWith, Pc.handling] at descriptors batch
      simp only [FdTable.step, Option.some.injEq] at answered
      subst answered
      exact ⟨descriptors.uncount_one, batch⟩
  | ctlDel fd here =>
      obtain ⟨descriptors, batch⟩ := inv
      simp only [here, Pc.held, Pc.extraConns, Pc.pendingWith, Pc.handling] at descriptors batch
      simp only [FdTable.step, Option.some.injEq] at answered
      subst answered
      exact ⟨descriptors.unregister, batch⟩
  | close fd here =>
      obtain ⟨descriptors, batch⟩ := inv
      simp only [here, Pc.held, Pc.extraConns, Pc.pendingWith, Pc.handling] at descriptors batch
      simp only [FdTable.step, Option.some.injEq] at answered
      subst answered
      rw [Accounted, Conns.fds_erase]
      exact ⟨descriptors.close (batch.handled fd rfl).1, batch.close⟩
  | subPending here =>
      obtain ⟨descriptors, batch⟩ := inv
      simp only [here, Pc.held, Pc.extraConns, Pc.pendingWith, Pc.handling] at descriptors batch
      simp only [FdTable.step, Option.some.injEq] at answered
      subst answered
      exact ⟨descriptors, batch.finish⟩

theorem Host.accounted {start : Fin W → Int} {state : Host W × (Fin W → FdTable)}
    (steps : Steps (product (Host.step F cfg) (kernelStep cfg))
      (Host.initial cfg start, FdTable.initial cfg) state) (i : Fin W) :
    Accounted cfg i (state.1.workers i) (state.1.shared.wst i) (state.2 i) :=
  Host.preserve_each (Accounted cfg)
    (fun _ _ _ _ _ _ inv _ moved answered => inv.step moved answered)
    (fun _ _ _ _ _ _ inv happened => by
      simp only [Option.some.injEq] at happened
      exact happened ▸ inv)
    steps (fun j => .initial cfg j (start j)) i

theorem Host.accounting_exact {start : Fin W → Int} {state : Host W × (Fin W → FdTable)}
    (steps : Steps (product (Host.step F cfg) (kernelStep cfg))
      (Host.initial cfg start, FdTable.initial cfg) state) (i : Fin W) :
    ((state.1.workers i).pc = .top →
      (state.1.shared.wst i).accumulatedConns = (state.1.workers i).conns.size ∧
      (state.1.workers i).conns.size = (state.2 i).accepted.card ∧
      (state.1.shared.wst i).pendingEvents = 0) ∧
    (0 ≤ (state.1.shared.wst i).pendingEvents ∧
      (state.1.shared.wst i).pendingEvents ≤ maxEvents) ∧
    0 ≤ (state.1.shared.wst i).accumulatedConns ∧
    ((state.1.shared.wst i).accumulatedConns - (state.1.workers i).conns.size = 0 ∨
      (state.1.shared.wst i).accumulatedConns - (state.1.workers i).conns.size = 1) ∧
    (∀ fd, (state.1.workers i).pc.handling = some fd → fd ∈ (state.1.workers i).conns) ∧
    ∀ sys next, Host.step F cfg state.1 (.worker i sys) = some next →
      ∀ j, j ≠ i → next.shared.wst j = state.1.shared.wst j := by
  obtain ⟨descriptors, batch⟩ := Host.accounted steps i
  have few := (state.1.workers i).pc.extraConns_le_one
  have counted := descriptors.counted
  have pending := batch.counted
  have bounded := batch.bounded.1
  rw [Conns.size_eq_card]
  refine ⟨fun top => ?_, by omega, by omega, by omega, fun fd same => ?_,
    fun sys next taken j other => Host.step_slot_other taken other⟩
  · have accepted := descriptors.accepted
    simp only [top, Pc.held, Pc.extraConns, Pc.pendingWith, Finset.union_empty] at *
    exact ⟨by omega, by rw [accepted], pending⟩
  · exact Conns.mem_fds.1 (batch.handled fd same).1

end Invariant

def reuseRun : List (Act 1) :=
  -- The listener and a connection are in one batch: the connection hangs up, and the descriptor
  -- that is closed for it is accepted again before the batch ends.
  soloRun (awaitEvents [⟨3, 1⟩] ++ acceptOne 7 ++ endBatch ++
    awaitEvents [⟨7, epollHup⟩, ⟨3, 1⟩] ++
    [.internal, .ctlDel 7, .close 7, .internal, .internal] ++ acceptOne 7 ++ endBatch)

theorem Host.accounting_exact_after_reuse :
    ∃ state, exec (product (Host.step Rat (soloConfig .reuseport)) (kernelStep (soloConfig .reuseport)))
        (Host.initial (soloConfig .reuseport) (fun _ => 0), FdTable.initial (soloConfig .reuseport))
        reuseRun = some state ∧
      (state.1.workers 0).conns.keys = [7] ∧
      (state.1.shared.wst 0).accumulatedConns = (state.1.workers 0).conns.size ∧
      (state.1.shared.wst 0).pendingEvents = 0 := by
  have ran : (exec (product (Host.step Rat (soloConfig .reuseport))
      (kernelStep (soloConfig .reuseport)))
      (Host.initial (soloConfig .reuseport) (fun _ => 0), FdTable.initial (soloConfig .reuseport))
      reuseRun).map
        (fun state => ((state.1.workers 0).conns.keys, (state.1.workers 0).pc.atTop)) =
      some ([7], true) := by decide +kernel
  obtain ⟨state, run, seen⟩ := Option.map_eq_some_iff.1 ran
  simp only [Prod.mk.injEq] at seen
  obtain ⟨counted, _, idle⟩ := (Host.accounting_exact (exec_steps run) 0).1
    (Pc.atTop_iff.1 seen.2)
  exact ⟨state, run, seen.1, counted, idle⟩

end MicroHermes.Server
