import Mathlib.Data.Finset.Card
import Mathlib.Data.List.AList
import MicroHermes.Scheduler

set_option autoImplicit false

/-!
# The worker process of the load balancer

`hermes/src/worker.rs` as a machine: every atomic operation, system call, sleep and clock reading
is one step, taken together with the local computation that follows it. A label tells what the
step did and, for a system call, what the kernel answered.
-/

namespace MicroHermes.Server

abbrev RawFd := Nat

abbrev Errno := Nat

def eintr : Errno := 4
def eagain : Errno := 11
def ewouldblock : Errno := 11
def emfile : Errno := 24
def econnaborted : Errno := 103

def epollErr : UInt32 := 0x8
def epollHup : UInt32 := 0x10

def maxEvents : Nat := 64

def maxSpins : Nat := 1000

inductive SysRet (A : Type) where
  -- A system call's return value: non-negative, or -1 with an error number.
  | ok (value : A)
  | err (errno : Errno)
  deriving DecidableEq

inductive Policy where
  | hermes
  | lifo
  | reuseport
  deriving DecidableEq, Repr

def Policy.runsScheduler (policy : Policy) : Bool := policy == .hermes

structure HangSpec where
  atNs : Nat
  durationNs : Nat
  deriving DecidableEq, Repr

structure ConnState where
  buf : List UInt8
  deriving DecidableEq

-- `HashMap<RawFd, ConnState>`
abbrev Conns := AList fun _ : RawFd => ConnState

def Conns.size (conns : Conns) : Nat := conns.keys.length

structure EpollEvent where
  fd : RawFd
  events : UInt32
  deriving DecidableEq

-- EPOLLHUP or EPOLLERR is reported.
def EpollEvent.hangup (event : EpollEvent) : Bool := event.events &&& (epollHup ||| epollErr) != 0

inductive Sys where
  | internal
  | shutdown (requested : Bool)
  | clock (now : Int)
  | epollWait (ret : SysRet (List EpollEvent))
  | accept4 (ret : SysRet RawFd)
  | ctlAdd (fd : RawFd) (added : Bool)
  | ctlDel (fd : RawFd)
  | close (fd : RawFd)
  | read (fd : RawFd) (ret : SysRet (List UInt8))
  | execute (fd : RawFd) (request : Request)
  | write (fd : RawFd) (offered : List UInt8) (ret : SysRet Nat)
  | mapSet (written : Bool)
  | writeTick (written : Bool)
  deriving DecidableEq

/-- Where the loop stands: the step it takes next. `fd` is the connection being handled. -/
inductive Pc (W : Nat) where
  | top
  | stamp
  | hangTest
  | hangSleep
  | epollWait
  | addPending
  | nextEvent
  | accept4
  | addConn (fd : RawFd)
  | ctlAdd (fd : RawFd)
  | closeFailed (fd : RawFd)
  | subFailed
  | read (fd : RawFd)
  | process (fd : RawFd)
  | execute (fd : RawFd) (request : Request)
  | write (fd : RawFd) (resp : List UInt8) (off spins : Nat)
  | ctlDel (fd : RawFd)
  | close (fd : RawFd)
  | subConn
  | subPending
  | scheduleNow
  | snapshot (now : Int) (snap : SnapshotPc W)
  | publish (result : ScheduleResult)
  | tick
  | exited

structure Worker (W : Nat) where
  pc : Pc W
  conns : Conns
  -- Events of the current batch not yet looked at.
  events : List EpollEvent
  hangPending : Option HangSpec
  start : Int
  iter : UInt32

structure Config (W : Nat) where
  policy : Policy
  listenFd : Fin W → RawFd
  -- Descriptors a worker holds besides accepted connections, its listener among them.
  other : Fin W → Finset RawFd
  listenOpen : ∀ i, listenFd i ∈ other i
  hang : Fin W → Option HangSpec

structure Shared (W : Nat) where
  wst : Wst W
  mSel : UInt64

section Labels

def Sys.asInternal : Sys → Option Unit
  | .internal => some ()
  | _ => none

def Sys.asShutdown : Sys → Option Bool
  | .shutdown requested => some requested
  | _ => none

def Sys.asClock : Sys → Option Int
  | .clock now => some now
  | _ => none

def Sys.asEpollWait : Sys → Option (SysRet (List EpollEvent))
  | .epollWait ret => some ret
  | _ => none

def Sys.asAccept4 : Sys → Option (SysRet RawFd)
  | .accept4 ret => some ret
  | _ => none

def Sys.asCtlAdd (fd : RawFd) : Sys → Option Bool
  | .ctlAdd target added => if target = fd then some added else none
  | _ => none

def Sys.asRead (fd : RawFd) : Sys → Option (SysRet (List UInt8))
  | .read target ret => if target = fd then some ret else none
  | _ => none

def Sys.asWrite (fd : RawFd) (offered : List UInt8) : Sys → Option (SysRet Nat)
  -- `write(2)` of the offered bytes accepts at least one and at most all of them, or fails.
  | .write target bytes (.ok count) =>
      if target = fd ∧ bytes = offered ∧ 0 < count ∧ count ≤ offered.length then some (.ok count)
      else none
  | .write target bytes (.err errno) =>
      if target = fd ∧ bytes = offered then some (.err errno) else none
  | _ => none

def Sys.asMapSet : Sys → Option Bool
  | .mapSet written => some written
  | _ => none

def Sys.asWriteTick : Sys → Option Bool
  | .writeTick written => some written
  | _ => none

def Sys.exactly (expected label : Sys) : Option Unit := if label = expected then some () else none

variable {label : Sys}

@[simp] theorem Sys.asInternal_eq_some {value : Unit} :
    label.asInternal = some value ↔ label = .internal := by
  cases label <;> simp [Sys.asInternal]

@[simp] theorem Sys.asShutdown_eq_some {requested : Bool} :
    label.asShutdown = some requested ↔ label = .shutdown requested := by
  cases label <;> simp [Sys.asShutdown]

@[simp] theorem Sys.asClock_eq_some {now : Int} :
    label.asClock = some now ↔ label = .clock now := by
  cases label <;> simp [Sys.asClock]

@[simp] theorem Sys.asEpollWait_eq_some {ret : SysRet (List EpollEvent)} :
    label.asEpollWait = some ret ↔ label = .epollWait ret := by
  cases label <;> simp [Sys.asEpollWait]

@[simp] theorem Sys.asAccept4_eq_some {ret : SysRet RawFd} :
    label.asAccept4 = some ret ↔ label = .accept4 ret := by
  cases label <;> simp [Sys.asAccept4]

@[simp] theorem Sys.asCtlAdd_eq_some {fd : RawFd} {added : Bool} :
    label.asCtlAdd fd = some added ↔ label = .ctlAdd fd added := by
  cases label <;> simp [Sys.asCtlAdd]

@[simp] theorem Sys.asRead_eq_some {fd : RawFd} {ret : SysRet (List UInt8)} :
    label.asRead fd = some ret ↔ label = .read fd ret := by
  cases label <;> simp [Sys.asRead]

theorem Sys.asWrite_ok {fd : RawFd} {offered : List UInt8} {count : Nat}
    (written : label.asWrite fd offered = some (.ok count)) :
    label = .write fd offered (.ok count) ∧ 0 < count ∧ count ≤ offered.length := by
  cases label with
  | write target bytes ret =>
      cases ret with
      | ok accepted =>
          simp only [Sys.asWrite, Option.ite_none_right_eq_some, Option.some.injEq,
            SysRet.ok.injEq] at written
          obtain ⟨⟨rfl, rfl, positive, fits⟩, rfl⟩ := written
          exact ⟨rfl, positive, fits⟩
      | err errno => simp [Sys.asWrite] at written
  | _ => simp [Sys.asWrite] at written

theorem Sys.asWrite_err {fd : RawFd} {offered : List UInt8} {errno : Errno}
    (failed : label.asWrite fd offered = some (.err errno)) :
    label = .write fd offered (.err errno) := by
  cases label with
  | write target bytes ret =>
      cases ret with
      | ok accepted => simp [Sys.asWrite] at failed
      | err reported =>
          simp only [Sys.asWrite, Option.ite_none_right_eq_some, Option.some.injEq,
            SysRet.err.injEq] at failed
          obtain ⟨⟨rfl, rfl⟩, rfl⟩ := failed
          rfl
  | _ => simp [Sys.asWrite] at failed

@[simp] theorem Sys.asMapSet_eq_some {written : Bool} :
    label.asMapSet = some written ↔ label = .mapSet written := by
  cases label <;> simp [Sys.asMapSet]

@[simp] theorem Sys.asWriteTick_eq_some {written : Bool} :
    label.asWriteTick = some written ↔ label = .writeTick written := by
  cases label <;> simp [Sys.asWriteTick]

@[simp] theorem Sys.exactly_eq_some {expected : Sys} {value : Unit} :
    expected.exactly label = some value ↔ label = expected := by
  simp [Sys.exactly]

end Labels

/-- The operation of a step on the shared memory or on the map. A worker names no slot: its
operations go to the slot it was given at the start. -/
inductive MemOp where
  | none
  | storeLoopEntry (now : Int)
  | addPending (amount : Int)
  | addConns (amount : Int)
  | setSel (bitmap : UInt64)
  deriving DecidableEq

section Shared

variable {W : Nat}

def MemOp.onSlot : MemOp → WorkerSlot → WorkerSlot
  | .storeLoopEntry now, slot => slot.storeLoopEntry now
  | .addPending amount, slot => slot.addPending amount
  | .addConns amount, slot => slot.addConns amount
  | .none, slot | .setSel _, slot => slot

def MemOp.onSel : MemOp → UInt64 → UInt64
  | .setSel bitmap, _ => bitmap
  | _, mSel => mSel

def Shared.apply (shared : Shared W) (i : Fin W) (op : MemOp) : Shared W where
  wst := Function.update shared.wst i (op.onSlot (shared.wst i))
  mSel := op.onSel shared.mSel

@[simp] theorem Shared.apply_self (shared : Shared W) (i : Fin W) (op : MemOp) :
    (shared.apply i op).wst i = op.onSlot (shared.wst i) := by
  simp [Shared.apply]

@[simp] theorem Shared.apply_other (shared : Shared W) {i j : Fin W} (op : MemOp)
    (other : j ≠ i) : (shared.apply i op).wst j = shared.wst j := by
  simp [Shared.apply, other]

end Shared

section Step

variable (F : Type) [MetricArith F] {W : Nat} (cfg : Config W) (i : Fin W)

def header (buf : List UInt8) (long : ¬ buf.length < requestHeaderLen) : RequestHeader :=
  -- The `[u8; REQUEST_HEADER_LEN]` copied from the front of a long enough buffer.
  ⟨buf.take requestHeaderLen, by rw [List.length_take]; omega⟩

def processStep (fd : RawFd) (w : Worker W) : Worker W :=
  -- One round of the `while let` loop of `handle_conn_event`, up to the cost of the request.
  match w.conns.lookup fd with
  | none => { w with pc := .subPending }
  | some state =>
      if short : state.buf.length < requestHeaderLen then { w with pc := .subPending }
      else
        let conns := w.conns.insert fd ⟨state.buf.drop requestHeaderLen⟩
        match decodeRequest (header state.buf short) with
        | none => { w with conns, pc := .ctlDel fd }
        | some request => { w with conns, pc := .execute fd request }

def readStep (fd : RawFd) (w : Worker W) : SysRet (List UInt8) → Worker W
  -- The outcome of one `read` in the drain loop of `handle_conn_event`.
  | .ok [] => { w with pc := .ctlDel fd }
  | .ok bytes =>
      match w.conns.lookup fd with
      | none => { w with pc := .read fd }
      | some state => { w with conns := w.conns.insert fd ⟨state.buf ++ bytes⟩, pc := .read fd }
  | .err errno =>
      if errno = eagain ∨ errno = ewouldblock then { w with pc := .process fd }
      else { w with pc := .ctlDel fd }

def writeStep (fd : RawFd) (resp : List UInt8) (off spins : Nat) (w : Worker W) :
    SysRet Nat → Worker W
  -- The outcome of one `write` in `write_all`.
  | .ok count =>
      if off + count < resp.length then { w with pc := .write fd resp (off + count) spins }
      else { w with pc := .process fd }
  | .err errno =>
      if errno = eagain ∧ spins < maxSpins then { w with pc := .write fd resp off (spins + 1) }
      else { w with pc := .ctlDel fd }

def nextEventStep (w : Worker W) : Worker W :=
  -- The next entry of the batch, or the end of the batch.
  match w.events with
  | [] => { w with pc := if cfg.policy.runsScheduler then .scheduleNow else .tick }
  | event :: rest =>
      { w with
        events := rest
        pc := if event.fd = cfg.listenFd i then .accept4
          else if event.hangup then .ctlDel event.fd else .read event.fd }

def responseTo (i : Fin W) (request : Request) : List UInt8 :=
  (encodeResponse request.seq (UInt32.ofNat i.val) request.sendNs zeroResponse).1

/-- One step of `worker_loop` in worker `i`: its operation on the shared memory and what becomes
of its own state. What follows the loop is `Worker.leave`. -/
def workerStep (wst : Wst W) (w : Worker W) (label : Sys) : Option (MemOp × Worker W) :=
  match w.pc with
  | .top => label.asShutdown.map fun requested =>
      (.none, { w with pc := if requested then .exited else .stamp })
  | .stamp => label.asClock.map fun now => (.storeLoopEntry now, { w with pc := .hangTest })
  | .hangTest =>
      match w.hangPending with
      | none => label.asInternal.map fun _ => (.none, { w with pc := .epollWait })
      | some hang => label.asClock.map fun now =>
          (.none, { w with pc := if hang.atNs ≤ now - w.start then .hangSleep else .epollWait })
  | .hangSleep => label.asInternal.map fun _ =>
      (.none, { w with hangPending := none, pc := .top })
  | .epollWait => label.asEpollWait.map fun
      | .ok events => (.none, { w with
          events, pc := if events.length > 0 then .addPending else .nextEvent })
      | .err errno => (.none, { w with
          events := [], pc := if errno = eintr then .nextEvent else .exited })
  | .addPending => label.asInternal.map fun _ =>
      (.addPending w.events.length, { w with pc := .nextEvent })
  | .nextEvent => label.asInternal.map fun _ => (.none, nextEventStep cfg i w)
  | .accept4 => label.asAccept4.map fun
      | .ok fd => (.none, { w with pc := .addConn fd })
      -- EAGAIN ends the loop quietly, every other error after a warning
      | .err _ => (.none, { w with pc := .subPending })
  | .addConn fd => label.asInternal.map fun _ => (.addConns 1, { w with pc := .ctlAdd fd })
  | .ctlAdd fd => (label.asCtlAdd fd).map fun added =>
      (.none, if added then { w with conns := w.conns.insert fd ⟨[]⟩, pc := .accept4 }
        else { w with pc := .closeFailed fd })
  | .closeFailed fd => ((Sys.close fd).exactly label).map fun _ =>
      (.none, { w with pc := .subFailed })
  | .subFailed => label.asInternal.map fun _ => (.addConns (-1), { w with pc := .accept4 })
  | .read fd => (label.asRead fd).map fun ret => (.none, readStep fd w ret)
  | .process fd => label.asInternal.map fun _ => (.none, processStep fd w)
  | .execute fd request => ((Sys.execute fd request).exactly label).map fun _ =>
      (.none, { w with pc := .write fd (responseTo i request) 0 0 })
  | .write fd resp off spins => (label.asWrite fd (resp.drop off)).map fun ret =>
      (.none, writeStep fd resp off spins w ret)
  | .ctlDel fd => ((Sys.ctlDel fd).exactly label).map fun _ => (.none, { w with pc := .close fd })
  | .close fd => ((Sys.close fd).exactly label).map fun _ =>
      (.none, { w with conns := w.conns.erase fd, pc := .subConn })
  | .subConn => label.asInternal.map fun _ => (.addConns (-1), { w with pc := .subPending })
  | .subPending => label.asInternal.map fun _ => (.addPending (-1), { w with pc := .nextEvent })
  | .scheduleNow => label.asClock.map fun now => (.none, { w with pc := .snapshot now .start })
  | .snapshot now snap => label.asInternal.map fun _ =>
      (.none, { w with
        pc := if snap.finished then
            .publish (scheduleFromSnapshots F snap.taken now hangThresholdNs)
          else .snapshot now (snap.step wst) })
  | .publish result => label.asMapSet.map fun written =>
      (if written then .setSel result.bitmap else .none, { w with pc := .tick })
  | .tick => label.asWriteTick.map fun written =>
      (.none, { w with
        iter := if written then w.iter + 1 else w.iter
        pc := if written then .top else .exited })
  | .exited => none

def Worker.leave (w : Worker W) (flushed : Bool) : List Sys :=
  -- The calls after a `break` of the loop: when the flush fails, its error is returned at once.
  if flushed then w.conns.keys.map .close else []

end Step

section Moves

variable {W : Nat} (F : Type) [MetricArith F] (cfg : Config W) (i : Fin W)

inductive Moves (wst : Wst W) (w : Worker W) : Sys → MemOp → Worker W → Prop where
  | shutdown (here : w.pc = .top) : Moves wst w (.shutdown true) .none { w with pc := .exited }
  | enter (here : w.pc = .top) : Moves wst w (.shutdown false) .none { w with pc := .stamp }
  | stamp (now : Int) (here : w.pc = .stamp) :
      Moves wst w (.clock now) (.storeLoopEntry now) { w with pc := .hangTest }
  | noHang (here : w.pc = .hangTest) (unplanned : w.hangPending = none) :
      Moves wst w .internal .none { w with pc := .epollWait }
  | hang (now : Int) (hang : HangSpec) (here : w.pc = .hangTest)
      (planned : w.hangPending = some hang) (due : hang.atNs ≤ now - w.start) :
      Moves wst w (.clock now) .none { w with pc := .hangSleep }
  | hangLater (now : Int) (hang : HangSpec) (here : w.pc = .hangTest)
      (planned : w.hangPending = some hang) (early : ¬ hang.atNs ≤ now - w.start) :
      Moves wst w (.clock now) .none { w with pc := .epollWait }
  | hangSleep (here : w.pc = .hangSleep) :
      Moves wst w .internal .none { w with hangPending := none, pc := .top }
  | ready (events : List EpollEvent) (here : w.pc = .epollWait) (nonempty : 0 < events.length) :
      Moves wst w (.epollWait (.ok events)) .none { w with events, pc := .addPending }
  | timeout (here : w.pc = .epollWait) :
      Moves wst w (.epollWait (.ok [])) .none { w with events := [], pc := .nextEvent }
  | interrupted (here : w.pc = .epollWait) :
      Moves wst w (.epollWait (.err eintr)) .none { w with events := [], pc := .nextEvent }
  | waitFailed (errno : Errno) (here : w.pc = .epollWait) (real : errno ≠ eintr) :
      Moves wst w (.epollWait (.err errno)) .none { w with events := [], pc := .exited }
  | addPending (here : w.pc = .addPending) :
      Moves wst w .internal (.addPending w.events.length) { w with pc := .nextEvent }
  | batchDone (here : w.pc = .nextEvent) (empty : w.events = []) :
      Moves wst w .internal .none
        { w with pc := if cfg.policy.runsScheduler then .scheduleNow else .tick }
  | listener (event : EpollEvent) (rest : List EpollEvent) (here : w.pc = .nextEvent)
      (next : w.events = event :: rest) (listening : event.fd = cfg.listenFd i) :
      Moves wst w .internal .none { w with events := rest, pc := .accept4 }
  | hangup (event : EpollEvent) (rest : List EpollEvent) (here : w.pc = .nextEvent)
      (next : w.events = event :: rest) (connection : event.fd ≠ cfg.listenFd i)
      (gone : event.hangup = true) :
      Moves wst w .internal .none { w with events := rest, pc := .ctlDel event.fd }
  | readable (event : EpollEvent) (rest : List EpollEvent) (here : w.pc = .nextEvent)
      (next : w.events = event :: rest) (connection : event.fd ≠ cfg.listenFd i)
      (alive : event.hangup = false) :
      Moves wst w .internal .none { w with events := rest, pc := .read event.fd }
  | accepted (fd : RawFd) (here : w.pc = .accept4) :
      Moves wst w (.accept4 (.ok fd)) .none { w with pc := .addConn fd }
  | acceptFailed (errno : Errno) (here : w.pc = .accept4) :
      Moves wst w (.accept4 (.err errno)) .none { w with pc := .subPending }
  | addConn (fd : RawFd) (here : w.pc = .addConn fd) :
      Moves wst w .internal (.addConns 1) { w with pc := .ctlAdd fd }
  | registered (fd : RawFd) (here : w.pc = .ctlAdd fd) :
      Moves wst w (.ctlAdd fd true) .none { w with conns := w.conns.insert fd ⟨[]⟩, pc := .accept4 }
  | registerFailed (fd : RawFd) (here : w.pc = .ctlAdd fd) :
      Moves wst w (.ctlAdd fd false) .none { w with pc := .closeFailed fd }
  | closeFailed (fd : RawFd) (here : w.pc = .closeFailed fd) :
      Moves wst w (.close fd) .none { w with pc := .subFailed }
  | subFailed (here : w.pc = .subFailed) :
      Moves wst w .internal (.addConns (-1)) { w with pc := .accept4 }
  | eof (fd : RawFd) (here : w.pc = .read fd) :
      Moves wst w (.read fd (.ok [])) .none { w with pc := .ctlDel fd }
  | data (fd : RawFd) (bytes : List UInt8) (state : ConnState) (here : w.pc = .read fd)
      (nonempty : bytes ≠ []) (found : w.conns.lookup fd = some state) :
      Moves wst w (.read fd (.ok bytes)) .none
        { w with conns := w.conns.insert fd ⟨state.buf ++ bytes⟩, pc := .read fd }
  | strayData (fd : RawFd) (bytes : List UInt8) (here : w.pc = .read fd) (nonempty : bytes ≠ [])
      (absent : w.conns.lookup fd = none) :
      Moves wst w (.read fd (.ok bytes)) .none { w with pc := .read fd }
  | drained (fd : RawFd) (errno : Errno) (here : w.pc = .read fd)
      (empty : errno = eagain ∨ errno = ewouldblock) :
      Moves wst w (.read fd (.err errno)) .none { w with pc := .process fd }
  | readFailed (fd : RawFd) (errno : Errno) (here : w.pc = .read fd)
      (real : ¬ (errno = eagain ∨ errno = ewouldblock)) :
      Moves wst w (.read fd (.err errno)) .none { w with pc := .ctlDel fd }
  | strayProcess (fd : RawFd) (here : w.pc = .process fd) (absent : w.conns.lookup fd = none) :
      Moves wst w .internal .none { w with pc := .subPending }
  | partialHeader (fd : RawFd) (state : ConnState) (here : w.pc = .process fd)
      (found : w.conns.lookup fd = some state) (short : state.buf.length < requestHeaderLen) :
      Moves wst w .internal .none { w with pc := .subPending }
  | badMagic (fd : RawFd) (state : ConnState) (here : w.pc = .process fd)
      (found : w.conns.lookup fd = some state) (long : ¬ state.buf.length < requestHeaderLen)
      (bad : decodeRequest (header state.buf long) = none) :
      Moves wst w .internal .none
        { w with
          conns := w.conns.insert fd ⟨state.buf.drop requestHeaderLen⟩, pc := .ctlDel fd }
  | request (fd : RawFd) (state : ConnState) (request : Request) (here : w.pc = .process fd)
      (found : w.conns.lookup fd = some state) (long : ¬ state.buf.length < requestHeaderLen)
      (good : decodeRequest (header state.buf long) = some request) :
      Moves wst w .internal .none
        { w with
          conns := w.conns.insert fd ⟨state.buf.drop requestHeaderLen⟩
          pc := .execute fd request }
  | execute (fd : RawFd) (request : Request) (here : w.pc = .execute fd request) :
      Moves wst w (.execute fd request) .none
        { w with pc := .write fd (responseTo i request) 0 0 }
  | wrotePart (fd : RawFd) (resp : List UInt8) (off spins count : Nat)
      (here : w.pc = .write fd resp off spins) (positive : 0 < count)
      (part : off + count < resp.length) :
      Moves wst w (.write fd (resp.drop off) (.ok count)) .none
        { w with pc := .write fd resp (off + count) spins }
  | wroteAll (fd : RawFd) (resp : List UInt8) (off spins count : Nat)
      (here : w.pc = .write fd resp off spins) (positive : 0 < count)
      (all : off + count = resp.length) :
      Moves wst w (.write fd (resp.drop off) (.ok count)) .none { w with pc := .process fd }
  | writeRetry (fd : RawFd) (resp : List UInt8) (off spins : Nat)
      (here : w.pc = .write fd resp off spins) (few : spins < maxSpins) :
      Moves wst w (.write fd (resp.drop off) (.err eagain)) .none
        { w with pc := .write fd resp off (spins + 1) }
  | writeFailed (fd : RawFd) (resp : List UInt8) (off spins : Nat) (errno : Errno)
      (here : w.pc = .write fd resp off spins) (real : ¬ (errno = eagain ∧ spins < maxSpins)) :
      Moves wst w (.write fd (resp.drop off) (.err errno)) .none { w with pc := .ctlDel fd }
  | ctlDel (fd : RawFd) (here : w.pc = .ctlDel fd) :
      Moves wst w (.ctlDel fd) .none { w with pc := .close fd }
  | close (fd : RawFd) (here : w.pc = .close fd) :
      Moves wst w (.close fd) .none { w with conns := w.conns.erase fd, pc := .subConn }
  | subConn (here : w.pc = .subConn) :
      Moves wst w .internal (.addConns (-1)) { w with pc := .subPending }
  | subPending (here : w.pc = .subPending) :
      Moves wst w .internal (.addPending (-1)) { w with pc := .nextEvent }
  | scheduleNow (now : Int) (here : w.pc = .scheduleNow) :
      Moves wst w (.clock now) .none { w with pc := .snapshot now .start }
  | load (now : Int) (snap : SnapshotPc W) (here : w.pc = .snapshot now snap)
      (more : snap.finished = false) :
      Moves wst w .internal .none { w with pc := .snapshot now (snap.step wst) }
  | filter (now : Int) (snap : SnapshotPc W) (here : w.pc = .snapshot now snap)
      (finished : snap.finished = true) :
      Moves wst w .internal .none
        { w with pc := .publish (scheduleFromSnapshots F snap.taken now hangThresholdNs) }
  | publish (result : ScheduleResult) (here : w.pc = .publish result) :
      Moves wst w (.mapSet true) (.setSel result.bitmap) { w with pc := .tick }
  | publishFailed (result : ScheduleResult) (here : w.pc = .publish result) :
      Moves wst w (.mapSet false) .none { w with pc := .tick }
  | tick (here : w.pc = .tick) :
      Moves wst w (.writeTick true) .none { w with iter := w.iter + 1, pc := .top }
  | tickFailed (here : w.pc = .tick) :
      Moves wst w (.writeTick false) .none { w with pc := .exited }

variable {F} {cfg} {i} {wst : Wst W} {w w' : Worker W} {sys : Sys} {op : MemOp}

theorem processStep_moves (fd : RawFd) (here : w.pc = .process fd) :
    Moves F cfg i wst w .internal .none (processStep fd w) := by
  unfold processStep
  split
  · next absent => exact .strayProcess fd here absent
  · next state found =>
      split
      · next short => exact .partialHeader fd state here found short
      · next long =>
          split
          · next bad => exact .badMagic fd state here found long bad
          · next request good => exact .request fd state request here found long good

theorem readStep_moves (fd : RawFd) (here : w.pc = .read fd) (ret : SysRet (List UInt8)) :
    Moves F cfg i wst w (.read fd ret) .none (readStep fd w ret) := by
  unfold readStep
  split
  · exact .eof fd here
  · next bytes nonempty =>
      split
      · next absent => exact .strayData fd bytes here nonempty absent
      · next state found => exact .data fd bytes state here nonempty found
  · next errno =>
      split
      · next empty => exact .drained fd errno here empty
      · next real => exact .readFailed fd errno here real

theorem writeStep_moves (fd : RawFd) (resp : List UInt8) (off spins : Nat)
    (here : w.pc = .write fd resp off spins) (ret : SysRet Nat)
    (offered : sys.asWrite fd (resp.drop off) = some ret) :
    Moves F cfg i wst w sys .none (writeStep fd resp off spins w ret) := by
  cases ret with
  | ok count =>
      obtain ⟨rfl, positive, fits⟩ := Sys.asWrite_ok offered
      rw [List.length_drop] at fits
      by_cases part : off + count < resp.length
      · simpa [writeStep, part] using Moves.wrotePart fd resp off spins count here positive part
      · simpa [writeStep, part] using
          Moves.wroteAll fd resp off spins count here positive (by omega)
  | err errno =>
      obtain rfl := Sys.asWrite_err offered
      by_cases again : errno = eagain ∧ spins < maxSpins
      · obtain ⟨rfl, few⟩ := again
        simpa [writeStep, few] using Moves.writeRetry fd resp off spins here few
      · simpa only [writeStep, if_neg again] using
          Moves.writeFailed fd resp off spins errno here again

theorem nextEventStep_moves (here : w.pc = .nextEvent) :
    Moves F cfg i wst w .internal .none (nextEventStep cfg i w) := by
  unfold nextEventStep
  split
  · next empty => exact .batchDone here empty
  · next event rest next =>
      by_cases listening : event.fd = cfg.listenFd i
      · rw [if_pos listening]
        exact .listener event rest here next listening
      · cases gone : event.hangup
        · simpa [listening] using Moves.readable event rest here next listening gone
        · simpa [listening] using Moves.hangup event rest here next listening gone

theorem epollWait_moves (here : w.pc = .epollWait) (ret : SysRet (List EpollEvent)) :
    Moves F cfg i wst w (.epollWait ret) .none
      (match ret with
      | .ok events => { w with
          events, pc := if events.length > 0 then .addPending else .nextEvent }
      | .err errno => { w with
          events := [], pc := if errno = eintr then .nextEvent else .exited }) := by
  cases ret with
  | ok events =>
      cases events with
      | nil => exact .timeout here
      | cons event rest => exact .ready (event :: rest) here (by simp)
  | err errno =>
      by_cases signal : errno = eintr
      · subst signal
        exact .interrupted here
      · simpa [signal] using Moves.waitFailed errno here signal

theorem workerStep_moves (taken : workerStep F cfg i wst w sys = some (op, w')) :
    Moves F cfg i wst w sys op w' := by
  unfold workerStep at taken
  split at taken <;> try simp only [Option.map_eq_some_iff, Prod.mk.injEq] at taken
  · next here =>
      obtain ⟨requested, label, rfl, rfl⟩ := taken
      obtain rfl := Sys.asShutdown_eq_some.1 label
      cases requested
      · exact .enter here
      · exact .shutdown here
  · next here =>
      obtain ⟨now, label, rfl, rfl⟩ := taken
      obtain rfl := Sys.asClock_eq_some.1 label
      exact .stamp now here
  · next here =>
      split at taken <;> simp only [Option.map_eq_some_iff, Prod.mk.injEq] at taken
      · next unplanned =>
          obtain ⟨_, label, rfl, rfl⟩ := taken
          obtain rfl := Sys.asInternal_eq_some.1 label
          exact .noHang here unplanned
      · next hang planned =>
          obtain ⟨now, label, rfl, rfl⟩ := taken
          obtain rfl := Sys.asClock_eq_some.1 label
          split
          · next due => exact .hang now hang here planned due
          · next early => exact .hangLater now hang here planned early
  · next here =>
      obtain ⟨_, label, rfl, rfl⟩ := taken
      obtain rfl := Sys.asInternal_eq_some.1 label
      exact .hangSleep here
  · next here =>
      obtain ⟨ret, label, answer⟩ := taken
      obtain rfl := Sys.asEpollWait_eq_some.1 label
      have moves : Moves F cfg i wst w (.epollWait ret) .none _ := epollWait_moves here ret
      cases ret <;> simp only [Prod.mk.injEq] at answer <;> obtain ⟨rfl, rfl⟩ := answer <;>
        exact moves
  · next here =>
      obtain ⟨_, label, rfl, rfl⟩ := taken
      obtain rfl := Sys.asInternal_eq_some.1 label
      exact .addPending here
  · next here =>
      obtain ⟨_, label, rfl, rfl⟩ := taken
      obtain rfl := Sys.asInternal_eq_some.1 label
      exact nextEventStep_moves here
  · next here =>
      obtain ⟨ret, label, answer⟩ := taken
      obtain rfl := Sys.asAccept4_eq_some.1 label
      cases ret with
      | ok fd =>
          simp only [Prod.mk.injEq] at answer
          obtain ⟨rfl, rfl⟩ := answer
          exact .accepted fd here
      | err errno =>
          simp only [Prod.mk.injEq] at answer
          obtain ⟨rfl, rfl⟩ := answer
          exact .acceptFailed errno here
  · next fd here =>
      obtain ⟨_, label, rfl, rfl⟩ := taken
      obtain rfl := Sys.asInternal_eq_some.1 label
      exact .addConn fd here
  · next fd here =>
      obtain ⟨added, label, rfl, rfl⟩ := taken
      obtain rfl := Sys.asCtlAdd_eq_some.1 label
      cases added
      · exact .registerFailed fd here
      · exact .registered fd here
  · next fd here =>
      obtain ⟨_, label, rfl, rfl⟩ := taken
      obtain rfl := Sys.exactly_eq_some.1 label
      exact .closeFailed fd here
  · next here =>
      obtain ⟨_, label, rfl, rfl⟩ := taken
      obtain rfl := Sys.asInternal_eq_some.1 label
      exact .subFailed here
  · next fd here =>
      obtain ⟨ret, label, rfl, rfl⟩ := taken
      obtain rfl := Sys.asRead_eq_some.1 label
      exact readStep_moves fd here ret
  · next fd here =>
      obtain ⟨_, label, rfl, rfl⟩ := taken
      obtain rfl := Sys.asInternal_eq_some.1 label
      exact processStep_moves fd here
  · next fd request here =>
      obtain ⟨_, label, rfl, rfl⟩ := taken
      obtain rfl := Sys.exactly_eq_some.1 label
      exact .execute fd request here
  · next fd resp off spins here =>
      obtain ⟨ret, label, rfl, rfl⟩ := taken
      exact writeStep_moves fd resp off spins here ret label
  · next fd here =>
      obtain ⟨_, label, rfl, rfl⟩ := taken
      obtain rfl := Sys.exactly_eq_some.1 label
      exact .ctlDel fd here
  · next fd here =>
      obtain ⟨_, label, rfl, rfl⟩ := taken
      obtain rfl := Sys.exactly_eq_some.1 label
      exact .close fd here
  · next here =>
      obtain ⟨_, label, rfl, rfl⟩ := taken
      obtain rfl := Sys.asInternal_eq_some.1 label
      exact .subConn here
  · next here =>
      obtain ⟨_, label, rfl, rfl⟩ := taken
      obtain rfl := Sys.asInternal_eq_some.1 label
      exact .subPending here
  · next here =>
      obtain ⟨now, label, rfl, rfl⟩ := taken
      obtain rfl := Sys.asClock_eq_some.1 label
      exact .scheduleNow now here
  · next now snap here =>
      obtain ⟨_, label, rfl, rfl⟩ := taken
      obtain rfl := Sys.asInternal_eq_some.1 label
      cases finished : snap.finished
      · simpa [finished] using Moves.load now snap here finished
      · simpa [finished] using Moves.filter now snap here finished
  · next result here =>
      obtain ⟨written, label, rfl, rfl⟩ := taken
      obtain rfl := Sys.asMapSet_eq_some.1 label
      cases written
      · exact .publishFailed result here
      · exact .publish result here
  · next here =>
      obtain ⟨written, label, rfl, rfl⟩ := taken
      obtain rfl := Sys.asWriteTick_eq_some.1 label
      cases written
      · exact .tickFailed here
      · exact .tick here
  · cases taken

end Moves

end MicroHermes.Server
