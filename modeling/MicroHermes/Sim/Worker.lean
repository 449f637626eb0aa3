import MicroHermes.Sim.Workload

set_option autoImplicit false

/-!
# The simulated worker

`userspace_simulation/src/worker.rs`: the loop with its accept queue in place of `epoll_wait` and
sleeps in place of request handling. Every atomic operation, queue step, sleep and clock reading is
one step, taken together with the local computation that follows it.
-/

namespace MicroHermes.Sim

def epollTimeout : Int := 5000000

def maxEvents : Nat := 4

inductive RowKind where
  | accept
  | burst
  deriving DecidableEq, Repr

structure ConnRow where
  connId : Nat
  workerId : Nat
  arrivalNs : Int
  dequeueNs : Int
  doneNs : Int
  serviceUs : UInt32
  policy : Policy
  kind : RowKind
  deriving DecidableEq

structure TickRow (W : Nat) where
  timestampNs : Int
  workerId : Nat
  iter : UInt32
  snapshots : Snapshots W
  queueLen : Nat
  result : Option ScheduleResult
  policy : Policy

inductive Pc (W : Nat) where
  | stamp
  | hangTest
  | hangSleep
  | expireNow
  | expire (now : Int) (cursor : Nat)
  | burstTest
  | burstNow
  | choose
  | burstAdd (ids : List Nat)
  | burstDequeue (connId : Nat) (rest : List Nat)
  | burstSleep (connId : Nat) (rest : List Nat) (dequeueNs : Int)
  | burstDone (connId : Nat) (rest : List Nat) (dequeueNs : Int)
  | burstSub (connId : Nat) (rest : List Nat) (dequeueNs doneNs : Int)
  | pollDeadline
  | pop (deadline : Int) (batch : List ConnDesc) (pop : PopPc)
  | pollNow (deadline : Int)
  | pollShutdown (deadline : Int)
  | pollSleep (deadline : Int)
  | acceptAdd (batch : List ConnDesc)
  | acceptConn (desc : ConnDesc) (rest : List ConnDesc)
  | acceptDequeue (desc : ConnDesc) (rest : List ConnDesc)
  | acceptSleep (desc : ConnDesc) (rest : List ConnDesc) (dequeueNs : Int)
  | acceptDone (desc : ConnDesc) (rest : List ConnDesc) (dequeueNs : Int)
  | acceptSub (desc : ConnDesc) (rest : List ConnDesc) (dequeueNs doneNs : Int)
  | scheduleNow
  | snapshot (now : Int) (snap : SnapshotPc W)
  | publish (result : ScheduleResult)
  | tickNow (result : Option ScheduleResult)
  | tickSnapshot (result : Option ScheduleResult) (timestampNs : Int) (snap : SnapshotPc W)
  | tickTail (result : Option ScheduleResult) (timestampNs : Int) (snapshots : Snapshots W)
  | tickHead (result : Option ScheduleResult) (timestampNs : Int) (snapshots : Snapshots W)
      (tail : UInt32)
  | exitShutdown
  | exitTail
  | exitHead (tail : UInt32)
  | exited
  | panicked

def Pc.hasExited {W : Nat} : Pc W → Bool
  | .exited => true
  | _ => false

theorem Pc.hasExited_iff {W : Nat} {pc : Pc W} : pc.hasExited = true ↔ pc = .exited := by
  cases pc <;> simp [hasExited]

structure Worker (W : Nat) where
  pc : Pc W
  -- Identifier and close deadline of the connections held open.
  openConns : List (Nat × Int)
  hangPending : Option HangSpec
  burstPending : Option BurstSpec
  burstBacklog : List Nat
  burstTriggerNs : Int
  start : Int
  iter : UInt32
  ticks : List (TickRow W)
  conns : List ConnRow
  -- What `pop` has returned so far. Only the proofs read it.
  popped : List ConnDesc

inductive MemOp where
  | none
  | storeLoopEntry (now : Int)
  | addPending (amount : Int)
  | addConns (amount : Int)
  | storeSel (bitmap : UInt64)
  | queue (after : ConnQueue)

section Shared

variable {W : Nat}

def MemOp.onSlot : MemOp → WorkerSlot → WorkerSlot
  | .storeLoopEntry now, slot => slot.storeLoopEntry now
  | .addPending amount, slot => slot.addPending amount
  | .addConns amount, slot => slot.addConns amount
  | _, slot => slot

def MemOp.onSel : MemOp → UInt64 → UInt64
  | .storeSel bitmap, _ => bitmap
  | _, msel => msel

def MemOp.onQueue : MemOp → ConnQueue → ConnQueue
  | .queue after, _ => after
  | _, current => current

def SharedState.apply (shared : SharedState W) (i : Fin W) (op : MemOp) : SharedState W :=
  { shared with
    wst := Function.update shared.wst i (op.onSlot (shared.wst i))
    msel := op.onSel shared.msel
    queues := Function.update shared.queues i (op.onQueue (shared.queues i)) }

@[simp] theorem SharedState.apply_wst_self (shared : SharedState W) (i : Fin W) (op : MemOp) :
    (shared.apply i op).wst i = op.onSlot (shared.wst i) := by
  simp [SharedState.apply]

@[simp] theorem SharedState.apply_wst_other (shared : SharedState W) {i j : Fin W} (op : MemOp)
    (other : j ≠ i) : (shared.apply i op).wst j = shared.wst j := by
  simp [SharedState.apply, other]

@[simp] theorem SharedState.apply_queue_self (shared : SharedState W) (i : Fin W) (op : MemOp) :
    (shared.apply i op).queues i = op.onQueue (shared.queues i) := by
  simp [SharedState.apply]

@[simp] theorem SharedState.apply_queue_other (shared : SharedState W) {i j : Fin W} (op : MemOp)
    (other : j ≠ i) : (shared.apply i op).queues j = shared.queues j := by
  simp [SharedState.apply, other]

end Shared

section Step

variable (F : Type) [MetricArith F] {W : Nat} (policy : Policy) (cfg : WorkloadConfig) (i : Fin W)

-- The end of an iteration: Algorithm 1 under the hermes policy, then the tick row.
def endOfLoop : Pc W := if policy = .hermes then .scheduleNow else .tickNow none

def nextBurst : List Nat → Pc W
  | [] => endOfLoop policy
  | connId :: rest => .burstDequeue connId rest

def nextAccept : List ConnDesc → Pc W
  | [] => endOfLoop policy
  | desc :: rest => .acceptConn desc rest

def expireStep (now : Int) (cursor : Nat) (w : Worker W) : MemOp × Worker W :=
  -- One step of `retain` on the open connections.
  match w.openConns[cursor]? with
  | none => (.none, { w with pc := .burstTest })
  | some (_, deadline) =>
      if deadline ≤ now then
        (.addConns (-1),
          { w with openConns := w.openConns.eraseIdx cursor, pc := .expire now cursor })
      else (.none, { w with pc := .expire now (cursor + 1) })

def chooseStep (w : Worker W) : Worker W :=
  -- Burst follow-ups are served first; the accept queue waits while any remain.
  if w.burstBacklog.isEmpty then { w with pc := .pollDeadline }
  else
    let n := min w.burstBacklog.length maxEvents
    { w with burstBacklog := w.burstBacklog.drop n, pc := .burstAdd (w.burstBacklog.take n) }

def pollStep (deadline : Int) (batch : List ConnDesc) (pop : PopPc) : Pc W :=
  -- One step of the batch loop of `poll_accept_queue`.
  match pop with
  | .returned (some desc) =>
      if (batch ++ [desc]).length < maxEvents then .pop deadline (batch ++ [desc]) .loadHead
      else .acceptAdd (batch ++ [desc])
  | .returned none => if batch.isEmpty then .pollNow deadline else .acceptAdd batch
  | pop => .pop deadline batch pop

def burstRow (w : Worker W) (burst : BurstSpec) (connId : Nat) (dequeueNs doneNs : Int) : ConnRow where
  connId
  workerId := i.val
  arrivalNs := w.burstTriggerNs
  dequeueNs
  doneNs
  serviceUs := asMicros burst.serviceNs
  policy
  kind := .burst

def acceptRow (desc : ConnDesc) (dequeueNs doneNs : Int) : ConnRow where
  connId := desc.connId
  workerId := i.val
  arrivalNs := desc.arrivalNs
  dequeueNs
  doneNs
  serviceUs := desc.serviceUs
  policy
  kind := .accept

def Worker.initial (start : Int) : Worker W where
  pc := .stamp
  openConns := []
  hangPending := cfg.hang.filter fun hang => hang.workerId == i.val
  burstPending := cfg.burst
  burstBacklog := []
  burstTriggerNs := 0
  start
  iter := 0
  ticks := []
  conns := []
  popped := []

/-- One step of `worker_loop` in worker `i`. What follows the loop writes the rows to files. -/
def workerStep (shared : SharedState W) (w : Worker W) (label : Sys) : Option (MemOp × Worker W) :=
  match w.pc with
  | .stamp => label.asClock.map fun now => (.storeLoopEntry now, { w with pc := .hangTest })
  | .hangTest =>
      match w.hangPending with
      | none => label.asInternal.map fun _ => (.none, { w with pc := .expireNow })
      | some hang => label.asClock.map fun now =>
          (.none, { w with pc := if hang.atNs ≤ now - w.start then .hangSleep else .expireNow })
  | .hangSleep => label.asInternal.map fun _ =>
      (.none, { w with hangPending := none, pc := .stamp })
  | .expireNow => label.asClock.map fun now => (.none, { w with pc := .expire now 0 })
  | .expire now cursor => label.asInternal.map fun _ => expireStep now cursor w
  | .burstTest =>
      match w.burstPending with
      | none => label.asInternal.map fun _ => (.none, { w with pc := .choose })
      | some burst => label.asClock.map fun now =>
          (.none, { w with pc := if burst.atNs ≤ now - w.start then .burstNow else .choose })
  | .burstNow => label.asClock.map fun now =>
      (.none, { w with
        burstBacklog := w.openConns.map Prod.fst
        burstTriggerNs := now
        burstPending := none
        pc := .choose })
  | .choose => label.asInternal.map fun _ => (.none, chooseStep w)
  | .burstAdd ids => label.asInternal.map fun _ =>
      (.addPending ids.length, { w with pc := nextBurst policy ids })
  | .burstDequeue connId rest => label.asClock.map fun now =>
      (.none, { w with
        pc := if cfg.burst.isSome then .burstSleep connId rest now else .panicked })
  | .burstSleep connId rest dequeueNs => label.asInternal.map fun _ =>
      (.none, { w with pc := .burstDone connId rest dequeueNs })
  | .burstDone connId rest dequeueNs => label.asClock.map fun now =>
      (.none, { w with pc := .burstSub connId rest dequeueNs now })
  | .burstSub connId rest dequeueNs doneNs =>
      cfg.burst.bind fun burst => label.asInternal.map fun _ =>
        (.addPending (-1), { w with
          conns := w.conns ++ [burstRow policy i w burst connId dequeueNs doneNs]
          pc := nextBurst policy rest })
  | .pollDeadline => label.asClock.map fun now =>
      (.none, { w with pc := .pop (now + epollTimeout) [] .loadHead })
  | .pop deadline batch pop => label.asInternal.map fun _ =>
      let (queue, next) := popStep (shared.queues i) pop
      (.queue queue, { w with
        popped := w.popped ++ popReturns (shared.queues i) pop
        pc := pollStep deadline batch next })
  | .pollNow deadline => label.asClock.map fun now =>
      (.none, { w with pc := if deadline ≤ now then .acceptAdd [] else .pollShutdown deadline })
  | .pollShutdown deadline => label.asInternal.map fun _ =>
      (.none, { w with pc := if shared.shutdown = 1 then .acceptAdd [] else .pollSleep deadline })
  | .pollSleep deadline => label.asInternal.map fun _ =>
      (.none, { w with pc := .pop deadline [] .loadHead })
  | .acceptAdd batch => label.asInternal.map fun _ =>
      (.addPending batch.length, { w with pc := nextAccept policy batch })
  | .acceptConn desc rest => label.asInternal.map fun _ =>
      (.addConns 1, { w with pc := .acceptDequeue desc rest })
  | .acceptDequeue desc rest => label.asClock.map fun now =>
      (.none, { w with pc := .acceptSleep desc rest now })
  | .acceptSleep desc rest dequeueNs => label.asInternal.map fun _ =>
      (.none, { w with pc := .acceptDone desc rest dequeueNs })
  | .acceptDone desc rest dequeueNs => label.asClock.map fun now =>
      (.none, { w with pc := .acceptSub desc rest dequeueNs now })
  | .acceptSub desc rest dequeueNs doneNs => label.asInternal.map fun _ =>
      (.addPending (-1), { w with
        openConns := w.openConns ++ [(desc.connId, doneNs + desc.lifetimeMs.toNat * 1000000)]
        conns := w.conns ++ [acceptRow policy i desc dequeueNs doneNs]
        pc := nextAccept policy rest })
  | .scheduleNow => label.asClock.map fun now => (.none, { w with pc := .snapshot now .start })
  | .snapshot now snap => label.asInternal.map fun _ =>
      (.none, { w with
        pc := if snap.finished then
            .publish (scheduleFromSnapshots F snap.taken now hangThresholdNs)
          else .snapshot now (snap.step shared.wst) })
  | .publish result => label.asInternal.map fun _ =>
      (.storeSel result.bitmap, { w with pc := .tickNow (some result) })
  | .tickNow result => label.asClock.map fun now =>
      (.none, { w with pc := .tickSnapshot result now .start })
  | .tickSnapshot result timestampNs snap => label.asInternal.map fun _ =>
      (.none, { w with
        pc := if snap.finished then .tickTail result timestampNs snap.taken
          else .tickSnapshot result timestampNs (snap.step shared.wst) })
  | .tickTail result timestampNs snapshots => label.asInternal.map fun _ =>
      (.none, { w with pc := .tickHead result timestampNs snapshots (shared.queues i).tail })
  | .tickHead result timestampNs snapshots tail => label.asInternal.map fun _ =>
      let queueLen := (tail - (shared.queues i).head).toNat
      (.none, { w with
        ticks := w.ticks ++
          [{ timestampNs, workerId := i.val, iter := w.iter, snapshots, queueLen, result, policy }]
        pc := .exitShutdown })
  | .exitShutdown => label.asInternal.map fun _ =>
      (.none, if shared.shutdown = 1 then { w with pc := .exitTail }
        else { w with iter := w.iter + 1, pc := .stamp })
  | .exitTail => label.asInternal.map fun _ =>
      (.none, { w with pc := .exitHead (shared.queues i).tail })
  | .exitHead tail => label.asInternal.map fun _ =>
      (.none, if tail - (shared.queues i).head = 0 ∧ w.burstBacklog.isEmpty then
          { w with pc := .exited }
        else { w with iter := w.iter + 1, pc := .stamp })
  | .exited | .panicked => none

inductive Moves (shared : SharedState W) (w : Worker W) : Sys → MemOp → Worker W → Prop
  | stamp (now : Int) (pc : w.pc = .stamp) :
      Moves shared w (.clock now) (.storeLoopEntry now) { w with pc := .hangTest }
  | noHang (pc : w.pc = .hangTest) (pending : w.hangPending = none) :
      Moves shared w .internal .none { w with pc := .expireNow }
  | hangDue (now : Int) (hang : HangSpec) (pc : w.pc = .hangTest)
      (pending : w.hangPending = some hang) (due : hang.atNs ≤ now - w.start) :
      Moves shared w (.clock now) .none { w with pc := .hangSleep }
  | hangEarly (now : Int) (hang : HangSpec) (pc : w.pc = .hangTest)
      (pending : w.hangPending = some hang) (early : ¬ hang.atNs ≤ now - w.start) :
      Moves shared w (.clock now) .none { w with pc := .expireNow }
  | hung (pc : w.pc = .hangSleep) :
      Moves shared w .internal .none { w with hangPending := none, pc := .stamp }
  | expireNow (now : Int) (pc : w.pc = .expireNow) :
      Moves shared w (.clock now) .none { w with pc := .expire now 0 }
  | expireEnd (now : Int) (cursor : Nat) (pc : w.pc = .expire now cursor)
      (past : w.openConns.length ≤ cursor) :
      Moves shared w .internal .none { w with pc := .burstTest }
  | close (now : Int) (cursor connId : Nat) (deadline : Int) (pc : w.pc = .expire now cursor)
      (entry : w.openConns[cursor]? = some (connId, deadline)) (due : deadline ≤ now) :
      Moves shared w .internal (.addConns (-1))
        { w with openConns := w.openConns.eraseIdx cursor, pc := .expire now cursor }
  | keep (now : Int) (cursor connId : Nat) (deadline : Int) (pc : w.pc = .expire now cursor)
      (entry : w.openConns[cursor]? = some (connId, deadline)) (early : ¬ deadline ≤ now) :
      Moves shared w .internal .none { w with pc := .expire now (cursor + 1) }
  | noBurst (pc : w.pc = .burstTest) (pending : w.burstPending = none) :
      Moves shared w .internal .none { w with pc := .choose }
  | burstDue (now : Int) (burst : BurstSpec) (pc : w.pc = .burstTest)
      (pending : w.burstPending = some burst) (due : burst.atNs ≤ now - w.start) :
      Moves shared w (.clock now) .none { w with pc := .burstNow }
  | burstEarly (now : Int) (burst : BurstSpec) (pc : w.pc = .burstTest)
      (pending : w.burstPending = some burst) (early : ¬ burst.atNs ≤ now - w.start) :
      Moves shared w (.clock now) .none { w with pc := .choose }
  | burstNow (now : Int) (pc : w.pc = .burstNow) :
      Moves shared w (.clock now) .none
        { w with
          burstBacklog := w.openConns.map Prod.fst
          burstTriggerNs := now
          burstPending := none
          pc := .choose }
  | chooseAccept (pc : w.pc = .choose) (backlog : w.burstBacklog = []) :
      Moves shared w .internal .none { w with pc := .pollDeadline }
  | chooseBurst (pc : w.pc = .choose) (backlog : w.burstBacklog ≠ []) :
      Moves shared w .internal .none
        { w with
          burstBacklog := w.burstBacklog.drop (min w.burstBacklog.length maxEvents)
          pc := .burstAdd (w.burstBacklog.take (min w.burstBacklog.length maxEvents)) }
  | burstAdd (ids : List Nat) (pc : w.pc = .burstAdd ids) :
      Moves shared w .internal (.addPending ids.length) { w with pc := nextBurst policy ids }
  | burstDequeue (now : Int) (connId : Nat) (rest : List Nat) (pc : w.pc = .burstDequeue connId rest)
      (configured : cfg.burst.isSome) :
      Moves shared w (.clock now) .none { w with pc := .burstSleep connId rest now }
  | burstMissing (now : Int) (connId : Nat) (rest : List Nat)
      (pc : w.pc = .burstDequeue connId rest) (missing : cfg.burst = none) :
      Moves shared w (.clock now) .none { w with pc := .panicked }
  | burstSlept (connId : Nat) (rest : List Nat) (dequeueNs : Int)
      (pc : w.pc = .burstSleep connId rest dequeueNs) :
      Moves shared w .internal .none { w with pc := .burstDone connId rest dequeueNs }
  | burstDone (now : Int) (connId : Nat) (rest : List Nat) (dequeueNs : Int)
      (pc : w.pc = .burstDone connId rest dequeueNs) :
      Moves shared w (.clock now) .none { w with pc := .burstSub connId rest dequeueNs now }
  | burstSub (connId : Nat) (rest : List Nat) (dequeueNs doneNs : Int) (burst : BurstSpec)
      (pc : w.pc = .burstSub connId rest dequeueNs doneNs) (configured : cfg.burst = some burst) :
      Moves shared w .internal (.addPending (-1))
        { w with
          conns := w.conns ++ [burstRow policy i w burst connId dequeueNs doneNs]
          pc := nextBurst policy rest }
  | pollDeadline (now : Int) (pc : w.pc = .pollDeadline) :
      Moves shared w (.clock now) .none { w with pc := .pop (now + epollTimeout) [] .loadHead }
  | pop (deadline : Int) (batch : List ConnDesc) (pop : PopPc) (pc : w.pc = .pop deadline batch pop) :
      Moves shared w .internal (.queue (popStep (shared.queues i) pop).1)
        { w with
          popped := w.popped ++ popReturns (shared.queues i) pop
          pc := pollStep deadline batch (popStep (shared.queues i) pop).2 }
  | pollTimeout (now deadline : Int) (pc : w.pc = .pollNow deadline) (due : deadline ≤ now) :
      Moves shared w (.clock now) .none { w with pc := .acceptAdd [] }
  | pollEarly (now deadline : Int) (pc : w.pc = .pollNow deadline) (early : ¬ deadline ≤ now) :
      Moves shared w (.clock now) .none { w with pc := .pollShutdown deadline }
  | pollStop (deadline : Int) (pc : w.pc = .pollShutdown deadline) (requested : shared.shutdown = 1) :
      Moves shared w .internal .none { w with pc := .acceptAdd [] }
  | pollWait (deadline : Int) (pc : w.pc = .pollShutdown deadline)
      (running : shared.shutdown ≠ 1) :
      Moves shared w .internal .none { w with pc := .pollSleep deadline }
  | pollSlept (deadline : Int) (pc : w.pc = .pollSleep deadline) :
      Moves shared w .internal .none { w with pc := .pop deadline [] .loadHead }
  | acceptAdd (batch : List ConnDesc) (pc : w.pc = .acceptAdd batch) :
      Moves shared w .internal (.addPending batch.length) { w with pc := nextAccept policy batch }
  | acceptConn (desc : ConnDesc) (rest : List ConnDesc) (pc : w.pc = .acceptConn desc rest) :
      Moves shared w .internal (.addConns 1) { w with pc := .acceptDequeue desc rest }
  | acceptDequeue (now : Int) (desc : ConnDesc) (rest : List ConnDesc)
      (pc : w.pc = .acceptDequeue desc rest) :
      Moves shared w (.clock now) .none { w with pc := .acceptSleep desc rest now }
  | acceptSlept (desc : ConnDesc) (rest : List ConnDesc) (dequeueNs : Int)
      (pc : w.pc = .acceptSleep desc rest dequeueNs) :
      Moves shared w .internal .none { w with pc := .acceptDone desc rest dequeueNs }
  | acceptDone (now : Int) (desc : ConnDesc) (rest : List ConnDesc) (dequeueNs : Int)
      (pc : w.pc = .acceptDone desc rest dequeueNs) :
      Moves shared w (.clock now) .none { w with pc := .acceptSub desc rest dequeueNs now }
  | acceptSub (desc : ConnDesc) (rest : List ConnDesc) (dequeueNs doneNs : Int)
      (pc : w.pc = .acceptSub desc rest dequeueNs doneNs) :
      Moves shared w .internal (.addPending (-1))
        { w with
          openConns := w.openConns ++ [(desc.connId, doneNs + desc.lifetimeMs.toNat * 1000000)]
          conns := w.conns ++ [acceptRow policy i desc dequeueNs doneNs]
          pc := nextAccept policy rest }
  | scheduleNow (now : Int) (pc : w.pc = .scheduleNow) :
      Moves shared w (.clock now) .none { w with pc := .snapshot now .start }
  | load (now : Int) (snap : SnapshotPc W) (pc : w.pc = .snapshot now snap)
      (unfinished : snap.finished = false) :
      Moves shared w .internal .none { w with pc := .snapshot now (snap.step shared.wst) }
  | schedule (now : Int) (snap : SnapshotPc W) (pc : w.pc = .snapshot now snap)
      (finished : snap.finished = true) :
      Moves shared w .internal .none
        { w with pc := .publish (scheduleFromSnapshots F snap.taken now hangThresholdNs) }
  | publish (result : ScheduleResult) (pc : w.pc = .publish result) :
      Moves shared w .internal (.storeSel result.bitmap) { w with pc := .tickNow (some result) }
  | tickNow (now : Int) (result : Option ScheduleResult) (pc : w.pc = .tickNow result) :
      Moves shared w (.clock now) .none { w with pc := .tickSnapshot result now .start }
  | tickLoad (result : Option ScheduleResult) (timestampNs : Int) (snap : SnapshotPc W)
      (pc : w.pc = .tickSnapshot result timestampNs snap) (unfinished : snap.finished = false) :
      Moves shared w .internal .none
        { w with pc := .tickSnapshot result timestampNs (snap.step shared.wst) }
  | tickLoaded (result : Option ScheduleResult) (timestampNs : Int) (snap : SnapshotPc W)
      (pc : w.pc = .tickSnapshot result timestampNs snap) (finished : snap.finished = true) :
      Moves shared w .internal .none { w with pc := .tickTail result timestampNs snap.taken }
  | tickTail (result : Option ScheduleResult) (timestampNs : Int) (snapshots : Snapshots W)
      (pc : w.pc = .tickTail result timestampNs snapshots) :
      Moves shared w .internal .none
        { w with pc := .tickHead result timestampNs snapshots (shared.queues i).tail }
  | tickHead (result : Option ScheduleResult) (timestampNs : Int) (snapshots : Snapshots W)
      (tail : UInt32) (pc : w.pc = .tickHead result timestampNs snapshots tail) :
      Moves shared w .internal .none
        { w with
          ticks := w.ticks ++
            [{ timestampNs, workerId := i.val, iter := w.iter, snapshots
               queueLen := (tail - (shared.queues i).head).toNat, result, policy }]
          pc := .exitShutdown }
  | exitRequested (pc : w.pc = .exitShutdown) (requested : shared.shutdown = 1) :
      Moves shared w .internal .none { w with pc := .exitTail }
  | exitRunning (pc : w.pc = .exitShutdown) (running : shared.shutdown ≠ 1) :
      Moves shared w .internal .none { w with iter := w.iter + 1, pc := .stamp }
  | exitTail (pc : w.pc = .exitTail) :
      Moves shared w .internal .none { w with pc := .exitHead (shared.queues i).tail }
  | exit (tail : UInt32) (pc : w.pc = .exitHead tail) (empty : tail - (shared.queues i).head = 0)
      (backlog : w.burstBacklog = []) :
      Moves shared w .internal .none { w with pc := .exited }
  | again (tail : UInt32) (pc : w.pc = .exitHead tail)
      (left : tail - (shared.queues i).head ≠ 0 ∨ w.burstBacklog ≠ []) :
      Moves shared w .internal .none { w with iter := w.iter + 1, pc := .stamp }

variable {F policy cfg i}

theorem workerStep_moves {shared : SharedState W} {w w' : Worker W} {label : Sys} {op : MemOp}
    (taken : workerStep F policy cfg i shared w label = some (op, w')) :
    Moves F policy cfg i shared w label op w' := by
  unfold workerStep at taken
  split at taken <;> try simp only [Option.map_eq_some_iff, Prod.mk.injEq] at taken
  · next here =>
      obtain ⟨now, label, rfl, rfl⟩ := taken
      obtain rfl := Sys.asClock_eq_some.1 label
      exact .stamp now here
  · next here =>
      split at taken <;> simp only [Option.map_eq_some_iff, Prod.mk.injEq] at taken
      · next absent =>
          obtain ⟨_, label, rfl, rfl⟩ := taken
          obtain rfl := Sys.asInternal_eq_some.1 label
          exact .noHang here absent
      · next hang planned =>
          obtain ⟨now, label, rfl, rfl⟩ := taken
          obtain rfl := Sys.asClock_eq_some.1 label
          split
          · next due => exact .hangDue now hang here planned due
          · next early => exact .hangEarly now hang here planned early
  · next here =>
      obtain ⟨_, label, rfl, rfl⟩ := taken
      obtain rfl := Sys.asInternal_eq_some.1 label
      exact .hung here
  · next here =>
      obtain ⟨now, label, rfl, rfl⟩ := taken
      obtain rfl := Sys.asClock_eq_some.1 label
      exact .expireNow now here
  · next now cursor here =>
      obtain ⟨_, label, outcome⟩ := taken
      obtain rfl := Sys.asInternal_eq_some.1 label
      unfold expireStep at outcome
      split at outcome
      · next past =>
          obtain ⟨rfl, rfl⟩ := Prod.mk.inj outcome
          exact .expireEnd now cursor here (List.getElem?_eq_none_iff.1 past)
      · next connId deadline entry =>
          split at outcome
          · next due =>
              obtain ⟨rfl, rfl⟩ := Prod.mk.inj outcome
              exact .close now cursor connId deadline here entry due
          · next early =>
              obtain ⟨rfl, rfl⟩ := Prod.mk.inj outcome
              exact .keep now cursor connId deadline here entry early
  · next here =>
      split at taken <;> simp only [Option.map_eq_some_iff, Prod.mk.injEq] at taken
      · next absent =>
          obtain ⟨_, label, rfl, rfl⟩ := taken
          obtain rfl := Sys.asInternal_eq_some.1 label
          exact .noBurst here absent
      · next burst planned =>
          obtain ⟨now, label, rfl, rfl⟩ := taken
          obtain rfl := Sys.asClock_eq_some.1 label
          split
          · next due => exact .burstDue now burst here planned due
          · next early => exact .burstEarly now burst here planned early
  · next here =>
      obtain ⟨now, label, rfl, rfl⟩ := taken
      obtain rfl := Sys.asClock_eq_some.1 label
      exact .burstNow now here
  · next here =>
      obtain ⟨_, label, rfl, rfl⟩ := taken
      obtain rfl := Sys.asInternal_eq_some.1 label
      unfold chooseStep
      split
      · next empty => exact .chooseAccept here (List.isEmpty_iff.1 empty)
      · next waiting => exact .chooseBurst here (by simpa using waiting)
  · next ids here =>
      obtain ⟨_, label, rfl, rfl⟩ := taken
      obtain rfl := Sys.asInternal_eq_some.1 label
      exact .burstAdd ids here
  · next connId rest here =>
      obtain ⟨now, label, rfl, rfl⟩ := taken
      obtain rfl := Sys.asClock_eq_some.1 label
      split
      · next configured => exact .burstDequeue now connId rest here configured
      · next missing => exact .burstMissing now connId rest here (by simpa using missing)
  · next connId rest dequeueNs here =>
      obtain ⟨_, label, rfl, rfl⟩ := taken
      obtain rfl := Sys.asInternal_eq_some.1 label
      exact .burstSlept connId rest dequeueNs here
  · next connId rest dequeueNs here =>
      obtain ⟨now, label, rfl, rfl⟩ := taken
      obtain rfl := Sys.asClock_eq_some.1 label
      exact .burstDone now connId rest dequeueNs here
  · next connId rest dequeueNs doneNs here =>
      simp only [Option.bind_eq_some_iff, Option.map_eq_some_iff, Prod.mk.injEq] at taken
      obtain ⟨burst, configured, _, label, rfl, rfl⟩ := taken
      obtain rfl := Sys.asInternal_eq_some.1 label
      exact .burstSub connId rest dequeueNs doneNs burst here configured
  · next here =>
      obtain ⟨now, label, rfl, rfl⟩ := taken
      obtain rfl := Sys.asClock_eq_some.1 label
      exact .pollDeadline now here
  · next deadline batch pop here =>
      obtain ⟨_, label, rfl, rfl⟩ := taken
      obtain rfl := Sys.asInternal_eq_some.1 label
      exact .pop deadline batch pop here
  · next deadline here =>
      obtain ⟨now, label, rfl, rfl⟩ := taken
      obtain rfl := Sys.asClock_eq_some.1 label
      split
      · next due => exact .pollTimeout now deadline here due
      · next early => exact .pollEarly now deadline here early
  · next deadline here =>
      obtain ⟨_, label, rfl, rfl⟩ := taken
      obtain rfl := Sys.asInternal_eq_some.1 label
      split
      · next requested => exact .pollStop deadline here requested
      · next running => exact .pollWait deadline here running
  · next deadline here =>
      obtain ⟨_, label, rfl, rfl⟩ := taken
      obtain rfl := Sys.asInternal_eq_some.1 label
      exact .pollSlept deadline here
  · next batch here =>
      obtain ⟨_, label, rfl, rfl⟩ := taken
      obtain rfl := Sys.asInternal_eq_some.1 label
      exact .acceptAdd batch here
  · next desc rest here =>
      obtain ⟨_, label, rfl, rfl⟩ := taken
      obtain rfl := Sys.asInternal_eq_some.1 label
      exact .acceptConn desc rest here
  · next desc rest here =>
      obtain ⟨now, label, rfl, rfl⟩ := taken
      obtain rfl := Sys.asClock_eq_some.1 label
      exact .acceptDequeue now desc rest here
  · next desc rest dequeueNs here =>
      obtain ⟨_, label, rfl, rfl⟩ := taken
      obtain rfl := Sys.asInternal_eq_some.1 label
      exact .acceptSlept desc rest dequeueNs here
  · next desc rest dequeueNs here =>
      obtain ⟨now, label, rfl, rfl⟩ := taken
      obtain rfl := Sys.asClock_eq_some.1 label
      exact .acceptDone now desc rest dequeueNs here
  · next desc rest dequeueNs doneNs here =>
      obtain ⟨_, label, rfl, rfl⟩ := taken
      obtain rfl := Sys.asInternal_eq_some.1 label
      exact .acceptSub desc rest dequeueNs doneNs here
  · next here =>
      obtain ⟨now, label, rfl, rfl⟩ := taken
      obtain rfl := Sys.asClock_eq_some.1 label
      exact .scheduleNow now here
  · next now snap here =>
      obtain ⟨_, label, rfl, rfl⟩ := taken
      obtain rfl := Sys.asInternal_eq_some.1 label
      cases finished : snap.finished
      · simpa [finished] using Moves.load now snap here finished
      · simpa [finished] using Moves.schedule now snap here finished
  · next result here =>
      obtain ⟨_, label, rfl, rfl⟩ := taken
      obtain rfl := Sys.asInternal_eq_some.1 label
      exact .publish result here
  · next result here =>
      obtain ⟨now, label, rfl, rfl⟩ := taken
      obtain rfl := Sys.asClock_eq_some.1 label
      exact .tickNow now result here
  · next result timestampNs snap here =>
      obtain ⟨_, label, rfl, rfl⟩ := taken
      obtain rfl := Sys.asInternal_eq_some.1 label
      cases finished : snap.finished
      · simpa [finished] using Moves.tickLoad result timestampNs snap here finished
      · simpa [finished] using Moves.tickLoaded result timestampNs snap here finished
  · next result timestampNs snapshots here =>
      obtain ⟨_, label, rfl, rfl⟩ := taken
      obtain rfl := Sys.asInternal_eq_some.1 label
      exact .tickTail result timestampNs snapshots here
  · next result timestampNs snapshots tail here =>
      obtain ⟨_, label, rfl, rfl⟩ := taken
      obtain rfl := Sys.asInternal_eq_some.1 label
      exact .tickHead result timestampNs snapshots tail here
  · next here =>
      obtain ⟨_, label, rfl, rfl⟩ := taken
      obtain rfl := Sys.asInternal_eq_some.1 label
      split
      · next requested => exact .exitRequested here requested
      · next running => exact .exitRunning here running
  · next here =>
      obtain ⟨_, label, rfl, rfl⟩ := taken
      obtain rfl := Sys.asInternal_eq_some.1 label
      exact .exitTail here
  · next tail here =>
      obtain ⟨_, label, rfl, rfl⟩ := taken
      obtain rfl := Sys.asInternal_eq_some.1 label
      split
      · next both => exact .exit tail here both.1 (List.isEmpty_iff.1 both.2)
      · next left =>
          refine .again tail here ((not_and_or.1 left).imp_right fun waiting empty => ?_)
          exact waiting (List.isEmpty_iff.2 empty)
  · cases taken
  · cases taken

end Step

end MicroHermes.Sim
