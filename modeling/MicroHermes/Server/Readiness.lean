import MicroHermes.Server.Accounting
import MicroHermes.Server.Backlog

set_option autoImplicit false

/-!
# Readable connections under edge triggering

Connections are numbered in the order in which the worker accepts them, which names them before they
have a descriptor.
-/

namespace MicroHermes.Server

open Transition

def readbufLen : Nat := 4096

inductive Arrival where
  | data (bytes : List UInt8)
  | eof

/-- The kernel's end of a connection: what has arrived and is unread, whether its descriptor is in
the epoll set, and whether an edge is still to be reported. -/
structure Channel where
  unread : List UInt8
  eof : Bool
  registered : Bool
  edge : Bool
  deriving DecidableEq

def Channel.initial : Channel := ⟨[], false, false, false⟩

def Channel.readable (channel : Channel) : Bool := !channel.unread.isEmpty || channel.eof

def Channel.arrive (channel : Channel) : Arrival → Channel
  -- Every arrival on a registered descriptor raises the edge.
  | .data bytes =>
      { channel with
        unread := channel.unread ++ bytes, edge := channel.edge || channel.registered }
  | .eof => { channel with eof := true, edge := channel.edge || channel.registered }

def Channel.register (channel : Channel) : Channel :=
  { channel with registered := true, edge := channel.readable }

def Channel.unregister (channel : Channel) : Channel :=
  { channel with registered := false, edge := false }

def Channel.read (channel : Channel) : SysRet (List UInt8) → Option Channel
  -- `read` takes a buffer's worth of bytes at most. It gives 0 at the end of the stream and EAGAIN
  -- only when there is nothing to read; other errors can come at any time.
  | .ok [] => if channel.unread = [] ∧ channel.eof = true then some channel else none
  | .ok bytes =>
      if bytes <+: channel.unread ∧ bytes.length ≤ readbufLen then
        some { channel with unread := channel.unread.drop bytes.length }
      else none
  | .err errno =>
      if (errno = eagain ∨ errno = ewouldblock) ∧ channel.readable = true then none
      else some channel

/-- What the kernel keeps for one worker: its descriptors, how many connections it has accepted,
which connection an open descriptor stands for, and the connections. -/
structure Net where
  table : FdTable
  taken : Nat
  conn : RawFd → Nat
  channels : Nat → Channel

def Net.channel (net : Net) (fd : RawFd) : Channel := net.channels (net.conn fd)

def Net.put (net : Net) (fd : RawFd) (channel : Channel) : Net :=
  { net with channels := Function.update net.channels (net.conn fd) channel }

def Net.arrive (net : Net) (conn : Nat) (arrival : Arrival) : Net :=
  { net with
    channels := Function.update net.channels conn ((net.channels conn).arrive arrival) }

def Net.report (net : Net) (events : List EpollEvent) : Net :=
  -- Reporting a connection takes its edge.
  { net with
    channels := fun conn =>
      if ∃ event ∈ events, event.fd ∈ net.table.accepted ∧ net.conn event.fd = conn then
        { net.channels conn with edge := false }
      else net.channels conn }

def Net.answer (net : Net) : Sys → Option Net
  -- `accept4` gives the next connection a descriptor.
  | .epollWait (.ok events) => some (net.report events)
  | .accept4 (.ok fd) =>
      some { net with taken := net.taken + 1, conn := Function.update net.conn fd net.taken }
  | .ctlAdd fd true => some (net.put fd (net.channel fd).register)
  | .ctlDel fd => some (net.put fd (net.channel fd).unregister)
  | .close fd => some (net.put fd (net.channel fd).unregister)
  | .read fd ret => ((net.channel fd).read ret).map (net.put fd)
  | _ => some net

section System

variable (F : Type) [MetricArith F] {W : Nat} (cfg : Config W)

def Net.initial (i : Fin W) : Net where
  table := .initial cfg i
  taken := 0
  conn _ := 0
  channels _ := .initial

def Net.step (i : Fin W) (net : Net) (sys : Sys) : Option Net :=
  (FdTable.step cfg i net.table sys).bind fun table =>
    (net.answer sys).map fun after => { after with table }

inductive NetAct (W : Nat) where
  | host (act : Act W)
  | arrive (i : Fin W) (conn : Nat) (arrival : Arrival)

def netStep (state : Host W × (Fin W → Net)) : NetAct W → Option (Host W × (Fin W → Net))
  | .host act =>
      product (Host.step F cfg) (perWorker (Net.step cfg) fun net _ => some net) state act
  | .arrive i conn arrival =>
      some (state.1, Function.update state.2 i ((state.2 i).arrive conn arrival))

end System

section Views

variable {W : Nat}

def Pc.reading : Pc W → Option RawFd
  | .read fd => some fd
  | _ => none

def Pc.leaving : Pc W → Option RawFd
  -- The connection that is being closed.
  | .ctlDel fd | .close fd => some fd
  | _ => none

@[simp] theorem Net.channel_put_self (net : Net) (fd : RawFd) (channel : Channel) :
    (net.put fd channel).channel fd = channel := by
  simp [Net.put, Net.channel]

theorem Net.channel_put_other (net : Net) {fd other : RawFd} (channel : Channel)
    (apart : net.conn other ≠ net.conn fd) :
    (net.put fd channel).channel other = net.channel other := by
  simp [Net.put, Net.channel, apart]

theorem Net.channel_arrive (net : Net) (conn : Nat) (arrival : Arrival) (fd : RawFd) :
    (net.arrive conn arrival).channel fd =
      if net.conn fd = conn then (net.channel fd).arrive arrival else net.channel fd := by
  by_cases same : net.conn fd = conn
  · subst same
    simp [Net.arrive, Net.channel]
  · simp [Net.arrive, Net.channel, same]

theorem Channel.arrive_registered (channel : Channel) (arrival : Arrival) :
    (channel.arrive arrival).registered = channel.registered ∧
      (channel.arrive arrival).edge = (channel.edge || channel.registered) := by
  cases arrival <;> exact ⟨rfl, rfl⟩

theorem Channel.read_registered {channel after : Channel} {ret : SysRet (List UInt8)}
    (answered : channel.read ret = some after) : after.registered = channel.registered := by
  unfold Channel.read at answered
  split at answered <;> simp only [Option.ite_none_right_eq_some, Option.ite_none_left_eq_some,
    Option.some.injEq] at answered <;> obtain ⟨_, rfl⟩ := answered <;> rfl

theorem Channel.read_drained {channel after : Channel} {errno : Errno}
    (empty : errno = eagain ∨ errno = ewouldblock)
    (answered : channel.read (.err errno) = some after) :
    after = channel ∧ channel.readable = false := by
  simp only [Channel.read, empty, true_and, Option.ite_none_left_eq_some, Option.some.injEq,
    Bool.not_eq_true] at answered
  exact ⟨answered.2.symm, answered.1⟩

end Views

structure Noticed {W : Nat} (w : Worker W) (fd : RawFd) (channel : Channel) : Prop where
  registered : channel.registered = true
  told : channel.readable = true → channel.edge = true ∨ (∃ event ∈ w.events, event.fd = fd) ∨
    w.pc.reading = some fd

structure Ready {W : Nat} (w : Worker W) (net : Net) : Prop where
  numbered : ∀ fd ∈ net.table.accepted, net.conn fd < net.taken
  distinct : ∀ fd ∈ net.table.accepted, ∀ other ∈ net.table.accepted,
    net.conn fd = net.conn other → fd = other
  settled : w.pc.inBatch = false → w.events = []
  noticed : ∀ fd ∈ w.conns, w.pc.leaving ≠ some fd → Noticed w fd (net.channel fd)

section Invariant

variable {F : Type} [MetricArith F] {W : Nat} {cfg : Config W} {i : Fin W} {w w' : Worker W}
  {slot : WorkerSlot} {net net' : Net} {fd other : RawFd}

theorem Ready.initial (cfg : Config W) (i : Fin W) (start : Int) :
    Ready (Worker.initial cfg i start) (Net.initial cfg i) where
  numbered := by simp [Net.initial, FdTable.initial]
  distinct := by simp [Net.initial, FdTable.initial]
  settled _ := rfl
  noticed := by simp [Worker.initial]

theorem Accounted.accepted_of_open {table : FdTable} (books : Accounted cfg i w slot table)
    (inside : fd ∈ w.conns) : fd ∈ table.accepted := by
  rw [books.1.accepted]
  exact Finset.mem_union_left _ (Conns.mem_fds.2 inside)

theorem Accounted.ne_listener {table : FdTable} (books : Accounted cfg i w slot table)
    (inside : fd ∈ w.conns) : fd ≠ cfg.listenFd i := by
  rintro rfl
  exact Finset.disjoint_left.1 books.1.own (books.accepted_of_open inside) (cfg.listenOpen i)

theorem Noticed.arrive {channel : Channel} (inv : Noticed w fd channel) (arrival : Arrival) :
    Noticed w fd (channel.arrive arrival) := by
  obtain ⟨registered, edge⟩ := channel.arrive_registered arrival
  exact ⟨registered.trans inv.registered, fun _ => .inl (by rw [edge, inv.registered]; simp)⟩

theorem Ready.arrive (inv : Ready w net) (conn : Nat) (arrival : Arrival) :
    Ready w (net.arrive conn arrival) where
  numbered := inv.numbered
  distinct := inv.distinct
  settled := inv.settled
  noticed fd inside staying := by
    have before := inv.noticed fd inside staying
    rw [Net.channel_arrive]
    split
    · exact before.arrive arrival
    · exact before

theorem Noticed.quiet {channel : Channel} (inv : Noticed w fd channel)
    (events : w'.events = w.events) (reading : w'.pc.reading = w.pc.reading) :
    Noticed w' fd channel where
  registered := inv.registered
  told := by
    rw [events, reading]
    exact inv.told

theorem Ready.quiet (inv : Ready w net) (conns : ∀ fd, fd ∈ w'.conns ↔ fd ∈ w.conns)
    (events : w'.events = w.events) (reading : w'.pc.reading = w.pc.reading)
    (leaving : w.pc.leaving = none ∨ w'.pc.leaving = w.pc.leaving)
    (settled : w'.pc.inBatch = false → w.pc.inBatch = false ∨ w.events = []) :
    Ready w' net where
  numbered := inv.numbered
  distinct := inv.distinct
  settled outside := events.trans ((settled outside).elim inv.settled id)
  noticed fd inside staying := by
    refine (inv.noticed fd ((conns fd).1 inside) ?_).quiet events reading
    rcases leaving with idle | same
    · simp [idle]
    · rwa [← same]

theorem Ready.handle (inv : Ready w net) {channel : Channel} {table : FdTable}
    (taken : fd ∈ net.table.accepted) (accepted : ∀ other ∈ w.conns, other ∈ net.table.accepted)
    (fewer : table.accepted ⊆ net.table.accepted)
    (conns : ∀ other, other ∈ w'.conns → other = fd ∨ other ∈ w.conns)
    (events : w'.events = w.events) (reading : ∀ other, w.pc.reading = some other → other = fd)
    (leaving : ∀ other, w.pc.leaving = some other → other = fd) (inside : w'.pc.inBatch = true)
    (noticed : fd ∈ w'.conns → w'.pc.leaving ≠ some fd → Noticed w' fd channel) :
    Ready w' { net.put fd channel with table } where
  -- A step on one connection: the others keep their channels, whatever becomes of this one.
  numbered other kept := inv.numbered other (fewer kept)
  distinct first kept second kept' := inv.distinct first (fewer kept) second (fewer kept')
  settled outside := by simp [inside] at outside
  noticed other held staying := by
    change Noticed w' other ((net.put fd channel).channel other)
    by_cases same : other = fd
    · subst same
      rw [Net.channel_put_self]
      exact noticed held staying
    · have before := (conns other held).resolve_left same
      have apart := mt (inv.distinct other (accepted other before) fd taken) same
      obtain ⟨registered, told⟩ := inv.noticed other before fun left => same (leaving other left)
      rw [net.channel_put_other channel apart]
      refine ⟨registered, fun readable => ?_⟩
      rw [events]
      rcases told readable with edge | listed | read
      · exact .inl edge
      · exact .inr (.inl listed)
      · exact absurd (reading other read) same

theorem Ready.next (inv : Ready w net) {event : EpollEvent} {rest : List EpollEvent}
    (idle : w.pc.reading = none ∧ w.pc.leaving = none) (next : w.events = event :: rest)
    (conns : w'.conns = w.conns) (events : w'.events = rest) (inside : w'.pc.inBatch = true)
    (chosen : event.fd ∈ w.conns →
      w'.pc.reading = some event.fd ∨ w'.pc.leaving = some event.fd) : Ready w' net where
  numbered := inv.numbered
  distinct := inv.distinct
  settled outside := by simp [inside] at outside
  noticed fd held staying := by
    rw [conns] at held
    obtain ⟨registered, told⟩ := inv.noticed fd held (by simp [idle.2])
    refine ⟨registered, fun readable => ?_⟩
    rw [next, idle.1] at told
    rcases told readable with edge | ⟨other, listed, rfl⟩ | read
    · exact .inl edge
    · rcases List.mem_cons.1 listed with rfl | later
      · exact .inr (.inr ((chosen held).resolve_right staying))
      · exact .inr (.inl ⟨other, events ▸ later, rfl⟩)
    · cases read

theorem Net.report_nil (net : Net) : net.report [] = net := by
  simp [Net.report]

theorem Accounted.held_accepted {table : FdTable} (books : Accounted cfg i w slot table)
    {fd : RawFd} (held : fd ∈ w.pc.held) : fd ∈ table.accepted ∧ fd ∉ w.conns := by
  constructor
  · rw [books.1.accepted]
    exact Finset.mem_union_right _ held
  · intro inside
    exact Finset.disjoint_left.1 books.1.apart (Conns.mem_fds.2 inside) held

theorem Accounted.handled_open {table : FdTable} (books : Accounted cfg i w slot table)
    (handling : w.pc.handling = some fd) : fd ∈ w.conns :=
  Conns.mem_fds.1 (books.2.handled fd handling).1

theorem Conns.mem_insert_of_lookup {conns : Conns} {state after : ConnState}
    (found : conns.lookup fd = some state) : other ∈ conns.insert fd after ↔ other ∈ conns := by
  rw [← Conns.mem_fds, Conns.fds_insert_of_lookup found, Conns.mem_fds]

theorem Ready.report (inv : Ready w net) {events : List EpollEvent}
    (waiting : w.pc.inBatch = false) (reading : w.pc.reading = none) (leaving : w.pc.leaving = none)
    (accepted : ∀ fd ∈ w.conns, fd ∈ net.table.accepted) (conns : w'.conns = w.conns)
    (batch : w'.events = events) (inside : w'.pc.inBatch = true) : Ready w' (net.report events) where
  -- What loses its edge is in the batch, and nothing of an earlier batch is left.
  numbered := inv.numbered
  distinct := inv.distinct
  settled outside := by simp [inside] at outside
  noticed fd held _ := by
    rw [conns] at held
    obtain ⟨registered, told⟩ := inv.noticed fd held (by simp [leaving])
    simp only [inv.settled waiting, reading, List.not_mem_nil, false_and, exists_false,
      reduceCtorEq, or_false] at told
    unfold Net.channel Net.report at *
    dsimp only
    split
    · next reported =>
        obtain ⟨event, listed, taken, same⟩ := reported
        have found := inv.distinct event.fd taken fd (accepted fd held) same
        exact ⟨registered, fun _ => .inr (.inl ⟨event, batch ▸ listed, found⟩)⟩
    · exact ⟨registered, fun readable => .inl (told readable)⟩

theorem Ready.accept (inv : Ready w net) {table : FdTable} (fresh : fd ∉ net.table.accepted)
    (accepted : ∀ other ∈ w.conns, other ∈ net.table.accepted)
    (opened : table.accepted = insert fd net.table.accepted) (conns : w'.conns = w.conns)
    (events : w'.events = w.events) (idle : w.pc.reading = none ∧ w.pc.leaving = none)
    (inside : w'.pc.inBatch = true) :
    Ready w' { net with table, taken := net.taken + 1
                        conn := Function.update net.conn fd net.taken } where
  -- The new connection has a number that none before it had.
  numbered other kept := by
    rcases Finset.mem_insert.1 (opened ▸ kept) with rfl | before
    · simp
    · have differs : other ≠ fd := fun same => fresh (same ▸ before)
      simpa [differs] using Nat.lt_succ_of_lt (inv.numbered other before)
  distinct first kept second kept' := by
    rcases Finset.mem_insert.1 (opened ▸ kept) with rfl | before <;>
      rcases Finset.mem_insert.1 (opened ▸ kept') with rfl | before'
    · exact fun _ => rfl
    · have differs : second ≠ first := fun same => fresh (same ▸ before')
      have older := inv.numbered second before'
      simp only [Function.update_self, Function.update_of_ne differs]
      omega
    · have differs : first ≠ second := fun same => fresh (same ▸ before)
      have older := inv.numbered first before
      simp only [Function.update_self, Function.update_of_ne differs]
      omega
    · have differs : first ≠ fd := fun same => fresh (same ▸ before)
      have differs' : second ≠ fd := fun same => fresh (same ▸ before')
      simpa [differs, differs'] using inv.distinct first before second before'
  settled outside := by simp [inside] at outside
  noticed other held _ := by
    rw [conns] at held
    have differs : other ≠ fd := fun same => fresh (same ▸ accepted other held)
    obtain ⟨registered, told⟩ := inv.noticed other held (by simp [idle.2])
    rw [idle.1] at told
    have same : net.channels (Function.update net.conn fd net.taken other) = net.channel other := by
      rw [Function.update_of_ne differs, Net.channel]
    unfold Net.channel
    dsimp only
    rw [same]
    refine ⟨registered, fun readable => ?_⟩
    rw [events]
    exact (told readable).imp_right fun listed => .inl (listed.resolve_right nofun)

theorem Ready.step (inv : Ready w net) (books : Accounted cfg i w slot net.table) {wst : Wst W}
    {sys : Sys} {op : MemOp} (moved : Moves F cfg i wst w sys op w')
    (answered : Net.step cfg i net sys = some net') : Ready w' net' := by
  simp only [Net.step, Option.bind_eq_some_iff, Option.map_eq_some_iff] at answered
  obtain ⟨table, listed, after, told, rfl⟩ := answered
  cases moved with
  | shutdown here | enter here | noHang here | hang _ _ here | hangLater _ _ here
  | hangSleep here | strayProcess _ here | partialHeader _ _ here | execute _ _ here
  | wrotePart _ _ _ _ _ here | wroteAll _ _ _ _ _ here | writeRetry _ _ _ _ here
  | writeFailed _ _ _ _ _ here | acceptFailed _ here | scheduleNow _ here | load _ _ here
  | filter _ _ here | publish _ here | publishFailed _ here | tick here | tickFailed here
  | stamp _ here | addPending here | addConn _ here | registerFailed _ here | subFailed here
  | subConn here | subPending here =>
      simp only [FdTable.step, Net.answer, Option.some.injEq] at listed told
      subst listed told
      exact inv.quiet (fun _ => Iff.rfl) rfl (by simp [here, Pc.reading])
        (by simp [here, Pc.leaving]) (by simp [here, Pc.inBatch])
  | badMagic fd _ here found | request fd _ _ here found =>
      simp only [FdTable.step, Net.answer, Option.some.injEq] at listed told
      subst listed told
      exact inv.quiet (fun _ => Conns.mem_insert_of_lookup found) rfl (by simp [here, Pc.reading])
        (by simp [here, Pc.leaving]) (by simp [Pc.inBatch])
  | batchDone here empty =>
      simp only [FdTable.step, Net.answer, Option.some.injEq] at listed told
      subst listed told
      refine inv.quiet (fun _ => Iff.rfl) rfl ?_ (.inl (by rw [here]; rfl)) fun _ => .inr empty
      rw [here]
      dsimp only
      split <;> rfl
  | timeout here =>
      have idle := inv.settled (by rw [here]; rfl)
      simp only [FdTable.step, Net.answer, Net.report_nil, Option.ite_none_right_eq_some,
        Option.some.injEq] at listed told
      obtain ⟨_, rfl⟩ := listed
      subst told
      exact inv.quiet (fun _ => Iff.rfl) idle.symm (by rw [here]; rfl) (.inl (by rw [here]; rfl))
        fun _ => .inr idle
  | interrupted here | waitFailed _ here =>
      have idle := inv.settled (by rw [here]; rfl)
      simp only [FdTable.step, Net.answer, Option.some.injEq] at listed told
      subst listed told
      exact inv.quiet (fun _ => Iff.rfl) idle.symm (by rw [here]; rfl) (.inl (by rw [here]; rfl))
        fun _ => .inr idle
  | ready events here nonempty =>
      simp only [FdTable.step, Net.answer, Option.ite_none_right_eq_some,
        Option.some.injEq] at listed told
      obtain ⟨_, rfl⟩ := listed
      subst told
      exact inv.report (by rw [here]; rfl) (by rw [here]; rfl) (by rw [here]; rfl)
        (fun _ => books.accepted_of_open) rfl rfl rfl
  | listener event rest here next listening =>
      simp only [FdTable.step, Net.answer, Option.some.injEq] at listed told
      subst listed told
      refine inv.next ⟨by rw [here]; rfl, by rw [here]; rfl⟩ next rfl rfl rfl fun held => ?_
      exact absurd listening (books.ne_listener held)
  | hangup event rest here next connection gone =>
      simp only [FdTable.step, Net.answer, Option.some.injEq] at listed told
      subst listed told
      exact inv.next ⟨by rw [here]; rfl, by rw [here]; rfl⟩ next rfl rfl rfl fun _ => .inr rfl
  | readable event rest here next connection alive =>
      simp only [FdTable.step, Net.answer, Option.some.injEq] at listed told
      subst listed told
      exact inv.next ⟨by rw [here]; rfl, by rw [here]; rfl⟩ next rfl rfl rfl fun _ => .inl rfl
  | accepted fd here =>
      simp only [FdTable.step, Net.answer, Option.ite_none_right_eq_some,
        Option.some.injEq] at listed told
      obtain ⟨⟨_, fresh⟩, rfl⟩ := listed
      subst told
      exact inv.accept fresh (fun _ => books.accepted_of_open) rfl rfl rfl
        ⟨by rw [here]; rfl, by rw [here]; rfl⟩ rfl
  | registered fd here =>
      simp only [FdTable.step, Net.answer, Option.some.injEq] at listed told
      subst listed told
      have held := books.held_accepted (show fd ∈ w.pc.held by simp [here, Pc.held])
      refine inv.handle held.1 (fun _ => books.accepted_of_open) (Finset.Subset.refl _)
        (fun _ => AList.mem_insert _ |>.1) rfl (by simp [here, Pc.reading])
        (by simp [here, Pc.leaving]) rfl fun _ _ => ?_
      exact ⟨rfl, fun readable => .inl readable⟩
  | closeFailed fd here =>
      simp only [FdTable.step, Net.answer, Option.some.injEq] at listed told
      subst listed told
      have held := books.held_accepted (show fd ∈ w.pc.held by simp [here, Pc.held])
      exact inv.handle held.1 (fun _ => books.accepted_of_open) (Finset.erase_subset ..)
        (fun _ => .inr) rfl (by simp [here, Pc.reading]) (by simp [here, Pc.leaving]) rfl
        fun inside => absurd inside held.2
  | eof fd here | readFailed fd _ here _ =>
      simp only [FdTable.step, Net.answer, Option.some.injEq, Option.map_eq_some_iff] at listed told
      obtain ⟨channel, _, rfl⟩ := told
      subst listed
      have held := books.handled_open (show w.pc.handling = some fd by rw [here]; rfl)
      exact inv.handle (books.accepted_of_open held) (fun _ => books.accepted_of_open)
        (Finset.Subset.refl _) (fun _ => .inr) rfl (by simp [here, Pc.reading])
        (by simp [here, Pc.leaving]) rfl fun _ staying => absurd rfl staying
  | data fd bytes state here nonempty found =>
      simp only [FdTable.step, Net.answer, Option.some.injEq, Option.map_eq_some_iff] at listed told
      obtain ⟨channel, answered, rfl⟩ := told
      subst listed
      have held := books.handled_open (show w.pc.handling = some fd by rw [here]; rfl)
      have before := inv.noticed fd held (by simp [here, Pc.leaving])
      exact inv.handle (books.accepted_of_open held) (fun _ => books.accepted_of_open)
        (Finset.Subset.refl _) (fun _ inside => .inr ((Conns.mem_insert_of_lookup found).1 inside))
        rfl (by simp [here, Pc.reading]) (by simp [here, Pc.leaving]) rfl
        fun _ _ => ⟨(Channel.read_registered answered).trans before.registered,
          fun _ => .inr (.inr rfl)⟩
  | strayData fd bytes here nonempty absent =>
      have held := books.handled_open (show w.pc.handling = some fd by rw [here]; rfl)
      have found := AList.lookup_isSome.2 held
      simp [absent] at found
  | drained fd errno here empty =>
      simp only [FdTable.step, Net.answer, Option.some.injEq, Option.map_eq_some_iff] at listed told
      obtain ⟨channel, answered, rfl⟩ := told
      subst listed
      have held := books.handled_open (show w.pc.handling = some fd by rw [here]; rfl)
      have before := inv.noticed fd held (by simp [here, Pc.leaving])
      obtain ⟨rfl, nothing⟩ := Channel.read_drained empty answered
      exact inv.handle (books.accepted_of_open held) (fun _ => books.accepted_of_open)
        (Finset.Subset.refl _) (fun _ => .inr) rfl (by simp [here, Pc.reading])
        (by simp [here, Pc.leaving]) rfl
        fun _ _ => ⟨before.registered, fun readable => by simp [nothing] at readable⟩
  | ctlDel fd here =>
      simp only [FdTable.step, Net.answer, Option.some.injEq] at listed told
      subst listed told
      have held := books.handled_open (show w.pc.handling = some fd by rw [here]; rfl)
      exact inv.handle (books.accepted_of_open held) (fun _ => books.accepted_of_open)
        (Finset.Subset.refl _) (fun _ => .inr) rfl (by simp [here, Pc.reading])
        (by simp [here, Pc.leaving]) rfl fun _ staying => absurd rfl staying
  | close fd here =>
      simp only [FdTable.step, Net.answer, Option.some.injEq] at listed told
      subst listed told
      have held := books.handled_open (show w.pc.handling = some fd by rw [here]; rfl)
      exact inv.handle (books.accepted_of_open held) (fun _ => books.accepted_of_open)
        (Finset.erase_subset ..) (fun _ inside => .inr (AList.mem_erase.1 inside).2) rfl
        (by simp [here, Pc.reading]) (by simp [here, Pc.leaving]) rfl
        fun inside _ => absurd rfl (AList.mem_erase.1 inside).1

theorem Host.ready {start : Fin W → Int} {state : Host W × (Fin W → Net)}
    (steps : Steps (netStep F cfg) (Host.initial cfg start, Net.initial cfg) state) (i : Fin W) :
    Accounted cfg i (state.1.workers i) (state.1.shared.wst i) (state.2 i).table ∧
      Ready (state.1.workers i) (state.2 i) := by
  refine Steps.preserve (fun state : Host W × (Fin W → Net) => ∀ i,
    Accounted cfg i (state.1.workers i) (state.1.shared.wst i) (state.2 i).table ∧
      Ready (state.1.workers i) (state.2 i)) ?_ steps
    (fun j => ⟨.initial cfg j (start j), .initial cfg j (start j)⟩) i
  intro state act next inv taken
  cases act with
  | host act =>
      refine Host.keep_each
        (fun i w slot net => Accounted cfg i w slot net.table ∧ Ready w net) ?_ ?_ taken inv
      · rintro j sys op w net rfl ⟨books, ready⟩ moved answered
        refine ⟨books.step moved ?_, ready.step books moved answered⟩
        simp only [Net.step, Option.bind_eq_some_iff, Option.map_eq_some_iff] at answered
        obtain ⟨table, listed, after, _, rfl⟩ := answered
        exact listed
      · rintro _ _ _ _ net _ holds ⟨rfl⟩
        exact holds
  | arrive j conn arrival =>
      simp only [netStep, Option.some.injEq] at taken
      subst taken
      intro k
      obtain ⟨books, ready⟩ := inv k
      by_cases same : k = j
      · subst same
        simpa using ⟨books, ready.arrive conn arrival⟩
      · simpa [same] using ⟨books, ready⟩

theorem Host.no_stranded_data {start : Fin W → Int} {state : Host W × (Fin W → Net)}
    (steps : Steps (netStep F cfg) (Host.initial cfg start, Net.initial cfg) state) (i : Fin W)
    (waiting : (state.1.workers i).pc = .epollWait) {fd : RawFd}
    (inside : fd ∈ (state.1.workers i).conns)
    (readable : ((state.2 i).channel fd).readable = true) :
    ((state.2 i).channel fd).edge = true := by
  obtain ⟨_, ready⟩ := Host.ready steps i
  have idle := ready.settled (by simp [waiting, Pc.inBatch])
  have told := (ready.noticed fd inside (by simp [waiting, Pc.leaving])).told readable
  simpa [idle, waiting, Pc.reading] using told

end Invariant

def raceRun : List (NetAct 1) :=
  -- The first bytes arrive between `accept4` and the registration; then the worker waits again.
  (soloRun (awaitEvents [⟨3, 1⟩] ++ [.internal, .accept4 (.ok 7), .internal])).map .host ++
    .arrive soloWorker 0 (.data [1, 2]) ::
    (soloRun ([.ctlAdd 7 true, .accept4 (.err eagain), .internal] ++ endBatch ++
      [.shutdown false, .clock 6, .internal])).map .host

theorem Host.no_stranded_data_after_race :
    ∃ state, exec (netStep Rat (soloConfig .reuseport))
        (Host.initial (soloConfig .reuseport) (fun _ => 0), Net.initial (soloConfig .reuseport))
        raceRun = some state ∧
      ((state.2 0).channel 7).unread = [1, 2] ∧ ((state.2 0).channel 7).edge = true := by
  have ran : (exec (netStep Rat (soloConfig .reuseport))
      (Host.initial (soloConfig .reuseport) (fun _ => 0), Net.initial (soloConfig .reuseport))
      raceRun).map (fun state => ((state.1.workers 0).pc.atWait,
        (state.1.workers 0).conns.keys, ((state.2 0).channel 7).unread)) =
      some (true, [7], [1, 2]) := by decide +kernel
  obtain ⟨state, run, seen⟩ := Option.map_eq_some_iff.1 ran
  simp only [Prod.mk.injEq] at seen
  obtain ⟨waiting, keys, unread⟩ := seen
  have inside : 7 ∈ (state.1.workers 0).conns := by
    rw [AList.mem_keys, keys]
    exact List.mem_singleton_self 7
  exact ⟨state, run, unread, Host.no_stranded_data (exec_steps run) 0 (Pc.atWait_iff.1 waiting)
    inside (by simp [Channel.readable, unread])⟩

end MicroHermes.Server
