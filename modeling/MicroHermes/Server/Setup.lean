import MicroHermes.Lib.Fallible
import MicroHermes.Kernel
import MicroHermes.Server.Worker

set_option autoImplicit false

/-!
# Socket setup and loading

`hermes/src/loader.rs` and the sockets that a worker keeps after `fork` in `main.rs`.
-/

namespace MicroHermes.Server

open Fallible Logging

inductive SetupCall where
  | socket
  | setsockopt (fd : RawFd) (opt : Nat)
  | bind (fd : RawFd) (port : UInt16)
  | listen (fd : RawFd) (backlog : Nat)
  | createDirAll
  | load
  | takeMap
  | asReusePortSockArray
  | set (workerId : Nat) (fd : RawFd)
  | programMut
  | asSkReuseport
  | loadProgram
  | attach (fd : RawFd)
  deriving DecidableEq

inductive SetupEvent where
  -- `socket` returned the descriptor.
  | opened (fd : RawFd)
  | done (call : SetupCall)
  | failed (call : SetupCall)
  | closed (fd : RawFd)
  deriving DecidableEq

abbrev SetupLog := List SetupEvent

/-- The answers of the kernel and of aya, which may depend on everything that has happened. Nothing
is assumed of them here: a call that fails may still have changed something outside. -/
structure Kernel where
  socket : SetupLog → Option RawFd
  does : SetupLog → SetupCall → Bool

-- The contexts of an error, the outermost first.
abbrev Fault := List String

abbrev Setting := Logging SetupEvent Fault

def soReuseaddr : Nat := 2

def soReuseport : Nat := 15

section Loader

variable (kernel : Kernel)

def Kernel.openSocket : Setting RawFd := ExceptT.mk fun log =>
  match kernel.socket log with
  | some fd => (.ok fd, log ++ [.opened fd])
  | none => (.error ["socket(2)"], log ++ [.failed .socket])

def Kernel.invoke (text : String) (call : SetupCall) : Setting Unit := ExceptT.mk fun log =>
  if kernel.does log call then (.ok (), log ++ [.done call])
  else (.error [text], log ++ [.failed call])

-- An early return drops the descriptors that are owned.
def owning {A : Type} (fds : List RawFd) (x : Setting A) : Setting A :=
  onFailure (· ++ fds.map .closed) x

def setSockoptBool (fd : RawFd) (opt : Nat) : Setting Unit :=
  kernel.invoke s!"setsockopt({opt})" (.setsockopt fd opt)

def createListener (port : UInt16) (reuseport : Bool) : Setting RawFd := do
  let fd ← kernel.openSocket
  owning [fd] do
    setSockoptBool kernel fd soReuseaddr
    if reuseport then setSockoptBool kernel fd soReuseport
    kernel.invoke s!"bind(2) to port {port}" (.bind fd port)
    kernel.invoke "listen(2)" (.listen fd 1024)
    return fd

def createListeners (port : UInt16) : Nat → List RawFd → Setting (List RawFd)
  | 0, owned => return owned
  | left + 1, owned => do
      let fd ← owning owned
        (context ("creating SO_REUSEPORT listener" :: ·) (createListener kernel port true))
      createListeners port left (owned ++ [fd])

def populate : Nat → List RawFd → Setting Unit
  | _, [] => return
  | workerId, fd :: rest => do
      kernel.invoke s!"M_socket[{workerId}] = fd {fd}" (.set workerId fd)
      populate (workerId + 1) rest

def bumpMemlockRlimit : Setting Unit :=
  -- A failure of `setrlimit` is only logged.
  return

def loadAndAttachEbpf (listenFds : List RawFd) : Setting Unit := do
  bumpMemlockRlimit
  kernel.invoke s!"creating {bpffsDir} (is /sys/fs/bpf mounted as bpffs?)" .createDirAll
  kernel.invoke "loading hermes-ebpf object" .load
  kernel.invoke s!"map {pinMSocket} not found in eBPF object" .takeMap
  kernel.invoke "M_socket is not a BPF_MAP_TYPE_REUSEPORT_SOCKARRAY" .asReusePortSockArray
  populate kernel 0 listenFds
  kernel.invoke s!"program {pinProgram} not found in eBPF object" .programMut
  kernel.invoke "program is not SK_REUSEPORT" .asSkReuseport
  kernel.invoke "loading SK_REUSEPORT program into the kernel" .loadProgram
  match listenFds with
  | first :: _ =>
      kernel.invoke "SO_ATTACH_REUSEPORT_EBPF (needs CAP_NET_ADMIN or root)" (.attach first)
  | [] => throw ["index out of bounds"]

structure Setup where
  listenFds : List RawFd
  owned : List RawFd

def setup (W : Nat) (policy : Policy) (port : UInt16) : Setting Setup :=
  match policy with
  | .hermes | .reuseport => do
      let owned ← createListeners kernel port W []
      if policy = .hermes then owning owned (loadAndAttachEbpf kernel owned)
      return ⟨owned, owned⟩
  | .lifo => do
      let fd ← context ("creating shared listener" :: ·) (createListener kernel port false)
      return ⟨List.replicate W fd, [fd]⟩

end Loader

def closeOthers (worker : Nat) (listenFds : List RawFd) (fds : Finset RawFd) : Finset RawFd :=
  -- What a forked worker does to its copy of the descriptors.
  listenFds.zipIdx.foldl (fun fds (fd, i) =>
    if i ≠ worker ∧ some fd ≠ listenFds[worker]? then fds.erase fd else fds) fds

section Logs

def SetupEvent.succeeded : SetupEvent → Bool
  | .opened _ | .done _ => true
  | .failed _ | .closed _ => false

def openedIn (log : SetupLog) : List RawFd :=
  log.filterMap fun
    | .opened fd => some fd
    | _ => none

theorem openedIn_append (log more : SetupLog) :
    openedIn (log ++ more) = openedIn log ++ openedIn more :=
  List.filterMap_append

theorem mem_openedIn {log : SetupLog} {fd : RawFd} : fd ∈ openedIn log ↔ .opened fd ∈ log := by
  rw [openedIn, List.mem_filterMap]
  constructor
  · rintro ⟨event, among, same⟩
    cases event with
    | opened other =>
        obtain rfl := Option.some.inj same
        exact among
    | done _ | failed _ | closed _ => cases same
  · exact fun among => ⟨_, among, rfl⟩

def listenerCalls (port : UInt16) (reuseport : Bool) (fd : RawFd) : List SetupCall :=
  [.setsockopt fd soReuseaddr] ++ (if reuseport then [.setsockopt fd soReuseport] else []) ++
    [.bind fd port, .listen fd 1024]

def listenerLog (port : UInt16) (reuseport : Bool) (fd : RawFd) : SetupLog :=
  .opened fd :: (listenerCalls port reuseport fd).map .done

def setCalls (workerId : Nat) (listenFds : List RawFd) : List SetupCall :=
  (listenFds.zipIdx workerId).map fun (fd, i) => .set i fd

def ebpfCalls (listenFds : List RawFd) : List SetupCall :=
  [.createDirAll, .load, .takeMap, .asReusePortSockArray] ++ setCalls 0 listenFds ++
    [.programMut, .asSkReuseport, .loadProgram] ++ (listenFds.head?.map .attach).toList

def setupLog (policy : Policy) (port : UInt16) (owned : List RawFd) : SetupLog :=
  owned.flatMap (listenerLog port (decide (policy ≠ .lifo))) ++
    (if policy = .hermes then ebpfCalls owned else []).map .done

/-- A call has failed after some that succeeded. What was opened is closed again, and so is what was
held before. -/
def Aborted (held : List RawFd) (log : SetupLog) : Prop :=
  ∃ (earlier : SetupLog) (call : SetupCall) (closing : List RawFd),
    log = earlier ++ .failed call :: closing.map .closed ∧
    (∀ event ∈ earlier, event.succeeded = true) ∧ closing.Perm (held ++ openedIn earlier)

theorem Aborted.at_once (call : SetupCall) : Aborted [] [.failed call] :=
  ⟨[], call, [], rfl, by simp, .refl _⟩

theorem Aborted.after {held : List RawFd} {done log : SetupLog}
    (succeeded : ∀ event ∈ done, event.succeeded = true)
    (aborted : Aborted (held ++ openedIn done) log) : Aborted held (done ++ log) := by
  obtain ⟨earlier, call, closing, rfl, all, perm⟩ := aborted
  refine ⟨done ++ earlier, call, closing, by simp, List.forall_mem_append.2 ⟨succeeded, all⟩, ?_⟩
  rwa [openedIn_append, ← List.append_assoc]

theorem Aborted.close {log : SetupLog} (aborted : Aborted [] log) (fds : List RawFd) :
    Aborted fds (log ++ fds.map .closed) := by
  obtain ⟨earlier, call, closing, rfl, all, perm⟩ := aborted
  refine ⟨earlier, call, closing ++ fds, by simp, all, ?_⟩
  exact List.perm_append_comm.trans (perm.append_left fds)

theorem done_succeeded {calls : List SetupCall} :
    ∀ event ∈ calls.map SetupEvent.done, event.succeeded = true :=
  List.forall_mem_map.2 fun _ _ => rfl

theorem openedIn_done (calls : List SetupCall) : openedIn (calls.map .done) = [] := by
  simp [openedIn]

theorem Aborted.after_done {held : List RawFd} {calls : List SetupCall} {log : SetupLog}
    (aborted : Aborted held log) : Aborted held (calls.map .done ++ log) := by
  refine .after done_succeeded ?_
  rwa [openedIn_done, List.append_nil]

theorem listenerLog_succeeded {port : UInt16} {reuseport : Bool} {fd : RawFd} :
    ∀ event ∈ listenerLog port reuseport fd, event.succeeded = true :=
  List.forall_mem_cons.2 ⟨rfl, done_succeeded⟩

theorem openedIn_listenerLog (port : UInt16) (reuseport : Bool) (fd : RawFd) :
    openedIn (listenerLog port reuseport fd) = [fd] :=
  congrArg (fd :: ·) (openedIn_done _)

theorem listeners_succeeded {port : UInt16} {reuseport : Bool} {fds : List RawFd} :
    ∀ event ∈ fds.flatMap (listenerLog port reuseport), event.succeeded = true := by
  intro event among
  obtain ⟨fd, _, inside⟩ := List.mem_flatMap.1 among
  exact listenerLog_succeeded event inside

theorem openedIn_listeners (port : UInt16) (reuseport : Bool) (fds : List RawFd) :
    openedIn (fds.flatMap (listenerLog port reuseport)) = fds := by
  induction fds with
  | nil => rfl
  | cons fd rest ih =>
      rw [List.flatMap_cons, openedIn_append, openedIn_listenerLog, ih, List.singleton_append]

theorem setupLog_succeeded {policy : Policy} {port : UInt16} {owned : List RawFd} :
    ∀ event ∈ setupLog policy port owned, event.succeeded = true :=
  List.forall_mem_append.2 ⟨listeners_succeeded, done_succeeded⟩

theorem openedIn_setupLog (policy : Policy) (port : UInt16) (owned : List RawFd) :
    openedIn (setupLog policy port owned) = owned := by
  rw [setupLog, openedIn_append, openedIn_done, List.append_nil, openedIn_listeners]

end Logs

section Loading

variable {kernel : Kernel} {before : SetupLog} {A : Type} {port : UInt16} {reuseport : Bool}

theorem owning_adds {x : Setting A} {ok : A → SetupLog → Prop} (fds : List RawFd)
    (adds : Adds before x ok (Aborted [])) : Adds before (owning fds x) ok (Aborted fds) :=
  Adds.onFailure (adds.mono (fun _ _ holds => holds) fun _ aborted => aborted.close fds)

theorem Kernel.invoke_adds (kernel : Kernel) (text : String) (call : SetupCall) :
    Adds before (kernel.invoke text call) (fun _ added => added = [.done call]) (Aborted []) := by
  have ran : outcome (kernel.invoke text call) before =
      if kernel.does before call then (.ok (), before ++ [.done call])
      else (.error [text], before ++ [.failed call]) := rfl
  unfold Adds Ensures
  rw [ran]
  cases kernel.does before call with
  | true => exact ⟨_, rfl, rfl⟩
  | false => exact ⟨_, rfl, .at_once call⟩

theorem Kernel.invoke_then {text : String} {call : SetupCall} {next : Setting A}
    {ok : A → SetupLog → Prop}
    (later : Adds (before ++ [.done call]) next (fun value more => ok value (.done call :: more))
      (Aborted [])) :
    Adds before (kernel.invoke text call >>= fun _ => next) ok (Aborted []) := by
  refine Adds.bind (kernel.invoke_adds text call) ?_
  rintro _ _ rfl
  exact later.mono (fun _ _ holds => holds) fun _ aborted =>
    .after (by simp [SetupEvent.succeeded]) aborted

theorem Kernel.openSocket_adds (kernel : Kernel) :
    Adds before kernel.openSocket
      (fun fd added => added = [.opened fd] ∧ kernel.socket before = some fd) (Aborted []) := by
  have ran : outcome kernel.openSocket before =
      match kernel.socket before with
      | some fd => (.ok fd, before ++ [.opened fd])
      | none => (.error ["socket(2)"], before ++ [.failed .socket]) := rfl
  unfold Adds Ensures
  rw [ran]
  cases answer : kernel.socket before with
  | some fd => exact ⟨_, rfl, rfl, rfl⟩
  | none => exact ⟨_, rfl, .at_once .socket⟩

theorem Kernel.openSocket_then {next : RawFd → Setting A} {ok : A → SetupLog → Prop}
    (later : ∀ fd, kernel.socket before = some fd → Adds (before ++ [.opened fd]) (next fd)
      (fun value more => ok value (.opened fd :: more)) (Aborted [])) :
    Adds before (kernel.openSocket >>= fun fd => owning [fd] (next fd)) ok (Aborted []) := by
  refine Adds.bind kernel.openSocket_adds ?_
  rintro fd _ ⟨rfl, answered⟩
  refine (owning_adds [fd] (later fd answered)).mono (fun _ _ holds => holds) fun _ aborted => ?_
  exact .after (by simp [SetupEvent.succeeded]) aborted

theorem createListener_adds (kernel : Kernel) (before : SetupLog) (port : UInt16)
    (reuseport : Bool) :
    Adds before (createListener kernel port reuseport)
      (fun fd added => added = listenerLog port reuseport fd ∧ kernel.socket before = some fd)
      (Aborted []) := by
  refine Kernel.openSocket_then fun fd answered => Kernel.invoke_then ?_
  cases reuseport with
  | false => exact Kernel.invoke_then (Kernel.invoke_then (.pure ⟨rfl, answered⟩))
  | true =>
      exact Kernel.invoke_then (Kernel.invoke_then (Kernel.invoke_then (.pure ⟨rfl, answered⟩)))

/-- Each descriptor is what the kernel answered after the events before it. -/
def Opens (kernel : Kernel) (port : UInt16) (reuseport : Bool) : SetupLog → List RawFd → Prop
  | _, [] => True
  | before, fd :: rest => kernel.socket before = some fd ∧
      Opens kernel port reuseport (before ++ listenerLog port reuseport fd) rest

theorem createListeners_adds (kernel : Kernel) (port : UInt16) :
    ∀ (left : Nat) (owned : List RawFd) (before : SetupLog),
      Adds before (createListeners kernel port left owned)
        (fun value added => ∃ fds, value = owned ++ fds ∧ fds.length = left ∧
          added = fds.flatMap (listenerLog port true) ∧ Opens kernel port true before fds)
        (Aborted owned) := by
  intro left
  induction left with
  | zero =>
      intro owned before
      exact .pure ⟨[], (List.append_nil owned).symm, rfl, rfl, trivial⟩
  | succ left ih =>
      intro owned before
      have created := createListener_adds kernel before port true
      refine Adds.bind (owning_adds owned created.context) ?_
      rintro fd _ ⟨rfl, answered⟩
      refine (ih (owned ++ [fd]) _).mono ?_ ?_
      · rintro _ _ ⟨fds, rfl, count, rfl, opens⟩
        exact ⟨fd :: fds, by simp, by simp [count], by simp, answered, opens⟩
      · intro more aborted
        refine .after listenerLog_succeeded ?_
        rwa [openedIn_listenerLog]

theorem populate_adds (kernel : Kernel) : ∀ (fds : List RawFd) (workerId : Nat) (before : SetupLog),
    Adds before (populate kernel workerId fds)
      (fun _ added => added = (setCalls workerId fds).map .done) (Aborted []) := by
  intro fds
  induction fds with
  | nil => exact fun _ _ => .pure rfl
  | cons fd rest ih =>
      intro workerId before
      refine Kernel.invoke_then ((ih (workerId + 1) _).mono ?_ fun _ aborted => aborted)
      rintro _ _ rfl
      rfl

theorem loadAndAttachEbpf_adds (kernel : Kernel) (before : SetupLog) {listenFds : List RawFd}
    (nonempty : listenFds ≠ []) :
    Adds before (loadAndAttachEbpf kernel listenFds)
      (fun _ added => added = (ebpfCalls listenFds).map .done) (Aborted []) := by
  obtain ⟨first, rest, rfl⟩ := List.exists_cons_of_ne_nil nonempty
  rw [loadAndAttachEbpf, bumpMemlockRlimit, pure_bind]
  refine Kernel.invoke_then (Kernel.invoke_then (Kernel.invoke_then (Kernel.invoke_then ?_)))
  refine Adds.bind (populate_adds kernel (first :: rest) 0 _) ?_
  rintro _ _ rfl
  refine Adds.mono (Kernel.invoke_then (Kernel.invoke_then (Kernel.invoke_then
    ((kernel.invoke_adds _ _).mono ?_ fun _ aborted => aborted)))) (fun _ _ holds => holds) ?_
  · rintro _ _ rfl
    simp [ebpfCalls]
  · exact fun more aborted => aborted.after_done

end Loading

section Setup

variable {W : Nat} {policy : Policy} {port : UInt16} {result : Setup} {log : SetupLog}

structure Established (kernel : Kernel) (W : Nat) (policy : Policy) (port : UInt16)
    (result : Setup) (log : SetupLog) : Prop where
  separate : policy ≠ .lifo → result.listenFds = result.owned ∧ result.owned.length = W
  shared : policy = .lifo → ∃ fd, result.owned = [fd] ∧ result.listenFds = List.replicate W fd
  log : log = setupLog policy port result.owned
  opens : Opens kernel port (decide (policy ≠ .lifo)) [] result.owned

theorem setup_adds (kernel : Kernel) (nonempty : 0 < W) (policy : Policy) (port : UInt16) :
    Adds [] (setup kernel W policy port) (Established kernel W policy port) (Aborted []) := by
  have created := createListeners_adds kernel port W [] []
  cases policy with
  | lifo =>
      refine Adds.bind (Adds.context (createListener_adds kernel [] port false)) ?_
      rintro fd _ ⟨rfl, answered⟩
      exact Adds.pure ⟨nofun, fun _ => ⟨fd, rfl, rfl⟩, by simp [setupLog], answered, trivial⟩
  | reuseport =>
      refine Adds.bind created ?_
      rintro owned _ ⟨_, rfl, count, rfl, opens⟩
      exact Adds.pure ⟨fun _ => ⟨rfl, count⟩, nofun, by simp [setupLog], opens⟩
  | hermes =>
      refine Adds.bind created ?_
      rintro owned _ ⟨_, rfl, count, rfl, opens⟩
      have listed : owned ≠ [] := List.ne_nil_of_length_pos (count.symm ▸ nonempty)
      have attached := owning_adds owned (loadAndAttachEbpf_adds kernel
        ([] ++ owned.flatMap (listenerLog port true)) listed)
      refine Adds.bind (attached.mono (fun _ _ holds => holds) fun more aborted => ?_) ?_
      · refine .after listeners_succeeded ?_
        rwa [openedIn_listeners]
      · rintro _ _ rfl
        exact Adds.pure ⟨fun _ => ⟨rfl, count⟩, nofun, by simp [setupLog], opens⟩

theorem Kernel.setup_all_or_nothing (kernel : Kernel) (nonempty : 0 < W) (policy : Policy)
    (port : UInt16) :
    (∃ result log, outcome (setup kernel W policy port) [] = (.ok result, log) ∧
      (∀ event ∈ log, event.succeeded = true) ∧ openedIn log = result.owned ∧
      Established kernel W policy port result log) ∨
    ∃ fault log, outcome (setup kernel W policy port) [] = (.error fault, log) ∧
      Aborted [] log := by
  rcases (setup_adds kernel nonempty policy port).outcome with
    ⟨result, log, ran, est⟩ | ⟨fault, log, ran, aborted⟩
  · refine .inl ⟨result, log, ran, ?_, ?_, est⟩
    · exact est.log ▸ setupLog_succeeded
    · exact (congrArg openedIn est.log).trans (openedIn_setupLog ..)
  · exact .inr ⟨fault, log, ran, aborted⟩

def Kernel.refusing (refused : SetupCall → Bool) : Kernel where
  -- Each descriptor is the next number.
  socket log := some ((openedIn log).foldr max 2 + 1)
  does _ call := !refused call

theorem Kernel.setup_all_or_nothing_unattached :
    -- SO_ATTACH_REUSEPORT_EBPF, the last call of two workers' setup, is refused.
    ∃ fault log, outcome (setup (.refusing (· = .attach 3)) 2 .hermes 7878) [] =
      (.error fault, log) ∧ .failed (.attach 3) ∈ log ∧ Aborted [] log := by
  have refused : .failed (.attach 3) ∈
      (outcome (setup (.refusing (· = .attach 3)) 2 .hermes 7878) []).2 := by decide
  rcases Kernel.setup_all_or_nothing (.refusing (· = .attach 3)) Nat.zero_lt_two .hermes 7878 with
    ⟨_, _, ran, succeeded, _⟩ | ⟨fault, log, ran, aborted⟩
  · rw [ran] at refused
    cases succeeded _ refused
  · rw [ran] at refused
    exact ⟨fault, log, ran, refused, aborted⟩

end Setup

section Dispatch

variable {W : Nat} {policy : Policy} {port : UInt16} {used : Finset RawFd} {kernel : Kernel}
  {result : Setup} {log : SetupLog}

theorem mem_foldl_erase (closes : RawFd × Nat → Prop) [DecidablePred closes]
    (entries : List (RawFd × Nat)) (fds : Finset RawFd) (fd : RawFd) :
    fd ∈ entries.foldl (fun fds entry => if closes entry then fds.erase entry.1 else fds) fds ↔
      fd ∈ fds ∧ ∀ entry ∈ entries, closes entry → entry.1 ≠ fd := by
  induction entries generalizing fds with
  | nil => simp
  | cons entry rest ih =>
      rw [List.foldl_cons, ih, List.forall_mem_cons, ← and_assoc]
      refine and_congr_left fun _ => ?_
      split
      · next closing => simp [closing, Finset.mem_erase, and_comm, eq_comm]
      · next kept => simp [kept]

theorem mem_closeOthers {worker : Nat} {listenFds : List RawFd} {fds : Finset RawFd} {fd : RawFd} :
    fd ∈ closeOthers worker listenFds fds ↔
      fd ∈ fds ∧ (fd ∈ listenFds → listenFds[worker]? = some fd) := by
  rw [closeOthers, mem_foldl_erase fun entry : RawFd × Nat =>
    entry.2 ≠ worker ∧ some entry.1 ≠ listenFds[worker]?]
  refine and_congr_right fun _ => ?_
  simp only [Prod.forall, List.mk_mem_zipIdx_iff_getElem?]
  constructor
  · intro kept inside
    obtain ⟨i, found⟩ := List.getElem?_of_mem inside
    by_contra other
    have elsewhere : i ≠ worker := by
      rintro rfl
      exact other found
    exact kept fd i found ⟨elsewhere, fun own => other own.symm⟩ rfl
  · rintro own other i found ⟨_, apart⟩ rfl
    exact apart (own (List.mem_of_getElem? found)).symm

def dispatched (W : Nat) (policy : Policy) (mSel : UInt64) (ctx : Ebpf.SkReuseportContext) : Nat :=
  match policy with
  | .hermes => Ebpf.serve W (some mSel) (fun _ => true) ctx
  | .reuseport | .lifo => Ebpf.defaultPick W ctx

theorem defaultPick_lt (nonempty : 0 < W) (width : W ≤ 64) (ctx : Ebpf.SkReuseportContext) :
    Ebpf.defaultPick W ctx < W := by
  have below := reuseportHash_lt nonempty (by omega) ctx.hash.toUInt64
  rwa [reuseportHash_eq ctx.ipProtocol, UInt32.toUInt32_toUInt64] at below

theorem dispatched_lt (nonempty : 0 < W) (width : W ≤ 64) (policy : Policy) (mSel : UInt64)
    (hash : UInt32) : dispatched W policy mSel ⟨ipprotoTcp, hash⟩ < W := by
  cases policy with
  | hermes =>
      have inside := fun i => @trySelect_lt W width mSel hash i
      rw [dispatched, serve_eq_trySelect _ (fun _ _ => rfl) _ inside]
      cases selected : Ebpf.trySelect W (some mSel) ⟨ipprotoTcp, hash⟩ with
      | some i => exact inside i selected
      | none => exact defaultPick_lt nonempty width _
  | reuseport | lifo => exact defaultPick_lt nonempty width _

def listenedIn (log : SetupLog) : List RawFd :=
  log.filterMap fun
    | .done (.listen fd _) => some fd
    | _ => none

-- The listeners at the port, in the order in which they joined it.
def listening (port : UInt16) (log : SetupLog) : List RawFd :=
  (listenedIn log).filter fun fd => .done (.bind fd port) ∈ log

/-- What becomes of the sockets and of the maps outside the process. -/
structure Network where
  -- The sockets of other processes, such as workers of an earlier run, that share the port.
  others : Nat
  mSocket : SetupLog → Nat → Option RawFd
  -- The listener of ours that a new connection is queued at when M_Sel holds the bitmap.
  route : SetupLog → UInt64 → Ebpf.SkReuseportContext → Option RawFd

def defaultListener (port : UInt16) (log : SetupLog) (ctx : Ebpf.SkReuseportContext) :
    Option RawFd :=
  (listening port log)[Ebpf.defaultPick (listening port log).length ctx]?

def selectedListener (W : Nat) (mSocket : Nat → Option RawFd) (port : UInt16) (log : SetupLog)
    (mSel : UInt64) (ctx : Ebpf.SkReuseportContext) : Option RawFd :=
  -- The helper refuses an entry that is empty or holds a socket outside the group.
  match Ebpf.hermesSelect W (some mSel) (fun i => (mSocket i).any (· ∈ listening port log)) ctx with
  | some workerId => mSocket workerId
  | none => defaultListener port log ctx

/-- Assumed of the kernel: a socket array keeps what was set, and a connection goes to the listener
that the attached program selects, else to the one that the hash picks. -/
structure Network.Documented (net : Network) (W : Nat) (port : UInt16) (log : SetupLog) : Prop where
  stored : ∀ i fd, .done (.set i fd) ∈ log → (∀ other, .done (.set i other) ∈ log → other = fd) →
    net.mSocket log i = some fd
  hashed : net.others = 0 → (∀ fd, .done (.attach fd) ∉ log) →
    ∀ mSel ctx, net.route log mSel ctx = defaultListener port log ctx
  selected : net.others = 0 → ∀ fd ∈ listening port log, .done (.attach fd) ∈ log →
    ∀ mSel ctx, net.route log mSel ctx = selectedListener W (net.mSocket log) port log mSel ctx

/-- Assumed of the kernel: a new descriptor is not in use. -/
def Kernel.Fresh (kernel : Kernel) (used : Finset RawFd) : Prop :=
  ∀ log fd, kernel.socket log = some fd → fd ∉ used ∧ (.opened fd ∈ log → .closed fd ∈ log)

theorem Opens.fresh {reuseport : Bool} (fresh : kernel.Fresh used) :
    ∀ {fds : List RawFd} {before : SetupLog}, Opens kernel port reuseport before fds →
      (∀ fd, .closed fd ∉ before) → fds.Nodup ∧ ∀ fd ∈ fds, fd ∉ used ∧ .opened fd ∉ before
  | [], _, _, _ => ⟨.nil, nofun⟩
  | fd :: rest, before, ⟨answered, opens⟩, unclosed => by
      have new := fresh before fd answered
      have later := Opens.fresh fresh opens fun other => by simp [unclosed, listenerLog]
      refine ⟨List.nodup_cons.2 ⟨fun again => ?_, later.1⟩, List.forall_mem_cons.2 ⟨?_, ?_⟩⟩
      · exact (later.2 fd again).2 (by simp [listenerLog])
      · exact ⟨new.1, fun among => unclosed fd (new.2 among)⟩
      · intro other among
        exact (later.2 other among).imp_right fun absent inside =>
          absent (List.mem_append_left _ inside)

theorem done_mem_setupLog {owned : List RawFd} {call : SetupCall} :
    .done call ∈ setupLog policy port owned ↔
      (∃ fd ∈ owned, call ∈ listenerCalls port (decide (policy ≠ .lifo)) fd) ∨
        policy = .hermes ∧ call ∈ ebpfCalls owned := by
  rw [setupLog, List.mem_append]
  refine or_congr ?_ ?_
  · simp [listenerLog]
  · by_cases hermes : policy = .hermes <;> simp [hermes]

theorem set_mem_setupLog {owned : List RawFd} {i : Nat} {fd : RawFd} :
    .done (.set i fd) ∈ setupLog policy port owned ↔ policy = .hermes ∧ owned[i]? = some fd := by
  rw [done_mem_setupLog, or_iff_right (by simp [listenerCalls])]
  refine and_congr_right fun _ => ?_
  simp [ebpfCalls, setCalls, List.mk_mem_zipIdx_iff_getElem?]

theorem attach_mem_setupLog {owned : List RawFd} {fd : RawFd} :
    .done (.attach fd) ∈ setupLog policy port owned ↔ policy = .hermes ∧ owned.head? = some fd := by
  rw [done_mem_setupLog, or_iff_right (by simp [listenerCalls])]
  refine and_congr_right fun _ => ?_
  simp [ebpfCalls, setCalls]

theorem listenedIn_listeners (port : UInt16) (reuseport : Bool) (fds : List RawFd) :
    listenedIn (fds.flatMap (listenerLog port reuseport)) = fds := by
  induction fds with
  | nil => rfl
  | cons fd rest ih =>
      have own : listenedIn (listenerLog port reuseport fd) = [fd] := by cases reuseport <;> rfl
      unfold listenedIn at *
      rw [List.flatMap_cons, List.filterMap_append, own, ih, List.singleton_append]

theorem listenedIn_done {calls : List SetupCall}
    (others : ∀ fd backlog, .listen fd backlog ∉ calls) : listenedIn (calls.map .done) = [] := by
  refine List.filterMap_eq_nil_iff.2 (List.forall_mem_map.2 fun call among => ?_)
  cases call with
  | listen fd backlog => exact absurd among (others fd backlog)
  | _ => rfl

theorem listening_setupLog (policy : Policy) (port : UInt16) (owned : List RawFd) :
    listening port (setupLog policy port owned) = owned := by
  have loading : listenedIn ((if policy = .hermes then ebpfCalls owned else []).map .done) = [] :=
    listenedIn_done fun fd backlog => by split <;> simp [ebpfCalls, setCalls]
  have listened : listenedIn (setupLog policy port owned) = owned := by
    have listeners := listenedIn_listeners port (decide (policy ≠ .lifo)) owned
    unfold listenedIn at *
    rw [setupLog, List.filterMap_append, listeners, loading, List.append_nil]
  rw [listening, listened, List.filter_eq_self]
  intro fd among
  exact decide_eq_true (done_mem_setupLog.2 (.inl ⟨fd, among, by simp [listenerCalls]⟩))

theorem Established.unclosed (est : Established kernel W policy port result log) (fd : RawFd) :
    .closed fd ∉ log := by
  intro among
  cases setupLog_succeeded _ (est.log ▸ among)

theorem Established.listening_eq (est : Established kernel W policy port result log) :
    listening port log = result.owned :=
  (congrArg _ est.log).trans (listening_setupLog ..)

theorem Established.length (est : Established kernel W policy port result log) :
    result.listenFds.length = W := by
  by_cases shared : policy = .lifo
  · obtain ⟨fd, _, all⟩ := est.shared shared
    rw [all, List.length_replicate]
  · obtain ⟨same, count⟩ := est.separate shared
    rw [same, count]

theorem Established.mem_listenFds (est : Established kernel W policy port result log)
    {fd : RawFd} (listed : fd ∈ result.listenFds) : fd ∈ result.owned := by
  by_cases shared : policy = .lifo
  · obtain ⟨own, only, all⟩ := est.shared shared
    rw [all] at listed
    rw [only, List.eq_of_mem_replicate listed]
    exact List.mem_singleton_self own
  · rwa [← (est.separate shared).1]

theorem Established.kept (est : Established kernel W policy port result log)
    (fresh : kernel.Fresh used) {i j : Nat} {fd : RawFd} (own : result.listenFds[i]? = some fd)
    (worker : j < W) :
    fd ∈ closeOthers j result.listenFds (used ∪ (openedIn log).toFinset) ↔
      i = j ∨ policy = .lifo := by
  have listed := List.mem_of_getElem? own
  have inside : fd ∈ used ∪ (openedIn log).toFinset := by
    rw [est.log, openedIn_setupLog]
    exact Finset.mem_union_right _ (List.mem_toFinset.2 (est.mem_listenFds listed))
  rw [mem_closeOthers]
  simp only [inside, listed, true_and, forall_const]
  constructor
  · intro other
    by_cases shared : policy = .lifo
    · exact .inr shared
    · have nodup := (est.opens.fresh fresh nofun).1
      rw [← (est.separate shared).1] at nodup
      have bound := (List.getElem?_eq_some_iff.1 own).1
      exact .inl ((List.getElem?_inj bound nodup).1 (own.trans other.symm))
  · rintro (rfl | rfl)
    · exact own
    · obtain ⟨only, _, all⟩ := est.shared rfl
      rw [all] at listed ⊢
      rw [List.eq_of_mem_replicate listed, List.getElem?_replicate, if_pos worker]

theorem Established.attached (est : Established kernel W policy port result log) {fd : RawFd} :
    .done (.attach fd) ∈ log ↔ policy = .hermes ∧ result.owned.head? = some fd := by
  rw [est.log, attach_mem_setupLog]

theorem Established.unattached (est : Established kernel W policy port result log)
    (baseline : policy ≠ .hermes) (fd : RawFd) : .done (.attach fd) ∉ log :=
  fun among => baseline (est.attached.1 among).1

theorem Established.set (est : Established kernel W policy port result log) {i : Nat}
    {fd : RawFd} : .done (.set i fd) ∈ log ↔ policy = .hermes ∧ result.owned[i]? = some fd := by
  rw [est.log, set_mem_setupLog]

theorem Established.stored (est : Established kernel W policy port result log)
    {net : Network} (documented : net.Documented W port log) (hermes : policy = .hermes) {i : Nat}
    {fd : RawFd} (own : result.owned[i]? = some fd) : net.mSocket log i = some fd := by
  refine documented.stored i fd (est.set.2 ⟨hermes, own⟩) fun other also => ?_
  exact Option.some.inj ((est.set.1 also).2.symm.trans own)

theorem Established.route (est : Established kernel W policy port result log)
    (nonempty : 0 < W) (width : W ≤ 64) {net : Network} (documented : net.Documented W port log)
    (alone : net.others = 0) (mSel : UInt64) (hash : UInt32) :
    net.route log mSel ⟨ipprotoTcp, hash⟩ =
      result.listenFds[dispatched W policy mSel ⟨ipprotoTcp, hash⟩]? := by
  have count := est.length
  cases policy with
  | lifo =>
      obtain ⟨fd, own, all⟩ := est.shared rfl
      have picked := defaultPick_lt nonempty width ⟨ipprotoTcp, hash⟩
      have only := defaultPick_lt Nat.zero_lt_one (by decide) ⟨ipprotoTcp, hash⟩
      rw [documented.hashed alone (est.unattached nofun), defaultListener, est.listening_eq, own,
        all, dispatched]
      simp [Nat.lt_one_iff.1 only, picked]
  | reuseport =>
      obtain ⟨same, owned⟩ := est.separate nofun
      rw [documented.hashed alone (est.unattached nofun), defaultListener, est.listening_eq, same,
        owned, dispatched]
  | hermes =>
      obtain ⟨same, owned⟩ := est.separate nofun
      have inside := fun i => @trySelect_lt W width mSel hash i
      obtain ⟨first, rest, cons⟩ := List.exists_cons_of_length_pos (owned ▸ nonempty)
      have member : first ∈ listening port log := by
        rw [est.listening_eq, cons]
        exact List.mem_cons_self
      rw [documented.selected alone first member (est.attached.2 ⟨rfl, by rw [cons]; rfl⟩),
        selectedListener, Ebpf.hermesSelect, dispatched,
        serve_eq_trySelect _ (fun _ _ => rfl) _ inside, same]
      cases selected : Ebpf.trySelect W (some mSel) ⟨ipprotoTcp, hash⟩ with
      | none => simp only [defaultListener, est.listening_eq, owned, Option.getD_none]
      | some i =>
          have own := List.getElem?_eq_getElem (owned.symm ▸ inside i selected)
          have kept := est.stored documented rfl own
          simp [kept, est.listening_eq]

theorem Kernel.setup_serves_workers (nonempty : 0 < W) (width : W ≤ 64)
    (hang : Fin W → Option HangSpec) (fresh : kernel.Fresh used) {net : Network}
    (documented : ∀ log, (∀ fd, .closed fd ∉ log) → net.Documented W port log)
    (alone : net.others = 0)
    (ran : outcome (setup kernel W policy port) [] = (.ok result, log)) :
    ∃ cfg : Config W, cfg.policy = policy ∧ cfg.hang = hang ∧
      (∀ i : Fin W, result.listenFds[i]? = some (cfg.listenFd i) ∧
        cfg.other i = closeOthers i result.listenFds (used ∪ (openedIn log).toFinset) ∧
        cfg.listenFd i ∈ listening port log ∧ cfg.listenFd i ∉ used) ∧
      (∀ i j, cfg.listenFd i ∈ cfg.other j ↔ i = j ∨ policy = .lifo) ∧
      ∀ mSel hash, ∃ i : Fin W, i.val = dispatched W policy mSel ⟨ipprotoTcp, hash⟩ ∧
        net.route log mSel ⟨ipprotoTcp, hash⟩ = some (cfg.listenFd i) := by
  rcases (setup_adds kernel nonempty policy port).outcome with
    ⟨_, _, same, est⟩ | ⟨_, _, failed, _⟩
  · obtain ⟨⟨⟩, rfl⟩ := Prod.mk.inj (ran.symm.trans same)
    have count := est.length
    have listed : ∀ i : Fin W, ∃ fd, result.listenFds[i.val]? = some fd := fun i =>
      ⟨_, List.getElem?_eq_getElem (count.symm ▸ i.isLt)⟩
    choose listenFd listed using listed
    have owned := fun i => est.mem_listenFds (List.mem_of_getElem? (listed i))
    have kept := fun i j : Fin W => est.kept fresh (listed i) j.isLt
    refine ⟨⟨policy, listenFd,
        fun i => closeOthers i result.listenFds (used ∪ (openedIn log).toFinset),
        fun i => (kept i i).2 (.inl rfl), hang⟩,
      rfl, rfl, fun i => ⟨listed i, rfl, ?_, ?_⟩, ?_, ?_⟩
    · exact est.listening_eq.symm ▸ owned i
    · exact ((est.opens.fresh fresh nofun).2 _ (owned i)).1
    · intro i j
      rw [Fin.ext_iff]
      exact kept i j
    · intro mSel hash
      have picked := dispatched_lt nonempty width policy mSel hash
      have routed := est.route nonempty width (documented log est.unclosed) alone mSel hash
      exact ⟨⟨_, picked⟩, rfl, routed.trans (listed ⟨_, picked⟩)⟩
  · cases failed.symm.trans ran

theorem Kernel.refusing_fresh (refused : SetupCall → Bool) :
    (Kernel.refusing refused).Fresh {0, 1, 2} := by
  have below : ∀ (fds : List Nat) (fd : Nat), fd ∈ 2 :: fds → fd ≤ fds.foldr max 2 := by
    intro fds
    induction fds with
    | nil => simp
    | cons other rest ih => simp_all
  have unused : ∀ n : Nat, 2 ≤ n → n + 1 ∉ ({0, 1, 2} : Finset Nat) := by
    intro n large
    simp only [Finset.mem_insert, Finset.mem_singleton]
    omega
  rintro log fd ⟨⟩
  constructor
  · exact unused _ (below (openedIn log) 2 List.mem_cons_self)
  · intro again
    exact absurd (below (openedIn log) _ (List.mem_cons_of_mem _ (mem_openedIn.2 again)))
      (Nat.not_succ_le_self _)

def lastSet (log : SetupLog) (i : Nat) : Option RawFd :=
  log.reverse.findSome? fun
    | .done (.set j fd) => if j = i then some fd else none
    | _ => none

def Network.alone (W : Nat) (port : UInt16) : Network where
  others := 0
  mSocket := lastSet
  route log mSel ctx :=
    if ∃ fd ∈ listening port log, .done (.attach fd) ∈ log then
      selectedListener W (lastSet log) port log mSel ctx
    else defaultListener port log ctx

theorem Network.alone_documented (W : Nat) (port : UInt16) (log : SetupLog) :
    (Network.alone W port).Documented W port log where
  stored i fd set only := by
    show lastSet log i = some fd
    cases found : lastSet log i with
    | none =>
        have absent := List.findSome?_eq_none_iff.1 found _ (List.mem_reverse.2 set)
        simp at absent
    | some other =>
        obtain ⟨event, among, held⟩ := List.exists_of_findSome?_eq_some found
        split at held
        · next j value =>
            obtain ⟨rfl, rfl⟩ : j = i ∧ value = other := by simpa using held
            rw [only _ (List.mem_reverse.1 among)]
        · cases held
  hashed _ unattached _ _ := if_neg fun ⟨fd, _, attached⟩ => unattached fd attached
  selected _ fd member attached _ _ := if_pos ⟨fd, member, attached⟩

theorem Kernel.setup_serves_workers_second :
    ∃ (result : Setup) (log : SetupLog) (cfg : Config 2),
      outcome (setup (.refusing fun _ => false) 2 .hermes 7878) [] = (.ok result, log) ∧
      (Network.alone 2 7878).route log 3 ⟨ipprotoTcp, 0xc0000000⟩ = some (cfg.listenFd 1) := by
  have ran : outcome (setup (.refusing fun _ => false) 2 .hermes 7878) [] =
    (.ok ⟨[3, 4], [3, 4]⟩, setupLog .hermes 7878 [3, 4]) := rfl
  obtain ⟨cfg, _, _, _, _, routed⟩ :=
    Kernel.setup_serves_workers Nat.zero_lt_two (by decide) (fun _ => none)
      (Kernel.refusing_fresh _) (fun log _ => Network.alone_documented 2 7878 log) rfl ran
  obtain ⟨i, picked, queued⟩ := routed 3 0xc0000000
  have second : i = 1 := Fin.ext (picked.trans (by decide))
  exact ⟨_, _, cfg, ran, second ▸ queued⟩

end Dispatch

end MicroHermes.Server
