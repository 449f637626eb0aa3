import MicroHermes.Lib.ViewMemory
import MicroHermes.Sim.System

set_option autoImplicit false

/-!
# The simulation under the memory orderings of the code

The same generator and workers, but every load of a queue or of the shutdown flag may be stale as
far as `Relaxed`, `Acquire` and `Release` allow. A step runs on the shared state as its process sees
it; the atomics of the status table and the bitmap are left open, since nothing here depends on
them.
-/

namespace MicroHermes.Sim

open Transition ViewMemory

inductive Thread (W : Nat) where
  | gen
  | worker (i : Fin W)
  deriving DecidableEq

inductive Loc (W : Nat) where
  | shutdown
  | tail (i : Fin W)
  | head (i : Fin W)
  | slot (i : Fin W) (cell : Fin queueCap)
  deriving DecidableEq

abbrev Val {W : Nat} : Loc W → Type
  | .shutdown | .tail _ | .head _ => UInt32
  | .slot _ _ => ConnDesc

abbrev Mem (W : Nat) := Memory (Thread W) (Loc W) Val

section Access

variable {W : Nat}

def zeroVal : (loc : Loc W) → Val loc
  | .shutdown | .tail _ | .head _ => (0 : UInt32)
  | .slot _ _ => (⟨0, 0, 0, 0, 0⟩ : ConnDesc)

/-- The shared state as thread `t` sees it when its loads go for the stores of `pick`. -/
def apparent (outside : SharedState W) (mem : Mem W) (t : Thread W) (pick : Loc W → Nat) :
    SharedState W :=
  { outside with
    shutdown := mem.seen t .shutdown (pick .shutdown)
    queues := fun i =>
      { tail := mem.seen t (.tail i) (pick (.tail i))
        head := mem.seen t (.head i) (pick (.head i))
        slots := fun cell => mem.seen t (.slot i cell) (pick (.slot i cell)) } }

def PopPc.reads (i : Fin W) : PopPc → Option (Loc W × Bool)
  -- The load that the next step of `pop` makes, and whether it is an acquire load.
  | .loadHead => some (.head i, false)
  | .loadTail _ => some (.tail i, true)
  | .readSlot head => some (.slot i (slotOf head), false)
  | _ => none

def Pc.reads (i : Fin W) : Pc W → Option (Loc W × Bool)
  -- `shutdown_requested`, `ConnQueue::len` and `pop` in the worker loop.
  | .pop _ _ call => call.reads i
  | .pollShutdown _ | .exitShutdown => some (.shutdown, false)
  | .tickTail .. | .exitTail => some (.tail i, false)
  | .tickHead .. | .exitHead _ => some (.head i, false)
  | _ => none

def PopPc.writes (i : Fin W) : PopPc → Mem W → Mem W
  | .storeHead head _, mem => mem.store (.worker i) (.head i) (head + 1 : UInt32) true
  | _, mem => mem

def Pc.writes (i : Fin W) : Pc W → Mem W → Mem W
  | .pop _ _ call, mem => call.writes i mem
  | _, mem => mem

def DispatchPc.reads : DispatchPc W → Option (Loc W × Bool)
  | .idleTail i _ | .lenTail i _ _ => some (.tail i, false)
  | .idleHead i _ _ | .lenHead i _ _ _ => some (.head i, false)
  | _ => none

def PushPc.reads (i : Fin W) : PushPc → Option (Loc W × Bool)
  | .loadTail _ => some (.tail i, false)
  | .loadHead _ _ => some (.head i, true)
  | _ => none

def GenPc.reads : GenPc W → Option (Loc W × Bool)
  | .dispatch scan => scan.reads
  | .push target call => call.reads target
  | _ => none

def PushPc.writes (i : Fin W) : PushPc → Mem W → Mem W
  | .writeSlot desc tail, mem => mem.store .gen (.slot i (slotOf tail)) desc false
  | .storeTail _ tail, mem => mem.store .gen (.tail i) (tail + 1 : UInt32) true
  | _, mem => mem

def GenPc.writes : GenPc W → Mem W → Mem W
  -- Beside `push`, the store of `request_shutdown`.
  | .push target call, mem => call.writes target mem
  | .shutdown, mem => mem.store .gen .shutdown (1 : UInt32) true
  | _, mem => mem

def read (mem : Mem W) (t : Thread W) (pick : Loc W → Nat) : Option (Loc W × Bool) → Mem W
  | some (loc, acquire) => mem.load t loc acquire (pick loc)
  | none => mem

end Access

structure WeakState (W : Nat) where
  mem : Mem W
  gen : Generator W
  workers : Fin W → Worker W

/-- `pick` says how stale the load of a step is, `outside` what its process sees of the rest. -/
inductive WeakAct (W : Nat) where
  | gen (label : Sys) (pick : Loc W → Nat) (outside : SharedState W)
  | worker (i : Fin W) (label : Sys) (pick : Loc W → Nat) (outside : SharedState W)
  | deliver (t : Thread W) (loc : Loc W)

section Step

variable (F : Type) [MetricArith F] {W : Nat} (policy : Policy) (cfg : WorkloadConfig) (seed : UInt64)

def weakInitial (genStart : Int) (starts : Fin W → Int) : WeakState W where
  mem := .initial zeroVal
  gen := .initial genStart
  workers i := .initial cfg i (starts i)

def weakStep (s : WeakState W) : WeakAct W → Option (WeakState W)
  | .gen label pick outside =>
      (genStep policy cfg seed (apparent outside s.mem .gen pick) s.gen label).map fun (_, gen) =>
        { s with mem := s.gen.pc.writes (read s.mem .gen pick s.gen.pc.reads), gen }
  | .worker i label pick outside =>
      let w := s.workers i
      (workerStep F policy cfg i (apparent outside s.mem (.worker i) pick) w label).map
        fun (_, next) =>
          { s with
            mem := w.pc.writes i (read s.mem (.worker i) pick (w.pc.reads i))
            workers := Function.update s.workers i next }
  | .deliver t loc => some { s with mem := s.mem.deliver t loc }

end Step

end MicroHermes.Sim
