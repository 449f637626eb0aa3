import MicroHermes.Dispatch

set_option autoImplicit false

/-!
# The kernel's side of Algorithm 2

The program selects a socket or leaves the pick to the kernel. Together they serve the worker that
the simulated dispatcher names.
-/

namespace MicroHermes

open Select Bitmap

namespace Ebpf

def hermesSelect (W : Nat) (mSel : Option UInt64) (mSocket : Nat → Bool)
    (ctx : SkReuseportContext) : Option Nat :=
  -- The socket that is selected when the program returns `SK_PASS`, as it does in every case.
  -- `mSocket` tells which entries of the map hold a socket.
  match trySelect W mSel ctx with
  | some workerId => if mSocket workerId then some workerId else none
  | none => none

def defaultPick (W : Nat) (ctx : SkReuseportContext) : Nat :=
  -- The kernel's own pick from a group of `W` sockets in worker order.
  (reciprocalScale ctx.hash (UInt32.ofNat W)).toNat

def serve (W : Nat) (mSel : Option UInt64) (mSocket : Nat → Bool) (ctx : SkReuseportContext) : Nat :=
  (hermesSelect W mSel mSocket ctx).getD (defaultPick W ctx)

end Ebpf

section Refinement

variable {W : Nat}

theorem reuseportHash_eq (ipProtocol : UInt32) (connHash : UInt64) :
    Sim.reuseportHash W connHash = Ebpf.defaultPick W ⟨ipProtocol, connHash.toUInt32⟩ := rfl

theorem serve_eq_trySelect (mSel : Option UInt64) {mSocket : Nat → Bool}
    (registered : ∀ i, i < W → mSocket i = true) (ctx : Ebpf.SkReuseportContext)
    (inRange : ∀ i, Ebpf.trySelect W mSel ctx = some i → i < W) :
    Ebpf.serve W mSel mSocket ctx = (Ebpf.trySelect W mSel ctx).getD (Ebpf.defaultPick W ctx) := by
  unfold Ebpf.serve Ebpf.hermesSelect
  cases selected : Ebpf.trySelect W mSel ctx with
  | none => rfl
  | some i => simp [registered i (inRange i selected)]

theorem trySelect_lt (width : W ≤ 64) (bitmap : UInt64) (hash : UInt32) {i : Nat}
    (selected : Ebpf.trySelect W (some bitmap) ⟨ipprotoTcp, hash⟩ = some i) : i < W := by
  rcases Nat.lt_or_ge (countOnes bitmap).toNat 2 with few | several
  · rw [trySelect_fallback W bitmap hash few] at selected
    cases selected
  · rw [trySelect_several bitmap hash several, findNthSetBit_eq_select width] at selected
    exact ((select_eq_some (bit bitmap)).1 selected).1

theorem dispatchHermes_eq_trySelect (width : W ≤ 64) {bitmap : UInt64}
    (clear : ∀ i, W ≤ i → i < 64 → bit bitmap i = false) (connHash : UInt64) :
    Sim.dispatchHermes W bitmap connHash =
      (Ebpf.trySelect W (some bitmap) ⟨ipprotoTcp, connHash.toUInt32⟩).getD
        (Ebpf.defaultPick W ⟨ipprotoTcp, connHash.toUInt32⟩) := by
  rcases Nat.lt_or_ge (countOnes bitmap).toNat 2 with few | several
  · rw [dispatchHermes_fallback W bitmap connHash few, trySelect_fallback W bitmap _ few]
    rfl
  · obtain ⟨i, found, _, _⟩ := findNthSetBit_some width clear connHash.toUInt32 several
    rw [dispatchHermes_several bitmap connHash several found, trySelect_several bitmap _ several,
      found]
    rfl

theorem kernel_serves_dispatched (width : W ≤ 64) (connHash : UInt64) (bitmap : UInt64) :
    ((∀ i, W ≤ i → i < 64 → bit bitmap i = false) →
      Sim.dispatchHermes W bitmap connHash =
        (Ebpf.trySelect W (some bitmap) ⟨ipprotoTcp, connHash.toUInt32⟩).getD
          (Ebpf.defaultPick W ⟨ipprotoTcp, connHash.toUInt32⟩) ∧
      ∀ mSocket : Nat → Bool, (∀ i, i < W → mSocket i = true) →
        Sim.dispatchHermes W bitmap connHash =
          Ebpf.serve W (some bitmap) mSocket ⟨ipprotoTcp, connHash.toUInt32⟩) ∧
    ((countOnes bitmap).toNat ≤ 1 →
      Ebpf.trySelect W (some bitmap) ⟨ipprotoTcp, connHash.toUInt32⟩ = none ∧
      Sim.dispatchHermes W bitmap connHash = Sim.reuseportHash W connHash ∧
      Sim.reuseportHash W connHash = Ebpf.defaultPick W ⟨ipprotoTcp, connHash.toUInt32⟩) := by
  refine ⟨fun clear => ?_, fun few => ?_⟩
  · have same := dispatchHermes_eq_trySelect width clear connHash
    refine ⟨same, fun mSocket registered => ?_⟩
    rw [serve_eq_trySelect _ registered _ fun i selected => trySelect_lt width bitmap _ selected]
    exact same
  · exact ⟨trySelect_fallback W bitmap _ (by omega), dispatchHermes_fallback W bitmap connHash (by omega),
      reuseportHash_eq ..⟩

theorem kernel_serves_dispatched_three :
    -- Three candidates of four workers and a hash with a high half.
    Sim.dispatchHermes numWorkers 13 0x12345678c0000000 =
      Ebpf.serve numWorkers (some 13) (fun _ => true) ⟨ipprotoTcp, 0xc0000000⟩ :=
  ((kernel_serves_dispatched (W := numWorkers) (by decide) 0x12345678c0000000 13).1
    (by decide)).2 _ fun _ _ => rfl

end Refinement

end MicroHermes
