import MicroHermes.Kernel
import MicroHermes.Lib.Scale

set_option autoImplicit false

namespace MicroHermes

open Select Bitmap

variable {W : Nat}

def hashShare (W : Nat) (bitmap : UInt64) (i : Nat) : Nat :=
  -- How many of the 2^32 hashes select worker `i`.
  ((Finset.range (2 ^ 32)).filter fun hash =>
    Ebpf.trySelect W (some bitmap) ⟨ipprotoTcp, UInt32.ofNat hash⟩ = some i).card

theorem trySelect_eq_some (width : W ≤ 64) {bitmap : UInt64}
    (several : 2 ≤ (countOnes bitmap).toNat) (hash : UInt32) (i : Nat) :
    Ebpf.trySelect W (some bitmap) ⟨ipprotoTcp, hash⟩ = some i ↔
      i < W ∧ bit bitmap i = true ∧
        hash.toNat * (countOnes bitmap).toNat / 2 ^ 32 = rank (bit bitmap) i := by
  rw [trySelect_several bitmap hash several, findNthSetBit_eq_select width, reciprocalScale_toNat,
    select_eq_some]
  exact and_congr_right fun _ => and_congr_right fun _ => eq_comm

theorem rank_lt_countOnes (width : W ≤ 64) {bitmap : UInt64} {i : Nat} (inside : i < W)
    (set : bit bitmap i = true) : rank (bit bitmap) i < (countOnes bitmap).toNat := by
  have grown := rank_mono (bit bitmap) (show i + 1 ≤ 64 by omega)
  rw [rank_succ, if_pos set] at grown
  rw [countOnes_toNat]
  omega

theorem hashShare_of_clear (width : W ≤ 64) {bitmap : UInt64}
    (several : 2 ≤ (countOnes bitmap).toNat) {i : Nat} (absent : ¬ (i < W ∧ bit bitmap i = true)) :
    hashShare W bitmap i = 0 := by
  rw [hashShare, Finset.card_eq_zero, Finset.filter_eq_empty_iff]
  intro hash _ selected
  obtain ⟨inside, set, _⟩ := (trySelect_eq_some width several _ i).1 selected
  exact absent ⟨inside, set⟩

theorem hashShare_of_set (width : W ≤ 64) {bitmap : UInt64}
    (several : 2 ≤ (countOnes bitmap).toNat) {i : Nat} (inside : i < W)
    (set : bit bitmap i = true) :
    hashShare W bitmap i = 2 ^ 32 / (countOnes bitmap).toNat ∨
      hashShare W bitmap i = (2 ^ 32) ⌈/⌉ (countOnes bitmap).toNat := by
  have same : hashShare W bitmap i = ((Finset.range (2 ^ 32)).filter fun hash =>
      hash * (countOnes bitmap).toNat / 2 ^ 32 = rank (bit bitmap) i).card := by
    refine congrArg Finset.card (Finset.filter_congr fun hash below => ?_)
    have value : (UInt32.ofNat hash).toNat = hash := by
      rw [UInt32.toNat_ofNat', Nat.mod_eq_of_lt (Finset.mem_range.1 below)]
    rw [trySelect_eq_some width several, value]
    exact ⟨fun ⟨_, _, scaled⟩ => scaled, fun scaled => ⟨inside, set, scaled⟩⟩
  rw [same]
  exact Scale.card_preimage (by omega) (rank_lt_countOnes width inside set)

theorem trySelect_mono (width : W ≤ 64) {bitmap : UInt64}
    (several : 2 ≤ (countOnes bitmap).toNat) {hash hash' : UInt32} (order : hash ≤ hash')
    {i j : Nat} (first : Ebpf.trySelect W (some bitmap) ⟨ipprotoTcp, hash⟩ = some i)
    (second : Ebpf.trySelect W (some bitmap) ⟨ipprotoTcp, hash'⟩ = some j) : i ≤ j := by
  obtain ⟨_, set, before⟩ := (trySelect_eq_some width several hash i).1 first
  obtain ⟨_, _, after⟩ := (trySelect_eq_some width several hash' j).1 second
  by_contra below
  -- A candidate after `j` has a higher rank than `j`.
  have scaled := Scale.scale_mono (2 ^ 32) (countOnes bitmap).toNat
    (UInt32.le_iff_toNat_le.1 order)
  have grown := rank_mono (bit bitmap) (show j + 1 ≤ i by omega)
  have setLast := (trySelect_eq_some width several hash' j).1 second |>.2.1
  rw [rank_succ, if_pos setLast] at grown
  omega

theorem findNthSetBit_rank (width : W ≤ 64) {bitmap : UInt64}
    (clear : ∀ i, W ≤ i → i < 64 → bit bitmap i = false) {nth : UInt32}
    (inside : nth.toNat < (countOnes bitmap).toNat) :
    ∃ i, Ebpf.findNthSetBit W bitmap nth = some i ∧ Sim.findNthSetBit W bitmap nth = i ∧
      bit bitmap i = true ∧ rank (bit bitmap) i = nth.toNat := by
  rw [countOnes_eq_rank width clear] at inside
  obtain ⟨i, found⟩ := select_of_lt_rank (bit bitmap) inside
  obtain ⟨_, set, position⟩ := (select_eq_some (bit bitmap)).1 found
  rw [← findNthSetBit_eq_select width] at found
  have simulated := found
  rw [Ebpf.findNthSetBit] at simulated
  exact ⟨i, found, by rw [Sim.findNthSetBit, simulated], set, position⟩

theorem hashes_shared_evenly (width : W ≤ 64) (bitmap : UInt64)
    (clear : ∀ i, W ≤ i → i < 64 → bit bitmap i = false) :
    (2 ≤ (countOnes bitmap).toNat →
      (∀ i, bit bitmap i = true → i < W →
        hashShare W bitmap i = 2 ^ 32 / (countOnes bitmap).toNat ∨
        hashShare W bitmap i = (2 ^ 32) ⌈/⌉ (countOnes bitmap).toNat) ∧
      (∀ i, ¬ (i < W ∧ bit bitmap i = true) → hashShare W bitmap i = 0) ∧
      (∀ hash hash' : UInt32, hash ≤ hash' →
        ∃ i j, Ebpf.trySelect W (some bitmap) ⟨ipprotoTcp, hash⟩ = some i ∧
          Ebpf.trySelect W (some bitmap) ⟨ipprotoTcp, hash'⟩ = some j ∧ i ≤ j) ∧
      ∀ connHash : UInt64,
        Ebpf.trySelect W (some bitmap) ⟨ipprotoTcp, connHash.toUInt32⟩ =
          some (Sim.dispatchHermes W bitmap connHash)) ∧
    (∀ hash n : UInt32, 1 ≤ n.toNat →
      (Ebpf.reciprocalScale hash n).toNat = hash.toNat * n.toNat / 2 ^ 32 ∧
      (Ebpf.reciprocalScale hash n).toNat < n.toNat) ∧
    (∀ (connHash : UInt64) (n : UInt32), 1 ≤ n.toNat →
      (Sim.reciprocalScale connHash n).toNat = connHash.toUInt32.toNat * n.toNat / 2 ^ 32 ∧
      (Sim.reciprocalScale connHash n).toNat < n.toNat) ∧
    (∀ nth : UInt32, nth.toNat < (countOnes bitmap).toNat →
      ∃ i, Ebpf.findNthSetBit W bitmap nth = some i ∧ Sim.findNthSetBit W bitmap nth = i ∧
        bit bitmap i = true ∧ rank (bit bitmap) i = nth.toNat) := by
  refine ⟨fun several => ?_, fun hash n positive => ?_, fun connHash n positive => ?_,
    fun nth inside => ?_⟩
  · have selects (hash : UInt32) :
        ∃ i, Ebpf.trySelect W (some bitmap) ⟨ipprotoTcp, hash⟩ = some i := by
      obtain ⟨i, found, _⟩ := findNthSetBit_some width clear hash several
      exact ⟨i, (trySelect_several bitmap hash several).trans found⟩
    refine ⟨fun i set inside => hashShare_of_set width several inside set,
      fun i absent => hashShare_of_clear width several absent, fun hash hash' order => ?_,
      fun connHash => ?_⟩
    · obtain ⟨i, first⟩ := selects hash
      obtain ⟨j, second⟩ := selects hash'
      exact ⟨i, j, first, second, trySelect_mono width several order first second⟩
    · obtain ⟨i, selected⟩ := selects connHash.toUInt32
      rw [dispatchHermes_eq_trySelect width clear, selected]
      rfl
  · exact ⟨reciprocalScale_toNat hash n, reciprocalScale_lt hash (by omega)⟩
  · rw [Sim.reciprocalScale_eq]
    exact ⟨reciprocalScale_toNat _ n, reciprocalScale_lt _ (by omega)⟩
  · exact findNthSetBit_rank width clear inside

theorem hashes_shared_evenly_three :
    hashShare numWorkers 13 2 = 1431655765 ∨ hashShare numWorkers 13 2 = 1431655766 := by
  have count : (countOnes 13).toNat = 3 := by decide
  obtain ⟨shares, _⟩ := (hashes_shared_evenly (W := numWorkers) (by decide) 13 (by decide)).1
    (by decide)
  have share := shares 2 (by decide) (by decide)
  rw [count] at share
  exact share

end MicroHermes
