import MicroHermes.Lib.Bitmap
import MicroHermes.Common

set_option autoImplicit false

/-!
# Algorithm 2: picking a worker from the candidate bitmap

The kernel program (`hermes-ebpf`) and the simulated dispatcher share the bit search; they differ
in the width of the hash and in what they do when it fails.
-/

namespace MicroHermes

open Select Bitmap

def ipprotoTcp : UInt32 := 6

def searchSetBit (bitmap : UInt64) (nth : UInt32) : List Nat → UInt32 → Option Nat
  -- The loop of `find_nth_set_bit` over the remaining positions.
  | [], _ => none
  | i :: rest, seen =>
      if bit bitmap i then
        if seen = nth then some i else searchSetBit bitmap nth rest (seen + 1)
      else searchSetBit bitmap nth rest seen

namespace Ebpf

def reciprocalScale (hash n : UInt32) : UInt32 :=
  ((hash.toUInt64 * n.toUInt64) >>> 32).toUInt32

def findNthSetBit (W : Nat) (bitmap : UInt64) (nth : UInt32) : Option Nat :=
  searchSetBit bitmap nth (List.range W) 0

structure SkReuseportContext where
  ipProtocol : UInt32
  hash : UInt32

def trySelect (W : Nat) (mSel : Option UInt64) (ctx : SkReuseportContext) : Option Nat :=
  -- `mSel` is the lookup of element 0 of the map; `none` lets the kernel's default hash pick.
  if ctx.ipProtocol ≠ ipprotoTcp then none
  else
    mSel.bind fun bitmap =>
      let n := countOnes bitmap
      if n ≤ 1 then none
      else
        let nth := reciprocalScale ctx.hash n
        findNthSetBit W bitmap nth

end Ebpf

namespace Sim

def reciprocalScale (hash : UInt64) (n : UInt32) : UInt32 :=
  ((hash.toUInt32.toUInt64 * n.toUInt64) >>> 32).toUInt32

def findNthSetBit (W : Nat) (bitmap : UInt64) (nth : UInt32) : Nat :=
  -- The last line is the source's safety return after the loop.
  match searchSetBit bitmap nth (List.range W) 0 with
  | some i => i
  | none => W - 1

def reuseportHash (W : Nat) (connHash : UInt64) : Nat :=
  (reciprocalScale connHash (UInt32.ofNat W)).toNat

def dispatchHermes (W : Nat) (bitmap connHash : UInt64) : Nat :=
  let n := countOnes bitmap
  if n ≤ 1 then reuseportHash W connHash
  else
    let nth := reciprocalScale connHash n
    findNthSetBit W bitmap nth

theorem reciprocalScale_eq (hash : UInt64) (n : UInt32) :
    reciprocalScale hash n = Ebpf.reciprocalScale hash.toUInt32 n := rfl

end Sim

theorem reciprocalScale_toNat (hash n : UInt32) :
    (Ebpf.reciprocalScale hash n).toNat = hash.toNat * n.toNat / 2 ^ 32 := by
  -- No overflow and no truncation: the scaled hash is the exact quotient.
  have hashBound := hash.toNat_lt
  have countBound := n.toNat_lt
  have product : hash.toNat * n.toNat < 2 ^ 32 * 2 ^ 32 := Nat.mul_lt_mul'' hashBound countBound
  have quotient : hash.toNat * n.toNat / 2 ^ 32 < 2 ^ 32 := Nat.div_lt_of_lt_mul product
  rw [← Nat.pow_add] at product
  simp only [Ebpf.reciprocalScale, UInt64.toNat_toUInt32, UInt64.toNat_shiftRight,
    UInt64.toNat_mul, UInt32.toNat_toUInt64, Nat.shiftRight_eq_div_pow]
  rw [Nat.mod_eq_of_lt product]
  exact Nat.mod_eq_of_lt quotient

theorem reciprocalScale_lt (hash : UInt32) {n : UInt32} (positive : 0 < n.toNat) :
    (Ebpf.reciprocalScale hash n).toNat < n.toNat := by
  have hashBound := hash.toNat_lt
  rw [reciprocalScale_toNat]
  apply Nat.div_lt_of_lt_mul
  exact Nat.mul_lt_mul_of_pos_right hashBound positive

theorem searchSetBit_eq (bitmap : UInt64) (nth : UInt32) (positions : List Nat) (seen : UInt32)
    (room : seen.toNat + positions.length < 2 ^ 32) :
    searchSetBit bitmap nth positions seen =
      if seen.toNat ≤ nth.toNat then
        (positions.filter (bit bitmap))[nth.toNat - seen.toNat]?
      else none := by
  -- The loop returns the position whose rank among the remaining set bits is the number still to be
  -- passed.
  induction positions generalizing seen with
  | nil => simp [searchSetBit]
  | cons i rest ih =>
      simp only [List.length_cons] at room
      by_cases set : bit bitmap i = true
      · have next : (seen + 1).toNat = seen.toNat + 1 := by
          rw [UInt32.toNat_add, UInt32.toNat_one]
          omega
        by_cases found : seen = nth
        · simp [searchSetBit, set, found]
        · have different : seen.toNat ≠ nth.toNat := fun same => found (UInt32.toNat_inj.1 same)
          simp only [searchSetBit, set, found, if_true, if_false, ih (seen + 1) (by omega), next,
            List.filter_cons_of_pos]
          by_cases before : seen.toNat < nth.toNat
          · have shift : nth.toNat - seen.toNat = (nth.toNat - (seen.toNat + 1)) + 1 := by omega
            rw [if_pos (by omega), if_pos (by omega), shift, List.getElem?_cons_succ]
          · rw [if_neg (by omega), if_neg (by omega)]
      · simp [searchSetBit, set, ih seen (by omega)]

theorem findNthSetBit_eq_select {W : Nat} (width : W ≤ 64) (bitmap : UInt64) (nth : UInt32) :
    Ebpf.findNthSetBit W bitmap nth = select (bit bitmap) W nth.toNat := by
  rw [Ebpf.findNthSetBit, searchSetBit_eq _ _ _ _ (by simp; omega)]
  simp [select]

theorem findNthSetBit_some {W : Nat} (width : W ≤ 64) {bitmap : UInt64}
    (clear : ∀ i, W ≤ i → i < 64 → bit bitmap i = false) (hash : UInt32)
    (several : 2 ≤ (countOnes bitmap).toNat) :
    ∃ i, Ebpf.findNthSetBit W bitmap (Ebpf.reciprocalScale hash (countOnes bitmap)) = some i ∧
      i < W ∧ bit bitmap i = true := by
  have inside := reciprocalScale_lt hash (n := countOnes bitmap) (by omega)
  rw [countOnes_eq_rank width clear] at inside
  obtain ⟨i, found⟩ := select_of_lt_rank (bit bitmap) inside
  obtain ⟨below, set, _⟩ := (select_eq_some (bit bitmap)).1 found
  exact ⟨i, by rw [findNthSetBit_eq_select width, found], below, set⟩

theorem countOnes_le_one_iff (bitmap : UInt64) :
    countOnes bitmap ≤ 1 ↔ (countOnes bitmap).toNat < 2 := by
  rw [UInt32.le_iff_toNat_le, UInt32.toNat_one]
  omega

theorem trySelect_fallback (W : Nat) (bitmap : UInt64) (hash : UInt32)
    (few : (countOnes bitmap).toNat < 2) :
    Ebpf.trySelect W (some bitmap) ⟨ipprotoTcp, hash⟩ = none := by
  simp [Ebpf.trySelect, (countOnes_le_one_iff bitmap).2 few]

theorem trySelect_several {W : Nat} (bitmap : UInt64) (hash : UInt32)
    (several : 2 ≤ (countOnes bitmap).toNat) :
    Ebpf.trySelect W (some bitmap) ⟨ipprotoTcp, hash⟩ =
      Ebpf.findNthSetBit W bitmap (Ebpf.reciprocalScale hash (countOnes bitmap)) := by
  have many : ¬ countOnes bitmap ≤ 1 := by
    rw [countOnes_le_one_iff]
    omega
  simp [Ebpf.trySelect, many]

theorem dispatchHermes_fallback (W : Nat) (bitmap connHash : UInt64)
    (few : (countOnes bitmap).toNat < 2) :
    Sim.dispatchHermes W bitmap connHash = Sim.reuseportHash W connHash := by
  simp [Sim.dispatchHermes, (countOnes_le_one_iff bitmap).2 few]

theorem dispatchHermes_several {W : Nat} (bitmap connHash : UInt64)
    (several : 2 ≤ (countOnes bitmap).toNat) {i : Nat}
    (found : Ebpf.findNthSetBit W bitmap
      (Ebpf.reciprocalScale connHash.toUInt32 (countOnes bitmap)) = some i) :
    Sim.dispatchHermes W bitmap connHash = i := by
  have many : ¬ countOnes bitmap ≤ 1 := by
    rw [countOnes_le_one_iff]
    omega
  unfold Ebpf.findNthSetBit at found
  simp [Sim.dispatchHermes, many, Sim.findNthSetBit, Sim.reciprocalScale_eq, found]

theorem reuseportHash_lt {W : Nat} (positive : 0 < W) (width : W < 2 ^ 32) (connHash : UInt64) :
    Sim.reuseportHash W connHash < W := by
  have count : (UInt32.ofNat W).toNat = W := by
    rw [UInt32.toNat_ofNat', Nat.mod_eq_of_lt width]
  have below := reciprocalScale_lt connHash.toUInt32 (n := UInt32.ofNat W) (by omega)
  rwa [count] at below

theorem dispatchHermes_lt {W : Nat} (positive : 0 < W) (width : W < 2 ^ 32)
    (bitmap connHash : UInt64) : Sim.dispatchHermes W bitmap connHash < W := by
  unfold Sim.dispatchHermes
  simp only
  split
  · exact reuseportHash_lt positive width connHash
  · unfold Sim.findNthSetBit
    split
    · next found =>
        rw [searchSetBit_eq _ _ _ _ (by simpa using width)] at found
        split at found
        · have member := List.mem_of_getElem? found
          exact List.mem_range.1 (List.mem_of_mem_filter member)
        · cases found
    · omega

end MicroHermes
