import Mathlib.Data.Nat.Bitwise
import MicroHermes.Lib.Select

set_option autoImplicit false

namespace Bitmap

open Select

-- `1u64 << i`
def mask (i : Nat) : UInt64 := 1 <<< UInt64.ofNat i

-- `word & (1u64 << i) != 0`
def bit (word : UInt64) (i : Nat) : Bool := word &&& mask i != 0

-- `u64::count_ones`
def countOnes (word : UInt64) : UInt32 := UInt32.ofNat (rank (bit word) 64)

def ofPositions (positions : List Nat) : UInt64 :=
  -- The word whose set bits are the listed positions.
  positions.foldl (fun word i => word ||| mask i) 0

theorem mask_toNat {i : Nat} (small : i < 64) : (mask i).toNat = 2 ^ i := by
  have power : 2 ^ i < 2 ^ 64 := Nat.pow_lt_pow_right (by decide) small
  simp only [mask, UInt64.toNat_shiftLeft, UInt64.toNat_ofNat', Nat.shiftLeft_eq]
  rw [Nat.mod_eq_of_lt (show i < 2 ^ 64 by omega), Nat.mod_eq_of_lt small]
  simpa using Nat.mod_eq_of_lt power

theorem bit_eq_testBit {i : Nat} (small : i < 64) (word : UInt64) :
    bit word i = word.toNat.testBit i := by
  have value : (word &&& mask i).toNat = (word.toNat.testBit i).toNat * 2 ^ i := by
    rw [UInt64.toNat_and, mask_toNat small, Nat.and_two_pow]
  have positive := Nat.two_pow_pos i
  cases set : word.toNat.testBit i with
  | false =>
      have clear : word &&& mask i = 0 := by
        apply UInt64.toNat_inj.1
        simp [value, set]
      simp [bit, clear]
  | true =>
      have nonzero : word &&& mask i ≠ 0 := by
        intro clear
        rw [clear, set] at value
        simp only [UInt64.toNat_zero, Bool.toNat_true, Nat.one_mul] at value
        omega
      simp [bit, nonzero]

@[simp] theorem bit_zero (i : Nat) : bit 0 i = false := by
  simp [bit]

theorem bit_or {i : Nat} (small : i < 64) (first second : UInt64) :
    bit (first ||| second) i = (bit first i || bit second i) := by
  simp [bit_eq_testBit small, Nat.testBit_or]

theorem bit_mask {i j : Nat} (smallI : i < 64) (smallJ : j < 64) :
    bit (mask j) i = decide (i = j) := by
  rw [bit_eq_testBit smallI, mask_toNat smallJ, Nat.testBit_two_pow]
  simp [eq_comm]

theorem eq_of_bits {first second : UInt64} (same : ∀ i, i < 64 → bit first i = bit second i) :
    first = second := by
  apply UInt64.toNat_inj.1
  apply Nat.eq_of_testBit_eq
  intro i
  rcases Nat.lt_or_ge i 64 with small | large
  · rw [← bit_eq_testBit small, ← bit_eq_testBit small, same i small]
  · have bound (word : UInt64) : word.toNat < 2 ^ i :=
      word.toNat_lt.trans_le (Nat.pow_le_pow_right (by decide) large)
    rw [Nat.testBit_lt_two_pow (bound first), Nat.testBit_lt_two_pow (bound second)]

theorem bit_ofPositions {i : Nat} (small : i < 64) {positions : List Nat}
    (bounded : ∀ j ∈ positions, j < 64) :
    bit (ofPositions positions) i = true ↔ i ∈ positions := by
  have fold (start : UInt64) :
      bit (positions.foldl (fun word j => word ||| mask j) start) i = true ↔
        bit start i = true ∨ i ∈ positions := by
    induction positions generalizing start with
    | nil => simp
    | cons j rest ih =>
        rw [List.foldl_cons, ih fun k member => bounded k (by simp [member]), bit_or small,
          bit_mask small (bounded j (by simp))]
        simp [or_assoc]
  simpa [ofPositions] using fold 0

theorem countOnes_toNat (word : UInt64) : (countOnes word).toNat = rank (bit word) 64 := by
  have bound := rank_le (bit word) 64
  rw [countOnes, UInt32.toNat_ofNat']
  omega

theorem countOnes_eq_rank {word : UInt64} {width : Nat} (narrow : width ≤ 64)
    (clear : ∀ i, width ≤ i → i < 64 → bit word i = false) :
    (countOnes word).toNat = rank (bit word) width := by
  rw [countOnes_toNat, rank_eq_of_clear _ narrow clear]

theorem countOnes_ofPositions {positions : List Nat} (distinct : positions.Nodup)
    (bounded : ∀ j ∈ positions, j < 64) :
    (countOnes (ofPositions positions)).toNat = positions.length := by
  have members : ((List.range 64).filter (bit (ofPositions positions))).Perm positions := by
    rw [List.perm_ext_iff_of_nodup (List.nodup_range.filter _) distinct]
    intro i
    rw [List.mem_filter, List.mem_range]
    constructor
    · rintro ⟨small, set⟩
      exact (bit_ofPositions small bounded).1 set
    · intro inside
      exact ⟨bounded i inside, (bit_ofPositions (bounded i inside) bounded).2 inside⟩
  rw [countOnes_toNat, rank, List.countP_eq_length_filter]
  exact members.length_eq

end Bitmap
