import Mathlib.Data.UInt
import Mathlib.Order.Nat
import Mathlib.Tactic.Common

set_option autoImplicit false

namespace Counter

def wrap (count : Nat) : UInt32 := UInt32.ofNat count

theorem wrap_toNat (count : Nat) : (wrap count).toNat = count % 2 ^ 32 := by
  simp [wrap, UInt32.toNat_ofNat']

theorem wrap_succ (count : Nat) : wrap (count + 1) = wrap count + 1 := by
  apply UInt32.toNat_inj.1
  rw [UInt32.toNat_add, wrap_toNat, wrap_toNat, UInt32.toNat_one]
  omega

theorem wrap_surjective (value : UInt32) : wrap value.toNat = value := by
  simp [wrap]

theorem wrap_sub_toNat {low high : Nat} (order : low ≤ high) (close : high - low < 2 ^ 32) :
    (wrap high - wrap low).toNat = high - low := by
  rw [UInt32.toNat_sub, wrap_toNat, wrap_toNat]
  omega

theorem wrap_inj {low high : Nat} (order : low ≤ high) (close : high - low < 2 ^ 32) :
    wrap low = wrap high ↔ low = high := by
  constructor
  · intro same
    have distance := wrap_sub_toNat order close
    rw [same] at distance
    simp only [UInt32.sub_self, UInt32.toNat_zero] at distance
    omega
  · rintro rfl
    rfl

theorem wrap_mod {size : Nat} (divides : size ∣ 2 ^ 32) (count : Nat) :
    (wrap count).toNat % size = count % size := by
  rw [wrap_toNat, Nat.mod_mod_of_dvd _ divides]

theorem cell_ne {size low high : Nat} (before : low < high) (lap : high < low + size) :
    low % size ≠ high % size := by
  intro same
  have divides : size ∣ high - low := (Nat.modEq_iff_dvd' before.le).1 same
  have bound := Nat.le_of_dvd (by omega) divides
  omega

end Counter
