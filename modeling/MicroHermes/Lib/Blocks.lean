import Mathlib.Tactic.Common
import Mathlib.Order.Nat

set_option autoImplicit false

namespace Blocks

variable {A : Type}

def cut (size : Nat) : Nat → List A → List (List A)
  | 0, _ => []
  | fuel + 1, stream =>
      if stream.length < size then []
      else stream.take size :: cut size fuel (stream.drop size)

def blocks (size : Nat) (stream : List A) : List (List A) :=
  cut size (stream.length / size) stream

theorem blocks_of_short {size : Nat} {stream : List A} (short : stream.length < size) :
    blocks size stream = [] := by
  simp [blocks, Nat.div_eq_of_lt short, cut]

theorem blocks_cons {size : Nat} {block rest : List A} (positive : 0 < size)
    (full : block.length = size) : blocks size (block ++ rest) = block :: blocks size rest := by
  have count : (block ++ rest).length / size = rest.length / size + 1 := by
    rw [List.length_append, full, Nat.add_comm, Nat.add_div_right _ positive]
  have long : ¬ (block ++ rest).length < size := by simp [full]
  simp only [blocks, count, cut, if_neg long]
  simp [full]

theorem blocks_flatten_append {size : Nat} {done : List (List A)} {rest : List A}
    (positive : 0 < size) (full : ∀ block ∈ done, block.length = size) :
    blocks size (done.flatten ++ rest) = done ++ blocks size rest := by
  induction done with
  | nil => rfl
  | cons block done ih =>
      rw [List.flatten_cons, List.append_assoc, blocks_cons positive (full block (by simp)),
        ih fun other member => full other (by simp [member])]
      rfl

theorem cut_length {size fuel : Nat} {stream : List A} (enough : fuel * size ≤ stream.length) :
    (cut size fuel stream).length = fuel := by
  induction fuel generalizing stream with
  | zero => rfl
  | succ fuel ih =>
      rw [Nat.succ_mul] at enough
      have long : ¬ stream.length < size := by omega
      have later : fuel * size ≤ (stream.drop size).length := by
        rw [List.length_drop]
        omega
      simp [cut, long, ih later]

theorem blocks_length (size : Nat) (stream : List A) :
    (blocks size stream).length = stream.length / size :=
  cut_length (Nat.div_mul_le_self ..)

theorem prefix_cut {size fuel more : Nat} (enough : fuel ≤ more) (stream later : List A) :
    cut size fuel stream <+: cut size more (stream ++ later) := by
  induction fuel generalizing more stream with
  | zero => exact List.nil_prefix
  | succ fuel ih =>
      obtain ⟨more, rfl⟩ : ∃ less, more = less + 1 := ⟨more - 1, by omega⟩
      by_cases short : stream.length < size
      · simp [cut, short]
      · have long : size ≤ stream.length := not_lt.1 short
        have whole : ¬ (stream ++ later).length < size := by
          rw [List.length_append]
          omega
        rw [cut, cut, if_neg short, if_neg whole, List.take_append_of_le_length long,
          List.drop_append_of_le_length long]
        exact List.prefix_cons_inj _ |>.2 (ih (by omega) (stream.drop size))

theorem prefix_blocks {size : Nat} {stream later : List A} (before : stream <+: later) :
    blocks size stream <+: blocks size later := by
  obtain ⟨rest, rfl⟩ := before
  refine prefix_cut (Nat.div_le_div_right ?_) stream rest
  rw [List.length_append]
  exact Nat.le_add_right ..

def leftover (size : Nat) (stream : List A) : List A :=
  stream.drop (size * (stream.length / size))

theorem flatten_length {size : Nat} {done : List (List A)}
    (full : ∀ block ∈ done, block.length = size) : done.flatten.length = size * done.length := by
  induction done with
  | nil => rfl
  | cons block done ih =>
      rw [List.flatten_cons, List.length_append, full block (by simp),
        ih fun other member => full other (by simp [member]), List.length_cons]
      rw [Nat.mul_succ, Nat.add_comm]

theorem leftover_flatten_append {size : Nat} {done : List (List A)} {rest : List A}
    (full : ∀ block ∈ done, block.length = size) (short : rest.length < size) :
    leftover size (done.flatten ++ rest) = rest := by
  have count : (done.flatten ++ rest).length / size = done.length := by
    rw [List.length_append, flatten_length full, Nat.add_comm,
      Nat.add_mul_div_left _ _ (by omega), Nat.div_eq_of_lt short, Nat.zero_add]
  rw [leftover, count, ← flatten_length full, List.drop_left]

theorem leftover_length {size : Nat} (positive : 0 < size) (stream : List A) :
    (leftover size stream).length < size := by
  rw [leftover, List.length_drop, ← Nat.mod_eq_sub_mul_div]
  exact Nat.mod_lt _ positive

def decodeUntil {B : Type} (decode : List A → Option B) : List (List A) → List B
  | [] => []
  | block :: rest =>
      match decode block with
      | none => []
      | some value => value :: decodeUntil decode rest

section Decode

variable {B : Type} {decode : List A → Option B} {done rest : List (List A)} {values : List B}

theorem decodeUntil_append (good : done.map decode = values.map some) :
    decodeUntil decode (done ++ rest) = values ++ decodeUntil decode rest := by
  induction done generalizing values with
  | nil => simp [List.map_eq_nil_iff.1 good.symm]
  | cons block done ih =>
      cases values with
      | nil => simp at good
      | cons value values =>
          simp only [List.map_cons, List.cons.injEq] at good
          simp [decodeUntil, good.1, ih good.2]

theorem prefix_decodeUntil {stream later : List (List A)} (before : stream <+: later) :
    decodeUntil decode stream <+: decodeUntil decode later := by
  obtain ⟨rest, rfl⟩ := before
  induction stream with
  | nil => exact List.nil_prefix
  | cons block stream ih =>
      rw [List.cons_append]
      cases value : decode block with
      | none => simp [decodeUntil, value]
      | some decoded => simpa [decodeUntil, value, List.prefix_cons_inj] using ih

theorem decodeUntil_bad {block : List A} (bad : decode block = none) :
    decodeUntil decode (block :: rest) = [] := by
  simp [decodeUntil, bad]

theorem decodeUntil_length (good : ∀ block ∈ rest, decode block ≠ none) :
    (decodeUntil decode rest).length = rest.length := by
  induction rest with
  | nil => rfl
  | cons block rest ih =>
      cases value : decode block with
      | none => exact absurd value (good block (by simp))
      | some decoded =>
          simp [decodeUntil, value, ih fun other member => good other (by simp [member])]

end Decode

end Blocks
