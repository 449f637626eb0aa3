import Mathlib.Tactic.Common

set_option autoImplicit false

namespace Fifo

variable {A : Type}

inductive Op (A : Type) where
  | enter (item : A)
  | leave (item : A)
  | reject
  | starve
  | internal

inductive Step (capacity : Nat) : List A → Op A → List A → Prop where
  | enter {contents : List A} (item : A) (room : contents.length < capacity) :
      Step capacity contents (.enter item) (contents ++ [item])
  | leave (item : A) (rest : List A) : Step capacity (item :: rest) (.leave item) rest
  | reject {contents : List A} (full : contents.length = capacity) :
      Step capacity contents .reject contents
  | starve : Step capacity [] .starve []
  | internal (contents : List A) : Step capacity contents .internal contents

inductive Run (capacity : Nat) : List A → List (Op A) → List A → Prop where
  | nil (contents : List A) : Run capacity contents [] contents
  | snoc {start middle final : List A} {ops : List (Op A)} {op : Op A}
      (earlier : Run capacity start ops middle) (last : Step capacity middle op final) :
      Run capacity start (ops ++ [op]) final

def entered : List (Op A) → List A
  | [] => []
  | .enter item :: ops => item :: entered ops
  | _ :: ops => entered ops

def left : List (Op A) → List A
  | [] => []
  | .leave item :: ops => item :: left ops
  | _ :: ops => left ops

@[simp] theorem entered_append (first second : List (Op A)) :
    entered (first ++ second) = entered first ++ entered second := by
  induction first with
  | nil => rfl
  | cons op ops ih => cases op <;> simp [entered, ih]

@[simp] theorem left_append (first second : List (Op A)) :
    left (first ++ second) = left first ++ left second := by
  induction first with
  | nil => rfl
  | cons op ops ih => cases op <;> simp [left, ih]

theorem Step.conserves {capacity : Nat} {contents next : List A} {op : Op A}
    (step : Step capacity contents op next) :
    contents ++ entered [op] = left [op] ++ next := by
  cases step <;> simp [entered, left]

theorem Step.full {capacity : Nat} {contents next : List A}
    (step : Step capacity contents .reject next) : contents.length = capacity := by
  cases step with
  | reject full => exact full

theorem Step.empty {capacity : Nat} {contents next : List A}
    (step : Step capacity contents .starve next) : contents = [] := by
  cases step
  rfl

theorem Run.conserves {capacity : Nat} {start final : List A} {ops : List (Op A)}
    (run : Run capacity start ops final) : start ++ entered ops = left ops ++ final := by
  -- Nothing is lost, duplicated or reordered.
  induction run with
  | nil => simp [entered, left]
  | snoc _ last ih =>
      rw [entered_append, left_append, ← List.append_assoc, ih, List.append_assoc,
        last.conserves, List.append_assoc]

theorem Run.bounded {capacity : Nat} {start final : List A} {ops : List (Op A)}
    (run : Run capacity start ops final) (bounded : start.length ≤ capacity) :
    final.length ≤ capacity := by
  induction run with
  | nil => exact bounded
  | snoc _ last ih =>
      have before := ih
      cases last with
      | enter item room =>
          rw [List.length_append, List.length_singleton]
          exact room
      | leave item rest => exact Nat.le_of_succ_le before
      | reject full => exact before
      | starve => exact before
      | internal => exact before

end Fifo
