import MicroHermes.Lib.Fallible

set_option autoImplicit false

/-!
# Buffered writing

What is written waits in a buffer and reaches the file in order. A write to the file can stop part
of the way.
-/

structure BufWriter (A : Type) where
  file : List A
  buf : List A
  -- The writes to the file so far.
  writes : Nat

namespace BufWriter

open Fallible

variable {A B C : Type}

def new : BufWriter A := ⟨[], [], 0⟩

def text (w : BufWriter A) : List A := w.file ++ w.buf

abbrev Writing (A : Type) := Fallible (BufWriter A) Unit

section Operations

-- The n-th write to the file goes through, or fails after as many elements.
variable (device : Nat → Option Nat) (capacity : Nat)

def flushBuf : Writing A Unit :=
  ExceptT.mk fun w =>
    if w.buf.isEmpty then (.ok (), w)
    else match device w.writes with
      | none => (.ok (), ⟨w.file ++ w.buf, [], w.writes + 1⟩)
      | some arrived =>
          (.error (), ⟨w.file ++ w.buf.take arrived, w.buf.drop arrived, w.writes + 1⟩)

def writeToFile (data : List A) : Writing A Unit :=
  ExceptT.mk fun w =>
    match device w.writes with
    | none => (.ok (), { w with file := w.file ++ data, writes := w.writes + 1 })
    | some arrived =>
        (.error (), { w with file := w.file ++ data.take arrived, writes := w.writes + 1 })

def writeToBuffer (data : List A) : Writing A Unit :=
  modify fun w => { w with buf := w.buf ++ data }

def writeAll (data : List A) : Writing A Unit := do
  let room := capacity - (← get).buf.length
  if data.length < room then writeToBuffer data
  else
    -- What does not fit empties the buffer first, and passes it by when it would fill it.
    if room < data.length then flushBuf device
    if capacity ≤ data.length then writeToFile device data else writeToBuffer data

end Operations

/-- The computation writes `data` after what is written already, or stops within it. -/
def Writes (w : BufWriter A) (x : Writing A B) (data : List A) : Prop :=
  Ensures w x (fun _ after => after.text = w.text ++ data ∧ w.file <+: after.file)
    fun _ after => after.text <+: w.text ++ data ∧ w.file <+: after.file

variable {device : Nat → Option Nat} {capacity : Nat} {w : BufWriter A} {data more : List A}

theorem Writes.bind {x : Writing A B} {next : B → Writing A C} (first : Writes w x data)
    (later : ∀ value after, after.text = w.text ++ data → Writes after (next value) more) :
    Writes w (x >>= next) (data ++ more) := by
  refine Ensures.bind (Ensures.mono first (fun _ _ holds => holds) ?_) ?_
  · intro fault after ⟨within, kept⟩
    rw [← List.append_assoc]
    exact ⟨within.trans (List.prefix_append _ _), kept⟩
  intro value middle ⟨written, kept⟩
  refine Ensures.mono (later value middle written) ?_ ?_ <;>
    rw [written, List.append_assoc]
  · exact fun _ _ ⟨whole, grown⟩ => ⟨whole, kept.trans grown⟩
  · exact fun _ _ ⟨within, grown⟩ => ⟨within, kept.trans grown⟩

theorem flushBuf_ensures :
    Ensures w (flushBuf device) (fun _ after => after.file = w.text ∧ after.buf = [])
      fun _ after => after.text = w.text ∧ w.file <+: after.file := by
  have ran : outcome (flushBuf device) w =
      if w.buf.isEmpty then (.ok (), w)
      else match device w.writes with
        | none => (.ok (), ⟨w.file ++ w.buf, [], w.writes + 1⟩)
        | some arrived =>
            (.error (), ⟨w.file ++ w.buf.take arrived, w.buf.drop arrived, w.writes + 1⟩) := rfl
  unfold Ensures
  rw [ran]
  by_cases empty : w.buf.isEmpty
  · rw [if_pos empty]
    have empty := List.isEmpty_iff.1 empty
    exact ⟨by rw [text, empty, List.append_nil], empty⟩
  · rw [if_neg empty]
    cases device w.writes with
    | none => exact ⟨rfl, rfl⟩
    | some arrived =>
        refine ⟨?_, List.prefix_append _ _⟩
        rw [text, text, List.append_assoc, List.take_append_drop]

theorem writeToBuffer_writes : Writes w (writeToBuffer data) data :=
  ⟨(List.append_assoc ..).symm, List.prefix_rfl⟩

theorem writeToFile_writes (idle : w.buf = [] ∨ data = []) :
    Writes w (writeToFile device data) data := by
  have ran : outcome (writeToFile device data) w = match device w.writes with
      | none => (.ok (), { w with file := w.file ++ data, writes := w.writes + 1 })
      | some arrived =>
          (.error (), { w with file := w.file ++ data.take arrived, writes := w.writes + 1 }) := rfl
  have passes : ∀ part, part <+: data → w.file ++ part ++ w.buf = w.text ++ part := by
    rintro part ⟨rest, whole⟩
    rcases idle with empty | nothing
    · simp [text, empty]
    · subst nothing
      simp [text, (List.append_eq_nil_iff.1 whole).1]
  unfold Writes Ensures
  rw [ran]
  cases device w.writes with
  | none => exact ⟨passes data List.prefix_rfl, List.prefix_append _ _⟩
  | some arrived =>
      refine ⟨?_, List.prefix_append _ _⟩
      rw [text, passes _ (List.take_prefix ..)]
      exact (List.prefix_append_right_inj _).2 (List.take_prefix ..)

theorem writeAll_writes (data : List A) : Writes w (writeAll device capacity data) data := by
  have read : Ensures w (get : Writing A (BufWriter A)) (fun value after => value = w ∧ after = w)
      fun _ after => after.text <+: w.text ++ data ∧ w.file <+: after.file := ⟨rfl, rfl⟩
  refine Ensures.bind read ?_
  rintro _ w ⟨rfl, rfl⟩
  simp only
  split
  · exact writeToBuffer_writes
  · next tight =>
      split
      · refine Ensures.bind (Ensures.mono flushBuf_ensures (fun _ _ holds => holds) ?_) ?_
        · rintro _ after ⟨same, kept⟩
          exact ⟨same ▸ List.prefix_append _ _, kept⟩
        rintro _ flushed ⟨file, buf⟩
        have written : Writes flushed
            (if capacity ≤ data.length then writeToFile device data else writeToBuffer data) data := by
          split
          · exact writeToFile_writes (.inl buf)
          · exact writeToBuffer_writes
        have kept : w.file <+: flushed.file := file ▸ List.prefix_append _ _
        have same : flushed.text = w.text := by rw [text, file, buf, List.append_nil]
        rw [Writes, same] at written
        exact written.mono (fun _ _ holds => ⟨holds.1, kept.trans holds.2⟩)
          fun _ _ holds => ⟨holds.1, kept.trans holds.2⟩
      · next fits =>
          split
          · next large =>
              refine writeToFile_writes ?_
              rcases Nat.eq_zero_or_pos data.length with nothing | some
              · exact .inr (List.length_eq_zero_iff.1 nothing)
              · exact .inl (List.length_eq_zero_iff.1 (by omega))
          · exact writeToBuffer_writes

end BufWriter
