import Mathlib.Tactic.Common

set_option autoImplicit false

abbrev Fallible (S E : Type) := ExceptT E (StateM S)

namespace Fallible

variable {S E A B : Type}

def outcome (x : Fallible S E A) (state : S) : Except E A × S := StateT.run (ExceptT.run x) state

/-- From this state the computation ends in one of the two ways. -/
def Ensures (state : S) (x : Fallible S E A) (ok : A → S → Prop) (failed : E → S → Prop) : Prop :=
  match outcome x state with
  | (.ok value, after) => ok value after
  | (.error fault, after) => failed fault after

variable {state : S} {x : Fallible S E A} {ok ok' : A → S → Prop} {failed failed' : E → S → Prop}

theorem Ensures.pure {value : A} (holds : ok value state) :
    Ensures state (Pure.pure value : Fallible S E A) ok failed :=
  holds

theorem Ensures.mono (ensured : Ensures state x ok failed)
    (values : ∀ value after, ok value after → ok' value after)
    (faults : ∀ fault after, failed fault after → failed' fault after) :
    Ensures state x ok' failed' := by
  unfold Ensures at *
  split at ensured
  · exact values _ _ ensured
  · exact faults _ _ ensured

theorem outcome_bind (x : Fallible S E A) (next : A → Fallible S E B) (state : S) :
    outcome (x >>= next) state = match outcome x state with
      | (.ok value, after) => outcome (next value) after
      | (.error fault, after) => (.error fault, after) := by
  simp only [outcome, ExceptT.run_bind, StateT.run_bind]
  cases StateT.run (ExceptT.run x) state with
  | mk result after => cases result <;> rfl

theorem Ensures.bind {next : A → Fallible S E B} {done : B → S → Prop}
    (first : Ensures state x ok failed)
    (later : ∀ value after, ok value after → Ensures after (next value) done failed) :
    Ensures state (x >>= next) done failed := by
  unfold Ensures at *
  rw [outcome_bind]
  cases ran : outcome x state with
  | mk result after =>
      rw [ran] at first
      cases result with
      | ok value => exact later value after first
      | error fault => exact first

-- What a scope gives back when it is left with a failure.
def onFailure (cleanup : S → S) (x : Fallible S E A) : Fallible S E A :=
  tryCatch x fun fault => do
    modify cleanup
    throw fault

theorem outcome_onFailure (cleanup : S → S) (x : Fallible S E A) (state : S) :
    outcome (onFailure cleanup x) state = match outcome x state with
      | (.ok value, after) => (.ok value, after)
      | (.error fault, after) => (.error fault, cleanup after) := by
  simp only [outcome, onFailure]
  cases ran : StateT.run (ExceptT.run x) state with
  | mk result after =>
      cases result <;>
        simp [tryCatch, tryCatchThe, MonadExceptOf.tryCatch, ExceptT.tryCatch, ExceptT.mk,
          ExceptT.run, StateT.run, bind, StateT.bind] at ran ⊢ <;> simp [ran] <;> rfl

theorem Ensures.onFailure {cleanup : S → S}
    (ensured : Ensures state x ok fun fault after => failed fault (cleanup after)) :
    Ensures state (Fallible.onFailure cleanup x) ok failed := by
  unfold Ensures at *
  rw [outcome_onFailure]
  cases ran : outcome x state with
  | mk result after =>
      rw [ran] at ensured
      cases result with
      | ok value => exact ensured
      | error fault => exact ensured

-- A frame around the faults that come out.
def context (frame : E → E) (x : Fallible S E A) : Fallible S E A := ExceptT.adapt frame x

theorem Ensures.context {frame : E → E}
    (ensured : Ensures state x ok fun fault after => failed (frame fault) after) :
    Ensures state (Fallible.context frame x) ok failed := by
  unfold Ensures at *
  have adapted : outcome (Fallible.context frame x) state =
      ((outcome x state).1.mapError frame, (outcome x state).2) := rfl
  rw [adapted]
  cases ran : outcome x state with
  | mk result after =>
      rw [ran] at ensured
      cases result with
      | ok value => exact ensured
      | error fault => exact ensured

end Fallible

abbrev Logging (Ev E : Type) := Fallible (List Ev) E

namespace Logging

open Fallible

variable {Ev E A B : Type}

/-- After `before` the computation adds to the log what `ok` or `failed` says. -/
def Adds (before : List Ev) (x : Logging Ev E A) (ok : A → List Ev → Prop)
    (failed : List Ev → Prop) : Prop :=
  Ensures before x (fun value after => ∃ added, after = before ++ added ∧ ok value added)
    fun _ after => ∃ added, after = before ++ added ∧ failed added

variable {before : List Ev} {x : Logging Ev E A} {ok ok' : A → List Ev → Prop}
  {failed failed' : List Ev → Prop}

theorem Adds.pure {value : A} (holds : ok value []) :
    Adds before (Pure.pure value : Logging Ev E A) ok failed :=
  Ensures.pure ⟨[], (List.append_nil before).symm, holds⟩

theorem Adds.mono (adds : Adds before x ok failed)
    (values : ∀ value added, ok value added → ok' value added)
    (faults : ∀ added, failed added → failed' added) : Adds before x ok' failed' := by
  refine Ensures.mono adds ?_ ?_
  · intro value after ⟨added, log, holds⟩
    exact ⟨added, log, values value added holds⟩
  · intro fault after ⟨added, log, holds⟩
    exact ⟨added, log, faults added holds⟩

theorem Adds.bind {next : A → Logging Ev E B} {done : B → List Ev → Prop}
    (first : Adds before x ok failed)
    (later : ∀ value added, ok value added → Adds (before ++ added) (next value)
      (fun result more => done result (added ++ more)) fun more => failed (added ++ more)) :
    Adds before (x >>= next) done failed := by
  refine Ensures.bind first ?_
  intro value after ⟨added, log, holds⟩
  subst log
  refine Ensures.mono (later value added holds) ?_ ?_
  · intro result after ⟨more, log, holds⟩
    exact ⟨added ++ more, by rw [log, List.append_assoc], holds⟩
  · intro fault after ⟨more, log, holds⟩
    exact ⟨added ++ more, by rw [log, List.append_assoc], holds⟩

theorem Adds.onFailure {extra : List Ev}
    (adds : Adds before x ok fun added => failed (added ++ extra)) :
    Adds before (onFailure (· ++ extra) x) ok failed := by
  refine Ensures.onFailure (Ensures.mono adds (fun _ _ holds => holds) ?_)
  intro fault after ⟨added, log, holds⟩
  exact ⟨added ++ extra, by rw [log, List.append_assoc], holds⟩

theorem Adds.context {frame : E → E} (adds : Adds before x ok failed) :
    Adds before (context frame x) ok failed :=
  Ensures.context adds

theorem Adds.outcome (adds : Adds [] x ok failed) :
    (∃ value log, outcome x [] = (.ok value, log) ∧ ok value log) ∨
      ∃ fault log, outcome x [] = (.error fault, log) ∧ failed log := by
  unfold Adds Ensures at adds
  split at adds
  · next value after ran =>
      obtain ⟨added, log, holds⟩ := adds
      exact .inl ⟨value, after, ran, log.trans (List.nil_append added) ▸ holds⟩
  · next fault after ran =>
      obtain ⟨added, log, holds⟩ := adds
      exact .inr ⟨fault, after, ran, log.trans (List.nil_append added) ▸ holds⟩

end Logging
