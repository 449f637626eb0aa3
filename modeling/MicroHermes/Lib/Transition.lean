import Mathlib.Logic.Relation
import Mathlib.Data.Finset.Basic
import Mathlib.Order.Monotone.Basic
import Mathlib.Order.WellFounded

set_option autoImplicit false

namespace Transition

variable {S T A : Type}

def exec (step : S → A → Option S) : S → List A → Option S
  -- Run a list of labels; `none` as soon as one of them is not possible.
  | state, [] => some state
  | state, label :: rest => (step state label).bind fun next => exec step next rest

def NextIf (step : S → A → Option S) (allowed : S → A → Prop) (state next : S) : Prop :=
  ∃ label, allowed state label ∧ step state label = some next

abbrev Next (step : S → A → Option S) : S → S → Prop :=
  NextIf step fun _ _ => True

abbrev StepsIf (step : S → A → Option S) (allowed : S → A → Prop) : S → S → Prop :=
  Relation.ReflTransGen (NextIf step allowed)

abbrev Steps (step : S → A → Option S) : S → S → Prop :=
  Relation.ReflTransGen (Next step)

@[simp] theorem exec_nil (step : S → A → Option S) (state : S) :
    exec step state [] = some state := rfl

@[simp] theorem exec_cons (step : S → A → Option S) (state : S) (label : A) (rest : List A) :
    exec step state (label :: rest) = (step state label).bind fun next => exec step next rest := rfl

theorem exec_steps {step : S → A → Option S} {state final : S} {labels : List A}
    (run : exec step state labels = some final) : Steps step state final := by
  induction labels generalizing state with
  | nil =>
      simp only [exec_nil, Option.some.injEq] at run
      exact run ▸ Relation.ReflTransGen.refl
  | cons label rest ih =>
      simp only [exec_cons, Option.bind_eq_some_iff] at run
      obtain ⟨next, first, later⟩ := run
      exact (ih later).head ⟨label, trivial, first⟩

theorem exec_append (step : S → A → Option S) (state : S) (earlier later : List A) :
    exec step state (earlier ++ later) =
      (exec step state earlier).bind fun middle => exec step middle later := by
  induction earlier generalizing state with
  | nil => rfl
  | cons label rest ih => simp [ih, Option.bind_assoc]

theorem exec_stepsIf {step : S → A → Option S} {allowed : S → A → Prop} {state final : S}
    {labels : List A} (run : exec step state labels = some final)
    (fits : ∀ earlier label later before, labels = earlier ++ label :: later →
      exec step state earlier = some before → allowed before label) :
    StepsIf step allowed state final := by
  induction labels generalizing state with
  | nil =>
      simp only [exec_nil, Option.some.injEq] at run
      exact run ▸ Relation.ReflTransGen.refl
  | cons label rest ih =>
      simp only [exec_cons, Option.bind_eq_some_iff] at run
      obtain ⟨next, first, later⟩ := run
      refine (ih later fun earlier other behind before split ran => ?_).head
        ⟨label, fits [] label rest state rfl rfl, first⟩
      exact fits (label :: earlier) other behind before (by rw [split, List.cons_append])
        (by simp [first, ran])

/-- The rule for what a run has gone through: an invariant of the labels taken so far and the state
they lead to. -/
theorem exec_induct {step : S → A → Option S} {state : S} (Inv : List A → S → Prop)
    (start : Inv [] state)
    (onward : ∀ earlier label before next, exec step state earlier = some before →
      Inv earlier before → step before label = some next → Inv (earlier ++ [label]) next)
    {labels : List A} {final : S} (run : exec step state labels = some final) :
    Inv labels final := by
  induction labels using List.reverseRecOn generalizing final with
  | nil =>
      simp only [exec_nil, Option.some.injEq] at run
      exact run ▸ start
  | append_singleton earlier label ih =>
      simp only [exec_append, exec_cons, exec_nil, Option.bind_eq_some_iff, Option.some.injEq] at run
      obtain ⟨before, ran, next, taken, rfl⟩ := run
      exact onward earlier label before next ran (ih ran) taken

theorem StepsIf.weaken {step : S → A → Option S} {allowed permitted : S → A → Prop}
    (weaker : ∀ state label, allowed state label → permitted state label) {state final : S}
    (steps : StepsIf step allowed state final) : StepsIf step permitted state final :=
  steps.lift id fun state _ ⟨label, fits, taken⟩ => ⟨label, weaker state label fits, taken⟩

theorem StepsIf.forget {step : S → A → Option S} {allowed : S → A → Prop} {state final : S}
    (steps : StepsIf step allowed state final) : Steps step state final :=
  steps.weaken fun _ _ _ => trivial

theorem StepsIf.preserve {step : S → A → Option S} {allowed : S → A → Prop} (Inv : S → Prop)
    (preserved : ∀ state label next, Inv state → allowed state label →
      step state label = some next → Inv next)
    {state final : S} (steps : StepsIf step allowed state final) (holds : Inv state) :
    Inv final := by
  induction steps with
  | refl => exact holds
  | tail _ last ih =>
      obtain ⟨label, permitted, taken⟩ := last
      exact preserved _ _ _ ih permitted taken

theorem Steps.preserve {step : S → A → Option S} (Inv : S → Prop)
    (preserved : ∀ state label next, Inv state → step state label = some next → Inv next)
    {state final : S} (steps : Steps step state final) (holds : Inv state) : Inv final :=
  StepsIf.preserve Inv (fun state label next inv _ taken => preserved state label next inv taken)
    steps holds

/-- The rule for refinement: when, under an invariant, every allowed step is a permitted step of
the abstract system between the views, allowed runs are permitted runs of the abstract system. -/
theorem StepsIf.refine {B : Type} {step : S → A → Option S} {allowed : S → A → Prop}
    {abstract : T → B → Option T} {permitted : T → B → Prop} {Inv : S → Prop} (view : S → T)
    (simulates : ∀ state label next, Inv state → allowed state label →
      step state label = some next → Inv next ∧
      ∃ move, permitted (view state) move ∧ abstract (view state) move = some (view next))
    {state final : S} (steps : StepsIf step allowed state final) (holds : Inv state) :
    Inv final ∧ StepsIf abstract permitted (view state) (view final) := by
  induction steps with
  | refl => exact ⟨holds, .refl⟩
  | tail _ last ih =>
      obtain ⟨label, fits, taken⟩ := last
      obtain ⟨kept, simulated⟩ := simulates _ label _ ih.1 fits taken
      exact ⟨kept, ih.2.tail simulated⟩

theorem Steps.simulate {B : Type} {step : S → A → Option S} {abstract : T → B → Option T}
    (Related : S → T → Prop)
    (simulates : ∀ state label next view, Related state view → step state label = some next →
      ∃ after, Steps abstract view after ∧ Related next after)
    {state final : S} {view : T} (steps : Steps step state final) (related : Related state view) :
    ∃ after, Steps abstract view after ∧ Related final after := by
  induction steps with
  | refl => exact ⟨view, .refl, related⟩
  | tail _ last ih =>
      obtain ⟨middle, earlier, related⟩ := ih
      obtain ⟨label, _, taken⟩ := last
      obtain ⟨after, matched, related⟩ := simulates _ label _ middle related taken
      exact ⟨after, earlier.trans matched, related⟩

theorem exec_length {step : S → A → Option S} (Inv : S → Prop) (left : S → Nat)
    (uses : ∀ state label next, Inv state → step state label = some next →
      Inv next ∧ left next < left state)
    {state final : S} {labels : List A} (run : exec step state labels = some final)
    (holds : Inv state) : labels.length + left final ≤ left state := by
  induction labels generalizing state with
  | nil =>
      simp only [exec_nil, Option.some.injEq] at run
      simp [run]
  | cons label rest ih =>
      simp only [exec_cons, Option.bind_eq_some_iff] at run
      obtain ⟨next, first, later⟩ := run
      obtain ⟨kept, fewer⟩ := uses state label next holds first
      have remaining := ih later kept
      rw [List.length_cons]
      omega

theorem StepsIf.exec {step : S → A → Option S} {allowed : S → A → Prop} {state final : S}
    (steps : StepsIf step allowed state final) :
    ∃ labels, Transition.exec step state labels = some final := by
  induction steps with
  | refl => exact ⟨[], rfl⟩
  | tail _ last ih =>
      obtain ⟨labels, run⟩ := ih
      obtain ⟨label, _, taken⟩ := last
      exact ⟨labels ++ [label], by simp [exec_append, run, taken]⟩

/-- The rule for liveness: a goal can be reached when, short of it, some allowed step uses up a
measure. -/
theorem reach {M : Type} [LT M] [WellFoundedLT M] {step : S → A → Option S}
    {allowed : S → A → Prop} (Inv Goal : S → Prop) (left : S → M)
    (progress : ∀ state, Inv state → ¬ Goal state → ∃ label next, allowed state label ∧
      step state label = some next ∧ Inv next ∧ left next < left state)
    {state : S} (holds : Inv state) :
    ∃ final, StepsIf step allowed state final ∧ Inv final ∧ Goal final := by
  induction state using (InvImage.wf left wellFounded_lt).induction with
  | _ state ih =>
      by_cases done : Goal state
      · exact ⟨state, .refl, holds, done⟩
      · obtain ⟨label, next, fits, taken, kept, fewer⟩ := progress state holds done
        obtain ⟨final, steps, reached⟩ := ih next fewer kept
        exact ⟨final, steps.head ⟨label, fits, taken⟩, reached⟩

/-- The rule for infinite runs: a measure that never grows and, short of the goal, shrinks again and
again leads to the goal. -/
theorem eventually {M : Type} [Preorder M] [WellFoundedLT M] {run : Nat → S} (Goal : S → Prop)
    (left : S → M) (falls : ∀ n, left (run (n + 1)) ≤ left (run n))
    (again : ∀ n, ¬ Goal (run n) → ∃ m, n ≤ m ∧ left (run (m + 1)) < left (run m)) :
    ∃ n, Goal (run n) := by
  have lower : Antitone fun n => left (run n) := antitone_nat_of_succ_le falls
  have descends (value : M) : ∀ n, left (run n) = value → ∃ m, Goal (run m) := by
    induction value using (wellFounded_lt (α := M)).induction with
    | _ value ih =>
        rintro n rfl
        by_cases done : Goal (run n)
        · exact ⟨n, done⟩
        · obtain ⟨m, later, fewer⟩ := again n done
          exact ih _ (fewer.trans_le (lower later)) (m + 1) rfl
  exact descends _ 0 rfl

def standing (step : S → A → Option S) (state : S) (labels : List A) (final : S) (n : Nat) : S :=
  -- The infinite run that goes through the labels and then stands still.
  (exec step state (labels.take n)).getD final

theorem standing_steps {step : S → A → Option S} {state final : S} {labels : List A}
    (run : exec step state labels = some final) (n : Nat) :
    standing step state labels final (n + 1) = standing step state labels final n ∨
      ∃ label, step (standing step state labels final n) label =
        some (standing step state labels final (n + 1)) := by
  by_cases within : n < labels.length
  · have split : exec step state (labels.take (n + 1)) =
        (exec step state (labels.take n)).bind fun middle => step middle labels[n] := by
      rw [← List.take_append_getElem within, exec_append]
      simp
    rw [← List.take_append_drop (n + 1) labels, exec_append, split] at run
    simp only [Option.bind_eq_some_iff] at run
    obtain ⟨next, ⟨middle, ran, taken⟩, _⟩ := run
    exact .inr ⟨labels[n], by simp [standing, split, ran, taken]⟩
  · rw [standing, standing, List.take_of_length_le (by omega), List.take_of_length_le (by omega)]
    exact .inl rfl

theorem standing_ended {step : S → A → Option S} {state final : S} {labels : List A}
    (run : exec step state labels = some final) {n : Nat} (past : labels.length ≤ n) :
    standing step state labels final n = final := by
  rw [standing, List.take_of_length_le past, run, Option.getD_some]

def restrict (step : S → A → Option S) (allowed : S → A → Bool) : S → A → Option S :=
  fun state label => if allowed state label then step state label else none

theorem steps_restrict {step : S → A → Option S} {allowed : S → A → Bool} {state final : S}
    (steps : Steps (restrict step allowed) state final) :
    StepsIf step (fun state label => allowed state label = true) state final :=
  steps.lift id fun _ _ ⟨label, _, taken⟩ => by
    simp only [restrict, Option.ite_none_right_eq_some] at taken
    exact ⟨label, taken⟩

def product (first : S → A → Option S) (second : T → A → Option T) :
    S × T → A → Option (S × T) :=
  fun state label =>
    (first state.1 label).bind fun next => (second state.2 label).map fun after => (next, after)

@[simp] theorem product_eq_some (first : S → A → Option S) (second : T → A → Option T)
    (state next : S × T) (label : A) :
    product first second state label = some next ↔
      first state.1 label = some next.1 ∧ second state.2 label = some next.2 := by
  obtain ⟨after, outside⟩ := next
  simp [product, Option.bind_eq_some_iff]

def observed (step : S → A → Option S) (observe : S → A → T → T) : S × T → A → Option (S × T) :=
  fun state label =>
    (step state.1 label).map fun next => (next, observe state.1 label state.2)

@[simp] theorem observed_eq_some (step : S → A → Option S) (observe : S → A → T → T)
    (state next : S × T) (label : A) :
    observed step observe state label = some next ↔
      step state.1 label = some next.1 ∧ observe state.1 label state.2 = next.2 := by
  obtain ⟨after, record⟩ := next
  simp [observed]

theorem exec_observed {step : S → A → Option S} (observe : S → A → T → T) {state final : S}
    {labels : List A} (run : exec step state labels = some final) (record : T) :
    ∃ after, exec (observed step observe) (state, record) labels = some (final, after) := by
  -- Recording prevents no run.
  induction labels generalizing state record with
  | nil =>
      simp only [exec_nil, Option.some.injEq] at run
      exact ⟨record, by rw [exec_nil, run]⟩
  | cons label rest ih =>
      simp only [exec_cons, Option.bind_eq_some_iff] at run
      obtain ⟨next, first, later⟩ := run
      obtain ⟨after, recorded⟩ := ih later (observe state label record)
      exact ⟨after, by simp [observed, first, recorded]⟩

end Transition
