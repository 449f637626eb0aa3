import MicroHermes.Collected

set_option autoImplicit false

namespace MicroHermes

open Transition Bitmap

variable {W : Nat}

namespace Timing

structure Favoured (h : Fin W) (conns pending : Int) (state : Timing W) : Prop where
  fresh : state.stampOf h = 0 ∨ state.latest - state.stampOf h < hangThresholdNs
  fewConns : (state.wst h).accumulatedConns ≤ conns
  otherConns : ∀ i, i ≠ h → conns ≤ (state.wst i).accumulatedConns
  fewPending : (state.wst h).pendingEvents ≤ pending
  otherPending : ∀ i, i ≠ h → pending ≤ (state.wst i).pendingEvents

def FavouredValue (h : Fin W) (conns pending now : Int) (i : Fin W) (field : Field) (value : Int) :
    Prop :=
  match field with
  | .lastLoopEntry => i = h → value = 0 ∨ now - value < hangThresholdNs
  | .pendingEvents => (i = h → value ≤ pending) ∧ (i ≠ h → pending ≤ value)
  | .accumulatedConns => (i = h → value ≤ conns) ∧ (i ≠ h → conns ≤ value)

variable {state after final : Timing W} {h p : Fin W} {conns pending now since : Int}

theorem Favoured.value (favoured : Favoured h conns pending state) (read : now ≤ state.latest)
    (i : Fin W) (field : Field) :
    FavouredValue h conns pending now i field ((state.wst i).get field) := by
  cases field with
  | lastLoopEntry =>
      rintro rfl
      have fresh := favoured.fresh
      simp only [stampOf] at fresh
      simp only [WorkerSlot.get]
      omega
  | pendingEvents =>
      exact ⟨fun same => same ▸ favoured.fewPending, favoured.otherPending i⟩
  | accumulatedConns =>
      exact ⟨fun same => same ▸ favoured.fewConns, favoured.otherConns i⟩

theorem bit_of_favoured (width : W ≤ 64) {taken : Snapshots W}
    (values : ∀ i field, FavouredValue h conns pending now i field ((taken i).get field)) :
    bit (scheduleFromSnapshots Rat taken now hangThresholdNs).bitmap h = true := by
  have alive : h ∈ stage1 taken now hangThresholdNs :=
    (mem_stage1 ..).2 (values h .lastLoopEntry rfl)
  have fewConns (i : Fin W) : (taken h).accumulatedConns ≤ (taken i).accumulatedConns := by
    by_cases same : i = h
    · rw [same]
    · exact ((values h .accumulatedConns).1 rfl).trans ((values i .accumulatedConns).2 same)
  have fewPending (i : Fin W) : (taken h).pendingEvents ≤ (taken i).pendingEvents := by
    by_cases same : i = h
    · rw [same]
    · exact ((values h .pendingEvents).1 rfl).trans ((values i .pendingEvents).2 same)
  have kept : h ∈ stage2 Rat taken now hangThresholdNs :=
    filterBelowBaseline_of_least alive fun i _ => fewConns i
  have chosen : h ∈ stage3 Rat taken now hangThresholdNs :=
    filterBelowBaseline_of_least kept fun i _ => fewPending i
  exact (bit_bitmap Rat width _ _ _ (h.isLt.trans_le width)).2 ⟨h, chosen, rfl⟩

def Welcomed (h : Fin W) (conns pending : Int) (state : Timing W) : Prop :=
  ∀ p, (state.pass p).Took Rat (FavouredValue h conns pending)

theorem welcomed_of_steps (width : W ≤ 64) (inv : Inv Rat state)
    (welcomed : Welcomed h conns pending state)
    (steps : StepsIf (step Rat) (fun state _ => Favoured h conns pending state) state final) :
    Welcomed h conns pending final := by
  intro p
  refine took_of_steps (fun _ => True) width inv ?_ (fun p _ => welcomed p) steps p
    fun _ _ => trivial
  exact fun _ _ favoured _ _ read i field => favoured.value read i field

theorem welcomed_since (width : W ≤ 64) (inv : Inv Rat state)
    (steps : StepsIf (step Rat) (fun state _ => Favoured h conns pending state) state final)
    (young : ∀ p, ∀ now ∈ (final.pass p).reading, state.latest < now) :
    Welcomed h conns pending final := by
  -- The passes under way at the start have a reading that is not later than `state.latest`.
  intro p
  refine took_of_steps (fun now => state.latest < now) width inv ?_ ?_ steps p (young p)
  · exact fun _ _ favoured _ _ read i field => favoured.value read i field
  · intro p recent
    have readings := inv.readings p
    generalize state.pass p = pass at recent readings
    cases pass with
    | idle => trivial
    | loading now snap =>
        have later := recent now rfl
        have earlier := readings now rfl
        omega
    | computed now result =>
        have later := recent now rfl
        have earlier := readings now rfl
        omega

theorem Welcomed.bit (welcomed : Welcomed h conns pending state) (width : W ≤ 64)
    {result : ScheduleResult} (waiting : state.pass p = .computed now result) :
    Bitmap.bit result.bitmap h = true := by
  have took := welcomed p
  rw [waiting] at took
  obtain ⟨taken, rfl, values⟩ := took
  exact bit_of_favoured width values

theorem Welcomed.publish (welcomed : Welcomed h conns pending state) (width : W ≤ 64)
    (moved : step Rat state (.publish p true) = some after) : Bitmap.bit after.mSel h = true := by
  cases step_cases moved with
  | publish _ _ now result waiting => exact welcomed.bit width waiting

theorem selectable_of_steps (width : W ≤ 64) (inv : Inv Rat state)
    (welcomed : Welcomed h conns pending state) (selectable : bit state.mSel h = true)
    (steps : StepsIf (step Rat) (fun state _ => Favoured h conns pending state) state final) :
    bit final.mSel h = true := by
  have reached : Inv Rat final ∧ Welcomed h conns pending final ∧ bit final.mSel h = true := by
    induction steps with
    | refl => exact ⟨inv, welcomed, selectable⟩
    | @tail middle last _ lastStep ih =>
        obtain ⟨inv, welcomed, selectable⟩ := ih
        have next := welcomed_of_steps width inv welcomed (.single lastStep)
        obtain ⟨label, _, moved⟩ := lastStep
        refine ⟨step_inv width inv moved, next, ?_⟩
        rcases step_mSel moved with kept | ⟨p, now, result, waiting, published⟩
        · rw [kept]
          exact selectable
        · rw [published]
          exact welcomed.bit width waiting
  exact reached.2.2

end Timing

end MicroHermes
