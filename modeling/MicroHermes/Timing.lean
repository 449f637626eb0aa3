import MicroHermes.Lib.Transition
import MicroHermes.Scheduler

set_option autoImplicit false

/-!
# Stamps, scheduling passes and the clock

What hang detection is about: workers stamp their slots, passes read the clock and then the slots
one field after the other, and publish what they compute. Everything else a worker does is a step
that leaves the stamps alone.
-/

namespace MicroHermes

open Transition Bitmap

/-- A scheduling pass of a worker, with the clock reading it started from. -/
inductive Pass (W : Nat) where
  | idle
  | loading (now : Int) (snap : SnapshotPc W)
  | computed (now : Int) (result : ScheduleResult)

def Pass.reading {W : Nat} : Pass W → Option Int
  | .idle => none
  | .loading now _ | .computed now _ => some now

structure Timing (W : Nat) where
  wst : Wst W
  pass : Fin W → Pass W
  mSel : UInt64
  latest : Int

inductive TimedMove (W : Nat) where
  | stamp (h : Fin W) (now : Int)
  | start (p : Fin W) (now : Int)
  | load (p : Fin W)
  | compute (p : Fin W)
  | publish (p : Fin W) (written : Bool)
  | work (wst : Wst W) (latest : Int)

namespace Timing

variable (F : Type) [MetricArith F] {W : Nat}

def stampOf (state : Timing W) (h : Fin W) : Int := (state.wst h).lastLoopEntry

/-- The clock never goes back and its readings are positive. -/
def step (state : Timing W) : TimedMove W → Option (Timing W)
  | .stamp h now =>
      if state.latest ≤ now ∧ 0 < now then
        some { state with
          wst := Function.update state.wst h ((state.wst h).storeLoopEntry now), latest := now }
      else none
  | .start p now =>
      if state.latest ≤ now ∧ 0 < now then
        some { state with
          pass := Function.update state.pass p (.loading now .start), latest := now }
      else none
  | .load p =>
      match state.pass p with
      | .loading now snap =>
          some { state with
            pass := Function.update state.pass p (.loading now (snap.step state.wst)) }
      | _ => none
  | .compute p =>
      match state.pass p with
      | .loading now snap =>
          if snap.finished then
            some { state with
              pass := Function.update state.pass p
                (.computed now (scheduleFromSnapshots F snap.taken now hangThresholdNs)) }
          else none
      | _ => none
  | .publish p written =>
      match state.pass p with
      | .computed _ result =>
          some { state with
            pass := Function.update state.pass p .idle
            mSel := if written then result.bitmap else state.mSel }
      | _ => none
  | .work wst latest =>
      if (∀ h, (wst h).lastLoopEntry = (state.wst h).lastLoopEntry) ∧ state.latest ≤ latest then
        some { state with wst, latest }
      else none

def Loaded (state : Timing W) (now : Int) (taken : Snapshots W) (h : Fin W) : Prop :=
  -- A stamp that a pass has loaded is the slot's own, unless the slot was stamped after the pass
  -- read the clock.
  (taken h).lastLoopEntry = state.stampOf h ∨ now ≤ state.stampOf h

structure Inv (state : Timing W) : Prop where
  stamps : ∀ h, 0 ≤ state.stampOf h ∧ state.stampOf h ≤ state.latest
  readings : ∀ p, ∀ now ∈ (state.pass p).reading, now ≤ state.latest
  loading : ∀ p now snap, state.pass p = .loading now snap →
    ∀ h, snap.stamped h → state.Loaded now snap.taken h
  computed : ∀ p now result, state.pass p = .computed now result →
    ∃ taken, result = scheduleFromSnapshots F taken now hangThresholdNs ∧
      ∀ h, state.Loaded now taken h
  named : ∀ i, W ≤ i → i < 64 → bit state.mSel i = false

inductive Cases (state : Timing W) : TimedMove W → Timing W → Prop
  | stamp (h : Fin W) (now : Int) (later : state.latest ≤ now) (positive : 0 < now) :
      Cases state (.stamp h now)
        { state with
          wst := Function.update state.wst h ((state.wst h).storeLoopEntry now), latest := now }
  | start (p : Fin W) (now : Int) (later : state.latest ≤ now) :
      Cases state (.start p now)
        { state with
          pass := Function.update state.pass p (.loading now .start), latest := now }
  | load (p : Fin W) (now : Int) (snap : SnapshotPc W) (loading : state.pass p = .loading now snap) :
      Cases state (.load p)
        { state with
          pass := Function.update state.pass p (.loading now (snap.step state.wst)) }
  | compute (p : Fin W) (now : Int) (snap : SnapshotPc W)
      (loading : state.pass p = .loading now snap) (finished : snap.finished = true) :
      Cases state (.compute p)
        { state with
          pass := Function.update state.pass p
            (.computed now (scheduleFromSnapshots F snap.taken now hangThresholdNs)) }
  | publish (p : Fin W) (written : Bool) (now : Int) (result : ScheduleResult)
      (waiting : state.pass p = .computed now result) :
      Cases state (.publish p written)
        { state with
          pass := Function.update state.pass p .idle
          mSel := if written then result.bitmap else state.mSel }
  | work (wst : Wst W) (latest : Int)
      (stamps : ∀ h, (wst h).lastLoopEntry = (state.wst h).lastLoopEntry)
      (later : state.latest ≤ latest) : Cases state (.work wst latest) { state with wst, latest }

inductive PassStep (state next : Timing W) (label : TimedMove W) (p : Fin W) :
    Pass W → Pass W → Prop
  | kept (pass : Pass W) : PassStep state next label p pass pass
  | started (pass : Pass W) (own : label = .start p next.latest) :
      PassStep state next label p pass (.loading next.latest .start)
  | loaded (now : Int) (snap : SnapshotPc W) :
      PassStep state next label p (.loading now snap) (.loading now (snap.step state.wst))
  | computed (now : Int) (snap : SnapshotPc W) (finished : snap.finished = true) :
      PassStep state next label p (.loading now snap)
        (.computed now (scheduleFromSnapshots F snap.taken now hangThresholdNs))
  | published (now : Int) (result : ScheduleResult) :
      PassStep state next label p (.computed now result) .idle

variable {F} {state next : Timing W} {label : TimedMove W}

theorem step_cases (taken : step F state label = some next) : Cases F state label next := by
  unfold step at taken
  split at taken
  · simp only [Option.ite_none_right_eq_some, Option.some.injEq] at taken
    obtain ⟨⟨later, positive⟩, rfl⟩ := taken
    exact .stamp _ _ later positive
  · simp only [Option.ite_none_right_eq_some, Option.some.injEq] at taken
    obtain ⟨⟨later, _⟩, rfl⟩ := taken
    exact .start _ _ later
  · split at taken
    · next now snap loading =>
        cases taken
        exact .load _ now snap loading
    · cases taken
  · split at taken
    · next now snap loading =>
        simp only [Option.ite_none_right_eq_some, Option.some.injEq] at taken
        obtain ⟨finished, rfl⟩ := taken
        exact .compute _ now snap loading finished
    · cases taken
  · split at taken
    · next now result waiting =>
        cases taken
        exact .publish _ _ now result waiting
    · cases taken
  · simp only [Option.ite_none_right_eq_some, Option.some.injEq] at taken
    obtain ⟨⟨stamps, later⟩, rfl⟩ := taken
    exact .work _ _ stamps later

theorem step_stamp (taken : step F state label = some next) (h : Fin W) :
    next.stampOf h = state.stampOf h ∨
      label = .stamp h next.latest ∧ next.stampOf h = next.latest ∧ 0 < next.latest := by
  cases step_cases taken with
  | stamp owner now later positive =>
      by_cases same : h = owner
      · subst same
        exact .inr ⟨rfl, by simp [stampOf, WorkerSlot.storeLoopEntry], positive⟩
      · exact .inl (by simp [stampOf, same])
  | work wst latest stamps => exact .inl (stamps h)
  | _ => exact .inl rfl

theorem step_latest (taken : step F state label = some next) : state.latest ≤ next.latest := by
  cases step_cases taken with
  | stamp _ _ later | start _ _ later | work _ _ _ later => exact later
  | _ => exact le_refl _

theorem step_pass (taken : step F state label = some next) (p : Fin W) :
    PassStep F state next label p (state.pass p) (next.pass p) := by
  cases step_cases taken with
  | stamp | work => exact .kept _
  | start owner now =>
      by_cases same : p = owner
      · subst same
        simpa using PassStep.started (state.pass p) rfl
      · simpa [same] using PassStep.kept (state.pass p)
  | load owner now snap loading =>
      by_cases same : p = owner
      · subst same
        simpa [loading] using PassStep.loaded now snap
      · simpa [same] using PassStep.kept (state.pass p)
  | compute owner now snap loading finished =>
      by_cases same : p = owner
      · subst same
        simpa [loading] using PassStep.computed now snap finished
      · simpa [same] using PassStep.kept (state.pass p)
  | publish owner written now result waiting =>
      by_cases same : p = owner
      · subst same
        simpa [waiting] using PassStep.published now result
      · simpa [same] using PassStep.kept (state.pass p)

theorem step_mSel (taken : step F state label = some next) :
    next.mSel = state.mSel ∨
      ∃ p now result, state.pass p = .computed now result ∧ next.mSel = result.bitmap := by
  cases step_cases taken with
  | publish owner written now result waiting =>
      cases written
      · exact .inl rfl
      · exact .inr ⟨owner, now, result, waiting, rfl⟩
  | _ => exact .inl rfl

variable {now reading t sigma : Int} {taken : Snapshots W} {h p w : Fin W} {snap : SnapshotPc W}

theorem Loaded.step (loaded : state.Loaded now taken h) (read : now ≤ state.latest)
    (moved : step F state label = some next) : next.Loaded now taken h := by
  rcases step_stamp moved h with same | ⟨_, stamped, _⟩
  · exact loaded.imp (fun own => own.trans same.symm) fun later => same ▸ later
  · exact .inr (stamped ▸ read.trans (step_latest moved))

theorem step_inv (width : W ≤ 64) (inv : Inv F state) (moved : step F state label = some next) :
    Inv F next where
  stamps h := by
    have later := step_latest moved
    have before := inv.stamps h
    rcases step_stamp moved h with same | ⟨_, stamped, positive⟩
    · omega
    · omega
  readings p now read := by
    have later := step_latest moved
    have pass := step_pass moved p
    have before := inv.readings p now
    generalize state.pass p = old at pass before
    generalize next.pass p = new at pass read
    cases pass with
    | kept => exact (before read).trans later
    | started => simp_all [Pass.reading]
    | loaded | computed => exact (before read).trans later
    | published => simp [Pass.reading] at read
  loading p now snap loading h stamped := by
    have read := inv.readings p
    have before := inv.loading p
    have pass := step_pass moved p
    rw [loading] at pass
    generalize state.pass p = old at pass before read
    cases pass with
    | kept => exact (before now snap rfl h stamped).step (read now rfl) moved
    | started => simp [SnapshotPc.stamped, SnapshotPc.start] at stamped
    | loaded now snap =>
        rcases SnapshotPc.step_stamp state.wst snap h stamped with ⟨earlier, same⟩ | ⟨same, _⟩
        · have loaded := before now snap rfl h earlier
          unfold Loaded at loaded
          rw [← same] at loaded
          exact Loaded.step loaded (read now rfl) moved
        · exact Loaded.step (.inl same) (read now rfl) moved
  computed p now result waiting := by
    have read := inv.readings p
    have loading := inv.loading p
    have computed := inv.computed p
    have pass := step_pass moved p
    rw [waiting] at pass
    generalize state.pass p = old at pass loading computed read
    cases pass with
    | kept =>
        obtain ⟨taken, same, loaded⟩ := computed now result rfl
        exact ⟨taken, same, fun h => (loaded h).step (read now rfl) moved⟩
    | computed now snap finished =>
        exact ⟨snap.taken, rfl, fun h =>
          (loading now snap rfl h (SnapshotPc.stamped_of_finished finished h)).step (read now rfl)
            moved⟩

  named i above small := by
    rcases step_mSel moved with kept | ⟨p, now, result, waiting, published⟩
    · rw [kept]
      exact inv.named i above small
    · obtain ⟨taken, rfl, _⟩ := inv.computed p now result waiting
      rw [published]
      exact bitmap_clear_above F width taken now hangThresholdNs above small

/-- While a pass of `p` that read `reading` loads: worker `w`, whose stamp was `sigma` then, has
that stamp or a later one than the reading, in its slot and in the pass. -/
structure SinceReading (p w : Fin W) (reading sigma : Int) (state : Timing W) : Prop where
  read : reading ≤ state.latest
  slot : state.stampOf w = sigma ∨ reading ≤ state.stampOf w
  pass : ∀ now snap, state.pass p = .loading now snap → now = reading ∧
    (snap.stamped w → (snap.taken w).lastLoopEntry = sigma ∨
      reading ≤ (snap.taken w).lastLoopEntry)

def startsPass (p : Fin W) : TimedMove W → Bool
  | .start owner _ => owner == p
  | _ => false

theorem SinceReading.step (inv : SinceReading p w reading sigma state)
    (same : startsPass p label = false) (moved : step F state label = some next) :
    SinceReading p w reading sigma next where
  read := inv.read.trans (step_latest moved)
  slot := by
    rcases step_stamp moved w with kept | ⟨_, stamped, _⟩
    · rw [kept]
      exact inv.slot
    · exact .inr (stamped ▸ inv.read.trans (step_latest moved))
  pass now snap loading := by
    have before := inv.pass
    have pass := step_pass moved p
    rw [loading] at pass
    generalize state.pass p = old at pass before
    cases pass with
    | kept => exact before now snap rfl
    | started _ own => simp [own, startsPass] at same
    | loaded now snap =>
        obtain ⟨current, held⟩ := before now snap rfl
        refine ⟨current, fun stamped => ?_⟩
        rcases SnapshotPc.step_stamp state.wst snap w stamped with ⟨earlier, kept⟩ | ⟨kept, _⟩
        · rw [kept]
          exact held earlier
        · rw [kept]
          exact inv.slot

def Unstamped (p w : Fin W) (reading sigma : Int) (state : Timing W) : Prop :=
  ∀ now snap, state.pass p = .loading now snap → now = reading ∧
    (snap.stamped w → (snap.taken w).lastLoopEntry = sigma) ∧
    (¬ snap.stamped w → state.stampOf w = sigma)

def stampsEarly (p w : Fin W) (state : Timing W) : TimedMove W → Prop
  | .stamp h _ => h = w ∧ ∃ now snap, state.pass p = .loading now snap ∧ ¬ snap.stamped w
  | _ => False

theorem Unstamped.step (inv : Unstamped p w reading sigma state)
    (same : startsPass p label = false) (quiet : ¬ stampsEarly p w state label)
    (moved : step F state label = some next) : Unstamped p w reading sigma next := by
  intro now snap loading
  have slot (earlier : SnapshotPc W) (before : state.pass p = .loading reading earlier)
      (unread : ¬ earlier.stamped w) : next.stampOf w = sigma := by
    rcases step_stamp moved w with kept | ⟨rfl, _⟩
    · rw [kept]
      exact (inv reading earlier before).2.2 unread
    · exact absurd ⟨rfl, reading, earlier, before, unread⟩ quiet
  have before := inv
  unfold Unstamped at before
  have pass := step_pass moved p
  rw [loading] at pass
  generalize state.pass p = old at pass before slot
  cases pass with
  | kept =>
      obtain ⟨rfl, held, _⟩ := before now snap rfl
      exact ⟨rfl, held, slot snap rfl⟩
  | started _ own => simp [own, startsPass] at same
  | loaded now snap =>
      obtain ⟨rfl, held, current⟩ := before now snap rfl
      refine ⟨rfl, fun stamped => ?_, fun unread => ?_⟩
      · rcases SnapshotPc.step_stamp state.wst snap w stamped with ⟨earlier, kept⟩ | ⟨kept, first⟩
        · rw [kept]
          exact held earlier
        · rw [kept]
          refine current ?_
          simp [SnapshotPc.stamped, first]
      · exact slot snap rfl fun earlier => unread (SnapshotPc.stamped_step state.wst earlier)

structure Hung (h : Fin W) (t : Int) (state : Timing W) : Prop where
  -- Worker `h` has stamped `t`, and no pass that is under way read the clock before the threshold
  -- passed.
  stamp : state.stampOf h = t
  overdue : ∀ p, ∀ now ∈ (state.pass p).reading, t + hangThresholdNs ≤ now

def revives (h : Fin W) (t : Int) : TimedMove W → Bool
  -- A stamp of `h`, or a pass that starts too early to see it hung.
  | .stamp owner _ => owner == h
  | .start _ now => decide (now < t + hangThresholdNs)
  | _ => false

theorem Hung.step (inv : Hung h t state) (quiet : revives h t label = false)
    (moved : step F state label = some next) : Hung h t next where
  stamp := by
    rcases step_stamp moved h with kept | ⟨rfl, _⟩
    · exact kept.trans inv.stamp
    · simp [revives] at quiet
  overdue p now read := by
    have before := inv.overdue p
    have pass := step_pass moved p
    generalize state.pass p = old at pass before
    generalize next.pass p = new at pass read
    cases pass with
    | kept => exact before now read
    | started _ own =>
        simp only [Pass.reading, Option.mem_def, Option.some.injEq] at read
        simpa [own, revives, read] using quiet
    | loaded | computed => exact before now read
    | published => simp [Pass.reading] at read

theorem Hung.cleared (inv : Inv F state) (hung : Hung h t state) (nonzero : t ≠ 0)
    (width : W ≤ 64) {result : ScheduleResult} (waiting : state.pass p = .computed now result) :
    bit result.bitmap h = false := by
  obtain ⟨taken, rfl, loaded⟩ := inv.computed p now result waiting
  have overdue : t + hangThresholdNs ≤ now := hung.overdue p now (by simp [waiting, Pass.reading])
  have seen : (taken h).lastLoopEntry = t := by
    have stamp := hung.stamp
    rcases loaded h with own | later
    · exact own.trans stamp
    · simp only [hangThresholdNs] at overdue
      omega
  refine bitmap_clear_of_hung F width taken now hangThresholdNs fun survives => ?_
  rw [mem_stage1, seen] at survives
  omega

structure Out (h : Fin W) (t : Int) (state : Timing W) : Prop where
  -- A hung worker that M_Sel does not name, when no pass can start too early any more.
  hung : Hung h t state
  late : t + hangThresholdNs ≤ state.latest
  clear : bit state.mSel h = false

def stampsSlot (h : Fin W) : TimedMove W → Bool
  | .stamp owner _ => owner == h
  | _ => false

theorem revives_of_late (late : t + hangThresholdNs ≤ state.latest)
    (quiet : stampsSlot h label = false) (moved : step F state label = some next) :
    revives h t label = false := by
  cases step_cases moved with
  | stamp => exact quiet
  | start p now later => simpa [revives] using late.trans later
  | _ => rfl

theorem Out.step (inv : Inv F state) (out : Out h t state) (nonzero : t ≠ 0) (width : W ≤ 64)
    (quiet : stampsSlot h label = false) (moved : Timing.step F state label = some next) :
    Out h t next where
  hung := out.hung.step (revives_of_late out.late quiet moved) moved
  late := out.late.trans (step_latest moved)
  clear := by
    rcases step_mSel moved with kept | ⟨p, now, result, waiting, published⟩
    · rw [kept]
      exact out.clear
    · rw [published]
      exact out.hung.cleared inv nonzero width waiting

theorem Out.of_publish (inv : Inv F state) (hung : Hung h t state) (nonzero : t ≠ 0)
    (width : W ≤ 64) (moved : Timing.step F state (.publish p true) = some next) :
    Out h t next where
  hung := hung.step rfl moved
  late := by
    cases step_cases moved with
    | publish _ _ now result waiting =>
        have read : now ∈ (state.pass p).reading := by simp [waiting, Pass.reading]
        exact (hung.overdue p now read).trans (inv.readings p now read)
  clear := by
    cases step_cases moved with
    | publish _ _ now result waiting => exact hung.cleared inv nonzero width waiting

theorem inv_of_steps (width : W ≤ 64) (inv : Inv F state) {final : Timing W}
    (steps : Steps (step F) state final) : Inv F final :=
  Steps.preserve _ (fun _ _ _ holds moved => step_inv width holds moved) steps inv

theorem out_of_steps (width : W ≤ 64) (nonzero : t ≠ 0) (inv : Inv F state) (out : Out h t state)
    {final : Timing W}
    (steps : StepsIf (step F) (fun _ move => stampsSlot h move = false) state final) :
    Out h t final :=
  (StepsIf.preserve (fun state => Inv F state ∧ Out h t state)
    (fun _ _ _ holds quiet moved =>
      ⟨step_inv width holds.1 moved, holds.2.step holds.1 nonzero width quiet moved⟩)
    steps ⟨inv, out⟩).2

end Timing

end MicroHermes
