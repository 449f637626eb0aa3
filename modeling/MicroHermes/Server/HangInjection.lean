import MicroHermes.Lib.Text
import MicroHermes.Server.Host

set_option autoImplicit false

/-!
# Hang injection

`HERMES_HANG_INJECT`, which `main.rs` parses for `worker_loop`.
-/

namespace MicroHermes.Server

open Transition

section Parse

def durationFromMillis (millis : Nat) : Nat := millis * 1000000

def parseHangInject (raw : Option (List Char)) : Option (Nat × HangSpec) := do
  match (← raw).splitOn ':' with
  | [w, atMs, dur] =>
      let workerId ← Text.parseUnsigned 64 w
      let atMs ← Text.parseUnsigned 64 atMs
      let durMs ← Text.parseUnsigned 64 dur
      return (workerId, ⟨durationFromMillis atMs, durationFromMillis durMs⟩)
  | _ => none

def hangForThisWorker (hang : Option (Nat × HangSpec)) (workerId : Nat) : Option HangSpec :=
  (hang.filter fun planned => planned.1 = workerId).map Prod.snd

theorem parseHangInject_eq_some {raw : Option (List Char)} {workerId : Nat} {hang : HangSpec} :
    parseHangInject raw = some (workerId, hang) ↔ ∃ w atMs dur atValue durValue,
      raw = some (w ++ ':' :: (atMs ++ ':' :: dur)) ∧ Text.Numeral 64 w workerId ∧
      Text.Numeral 64 atMs atValue ∧ Text.Numeral 64 dur durValue ∧
      hang = ⟨durationFromMillis atValue, durationFromMillis durValue⟩ := by
  constructor
  · intro parsed
    simp only [parseHangInject, Option.bind_eq_bind, Option.bind_eq_some_iff] at parsed
    obtain ⟨text, rfl, parsed⟩ := parsed
    split at parsed
    · next w atMs dur parts =>
        simp only [Option.bind_eq_some_iff, Text.parseUnsigned_eq_some] at parsed
        obtain ⟨_, worker, atValue, early, durValue, short, same⟩ := parsed
        cases same
        refine ⟨w, atMs, dur, atValue, durValue, ?_, worker, early, short, rfl⟩
        have joined : [':'].intercalate (text.splitOn ':') = text := List.intercalate_splitOn ':'
        rw [parts] at joined
        rw [← joined]
        simp [List.intercalate]
    · cases parsed
  · rintro ⟨w, atMs, dur, atValue, durValue, rfl, worker, early, short, rfl⟩
    have parts : (w ++ ':' :: (atMs ++ ':' :: dur)).splitOn ':' = [w, atMs, dur] := by
      rw [List.splitOn_append_cons_self_of_not_mem (worker.not_mem (by decide) (by decide)),
        List.splitOn_append_cons_self_of_not_mem (early.not_mem (by decide) (by decide)),
        List.splitOn_eq_singleton (short.not_mem (by decide) (by decide))]
    simp only [parseHangInject, Option.bind_eq_bind, Option.bind_some, parts,
      Text.parseUnsigned_eq_some.2 worker, Text.parseUnsigned_eq_some.2 early,
      Text.parseUnsigned_eq_some.2 short]
    rfl

end Parse

section Stalls

variable {F : Type} [MetricArith F] {W : Nat} {cfg : Config W} {i : Fin W} {wst : Wst W}
  {w w' : Worker W} {sys : Sys} {op : MemOp} {start : Int}

def Pc.stalling : Pc W → Bool
  | .hangSleep => true
  | _ => false

def Act.ends (i : Fin W) : Act W → Bool
  -- The step that a sleeping worker takes when it wakes up.
  | .worker j .internal => j = i
  | _ => false

def Worker.pending (w : Worker W) : Nat := if w.hangPending.isSome then 1 else 0

variable (F) (cfg) (i) in
def Host.stalls : Host W → List (Act W) → Nat
  | _, [] => 0
  | host, act :: rest =>
      (if (host.workers i).pc.stalling && act.ends i then 1 else 0) +
        match Host.step F cfg host act with
        | some next => stalls next rest
        | none => 0

structure Stalling (cfg : Config W) (i : Fin W) (start : Int) (w : Worker W) : Prop where
  pending : w.pc.stalling = true → w.hangPending.isSome = true
  planned : ∀ hang, w.hangPending = some hang → cfg.hang i = some hang
  start : w.start = start

inductive HangMoves (w : Worker W) (sys : Sys) (w' : Worker W) : Prop where
  | sleeps (now : Int) (hang : HangSpec) (read : sys = .clock now) (asleep : w'.pc = .hangSleep)
      (awake : w.pc.stalling = false) (kept : w'.hangPending = w.hangPending)
      (planned : w.hangPending = some hang) (due : hang.atNs ≤ now - w.start)
  | wakes (here : w.pc = .hangSleep) (own : sys = .internal) (used : w'.hangPending = none)
      (awake : w'.pc.stalling = false)
  | other (before : w.pc.stalling = false) (after : w'.pc.stalling = false)
      (kept : w'.hangPending = w.hangPending)

theorem Moves.hangMoves (moved : Moves F cfg i wst w sys op w') :
    w'.start = w.start ∧ HangMoves w sys w' := by
  refine ⟨by cases moved <;> rfl, ?_⟩
  cases moved with
  | hang now hang here planned due =>
      exact .sleeps now hang rfl rfl (by rw [here]; rfl) rfl planned due
  | hangSleep here => exact .wakes here rfl rfl rfl
  | batchDone here =>
      refine .other (by rw [here]; rfl) ?_ rfl
      split <;> rfl
  | shutdown here | enter here | stamp _ here | noHang here | hangLater _ _ here | ready _ here
  | timeout here | interrupted here | waitFailed _ here | addPending here | listener _ _ here
  | hangup _ _ here | readable _ _ here | accepted _ here | acceptFailed _ here | addConn _ here
  | registered _ here | registerFailed _ here | closeFailed _ here | subFailed here | eof _ here
  | data _ _ _ here | strayData _ _ here | drained _ _ here | readFailed _ _ here
  | strayProcess _ here | partialHeader _ _ here | badMagic _ _ here | request _ _ _ here
  | execute _ _ here | wrotePart _ _ _ _ _ here | wroteAll _ _ _ _ _ here
  | writeRetry _ _ _ _ here | writeFailed _ _ _ _ _ here | ctlDel _ here | close _ here
  | subConn here | subPending here | scheduleNow _ here | load _ _ here | filter _ _ here
  | publish _ here | publishFailed _ here | tick here | tickFailed here =>
      exact .other (by rw [here]; rfl) rfl rfl

theorem Stalling.step (inv : Stalling cfg i start w) (moved : Moves F cfg i wst w sys op w') :
    Stalling cfg i start w' := by
  obtain ⟨same, hang⟩ := moved.hangMoves
  have begun := same.trans inv.start
  cases hang with
  | sleeps now hang _ _ _ kept planned _ =>
      exact ⟨fun _ => by rw [kept, planned]; rfl, by rw [kept]; exact inv.planned, begun⟩
  | wakes _ _ used awake =>
      exact ⟨by simp [awake], by simp [used], begun⟩
  | other _ after kept =>
      exact ⟨by simp [after], by rw [kept]; exact inv.planned, begun⟩

variable {host next final : Host W} {act : Act W} {acts : List (Act W)}

theorem Host.stall_step (inv : Stalling cfg i start (host.workers i))
    (taken : Host.step F cfg host act = some next) :
    Stalling cfg i start (next.workers i) ∧
      (if (host.workers i).pc.stalling && act.ends i then 1 else 0) + (next.workers i).pending =
        (host.workers i).pending := by
  cases act with
  | outside j event =>
      simp only [Host.step, Option.some.injEq] at taken
      subst taken
      exact ⟨inv, by simp [Act.ends]⟩
  | worker j sys =>
      obtain ⟨op, w, moved, rfl⟩ := Host.step_worker taken
      by_cases own : j = i
      · subst own
        simp only [Function.update_self]
        refine ⟨inv.step moved, ?_⟩
        cases moved.hangMoves.2 with
        | sleeps _ _ _ _ awake kept => simp [awake, Worker.pending, kept]
        | wakes here internal used =>
            have waiting := inv.pending (by rw [here]; rfl)
            simp [here, internal, Pc.stalling, Act.ends, Worker.pending, used, waiting]
        | other before _ kept => simp [before, Worker.pending, kept]
      · have apart : i ≠ j := Ne.symm own
        simp only [Function.update_of_ne apart]
        refine ⟨inv, ?_⟩
        have idle : (Act.worker j sys).ends i = false := by
          cases sys <;> simp [Act.ends, own]
        simp [idle]

theorem Host.stalls_add_pending (inv : Stalling cfg i start (host.workers i))
    (run : exec (Host.step F cfg) host acts = some final) :
    Stalling cfg i start (final.workers i) ∧
      Host.stalls F cfg i host acts + (final.workers i).pending = (host.workers i).pending := by
  induction acts generalizing host with
  | nil =>
      simp only [exec_nil, Option.some.injEq] at run
      subst run
      exact ⟨inv, Nat.zero_add _⟩
  | cons act rest ih =>
      simp only [exec_cons, Option.bind_eq_some_iff] at run
      obtain ⟨next, taken, later⟩ := run
      obtain ⟨stalling, once⟩ := Host.stall_step inv taken
      obtain ⟨last, sum⟩ := ih stalling later
      refine ⟨last, ?_⟩
      rw [Host.stalls, taken, Nat.add_assoc, sum, once]

theorem hangForThisWorker_some (workerId : Nat) (hang : HangSpec) (i : Nat) :
    hangForThisWorker (some (workerId, hang)) i = if i = workerId then some hang else none := by
  by_cases same : i = workerId
  · simp [hangForThisWorker, same]
  · simp [hangForThisWorker, same, Ne.symm same]

theorem Stalling.initial (cfg : Config W) (i : Fin W) (start : Int) :
    Stalling cfg i start (Worker.initial cfg i start) :=
  ⟨nofun, fun _ planned => planned, rfl⟩

theorem Host.hang_injected {start : Fin W → Int} (raw : Option (List Char))
    (planned : ∀ i : Fin W, cfg.hang i = hangForThisWorker (parseHangInject raw) i)
    (run : exec (Host.step F cfg) (Host.initial cfg start) acts = some host) (i : Fin W) :
    ((∀ w atMs dur workerId atValue durValue, raw = some (w ++ ':' :: (atMs ++ ':' :: dur)) →
        ¬ (Text.Numeral 64 w workerId ∧ Text.Numeral 64 atMs atValue ∧
          Text.Numeral 64 dur durValue)) →
      Host.stalls F cfg i (Host.initial cfg start) acts = 0) ∧
    ∀ w atMs dur workerId atValue durValue, raw = some (w ++ ':' :: (atMs ++ ':' :: dur)) →
      Text.Numeral 64 w workerId → Text.Numeral 64 atMs atValue → Text.Numeral 64 dur durValue →
      Host.stalls F cfg i (Host.initial cfg start) acts + (host.workers i).pending =
        (if i.val = workerId then 1 else 0) ∧
      ∀ act next, Host.step F cfg host act = some next → (host.workers i).pc.stalling = false →
        (next.workers i).pc.stalling = true → i.val = workerId ∧
          ∃ now, act = .worker i (.clock now) ∧ durationFromMillis atValue ≤ now - start i := by
  obtain ⟨inv, sum⟩ := Host.stalls_add_pending (Stalling.initial cfg i (start i)) run
  have first : ((Host.initial cfg start).workers i).pending =
      if (hangForThisWorker (parseHangInject raw) i).isSome then 1 else 0 := by
    rw [← planned]
    rfl
  rw [first] at sum
  refine ⟨fun malformed => ?_, ?_⟩
  · have nothing : parseHangInject raw = none := by
      rw [Option.eq_none_iff_forall_ne_some]
      rintro ⟨workerId, hang⟩ parsed
      obtain ⟨w, atMs, dur, atValue, durValue, shape, worker, early, short, _⟩ :=
        parseHangInject_eq_some.1 parsed
      exact malformed w atMs dur workerId atValue durValue shape ⟨worker, early, short⟩
    rw [nothing] at sum
    exact (Nat.add_eq_zero_iff.1 sum).1
  intro w atMs dur workerId atValue durValue shape worker early short
  have plan := fun i => hangForThisWorker_some workerId
    ⟨durationFromMillis atValue, durationFromMillis durValue⟩ i
  have parsed := parseHangInject_eq_some.2
    ⟨w, atMs, dur, atValue, durValue, shape, worker, early, short, rfl⟩
  rw [parsed] at planned sum
  simp only [plan] at planned sum
  refine ⟨?_, ?_⟩
  · rw [sum]
    split <;> rfl
  intro act next taken awake asleep
  cases act with
  | outside j event =>
      simp only [Host.step, Option.some.injEq] at taken
      rw [← taken, awake] at asleep
      cases asleep
  | worker j sys =>
      obtain ⟨op, w, moved, rfl⟩ := Host.step_worker taken
      by_cases own : j = i
      · subst own
        simp only [Function.update_self] at asleep
        cases moved.hangMoves.2 with
        | sleeps now hang read _ _ _ pending due =>
            have named := (planned j).symm.trans (inv.planned hang pending)
            rw [Option.ite_none_right_eq_some] at named
            obtain ⟨named, same⟩ := named
            cases same
            rw [inv.start] at due
            exact ⟨named, now, by rw [read], due⟩
        | wakes _ _ _ up | other _ up =>
            rw [up] at asleep
            cases asleep
      · simp only [Function.update_of_ne (Ne.symm own), awake, Bool.false_eq_true] at asleep

end Stalls

def hungRun : List (Act 1) :=
  -- The first pass is too early for the hang, the second one sleeps.
  soloRun ([.shutdown false, .clock 5, .clock 6, .epollWait (.ok [])] ++ endBatch ++
    [.shutdown false, .clock 1000005, .clock 1000006, .internal])

theorem Host.hang_injected_second_pass :
    let cfg : Config 1 := { soloConfig .reuseport with hang := fun _ => some ⟨1000000, 5000000⟩ }
    ∃ host, exec (Host.step Rat cfg) (Host.initial cfg fun _ => 0) hungRun = some host ∧
      Host.stalls Rat cfg 0 (Host.initial cfg fun _ => 0) hungRun + (host.workers 0).pending = 1 := by
  intro cfg
  have possible : (exec (Host.step Rat cfg) (Host.initial cfg fun _ => 0) hungRun).isSome := by
    decide +kernel
  obtain ⟨host, run⟩ := Option.isSome_iff_exists.1 possible
  -- The value is `+0:01:5`.
  have worker : Text.Numeral 64 ['+', '0'] 0 :=
    ⟨⟨['0'], .inr rfl, by simp, by simp, by decide⟩, by decide⟩
  have early : Text.Numeral 64 ['0', '1'] 1 :=
    ⟨⟨['0', '1'], .inl rfl, by simp, by simp, by decide⟩, by decide⟩
  have short : Text.Numeral 64 ['5'] 5 :=
    ⟨⟨['5'], .inl rfl, by simp, by simp, by decide⟩, by decide⟩
  have parsed : parseHangInject (some ['+', '0', ':', '0', '1', ':', '5']) =
      some (0, ⟨1000000, 5000000⟩) :=
    parseHangInject_eq_some.2 ⟨_, _, _, _, _, rfl, worker, early, short, rfl⟩
  have planned : ∀ i : Fin 1, cfg.hang i =
      hangForThisWorker (parseHangInject (some ['+', '0', ':', '0', '1', ':', '5'])) i := by
    intro i
    rw [parsed, hangForThisWorker_some, if_pos (by omega)]
  exact ⟨host, run, ((Host.hang_injected _ planned run 0).2 _ _ _ 0 1 5 rfl worker early short).1⟩

end MicroHermes.Server
