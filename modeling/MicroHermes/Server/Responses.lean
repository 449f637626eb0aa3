import MicroHermes.Server.Framing

set_option autoImplicit false

/-!
# Responses

`write_all` of `hermes/src/worker.rs`.
-/

namespace MicroHermes.Server

open Transition Blocks

inductive WriteAll where
  | writing (off spins : Nat)
  | returned (result : SysRet Unit)
  deriving DecidableEq

section WriteAll

variable (buf : List UInt8)

def writeAll : WriteAll := if buf.isEmpty then .returned (.ok ()) else .writing 0 0

def writeAllStep : WriteAll → SysRet Nat → Option WriteAll
  -- One `write` of what remains: a positive count that is at most that, or an error.
  | .writing off spins, .ok count =>
      if 0 < count ∧ off + count ≤ buf.length then
        some (if off + count < buf.length then .writing (off + count) spins
          else .returned (.ok ()))
      else none
  | .writing off spins, .err errno =>
      some (if errno = eagain ∧ spins < maxSpins then .writing off (spins + 1)
        else .returned (.err errno))
  | .returned _, _ => none

def keepSent : WriteAll → SysRet Nat → List UInt8 → List UInt8
  | .writing off _, .ok count, sent => sent ++ (buf.drop off).take count
  | _, _, sent => sent

def WriteAll.left : WriteAll → Nat
  -- The calls of `write` that can still come.
  | .writing off spins => buf.length - off + (maxSpins - spins) + 1
  | .returned _ => 0

inductive WriteInv : WriteAll → List UInt8 → Prop
  | writing (off spins : Nat) (inside : off < buf.length) (few : spins ≤ maxSpins) :
      WriteInv (.writing off spins) (buf.take off)
  | done : WriteInv (.returned (.ok ())) buf
  | failed (off : Nat) (errno : Errno) (inside : off < buf.length) :
      WriteInv (.returned (.err errno)) (buf.take off)

variable {buf}

theorem writeInv_start : WriteInv buf (writeAll buf) [] := by
  cases buf with
  | nil => exact .done
  | cons first rest => exact .writing 0 0 (Nat.succ_pos _) (Nat.zero_le _)

theorem writeAllStep_inv {state next : WriteAll} {sent : List UInt8} {ret : SysRet Nat}
    (inv : WriteInv buf state sent) (taken : writeAllStep buf state ret = some next) :
    WriteInv buf next (keepSent buf state ret sent) ∧ next.left buf < state.left buf := by
  cases inv with
  | done | failed _ _ _ => cases taken
  | writing off spins inside few =>
      cases ret with
      | ok count =>
          simp only [writeAllStep, Option.ite_none_right_eq_some, Option.some.injEq] at taken
          obtain ⟨⟨positive, fits⟩, rfl⟩ := taken
          simp only [keepSent, ← List.take_add]
          split
          · next part =>
              refine ⟨.writing _ _ part few, ?_⟩
              simp only [WriteAll.left]
              omega
          · next whole =>
              have all : off + count = buf.length := by omega
              rw [all, List.take_length]
              exact ⟨.done, Nat.succ_pos _⟩
      | err errno =>
          simp only [writeAllStep, Option.some.injEq] at taken
          subst taken
          simp only [keepSent]
          split
          · next again =>
              refine ⟨.writing _ _ inside again.2, ?_⟩
              simp only [WriteAll.left]
              omega
          · exact ⟨.failed off errno inside, Nat.succ_pos _⟩

theorem writeAll_left : (writeAll buf).left buf ≤ buf.length + 1001 := by
  cases buf with
  | nil => exact Nat.zero_le _
  | cons first rest => exact le_of_eq (by simp [writeAll, WriteAll.left, maxSpins])

theorem WriteInv.sent_prefix {state : WriteAll} {sent : List UInt8}
    (inv : WriteInv buf state sent) :
    sent <+: buf ∧ (sent = buf ↔ state = .returned (.ok ())) := by
  have short {off : Nat} (inside : off < buf.length) : buf.take off ≠ buf := by
    intro same
    have length := congrArg List.length same
    rw [List.length_take] at length
    omega
  cases inv with
  | writing off spins inside few =>
      exact ⟨List.take_prefix .., by simp [short inside]⟩
  | done => exact ⟨List.prefix_rfl, by simp⟩
  | failed off errno inside =>
      exact ⟨List.take_prefix .., by simp [short inside]⟩

theorem writeAll_spec {rets : List (SysRet Nat)} {state : WriteAll} {sent : List UInt8}
    (run : exec (observed (writeAllStep buf) (keepSent buf)) (writeAll buf, []) rets =
      some (state, sent)) :
    rets.length ≤ buf.length + 1001 ∧ sent <+: buf ∧
      (sent = buf ↔ state = .returned (.ok ())) ∧
      ∀ off spins, state = .writing off spins → off = sent.length ∧
        (∀ count, 0 < count → sent.length + count ≤ buf.length →
          (writeAllStep buf state (.ok count)).isSome) ∧
        ∀ errno, (writeAllStep buf state (.err errno)).isSome := by
  have moves (state : WriteAll × List UInt8) (ret : SysRet Nat) (next : WriteAll × List UInt8)
      (inv : WriteInv buf state.1 state.2)
      (taken : observed (writeAllStep buf) (keepSent buf) state ret = some next) :
      WriteInv buf next.1 next.2 ∧ next.1.left buf < state.1.left buf := by
    obtain ⟨moved, kept⟩ := (observed_eq_some ..).1 taken
    exact kept ▸ writeAllStep_inv inv moved
  have uses : rets.length + state.left buf ≤ (writeAll buf).left buf :=
    exec_length _ (fun state => state.1.left buf) moves run writeInv_start
  have inv : WriteInv buf state sent :=
    (exec_steps run).preserve (fun state => WriteInv buf state.1 state.2)
      (fun state ret next inv taken => (moves state ret next inv taken).1) writeInv_start
  have start : (writeAll buf).left buf ≤ buf.length + 1001 := writeAll_left
  obtain ⟨before, whole⟩ := inv.sent_prefix
  refine ⟨by omega, before, whole, ?_⟩
  rintro off spins rfl
  cases inv with
  | writing off spins inside few =>
      have length : (buf.take off).length = off := by
        rw [List.length_take]
        omega
      refine ⟨length.symm, fun count positive fits => ?_, fun errno => rfl⟩
      rw [length] at fits
      simp [writeAllStep, positive, fits]

end WriteAll

section Connection

variable {W : Nat} {i : Fin W}

/-- What is missing of the last response: nothing, or a last part of it. -/
def Cut (i : Fin W) (executed : List Request) (owed : List UInt8) : Prop :=
  owed = [] ∨ ∃ earlier request, executed = earlier ++ [request] ∧ owed ≠ [] ∧
    owed <:+ responseTo i request

inductive Place (rest owed : List UInt8) (stream : Stream) : Option ConnState → Phase → Prop
  | idle (whole : owed = []) (stillOpen : stream.closed = false) :
      Place rest owed stream (some ⟨rest⟩) .idle
  | reading (whole : owed = []) (stillOpen : stream.closed = false) :
      Place rest owed stream (some ⟨rest⟩) .reading
  | processing (whole : owed = []) (stillOpen : stream.closed = false) :
      Place rest owed stream (some ⟨rest⟩) .processing
  | executing (request : Request) (whole : owed = []) (stillOpen : stream.closed = false) :
      Place rest owed stream (some ⟨rest⟩) (.executing request)
  | writing (spins : Nat) (more : owed ≠ []) (stillOpen : stream.closed = false) :
      Place rest owed stream (some ⟨rest⟩) (.writing owed spins)
  | ending (held : Option ConnState) (stillOpen : stream.closed = false) :
      Place rest owed stream held .ending
  | gone (isClosed : stream.closed = true) : Place rest owed stream none .idle

def Responding (i : Fin W) (phase : Phase) (held : Option ConnState) (stream : Stream) : Prop :=
  ∃ done rest owed, Parsed i phase.due owed done rest stream ∧ Cut i stream.executed owed ∧
    Place rest owed stream held phase

variable {state : ConnState} {stream : Stream} {bytes left : List UInt8} {request : Request}
  {spins : Nat} {held : Option ConnState}

theorem Responding.fresh : Responding i .idle (some ⟨[]⟩) .fresh :=
  ⟨[], [], [], ⟨rfl, by simp, rfl, rfl⟩, .inl rfl, .idle rfl rfl⟩

theorem Responding.moved {after : Stream} {phase phase' : Phase} {held' : Option ConnState}
    (inv : Responding i phase held stream) (due : phase'.due = phase.due)
    (received : after.received = stream.received) (executed : after.executed = stream.executed)
    (sent : after.sent = stream.sent)
    (place : ∀ rest owed, Place rest owed stream held phase → Place rest owed after held' phase') :
    Responding i phase' held' after := by
  -- A step that adds nothing to what is received, executed and sent.
  obtain ⟨done, rest, owed, parsed, cut, here⟩ := inv
  refine ⟨done, rest, owed, ⟨?_, parsed.full, ?_, ?_⟩, executed ▸ cut, place rest owed here⟩
  · rw [received, parsed.split]
  · rw [executed, due, parsed.decoded]
  · rw [sent, executed, parsed.answered]

theorem Responding.startReading (inv : Responding i .idle (some state) stream) :
    Responding i .reading (some state) stream :=
  inv.moved rfl rfl rfl rfl fun rest owed place => by
    cases place with
    | idle whole stillOpen => exact .reading whole stillOpen

theorem Responding.hangup (inv : Responding i .idle (some state) stream) :
    Responding i .ending (some state) stream :=
  inv.moved rfl rfl rfl rfl fun rest owed place => by
    cases place with
    | idle whole stillOpen => exact .ending _ stillOpen

theorem Responding.data (inv : Responding i .reading (some state) stream) (eof : Bool) :
    Responding i .reading (some ⟨state.buf ++ bytes⟩)
      { stream with received := stream.received ++ bytes, eof } := by
  obtain ⟨done, rest, owed, parsed, cut, place⟩ := inv
  cases place with
  | reading whole stillOpen =>
      refine ⟨done, rest ++ bytes, owed, ⟨?_, parsed.full, parsed.decoded, parsed.answered⟩, cut,
        .reading whole stillOpen⟩
      simp only [parsed.split, List.append_assoc]

theorem Responding.endRead (inv : Responding i .reading (some state) stream) {after : Stream}
    (received : after.received = stream.received) (executed : after.executed = stream.executed)
    (sent : after.sent = stream.sent) (closed : after.closed = stream.closed) :
    Responding i .ending (some state) after :=
  inv.moved rfl received executed sent fun rest owed place => by
    cases place with
    | reading whole stillOpen => exact .ending _ (closed.trans stillOpen)

theorem Responding.drain (inv : Responding i .reading (some state) stream) :
    Responding i .processing (some state) { stream with drained := stream.received } :=
  inv.moved rfl rfl rfl rfl fun rest owed place => by
    cases place with
    | reading whole stillOpen => exact .processing whole stillOpen

theorem Responding.finish (inv : Responding i .processing (some state) stream) :
    Responding i .idle (some state) stream :=
  inv.moved rfl rfl rfl rfl fun rest owed place => by
    cases place with
    | processing whole stillOpen => exact .idle whole stillOpen

theorem Responding.badMagic (inv : Responding i .processing (some state) stream)
    (held : Option ConnState) : Responding i .ending held stream :=
  inv.moved rfl rfl rfl rfl fun rest owed place => by
    cases place with
    | processing whole stillOpen => exact .ending held stillOpen

theorem Responding.takeRequest (inv : Responding i .processing (some state) stream)
    (long : ¬ state.buf.length < requestHeaderLen)
    (good : decodeRequest (header state.buf long) = some request) :
    Responding i (.executing request) (some ⟨state.buf.drop requestHeaderLen⟩) stream := by
  obtain ⟨done, rest, owed, parsed, cut, place⟩ := inv
  cases place with
  | processing whole stillOpen =>
      exact ⟨_, _, owed, parsed.takeRequest long good, cut, .executing request whole stillOpen⟩

theorem responseTo_length (request : Request) : (responseTo i request).length = responseLen :=
  (encodeResponse request.seq (UInt32.ofNat i.val) request.sendNs zeroResponse).2

theorem Responding.execute (inv : Responding i (.executing request) (some state) stream) :
    Responding i (.writing ((responseTo i request).drop 0) 0) (some state)
      { stream with executed := stream.executed ++ [request], refused := 0 } := by
  obtain ⟨done, rest, owed, parsed, cut, place⟩ := inv
  have some : responseTo i request ≠ [] := by
    intro none
    have length := responseTo_length (i := i) request
    rw [none] at length
    exact absurd length (by decide)
  cases place with
  | executing request whole stillOpen =>
      have answered := parsed.answered
      rw [whole, List.append_nil] at answered
      refine ⟨done, rest, responseTo i request, ⟨parsed.split, parsed.full, ?_, ?_⟩,
        .inr ⟨stream.executed, request, rfl, some, List.suffix_rfl⟩, .writing 0 some stillOpen⟩
      · simpa [Phase.due] using parsed.decoded
      · simp [answered]

theorem Responding.wrote {count : Nat} (inv : Responding i (.writing left spins) (some state) stream)
    (part : count < left.length) :
    Responding i (.writing (left.drop count) spins) (some state)
      { stream with sent := stream.sent ++ left.take count } := by
  obtain ⟨done, rest, owed, parsed, cut, place⟩ := inv
  cases place with
  | writing _ more stillOpen =>
      obtain ⟨earlier, request, last, _, suffix⟩ := cut.resolve_left more
      have still : left.drop count ≠ [] := by
        rw [ne_eq, List.drop_eq_nil_iff]
        omega
      refine ⟨done, rest, left.drop count, ⟨parsed.split, parsed.full, parsed.decoded, ?_⟩,
        .inr ⟨earlier, request, last, still, (List.drop_suffix ..).trans suffix⟩,
        .writing spins still stillOpen⟩
      simpa using parsed.answered

theorem Responding.answered (inv : Responding i (.writing left spins) (some state) stream) :
    Responding i .processing (some state) { stream with sent := stream.sent ++ left } := by
  obtain ⟨done, rest, owed, parsed, cut, place⟩ := inv
  cases place with
  | writing _ more stillOpen =>
      refine ⟨done, rest, [], ⟨parsed.split, parsed.full, parsed.decoded, ?_⟩, .inl rfl,
        .processing rfl stillOpen⟩
      simpa using parsed.answered

theorem Responding.refuse (inv : Responding i (.writing left spins) (some state) stream)
    {after : Stream} (received : after.received = stream.received)
    (executed : after.executed = stream.executed) (sent : after.sent = stream.sent)
    (closed : after.closed = stream.closed) :
    Responding i (.writing left (spins + 1)) (some state) after :=
  inv.moved rfl received executed sent fun rest owed place => by
    cases place with
    | writing _ more stillOpen => exact .writing (spins + 1) more (closed.trans stillOpen)

theorem Responding.endWrite (inv : Responding i (.writing left spins) (some state) stream)
    {after : Stream} (received : after.received = stream.received)
    (executed : after.executed = stream.executed) (sent : after.sent = stream.sent)
    (closed : after.closed = stream.closed) : Responding i .ending (some state) after :=
  inv.moved rfl received executed sent fun rest owed place => by
    cases place with
    | writing _ more stillOpen => exact .ending _ (closed.trans stillOpen)

theorem Responding.close (inv : Responding i .ending held stream) :
    Responding i .idle none { stream with closed := true } :=
  inv.moved rfl rfl rfl rfl fun _ _ _ => .gone rfl

theorem Responding.closeAgain (inv : Responding i .idle none stream) :
    Responding i .idle none { stream with closed := true } :=
  inv.moved rfl rfl rfl rfl fun _ _ _ => .gone rfl

end Connection

section Invariant

variable {F : Type} [MetricArith F] {W : Nat} {cfg : Config W} {i : Fin W} {w w' : Worker W}
  {slot : WorkerSlot} {table : FdTable} {wst : Wst W} {sys : Sys} {op : MemOp} {fd : RawFd}
  {stream : Stream}

theorem Responding.mark_failed {phase : Phase} {held : Option ConnState}
    (inv : Responding i phase held stream) : Responding i phase held { stream with failed := true } :=
  inv.moved rfl rfl rfl rfl fun rest owed place => by
    cases place with
    | idle whole stillOpen => exact .idle whole stillOpen
    | reading whole stillOpen => exact .reading whole stillOpen
    | processing whole stillOpen => exact .processing whole stillOpen
    | executing request whole stillOpen => exact .executing request whole stillOpen
    | writing spins more stillOpen => exact .writing spins more stillOpen
    | ending held stillOpen => exact .ending held stillOpen
    | gone isClosed => exact .gone isClosed

theorem Responding.step (accounted : Accounted cfg i w slot table)
    (before : Responding i (w.pc.phase fd) (w.conns.lookup fd) stream)
    (moved : Moves F cfg i wst w sys op w') (kept : sys ≠ .ctlAdd fd true) :
    Responding i (w'.pc.phase fd) (w'.conns.lookup fd) (stream.observe fd sys) := by
  have concerned := connMoves_of_moves stream accounted moved kept
  generalize w.pc.phase fd = phase, w.conns.lookup fd = held at before concerned
  generalize w'.pc.phase fd = phase', w'.conns.lookup fd = held', stream.observe fd sys = after
    at concerned ⊢
  cases concerned with
  | kept => exact before
  | reported => exact before.mark_failed
  | hungUp => exact before.hangup
  | readable => exact before.startReading
  | data => exact before.data _
  | eof => exact before.endRead (List.append_nil _) rfl rfl rfl
  | drained => exact before.drain
  | readFailed => exact before.endRead rfl rfl rfl rfl
  | partialHeader => exact before.finish
  | badMagic => exact before.badMagic _
  | request state request long good => exact before.takeRequest long good
  | execute => exact before.execute
  | wrotePart state left spins count part => exact before.wrote part
  | wroteAll => exact before.answered
  | writeRetry => split <;> exact before.refuse rfl rfl rfl rfl
  | writeFailed => split <;> exact before.endWrite rfl rfl rfl rfl
  | close => exact before.close
  | closeAgain => exact before.closeAgain

theorem Responding.shape {phase : Phase} {held : Option ConnState}
    (inv : Responding i phase held stream) :
    stream.executed <+: requestsOf stream.received ∧
      ∃ answered cut, stream.sent = answered.flatMap (responseTo i) ++ cut ∧
        (stream.executed = answered ∧ cut = [] ∨
          ∃ request, stream.executed = answered ++ [request] ∧ cut <+: responseTo i request ∧
            cut ≠ responseTo i request ∧
            ((∃ left spins, phase = .writing left spins ∧ cut ++ left = responseTo i request) ∨
              phase = .ending ∨ stream.closed = true)) := by
  obtain ⟨done, rest, owed, parsed, cut, place⟩ := inv
  refine ⟨?_, ?_⟩
  · rw [parsed.requests_received, List.append_assoc]
    exact List.prefix_append ..
  · have answered := parsed.answered
    rcases cut with rfl | ⟨earlier, request, last, more, written, whole⟩
    · exact ⟨stream.executed, [], by simpa using answered, .inl ⟨rfl, rfl⟩⟩
    · have sent : stream.sent = earlier.flatMap (responseTo i) ++ written := by
        rw [last, List.flatMap_append, List.flatMap_singleton, ← whole, ← List.append_assoc] at answered
        exact List.append_cancel_right answered
      refine ⟨earlier, written, sent, .inr ⟨request, last, ⟨owed, whole⟩, fun same => more ?_, ?_⟩⟩
      · rwa [← same, List.append_right_eq_self] at whole
      · cases place with
        | idle none | reading none | processing none | executing _ none => exact absurd none more
        | writing spins => exact .inl ⟨owed, spins, rfl, whole⟩
        | ending => exact .inr (.inl rfl)
        | gone isClosed => exact .inr (.inr isClosed)

theorem Pc.of_writing {pc : Pc W} {left : List UInt8} {spins : Nat}
    (writing : pc.phase fd = .writing left spins) :
    ∃ resp off, pc = .write fd resp off spins ∧ left = resp.drop off := by
  cases pc with
  | write target resp off spins =>
      simp only [Pc.phase] at writing
      split at writing
      · next same =>
          obtain ⟨rfl, rfl⟩ := Phase.writing.inj writing
          exact ⟨resp, off, by rw [same], rfl⟩
      · cases writing
  | read _ | process _ | execute _ _ | ctlDel _ | close _ =>
      simp only [Pc.phase] at writing
      split at writing <;> cases writing
  | _ => cases writing

theorem Pc.of_ending {pc : Pc W} (ending : pc.phase fd = .ending) :
    pc = .ctlDel fd ∨ pc = .close fd := by
  cases pc with
  | ctlDel target | close target =>
      simp only [Pc.phase] at ending
      split at ending
      · next same => simp [same]
      · cases ending
  | read _ | process _ | execute _ _ | write _ _ _ _ =>
      simp only [Pc.phase] at ending
      split at ending <;> cases ending
  | _ => cases ending

theorem Responding.phase_of_closed {phase : Phase} {held : Option ConnState}
    (inv : Responding i phase held stream) (isClosed : stream.closed = true) : phase = .idle := by
  obtain ⟨done, rest, owed, parsed, cut, place⟩ := inv
  cases place with
  | gone => rfl
  | idle _ stillOpen | reading _ stillOpen | processing _ stillOpen | executing _ _ stillOpen
  | writing _ _ stillOpen | ending _ stillOpen =>
      exact Bool.noConfusion (isClosed.symm.trans stillOpen)

variable (stream) in
theorem Stream.observe_quiet (moved : Moves F cfg i wst w sys op w')
    (quiet : w.pc.phase fd = .idle ∨ w.pc.phase fd = .ending) :
    (stream.observe fd sys).sent = stream.sent ∧
      (stream.observe fd sys).executed = stream.executed ∧
      (stream.closed = true → (stream.observe fd sys).closed = true) := by
  cases moved with
  | execute target request here | wrotePart target _ _ _ _ here | wroteAll target _ _ _ _ here =>
      have other : target ≠ fd := by
        rintro rfl
        simp [here, Pc.phase] at quiet
      simp [Stream.observe, other]
  | _ =>
      simp only [Stream.observe]
      (repeat' split) <;> simp

theorem ctlDel_moves (here : w.pc = .ctlDel fd) (moved : Moves F cfg i wst w sys op w') :
    w'.pc = .close fd := by
  cases moved <;> simp_all

theorem close_moves (here : w.pc = .close fd) (moved : Moves F cfg i wst w sys op w') :
    sys = .close fd := by
  cases moved <;> simp_all

def resume (fd : RawFd) (resp : List UInt8) (w : Worker W) : WriteAll → Worker W
  | .writing off spins => { w with pc := .write fd resp off spins }
  | .returned (.ok _) => { w with pc := .process fd }
  | .returned (.err _) => { w with pc := .ctlDel fd }

theorem write_moves {resp : List UInt8} {off spins : Nat} (here : w.pc = .write fd resp off spins)
    (moved : Moves F cfg i wst w sys op w') :
    ∃ ret next, sys = .write fd (resp.drop off) ret ∧
      writeAllStep resp (.writing off spins) ret = some next ∧ w' = resume fd resp w next := by
  -- The worker's writes are those of `write_all` on the response.
  cases moved with
  | wrotePart target _ _ _ count pc positive part =>
      obtain ⟨rfl, rfl, rfl, rfl⟩ := Pc.write.inj (here.symm.trans pc)
      exact ⟨_, .writing (off + count) spins, rfl, by simp [writeAllStep, positive, part, part.le],
        rfl⟩
  | wroteAll target _ _ _ count pc positive all =>
      obtain ⟨rfl, rfl, rfl, rfl⟩ := Pc.write.inj (here.symm.trans pc)
      exact ⟨_, .returned (.ok ()), rfl, by simp [writeAllStep, positive, all], rfl⟩
  | writeRetry target _ _ _ pc few =>
      obtain ⟨rfl, rfl, rfl, rfl⟩ := Pc.write.inj (here.symm.trans pc)
      exact ⟨_, .writing off (spins + 1), rfl, by simp [writeAllStep, few], rfl⟩
  | writeFailed target _ _ _ errno pc real =>
      obtain ⟨rfl, rfl, rfl, rfl⟩ := Pc.write.inj (here.symm.trans pc)
      exact ⟨_, .returned (.err errno), rfl, by rw [writeAllStep, if_neg real], rfl⟩
  | _ => simp [here] at *

end Invariant

section Runs

variable {F : Type} [MetricArith F] {W : Nat} {cfg : Config W} {start : Fin W → Int}
  {state next final : Host W × (Fin W → Sockets)}

theorem Host.responding
    (steps : Steps (product (Host.step F cfg) (socketStep cfg))
      (Host.initial cfg start, Sockets.initial cfg) state) (i : Fin W) :
    Accounted cfg i (state.1.workers i) (state.1.shared.wst i) (state.2 i).table ∧
      ∀ fd stream, (state.2 i).streams fd = some stream →
        Responding i ((state.1.workers i).pc.phase fd) ((state.1.workers i).conns.lookup fd)
          stream := by
  refine Host.preserve_each (fun i w slot (sockets : Sockets) =>
    Accounted cfg i w slot sockets.table ∧ ∀ fd stream, sockets.streams fd = some stream →
      Responding i (w.pc.phase fd) (w.conns.lookup fd) stream) ?_ ?_ steps ?_ i
  · intro state i sys op w env inv _ moved answered
    simp only [Sockets.step, Option.map_eq_some_iff] at answered
    obtain ⟨table, taken, rfl⟩ := answered
    refine ⟨inv.1.step moved taken, fun fd stream found => ?_⟩
    by_cases kept : sys = .ctlAdd fd true
    · subst kept
      simp only [watch, if_true, Option.some.injEq] at found
      subst found
      cases moved
      simpa [Pc.phase] using Responding.fresh
    · obtain ⟨before, recorded, rfl⟩ := (watch_eq_some kept).1 found
      exact (inv.2 fd before recorded).step inv.1 moved kept
  · intro i event w slot env next inv happened
    simp only [Option.some.injEq] at happened
    exact happened ▸ inv
  · intro j
    exact ⟨.initial cfg j (start j), by simp [Sockets.initial]⟩

def Act.by (i : Fin W) : Act W → Bool
  | .worker j _ => j == i
  | .outside _ _ => false

theorem Host.step_view {act : Act W}
    (taken : product (Host.step F cfg) (socketStep cfg) state act = some next) (i : Fin W) :
    (∃ sys op, act = .worker i sys ∧
      Moves F cfg i state.1.shared.wst (state.1.workers i) sys op (next.1.workers i) ∧
      ∀ fd, (next.2 i).streams fd = watch fd ((state.2 i).streams fd) sys) ∨
    (act.by i = false ∧ next.1.workers i = state.1.workers i ∧ next.2 i = state.2 i) := by
  obtain ⟨hostTaken, envTaken⟩ := (product_eq_some ..).1 taken
  cases act with
  | outside j event =>
      simp only [Host.step, Option.some.injEq] at hostTaken
      simp only [socketStep, perWorker, Option.map_some, Option.some.injEq] at envTaken
      refine .inr ⟨rfl, by rw [← hostTaken], ?_⟩
      rw [← envTaken]
      by_cases self : i = j
      · rw [self, Function.update_self]
      · rw [Function.update_of_ne self]
  | worker j sys =>
      obtain ⟨op, w, moved, hostNext⟩ := Host.step_worker hostTaken
      simp only [socketStep, perWorker, Option.map_eq_some_iff] at envTaken
      obtain ⟨after, happened, envNext⟩ := envTaken
      by_cases self : i = j
      · subst self
        simp only [Sockets.step, Option.map_eq_some_iff] at happened
        obtain ⟨table, _, rfl⟩ := happened
        exact .inl ⟨sys, op, rfl, by simpa [hostNext] using moved, by simp [← envNext]⟩
      · exact .inr ⟨by simpa [Act.by] using Ne.symm self, by simp [hostNext, self],
          by simp [← envNext, self]⟩

/-- How far the end of a connection has got after `own` steps of its worker. -/
def Finishing (i : Fin W) (fd : RawFd) (stream : Stream) (own : Nat)
    (state : Host W × (Fin W → Sockets)) : Prop :=
  ∃ later, (state.2 i).streams fd = some later ∧ later.sent = stream.sent ∧
    later.executed = stream.executed ∧
    ((state.1.workers i).pc = .ctlDel fd ∧ own = 0 ∨ (state.1.workers i).pc = .close fd ∧ own ≤ 1 ∨
      later.closed = true)

theorem Finishing.phase {i : Fin W} {fd : RawFd} {stream : Stream} {own : Nat}
    (inv : Finishing i fd stream own state)
    (responding : ∀ stream, (state.2 i).streams fd = some stream →
      Responding i ((state.1.workers i).pc.phase fd) ((state.1.workers i).conns.lookup fd) stream) :
    (state.1.workers i).pc.phase fd = .idle ∨ (state.1.workers i).pc.phase fd = .ending := by
  obtain ⟨later, found, _, _, ⟨here, _⟩ | ⟨here, _⟩ | isClosed⟩ := inv
  · exact .inr (by simp [here, Pc.phase])
  · exact .inr (by simp [here, Pc.phase])
  · exact .inl ((responding later found).phase_of_closed isClosed)

theorem Finishing.step {i : Fin W} {fd : RawFd} {stream : Stream} {own : Nat} {act : Act W}
    (responding : ∀ stream, (state.2 i).streams fd = some stream →
      Responding i ((state.1.workers i).pc.phase fd) ((state.1.workers i).conns.lookup fd) stream)
    (inv : Finishing i fd stream own state)
    (taken : product (Host.step F cfg) (socketStep cfg) state act = some next)
    (kept : act ≠ .worker i (.ctlAdd fd true)) :
    Finishing i fd stream (own + if act.by i then 1 else 0) next := by
  have quiet := inv.phase responding
  obtain ⟨later, found, sent, executed, ended⟩ := inv
  rcases Host.step_view taken i with ⟨sys, op, rfl, moved, streams⟩ | ⟨other, worker, sockets⟩
  · have registers : sys ≠ .ctlAdd fd true := fun same => kept (by rw [same])
    obtain ⟨sentKept, executedKept, closedKept⟩ :=
      later.observe_quiet moved quiet
    refine ⟨later.observe fd sys, ?_, sentKept.trans sent, executedKept.trans executed, ?_⟩
    · rw [streams fd, found, watch, if_neg registers, Option.map_some]
    · simp only [Act.by, beq_self_eq_true, if_true]
      rcases ended with ⟨here, none⟩ | ⟨here, few⟩ | isClosed
      · exact .inr (.inl ⟨ctlDel_moves here moved, by omega⟩)
      · obtain rfl := close_moves here moved
        exact .inr (.inr (by simp [Stream.observe]))
      · exact .inr (.inr (closedKept isClosed))
  · rw [other]
    exact ⟨later, by rw [sockets, found], sent, executed, by rw [worker]; exact ended⟩

theorem Finishing.run {i : Fin W} {fd : RawFd} {stream : Stream} {acts : List (Act W)}
    (steps : Steps (product (Host.step F cfg) (socketStep cfg))
      (Host.initial cfg start, Sockets.initial cfg) state)
    (begins : Finishing i fd stream 0 state)
    (run : exec (product (Host.step F cfg) (socketStep cfg)) state acts = some final)
    (kept : .worker i (.ctlAdd fd true) ∉ acts) :
    Finishing i fd stream (acts.countP (Act.by i)) final := by
  refine exec_induct (fun acts final => .worker i (.ctlAdd fd true) ∉ acts →
    Finishing i fd stream (acts.countP (Act.by i)) final) (fun _ => begins) ?_ run kept
  intro earlier act before next ran inv taken fresh
  simp only [List.mem_append, List.mem_singleton, not_or] at fresh
  have responding := (Host.responding (steps.trans (exec_steps ran)) i).2 fd
  rw [List.countP_append, List.countP_singleton]
  exact (inv fresh.1).step responding taken (Ne.symm fresh.2)

theorem Host.responses_whole
    (steps : Steps (product (Host.step F cfg) (socketStep cfg))
      (Host.initial cfg start, Sockets.initial cfg) state) (i : Fin W) (fd : RawFd)
    (stream : Stream) (found : (state.2 i).streams fd = some stream) :
    (∀ (buf : List UInt8) (rets : List (SysRet Nat)) (call : WriteAll) (sent : List UInt8),
      exec (observed (writeAllStep buf) (keepSent buf)) (writeAll buf, []) rets =
        some (call, sent) →
      rets.length ≤ buf.length + 1001 ∧ sent <+: buf ∧
      (sent = buf ↔ call = .returned (.ok ())) ∧
      ∀ off spins, call = .writing off spins → off = sent.length ∧
        (∀ count, 0 < count → sent.length + count ≤ buf.length →
          (writeAllStep buf call (.ok count)).isSome) ∧
        ∀ errno, (writeAllStep buf call (.err errno)).isSome) ∧
    (∀ resp off spins, (state.1.workers i).pc = .write fd resp off spins →
      ∀ sys op w', Moves F cfg i state.1.shared.wst (state.1.workers i) sys op w' →
      ∃ ret next, sys = .write fd (resp.drop off) ret ∧
        writeAllStep resp (.writing off spins) ret = some next ∧
        w' = resume fd resp (state.1.workers i) next) ∧
    (∀ request, (responseTo i request).length = responseLen) ∧
    stream.executed <+: requestsOf stream.received ∧
    (∃ answered cut, stream.sent = answered.flatMap (responseTo i) ++ cut ∧
      (stream.executed = answered ∧ cut = [] ∨
        ∃ request, stream.executed = answered ++ [request] ∧ cut <+: responseTo i request ∧
          cut ≠ responseTo i request ∧
          ((∃ resp off spins, (state.1.workers i).pc = .write fd resp off spins ∧
              cut ++ resp.drop off = responseTo i request) ∨
            (state.1.workers i).pc = .ctlDel fd ∨ (state.1.workers i).pc = .close fd ∨
            stream.closed = true))) ∧
    ((state.1.workers i).pc = .ctlDel fd ∨ (state.1.workers i).pc = .close fd ∨
        stream.closed = true →
      ∀ acts final, exec (product (Host.step F cfg) (socketStep cfg)) state acts = some final →
      .worker i (.ctlAdd fd true) ∉ acts →
      ∃ later, (final.2 i).streams fd = some later ∧ later.sent = stream.sent ∧
        later.executed = stream.executed ∧ (2 ≤ acts.countP (Act.by i) → later.closed = true)) := by
  have responding := (Host.responding steps i).2 fd stream found
  obtain ⟨executed, answered, cut, sent, shape⟩ := responding.shape
  refine ⟨fun buf rets call sent run => writeAll_spec run,
    fun resp off spins here sys op w' moved => write_moves here moved, responseTo_length, executed,
    ⟨answered, cut, sent, shape.imp_right ?_⟩, fun ended acts final run kept => ?_⟩
  · rintro ⟨request, last, part, short, stands⟩
    refine ⟨request, last, part, short, ?_⟩
    rcases stands with ⟨left, spins, writing, whole⟩ | ending | isClosed
    · obtain ⟨resp, off, here, rfl⟩ := Pc.of_writing writing
      exact .inl ⟨resp, off, spins, here, whole⟩
    · exact .inr (or_assoc.1 (.inl (Pc.of_ending ending)))
    · exact .inr (.inr (.inr isClosed))
  · have begins : Finishing i fd stream 0 state :=
      ⟨stream, found, rfl, rfl, ended.imp (⟨·, rfl⟩) (Or.imp_left (⟨·, Nat.zero_le _⟩))⟩
    obtain ⟨later, found, sent, executed, stands⟩ := begins.run steps run kept
    refine ⟨later, found, sent, executed, fun twice => ?_⟩
    rcases stands with ⟨_, none⟩ | ⟨_, few⟩ | isClosed
    · omega
    · omega
    · exact isClosed

end Runs

def brokenPipeRun : List (Act 1) :=
  -- Five bytes of the response are written, then `write` fails.
  readableRun [.read 7 (.ok (firstRequest ++ secondRequest)), .read 7 (.err eagain), .internal,
    .execute 7 ⟨0, 100, 1000⟩, .write 7 (responseTo soloWorker ⟨0, 100, 1000⟩) (.ok 5),
    .write 7 ((responseTo soloWorker ⟨0, 100, 1000⟩).drop 5) (.err 32)]

theorem Host.responses_whole_broken_pipe :
    ∃ state final stream later, exec soloSockets soloStart brokenPipeRun = some state ∧
      (state.2 0).streams 7 = some stream ∧ stream.sent.length = 5 ∧
      exec soloSockets state (soloRun [.ctlDel 7, .close 7, .internal]) = some final ∧
      (final.2 0).streams 7 = some later ∧ later.sent = stream.sent ∧ later.closed = true := by
  have ran : ((exec soloSockets soloStart brokenPipeRun).bind fun state =>
      (exec soloSockets state (soloRun [.ctlDel 7, .close 7, .internal])).map fun final =>
        ((state, final), ((state.2 0).streams 7).map fun stream => stream.sent.length,
          match (state.1.workers 0).pc with
          | .ctlDel fd => some fd
          | _ => none)).map Prod.snd = some (some 5, some 7) := by decide +kernel
  obtain ⟨_, seen, values⟩ := Option.map_eq_some_iff.1 ran
  obtain ⟨state, run, seen⟩ := Option.bind_eq_some_iff.1 seen
  obtain ⟨final, rest, rfl⟩ := Option.map_eq_some_iff.1 seen
  simp only [Prod.mk.injEq, Option.map_eq_some_iff] at values
  obtain ⟨⟨stream, found, length⟩, ending⟩ := values
  have here : (state.1.workers 0).pc = .ctlDel 7 := by
    split at ending <;> simp_all
  obtain ⟨_, _, _, _, _, ends⟩ := Host.responses_whole (exec_steps run) 0 7 stream found
  obtain ⟨later, kept, sent, _, isClosed⟩ := ends (.inl here) _ final rest (by simp [soloRun])
  exact ⟨state, final, stream, later, run, found, length, rest, kept, sent, isClosed (by decide)⟩

end MicroHermes.Server
