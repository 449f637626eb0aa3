import MicroHermes.Sim.Burst

set_option autoImplicit false

namespace MicroHermes.Sim

open Transition

variable {W : Nat}

/-- What a worker has counted as accepted, and as closed with the clock reading it did so at. -/
structure Books where
  counted : List ConnDesc
  closed : List (Nat × Int)

def Books.empty : Books := ⟨[], []⟩

def Books.record (w : Worker W) (books : Books) : Books :=
  match w.pc with
  | .acceptConn desc _ => { books with counted := books.counted ++ [desc] }
  | .expire now cursor =>
      match w.openConns[cursor]? with
      | some (connId, deadline) =>
          if deadline ≤ now then { books with closed := books.closed ++ [(connId, now)] } else books
      | none => books
  | _ => books

def keepBooks (s : SimState W) (act : Act W) (books : Fin W → Books) : Fin W → Books :=
  match act with
  | .gen _ => books
  | .worker i _ => Function.update books i ((books i).record (s.workers i))

def Pc.busy : Pc W → Nat
  -- What the worker has added to its pending events and not yet subtracted.
  | .burstDequeue _ rest | .burstSleep _ rest _ | .burstDone _ rest _ | .burstSub _ rest _ _ =>
      rest.length + 1
  | .acceptConn _ rest | .acceptDequeue _ rest | .acceptSleep _ rest _ | .acceptDone _ rest _
  | .acceptSub _ rest _ _ => rest.length + 1
  | _ => 0

def Pc.batch : Pc W → Nat
  -- The size that the batch in hand can have.
  | .pop _ batch _ => batch.length + 1
  | .acceptAdd batch => batch.length
  | .burstAdd ids => ids.length
  | pc => pc.busy

def Pc.uncounted : Pc W → List ConnDesc
  | .pop _ batch call => batch ++ call.result
  | .acceptAdd batch => batch
  | .acceptConn desc rest => desc :: rest
  | .acceptDequeue _ rest | .acceptSleep _ rest _ | .acceptDone _ rest _ | .acceptSub _ rest _ _ =>
      rest
  | _ => []

def Pc.serving : Pc W → Option ConnDesc
  -- The connection counted but not yet open.
  | .acceptDequeue desc _ | .acceptSleep desc _ _ | .acceptDone desc _ _ | .acceptSub desc _ _ _ =>
      some desc
  | _ => none

section Continuations

variable (policy : Policy)

theorem endOfLoop_stock : (endOfLoop policy : Pc W).busy = 0 ∧
    (endOfLoop policy : Pc W).batch = 0 ∧ (endOfLoop policy : Pc W).uncounted = [] ∧
    (endOfLoop policy : Pc W).serving = none := by
  unfold endOfLoop
  split <;> exact ⟨rfl, rfl, rfl, rfl⟩

theorem nextBurst_stock (ids : List Nat) : (nextBurst policy ids : Pc W).busy = ids.length ∧
    (nextBurst policy ids : Pc W).batch = ids.length ∧
    (nextBurst policy ids : Pc W).uncounted = [] ∧
    (nextBurst policy ids : Pc W).serving = none := by
  cases ids with
  | nil => exact endOfLoop_stock policy
  | cons connId rest => exact ⟨rfl, rfl, rfl, rfl⟩

theorem nextAccept_stock (batch : List ConnDesc) :
    (nextAccept policy batch : Pc W).busy = batch.length ∧
    (nextAccept policy batch : Pc W).batch = batch.length ∧
    (nextAccept policy batch : Pc W).uncounted = batch ∧
    (nextAccept policy batch : Pc W).serving = none := by
  cases batch with
  | nil => exact endOfLoop_stock policy
  | cons desc rest => exact ⟨rfl, rfl, rfl, rfl⟩

theorem pollStep_stock (deadline : Int) (batch : List ConnDesc) (pop : PopPc) :
    (pollStep deadline batch pop : Pc W).busy = 0 ∧
    (batch.length < maxEvents → (pollStep deadline batch pop : Pc W).batch ≤ maxEvents) ∧
    (pollStep deadline batch pop : Pc W).uncounted = batch ++ pop.result ∧
    (pollStep deadline batch pop : Pc W).serving = none := by
  unfold pollStep
  split
  · split
    · next room => exact ⟨rfl, fun _ => room, List.append_nil _, rfl⟩
    · next desc full =>
        refine ⟨rfl, fun room => ?_, rfl, rfl⟩
        simpa [Pc.batch] using Nat.succ_le_of_lt room
  · split
    · next empty =>
        obtain rfl := List.isEmpty_iff.1 empty
        exact ⟨rfl, fun _ => Nat.zero_le _, rfl, rfl⟩
    · exact ⟨rfl, le_of_lt, (List.append_nil _).symm, rfl⟩
  · exact ⟨rfl, id, rfl, rfl⟩

end Continuations

section Pending

variable {F : Type} [MetricArith F] {policy : Policy} {cfg : WorkloadConfig} {i : Fin W}

structure BusyCount (slot : WorkerSlot) (pc : Pc W) : Prop where
  pending : slot.pendingEvents = pc.busy
  fits : pc.batch ≤ maxEvents

theorem Pc.busy_le_batch (pc : Pc W) : pc.busy ≤ pc.batch := by
  cases pc <;> first | exact le_rfl | exact Nat.zero_le _

theorem moves_busy {shared : SharedState W} {w w' : Worker W} {label : Sys} {op : MemOp}
    {slot : WorkerSlot} (planned : Planned cfg w) (inv : BusyCount slot w.pc)
    (moved : Moves F policy cfg i shared w label op w') :
    BusyCount (op.onSlot slot) w'.pc := by
  obtain ⟨pending, fits⟩ := inv
  cases moved with
  | burstMissing now connId rest pc missing =>
      exact absurd (.inr missing) (planned.serving (by rw [pc]; rfl))
  | chooseBurst pc backlog =>
      rw [pc] at pending
      exact ⟨pending, by simp [Pc.batch]⟩
  | burstAdd ids pc =>
      have stock := nextBurst_stock (W := W) policy ids
      rw [pc] at pending fits
      refine ⟨?_, stock.2.1.trans_le fits⟩
      rw [stock.1]
      simp [MemOp.onSlot, WorkerSlot.addPending, pending, Pc.busy]
  | burstSub connId rest dequeueNs doneNs burst pc found =>
      have stock := nextBurst_stock (W := W) policy rest
      rw [pc] at pending fits
      refine ⟨?_, stock.2.1.trans_le (Nat.le_of_succ_le fits)⟩
      rw [stock.1]
      simp [MemOp.onSlot, WorkerSlot.addPending, pending, Pc.busy]
  | pop deadline batch call pc =>
      have stock := pollStep_stock (W := W) deadline batch (popStep (shared.queues i) call).2
      rw [pc] at pending fits
      refine ⟨?_, stock.2.1 fits⟩
      rw [stock.1]
      exact pending
  | acceptAdd batch pc =>
      have stock := nextAccept_stock (W := W) policy batch
      rw [pc] at pending fits
      refine ⟨?_, stock.2.1.trans_le fits⟩
      rw [stock.1]
      simp [MemOp.onSlot, WorkerSlot.addPending, pending, Pc.busy]
  | acceptSub desc rest dequeueNs doneNs pc =>
      have stock := nextAccept_stock (W := W) policy rest
      rw [pc] at pending fits
      refine ⟨?_, stock.2.1.trans_le (Nat.le_of_succ_le fits)⟩
      rw [stock.1]
      simp [MemOp.onSlot, WorkerSlot.addPending, pending, Pc.busy]
  | pollDeadline now pc | pollSlept deadline pc =>
      rw [pc] at pending
      exact ⟨pending, by simp [Pc.batch, maxEvents]⟩
  | pollTimeout now deadline pc due | pollStop deadline pc requested =>
      rw [pc] at pending
      exact ⟨pending, Nat.zero_le _⟩
  | _ =>
      rw [‹w.pc = _›] at pending fits
      exact ⟨pending, fits⟩

end Pending

section Books

variable {F : Type} [MetricArith F] {policy : Policy} {cfg : WorkloadConfig} {i : Fin W}

def Opened (w : Worker W) (books : Books) (connId : Nat) (deadline : Int) : Prop :=
  ∃ desc ∈ books.counted, ∃ row ∈ w.accepted, desc.connId = connId ∧ row.connId = connId ∧
    row.doneNs + desc.lifetimeMs.toNat * 1000000 = deadline

theorem Opened.mono {w w' : Worker W} {books books' : Books} {connId : Nat} {deadline : Int}
    (opened : Opened w books connId deadline) (counted : books.counted ⊆ books'.counted)
    (accepted : w.accepted ⊆ w'.accepted) : Opened w' books' connId deadline := by
  obtain ⟨desc, member, row, recorded, same⟩ := opened
  exact ⟨desc, counted member, row, accepted recorded, same⟩

structure Balanced (slot : WorkerSlot) (w : Worker W) (books : Books) : Prop where
  conns : slot.accumulatedConns + books.closed.length = books.counted.length
  counted : w.popped = books.counted ++ w.pc.uncounted
  serving : ∀ desc, w.pc.serving = some desc → desc ∈ books.counted
  held : (w.openConns.map Prod.fst ++ books.closed.map Prod.fst).Perm
    (w.accepted.map ConnRow.connId)
  due : ∀ conn ∈ w.openConns, Opened w books conn.1 conn.2
  expired : ∀ conn ∈ books.closed, ∃ deadline ≤ conn.2, Opened w books conn.1 deadline

theorem balanced_initial (start : Int) :
    Balanced WorkerSlot.zero (Worker.initial cfg i start) .empty where
  conns := rfl
  counted := rfl
  serving := nofun
  held := List.Perm.refl []
  due := nofun
  expired := nofun

theorem Balanced.kept {slot slot' : WorkerSlot} {w w' : Worker W} {books : Books}
    (inv : Balanced slot w books) (record : books.record w = books)
    (conns : slot'.accumulatedConns = slot.accumulatedConns)
    (counted : w'.popped = books.counted ++ w'.pc.uncounted)
    (serving : ∀ desc, w'.pc.serving = some desc → w.pc.serving = some desc)
    (openConns : w'.openConns = w.openConns) (accepted : w'.accepted = w.accepted) :
    Balanced slot' w' (books.record w) := by
  rw [record]
  have same : ∀ connId deadline, Opened w books connId deadline → Opened w' books connId deadline :=
    fun _ _ opened => opened.mono (List.Subset.refl _) (accepted ▸ List.Subset.refl _)
  refine ⟨conns ▸ inv.conns, counted, fun desc here => inv.serving desc (serving desc here), ?_,
    fun conn member => ?_, fun conn member => ?_⟩
  · rw [openConns, accepted]
    exact inv.held
  · rw [openConns] at member
    exact same _ _ (inv.due conn member)
  · obtain ⟨deadline, passed, opened⟩ := inv.expired conn member
    exact ⟨deadline, passed, same _ _ opened⟩

theorem moves_balanced {shared : SharedState W} {w w' : Worker W} {label : Sys} {op : MemOp}
    {slot : WorkerSlot} {books : Books} (inv : Balanced slot w books)
    (moved : Moves F policy cfg i shared w label op w') :
    Balanced (op.onSlot slot) w' (books.record w) := by
  have counted := inv.counted
  cases moved with
  | close now cursor connId deadline pc entry due =>
      have record : books.record w = { books with closed := books.closed ++ [(connId, now)] } := by
        simp [Books.record, pc, entry, due]
      obtain ⟨inside, found⟩ := List.getElem?_eq_some_iff.1 entry
      have closed : (connId, deadline) ∈ w.openConns := List.mem_of_getElem? entry
      rw [record]
      refine ⟨?_, ?_, by simp [Pc.serving], ?_, fun conn member => ?_, fun conn member => ?_⟩
      · have before := inv.conns
        simp only [MemOp.onSlot, WorkerSlot.addConns, List.length_append, List.length_singleton]
        push_cast
        omega
      · rw [pc] at counted
        exact counted
      · have moved := (List.getElem_cons_eraseIdx_perm inside).map Prod.fst
        rw [found, List.map_cons] at moved
        refine List.Perm.trans ?_ inv.held
        refine List.Perm.trans ?_ (moved.append_right _)
        rw [List.map_append, List.map_singleton, ← List.append_assoc]
        exact List.perm_append_singleton ..
      · exact (inv.due conn (List.mem_of_mem_eraseIdx member)).mono (List.Subset.refl _)
          (List.Subset.refl _)
      · rcases List.mem_append.1 member |>.imp_right List.mem_singleton.1 with before | rfl
        · exact inv.expired conn before
        · exact ⟨deadline, due, inv.due _ closed⟩
  | expireEnd now cursor pc past =>
      rw [pc] at counted
      refine inv.kept ?_ rfl counted nofun rfl rfl
      simp [Books.record, pc, List.getElem?_eq_none_iff.2 past]
  | keep now cursor connId deadline pc entry early =>
      rw [pc] at counted
      refine inv.kept ?_ rfl counted nofun rfl rfl
      simp [Books.record, pc, entry, early]
  | acceptConn desc rest pc =>
      have record : books.record w = { books with counted := books.counted ++ [desc] } := by
        simp [Books.record, pc]
      have more : books.counted ⊆ books.counted ++ [desc] := List.subset_append_left ..
      rw [record]
      refine ⟨?_, ?_, ?_, inv.held, fun conn member => ?_, fun conn member => ?_⟩
      · have before := inv.conns
        simp only [MemOp.onSlot, WorkerSlot.addConns, List.length_append, List.length_singleton]
        push_cast
        omega
      · rw [pc] at counted
        simp [counted, Pc.uncounted]
      · rintro _ ⟨rfl⟩
        exact List.mem_append_right _ List.mem_cons_self
      · exact (inv.due conn member).mono more (List.Subset.refl _)
      · obtain ⟨deadline, passed, opened⟩ := inv.expired conn member
        exact ⟨deadline, passed, opened.mono more (List.Subset.refl _)⟩
  | burstAdd ids pc =>
      have stock := nextBurst_stock (W := W) policy ids
      refine inv.kept (by simp [Books.record, pc]) rfl ?_ (by simp [stock.2.2.2]) rfl rfl
      rw [stock.2.2.1, counted, pc]
      rfl
  | burstSub connId rest dequeueNs doneNs burst pc found =>
      have stock := nextBurst_stock (W := W) policy rest
      refine inv.kept (by simp [Books.record, pc]) rfl ?_ (by simp [stock.2.2.2]) rfl ?_
      · rw [stock.2.2.1, counted, pc]
        rfl
      · simp [Worker.accepted, burstRow]
  | pop deadline batch call pc =>
      have stock := pollStep_stock (W := W) deadline batch (popStep (shared.queues i) call).2
      refine inv.kept (by simp [Books.record, pc]) rfl ?_ (by simp [stock.2.2.2]) rfl rfl
      rw [stock.2.2.1, popStep_result, popReturns_eq_takes, counted, pc]
      simp [Pc.uncounted]
  | acceptAdd batch pc =>
      have stock := nextAccept_stock (W := W) policy batch
      refine inv.kept (by simp [Books.record, pc]) rfl ?_ (by simp [stock.2.2.2]) rfl rfl
      rw [stock.2.2.1, counted, pc]
      rfl
  | acceptSub desc rest dequeueNs doneNs pc =>
      have stock := nextAccept_stock (W := W) policy rest
      have record : books.record w = books := by simp [Books.record, pc]
      have found := inv.serving desc (by rw [pc]; rfl)
      have accepted : Worker.accepted { w with
          openConns := w.openConns ++ [(desc.connId, doneNs + desc.lifetimeMs.toNat * 1000000)]
          conns := w.conns ++ [acceptRow policy i desc dequeueNs doneNs]
          pc := nextAccept policy rest } =
          w.accepted ++ [acceptRow policy i desc dequeueNs doneNs] := by
        simp [Worker.accepted, acceptRow]
      have more : w.accepted ⊆ w.accepted ++ [acceptRow policy i desc dequeueNs doneNs] :=
        List.subset_append_left ..
      rw [record]
      refine ⟨inv.conns, ?_, by simp [stock.2.2.2], ?_, fun conn member => ?_, fun conn member => ?_⟩
      · rw [stock.2.2.1, counted, pc]
        rfl
      · rw [accepted, List.map_append, List.map_append]
        refine List.Perm.trans ?_ (inv.held.append_right _)
        rw [List.append_assoc, List.append_assoc]
        exact List.perm_append_comm.append_left _
      · rcases List.mem_append.1 member |>.imp_right List.mem_singleton.1 with before | rfl
        · exact (inv.due conn before).mono (List.Subset.refl _) (accepted ▸ more)
        · refine ⟨desc, found, acceptRow policy i desc dequeueNs doneNs, ?_, rfl, rfl, rfl⟩
          rw [accepted]
          exact List.mem_append_right _ List.mem_cons_self
      · obtain ⟨deadline, passed, opened⟩ := inv.expired conn member
        exact ⟨deadline, passed, opened.mono (List.Subset.refl _) (accepted ▸ more)⟩
  | _ =>
      have here := ‹w.pc = _›
      rw [here] at counted
      refine inv.kept (by simp [Books.record, here]) rfl counted (fun desc => ?_) rfl rfl
      rw [here]
      exact id

end Books

section Runs

variable {F : Type} [MetricArith F] {policy : Policy} {cfg : WorkloadConfig} {seed : UInt64}
  {genStart : Int} {starts : Fin W → Int}

theorem GenMoves.wst {shared shared' : SharedState W} {gen gen' : Generator W} {label : Sys}
    (moved : GenMoves policy cfg seed shared gen label shared' gen') : shared'.wst = shared.wst := by
  cases moved <;> rfl

structure BookedInv (cfg : WorkloadConfig) (slot : WorkerSlot) (w : Worker W) (books : Books) :
    Prop where
  planned : Planned cfg w
  busy : BusyCount slot w.pc
  balanced : Balanced slot w books

theorem run_booked {p q : SimState W × (Fin W → Books)}
    (steps : Steps (observed (step F policy cfg seed) keepBooks) p q)
    (holds : ∀ i, BookedInv cfg (p.1.shared.wst i) (p.1.workers i) (p.2 i)) :
    ∀ i, BookedInv cfg (q.1.shared.wst i) (q.1.workers i) (q.2 i) := by
  refine Steps.preserve
    (fun p => ∀ i, BookedInv cfg (p.1.shared.wst i) (p.1.workers i) (p.2 i)) ?_ steps holds
  intro p act q inv taken i
  obtain ⟨taken, record⟩ := (observed_eq_some ..).1 taken
  rw [← record]
  cases act with
  | gen label =>
      obtain ⟨moved, same⟩ := step_gen taken
      rw [same, moved.wst]
      exact inv i
  | worker j label =>
      obtain ⟨op, moved, shared, _, others⟩ := step_worker taken
      rw [shared]
      by_cases self : i = j
      · subst self
        obtain ⟨planned, busy, balanced⟩ := inv i
        simp only [keepBooks, Function.update_self, SharedState.apply_wst_self]
        exact ⟨moves_planned planned moved, moves_busy planned busy moved,
          moves_balanced balanced moved⟩
      · simp only [keepBooks, Function.update_of_ne self, SharedState.apply_wst_other _ _ self,
          others i self]
        exact inv i

theorem step_slots {s next : SimState W} {act : Act W} (taken : step F policy cfg seed s act = some next)
    {j : Fin W} (other : ∀ label, act ≠ .worker j label) : next.shared.wst j = s.shared.wst j := by
  cases act with
  | gen label => rw [(step_gen taken).1.wst]
  | worker i label =>
      obtain ⟨op, _, shared, _⟩ := step_worker taken
      have self : j ≠ i := fun same => other label (by rw [same])
      rw [shared, SharedState.apply_wst_other _ _ self]

theorem length_filter_not_mem {α β : Type} [DecidableEq β] (key : α → β) {entries : List α}
    {gone : List β} (distinct : gone.Nodup) (keys : (entries.map key).Nodup)
    (known : gone ⊆ entries.map key) :
    (entries.filter fun entry => key entry ∉ gone).length + gone.length = entries.length := by
  have removed : ((entries.filter fun entry => key entry ∈ gone).map key).Perm gone := by
    refine (List.perm_ext_iff_of_nodup ?_ distinct).2 fun value => ⟨fun kept => ?_, fun left => ?_⟩
    · exact keys.sublist (List.filter_sublist.map key)
    · obtain ⟨entry, member, rfl⟩ := List.mem_map.1 kept
      simpa using (List.mem_filter.1 member).2
    · obtain ⟨entry, member, rfl⟩ := List.mem_map.1 (known left)
      exact List.mem_map_of_mem (List.mem_filter.2 ⟨member, by simpa using left⟩)
  have count := removed.length_eq
  have split := List.length_eq_length_filter_add (l := entries) fun entry => key entry ∈ gone
  rw [List.length_map] at count
  simp only [decide_not]
  omega

theorem slot_accounting {acts : List (Act W)} {s : SimState W}
    (run : exec (step F policy cfg seed) (initial cfg genStart starts) acts = some s) :
    ∃ books, exec (observed (step F policy cfg seed) keepBooks)
        (initial cfg genStart starts, fun _ => .empty) acts = some (s, books) ∧
      (∀ i, (s.workers i).pc = .stamp → (s.shared.wst i).pendingEvents = 0 ∧
        (s.shared.wst i).accumulatedConns = (s.workers i).openConns.length ∧
        (s.workers i).openConns.length + (books i).closed.length =
          (s.workers i).accepted.length) ∧
      (∀ i, 0 ≤ (s.shared.wst i).pendingEvents ∧ (s.shared.wst i).pendingEvents ≤ maxEvents ∧
        (s.shared.wst i).accumulatedConns =
          ((books i).counted.filter fun desc =>
            desc.connId ∉ (books i).closed.map Prod.fst).length) ∧
      (∀ i, ((books i).counted.map ConnDesc.connId).Nodup ∧
        ((books i).closed.map Prod.fst).Nodup ∧
        ∀ conn ∈ (books i).closed,
          ∃ deadline ≤ conn.2, Opened (s.workers i) (books i) conn.1 deadline) ∧
      ∀ act next j, step F policy cfg seed s act = some next → (∀ label, act ≠ .worker j label) →
        next.shared.wst j = s.shared.wst j := by
  have steps := exec_steps run
  obtain ⟨books, recorded⟩ := exec_observed keepBooks run fun _ => .empty
  have inv (i : Fin W) : BookedInv cfg (s.shared.wst i) (s.workers i) (books i) :=
    run_booked (exec_steps recorded) (fun i =>
      ⟨planned_initial (starts i), ⟨rfl, Nat.zero_le _⟩, balanced_initial (starts i)⟩) i
  have sim := run_simInv steps (simInv_initial genStart starts)
  have ledger := run_ledger steps (ledger_initial genStart _ fun _ => rfl)
  have counted i : ((books i).counted.map ConnDesc.connId).Nodup := by
    have distinct := (sim i).popped_nodup ledger
    rw [(inv i).balanced.counted, List.map_append] at distinct
    exact distinct.sublist (List.sublist_append_left ..)
  have closed i : ((books i).closed.map Prod.fst).Nodup := by
    have distinct := (inv i).balanced.held.nodup_iff.2 (accepted_nodup steps i)
    exact distinct.sublist (List.sublist_append_right ..)
  refine ⟨books, recorded, fun i top => ?_, fun i => ⟨?_, ?_, ?_⟩,
    fun i => ⟨counted i, closed i, (inv i).balanced.expired⟩,
    fun act next j taken other => step_slots taken other⟩
  · have held := (inv i).balanced.held.length_eq
    have conns := (inv i).balanced.conns
    have pending := (inv i).busy.pending
    have popped := congrArg List.length (inv i).balanced.counted
    have rows := congrArg List.length (sim i).served.rows
    simp only [top, Pc.busy, Pc.uncounted, Pc.holding, List.length_append, List.length_map,
      List.length_nil, List.map_nil, Nat.cast_zero] at held pending popped rows
    exact ⟨pending, by omega, held⟩
  · rw [(inv i).busy.pending]
    exact Int.natCast_nonneg _
  · rw [(inv i).busy.pending]
    exact_mod_cast (Pc.busy_le_batch _).trans (inv i).busy.fits
  · have conns := (inv i).balanced.conns
    have known : (books i).closed.map Prod.fst ⊆ (books i).counted.map ConnDesc.connId := by
      intro connId gone
      obtain ⟨conn, member, rfl⟩ := List.mem_map.1 gone
      obtain ⟨_, _, desc, found, _, _, same, _⟩ := (inv i).balanced.expired conn member
      exact same ▸ List.mem_map_of_mem found
    have left := length_filter_not_mem ConnDesc.connId (closed i) (counted i) known
    rw [List.length_map] at left
    omega

end Runs

def closeOne : List Sys :=
  -- The next iteration, up to the end of `retain`, finds one connection expired.
  [.clock 2000000, .internal, .clock 2000000, .internal, .internal]

theorem slot_accounting_closed :
    ∃ (s : SimState 1) (books : Fin 1 → Books),
      exec (observed (step Rat .reuseportHash hangAndBurst 0) keepBooks)
        (initial hangAndBurst 0 fun _ => 0, fun _ => .empty)
        (sendOne.map .gen ++ (hangThenAccept ++ recordTick ++ closeOne).map (.worker 0)) =
          some (s, books) ∧
      (books 0).closed = [(0, 2000000)] ∧
      ((books 0).counted.filter fun desc =>
        desc.connId ∉ (books 0).closed.map Prod.fst).length = (s.shared.wst 0).accumulatedConns := by
  have executed : (exec (step Rat .reuseportHash hangAndBurst 0) (initial hangAndBurst 0 fun _ => 0)
      (sendOne.map .gen ++ (hangThenAccept ++ recordTick ++ closeOne).map
        (.worker (0 : Fin 1)))).isSome := by decide +kernel
  have closed : ((exec (observed (step Rat .reuseportHash hangAndBurst 0) keepBooks)
      (initial hangAndBurst 0 fun _ => 0, fun _ => .empty)
      (sendOne.map .gen ++ (hangThenAccept ++ recordTick ++ closeOne).map (.worker 0))).map
        fun p : SimState 1 × (Fin 1 → Books) => (p.2 0).closed) = some [(0, 2000000)] := by
    decide +kernel
  obtain ⟨s, run⟩ := Option.isSome_iff_exists.1 executed
  obtain ⟨books, recorded, _, counters, _⟩ := slot_accounting run
  rw [recorded] at closed
  exact ⟨s, books, recorded, Option.some.inj closed, (counters 0).2.2.symm⟩

end MicroHermes.Sim
