import MicroHermes.Lib.SortByKey
import MicroHermes.Sim.Summary
import MicroHermes.Sim.Timeline

set_option autoImplicit false

namespace MicroHermes.Sim

open Transition SortByKey

variable {W : Nat}

section Merge

theorem mergeShards_eq (shards : List (Option (List Char))) (header : List Char) :
    (mergeShards shards header).2 = sortByKey lineKey (shardLines shards) := by
  have keyed : sortByKey Prod.fst ((shardLines shards).map fun line => (lineKey line, line)) =
      (sortByKey lineKey (shardLines shards)).map fun line => (lineKey line, line) :=
    sortByKey_map ..
  simp only [sortByKey] at keyed
  rw [mergeShards, keyed, List.map_map]
  exact List.map_id _

theorem shardLines_clean {shards : List (Option (List Char))} {line : List Char}
    (among : line ∈ shardLines shards) : line ≠ [] ∧ '\n' ∉ line := by
  obtain ⟨shard, _, inside⟩ := List.mem_flatMap.1 among
  obtain ⟨read, nonempty⟩ := List.mem_filter.1 inside
  refine ⟨by simpa using nonempty, ?_⟩
  cases shard with
  | none => cases read
  | some text => exact Text.not_mem_lines read

theorem merged_file {shards : List (Option (List Char))} {header : List Char}
    (one : '\n' ∉ header) :
    (mergeShards shards header).1.splitOn '\n' =
      header :: (mergeShards shards header).2 ++ [[]] := by
  refine Text.splitOn_unlines (List.forall_mem_cons.2 ⟨one, fun line among => ?_⟩)
  exact (shardLines_clean ((mergeShards_perm shards header).subset among)).2

theorem lineKey_record {first : Int} {rest : List (List Char)}
    (columns : ∀ column ∈ Text.ofInt first :: rest, ',' ∉ column) (least : -2 ^ 63 ≤ first)
    (most : first < 2 ^ 63) : lineKey (Text.record (Text.ofInt first :: rest)) = first := by
  rw [lineKey, Text.fields_record (List.cons_ne_nil _ _) columns, List.head?_cons, Option.getD_some,
    Text.parseSigned_ofInt least most, Option.getD_some]

theorem lineKey_formatConnRow {row : ConnRow} (fits : row.connId < 2 ^ 63) :
    lineKey (formatConnRow row) = row.connId := by
  have first : row.columns = Text.ofInt (row.connId : Int) :: row.columns.tail := rfl
  have clean : ∀ column ∈ row.columns, ',' ∉ column :=
    fun column among => (row.columns_plain column among).not_mem (by decide)
  rw [first] at clean
  rw [formatConnRow, first, lineKey_record clean (by omega) (by omega)]

theorem lineKey_formatTickRow [DeviationText] {row : TickRow W} (least : -2 ^ 63 ≤ row.timestampNs)
    (most : row.timestampNs < 2 ^ 63) : lineKey (formatTickRow row) = row.timestampNs :=
  lineKey_record (row.columns_clean (by decide)) least most

theorem merged_rows {A : Type} {format : A → List Char} {key : A → Int} {rows : List A}
    {shards : List (Option (List Char))} (header : List Char)
    (lines : shardLines shards = rows.map format)
    (keys : ∀ row ∈ rows, lineKey (format row) = key row) :
    (mergeShards shards header).2 = (sortByKey key rows).map format := by
  rw [mergeShards_eq, lines, sortByKey_map, sortByKey_congr keys]

end Merge

section Followed

variable {F : Type} [MetricArith F] {policy : Policy} {cfg : WorkloadConfig} {i : Fin W}

def SameConn (first second : ConnRow) : Prop :=
  first.connId = second.connId → first.kind = .accept ∧ second.kind = .burst

def Worker.followed (w : Worker W) : List Nat := w.bursts.map ConnRow.connId ++ w.followUps

structure Followed (w : Worker W) : Prop where
  once : w.followed.Nodup
  known : w.followed ⊆ w.accepted.map ConnRow.connId
  pairs : w.conns.Pairwise SameConn

theorem followed_initial (start : Int) : Followed (Worker.initial cfg i start) where
  once := .nil
  known := List.Subset.refl _
  pairs := .nil

theorem Followed.kept {w w' : Worker W} (inv : Followed w) (followUps : w'.followUps = w.followUps)
    (conns : w'.conns = w.conns) : Followed w' where
  once := by
    rw [Worker.followed, followUps, Worker.bursts, conns]
    exact inv.once
  known := by
    rw [Worker.followed, followUps, Worker.bursts, Worker.accepted, conns]
    exact inv.known
  pairs := conns ▸ inv.pairs

theorem recorded_mem {w : Worker W} (inv : Followed w) {row : ConnRow} (recorded : row ∈ w.conns) :
    row.connId ∈ w.accepted.map ConnRow.connId := by
  cases kind : row.kind with
  | accept => exact List.mem_map_of_mem (List.mem_filter.2 ⟨recorded, by simp [kind]⟩)
  | burst =>
      have burst : row ∈ w.bursts := List.mem_filter.2 ⟨recorded, by simp [kind]⟩
      exact inv.known (List.mem_append_left _ (List.mem_map_of_mem burst))

theorem moves_followed {shared : SharedState W} {w w' : Worker W} {label : Sys} {op : MemOp}
    (inv : Followed w) (planned : Planned cfg w)
    (opened : (w.openConns.map Prod.fst).Sublist (w.accepted.map ConnRow.connId))
    (distinct : (w.accepted.map ConnRow.connId ++ w.pc.holding.map ConnDesc.connId).Nodup)
    (moved : Moves F policy cfg i shared w label op w') : Followed w' := by
  cases moved with
  | burstNow now pc =>
      have quiet := (planned.quiet (.inl (planned.due (by rw [pc]; rfl)))).2
      have ids : Worker.followed { w with
          burstBacklog := w.openConns.map Prod.fst
          burstTriggerNs := now
          burstPending := none
          pc := .choose } = w.openConns.map Prod.fst := by
        change w.bursts.map ConnRow.connId ++ w.openConns.map Prod.fst = _
        rw [quiet, List.map_nil, List.nil_append]
      have accepted := distinct.sublist (List.sublist_append_left ..)
      constructor
      · rw [ids]
        exact accepted.sublist opened
      · rw [ids]
        exact opened.subset
      · exact inv.pairs
  | chooseBurst pc backlog => exact inv.kept (followUps_chosen pc _) rfl
  | burstAdd ids pc =>
      exact inv.kept (followUps_kept pc (nextBurst_phase policy ids).1 rfl) rfl
  | burstMissing now connId rest pc missing =>
      exact absurd (.inr missing) (planned.serving (by rw [pc]; rfl))
  | burstSub connId rest dequeueNs doneNs burst pc configured =>
      have phase := nextBurst_phase (W := W) policy rest
      have followUps : w.followUps = connId :: (rest ++ w.burstBacklog) := by
        rw [Worker.followUps, pc, Pc.burstIds, List.cons_append]
      have bursts : Worker.bursts { w with
          conns := w.conns ++ [burstRow policy i w burst connId dequeueNs doneNs]
          pc := nextBurst policy rest } =
          w.bursts ++ [burstRow policy i w burst connId dequeueNs doneNs] := by
        simp [Worker.bursts, burstRow]
      have followed : Worker.followed { w with
          conns := w.conns ++ [burstRow policy i w burst connId dequeueNs doneNs]
          pc := nextBurst policy rest } = w.followed := by
        rw [Worker.followed, bursts, Worker.followUps, phase.1, Worker.followed, followUps]
        simp [burstRow]
      refine ⟨followed ▸ inv.once, ?_, ?_⟩
      · rw [followed]
        simpa [Worker.accepted, burstRow] using inv.known
      · rw [List.pairwise_append]
        refine ⟨inv.pairs, List.pairwise_singleton .., fun earlier recorded last among same => ?_⟩
        obtain rfl := List.mem_singleton.1 among
        refine ⟨?_, rfl⟩
        -- The follow-up was waiting, so its connection has no burst row yet.
        cases kind : earlier.kind with
        | accept => rfl
        | burst =>
            have served : connId ∈ w.bursts.map ConnRow.connId :=
              List.mem_map.2 ⟨earlier, List.mem_filter.2 ⟨recorded, by simp [kind]⟩, same⟩
            have once := inv.once
            rw [Worker.followed, followUps] at once
            exact absurd List.mem_cons_self (List.disjoint_of_nodup_append once served)
  | pop deadline batch call pc =>
      have phase := pollStep_phase (W := W) deadline batch (popStep (shared.queues i) call).2
      exact inv.kept (followUps_kept pc phase.1 rfl) rfl
  | acceptAdd batch pc =>
      exact inv.kept (followUps_kept pc (nextAccept_phase policy batch).1 rfl) rfl
  | acceptSub desc rest dequeueNs doneNs pc =>
      have followUps : Worker.followUps { w with
          openConns := w.openConns ++ [(desc.connId, doneNs + desc.lifetimeMs.toNat * 1000000)]
          conns := w.conns ++ [acceptRow policy i desc dequeueNs doneNs]
          pc := nextAccept policy rest } = w.followUps :=
        followUps_kept pc (nextAccept_phase policy rest).1 rfl
      have followed : Worker.followed { w with
          openConns := w.openConns ++ [(desc.connId, doneNs + desc.lifetimeMs.toNat * 1000000)]
          conns := w.conns ++ [acceptRow policy i desc dequeueNs doneNs]
          pc := nextAccept policy rest } = w.followed := by
        rw [Worker.followed, followUps, Worker.followed]
        simp [Worker.bursts, acceptRow]
      refine ⟨followed ▸ inv.once, ?_, ?_⟩
      · rw [followed]
        refine List.Subset.trans inv.known ?_
        simp [Worker.accepted]
      · rw [List.pairwise_append]
        refine ⟨inv.pairs, List.pairwise_singleton .., fun earlier recorded last among same => ?_⟩
        obtain rfl := List.mem_singleton.1 among
        -- A connection is accepted once, and no follow-up comes before its accept row.
        have accepted := recorded_mem inv recorded
        rw [pc] at distinct
        exact absurd (same ▸ List.mem_cons_self) (List.disjoint_of_nodup_append distinct accepted)
  | _ =>
      have here := ‹w.pc = _›
      exact inv.kept (followUps_kept here rfl rfl) rfl

end Followed

section Ticks

variable {F : Type} [MetricArith F] {policy : Policy} {cfg : WorkloadConfig} {i : Fin W}

def Pc.tickTime : Pc W → List Int
  | .tickSnapshot _ timestampNs _ | .tickTail _ timestampNs _ | .tickHead _ timestampNs _ _ =>
      [timestampNs]
  | _ => []

def Worker.tickStamps (w : Worker W) : List Int := w.ticks.map TickRow.timestampNs ++ w.pc.tickTime

theorem endOfLoop_tickTime : (endOfLoop policy : Pc W).tickTime = [] := by
  unfold endOfLoop
  split <;> rfl

theorem nextBurst_tickTime (ids : List Nat) : (nextBurst policy ids : Pc W).tickTime = [] := by
  cases ids with
  | nil => exact endOfLoop_tickTime
  | cons connId rest => rfl

theorem nextAccept_tickTime (batch : List ConnDesc) :
    (nextAccept policy batch : Pc W).tickTime = [] := by
  cases batch with
  | nil => exact endOfLoop_tickTime
  | cons desc rest => rfl

theorem pollStep_tickTime (deadline : Int) (batch : List ConnDesc) (pop : PopPc) :
    (pollStep deadline batch pop : Pc W).tickTime = [] := by
  unfold pollStep
  split
  · split <;> rfl
  · split <;> rfl
  · rfl

theorem moves_tickStamps {shared : SharedState W} {w w' : Worker W} {label : Sys} {op : MemOp}
    {now : Int} (stands : label.standsAt now) (moved : Moves F policy cfg i shared w label op w') :
    w'.tickStamps = w.tickStamps ∨ w'.tickStamps = w.tickStamps ++ [now] := by
  cases moved with
  | tickNow reading result pc =>
      obtain rfl : reading = now := stands
      right
      simp [Worker.tickStamps, pc, Pc.tickTime]
  | tickHead result timestampNs snapshots tail pc =>
      left
      simp [Worker.tickStamps, pc, Pc.tickTime]
  | burstAdd ids pc =>
      left
      simp only [Worker.tickStamps, pc, nextBurst_tickTime]
      rfl
  | burstSub connId rest _ _ _ pc _ =>
      left
      simp only [Worker.tickStamps, pc, nextBurst_tickTime]
      rfl
  | acceptAdd batch pc =>
      left
      simp only [Worker.tickStamps, pc, nextAccept_tickTime]
      rfl
  | acceptSub desc rest _ _ pc =>
      left
      simp only [Worker.tickStamps, pc, nextAccept_tickTime]
      rfl
  | pop deadline batch call pc =>
      left
      simp only [Worker.tickStamps, pc, pollStep_tickTime]
      rfl
  | _ =>
      left
      simp only [Worker.tickStamps, ‹w.pc = _›, Pc.tickTime]

theorem moves_tickShard {shared : SharedState W} {w w' : Worker W} {label : Sys} {op : MemOp}
    (moved : Moves F policy cfg i shared w label op w')
    (shard : ∀ row ∈ w.ticks, row.workerId = i.val) : ∀ row ∈ w'.ticks, row.workerId = i.val := by
  cases moved with
  | tickHead result timestampNs snapshots tail pc =>
      exact List.forall_mem_append.2 ⟨shard, List.forall_mem_singleton.2 rfl⟩
  | _ => exact shard

end Ticks

section Runs

variable {F : Type} [MetricArith F] {policy : Policy} {cfg : WorkloadConfig} {seed : UInt64}
  {genStart : Int} {starts : Fin W → Int} {start : Int}

theorem run_followed {s : SimState W}
    (steps : Steps (step F policy cfg seed) (initial cfg genStart starts) s) (i : Fin W) :
    Followed (s.workers i) := by
  refine (Steps.preserve (fun s => Steps (step F policy cfg seed) (initial cfg genStart starts) s ∧
    Followed (s.workers i)) ?_ steps ⟨.refl, followed_initial (starts i)⟩).2
  intro s act next inv taken
  obtain ⟨earlier, inv⟩ := inv
  refine ⟨earlier.tail ⟨act, trivial, taken⟩, ?_⟩
  cases act with
  | gen label => rwa [(step_gen taken).2]
  | worker j label =>
      obtain ⟨op, moved, _, _, others⟩ := step_worker taken
      by_cases self : i = j
      · subst self
        have sim := run_simInv earlier (simInv_initial genStart starts) i
        have distinct := sim.popped_nodup (run_ledger earlier (ledger_initial genStart _ fun _ => rfl))
        rw [sim.served.rows] at distinct
        exact moves_followed inv (run_planned earlier i) (run_openIds earlier i) distinct moved
      · rwa [others i self]

theorem accepted_apart {s : SimState W}
    (steps : Steps (step F policy cfg seed) (initial cfg genStart starts) s) {i j : Fin W}
    (other : i ≠ j) {connId : Nat} (first : connId ∈ (s.workers i).accepted.map ConnRow.connId) :
    connId ∉ (s.workers j).accepted.map ConnRow.connId := by
  have ledger := run_ledger steps (ledger_initial genStart _ fun _ => rfl)
  have distinct : (s.gen.sent.map fun e => e.desc.connId).Nodup := ledger.ids ▸ List.nodup_range
  have sentTo (k : Fin W) (recorded : connId ∈ (s.workers k).accepted.map ConnRow.connId) :
      ∃ e ∈ s.gen.sent, e.target = k ∧ e.desc.connId = connId := by
    have inv := run_simInv steps (simInv_initial genStart starts) k
    have prefixed : (s.workers k).popped =
        (pushedTo k s.gen.sent).take (s.workers k).popped.length := inv.ring.prefixed
    have popped : connId ∈ (s.workers k).popped.map ConnDesc.connId := by
      rw [inv.served.rows]
      exact List.mem_append_left _ recorded
    obtain ⟨desc, member, rfl⟩ := List.mem_map.1 popped
    rw [prefixed] at member
    obtain ⟨e, kept, rfl⟩ := List.mem_map.1 (List.mem_of_mem_take member)
    obtain ⟨among, counted⟩ := List.mem_filter.1 kept
    exact ⟨e, among, (of_decide_eq_true counted).1, rfl⟩
  intro second
  obtain ⟨e, among, rfl, same⟩ := sentTo i first
  obtain ⟨e', among', rfl, same'⟩ := sentTo j second
  exact other (by rw [List.inj_on_of_nodup_map distinct among among' (same.trans same'.symm)])

theorem rows_sameConn {s : SimState W}
    (steps : Steps (step F policy cfg seed) (initial cfg genStart starts) s) :
    s.rows.Pairwise SameConn := by
  rw [SimState.rows, List.pairwise_flatten, List.pairwise_map]
  constructor
  · intro conns among
    obtain ⟨i, _, rfl⟩ := List.mem_map.1 among
    exact (run_followed steps i).pairs
  · refine (List.nodup_finRange W).imp fun {i j} other first recorded second recorded' same => ?_
    have known := recorded_mem (run_followed steps i) recorded
    have apart := accepted_apart steps other known
    exact absurd (same ▸ recorded_mem (run_followed steps j) recorded') apart

def SimState.tickRows (s : SimState W) : List (TickRow W) :=
  ((List.finRange W).map fun i => (s.workers i).ticks).flatten

def tickShards [DeviationText] (s : SimState W) : List (Option (List Char)) :=
  (List.finRange W).map fun i => some (writeTickShard (s.workers i).ticks)

theorem run_ticks {p : SimState W × Times W}
    (steps : Steps (clockedStep F policy cfg seed) (initial cfg genStart starts, .start start) p) :
    start ≤ p.2.now ∧ ∀ i, Stamped start (p.1.workers i).tickStamps p.2.now ∧
      ∀ row ∈ (p.1.workers i).ticks, row.workerId = i.val := by
  refine Steps.preserve (fun p => start ≤ p.2.now ∧
    ∀ i, Stamped start (p.1.workers i).tickStamps p.2.now ∧
      ∀ row ∈ (p.1.workers i).ticks, row.workerId = i.val) ?_ steps
    ⟨le_rfl, fun i => ⟨stamped_nil, nofun⟩⟩
  intro p move q inv taken
  obtain ⟨begun, inv⟩ := inv
  obtain ⟨act, now⟩ := move
  obtain ⟨⟨stands, later⟩, taken, times⟩ := clockedStep_eq_some.1 taken
  rw [← times, Times.advance_now]
  refine ⟨begun.trans later, fun i => ?_⟩
  have kept := (inv i).1.later later
  cases act with
  | gen label =>
      rw [(step_gen taken).2]
      exact ⟨kept, (inv i).2⟩
  | worker j label =>
      obtain ⟨op, moved, _, _, others⟩ := step_worker taken
      by_cases self : i = j
      · subst self
        exact ⟨(inv i).1.read begun later (moves_tickStamps stands moved),
          moves_tickShard moved (inv i).2⟩
      · rw [others i self]
        exact ⟨kept, (inv i).2⟩

theorem merged_conns {s : SimState W}
    (steps : Steps (step F policy cfg seed) (initial cfg genStart starts) s)
    (fits : ∀ row ∈ s.rows, row.connId < 2 ^ 63) :
    ∃ rows : List ConnRow, (mergeShards (connShards s) connHeader).2 = rows.map formatConnRow ∧
      rows.Perm s.rows ∧ rows.Pairwise SameConn ∧
      ∀ burst ∈ rows, burst.kind = .burst →
        ∃ accept ∈ rows, accept.kind = .accept ∧ accept.connId = burst.connId := by
  have lines : shardLines (connShards s) = s.rows.map formatConnRow := by
    have written := shardLines_written ((List.finRange W).map fun i => (s.workers i).conns)
    rwa [List.map_map] at written
  have perm := sortByKey_perm (fun row : ConnRow => (row.connId : Int)) s.rows
  refine ⟨sortByKey (fun row => (row.connId : Int)) s.rows,
    merged_rows connHeader lines fun row recorded => lineKey_formatConnRow (fits row recorded), perm,
    ?_, fun burst recorded _ => ?_⟩
  · have together : s.rows.Pairwise fun first second : ConnRow =>
        (first.connId : Int) = second.connId →
          first.kind = .accept ∧ second.kind = .burst :=
      (rows_sameConn steps).imp fun pair same => pair (Int.ofNat.inj same)
    exact (ties_sortByKey together).imp fun pair same => pair (congrArg _ same)
  · obtain ⟨conns, among, inside⟩ := List.mem_flatten.1 (perm.mem_iff.1 recorded)
    obtain ⟨i, _, rfl⟩ := List.mem_map.1 among
    obtain ⟨accept, accepted, same⟩ := List.mem_map.1 (recorded_mem (run_followed steps i) inside)
    obtain ⟨early, kind⟩ := List.mem_filter.1 accepted
    exact ⟨accept, perm.mem_iff.2 (List.mem_flatten.2 ⟨_, among, early⟩), of_decide_eq_true kind, same⟩

theorem merged_ticks [DeviationText] {p : SimState W × Times W}
    (steps : Steps (clockedStep F policy cfg seed) (initial cfg genStart starts, .start start) p)
    (least : -2 ^ 63 ≤ start) (most : p.2.now < 2 ^ 63) :
    ∃ rows : List (TickRow W),
      (mergeShards (tickShards p.1) (tickHeader W)).2 = rows.map formatTickRow ∧
      rows.Perm p.1.tickRows ∧
      rows.Pairwise (fun first second => first.timestampNs ≤ second.timestampNs) ∧
      ∀ i : Fin W, rows.filter (fun row => row.workerId = i.val) = (p.1.workers i).ticks := by
  have ticks := (run_ticks steps).2
  have stamped (i : Fin W) : Stamped start ((p.1.workers i).ticks.map TickRow.timestampNs) p.2.now :=
    (ticks i).1.sublist (List.sublist_append_left ..)
  have lines : shardLines (tickShards p.1) = p.1.tickRows.map formatTickRow := by
    have written := shardLines_writtenTicks ((List.finRange W).map fun i => (p.1.workers i).ticks)
    rwa [List.map_map] at written
  have keys : ∀ row ∈ p.1.tickRows, lineKey (formatTickRow row) = row.timestampNs := by
    intro row recorded
    obtain ⟨shard, among, inside⟩ := List.mem_flatten.1 recorded
    obtain ⟨i, _, rfl⟩ := List.mem_map.1 among
    have range := (stamped i).past _ (List.mem_map_of_mem inside)
    exact lineKey_formatTickRow (by omega) (by omega)
  have own (i : Fin W) : p.1.tickRows.filter (fun row => row.workerId = i.val) =
      (p.1.workers i).ticks := filter_shards (fun j => (ticks j).2) i
  refine ⟨sortByKey TickRow.timestampNs p.1.tickRows, merged_rows (tickHeader W) lines keys,
    sortByKey_perm .., sortByKey_ascending .., fun i => ?_⟩
  rw [filter_sortByKey, own i]
  rw [own i]
  exact List.pairwise_map.1 (stamped i).order

theorem merge_stable (F : Type) [MetricArith F] [DeviationText] :
    (∀ shards header, (mergeShards shards header).1 =
        Text.unlines (header :: (mergeShards shards header).2) ∧
      ('\n' ∉ header → (mergeShards shards header).1.splitOn '\n' =
        header :: (mergeShards shards header).2 ++ [[]]) ∧
      ((mergeShards shards header).2).Perm (shardLines shards) ∧
      (mergeShards shards header).2.Pairwise (fun first second => lineKey first ≤ lineKey second) ∧
      ∀ key, (mergeShards shards header).2.filter (fun line => lineKey line = key) =
        (shardLines shards).filter fun line => lineKey line = key) ∧
    ∀ (W : Nat) (policy : Policy) (cfg : WorkloadConfig) (seed : UInt64) (genStart : Int)
      (starts : Fin W → Int) (start : Int) (moves : List (Act W × Int)) (s : SimState W)
      (times : Times W), exec (clockedStep F policy cfg seed)
        (initial cfg genStart starts, .start start) moves = some (s, times) →
      ((∀ row ∈ s.rows, row.connId < 2 ^ 63) →
        ∃ rows : List ConnRow, (mergeShards (connShards s) connHeader).2 = rows.map formatConnRow ∧
          rows.Perm s.rows ∧ rows.Pairwise SameConn ∧
          ∀ burst ∈ rows, burst.kind = .burst →
            ∃ accept ∈ rows, accept.kind = .accept ∧ accept.connId = burst.connId) ∧
      (-2 ^ 63 ≤ start → times.now < 2 ^ 63 →
        ∃ rows : List (TickRow W),
          (mergeShards (tickShards s) (tickHeader W)).2 = rows.map formatTickRow ∧
          rows.Perm s.tickRows ∧
          rows.Pairwise (fun first second => first.timestampNs ≤ second.timestampNs) ∧
          ∀ i : Fin W, rows.filter (fun row => row.workerId = i.val) = (s.workers i).ticks) := by
  refine ⟨fun shards header => ⟨rfl, merged_file, mergeShards_perm shards header, ?_, fun key => ?_⟩,
    fun W policy cfg seed genStart starts start moves s times run => ⟨fun fits => ?_, ?_⟩⟩
  · rw [mergeShards_eq]
    exact sortByKey_ascending lineKey _
  · rw [mergeShards_eq]
    exact filter_key_sortByKey lineKey _ key
  · exact merged_conns (clocked_steps (exec_steps run)) fits
  · exact merged_ticks (p := (s, times)) (exec_steps run)

end Runs

theorem merge_stable_accept_and_burst :
    ∃ (s : SimState 1) (rows : List ConnRow) (ticks : List (TickRow 1)),
      s.rows.length = 2 ∧ (s.workers 0).ticks.length = 1 ∧
      (mergeShards (connShards s) connHeader).2 = rows.map formatConnRow ∧
      rows.Perm s.rows ∧ rows.Pairwise SameConn ∧
      (mergeShards (tickShards s) (tickHeader 1)).2 = ticks.map formatTickRow ∧
      ticks.filter (fun row => row.workerId = 0) = (s.workers 0).ticks := by
  have run : ((exec (clockedStep Rat .reuseportHash burstAtTen 0)
      (initial burstAtTen 0 fun _ => 0, .start 0)
      (sentAtOne.map byGen ++ acceptThenBurst.map (byWorker (0 : Fin 1)))).map fun p =>
        (p.1.rows.map fun row => row.connId, (p.1.workers 0).ticks.length, p.2.now)) =
      some ([0, 0], 1, 2008) := by decide +kernel
  obtain ⟨⟨s, times⟩, executed, values⟩ := Option.map_eq_some_iff.1 run
  simp only [Prod.mk.injEq] at values
  obtain ⟨ids, count, now⟩ := values
  obtain ⟨_, runs⟩ := merge_stable Rat
  obtain ⟨conns, ticks⟩ := runs _ _ _ _ _ _ _ _ _ _ executed
  obtain ⟨rows, lines, perm, pairs, _⟩ := conns fun row recorded => by
    have among : row.connId ∈ s.rows.map fun row => row.connId := List.mem_map_of_mem recorded
    rw [ids] at among
    simp only [List.mem_cons, List.not_mem_nil, or_false, or_self] at among
    omega
  obtain ⟨tickRows, tickLines, _, _, own⟩ := ticks (by decide) (by omega)
  refine ⟨s, rows, tickRows, ?_, count, lines, perm, pairs, tickLines, own 0⟩
  simpa using congrArg List.length ids

end MicroHermes.Sim
