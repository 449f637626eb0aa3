import MicroHermes.Bench.Client

set_option autoImplicit false

namespace MicroHermes.Bench

open Sim (asMicros)

def Client.bursts (c : Client) : Nat := c.fired.countP fun fired => fired.kind = .burst

theorem select_burst_iff (now closeAt due : Nat) (picksClose : Bool) :
    (select now closeAt (some due) picksClose).1 = .burst ↔
      max now due < max now closeAt ∨ max now due = max now closeAt ∧ picksClose = false := by
  simp only [select]
  split
  · simp only [reduceCtorEq, false_iff]
    omega
  · split
    · next earlier => simp [earlier]
    · next notClose notBurst =>
        have together : max now due = max now closeAt := by omega
        cases picksClose <;> simp [together]

theorem select_burst_late {now closeAt due : Nat} {picksClose : Bool} (late : due < now) :
    (select now closeAt (some due) picksClose).1 = .burst ↔ now < closeAt ∨ picksClose = false := by
  -- A deadline that has passed fires at once, or may lose to a close that has passed as well.
  rw [select_burst_iff]
  constructor
  · rintro (earlier | ⟨_, random⟩)
    · exact .inl (by omega)
    · exact .inr random
  · rintro (ahead | random)
    · exact .inl (by omega)
    · by_cases ahead : now < closeAt
      · exact .inl (by omega)
      · exact .inr ⟨by omega, random⟩

theorem select_burst_before {now closeAt due : Nat} (picksClose : Bool) (running : now < closeAt)
    (earlier : due < closeAt) : (select now closeAt (some due) picksClose).1 = .burst := by
  rw [select_burst_iff]
  exact .inl (by omega)

section Request

variable (task : Task) (world : World) (seq serviceUs : UInt32) (kind : RowKind) (c : Client)

theorem fireRequest_fired :
    (fireRequest task world seq serviceUs kind c).2.fired =
      c.fired ++ [⟨kind, encodeRequest seq serviceUs (task.nowNs c.now) zeroHeader⟩] := by
  unfold fireRequest
  cases world.exchange seq <;> rfl

theorem fireRequest_bursts :
    (fireRequest task world seq serviceUs kind c).2.bursts =
      c.bursts + if kind = .burst then 1 else 0 := by
  rw [Client.bursts, fireRequest_fired]
  simp [Client.bursts, List.countP_cons]

theorem fireRequest_answered {delay : Nat} {resp : ResponseBuf}
    (answered : world.exchange seq = .answered delay resp) :
    (fireRequest task world seq serviceUs kind c).1 = true ∧
      (fireRequest task world seq serviceUs kind c).2.now = c.now + delay := by
  simp [fireRequest, answered]

theorem fireRequest_failed
    (failed : ∀ delay resp, world.exchange seq ≠ .answered delay resp) :
    (fireRequest task world seq serviceUs kind c).1 = false := by
  unfold fireRequest
  cases outcome : world.exchange seq with
  | writeFailed delay | readFailed delay => rfl
  | answered delay resp => exact absurd outcome (failed delay resp)

end Request

section Loop

variable {task : Task} {world : World}

theorem selectLoop_fired (fuel turn : Nat) (seq : UInt32) (c : Client) :
    selectLoop task world (fuel + 1) turn seq true c =
      some { c with now := max c.now task.closeAt } := by
  simp [selectLoop, select]

theorem selectLoop_unconfigured (configured : task.burst = none) (fuel turn : Nat) (seq : UInt32)
    (c : Client) :
    selectLoop task world (fuel + 1) turn seq false c =
      some { c with now := max c.now task.closeAt } := by
  simp [selectLoop, select, configured]

variable (world) in
theorem selectLoop_bursts {burst : BurstSpec} (configured : task.burst = some burst)
    (fuel turn : Nat) (seq : UInt32) (c : Client) :
    ∃ last, selectLoop task world (fuel + 2) turn seq false c = some last ∧
      last.bursts = c.bursts +
        if (select c.now task.closeAt (some (task.genStart + burst.atNs))
          (world.picksClose turn)).1 = .burst then 1 else 0 := by
  -- Two iterations are enough, and the first one decides whether there is a burst.
  rw [selectLoop]
  simp only [configured, Option.isSome_some, Bool.not_false, Bool.true_and, if_true,
    Option.map_some, Option.getD_some, Option.bind_some]
  cases chosen : select c.now task.closeAt (some (task.genStart + burst.atNs))
    (world.picksClose turn) with
  | mk branch now =>
      cases branch with
      | close => exact ⟨_, rfl, by simp [Client.bursts]⟩
      | burst =>
          have count : (fireRequest task world seq (asMicros burst.serviceNs) .burst
              { c with now }).2.bursts = c.bursts + 1 := fireRequest_bursts ..
          cases fired : fireRequest task world seq (asMicros burst.serviceNs) .burst
            { c with now } with
          | mk ok after =>
              rw [fired] at count
              cases ok with
              | false => exact ⟨after, by simp only [fired], by simpa using count⟩
              | true =>
                  refine ⟨{ after with now := max after.now task.closeAt }, ?_, ?_⟩
                  · simp only [fired]
                    exact selectLoop_fired ..
                  · simpa [Client.bursts] using count

end Loop

section Burst

variable (task : Task) (world : World)

def World.established : Option Nat := world.connect.map fun delay => world.start + delay

/-- The burst reaches exactly the connections open at its time. -/
structure HitsOpen (c : Client) : Prop where
  -- Not established by then: no burst request.
  closed : ∀ burst, task.burst = some burst →
    (∀ established, world.established = some established →
      task.genStart + burst.atNs < established) → c.bursts = 0
  -- Established by then and served before a later close: one burst request.
  opened : ∀ burst established delay resp, task.burst = some burst →
    world.established = some established → established ≤ task.genStart + burst.atNs →
    world.exchange 0 = .answered delay resp → established + delay < task.closeAt →
    task.genStart + burst.atNs < task.closeAt → c.bursts = 1

/-- Established only after the burst time, the first request answered, and the close timer not
taken instead. -/
def FiresLate : Prop :=
  ∃ burst established delay resp, task.burst = some burst ∧
    world.established = some established ∧ task.genStart + burst.atNs < established ∧
    world.exchange 0 = .answered delay resp ∧
    (established + delay < task.closeAt ∨ world.picksClose 0 = false)

theorem runConnection_bursts_of_unserved
    (unserved : ∀ established delay resp, world.established = some established →
      world.exchange 0 ≠ .answered delay resp) (fuel : Nat) :
    ∃ c, runConnection task world fuel = some c ∧ c.bursts = 0 := by
  unfold runConnection
  cases connected : world.connect with
  | none => exact ⟨_, rfl, rfl⟩
  | some delay =>
      have count := fireRequest_bursts task world 0 task.initialServiceUs .accept
        { now := world.start + delay, fired := [], rows := [] }
      have failed := fireRequest_failed task world 0 task.initialServiceUs .accept
        { now := world.start + delay, fired := [], rows := [] }
        fun after resp => unserved (world.start + delay) after resp (by simp [World.established, connected])
      cases fired : fireRequest task world 0 task.initialServiceUs .accept
        { now := world.start + delay, fired := [], rows := [] } with
      | mk ok after =>
          rw [fired] at count failed
          simp only at failed
          subst failed
          exact ⟨after, by simp [fired], count⟩

theorem runConnection_served {established delay : Nat} {resp : ResponseBuf}
    (connected : world.established = some established)
    (answered : world.exchange 0 = .answered delay resp) (fuel : Nat) :
    ∃ after, runConnection task world fuel = selectLoop task world fuel 0 1 false after ∧
      after.now = established + delay ∧ after.bursts = 0 := by
  simp only [World.established, Option.map_eq_some_iff] at connected
  obtain ⟨connectDelay, connected, rfl⟩ := connected
  have count := fireRequest_bursts task world 0 task.initialServiceUs .accept
    { now := world.start + connectDelay, fired := [], rows := [] }
  obtain ⟨ok, now⟩ := fireRequest_answered task world 0 task.initialServiceUs .accept
    { now := world.start + connectDelay, fired := [], rows := [] } answered
  unfold runConnection
  simp only [connected]
  cases fired : fireRequest task world 0 task.initialServiceUs .accept
    { now := world.start + connectDelay, fired := [], rows := [] } with
  | mk first after =>
      rw [fired] at count ok now
      simp only at count ok now
      subst ok
      exact ⟨after, rfl, now, count⟩

theorem runConnection_bursts_of_served {burst : BurstSpec} {established delay : Nat}
    {resp : ResponseBuf} (configured : task.burst = some burst)
    (connected : world.established = some established)
    (answered : world.exchange 0 = .answered delay resp) (fuel : Nat) :
    ∃ c, runConnection task world (fuel + 2) = some c ∧
      c.bursts =
        if (select (established + delay) task.closeAt (some (task.genStart + burst.atNs))
          (world.picksClose 0)).1 = .burst then 1 else 0 := by
  obtain ⟨after, entered, now, none⟩ :=
    runConnection_served task world connected answered (fuel + 2)
  obtain ⟨last, run, bursts⟩ := selectLoop_bursts world configured fuel 0 1 after
  rw [now, none, Nat.zero_add] at bursts
  exact ⟨last, entered.trans run, bursts⟩

theorem runConnection_unconfigured {established delay : Nat} {resp : ResponseBuf}
    (configured : task.burst = none) (connected : world.established = some established)
    (answered : world.exchange 0 = .answered delay resp) (fuel : Nat) :
    ∃ c, runConnection task world (fuel + 1) = some c := by
  obtain ⟨after, entered, _⟩ :=
    runConnection_served task world connected answered (fuel + 1)
  exact ⟨_, entered.trans (selectLoop_unconfigured configured ..)⟩

theorem burst_hits_open_iff (fuel : Nat) :
    ∃ c, runConnection task world (fuel + 2) = some c ∧
      (HitsOpen task world c ↔ ¬ FiresLate task world) := by
  by_cases served : ∃ established delay resp, world.established = some established ∧
    world.exchange 0 = .answered delay resp
  · obtain ⟨established, delay, resp, connected, answered⟩ := served
    cases configured : task.burst with
    | none =>
        obtain ⟨c, run⟩ := runConnection_unconfigured task world configured connected answered
          (fuel + 1)
        refine ⟨c, run, iff_of_true ⟨?_, ?_⟩ ?_⟩
        · simp [configured]
        · simp [configured]
        · simp [FiresLate, configured]
    | some burst =>
        obtain ⟨c, run, bursts⟩ := runConnection_bursts_of_served task world configured connected
          answered fuel
        refine ⟨c, run, fun hits => ?_, fun onTime => ⟨?_, ?_⟩⟩
        · rintro ⟨burst', made, wait, answer, configured', connected', late, answered', open_⟩
          obtain rfl : burst = burst' := Option.some.inj (configured.symm.trans configured')
          obtain rfl : established = made := Option.some.inj (connected.symm.trans connected')
          obtain ⟨rfl, rfl⟩ : delay = wait ∧ resp = answer := by
            simpa [answered] using answered'
          have silent := hits.closed burst configured fun made connected' => by
            obtain rfl : established = made := Option.some.inj (connected.symm.trans connected')
            exact late
          rw [bursts, if_pos ((select_burst_late (by omega)).2 open_)] at silent
          cases silent
        · intro burst' configured' closed
          obtain rfl : burst = burst' := Option.some.inj (configured.symm.trans configured')
          have late := closed established connected
          rw [bursts, if_neg]
          intro fires
          exact onTime ⟨burst, established, delay, resp, configured, connected, late, answered,
            (select_burst_late (by omega)).1 fires⟩
        · intro burst' made wait answer configured' connected' _ answered' running earlier
          obtain rfl : burst = burst' := Option.some.inj (configured.symm.trans configured')
          obtain rfl : established = made := Option.some.inj (connected.symm.trans connected')
          obtain ⟨rfl, rfl⟩ : delay = wait ∧ resp = answer := by
            simpa [answered] using answered'
          rw [bursts, if_pos (select_burst_before _ running earlier)]
  · obtain ⟨c, run, bursts⟩ := runConnection_bursts_of_unserved task world
      (fun established delay resp connected answered =>
        served ⟨established, delay, resp, connected, answered⟩) (fuel + 2)
    refine ⟨c, run, iff_of_true ⟨fun _ _ _ => bursts, ?_⟩ ?_⟩
    · intro burst established delay resp _ connected _ answered
      exact absurd ⟨established, delay, resp, connected, answered⟩ served
    · rintro ⟨burst, established, delay, resp, _, connected, _, answered, _⟩
      exact served ⟨established, delay, resp, connected, answered⟩

end Burst

def case5Task : Task where
  -- Case 5: the burst at 2.5 s, every connection closed at 4.5 s.
  connId := 180
  initialServiceUs := 2000
  closeAt := 4500000000
  burst := some ⟨2500000000, 5000000⟩
  clockStart := 0
  genStart := 0
  label := ""

def arrivesLate : World where
  -- A connection that arrives at 3 s and is answered within 4 ms.
  start := 3000000000
  connect := some 1000000
  exchange _ := .answered 3000000 zeroResponse
  picksClose _ := true

theorem late_connection_fires_burst :
    ¬ ∀ task world fuel c, runConnection task world fuel = some c → HitsOpen task world c := by
  intro hits
  have run : (runConnection case5Task arrivesLate 2).map Client.bursts = some 1 := by
    decide +kernel
  obtain ⟨c, executed, bursts⟩ := Option.map_eq_some_iff.1 run
  have silent := (hits _ _ _ _ executed).closed ⟨2500000000, 5000000⟩ rfl fun established made => by
    obtain rfl : 3001000000 = established := Option.some.inj made
    decide
  omega

end MicroHermes.Bench
