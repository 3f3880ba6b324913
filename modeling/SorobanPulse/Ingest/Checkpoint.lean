import SorobanPulse.Ingest.FetchAndStore

/-! The checkpoint of the polling loop: what is in the table when it reaches a page's cursor.

    A page's checkpoint is written with its rows, so a page that commits whole loses nothing. An
    event is left behind when its page is truncated, when a filter still remembers a store that was
    rolled back, or when a page rolls back and the loop goes on past it. `Handled` says of each step
    that it is none of these; `Sound` is what such steps keep. -/

namespace SorobanPulse.Ingest
open Lib Sse

section
variable (config : Config) (libraries : Libraries) (past : String → String → Prop)

/-- Has the checkpoint moved to or past the cursor? The order of cursors is the RPC's. -/
def AtOrPast (checkpoint cursor : Option String) : Prop :=
  ∃ c ∈ checkpoint, ∃ d ∈ cursor, past c d

/-- Every event to be stored is, or shares its key with a stored one. -/
def Settled (rows : List EventRow) (startLedger : UInt64) (events : List SorobanEvent) : Prop :=
  ∀ event ∈ events, eligible config libraries startLedger event = true → event.key ∈ keys rows

/-- Every page the checkpoint has reached is settled. -/
def NoEventLost (s : IndexerState) : Prop :=
  ∀ page ∈ s.pages, AtOrPast past s.checkpoint page.cursor →
    Settled config libraries s.table page.startLedger page.events

/-- `NoEventLost` in every state of every run. -/
def CheckpointSafe : Prop :=
  ∀ (s : IndexerState) (actions : List Action) (t : IndexerState), s.Started →
    AnyRun (IndexerState.step config libraries) s actions t → NoEventLost config libraries past t

/-! ### The steps that lose nothing -/

/-- An event that is to be stored and has no row. -/
def Missing (rows : List EventRow) (startLedger : UInt64) (event : SorobanEvent) : Prop :=
  eligible config libraries startLedger event = true ∧ event.key ∉ keys rows

/-- One of the events is to be stored and has this key. -/
def Carries (startLedger : UInt64) (events : List SorobanEvent) (key : EventKey) : Prop :=
  ∃ event ∈ events, eligible config libraries startLedger event = true ∧ event.key = key

/-- A response keeps its missing events when it is truncated. -/
def WithinLimit (s : IndexerState) (cycle : Cycle) (result : GetEventsResult) : Prop :=
  ∀ event ∈ result.events.drop config.rpcMaxEventsPerPage,
    Missing config libraries s.table cycle.startLedger event →
      Carries config libraries cycle.startLedger
        (result.events.take config.rpcMaxEventsPerPage) event.key

/-- A missing event is new to the filters and fits its column. -/
def NotSkipped (s : IndexerState) (cycle : Cycle) (page : Page) (event : SorobanEvent) : Prop :=
  Missing config libraries (s.table ++ page.tx.rows) cycle.startLedger event →
    s.filters.seen event = false ∧ event.ledger.toNat < 2 ^ 63

/-- What rolled back pages are missing is served again before the checkpoint passes them. -/
def ServedAgain (s : IndexerState) (cycle : Cycle) (page : Page) : Prop :=
  ∀ old ∈ s.pages, old.committed = false →
    AtOrPast past (page.result.pageCursor cycle) old.cursor → ∀ event ∈ old.events,
      Missing config libraries s.table old.startLedger event →
        Carries config libraries cycle.startLedger page.result.events event.key

/-- A page that rolls back misses nothing, unless the checkpoint is still before its cursor. -/
def NotReached (s : IndexerState) (cycle : Cycle) (result : GetEventsResult) : Prop :=
  AtOrPast past s.checkpoint (result.pageCursor cycle) → ∀ event ∈ result.events,
    ¬ Missing config libraries s.table cycle.startLedger event

/-- The condition on a step, in the state it leaves. -/
def Handled (s : IndexerState) : Action → Prop
  | .call _ _ => True
  | .rpcError _ => True
  | .receive result true =>
    ∀ cycle, s.phase = .polling cycle → WithinLimit config libraries s cycle result
  | .receive result false =>
    ∀ cycle, s.phase = .polling cycle → NotReached config libraries past s cycle result
  | .store _ _ =>
    ∀ cycle page event rest, s.phase = .storing cycle page → page.queue = event :: rest →
      page.tx.aborted = false → NotSkipped config libraries s cycle page event
  | .finish ending =>
    ∀ cycle page, s.phase = .storing cycle page →
      if page.lands cycle ending then ServedAgain config libraries past s cycle page
      else NotReached config libraries past s cycle page.result

/-- What holds between steps: committed pages are settled, rolled back pages are once the checkpoint
    reaches them, and a live page has each of its events in its rows or still to come. -/
structure Sound (s : IndexerState) : Prop where
  committed : ∀ page ∈ s.pages, page.committed = true →
    Settled config libraries s.table page.startLedger page.events
  rolledBack : ∀ page ∈ s.pages, page.committed = false →
    AtOrPast past s.checkpoint page.cursor →
      Settled config libraries s.table page.startLedger page.events
  page : ∀ cycle page, s.phase = .storing cycle page → page.tx.aborted = false →
    ∀ event ∈ page.result.events, eligible config libraries cycle.startLedger event = true →
      event.key ∈ keys (s.table ++ page.tx.rows) ∨
        Carries config libraries cycle.startLedger page.queue event.key
end

section
variable {config : Config} {libraries : Libraries} {past : String → String → Prop}
  {s t : IndexerState}

theorem eligible_ledger {startLedger : UInt64} {event : SorobanEvent}
    (h : eligible config libraries startLedger event = true) : startLedger ≤ event.ledger := by
  simp only [eligible, Bool.and_eq_true, decide_eq_true_eq] at h
  exact h.1.1.1.1

theorem keys_subset (rows more : List EventRow) : keys rows ⊆ keys (rows ++ more) := by
  rw [keys_append]
  exact List.subset_append_left _ _

theorem Settled.mono {rows more : List EventRow} {startLedger : UInt64}
    {events : List SorobanEvent} (h : Settled config libraries rows startLedger events) :
    Settled config libraries (rows ++ more) startLedger events :=
  fun event hevent helig => keys_subset rows more (h event hevent helig)

theorem settled_of_not_missing {rows : List EventRow} {startLedger : UInt64}
    {events : List SorobanEvent}
    (h : ∀ event ∈ events, ¬ Missing config libraries rows startLedger event) :
    Settled config libraries rows startLedger events := by
  intro event hevent helig
  by_contra hkey
  exact h event hevent ⟨helig, hkey⟩

theorem Sound.noEventLost (h : Sound config libraries past s) :
    NoEventLost config libraries past s := by
  intro page hpage hpast
  cases hcommitted : page.committed with
  | true => exact h.committed page hpage hcommitted
  | false => exact h.rolledBack page hpage hcommitted hpast

/-! ### Step by step -/

theorem sound_cycle (h : Sound config libraries past s) {phase : Phase} (hpage : phase.page = none)
    (returned) : Sound config libraries past { s with phase, returned } := by
  refine ⟨h.committed, h.rolledBack, ?_⟩
  exact fun cycle page hphase => absurd hphase (Phase.ne_storing hpage)

/-- A page joins the ended ones rolled back. -/
theorem sound_rollback (h : Sound config libraries past s) {cycle : Cycle}
    {result : GetEventsResult} (hreach : NotReached config libraries past s cycle result)
    {phase : Phase} (hpage : phase.page = none) (returned) :
    Sound config libraries past
      { s with phase, returned, pages := result.ended cycle false :: s.pages } := by
  refine ⟨?_, ?_, (sound_cycle h hpage returned).page⟩
  · intro page hmem hcommitted
    rcases List.mem_cons.mp hmem with rfl | hold
    · cases hcommitted
    · exact h.committed page hold hcommitted
  · intro page hmem hcommitted hpast
    rcases List.mem_cons.mp hmem with rfl | hold
    · exact settled_of_not_missing (hreach hpast)
    · exact h.rolledBack page hold hcommitted hpast

theorem sound_receive (h : Sound config libraries past s) {cycle : Cycle}
    {result : GetEventsResult} {begins : Bool} (hphase : s.phase = .polling cycle)
    (hhandled : Handled config libraries past s (.receive result begins)) :
    Sound config libraries past (s.receive config cycle result begins) := by
  unfold IndexerState.receive
  cases begins with
  | false => exact sound_rollback h (hhandled cycle hphase) rfl _
  | true =>
    refine ⟨h.committed, h.rolledBack, ?_⟩
    rintro _ _ ⟨⟩ _ event hevent helig
    have hlimit := hhandled cycle hphase
    by_cases hkey : event.key ∈ keys s.table
    · exact .inl (keys_subset _ _ hkey)
    right
    rw [← List.take_append_drop config.rpcMaxEventsPerPage result.events] at hevent
    rcases List.mem_append.mp hevent with htake | hdrop
    · exact ⟨event, htake, helig, rfl⟩
    · exact hlimit event hdrop ⟨helig, hkey⟩

/-- In a live transaction, the turn over an event to be stored leaves its key stored. -/
theorem store_settles {cycle : Cycle} {page : Page} {event : SorobanEvent}
    {fault : Option Statement} (hunskipped : NotSkipped config libraries s cycle page event)
    (helig : eligible config libraries cycle.startLedger event = true) {tx : Transaction}
    (htx : (storeEventInTx config libraries s.table s.filters page.tx event fault).2.1 = tx)
    (hlive : tx.aborted = false) (hrows : page.tx.rows ⊆ tx.rows) :
    event.key ∈ keys (s.table ++ tx.rows) := by
  by_cases hkey : event.key ∈ keys (s.table ++ page.tx.rows)
  · obtain ⟨row, hrow, heq⟩ := List.mem_map.mp hkey
    refine List.mem_map.mpr ⟨row, ?_, heq⟩
    rcases List.mem_append.mp hrow with hold | hopen
    · exact List.mem_append_left _ hold
    · exact List.mem_append_right _ (hrows hopen)
  · obtain ⟨hunseen, hfits⟩ := hunskipped ⟨helig, hkey⟩
    obtain ⟨timestamp, hrow⟩ := prepareRow_of_eligible helig hfits
    rw [storeEventInTx_tx hunseen hrow] at htx
    subst htx
    exact insertRow_stores hlive

theorem sound_store (h : Sound config libraries past s) {cycle : Cycle} {page : Page}
    {event : SorobanEvent} {rest : List SorobanEvent} {fault : Option Statement} {eid : Uuid}
    (hphase : s.phase = .storing cycle page) (hqueue : page.queue = event :: rest)
    (hhandled : Handled config libraries past s (.store fault eid)) :
    Sound config libraries past (s.store config libraries cycle page event rest fault eid) := by
  obtain ⟨htable, hcheckpoint, hpages⟩ :=
    store_frame config libraries s cycle page event rest fault eid
  refine ⟨?_, ?_, ?_⟩
  · rw [htable, hpages]
    exact h.committed
  · rw [htable, hpages, hcheckpoint]
    exact h.rolledBack
  · rw [htable]
    intro cycle' page' hphase' hlive' other hother helig
    by_cases hledger : event.ledger < cycle.startLedger
    · -- an event below the start of the cycle is passed over, and is not one to be stored
      rw [IndexerState.store, if_pos hledger] at hphase'
      cases hphase'
      rcases h.page cycle page hphase hlive' other hother helig with hkey | ⟨next, hnext, hn, heq⟩
      · exact .inl hkey
      · rw [hqueue] at hnext
        rcases List.mem_cons.mp hnext with rfl | hrest
        · exact absurd (eligible_ledger hn) (UInt64.not_le.mpr hledger)
        · exact .inr ⟨next, hrest, hn, heq⟩
    · rw [store_phase (UInt64.not_lt.mp hledger)] at hphase'
      cases hphase'
      have houtcome :=
        storeEventInTx_outcome config libraries s.table s.filters page.tx event fault
      obtain ⟨hrows, habort⟩ := houtcome.grows
      have hlive := habort hlive'
      rcases h.page cycle page hphase hlive other hother helig with hkey | ⟨next, hnext, hn, heq⟩
      · left
        rw [keys_append, List.mem_append] at hkey ⊢
        exact hkey.imp_right fun hopen => List.map_subset _ hrows hopen
      · rw [hqueue] at hnext
        rcases List.mem_cons.mp hnext with rfl | hrest
        · left
          rw [← heq]
          have hunskipped := hhandled cycle page next rest hphase hqueue hlive
          exact store_settles hunskipped hn rfl hlive' hrows
        · exact .inr ⟨next, hrest, hn, heq⟩

theorem sound_finish (h : Sound config libraries past s) {cycle : Cycle} {page : Page}
    {ending : Ending} (hphase : s.phase = .storing cycle page) (hqueue : page.queue = [])
    (hhandled : Handled config libraries past s (.finish ending)) :
    Sound config libraries past (s.finish cycle page ending) := by
  have hcond := hhandled cycle page hphase
  unfold IndexerState.finish
  by_cases hlands : page.lands cycle ending = true
  · rw [if_pos hlands] at hcond ⊢
    have hlive : page.tx.aborted = false := by
      simp only [Page.lands, Bool.and_eq_true, Bool.not_eq_true'] at hlands
      exact hlands.1.1.1
    -- every event of the page is stored by now
    have hpage : Settled config libraries (s.table ++ page.tx.rows) cycle.startLedger
        page.result.events := by
      intro event hevent helig
      rcases h.page cycle page hphase hlive event hevent helig with hkey | ⟨other, hother, _⟩
      · exact hkey
      · rw [hqueue] at hother
        cases hother
    refine ⟨?_, ?_, ?_⟩
    · intro ended hmem hcommitted
      rcases List.mem_cons.mp hmem with rfl | hold
      · exact hpage
      · exact (h.committed ended hold hcommitted).mono
    · intro ended hmem hcommitted hpast
      rcases List.mem_cons.mp hmem with rfl | hold
      · cases hcommitted
      · intro event hevent helig
        by_cases hkey : event.key ∈ keys s.table
        · exact keys_subset _ _ hkey
        cases hcursor : page.result.pageCursor cycle with
        | none =>
          simp only [hcursor, Option.none_or] at hpast
          exact absurd (h.rolledBack ended hold hcommitted hpast event hevent helig) hkey
        | some cursor =>
          simp only [hcursor, Option.some_or] at hpast
          obtain ⟨other, hother, hn, heq⟩ := hcond ended hold hcommitted
            (by rw [hcursor]; exact hpast) event hevent ⟨helig, hkey⟩
          rw [← heq]
          exact hpage other hother hn
    · exact fun cycle' page' hphase' =>
        absurd hphase' (Phase.ne_storing (next_page cycle page.result ending.committed))
  · rw [if_neg hlands] at hcond ⊢
    exact sound_rollback h hcond (next_page cycle page.result ending.committed) _

theorem sound_step {action : Action} (hhandled : Handled config libraries past s action)
    (hstep : s.step config libraries action = some t) (h : Sound config libraries past s) :
    Sound config libraries past t := by
  cases step_cases hstep with
  | cycle phase returned _ hpage => exact sound_cycle h hpage returned
  | receive cycle result begins hphase => exact sound_receive h hphase hhandled
  | store cycle page event rest fault eid hphase hqueue =>
    exact sound_store h hphase hqueue hhandled
  | finish cycle page ending hphase hqueue => exact sound_finish h hphase hqueue hhandled

theorem IndexerState.Started.sound (h : s.Started) : Sound config libraries past s := by
  refine ⟨?_, ?_, ?_⟩
  · rw [h.pages]
    simp
  · rw [h.pages]
    simp
  · exact fun cycle page hphase => absurd hphase (Phase.ne_storing (by rw [h.idle]; rfl))

/-- Runs whose steps are handled leave no event behind the checkpoint, in any state they reach. -/
theorem noEventLost_of_handled (config : Config) (libraries : Libraries)
    (past : String → String → Prop) (s : IndexerState) (actions : List Action) (t : IndexerState)
    (hstart : s.Started)
    (hrun : Run (IndexerState.step config libraries) (Handled config libraries past) s actions t) :
    NoEventLost config libraries past t :=
  (hrun.invariant (fun hhandled hstep => sound_step hhandled hstep) hstart.sound).noEventLost

end

/-! ### One page, one event, one failed commit -/

/-- Libraries that know one timestamp and one payload; a null value needs no codec. -/
def sampleLibraries : Libraries where
  codec := { fromXdrBase64 := fun _ => none, fromValue := fun _ => none }
  parseFromRfc3339 := fun text =>
    if text = "2024-01-01T00:00:00Z" then some 1704067200000000000 else none
  serializedLen := fun _ => 27  -- {"topic":null,"value":null}

def sampleEvent : SorobanEvent where
  contractId := "CAAAAAAAAAAAAAAAAAAAAAAAAAAAAAAAAAAAAAAAAAAAAAAAAAAAD2KM"
  eventType := "contract"
  txHash := "00000000000000000000000000000000000000000000000000000000000000aa"
  ledger := 100
  ledgerClosedAt := "2024-01-01T00:00:00Z"
  value := .null

theorem sampleEvent_valid : validateEventData sampleLibraries.codec sampleEvent = true := by
  have hcontract : validateContractId sampleEvent.contractId = true := by
    rw [validateContractId, sampleEvent, String.toList_ofList]
    decide
  have htx : validateTxHash sampleEvent.txHash = true := by
    rw [validateTxHash, sampleEvent, String.toList_ofList]
    decide
  change validateXdr _ sampleEvent.txHash sampleEvent.contractId .null none = true
  simp [validateXdr, hcontract, htx, Value.isNull]

theorem sampleEvent_eligible : eligible {} sampleLibraries 100 sampleEvent = true := by
  rw [eligible, sampleEvent_valid]
  decide

def samplePage : GetEventsResult where
  events := [sampleEvent]
  latestLedger := 100
  rpcCursor := some "100-1"

/-- An empty database at cursor `100-0`, and an indexer with or without its session filter. -/
def sampleStart (session : Option SessionBloomFilter) : IndexerState where
  table := []
  checkpoint := some "100-0"
  ledgers := none
  filters := { session, bloom := none }
  eventTx := true
  sseRingBuffer := some (.new 10)
  phase := .idle
  returned := none
  broadcast := []
  pages := []

theorem sampleStart_started (session : Option SessionBloomFilter) : (sampleStart session).Started :=
  ⟨rfl, rfl, by simp [sampleStart, SseRingBuffer.new], rfl⟩

/-- A call that gets the page and stores it, up to its commit. -/
def fetchPage (committed : Bool) : List Action :=
  [.call 100 true, .receive samplePage true, .store none 7, .finish ⟨true, true, committed⟩]

/-- The commit fails, the next call gets the page again and commits it. -/
def fetchPageAgain : List Action := fetchPage false ++ fetchPage true

/-- The session filter skips the event when it comes again, and the checkpoint passes it. -/
theorem not_checkpointSafe_fetchPageAgain :
    ¬ CheckpointSafe {} sampleLibraries (fun c d => c = d) := by
  intro h
  have hsafe := h (sampleStart (some .new)) fetchPageAgain
    ((exec (IndexerState.step {} sampleLibraries) (sampleStart (some .new)) fetchPageAgain).get
      (by decide))
    (sampleStart_started _) (anyRun_iff_exec.mpr (Option.some_get _).symm)
  have hkey := hsafe (samplePage.ended ⟨100, some "100-0", 100, .new⟩ true) List.mem_cons_self
    ⟨"100-1", rfl, "100-1", rfl, rfl⟩ sampleEvent List.mem_cons_self sampleEvent_eligible
  exact absurd hkey (by decide)

/-- Without a session filter the same run stores the event. -/
theorem noEventLost_fetchPageAgain :
    NoEventLost {} sampleLibraries (fun c d => c = d)
      ((exec (IndexerState.step {} sampleLibraries) (sampleStart none) fetchPageAgain).get
        (by decide)) := by
  refine noEventLost_of_handled {} sampleLibraries (fun c d => c = d) (sampleStart none)
    fetchPageAgain _ (sampleStart_started _) ?_
  refine .cons trivial rfl (.cons ?_ rfl (.cons ?_ rfl (.cons ?_ rfl (.cons trivial rfl
    (.cons ?_ rfl (.cons ?_ rfl (.cons ?_ rfl (.nil _))))))))
  · rintro _ ⟨⟩ event hevent
    simp [samplePage] at hevent
  · rintro _ _ _ _ ⟨⟩ ⟨⟩ _ _
    exact ⟨rfl, by decide⟩
  · rintro _ _ ⟨⟩
    rw [if_neg (by decide)]
    rintro ⟨c, ⟨⟩, d, ⟨⟩, heq⟩
    exact absurd heq (by decide)
  · rintro _ ⟨⟩ event hevent
    simp [samplePage] at hevent
  · rintro _ _ _ _ ⟨⟩ ⟨⟩ _ _
    exact ⟨rfl, by decide⟩
  · rintro _ _ ⟨⟩
    rw [if_pos (by decide)]
    intro old hold _ _ event hevent _
    obtain rfl := List.mem_singleton.mp hold
    obtain rfl := List.mem_singleton.mp hevent
    exact ⟨sampleEvent, List.mem_cons_self, by decide, rfl⟩

end SorobanPulse.Ingest
