import SorobanPulse.Ingest.CursorExpiry
import SorobanPulse.Ingest.StoreEvent
import SorobanPulse.Lib.Run
import SorobanPulse.Sse.RingBuffer

/-! The polling loop: `fetch_and_store_events`, page by page, and one call after another.

        idle ──call──▶ polling ──receive──▶ storing ──store … store──▶ (queue empty) ──finish──┐
                        ▲   │                                                                  │
                rpcError│   └──rpcError, begin fails──▶ idle ◀──commit fails, no next cursor───┤
                        └───────────────────────────────next cursor────────────────────────────┘

    Each arrow is one step, so that a statement, a commit or an RPC call may fail at every point.
    What a page inserts sits in its transaction until `finish`; what it broadcasts does not. -/

namespace SorobanPulse.Ingest
open Lib Sse

/-- A page as `getEvents` returns it. -/
structure GetEventsResult where
  events : List SorobanEvent
  latestLedger : UInt64
  rpcCursor : Option String

inductive IndexerFetchError where
  | dbConnection
  | rpc (msg : String)
  deriving DecidableEq, Repr

structure FetchResult where
  nextLedger : UInt64
  latestLedger : UInt64
  deriving DecidableEq, Repr

/-- The locals of a running call. -/
structure Cycle where
  startLedger : UInt64
  cursor : Option String
  latestLedger : UInt64
  cursorExpiryBackoff : CursorExpiryBackoff

/-- A page being stored: its response, the events still to come, and its transaction. -/
structure Page where
  result : GetEventsResult
  queue : List SorobanEvent
  tx : Transaction

inductive Phase where
  | idle
  | polling (cycle : Cycle)
  | storing (cycle : Cycle) (page : Page)

/-- A page whose transaction has ended; `cursor` is the one the page's checkpoint names. -/
structure EndedPage where
  startLedger : UInt64
  cursor : Option String
  events : List SorobanEvent
  committed : Bool

/-- What is sent on the broadcast channel; the ring buffer assigns the id. -/
structure SseMessage where
  id : Option Uuid
  event : SorobanEvent

/-- The database, the indexer's memory, and a record of what it sent and of the pages it ended. -/
structure IndexerState where
  table : List EventRow
  checkpoint : Option String
  /-- The row of `indexer_state`: current and latest ledger. -/
  ledgers : Option (UInt64 × UInt64)
  filters : DedupFilters
  /-- Is the broadcast channel attached? -/
  eventTx : Bool
  sseRingBuffer : Option (SseRingBuffer SorobanEvent)
  phase : Phase
  returned : Option (Except IndexerFetchError FetchResult)
  broadcast : List SseMessage
  pages : List EndedPage

/-- The indexer of a process that has just started, over any database and with any filters. -/
structure IndexerState.Started (s : IndexerState) : Prop where
  idle : s.phase = .idle
  broadcast : s.broadcast = []
  ring : ∀ buf ∈ s.sseRingBuffer, buf.inner = []
  pages : s.pages = []

/-- Which of the statements that end a page go through. -/
structure Ending where
  checkpointSaved : Bool
  stateSaved : Bool
  committed : Bool
  deriving DecidableEq, Repr

inductive Action where
  /-- A call; does `load_checkpoint` get an answer? -/
  | call (startLedger : UInt64) (loaded : Bool)
  | rpcError (msg : String)
  /-- A response; does the transaction begin? -/
  | receive (result : GetEventsResult) (begins : Bool)
  /-- The next event, the statement of its store that fails, and the id a push would draw. -/
  | store (fault : Option Statement) (eid : Uuid)
  | finish (ending : Ending)

/-! ### The steps -/

section
variable (config : Config)

def IndexerState.call (s : IndexerState) (startLedger : UInt64) (loaded : Bool) : IndexerState :=
  { s with
    phase := .polling {
      startLedger
      cursor := if !config.indexerIgnoreCheckpoint && loaded then s.checkpoint else none
      latestLedger := startLedger
      cursorExpiryBackoff := .new } }

/-- Expired cursors are retried with backoff, then given up for the ledger; other errors return. -/
def IndexerState.rpcError (s : IndexerState) (cycle : Cycle) (msg : String) : IndexerState :=
  if isCursorExpiryError msg then
    if cycle.cursorExpiryBackoff.shouldFallback then
      { s with
        phase := .polling { cycle with
          cursor := none
          cursorExpiryBackoff := cycle.cursorExpiryBackoff.reset } }
    else
      { s with
        phase := .polling { cycle with
          cursorExpiryBackoff := cycle.cursorExpiryBackoff.nextBackoff.2 } }
  else { s with phase := .idle, returned := some (.error (.rpc msg)) }

/-- The cursor a page's checkpoint names: its own, or else the one it was fetched from. -/
def GetEventsResult.pageCursor (result : GetEventsResult) (cycle : Cycle) : Option String :=
  result.rpcCursor.or cycle.cursor

def GetEventsResult.ended (result : GetEventsResult) (cycle : Cycle) (committed : Bool) :
    EndedPage where
  startLedger := cycle.startLedger
  cursor := result.pageCursor cycle
  events := result.events
  committed := committed

/-- An oversized response is truncated before its events are stored. -/
def IndexerState.receive (s : IndexerState) (cycle : Cycle) (result : GetEventsResult)
    (begins : Bool) : IndexerState :=
  if begins then
    { s with
      phase := .storing
        { cycle with
          latestLedger := result.latestLedger
          cursorExpiryBackoff := cycle.cursorExpiryBackoff.reset }
        { result, queue := result.events.take config.rpcMaxEventsPerPage, tx := .begin } }
  else
    { s with
      phase := .idle
      returned := some (.error .dbConnection)
      pages := result.ended cycle false :: s.pages }

/-- The copy of an event that goes to subscribers. -/
def broadcastEvent (event : SorobanEvent) : SorobanEvent :=
  if config.multiTenant then { event with tenantId := config.indexerTenantId } else event

/-- Into the ring buffer, then on the channel. -/
def IndexerState.publish (s : IndexerState) (event : SorobanEvent) (eid : Uuid) : IndexerState :=
  if s.eventTx then
    { s with
      sseRingBuffer := s.sseRingBuffer.map (·.push eid (broadcastEvent config event))
      broadcast := s.broadcast ++
        [{ id := s.sseRingBuffer.map fun _ => eid, event := broadcastEvent config event }] }
  else s

/-- One turn of the loop over a page; an error of the store is only logged. -/
def IndexerState.store (libraries : Libraries) (s : IndexerState) (cycle : Cycle) (page : Page)
    (event : SorobanEvent) (rest : List SorobanEvent) (fault : Option Statement) (eid : Uuid) :
    IndexerState :=
  if event.ledger < cycle.startLedger then
    { s with phase := .storing cycle { page with queue := rest } }
  else
    match storeEventInTx config libraries s.table s.filters page.tx event fault with
    | (filters, tx, .ok 1) =>
      { s with
        filters
        phase := .storing cycle { page with queue := rest, tx } }.publish config event eid
    | (filters, tx, _) =>
      { s with
        filters
        phase := .storing cycle { page with queue := rest, tx } }
end

/-- Do the page's rows and its checkpoint reach the database? -/
def Page.lands (cycle : Cycle) (page : Page) (ending : Ending) : Bool :=
  !page.tx.aborted && ((page.result.pageCursor cycle).isNone || ending.checkpointSaved) &&
    ending.stateSaved && ending.committed

def Cycle.result (cycle : Cycle) : FetchResult where
  nextLedger :=
    if cycle.startLedger < cycle.latestLedger then cycle.latestLedger + 1 else cycle.startLedger
  latestLedger := cycle.latestLedger

/-- Where the loop goes after a page, and what the call returns if it ends there. A rolled back
    COMMIT of an aborted transaction reports no error. -/
def Cycle.next (cycle : Cycle) (result : GetEventsResult) (committed : Bool) :
    Phase × Option (Except IndexerFetchError FetchResult) :=
  match committed, result.rpcCursor with
  | false, _ => (.idle, some (.error .dbConnection))
  | true, none => (.idle, some (.ok cycle.result))
  | true, some cursor => (.polling { cycle with cursor := some cursor }, none)

def IndexerState.finish (s : IndexerState) (cycle : Cycle) (page : Page) (ending : Ending) :
    IndexerState :=
  if page.lands cycle ending then
    { s with
      table := s.table ++ page.tx.rows
      checkpoint := (page.result.pageCursor cycle).or s.checkpoint
      ledgers := some (cycle.startLedger, cycle.latestLedger)
      phase := (cycle.next page.result ending.committed).1
      returned := (cycle.next page.result ending.committed).2
      pages := page.result.ended cycle true :: s.pages }
  else
    { s with
      phase := (cycle.next page.result ending.committed).1
      returned := (cycle.next page.result ending.committed).2
      pages := page.result.ended cycle false :: s.pages }

def IndexerState.step (config : Config) (libraries : Libraries) (s : IndexerState) :
    Action → Option IndexerState
  | .call startLedger loaded =>
    match s.phase with
    | .idle => some (s.call config startLedger loaded)
    | _ => none
  | .rpcError msg =>
    match s.phase with
    | .polling cycle => some (s.rpcError cycle msg)
    | _ => none
  | .receive result begins =>
    match s.phase with
    | .polling cycle => some (s.receive config cycle result begins)
    | _ => none
  | .store fault eid =>
    match s.phase with
    | .storing cycle page =>
      match page.queue with
      | event :: rest => some (s.store config libraries cycle page event rest fault eid)
      | [] => none
    | _ => none
  | .finish ending =>
    match s.phase with
    | .storing cycle page =>
      match page.queue with
      | [] => some (s.finish cycle page ending)
      | _ :: _ => none
    | _ => none

/-! ### What a step can do -/

/-- The page under way, if any. -/
def Phase.page : Phase → Option Page
  | .storing _ page => some page
  | _ => none

@[simp] theorem Phase.page_idle : Phase.idle.page = none := rfl

@[simp] theorem Phase.page_polling (cycle : Cycle) : (Phase.polling cycle).page = none := rfl

@[simp] theorem Phase.page_storing (cycle : Cycle) (page : Page) :
    (Phase.storing cycle page).page = some page := rfl

theorem Phase.ne_storing {phase : Phase} (h : phase.page = none) {cycle : Cycle} {page : Page} :
    phase ≠ .storing cycle page := by
  rintro rfl
  cases h

/-- The rows inserted and not yet committed. -/
def IndexerState.openRows (s : IndexerState) : List EventRow := s.phase.page.elim [] (·.tx.rows)

theorem openRows_storing {s : IndexerState} {cycle : Cycle} {page : Page}
    (hphase : s.phase = .storing cycle page) : s.openRows = page.tx.rows := by
  rw [IndexerState.openRows, hphase]
  rfl

section
variable {config : Config} {libraries : Libraries} {s t : IndexerState}

@[simp] theorem publish_table (event : SorobanEvent) (eid : Uuid) :
    (s.publish config event eid).table = s.table := by
  unfold IndexerState.publish
  split <;> rfl

@[simp] theorem publish_checkpoint (event : SorobanEvent) (eid : Uuid) :
    (s.publish config event eid).checkpoint = s.checkpoint := by
  unfold IndexerState.publish
  split <;> rfl

@[simp] theorem publish_filters (event : SorobanEvent) (eid : Uuid) :
    (s.publish config event eid).filters = s.filters := by
  unfold IndexerState.publish
  split <;> rfl

@[simp] theorem publish_phase (event : SorobanEvent) (eid : Uuid) :
    (s.publish config event eid).phase = s.phase := by
  unfold IndexerState.publish
  split <;> rfl

@[simp] theorem publish_pages (event : SorobanEvent) (eid : Uuid) :
    (s.publish config event eid).pages = s.pages := by
  unfold IndexerState.publish
  split <;> rfl

@[simp] theorem publish_eventTx (event : SorobanEvent) (eid : Uuid) :
    (s.publish config event eid).eventTx = s.eventTx := by
  unfold IndexerState.publish
  split <;> rfl

theorem rpcError_eq (s : IndexerState) (cycle : Cycle) (msg : String) :
    ∃ phase returned, phase.page = none ∧ s.rpcError cycle msg = { s with phase, returned } := by
  unfold IndexerState.rpcError
  split
  · split <;> exact ⟨_, _, rfl, rfl⟩
  · exact ⟨_, _, rfl, rfl⟩

theorem next_page (cycle : Cycle) (result : GetEventsResult) (committed : Bool) :
    (cycle.next result committed).1.page = none := by
  unfold Cycle.next
  split <;> rfl

/-- A step is a call or an RPC error, which touch nothing but the cycle, or one of the three steps
    of a page. -/
inductive Stepped (config : Config) (libraries : Libraries) (s : IndexerState) :
    Action → IndexerState → Prop
  | cycle {action : Action} (phase : Phase) (returned) :
      s.phase.page = none → phase.page = none →
      Stepped config libraries s action { s with phase, returned }
  | receive (cycle : Cycle) (result : GetEventsResult) (begins : Bool) :
      s.phase = .polling cycle →
      Stepped config libraries s (.receive result begins) (s.receive config cycle result begins)
  | store (cycle : Cycle) (page : Page) (event : SorobanEvent) (rest : List SorobanEvent)
      (fault : Option Statement) (eid : Uuid) :
      s.phase = .storing cycle page → page.queue = event :: rest →
      Stepped config libraries s (.store fault eid)
        (s.store config libraries cycle page event rest fault eid)
  | finish (cycle : Cycle) (page : Page) (ending : Ending) :
      s.phase = .storing cycle page → page.queue = [] →
      Stepped config libraries s (.finish ending) (s.finish cycle page ending)

theorem step_cases {action : Action} (h : s.step config libraries action = some t) :
    Stepped config libraries s action t := by
  unfold IndexerState.step at h
  cases action with
  | call startLedger loaded =>
    dsimp only at h
    split at h
    · next hphase =>
      cases h
      exact .cycle _ s.returned (by rw [hphase]; rfl) rfl
    · cases h
  | rpcError msg =>
    dsimp only at h
    split at h
    · next cycle hphase =>
      cases h
      obtain ⟨phase, returned, hpage, heq⟩ := rpcError_eq s cycle msg
      rw [heq]
      exact .cycle phase returned (by rw [hphase]; rfl) hpage
    · cases h
  | receive result begins =>
    dsimp only at h
    split at h
    · next cycle hphase =>
      cases h
      exact .receive cycle result begins hphase
    · cases h
  | store fault eid =>
    dsimp only at h
    split at h
    · next cycle page hphase =>
      split at h
      · next event rest hqueue =>
        cases h
        exact .store cycle page event rest fault eid hphase hqueue
      · cases h
    · cases h
  | finish ending =>
    dsimp only at h
    split at h
    · next cycle page hphase =>
      split at h
      · next hqueue =>
        cases h
        exact .finish cycle page ending hphase hqueue
      · cases h
    · cases h

/-- One turn of the loop changes the filters and the transaction, and publishes what it inserted. -/
theorem store_cases (config : Config) (libraries : Libraries) (s : IndexerState) (cycle : Cycle)
    (page : Page) (event : SorobanEvent) (rest : List SorobanEvent) (fault : Option Statement)
    (eid : Uuid) :
    (∃ filters tx, (tx = page.tx ∨ tx = page.tx.abort) ∧
      s.store config libraries cycle page event rest fault eid =
        { s with filters, phase := .storing cycle { page with queue := rest, tx } }) ∨
    ∃ filters timestamp, page.tx.aborted = false ∧ event.key ∉ keys (s.table ++ page.tx.rows) ∧
      s.store config libraries cycle page event rest fault eid =
        { s with
          filters
          phase := .storing cycle { page with
            queue := rest
            tx := { page.tx with rows := page.tx.rows ++ [rowOf config event timestamp] } }
          }.publish config event eid := by
  unfold IndexerState.store
  split
  · exact .inl ⟨s.filters, page.tx, .inl rfl, rfl⟩
  · have houtcome := storeEventInTx_outcome config libraries s.table s.filters page.tx event fault
    generalize storeEventInTx config libraries s.table s.filters page.tx event fault = out
      at houtcome
    obtain ⟨filters, out⟩ := out
    cases houtcome with
    | skipped => exact .inl ⟨filters, _, .inl rfl, rfl⟩
    | rejected e => exact .inl ⟨filters, _, .inl rfl, rfl⟩
    | aborted => exact .inl ⟨filters, _, .inr rfl, rfl⟩
    | inserted timestamp hlive hfresh => exact .inr ⟨filters, timestamp, hlive, hfresh, rfl⟩

/-- Storing an event touches neither the committed tables nor the ended pages. -/
theorem store_frame (config : Config) (libraries : Libraries) (s : IndexerState) (cycle : Cycle)
    (page : Page) (event : SorobanEvent) (rest : List SorobanEvent) (fault : Option Statement)
    (eid : Uuid) :
    let next := s.store config libraries cycle page event rest fault eid
    next.table = s.table ∧ next.checkpoint = s.checkpoint ∧ next.pages = s.pages := by
  rcases store_cases config libraries s cycle page event rest fault eid with
    ⟨filters, tx, _, heq⟩ | ⟨filters, timestamp, _, _, heq⟩ <;> simp [heq]

theorem store_page (config : Config) (libraries : Libraries) (s : IndexerState) (cycle : Cycle)
    (page : Page) (event : SorobanEvent) (rest : List SorobanEvent) (fault : Option Statement)
    (eid : Uuid) :
    ∃ tx, (s.store config libraries cycle page event rest fault eid).phase =
      .storing cycle { page with queue := rest, tx } := by
  rcases store_cases config libraries s cycle page event rest fault eid with
    ⟨filters, tx, _, heq⟩ | ⟨filters, timestamp, _, _, heq⟩
  · exact ⟨tx, by rw [heq]⟩
  · exact ⟨_, by rw [heq, publish_phase]⟩

theorem mem_store_filters {cycle : Cycle} {page : Page} {event : SorobanEvent}
    {rest : List SorobanEvent} {fault : Option Statement} {eid : Uuid} {key : String}
    (h : key ∈ (s.store config libraries cycle page event rest fault eid).filters.keys) :
    key = bloomKey event ∨ key ∈ s.filters.keys := by
  unfold IndexerState.store at h
  split at h
  · exact .inr h
  · have hmem :
        key ∈ (storeEventInTx config libraries s.table s.filters page.tx event fault).1.keys →
          key = bloomKey event ∨ key ∈ s.filters.keys := mem_storeEventInTx_filters
    split at h
    · next heq =>
      rw [heq] at hmem
      exact hmem (by simpa using h)
    · next heq =>
      rw [heq] at hmem
      exact hmem h

/-- The page after one turn over an event of the cycle. -/
theorem store_phase {cycle : Cycle} {page : Page} {event : SorobanEvent}
    {rest : List SorobanEvent} {fault : Option Statement} {eid : Uuid}
    (hledger : cycle.startLedger ≤ event.ledger) :
    (s.store config libraries cycle page event rest fault eid).phase =
      .storing cycle { page with
        queue := rest
        tx := (storeEventInTx config libraries s.table s.filters page.tx event fault).2.1 } := by
  rw [IndexerState.store, if_neg (UInt64.not_lt.mpr hledger)]
  split
  · next heq => simp [heq]
  · next heq => simp [heq]

end

end SorobanPulse.Ingest
