import SorobanPulse.Ingest.TrueDuplicates
import SorobanPulse.Rpc.EventServer

/-! The loop around the polling loop: `run_loop`, from one process to the next.

        starting ──start──▶ locating ──located──▶ turning ──call──▶ calling ──(polling loop)──┐
           ▲                                        ▲ ▲                                       │
        restart                         pause, poll │ └────────────────settle─────────────────┘
     (from anywhere)                     interval ──┘

    A process that has a start ledger, or that finds persisted state, does not ask for the latest
    ledger. A restart may come at any point: the open transaction and the filters are lost, the
    database is kept, and the persistent filter is seeded from the table.

    Against a server that pages through its events, with no statement failing inside a transaction,
    the table holds every event from the first committed page's start ledger up to the ledger the
    loop has reached, once each and nothing else. -/

namespace SorobanPulse.Ingest
open Lib Rpc Sse

/-- What `run_loop` reads of the configuration. -/
structure LoopConfig where
  startLedger : UInt64 := 0
  indexerPollIntervalMs : UInt64 := 5000
  indexerErrorBackoffMs : UInt64 := 10000

inductive Stage where
  | starting
  | locating
  | turning
  | calling
  | stopped
  deriving DecidableEq, Repr

/-- The indexer with the locals of `run_loop`. -/
structure RunLoop where
  indexer : IndexerState
  stage : Stage
  currentLedger : UInt64
  consecutiveDbErrors : UInt32
  rpcBackoffMs : UInt64
  /-- The sleep before the next turn, in milliseconds. -/
  sleepMs : UInt64

inductive LoopAction where
  /-- A process starts; does `load_indexer_state` get an answer? -/
  | start (loaded : Bool)
  /-- The answer to `get_latest_ledger`, where there is one. -/
  | located (ledger : Option UInt64)
  | paused
  | shutdown
  | call (loaded : Bool)
  | fetch (action : Action)
  | settle
  /-- The process ends, and the next one seeds these filters. -/
  | restart (filters : DedupFilters)

/-- The ledger a process starts from: the configured one, or else the persisted one. -/
def startFrom (loop : LoopConfig) (persisted : Option (UInt64 × UInt64)) : UInt64 :=
  match persisted with
  | some (current, _) =>
    if 0 < current ∧ loop.startLedger = 0 then current else loop.startLedger
  | none => loop.startLedger

section
variable (loop : LoopConfig) (config : Config) (libraries : Libraries)

def RunLoop.start (s : RunLoop) (loaded : Bool) : RunLoop :=
  let current := startFrom loop (if loaded then s.indexer.ledgers else none)
  { s with
    stage := if current = 0 then .locating else .turning
    currentLedger := current
    consecutiveDbErrors := 0
    rpcBackoffMs := 1000
    sleepMs := 0 }

def RunLoop.located (s : RunLoop) : Option UInt64 → RunLoop
  | some ledger =>
    { s with stage := .turning, currentLedger := ledger, rpcBackoffMs := 1000, sleepMs := 0 }
  | none => { s with rpcBackoffMs := min (s.rpcBackoffMs * 2) 60000, sleepMs := s.rpcBackoffMs }

/-- What the loop does with the result of a call. -/
def RunLoop.settle (s : RunLoop) : Except IndexerFetchError FetchResult → RunLoop
  | .ok result =>
    if s.currentLedger < result.nextLedger then
      { s with
        stage := .turning
        currentLedger := result.nextLedger
        consecutiveDbErrors := 0
        sleepMs := 0 }
    else
      { s with
        stage := .turning
        consecutiveDbErrors := 0
        sleepMs := loop.indexerPollIntervalMs }
  | .error .dbConnection =>
    { s with
      stage := .turning
      consecutiveDbErrors := s.consecutiveDbErrors + 1
      sleepMs := if 5 ≤ s.consecutiveDbErrors + 1 then 60000 else 10000 }
  | .error (.rpc _) => { s with stage := .turning, sleepMs := loop.indexerErrorBackoffMs }

def RunLoop.restart (s : RunLoop) (filters : DedupFilters) : RunLoop :=
  { s with
    indexer := { s.indexer with filters, phase := .idle, returned := none }
    stage := .starting
    currentLedger := loop.startLedger }

def RunLoop.step (s : RunLoop) : LoopAction → Option RunLoop
  | .start loaded => if s.stage = .starting then some (s.start loop loaded) else none
  | .located ledger => if s.stage = .locating then some (s.located ledger) else none
  | .paused => if s.stage = .turning then some { s with sleepMs := 500 } else none
  | .shutdown => if s.stage = .turning then some { s with stage := .stopped } else none
  | .call loaded =>
    if s.stage = .turning then
      (s.indexer.step config libraries (.call s.currentLedger loaded)).map fun indexer =>
        { s with indexer, stage := .calling }
    else none
  | .fetch action =>
    match s.stage, action with
    | .calling, .call _ _ => none
    | .calling, action =>
      (s.indexer.step config libraries action).map fun indexer => { s with indexer }
    | _, _ => none
  | .settle =>
    match s.stage, s.indexer.phase, s.indexer.returned with
    | .calling, .idle, some result => some (s.settle loop result)
    | _, _, _ => none
  | .restart filters => some (s.restart loop filters)
end

/-! ### What is asked of the server, the database and the restarts -/

/-- The Bloom key of a row, as `seed_from_db` rebuilds it. -/
def EventRow.bloomKey (row : EventRow) : String :=
  row.txHash ++ ":" ++ row.contractId ++ ":" ++ row.eventType

/-- The start ledger of the first page that was committed. -/
def IndexerState.origin (s : IndexerState) : Option UInt64 :=
  (s.pages.filter (·.committed)).getLast?.map (·.startLedger)

section
variable (loop : LoopConfig) (config : Config) (libraries : Libraries) (server : EventServer)

/-- The server's ledgers fit their column, and events that share a Bloom key are all to be stored
    or none of them is. -/
structure Storable : Prop where
  fits : ∀ event ∈ server.events, event.ledger.toNat < 2 ^ 63
  alike : ∀ a ∈ server.events, ∀ b ∈ server.events, bloomKey a = bloomKey b →
    eligible config libraries 0 a = eligible config libraries 0 b

/-- Inside a transaction nothing fails; its COMMIT may, where no filter remembers the rows. -/
def FetchHonest (s : IndexerState) : Action → Prop
  | .receive result _ =>
    result.events.length ≤ config.rpcMaxEventsPerPage ∧ ∀ cycle, s.phase = .polling cycle →
      server.Answers cycle.startLedger cycle.cursor result
  | .store fault _ => fault = none
  | .finish ending =>
    ending.checkpointSaved = true ∧ ending.stateSaved = true ∧
      (ending.committed = true ∨ s.filters = ⟨none, none⟩)
  | _ => True

/-- A process without a start ledger reads its persisted state, and seeds its filters from the
    table. -/
def Honest (s : RunLoop) : LoopAction → Prop
  | .start loaded => loaded = true ∨ loop.startLedger ≠ 0
  | .located ledger => ∀ l ∈ ledger, 0 < l
  | .fetch action => FetchHonest config server s.indexer action
  | .restart filters => ∀ key ∈ filters.keys, ∃ row ∈ s.indexer.table, row.bloomKey = key
  | _ => True

/-- The first process, before its start, over an empty database. -/
structure RunLoop.Fresh (s : RunLoop) : Prop where
  starting : s.stage = .starting
  currentLedger : s.currentLedger = loop.startLedger
  table : s.indexer.table = []
  checkpoint : s.indexer.checkpoint = none
  ledgers : s.indexer.ledgers = none
  filters : s.indexer.filters.keys = []
  phase : s.indexer.phase = .idle
  pages : s.indexer.pages = []

/-! ### The invariant -/

/-- The rows, open ones included, are those of distinct events of the server, and what a filter
    remembers has its row. -/
structure Exact (s : IndexerState) : Prop where
  rows : ∀ row ∈ s.table ++ s.openRows, ∃ event ∈ server.events,
    eligible config libraries 0 event = true ∧ ∃ timestamp, row = rowOf config event timestamp
  nodup : (keys (s.table ++ s.openRows)).Nodup
  filters : ∀ event ∈ server.events, eligible config libraries 0 event = true →
    bloomKey event ∈ s.filters.keys → event.key ∈ keys (s.table ++ s.openRows)

/-- Everything owed before this position is in the table. -/
def StoredBelow (table : List EventRow) (origin : Option UInt64) (position : ℕ) : Prop :=
  ∀ o ∈ origin, Settled config libraries table o (server.events.take position)

/-- The cursor, if there is one, names a position that the rows have reached. -/
def CursorStored (table : List EventRow) (origin : Option UInt64) (cursor : Option String) : Prop :=
  ∀ c ∈ cursor, origin.isSome = true ∧ ∃ position, c = server.cursorText position ∧
    StoredBelow config libraries server table origin position

/-- A page on its way into the table: an answer that begins where the rows end. -/
structure Storing (s : IndexerState) (cycle : Cycle) (page : Page) : Prop where
  cursor : CursorStored config libraries server s.table s.origin cycle.cursor
  answer : ∃ position, server.Begins cycle.startLedger cycle.cursor position ∧
    server.AnswersAt position page.result
  latest : cycle.latestLedger = page.result.latestLedger
  live : page.tx.aborted = false
  queue : page.queue ⊆ page.result.events
  pending : ∀ event ∈ page.result.events,
    eligible config libraries cycle.startLedger event = true →
      event.key ∈ keys (s.table ++ page.tx.rows) ∨ event ∈ page.queue

/-- How far the rows reach, for a loop that is at this ledger. -/
structure Reached (current : UInt64) (s : IndexerState) : Prop where
  here : StoredBelow config libraries server s.table s.origin (server.before current)
  checkpoint : CursorStored config libraries server s.table s.origin s.checkpoint
  ledgers : ∀ l ∈ s.ledgers, 0 < l.1 ∧
    StoredBelow config libraries server s.table s.origin (server.before l.1)
  known : s.origin.isSome = true → s.ledgers.isSome = true
  configured : ∀ o ∈ s.origin, loop.startLedger ≤ o
  polling : ∀ cycle, s.phase = .polling cycle → cycle.startLedger = current ∧
    CursorStored config libraries server s.table s.origin cycle.cursor
  storing : ∀ cycle page, s.phase = .storing cycle page → cycle.startLedger = current ∧
    Storing config libraries server s cycle page

/-- The result of a call that has ended does not go past the rows. -/
def Returned (s : IndexerState) : Prop :=
  s.phase = .idle → ∀ result, s.returned = some (.ok result) →
    StoredBelow config libraries server s.table s.origin (server.before result.nextLedger)

/-- The invariant of the loop. -/
structure Inv (s : RunLoop) : Prop where
  exact : Exact config libraries server s.indexer
  reached : Reached loop config libraries server s.currentLedger s.indexer
  floor : loop.startLedger ≤ s.currentLedger
  positive : s.stage = .turning ∨ s.stage = .calling → 0 < s.currentLedger
  locating : s.stage = .locating → s.currentLedger = 0 ∧ s.indexer.origin = none
  calling : s.stage ≠ .calling → s.indexer.phase = .idle
  returned : s.stage = .calling → Returned config libraries server s.indexer
end

end SorobanPulse.Ingest
