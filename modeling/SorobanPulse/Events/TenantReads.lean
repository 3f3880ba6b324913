import SorobanPulse.Events.Selection
import SorobanPulse.Sse.Connections
import SorobanPulse.Sse.Replay

/-! The endpoints that read events, as a request with a `TenantId` sees them.

        get_events, get_events_by_tx                   tenant_id = $n in the WHERE clause
        get_recent_events                              no condition, and no row decodes
        tx batch, related transactions, ledger hash    no condition
        stream_events, stream_events_multi             live: by tenant; ring buffer: not
        ws_events, ws_stream_events                    no condition

    A history is what there is to read while the request is served. -/

namespace SorobanPulse.Events
open Lib Sse
open Ingest (SorobanEvent)

/-! ### Requests and histories -/

/-- What the receiver of a stream gets: from the channel, or from a WebSocket's client. -/
inductive Signal where
  | received (event : SorobanEvent)
  | lagged (n : ℕ)
  /-- The channel closes, the server shuts down or the client goes away. -/
  | closed
  /-- A client's JSON message, by its `contract_id`. -/
  | message (contractId : Option String)

structure History where
  events : List EventRow
  /-- The row estimate of `pg_class`. -/
  reltuples : ℤ
  ring : SseRingBuffer SorobanEvent
  live : List Signal

structure RecentParams where
  limit : Option ℤ := none
  eventType : Option EventType := none
  contractId : Option String := none
  cursor : Option String := none
  fromLedger : Option ℤ := none
  toLedger : Option ℤ := none

/-- A stream request, with its `Last-Event-ID` and the address it comes from. -/
structure StreamParams where
  contracts : Option String := none
  eventType : Option EventType := none
  format : Option String := none
  lastEventId : Option String := none
  clientIp : String

inductive ReadRequest where
  | getEvents (isAdmin : Bool) (p : PaginationParams)
  | getRecentEvents (p : RecentParams)
  | getEventsByTx (txHash : String) (p : PaginationParams)
  | getEventsByTxBatch (hashes : List String)
  | getRelatedEventsByTx (txHash : String) (depth : Option ℕ)
  | getEventsByLedgerHash (hash : String) (p : PaginationParams)
  | streamEvents (p : StreamParams)
  | streamEventsMulti (p : StreamParams)
  | wsEvents (contractId : Option String)
  | wsStreamEvents (contractId : Option String)

/-- Libraries, settings, and the connections there are. -/
structure ReadServer where
  libs : Libraries
  pg : Pg
  limits : Limits
  sse : SseState
  batchTxMaxSize : ℕ
  sseReplayLimit : ℕ
  maxLag : ℕ
  /-- How the database orders rows of one time. -/
  tie : Uuid → ℕ

/-! ### Queries -/

/-- `validate_tx_hash`. -/
def validateTxHash (txHash : String) : Except AppError Unit :=
  if txHash.utf8ByteSize ≠ 64 ∨ txHash.toList.all Ingest.isAsciiHexDigit = false then
    .error (.Validation "invalid tx_hash format")
  else .ok ()

/-- `ORDER BY ledger DESC, id DESC`. -/
def latestFirst (rows : List EventRow) : List EventRow := Keyset.sortOn (rowKey .Ledger .Desc) rows

/-- `decode_cursor`. -/
def decodeCursor (libs : Libraries) (cursor : String) : Except AppError (ℤ × Uuid) :=
  let parsed := do
    let s ← libs.base64Decode cursor
    let parts ← Ingest.splitOnce ':' s.toList
    let ledger ← parseI64 (String.ofList parts.1)
    let id ← libs.parseUuid (String.ofList parts.2)
    if 0 < ledger ∧ ledger ≤ 4294967295 ∧ isRandomUuid id then some (ledger, id) else none
  match parsed with
  | some position => .ok position
  | none => .error (.Validation "invalid cursor")

/-- The columns `get_recent_events` selects. -/
def RECENT_COLUMNS : List String :=
  ["id", "contract_id", "event_type", "tx_hash", "ledger", "timestamp", "event_data", "created_at",
    "schema_version", "asset_code", "asset_issuer", "total_count"]

def RecentParams.selects (p : RecentParams) (position : Option (ℤ × Uuid)) (row : EventRow) : Bool :=
  p.contractId.all (row.contractId = ·) && p.eventType.all (row.eventType = ·.toString) &&
    position.all fun c => positionKey .Desc c.1 c.2 < rowKey .Ledger .Desc row

def getRecentEvents (libs : Libraries) (p : RecentParams) (events : List EventRow) :
    Except AppError (List EventRow) := do
  rejectIf (p.fromLedger.isSome || p.toLedger.isSome)
    (.Validation "from_ledger and to_ledger are not supported on /v1/events/recent")
  p.contractId.forM validateContractId
  let limit := (max 1 (min 100 (p.limit.getD 20))).toNat
  let position ← p.cursor.mapM (decodeCursor libs)
  let rows ← queryAs RECENT_COLUMNS
    ((latestFirst (events.filter (p.selects position))).take (limit + 1))
  return rows.take limit

def getEventsByTx (tenantId : Option String) (txHash : String) (p : PaginationParams)
    (events : List EventRow) : Except AppError (List EventRow) := do
  validateTxHash txHash.toLower
  let _ ← p.columns
  return latestFirst (events.filter fun row =>
    row.txHash = txHash.toLower && tenantId.all (some · = row.tenantId))

/-- The rows of each requested hash. -/
def getEventsByTxBatch (maxSize : ℕ) (hashes : List String) (events : List EventRow) :
    Except AppError (List (String × List EventRow)) := do
  rejectIf (maxSize < hashes.length) (.Validation s!"too many hashes: maximum is {maxSize}")
  let invalid := hashes.filter fun h => !(validateTxHash h).isOk
  let names := ", ".intercalate invalid
  rejectIf (invalid ≠ []) (.Validation s!"invalid tx_hash(es): {names}")
  return (hashes.map String.toLower).dedup.map fun h =>
    (h, latestFirst (events.filter (·.txHash = h)))

def isTxRefKey (key : String) : Bool :=
  key ∈ ["tx_hash", "transaction_hash", "related_tx_hash", "parent_tx_hash", "child_tx_hash"]

mutual
/-- `collect_tx_refs`. -/
def collectTxRefs : Value → List String
  | .object map => collectTxRefsMap map
  | .array items => collectTxRefsList items
  | _ => []

def collectTxRefsList : List Value → List String
  | [] => []
  | v :: rest => collectTxRefs v ++ collectTxRefsList rest

def collectTxRefsMap : List (String × Value) → List String
  | [] => []
  | (key, v) :: rest =>
    (if isTxRefKey key then v.asStr.toList else []) ++ collectTxRefs v ++ collectTxRefsMap rest
end

/-- The valid hashes among the references that were not seen before, each once, and what is seen then. -/
def nextFrontier (refs seen : List String) : List String × List String :=
  refs.foldl (fun acc ref =>
    let h := ref.toLower
    if (validateTxHash h).isOk && !acc.2.contains h then (acc.1 ++ [h], h :: acc.2) else acc) ([], seen)

/-- The loop over the frontier, `depth` more times after this one. -/
def relatedEvents (events : List EventRow) : ℕ → List String → List String → List EventRow
  | depth, frontier, seen =>
    if frontier = [] then []
    else
      let rows := latestFirst (events.filter (frontier.contains ·.txHash))
      match depth with
      | 0 => rows
      | depth + 1 =>
        let next := nextFrontier (rows.flatMap (collectTxRefs ·.eventData)) seen
        rows ++ relatedEvents events depth next.1 next.2

def getRelatedEventsByTx (txHash : String) (depth : Option ℕ) (events : List EventRow) :
    Except AppError (List EventRow) := do
  let root := txHash.toLower
  validateTxHash root
  rejectIf (3 < depth.getD 1) (.Validation "depth must be between 0 and 3")
  return relatedEvents events (depth.getD 1) [root] [root]

def getEventsByLedgerHash (hash : String) (p : PaginationParams) (events : List EventRow) :
    Except AppError (List EventRow) := do
  let _ ← p.columns
  return latestFirst (events.filter (·.ledgerHash = some hash))

/-! ### Streams -/

/-- The live part of an SSE stream; it ends when the lag reaches `maxLag`. -/
def liveEvents (keeps : SorobanEvent → Bool) (maxLag : ℕ) : List Signal → List SorobanEvent
  | [] => []
  | .received event :: rest =>
    if keeps event then event :: liveEvents keeps maxLag rest else liveEvents keeps maxLag rest
  | .lagged n :: rest => if 0 < maxLag ∧ maxLag ≤ n then [] else liveEvents keeps maxLag rest
  | .closed :: _ => []
  | .message _ :: rest => liveEvents keeps maxLag rest

/-- The loop of `ws_events`; the client's messages replace the filter. -/
def wsEvents : Option String → List Signal → List SorobanEvent
  | _, [] => []
  | filter, .received event :: rest =>
    if filter.all (event.contractId = ·) then event :: wsEvents filter rest else wsEvents filter rest
  | filter, .lagged _ :: rest => wsEvents filter rest
  | _, .closed :: _ => []
  | _, .message contractId :: rest => wsEvents contractId rest

/-- The loop of `handle_ws_connection`, which ends at a lag. -/
def wsStreamEvents (filter : Option String) : List Signal → List SorobanEvent
  | [] => []
  | .received event :: rest =>
    if filter.all (event.contractId = ·) then event :: wsStreamEvents filter rest
    else wsStreamEvents filter rest
  | .lagged _ :: _ => []
  | .closed :: _ => []
  | .message _ :: rest => wsStreamEvents filter rest

/-! ### What a request receives -/

/-- The rows of an answer; none where the request is refused. -/
def answerRows (answer : Except AppError (List EventRow)) : List Frame :=
  match answer with
  | .ok rows => rows.map .stored
  | .error _ => []

namespace ReadServer
variable (s : ReadServer)

/-- The id to resume after, where there is one. -/
def lastId (p : StreamParams) : Option Uuid := p.lastEventId.bind s.libs.parseUuid

/-- Both handlers: the ring buffer, the database where that is empty, then live. -/
def stream (f : StreamFilter) (query : List EventRow → Uuid → List EventRow) (p : StreamParams)
    (h : History) : List Frame :=
  let replay :=
    match s.lastId p with
    | none => []
    | some lastId =>
      let ring := f.ringReplay s.sseReplayLimit h.ring lastId
      if ring.isEmpty then (query h.events lastId).map Frame.stored else ring.map .published
  replay ++ (liveEvents f.liveKeeps s.maxLag h.live).map .published

def internalFilter (t : String) (p : StreamParams) : StreamFilter where
  contracts := p.contracts.map ([·])
  eventType := p.eventType
  tenantId := some t

def multiFilter (t : String) (p : StreamParams) : StreamFilter where
  contracts := some (commaList (p.contracts.getD ""))
  eventType := p.eventType
  tenantId := some t

/-- `stream_events` opens a stream: the format is known, and nothing refuses the connection. -/
def opensInternal (p : StreamParams) : Bool :=
  (checkFormat p.format).isOk && (handle s.limits s.sse p.clientIp (.events p.contracts)).2.isNone

def opensMulti (p : StreamParams) : Bool :=
  (handle s.limits s.sse p.clientIp (.multi p.contracts)).2.isNone

/-- The events a request with this `TenantId` receives. -/
def receives (t : String) (r : ReadRequest) (h : History) : List Frame :=
  match r with
  | .getEvents isAdmin p =>
    answerRows ((Events.getEvents s.libs s.pg ⟨h.events, h.reltuples⟩ isAdmin (some t) p).map (·.rows))
  | .getRecentEvents p => answerRows (Events.getRecentEvents s.libs p h.events)
  | .getEventsByTx txHash p => answerRows (Events.getEventsByTx (some t) txHash p h.events)
  | .getEventsByTxBatch hashes =>
    answerRows ((Events.getEventsByTxBatch s.batchTxMaxSize hashes h.events).map fun result =>
      result.flatMap (·.2))
  | .getRelatedEventsByTx txHash depth =>
    answerRows (Events.getRelatedEventsByTx txHash depth h.events)
  | .getEventsByLedgerHash hash p => answerRows (Events.getEventsByLedgerHash hash p h.events)
  | .streamEvents p =>
    if s.opensInternal p then
      let f := internalFilter t p
      s.stream f (f.internalReplay s.tie s.sseReplayLimit) p h
    else []
  | .streamEventsMulti p =>
    if s.opensMulti p then
      let f := multiFilter t p
      s.stream f (f.multiReplay s.tie s.sseReplayLimit) p h
    else []
  | .wsEvents contractId =>
    match contractId.forM validateContractId with
    | .ok _ => (Events.wsEvents contractId h.live).map .published
    | .error _ => []
  | .wsStreamEvents contractId =>
    match contractId.forM validateContractId with
    | .ok _ => (Events.wsStreamEvents contractId h.live).map .published
    | .error _ => []

end ReadServer

end SorobanPulse.Events
