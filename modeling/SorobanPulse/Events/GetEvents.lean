import SorobanPulse.Events.Queries
import SorobanPulse.Ingest.Toid
import SorobanPulse.Lib.Keyset

/-! `get_events`: the two pagination paths over the `events` table.

        cursor absent   ──▶ offset query: (col, id), LIMIT / OFFSET   ──▶ count  ──▶ next_cursor
        cursor present  ──▶ decode ──▶ cursor query: (col, id) past the cursor, its own order

    PostgreSQL's text search, JSON containment and JSONPath, `LIKE` and the earth distance are the
    functions of `Pg`. A statement fails as a whole when the number of values is not that of its
    placeholders, when a value has another type than its condition, or when a JSONPath does not
    parse. -/

namespace SorobanPulse.Events
open Lib.Placeholders

/-- A row of `events`, with the columns `get_events` reads. -/
structure EventRow where
  id : Uuid
  contractId : String
  eventType : String
  txHash : String
  ledger : ℤ
  timestamp : Timestamp
  eventData : Value
  eventDataNormalized : Option Value := none
  eventDataDecoded : Option Value := none
  ledgerHash : Option String := none
  inSuccessfulCall : Bool := true
  createdAt : Timestamp
  schemaVersion : ℤ := 1
  anonymized : Bool := false
  tenantId : Option String := none
  chainId : String := "mainnet"
  /-- Generated from the first topic. -/
  topic0Sym : Option String := none
  txIndex : Option ℤ := none
  opIndex : Option ℤ := none
  eventIndex : Option ℤ := none

/-- What PostgreSQL computes on a row and a bound value. -/
structure Pg where
  like : String → String → Bool
  /-- `event_data->'topic' @> v`, or of its `i`-th entry. -/
  topicContains : EventRow → Option ℕ → String → Bool
  tsMatch : EventRow → String → Bool
  jsonpathValid : String → Bool
  pathExists : EventRow → String → Bool
  withinKm : EventRow → ℚ → ℚ → ℚ → Bool

/-! ### Conditions on a row -/

/-- The value of the sort column. -/
def SortBy.value : SortBy → EventRow → ℤ
  | .Ledger, row => row.ledger
  | .Timestamp, row => row.timestamp
  | .CreatedAt, row => row.createdAt

/-- `x`, or `-x` in a descending order: sorting by it ascending is sorting by `x` in that order. -/
def SortOrder.signed : SortOrder → ℤ → ℤ
  | .Asc, x => x
  | .Desc, x => -x

/-- The row value `(col, id)` in the sort direction. -/
def positionKey (order : SortOrder) (value : ℤ) (id : Uuid) : ℤ ×ₗ ℤ :=
  toLex (order.signed value, order.signed id.toNat)

def rowKey (sortBy : SortBy) (order : SortOrder) (row : EventRow) : ℤ ×ₗ ℤ :=
  positionKey order (sortBy.value row) row.id

inductive SqlType where
  | text | textArray | bigint | bool | timestamptz | uuid | double
  deriving DecidableEq, Repr

def SqlValue.type : SqlValue → SqlType
  | .text _ => .text
  | .textArray _ => .textArray
  | .bigint _ => .bigint
  | .bool _ => .bool
  | .timestamptz _ => .timestamptz
  | .uuid _ => .uuid
  | .double _ => .double

/-- The types a condition needs for its placeholders. -/
def Param.types (sortBy : SortBy) : Param → List SqlType
  | .position => [if sortBy = .Ledger then .bigint else .timestamptz, .uuid]
  | .contractIds | .excludeContractIds | .excludeEventTypes => [.textArray]
  | .fromLedger | .toLedger | .schemaVersion | .limit | .offset => [.bigint]
  | .anonymized | .inSuccessfulCall => [.bool]
  | .fromTs | .toTs => [.timestamptz]
  | .near => [.double, .double, .double]
  | _ => [.text]

section
variable (pg : Pg) (sortBy : SortBy) (order : SortOrder)

/-- PostgreSQL takes the bound values for this condition. -/
def Param.accepts (p : Param) (args : List SqlValue) : Bool :=
  decide (args.map SqlValue.type = p.types sortBy) &&
    match p, args with
    | .dataPattern, [.text path] => pg.jsonpathValid path
    | _, _ => true

/-- The condition is true of the row. -/
def Param.holds (row : EventRow) : Param → List SqlValue → Bool
  | .position, [.bigint v, .uuid id] | .position, [.timestamptz v, .uuid id] =>
    positionKey order v id < rowKey sortBy order row
  | .contractId, [.text c] => row.contractId = c
  | .contractIds, [.textArray cs] => cs.contains row.contractId
  | .contractIdPrefix, [.text pattern] => pg.like row.contractId pattern
  | .eventType, [.text et] => row.eventType = et
  | .fromLedger, [.bigint l] => l ≤ row.ledger
  | .toLedger, [.bigint l] => row.ledger ≤ l
  | .ledgerHash, [.text h] => row.ledgerHash = some h
  | .anonymized, [.bool b] => row.anonymized = b
  | .inSuccessfulCall, [.bool b] => row.inSuccessfulCall = b
  | .schemaVersion, [.bigint v] => row.schemaVersion = v
  | .topicSym, [.text t] | .topic0, [.text t] => row.topic0Sym = some t
  | .topicFilter, [.text t] => pg.topicContains row none t
  | .topic1, [.text t] => pg.topicContains row (some 1) t
  | .topic2, [.text t] => pg.topicContains row (some 2) t
  | .topic3, [.text t] => pg.topicContains row (some 3) t
  | .search, [.text s] => pg.tsMatch row s
  | .dataPattern, [.text path] => pg.pathExists row path
  | .fromTs, [.timestamptz t] => t ≤ row.timestamp
  | .toTs, [.timestamptz t] => row.timestamp ≤ t
  | .excludeContractIds, [.textArray cs] => !cs.contains row.contractId
  | .excludeEventTypes, [.textArray ts] => !ts.contains row.eventType
  | .near, [.double lat, .double lon, .double radius] => pg.withinKm row lat lon radius
  | .tenant, [.text t] => row.tenantId = some t
  | .network, [.text n] => row.chainId = n
  | _, _ => false

/-! ### Running a statement -/

/-- The statement is prepared and bound without an error. -/
def Query.runs (q : Query) : Bool :=
  let conds := q.conditions ++ q.window
  decide (q.binds.length = ((mentions conds).map (·.1)).dedup.length) &&
    conds.all fun c => c.param.accepts pg sortBy (args q.binds c)

/-- The `WHERE` clause is true of the row. -/
def Query.selects (q : Query) (row : EventRow) : Bool :=
  q.conditions.all fun c => c.param.holds pg sortBy order row (args q.binds c)

/-- The rows the `WHERE` clause lets through. -/
def Query.select (q : Query) (events : List EventRow) : Except AppError (List EventRow) := do
  rejectIf (!q.runs pg sortBy) .Database
  return events.filter (q.selects pg sortBy order)

/-- Within a ledger by the decoded TOID fields, `NULLS LAST` in either direction. -/
def toidKey (row : EventRow) : ℤ ×ₗ WithTop ℤ ×ₗ WithTop ℤ ×ₗ WithTop ℤ ×ₗ ℤ :=
  let index (i : Option ℤ) : WithTop ℤ := i.map order.signed
  toLex (order.signed row.ledger, toLex (index row.txIndex, toLex (index row.opIndex,
    toLex (index row.eventIndex, order.signed row.id.toNat))))

/-- `ORDER BY` of the offset query. -/
def offsetOrder (rows : List EventRow) : List EventRow := Lib.Keyset.sortOn (rowKey sortBy order) rows

/-- `ORDER BY` of the cursor query. -/
def cursorOrder (rows : List EventRow) : List EventRow :=
  match sortBy with
  | .Ledger => Lib.Keyset.sortOn (toidKey order) rows
  | .Timestamp | .CreatedAt => Lib.Keyset.sortOn (rowKey sortBy order) rows

end

/-! ### Cursors -/

structure Cursor where
  tag : String
  value : String
  id : Uuid

/-- `i64::to_string`. -/
def i64Text (v : ℤ) : String :=
  String.ofList (if v < 0 then '-' :: Lib.decimal 1 v.natAbs else Lib.decimal 1 v.natAbs)

/-- `id.get_version() == Some(Version::Random)`. -/
def isRandomUuid (id : Uuid) : Bool := id.toNat / 2 ^ 76 % 16 = 4

section
variable (libs : Libraries)

/-- `encode_cursor_tagged`. -/
def encodeCursorTagged (tag value : String) (id : Uuid) : String :=
  libs.base64Encode (tag ++ ":" ++ value ++ ":" ++ libs.uuidText id)

/-- `s.splitn(3, ':')` and the checks on its three parts. -/
def parseCursorText (s : String) : Except AppError Cursor :=
  match (Ingest.splitOnce ':' s.toList).bind fun p =>
      (Ingest.splitOnce ':' p.2).map fun q => (p.1, q.1, q.2) with
  | none => .error (.Validation "invalid cursor format")
  | some parts =>
    match libs.parseUuid (String.ofList parts.2.2) with
    | none => .error (.Validation "invalid cursor")
    | some id =>
      if isRandomUuid id then .ok ⟨String.ofList parts.1, String.ofList parts.2.1, id⟩
      else .error (.Validation "invalid cursor")

/-- `decode_cursor_tagged`. -/
def decodeCursorTagged (cursor : String) : Except AppError Cursor :=
  match libs.base64Decode cursor with
  | none => .error (.Validation "invalid cursor")
  | some s => parseCursorText libs s

/-- The value of the sort column as the cursor carries it. -/
def SortBy.valueText (sortBy : SortBy) (row : EventRow) : String :=
  match sortBy with
  | .Ledger => i64Text row.ledger
  | .Timestamp => libs.toRfc3339 row.timestamp
  | .CreatedAt => libs.toRfc3339 row.createdAt

/-- The cursor of the last row of a full page. -/
def nextCursor (sortBy : SortBy) (limit : ℕ) (rows : List EventRow) : Option String :=
  if rows.length = limit then
    rows.getLast?.map fun last =>
      encodeCursorTagged libs sortBy.asTag (sortBy.valueText libs last) last.id
  else none

end

/-! ### The handler -/

/-- `events`, and the row estimate of `pg_class`. -/
structure Database where
  events : List EventRow
  reltuples : ℤ := 0

/-- What the response is rendered from. -/
structure Listing where
  rows : List EventRow
  nextCursor : Option String
  /-- On the offset path: the total, and whether it is an estimate. -/
  total : Option (ℤ × Bool) := none

/-- `parse_format`. -/
def checkFormat (format : Option String) : Except AppError Unit :=
  let other := (format.getD "json").toLower
  rejectIf (other ∉ ["json", "native", "xdr"])
    (.Validation s!"invalid format '{other}': expected one of native, json, xdr")

section
variable (libs : Libraries) (pg : Pg) (db : Database)

def cursorPath (r : Request) (cursorStr : String) : Except AppError Listing := do
  let cursor ← decodeCursorTagged libs cursorStr
  rejectIf (cursor.tag ≠ r.sortColumn.asTag)
    (.Validation "cursor sort column does not match sort_by")
  let q ← cursorQuery libs r cursor.value cursor.id
  let selected ← q.select pg r.sortColumn r.order db.events
  let rows := (cursorOrder r.sortColumn r.order selected).take r.effectiveLimit
  checkFormat r.format
  return { rows, nextCursor := nextCursor libs r.sortColumn r.effectiveLimit rows }

/-- The total and whether it is an estimate. -/
def countEvents (r : Request) : Except AppError (ℤ × Bool) :=
  if r.exactCount.getD false || (offsetConditions r).conditions ≠ [] then do
    let counted ← (countQuery libs r).select pg r.sortColumn r.order db.events
    return (counted.length, false)
  else
    match r.tenantId with
    | some t => .ok ((db.events.filter (·.tenantId = some t)).length, false)
    | none => .ok (db.reltuples, true)

def offsetPath (r : Request) : Except AppError Listing := do
  let q ← offsetQuery libs r
  let selected ← q.select pg r.sortColumn r.order db.events
  let rows := ((offsetOrder r.sortColumn r.order selected).drop r.offset).take r.effectiveLimit
  let total ← countEvents libs pg db r
  return {
    rows
    nextCursor := nextCursor libs r.sortColumn r.effectiveLimit rows
    total := some total }

/-- `get_events`, after the checks. -/
def listEvents (r : Request) : Except AppError Listing :=
  match r.cursor with
  | some cursorStr => cursorPath libs pg db r cursorStr
  | none => offsetPath libs pg db r

def getEvents (isAdmin : Bool) (tenantId : Option String) (p : PaginationParams) :
    Except AppError Listing := do
  let r ← validate libs.parseTimestamp isAdmin tenantId p
  listEvents libs pg db r

end

end SorobanPulse.Events
