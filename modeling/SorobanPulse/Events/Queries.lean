import SorobanPulse.Lib.Placeholders
import SorobanPulse.Lib.TextCodecs
import SorobanPulse.Events.PaginationParams

/-! The statements `get_events` and `export_events` prepare: conditions and binds.

    Each statement is two lists written apart. One guarded push a condition, numbering `$n` by
    `bind_idx`; one guarded `bind` a value.

        cursor   position, filters …, topic_0–3, search, data_pattern, …, tenant, network, limit
        offset   filters …, search, …, tenant, limit, offset
        count    the offset conditions, with binds of their own
        export   contract, type, ledgers, timestamps, limit;  its COUNT has binds of its own -/

namespace SorobanPulse.Events
open Lib.Placeholders

/-- What a condition or a bound value is about. -/
inductive Param where
  | position | contractId | contractIds | contractIdPrefix | eventType | fromLedger | toLedger
  | ledgerHash | anonymized | inSuccessfulCall | schemaVersion | topicSym | topicFilter
  | topic0 | topic1 | topic2 | topic3 | search | dataPattern | fromTs | toTs
  | excludeContractIds | excludeEventTypes | near | tenant | network | limit | offset
  deriving DecidableEq, Repr

/-- A value as sqlx sends it. -/
inductive SqlValue where
  | text (s : String)
  | textArray (ss : List String)
  | bigint (n : ℤ)
  | bool (b : Bool)
  | timestamptz (t : Timestamp)
  | uuid (u : Uuid)
  | double (x : ℚ)
  deriving DecidableEq, Repr

/-- The libraries `get_events` calls: chrono, base64 (with the UTF-8 check), uuid and serde_json. -/
structure Libraries where
  parseTimestamp : String → Option Timestamp
  toRfc3339 : Timestamp → String
  base64Encode : String → String
  base64Decode : String → Option String
  uuidText : Uuid → String
  parseUuid : String → Option Uuid
  jsonText : Value → String

/-- Cursors are written and read as by the real libraries; no time is parsed here, and of JSON only
    strings without escapes are written. -/
def plainLibraries : Libraries where
  parseTimestamp _ := none
  toRfc3339 := Lib.rfc3339
  base64Encode := Lib.base64Text
  base64Decode := Lib.base64ReadText
  uuidText := Lib.uuidText
  parseUuid := Lib.parseUuid
  jsonText
    | .string s => "\"" ++ s ++ "\""
    | _ => "null"

/-! ### Texts of the conditions -/

/-- The condition's SQL, as `format!` builds it; `col` and `op` are those of the cursor. -/
def Param.sql (col op : String) : Param → List ℕ → String
  | .position, [m, n] => s!"({col}, id) {op} (${m}, ${n})"
  | .contractId, [n] => s!"contract_id = ${n}"
  | .contractIds, [n] => s!"contract_id = ANY(${n}::text[])"
  | .contractIdPrefix, [n] => s!"contract_id LIKE ${n}"
  | .eventType, [n] => s!"event_type = ${n}"
  | .fromLedger, [n] => s!"ledger >= ${n}"
  | .toLedger, [n] => s!"ledger <= ${n}"
  | .ledgerHash, [n] => s!"ledger_hash = ${n}"
  | .anonymized, [n] => s!"anonymized = ${n}"
  | .inSuccessfulCall, [n] => s!"in_successful_call = ${n}"
  | .schemaVersion, [n] => s!"schema_version = ${n}"
  | .topicSym, [n] => s!"topic_0_sym = ${n}"
  | .topicFilter, [n] => s!"event_data->'topic' @> ${n}::jsonb"
  | .topic0, [n] => s!"topic_0_sym = ${n}"
  | .topic1, [n] => s!"event_data->'topic'->1 @> ${n}::jsonb"
  | .topic2, [n] => s!"event_data->'topic'->2 @> ${n}::jsonb"
  | .topic3, [n] => s!"event_data->'topic'->3 @> ${n}::jsonb"
  | .search, [n] => s!"event_data_tsv @@ plainto_tsquery('english', ${n})"
  | .dataPattern, [n] => s!"jsonb_path_exists(event_data, ${n}::jsonpath)"
  | .fromTs, [n] => s!"timestamp >= ${n}"
  | .toTs, [n] => s!"timestamp <= ${n}"
  | .excludeContractIds, [n] => s!"contract_id != ALL(${n}::text[])"
  | .excludeEventTypes, [n] => s!"event_type != ALL(${n}::text[])"
  | .near, [l, m, n] =>
    s!"earth_distance(ll_to_earth(latitude, longitude), ll_to_earth(${l}, ${m})) <= ${n} * 1000"
  | .tenant, [n] => s!"tenant_id = ${n}"
  | .network, [n] => s!"chain_id = ${n}"
  | .limit, [n] => s!"LIMIT ${n}"
  | .offset, [n] => s!"OFFSET ${n}"
  | _, _ => ""

/-- A statement: its conditions, the placeholders of `LIMIT` and `OFFSET`, the bound values. -/
structure Query where
  conditions : List (Condition Param)
  window : List (Condition Param)
  binds : List (Bind Param SqlValue)

/-- One value for each placeholder, and the one its condition speaks of. -/
def Query.Agrees (q : Query) : Prop := Lib.Placeholders.Agrees (q.conditions ++ q.window) q.binds

/-! ### Values as they are bound -/

/-- `format_jsonpath_filter`. -/
def formatJsonpathFilter (path pattern : String) : String :=
  let escaped := (pattern.replace "\\" "\\\\").replace "\"" "\\\""
  s!"{path} ? (@ like_regex \"{escaped}\")"

/-- The values of the geospatial filter, which needs all three. -/
def PaginationParams.nearValues (p : PaginationParams) : Option (List SqlValue) :=
  match p.nearLat, p.nearLon, p.radiusKm with
  | some lat, some lon, some radius => some [.double lat, .double lon, .double radius]
  | _, _, _ => none

/-- A parameter with one value, bound where it is supplied. -/
def bindOne {α : Type} (p : Param) (f : α → SqlValue) (v : Option α) :
    List (Bind Param SqlValue) := bindOpt p (v.map fun a => [f a])

/-- A list that is used only when it is not empty. -/
def nonempty (vs : List String) : Option (List String) := if vs = [] then none else some vs

def prefixPattern (pre : String) : String := trim pre ++ "%"

section
variable (libs : Libraries) (r : Request)

/-! ### Cursor query -/

/-- The conditions of the cursor query, after `(col, id) op ($1, $2)`. -/
def cursorConditions : Builder Param :=
  (⟨[⟨.position, [1, 2]⟩], 3⟩ : Builder Param)
    |>.push r.contractId.isSome .contractId 1
    |>.push (nonempty r.contractIdsList).isSome .contractIds 1
    |>.push r.contractIdPrefix.isSome .contractIdPrefix 1
    |>.push r.eventType.isSome .eventType 1
    |>.push r.fromLedger.isSome .fromLedger 1
    |>.push r.toLedger.isSome .toLedger 1
    |>.push r.ledgerHash.isSome .ledgerHash 1
    |>.push r.anonymized.isSome .anonymized 1
    |>.push r.inSuccessfulCall.isSome .inSuccessfulCall 1
    |>.push r.schemaVersion.isSome .schemaVersion 1
    |>.push r.topicSym.isSome .topicSym 1
    |>.push r.topicFilter.isSome .topicFilter 1
    |>.push r.topic0.isSome .topic0 1
    |>.push r.topic1.isSome .topic1 1
    |>.push r.topic2.isSome .topic2 1
    |>.push r.topic3.isSome .topic3 1
    |>.push r.search.isSome .search 1
    |>.push r.dataPattern.isSome .dataPattern 1
    |>.push r.fromTs.isSome .fromTs 1
    |>.push r.toTs.isSome .toTs 1
    |>.push (nonempty r.excludeContractIdsList).isSome .excludeContractIds 1
    |>.push (nonempty r.excludeEventTypesList).isSome .excludeEventTypes 1
    |>.push r.nearValues.isSome .near 3
    |>.push r.tenantId.isSome .tenant 1
    |>.push r.network.isSome .network 1

/-- The JSONPath bound for `data_pattern`, which cannot do without `pattern`. -/
def patternValue : Except AppError (Option String) :=
  match r.dataPattern, r.pattern with
  | none, _ => .ok none
  | some path, some pattern => .ok (some (formatJsonpathFilter path pattern))
  | some _, none => .error (.Validation "pattern is required when data_pattern is set")

/-- The binds of the cursor query; `data_pattern` comes before `search` here. -/
def cursorBinds (after : SqlValue) (cursorId : Uuid) :
    Except AppError (List (Bind Param SqlValue)) := do
  let dataPattern ← patternValue r
  return bindAll .position [after, .uuid cursorId]
    ++ bindOne .contractId .text r.contractId
    ++ bindOne .contractIds .textArray (nonempty r.contractIdsList)
    ++ bindOne .contractIdPrefix (fun pre => .text (prefixPattern pre)) r.contractIdPrefix
    ++ bindOne .eventType (fun et => .text et.toString) r.eventType
    ++ bindOne .fromLedger .bigint r.fromLedger
    ++ bindOne .toLedger .bigint r.toLedger
    ++ bindOne .ledgerHash .text r.ledgerHash
    ++ bindOne .anonymized .bool r.anonymized
    ++ bindOne .inSuccessfulCall .bool r.inSuccessfulCall
    ++ bindOne .schemaVersion .bigint r.schemaVersion
    ++ bindOne .topicSym .text r.topicSym
    ++ bindOne .topicFilter (fun tf => .text (libs.jsonText tf)) r.topicFilter
    ++ bindOne .topic0 .text r.topic0
    ++ bindOne .topic1 (fun t => .text (libs.jsonText (.string t))) r.topic1
    ++ bindOne .topic2 (fun t => .text (libs.jsonText (.string t))) r.topic2
    ++ bindOne .topic3 (fun t => .text (libs.jsonText (.string t))) r.topic3
    ++ bindOne .dataPattern .text dataPattern
    ++ bindOne .search .text r.search
    ++ bindOne .fromTs .timestamptz r.fromTs
    ++ bindOne .toTs .timestamptz r.toTs
    ++ bindOne .excludeContractIds .textArray (nonempty r.excludeContractIdsList)
    ++ bindOne .excludeEventTypes .textArray (nonempty r.excludeEventTypesList)
    ++ bindOpt .near r.nearValues
    ++ bindOne .tenant .text r.tenantId
    ++ bindOne .network .text r.network
    ++ bindAll .limit [.bigint r.effectiveLimit]

/-- The columns of the `SELECT`: those of the response, and what the handler itself reads. -/
def selectColumns (columns : List String) (sortCol : String) : List String :=
  [sortCol, "id", "created_at"].foldl (fun cols c => if cols.contains c then cols else cols ++ [c])
    columns

/-- `validate_column_name`: in the allowlist, lowercase letters and underscores only. -/
def validateColumnName (col : String) : Bool :=
  ALLOWED_FIELDS.contains col && col.toList.all fun c => c.isLower || c == '_'

def checkColumns (cols : List String) : Except AppError Unit :=
  cols.forM fun col =>
    if validateColumnName col then .ok ()
    else .error (.Validation s!"invalid column name: {col}")

/-- `str::parse::<i64>`. -/
def parseI64 (s : String) : Option ℤ := Lib.parseSigned (2 ^ 63) s.toList

/-- The position as a value of the sort column. -/
def positionValue (valText : String) : Except AppError SqlValue :=
  match r.sortColumn with
  | .Ledger =>
    match parseI64 valText with
    | some v => .ok (.bigint v)
    | none => .error (.Validation "invalid ledger cursor")
  | .Timestamp | .CreatedAt =>
    match libs.parseTimestamp valText with
    | some t => .ok (.timestamptz t)
    | none => .error (.Validation "invalid timestamp cursor")

/-- The cursor query. With `rank_by_relevance` the column check stops it at `relevance_score`. -/
def cursorQuery (valText : String) (cursorId : Uuid) : Except AppError Query := do
  let rank := r.rankByRelevance.getD false
  rejectIf (rank && r.search.isNone) (.Validation "rank_by_relevance requires search query")
  checkColumns (selectColumns r.columnsList r.sortColumn.asSqlCol ++
    if rank then ["relevance_score"] else [])
  let after ← positionValue libs r valText
  let binds ← cursorBinds libs r after cursorId
  let b := cursorConditions r
  return { conditions := b.conditions, window := [⟨.limit, [b.bindIdx]⟩], binds }

/-! ### Offset query and its count -/

def offsetConditions : Builder Param :=
  (⟨[], 1⟩ : Builder Param)
    |>.push r.contractId.isSome .contractId 1
    |>.push (nonempty r.contractIdsList).isSome .contractIds 1
    |>.push r.contractIdPrefix.isSome .contractIdPrefix 1
    |>.push r.eventType.isSome .eventType 1
    |>.push r.fromLedger.isSome .fromLedger 1
    |>.push r.toLedger.isSome .toLedger 1
    |>.push r.ledgerHash.isSome .ledgerHash 1
    |>.push r.anonymized.isSome .anonymized 1
    |>.push r.inSuccessfulCall.isSome .inSuccessfulCall 1
    |>.push r.schemaVersion.isSome .schemaVersion 1
    |>.push r.topicSym.isSome .topicSym 1
    |>.push r.topicFilter.isSome .topicFilter 1
    |>.push r.search.isSome .search 1
    |>.push r.fromTs.isSome .fromTs 1
    |>.push r.toTs.isSome .toTs 1
    |>.push (nonempty r.excludeContractIdsList).isSome .excludeContractIds 1
    |>.push (nonempty r.excludeEventTypesList).isSome .excludeEventTypes 1
    |>.push r.nearValues.isSome .near 3
    |>.push r.tenantId.isSome .tenant 1

/-- What the offset query and its count bind alike, from `event_type` on. -/
def sharedBinds : List (Bind Param SqlValue) :=
  bindOne .eventType (fun et => .text et.toString) r.eventType
    ++ bindOne .fromLedger .bigint r.fromLedger
    ++ bindOne .toLedger .bigint r.toLedger
    ++ bindOne .ledgerHash .text r.ledgerHash
    ++ bindOne .anonymized .bool r.anonymized
    ++ bindOne .inSuccessfulCall .bool r.inSuccessfulCall
    ++ bindOne .schemaVersion .bigint r.schemaVersion
    ++ bindOne .topicSym .text r.topicSym
    ++ bindOne .topicFilter (fun tf => .text (libs.jsonText tf)) r.topicFilter
    ++ bindOne .search .text r.search
    ++ bindOne .fromTs .timestamptz r.fromTs
    ++ bindOne .toTs .timestamptz r.toTs
    ++ bindOne .excludeContractIds .textArray (nonempty r.excludeContractIdsList)
    ++ bindOne .excludeEventTypes .textArray (nonempty r.excludeEventTypesList)
    ++ bindOpt .near r.nearValues
    ++ bindOne .tenant .text r.tenantId

def offsetBinds : List (Bind Param SqlValue) :=
  bindOne .contractId .text r.contractId
    ++ bindOne .contractIds .textArray (nonempty r.contractIdsList)
    ++ bindOne .contractIdPrefix (fun pre => .text (prefixPattern pre)) r.contractIdPrefix
    ++ sharedBinds libs r
    ++ bindAll .limit [.bigint r.effectiveLimit]
    ++ bindAll .offset [.bigint r.offset]

def offsetQuery : Except AppError Query := do
  checkColumns (selectColumns r.columnsList r.sortColumn.asSqlCol)
  let b := offsetConditions r
  return {
    conditions := b.conditions
    window := [⟨.limit, [b.bindIdx]⟩, ⟨.offset, [b.bindIdx + 1]⟩]
    binds := offsetBinds libs r }

/-- The exact count under the offset query's `WHERE`; it binds neither `contract_ids` nor the
    prefix. -/
def countQuery : Query where
  conditions := (offsetConditions r).conditions
  window := []
  binds := bindOne .contractId .text r.contractId ++ sharedBinds libs r

end

/-! ### Export -/

structure ExportParams where
  eventType : Option EventType := none
  fromLedger : Option ℤ := none
  toLedger : Option ℤ := none
  contractId : Option String := none
  fromTimestamp : Option Timestamp := none
  toTimestamp : Option Timestamp := none

section
variable (p : ExportParams)

def exportConditions : Builder Param :=
  (⟨[], 1⟩ : Builder Param)
    |>.push p.contractId.isSome .contractId 1
    |>.push p.eventType.isSome .eventType 1
    |>.push p.fromLedger.isSome .fromLedger 1
    |>.push p.toLedger.isSome .toLedger 1
    |>.push p.fromTimestamp.isSome .fromTs 1
    |>.push p.toTimestamp.isSome .toTs 1

/-- What the export and its count bind alike. -/
def exportBinds : List (Bind Param SqlValue) :=
  bindOne .contractId .text p.contractId
    ++ bindOne .eventType (fun et => .text et.toString) p.eventType
    ++ bindOne .fromLedger .bigint p.fromLedger
    ++ bindOne .toLedger .bigint p.toLedger

def exportQuery (maxRows : ℕ) : Query where
  conditions := (exportConditions p).conditions
  window := [⟨.limit, [(exportConditions p).bindIdx]⟩]
  binds := exportBinds p
    ++ bindOne .fromTs .timestamptz p.fromTimestamp
    ++ bindOne .toTs .timestamptz p.toTimestamp
    ++ bindAll .limit [.bigint maxRows]

/-- The count for `Content-Range`; it does not bind the timestamps. -/
def exportCountQuery : Query where
  conditions := (exportConditions p).conditions
  window := []
  binds := exportBinds p

end

end SorobanPulse.Events
