import Mathlib
import SorobanPulse.Json
import SorobanPulse.Lib.Fallible
import SorobanPulse.Sse.RingBuffer

/-! The query parameters of `/v1/events` and the checks `get_events` makes before it reads.

    The checks come in the source's order and the first that fails answers the request: ledger
    range, timestamp range, the admin-only `anonymized` filter, contract ids, prefix, columns. What
    passes is a `Request`, on which both pagination paths work.

    `topic_filter` and the two exclusion lists are used by `get_events` under those names without a
    definition of their own in it; here they are fields beside the parameters. Floats are `ℚ`. -/

namespace SorobanPulse.Events

abbrev Uuid := Sse.Uuid

/-- Microseconds since the epoch, what a `TIMESTAMPTZ` column holds. -/
abbrev Timestamp := ℤ

inductive AppError where
  | Validation (message : String)
  | Forbidden (message : String)
  | NotFound
  | Database
  deriving DecidableEq, Repr

inductive EventType where
  | Contract | Diagnostic | System
  deriving DecidableEq, Repr

def EventType.toString : EventType → String
  | .Contract => "contract"
  | .Diagnostic => "diagnostic"
  | .System => "system"

inductive SortOrder where
  | Asc | Desc
  deriving DecidableEq, Repr

inductive SortBy where
  | Ledger | Timestamp | CreatedAt
  deriving DecidableEq, Repr

/-- `SortBy::as_sql_col`. -/
def SortBy.asSqlCol : SortBy → String
  | .Ledger => "ledger"
  | .Timestamp => "timestamp"
  | .CreatedAt => "created_at"

/-- `SortBy::as_tag`. -/
def SortBy.asTag : SortBy → String
  | .Ledger => "ledger"
  | .Timestamp => "timestamp"
  | .CreatedAt => "created_at"

structure PaginationParams where
  page : Option ℤ := none
  limit : Option ℤ := none
  exactCount : Option Bool := none
  fields : Option String := none
  contractId : Option String := none
  contractIds : Option String := none
  eventType : Option EventType := none
  fromLedger : Option ℤ := none
  toLedger : Option ℤ := none
  ledgerHash : Option String := none
  cursor : Option String := none
  sort : Option SortOrder := none
  sortBy : Option SortBy := none
  inSuccessfulCall : Option Bool := none
  schemaVersion : Option ℤ := none
  anonymized : Option Bool := none
  topicSym : Option String := none
  topicFilter : Option Value := none
  topic0 : Option String := none
  topic1 : Option String := none
  topic2 : Option String := none
  topic3 : Option String := none
  search : Option String := none
  dataPattern : Option String := none
  pattern : Option String := none
  rankByRelevance : Option Bool := none
  fromTimestamp : Option String := none
  toTimestamp : Option String := none
  compact : Option Bool := none
  contractIdPrefix : Option String := none
  format : Option String := none
  network : Option String := none
  excludeContractIdsList : List String := []
  excludeEventTypesList : List String := []
  nearLat : Option ℚ := none
  nearLon : Option ℚ := none
  radiusKm : Option ℚ := none

def ALLOWED_FIELDS : List String :=
  ["id", "contract_id", "event_type", "tx_hash", "ledger", "timestamp", "event_data",
    "event_data_normalized", "event_data_decoded", "ledger_hash", "in_successful_call",
    "created_at", "schema_version", "anonymized", "asset_code", "asset_issuer"]

def MAX_CONTRACT_IDS_FILTER : ℕ := 20

namespace PaginationParams

/-- `clamp(1, 100)`, 20 where no limit is given. -/
def effectiveLimit (p : PaginationParams) : ℕ := (max 1 (min 100 (p.limit.getD 20))).toNat

/-- The pages before this one, in rows; the product saturates at `i64::MAX`. -/
def offset (p : PaginationParams) : ℕ :=
  (min I64_MAX ((max 1 (p.page.getD 1) - 1) * p.effectiveLimit)).toNat

def order (p : PaginationParams) : SortOrder := p.sort.getD .Desc

def sortColumn (p : PaginationParams) : SortBy := p.sortBy.getD .Ledger

theorem effectiveLimit_pos (p : PaginationParams) : 0 < p.effectiveLimit := by
  rw [effectiveLimit, Int.lt_toNat]
  exact lt_of_lt_of_le Int.one_pos (le_max_left _ _)

@[simp] theorem offset_page_none {p : PaginationParams} (h : p.page = none) : p.offset = 0 := by
  simp [offset, h, I64_MAX]

end PaginationParams

/-! ### Text -/

/-- The characters `str::trim` removes: Unicode's `White_Space`. -/
def isWhitespace (c : Char) : Bool :=
  (9 ≤ c.toNat && c.toNat ≤ 13) || (0x2000 ≤ c.toNat && c.toNat ≤ 0x200A) ||
    [0x20, 0x85, 0xA0, 0x1680, 0x2028, 0x2029, 0x202F, 0x205F, 0x3000].contains c.toNat

/-- `str::trim`. -/
def trim (s : String) : String :=
  String.ofList ((s.toList.dropWhile isWhitespace).reverse.dropWhile isWhitespace).reverse

/-- `s.split(',').map(trim)`. -/
def commaList (s : String) : List String :=
  (s.toList.splitOn ',').map fun cs => trim (String.ofList cs)

/-- `chars().all(|c| c.is_ascii_alphanumeric())`. -/
def isAsciiAlphanumeric (s : String) : Bool := s.toList.all fun c => c.toNat < 128 && c.isAlphanum

/-! ### Checks -/

/-- `if rejected { return Err(e); }`. -/
def rejectIf (rejected : Bool) (e : AppError) : Except AppError Unit :=
  if rejected then .error e else .ok ()

/-- `validate_ledger_param`: a ledger sequence is a `u32`. -/
def validateLedgerParam (name : String) (value : ℤ) : Except AppError Unit :=
  if value < 0 ∨ 4294967295 < value then
    .error (.Validation s!"{name} must be in range [0, 4294967295]")
  else .ok ()

/-- `validate_contract_id`. -/
def validateContractId (contractId : String) : Except AppError Unit :=
  if contractId.utf8ByteSize ≠ 56 ∨ contractId.toList.head? ≠ some 'C' ∨
      isAsciiAlphanumeric contractId = false then
    .error (.Validation "invalid contract_id format")
  else .ok ()

/-- The columns of the response: those `fields` names, or all. -/
def PaginationParams.columns (p : PaginationParams) : Except AppError (List String) :=
  match p.fields with
  | none => .ok ALLOWED_FIELDS
  | some f =>
    if trim f = "" then .ok ALLOWED_FIELDS
    else
      let unknown := (commaList f).filter fun c => !ALLOWED_FIELDS.contains c
      if unknown = [] then .ok (commaList f)
      else
        let names := ", ".intercalate unknown
        let valid := ", ".intercalate ALLOWED_FIELDS
        .error (.Validation s!"unknown fields: [{names}]; valid fields are: [{valid}]")

/-- The list `contract_ids` names; empty when the parameter is absent. -/
def contractIdsList (p : PaginationParams) : Except AppError (List String) :=
  match p.contractIds with
  | none => .ok []
  | some cids =>
    let ids := (commaList cids).filter (· ≠ "")
    if ids = [] then .error (.Validation "contract_ids parameter is empty")
    else if MAX_CONTRACT_IDS_FILTER < ids.length then
      .error (.Validation s!"contract_ids exceeds maximum of {MAX_CONTRACT_IDS_FILTER} IDs")
    else do
      ids.forM validateContractId
      return ids

def validatePrefix (p : PaginationParams) : Except AppError Unit :=
  match p.contractIdPrefix with
  | none => .ok ()
  | some pre =>
    if (trim pre).utf8ByteSize < 4 then
      .error (.Validation "contract_id_prefix must be at least 4 characters")
    else if isAsciiAlphanumeric (trim pre) = false then
      .error (.Validation "contract_id_prefix must contain only alphanumeric characters")
    else .ok ()

/-- `validate_timestamp`, on a parameter that may be absent. -/
def validateTimestamp (parse : String → Option Timestamp) :
    Option String → Except AppError (Option Timestamp)
  | none => .ok none
  | some ts =>
    match parse ts with
    | some t => .ok (some t)
    | none => .error (.Validation s!"invalid timestamp format: {ts}")

/-- A range whose ends, where both are given, must not be crossed. -/
def validateRange (message : String) : Option ℤ → Option ℤ → Except AppError Unit
  | some lo, some hi => if hi < lo then .error (.Validation message) else .ok ()
  | _, _ => .ok ()

/-- A request that passed the checks. -/
structure Request extends PaginationParams where
  contractIdsList : List String
  fromTs : Option Timestamp
  toTs : Option Timestamp
  columnsList : List String
  tenantId : Option String

/-- The checks of `get_events`; `parse` is chrono's parser and `isAdmin` is `is_admin_request`. -/
def validate (parse : String → Option Timestamp) (isAdmin : Bool) (tenantId : Option String)
    (p : PaginationParams) : Except AppError Request := do
  p.fromLedger.forM (validateLedgerParam "from_ledger")
  p.toLedger.forM (validateLedgerParam "to_ledger")
  validateRange "from_ledger must be <= to_ledger" p.fromLedger p.toLedger
  let fromTs ← validateTimestamp parse p.fromTimestamp
  let toTs ← validateTimestamp parse p.toTimestamp
  validateRange "from_timestamp must be <= to_timestamp" fromTs toTs
  rejectIf (p.anonymized.isSome && !isAdmin)
    (.Forbidden "anonymized filter requires admin privileges")
  p.contractId.forM validateContractId
  let contractIdsList ← contractIdsList p
  validatePrefix p
  let columnsList ← p.columns
  return { p with contractIdsList, fromTs, toTs, columnsList, tenantId }

end SorobanPulse.Events
