import SorobanPulse.Events.PaginationParams
import SorobanPulse.Ingest.StoreEvent
import SorobanPulse.Ingest.Toid
import SorobanPulse.Jsonb
import SorobanPulse.Tokens.Sep41

/-! Where the payload of an event is kept.

        event ──store_event_in_tx──▶ events.event_data
                                     events.event_data_decoded, .fingerprint, .event_data_compressed,
                                           .sep41_*, .asset_*
                                     event_addresses
              ──trigger on each write──▶ events.latitude, .longitude
              ──token_events::backfill──▶ token_transfers

    The columns generated from `event_data` (its first symbol, its text index) follow that column and
    are not kept apart here. `event_data_normalized` is filled by no statement of the indexer. -/

namespace SorobanPulse.Erasure
open Ingest Tokens

abbrev Uuid := Sse.Uuid

/-- The columns of an event that hold what was derived from its payload. -/
structure PayloadCopies where
  eventDataNormalized : Option Value := none
  eventDataDecoded : Option Value := none
  fingerprint : Option String := none
  eventDataCompressed : Option (List UInt8) := none
  compressionAlgo : Option String := none
  sep41EventType : Option String := none
  sep41From : Option String := none
  sep41To : Option String := none
  sep41Amount : Option String := none
  assetCode : Option String := none
  assetIssuer : Option String := none
  /-- The bits of a DOUBLE PRECISION. -/
  latitude : Option UInt64 := none
  longitude : Option UInt64 := none

/-- A row of `events` with all its columns. -/
structure EventRecord extends EventRow where
  id : Uuid
  copies : PayloadCopies
  chainId : String
  txIndex : Option Int32
  opIndex : Option Int32
  eventIndex : Option Int32
  anonymized : Bool

/-- A row of `event_addresses`, under its event's id. -/
structure EventAddress where
  address : String
  position : ℕ
  ledger : ℕ
  deriving DecidableEq, Repr

/-- A row of `token_transfers`, under its event's id. -/
structure TokenTransfer where
  contractId : String
  kind : String
  fromAddress : Option String
  toAddress : Option String
  spender : Option String
  amount : Option String
  ledger : ℕ
  txHash : String
  deriving DecidableEq, Repr

/-- The tables, with their primary key and their unique index. -/
@[ext]
structure Db where
  events : List EventRecord
  eventAddresses : Uuid → List EventAddress
  tokenTransfers : Uuid → Option TokenTransfer
  primaryKey : (events.map (·.id)).Nodup
  uniqueKey : (events.map (·.key)).Nodup

/-- The row with this id. -/
def Db.row (db : Db) (id : Uuid) : Option EventRecord := db.events.find? (·.id = id)

/-! ### The copies made of a payload -/

/-- `sac::SacAsset` -/
structure SacAsset where
  code : String
  issuer : Option String
  deriving DecidableEq, Repr

/-- What the indexer derives columns with: its settings, and the libraries behind them. -/
structure Enrichment where
  chainId : String
  eventCompressionEnabled : Bool
  /-- Hex digest of the text's bytes. -/
  sha256 : String → String
  /-- `Value::to_string` -/
  toText : Value → String
  /-- `decode_event_with_registered_abi` -/
  decodeAbi : String → Value → Option Value
  /-- `event_compression::compress` -/
  compress : Value → Option (List UInt8)
  /-- `sac::detect` on this network -/
  detect : String → List Value → Option SacAsset

variable (enrichment : Enrichment)

def computeFingerprint (row : EventRow) : String :=
  enrichment.sha256 (row.txHash ++ "\x00" ++ row.contractId ++ "\x00" ++ row.eventType ++ "\x00"
    ++ enrichment.toText row.eventData)

/-- `event_data["topic"]`, when it is an array. -/
def topicsOf (eventData : Value) : Option (List Value) :=
  match eventData with
  | .object map =>
    match map.lookup "topic" with
    | some (.array topics) => some topics
    | _ => none
  | _ => none

def valueOf (eventData : Value) : Value :=
  match eventData with
  | .object map => (map.lookup "value").getD .null
  | _ => .null

/-- `sep41::decode_event_data` -/
def sep41Event (eventData : Value) : Option Sep41.Sep41Event :=
  (topicsOf eventData).bind fun topics => Sep41.decode topics (valueOf eventData)

/-- The columns of the INSERT in `store_event_in_tx` that come from the payload. -/
def payloadCopies (row : EventRow) : PayloadCopies :=
  let topics := (topicsOf row.eventData).getD []
  let compressed :=
    if enrichment.eventCompressionEnabled then enrichment.compress row.eventData else none
  let sacAsset := enrichment.detect row.contractId topics
  let sep41 := sep41Event row.eventData
  { eventDataDecoded := enrichment.decodeAbi row.contractId row.eventData
    fingerprint := some (computeFingerprint enrichment row)
    eventDataCompressed := compressed
    compressionAlgo := compressed.map fun _ => "gzip"
    sep41EventType := sep41.map (·.eventType.asStr)
    sep41From := sep41.bind (·.fromAddr)
    sep41To := sep41.bind (·.toAddr)
    sep41Amount := sep41.map (·.amount)
    assetCode := sacAsset.map (·.code)
    assetIssuer := sacAsset.bind (·.issuer) }

/-- The text of a topic that may be an address. -/
def topicAddress (topic : Value) : Option String :=
  topic.asStr.or <|
    match topic with
    | .object map => (map.lookup "address").bind Value.asStr
    | _ => none

def extractAddresses (eventData : Value) : List (String × ℕ) :=
  ((topicsOf eventData).getD []).zipIdx.filterMap fun (topic, i) =>
    ((topicAddress topic).filter Sep41.isAddress).map fun address => (address, i)

/-- The row that `store_event_in_tx` inserts for a prepared one. -/
def storedRecord (id : Uuid) (event : SorobanEvent) (row : EventRow) : EventRecord where
  toEventRow := row
  id := id
  copies := payloadCopies enrichment row
  chainId := enrichment.chainId
  txIndex := (event.rpcId.bind parseEventId).map (·.txIndex)
  opIndex := (event.rpcId.bind parseEventId).map (·.opIndex)
  eventIndex := (event.rpcId.bind parseEventId).map (·.eventIndex)
  anonymized := false

/-- The addresses that go with it. -/
def storedAddresses (row : EventRow) : List EventAddress :=
  (extractAddresses row.eventData).map fun (address, position) =>
    { address, position, ledger := row.ledger }

/-- The row that `store_event_with_idempotency` inserts; the other columns get their defaults. -/
def replayedRecord (id : Uuid) (event : SorobanEvent) (timestamp : ℤ) : EventRecord where
  contractId := event.contractId
  eventType := event.eventType
  txHash := event.txHash
  ledger := event.ledger.toNat
  timestamp := timestamp
  eventData := eventData event
  ledgerHash := none
  inSuccessfulCall := true
  tenantId := none
  id := id
  copies := {}
  chainId := "mainnet"
  txIndex := none
  opIndex := none
  eventIndex := none
  anonymized := false

/-! ### Coordinates -/

/-- PostgreSQL's casts to DOUBLE PRECISION: `none` where they raise, `some none` for NULL. -/
structure DoubleCasts where
  /-- of the text that `->>` makes of a value -/
  ofText : Value → Option (Option UInt64)
  /-- of the value itself -/
  ofJsonb : Value → Option (Option UInt64)

/-- `v ? key`: a key of an object, an entry of an array, or the string itself. -/
def hasKey (v : Value) (key : String) : Bool :=
  match v with
  | .object map => (map.lookup key).isSome
  | .array items => items.any fun item => item.asStr == some key
  | .string s => s == key
  | _ => false

section
variable (casts : DoubleCasts)

/-- `(v->>key)::DOUBLE PRECISION` -/
def DoubleCasts.field (v : Value) (key : String) : Option (Option UInt64) :=
  (member v key).elim (some none) casts.ofText

/-- `extract_coordinates_from_event_data`, the trigger before every INSERT and UPDATE: `none` where
    it raises. -/
def EventRecord.extractCoordinates (new : EventRecord) : Option EventRecord :=
  let set (latitude longitude : Option UInt64) : EventRecord :=
    { new with copies := { new.copies with latitude, longitude } }
  let location := member new.eventData "location"
  if hasKey new.eventData "latitude" && hasKey new.eventData "longitude" then do
    return set (← casts.field new.eventData "latitude") (← casts.field new.eventData "longitude")
  else if location.any (hasKey · "lat") && location.any (hasKey · "lon") then do
    let location ← location
    return set (← casts.field location "lat") (← casts.field location "lon")
  else
    match member new.eventData "coordinates" with
    | none => some new
    | some (.array (lon :: lat :: _)) => do
      let longitude ← casts.ofJsonb lon
      return set (← casts.ofJsonb lat) longitude
    | some (.array _) => some new
    | some _ => none  -- jsonb_array_length of no array

/-- Without the members it looks for, the trigger leaves the row as it is. -/
theorem extractCoordinates_of_absent {new : EventRecord} {map : List (String × Value)}
    (h : new.eventData = .object map) (hlatitude : map.lookup "latitude" = none)
    (hlocation : map.lookup "location" = none) (hcoordinates : map.lookup "coordinates" = none) :
    new.extractCoordinates casts = some new := by
  have hkey : hasKey new.eventData "latitude" = false := by
    rw [h, hasKey, hlatitude]
    rfl
  have hmember : member new.eventData "location" = none := by rw [h, member, hlocation]
  have hlist : member new.eventData "coordinates" = none := by rw [h, member, hcoordinates]
  rw [EventRecord.extractCoordinates]
  dsimp only
  rw [hkey, hmember, hlist]
  rfl

/-- The indexer writes the members `topic` and `value` only. -/
theorem extractCoordinates_eventData {new : EventRecord} {event : SorobanEvent}
    (h : new.eventData = eventData event) : new.extractCoordinates casts = some new :=
  extractCoordinates_of_absent casts h rfl rfl rfl

/-! ### Statements -/

/-- INSERT … ON CONFLICT (tx_hash, contract_id, event_type) DO NOTHING, with its addresses, under an
    id of its own. It fails where the trigger raises. -/
def Db.insert (db : Db) (record : EventRecord) (addresses : List EventAddress) : Option Db :=
  (record.extractCoordinates casts).map fun record =>
  if h : record.id ∉ db.events.map (·.id) ∧ record.key ∉ db.events.map (·.key) then
    { db with
      events := db.events ++ [record]
      eventAddresses := fun i => if i = record.id then addresses else db.eventAddresses i
      primaryKey := by
        rw [List.map_append]
        exact List.nodup_append.mpr ⟨db.primaryKey, List.nodup_singleton _, by
          intro a ha b hb
          rw [List.mem_singleton.mp hb]
          rintro rfl
          exact h.1 ha⟩
      uniqueKey := by
        rw [List.map_append]
        exact List.nodup_append.mpr ⟨db.uniqueKey, List.nodup_singleton _, by
          intro a ha b hb
          rw [List.mem_singleton.mp hb]
          rintro rfl
          exact h.2 ha⟩ }
  else db

end

section
variable {db : Db} {id : Uuid} {r r' : EventRecord}

theorem Db.eq_of_id (hr : r ∈ db.events) (hr' : r' ∈ db.events) (h : r.id = r'.id) : r = r' :=
  List.inj_on_of_nodup_map db.primaryKey hr hr' h

theorem Db.row_eq_some : db.row id = some r ↔ r ∈ db.events ∧ r.id = id := by
  constructor
  · intro h
    exact ⟨List.mem_of_find?_eq_some h, by simpa using List.find?_some h⟩
  · rintro ⟨hr, rfl⟩
    cases hrow : db.row r.id with
    | none => exact absurd (List.find?_eq_none.mp hrow r hr) (by simp)
    | some r' =>
      have hr' := List.mem_of_find?_eq_some hrow
      have hid : r'.id = r.id := by simpa using List.find?_some hrow
      rw [Db.eq_of_id hr' hr hid]

end

end SorobanPulse.Erasure
