import SorobanPulse.Jsonb
import SorobanPulse.Ingest.StoreEvent

/-! Encryption at rest: what the two insert paths store of an event's payload.

        store_event          {value, topic} ──▶ encrypt ──▶ event_data
        store_event_in_tx    {value, topic} ──────────────▶ event_data
                                    ├─ registered ABI ────▶ event_data_decoded
                                    └─ gzip ──────────────▶ event_data_compressed

    An encrypted value is an envelope with the ciphertext in its `data`; what is no envelope is taken
    for plaintext when it is read. -/

namespace SorobanPulse.Ingest
open Xdr

abbrev EncryptionKey := BitVec 256

/-- serde_json as bytes, and AES-256-GCM under a nonce, nonce and ciphertext in base64. -/
structure Cipher where
  toVec : Value → Option (List UInt8)
  fromSlice : List UInt8 → Option Value
  encrypt : EncryptionKey → String → List UInt8 → Option String
  decrypt : EncryptionKey → String → String → Option (List UInt8)

/-- The settings, libraries and tables that decide how a payload is stored. -/
structure Deployment where
  /-- Built with the `encryption` feature; without it `encrypt` and `decrypt` are no-ops. -/
  encryptionFeature : Bool
  cipher : Cipher
  keyVersion : ℕ
  eventDataEncryptionKey : Option EncryptionKey
  eventCompressionEnabled : Bool
  enableContentDedup : Bool
  config : Config
  libraries : Libraries
  /-- `decode_event_with_registered_abi`, for the ABIs that are registered. -/
  decodeEvent : String → Value → Option Value
  /-- `event_compression::compress` -/
  compress : Value → Option (List UInt8)
  computeFingerprint : EventKey → Value → String
  /-- A fingerprint stored within the window; a failed check counts as none. -/
  isContentDuplicate : String → Bool

/-- A row of `events` with every column made from the payload. -/
structure StoredRow extends EventRow where
  eventDataDecoded : Option Value := none
  eventDataCompressed : Option (List UInt8) := none
  compressionAlgo : Option String := none
  fingerprint : Option String := none

/-! ### Envelopes -/

def isEnvelope (v : Value) : Bool :=
  match member v "encrypted" with
  | some (.bool true) => true
  | _ => false

def envelope (data nonce : String) (keyVersion : ℕ) : Value :=
  .object [("data", .string data), ("encrypted", .bool true), ("key_version", .number (.int keyVersion)),
    ("nonce", .string nonce)]

section
variable (d : Deployment)

/-- `encrypt`, with the nonce it draws. -/
def encrypt (key : EncryptionKey) (nonce : String) (plaintext : Value) : Option Value :=
  if d.encryptionFeature then do
    let bytes ← d.cipher.toVec plaintext
    let data ← d.cipher.encrypt key nonce bytes
    return envelope data nonce d.keyVersion
  else some plaintext

def decrypt (key : EncryptionKey) (oldKey : Option EncryptionKey) (v : Value) : Option Value :=
  if d.encryptionFeature && isEnvelope v then do
    let data ← (member v "data").bind Value.asStr
    let nonce ← (member v "nonce").bind Value.asStr
    let bytes ← (d.cipher.decrypt key nonce data).or (oldKey.bind fun k => d.cipher.decrypt k nonce data)
    d.cipher.fromSlice bytes
  else some v

/-! ### The two paths -/

/-- `INSERT … ON CONFLICT DO UPDATE SET event_data = events.event_data || EXCLUDED.event_data`. -/
def upsertRow (table : List StoredRow) (row : StoredRow) (fails : Bool) :
    Except StoreError (ℕ × List StoredRow) :=
  if fails then .error .database
  else if row.key ∈ table.map (·.key) then
    .ok (0, table.map fun r =>
      if r.key = row.key then { r with eventData := jsonbConcat r.eventData row.eventData } else r)
  else .ok (1, table ++ [row])

/-- `INSERT … ON CONFLICT DO NOTHING`. -/
def insertStored (table : List StoredRow) (row : StoredRow) (fails : Bool) :
    Except StoreError (ℕ × List StoredRow) :=
  if fails then .error .database
  else if row.key ∈ table.map (·.key) then .ok (0, table)
  else .ok (1, table ++ [row])

/-- The value `store_event` inserts: encrypted where there is a key, in the clear if that fails. -/
def storedEventData (nonce : String) (event : SorobanEvent) : Value :=
  match d.eventDataEncryptionKey with
  | some key => (encrypt d key nonce (eventData event)).getD (eventData event)
  | none => eventData event

def storeEvent (nonce : String) (table : List StoredRow) (event : SorobanEvent) (fails : Bool) :
    Except StoreError (ℕ × List StoredRow) :=
  if !validateEventData d.libraries.codec event then .ok (0, table)
  else if 2 ^ 63 ≤ event.ledger.toNat then .ok (0, table)
  else
    match d.libraries.parseFromRfc3339 event.ledgerClosedAt with
    | none => .error .unparseableLedgerClosedAt
    | some timestamp =>
      -- the columns it does not name have their defaults
      upsertRow table
        { contractId := event.contractId
          eventType := event.eventType
          txHash := event.txHash
          ledger := event.ledger.toNat
          timestamp := timestamp
          eventData := storedEventData d nonce event
          ledgerHash := none
          inSuccessfulCall := true
          tenantId := none } fails

/-- The row `store_event_in_tx` inserts; every column is made from the plaintext. -/
def columnsInTx (row : EventRow) : StoredRow :=
  let compressed := if d.eventCompressionEnabled then d.compress row.eventData else none
  { row with
    eventDataDecoded := d.decodeEvent row.contractId row.eventData
    eventDataCompressed := compressed
    compressionAlgo := compressed.map fun _ => "gzip"
    fingerprint := some (d.computeFingerprint row.key row.eventData) }

/-- `store_event_in_tx`; `table` is what the transaction sees. -/
def storeEventInTxColumns (filters : DedupFilters) (table : List StoredRow) (event : SorobanEvent)
    (fails : Bool) : Except StoreError (ℕ × List StoredRow) :=
  match filters.checkSession event with
  | (true, _) => .ok (0, table)
  | (false, filters) =>
    if filters.checkBloom event then .ok (0, table)
    else
      match prepareRow d.config d.libraries event with
      | .error e => .error e
      | .ok none => .ok (0, table)
      | .ok (some row) =>
        if d.enableContentDedup && d.isContentDuplicate (d.computeFingerprint row.key row.eventData) then
          .ok (0, table)
        else insertStored table (columnsInTx d row) fails

inductive InsertPath where
  | storeEvent (nonce : String)
  | storeEventInTx (filters : DedupFilters)

def InsertPath.store (path : InsertPath) (table : List StoredRow) (event : SorobanEvent)
    (fails : Bool) : Except StoreError (ℕ × List StoredRow) :=
  match path with
  | .storeEvent nonce => Ingest.storeEvent d nonce table event fails
  | .storeEventInTx filters => storeEventInTxColumns d filters table event fails

/-- Storing the event inserts this row. -/
def InsertPath.Inserts (path : InsertPath) (table : List StoredRow) (event : SorobanEvent)
    (fails : Bool) (row : StoredRow) : Prop :=
  path.store d table event fails = .ok (1, table ++ [row])

/-! ### What is concealed -/

/-- An envelope without its ciphertext. -/
def redact (v : Value) : Value :=
  match isEnvelope v, v with
  | true, .object map => .object (map.map fun e => if e.1 = "data" then (e.1, .null) else e)
  | _, v => v

/-- What the payload columns show to someone without the key. -/
def StoredRow.visible (row : StoredRow) : Value × Option Value × Option (List UInt8) :=
  (redact row.eventData, row.eventDataDecoded, row.eventDataCompressed)

/-- Both rows decrypt to their events, and they differ only inside ciphertext. -/
structure Concealed (key : EncryptionKey) (event₁ event₂ : SorobanEvent) (row₁ row₂ : StoredRow) :
    Prop where
  readable₁ : decrypt d key none row₁.eventData = some (eventData event₁)
  readable₂ : decrypt d key none row₂.eventData = some (eventData event₂)
  concealed : row₁.visible = row₂.visible

/-- The cipher opens what it seals of this value. -/
def Cipher.Opens (cipher : Cipher) (key : EncryptionKey) (v : Value) : Prop :=
  ∃ bytes, cipher.toVec v = some bytes ∧ cipher.fromSlice bytes = some v ∧
    ∀ nonce, ∃ data, cipher.encrypt key nonce bytes = some data ∧
      cipher.decrypt key nonce data = some bytes

/-- The events are the same but for `value` and `topic`. -/
def SamePublic (event₁ event₂ : SorobanEvent) : Prop :=
  event₂ = { event₁ with value := event₂.value, topic := event₂.topic }

end

/-! ### Envelopes and plaintext -/

@[simp] theorem isEnvelope_eventData (event : SorobanEvent) : isEnvelope (eventData event) = false := rfl

@[simp] theorem isEnvelope_envelope (data nonce : String) (keyVersion : ℕ) :
    isEnvelope (envelope data nonce keyVersion) = true := rfl

theorem redact_of_not_envelope {v : Value} (h : isEnvelope v = false) : redact v = v := by
  unfold redact
  rw [h]

/-- All that shows of an envelope is the nonce and the version of the key. -/
theorem redact_envelope (data nonce : String) (keyVersion : ℕ) :
    redact (envelope data nonce keyVersion) = .object [("data", .null), ("encrypted", .bool true),
      ("key_version", .number (.int keyVersion)), ("nonce", .string nonce)] := rfl

theorem eventData_injective {event₁ event₂ : SorobanEvent} (hpublic : SamePublic event₁ event₂)
    (h : eventData event₁ = eventData event₂) : event₁ = event₂ := by
  rw [eventData, eventData, Value.object.injEq, List.cons.injEq, List.cons.injEq] at h
  have htopic : (event₁.topic.map Value.array).getD .null = (event₂.topic.map Value.array).getD .null :=
    congrArg Prod.snd h.1
  have hvalue : event₁.value = event₂.value := congrArg Prod.snd h.2.1
  rw [hpublic]
  have htopic' : event₁.topic = event₂.topic := by
    cases h₁ : event₁.topic <;> cases h₂ : event₂.topic <;> simp_all
  rw [← hvalue, ← htopic']

section
variable {d : Deployment} {key : EncryptionKey}

theorem decrypt_of_not_envelope {v : Value} (h : isEnvelope v = false) : decrypt d key none v = some v := by
  rw [decrypt, h, Bool.and_false]
  rfl

/-- What was encrypted is an envelope that opens. -/
theorem encrypt_eq {v : Value} (hfeature : d.encryptionFeature = true) (h : d.cipher.Opens key v)
    (nonce : String) : ∃ data, encrypt d key nonce v = some (envelope data nonce d.keyVersion) ∧
      decrypt d key none (envelope data nonce d.keyVersion) = some v := by
  rcases h with ⟨bytes, hto, hfrom, hseal⟩
  rcases hseal nonce with ⟨data, hdata, hopen⟩
  refine ⟨data, ?_, ?_⟩
  · rw [encrypt, if_pos hfeature, hto]
    simp [hdata]
  · rw [decrypt, hfeature, isEnvelope_envelope, Bool.and_true, if_pos rfl]
    simp [envelope, member, List.lookup, Value.asStr, hopen, hfrom]

/-! ### The rows of the two paths -/

/-- A statement that added one row has added its own. -/
theorem eq_of_appended {conflict : Prop} [Decidable conflict] {table kept : List StoredRow}
    {row row' : StoredRow} {fails : Bool}
    (h : (if fails then .error StoreError.database
      else if conflict then .ok (0, kept) else .ok (1, table ++ [row])) =
        Except.ok (1, table ++ [row'])) : row' = row := by
  split at h
  · cases h
  · split at h
    · cases (Prod.mk.inj (Except.ok.inj h)).1
    · exact (List.cons.inj (List.append_cancel_left (Prod.mk.inj (Except.ok.inj h)).2)).1.symm

theorem eq_of_upsertRow {table : List StoredRow} {row row' : StoredRow} {fails : Bool}
    (h : upsertRow table row fails = .ok (1, table ++ [row'])) : row' = row :=
  eq_of_appended h

theorem eq_of_insertStored {table : List StoredRow} {row row' : StoredRow} {fails : Bool}
    (h : insertStored table row fails = .ok (1, table ++ [row'])) : row' = row :=
  eq_of_appended h

variable {table : List StoredRow} {event : SorobanEvent} {fails : Bool} {row : StoredRow}

theorem row_of_storeEvent {nonce : String}
    (h : (InsertPath.storeEvent nonce).Inserts d table event fails row) :
    row.eventData = storedEventData d nonce event ∧ row.eventDataDecoded = none ∧
      row.eventDataCompressed = none := by
  rw [InsertPath.Inserts, InsertPath.store, storeEvent] at h
  split at h
  · cases (Prod.mk.inj (Except.ok.inj h)).1
  · split at h
    · cases (Prod.mk.inj (Except.ok.inj h)).1
    · split at h
      · cases h
      · rw [eq_of_upsertRow h]
        exact ⟨rfl, rfl, rfl⟩

theorem row_of_storeEventInTx {filters : DedupFilters}
    (h : (InsertPath.storeEventInTx filters).Inserts d table event fails row) :
    ∃ timestamp, row = columnsInTx d (rowOf d.config event timestamp) := by
  rw [InsertPath.Inserts, InsertPath.store, storeEventInTxColumns] at h
  split at h
  · cases (Prod.mk.inj (Except.ok.inj h)).1
  · split at h
    · cases (Prod.mk.inj (Except.ok.inj h)).1
    · split at h
      · cases h
      · cases (Prod.mk.inj (Except.ok.inj h)).1
      · next hrow =>
        split at h
        · cases (Prod.mk.inj (Except.ok.inj h)).1
        · rcases prepareRow_eq_some hrow with ⟨timestamp, -, rfl⟩
          exact ⟨timestamp, eq_of_insertStored h⟩

/-- What is stored in the clear is what a key that opens nothing reads as well. -/
theorem storedEventData_clear (hfeature : d.encryptionFeature = false) (nonce : String)
    (event : SorobanEvent) : storedEventData d nonce event = eventData event := by
  rw [storedEventData]
  split
  · rw [encrypt, hfeature]
    rfl
  · rfl

/-- On the paths that do not encrypt, the payload is stored as it is. -/
theorem eventData_clear {path : InsertPath}
    (hclear : ¬(d.encryptionFeature = true ∧ ∃ nonce, path = .storeEvent nonce))
    (h : path.Inserts d table event fails row) : row.eventData = eventData event := by
  cases path with
  | storeEvent nonce =>
    have hfeature : d.encryptionFeature = false := by
      rw [← Bool.not_eq_true]
      exact fun hfeature => hclear ⟨hfeature, nonce, rfl⟩
    rw [(row_of_storeEvent h).1, storedEventData_clear hfeature]
  | storeEventInTx filters =>
    rcases row_of_storeEventInTx h with ⟨timestamp, rfl⟩
    rfl

/-- An event is stored with the same payload columns every time. -/
theorem visible_eq {path : InsertPath} {table' : List StoredRow} {fails' : Bool} {row' : StoredRow}
    (h : path.Inserts d table event fails row) (h' : path.Inserts d table' event fails' row') :
    row.visible = row'.visible := by
  cases path with
  | storeEvent nonce =>
    rcases row_of_storeEvent h with ⟨hdata, hdecoded, hcompressed⟩
    rcases row_of_storeEvent h' with ⟨hdata', hdecoded', hcompressed'⟩
    rw [StoredRow.visible, StoredRow.visible, hdata, hdecoded, hcompressed, hdata', hdecoded',
      hcompressed']
  | storeEventInTx filters =>
    rcases row_of_storeEventInTx h with ⟨timestamp, rfl⟩
    rcases row_of_storeEventInTx h' with ⟨timestamp', rfl⟩
    rfl

end

/-! ### Encryption at rest -/

/-- With a key set, rows of two events that differ only in their payload conceal it exactly when
    `store_event` wrote them in a build with the feature; `store_event_in_tx` never encrypts. -/
theorem concealed_iff (d : Deployment) (key : EncryptionKey) (path : InsertPath)
    (event₁ event₂ : SorobanEvent) (table₁ table₂ : List StoredRow) (fails₁ fails₂ : Bool)
    (row₁ row₂ : StoredRow)
    (hkey : d.eventDataEncryptionKey = some key)
    (hopens₁ : d.cipher.Opens key (eventData event₁))
    (hopens₂ : d.cipher.Opens key (eventData event₂))
    (hpublic : SamePublic event₁ event₂)
    (h₁ : path.Inserts d table₁ event₁ fails₁ row₁)
    (h₂ : path.Inserts d table₂ event₂ fails₂ row₂) :
    Concealed d key event₁ event₂ row₁ row₂ ↔
      (d.encryptionFeature = true ∧ ∃ nonce, path = .storeEvent nonce) ∨ event₁ = event₂ := by
  by_cases hencrypted : d.encryptionFeature = true ∧ ∃ nonce, path = .storeEvent nonce
  · refine ⟨fun _ => .inl hencrypted, fun _ => ?_⟩
    rcases hencrypted with ⟨hfeature, nonce, rfl⟩
    rcases encrypt_eq hfeature hopens₁ nonce with ⟨data₁, hencrypt₁, hdecrypt₁⟩
    rcases encrypt_eq hfeature hopens₂ nonce with ⟨data₂, hencrypt₂, hdecrypt₂⟩
    rcases row_of_storeEvent h₁ with ⟨hdata₁, hdecoded₁, hcompressed₁⟩
    rcases row_of_storeEvent h₂ with ⟨hdata₂, hdecoded₂, hcompressed₂⟩
    rw [storedEventData, hkey] at hdata₁ hdata₂
    simp only [hencrypt₁, hencrypt₂, Option.getD_some] at hdata₁ hdata₂
    refine ⟨?_, ?_, ?_⟩
    · rw [hdata₁, hdecrypt₁]
    · rw [hdata₂, hdecrypt₂]
    · rw [StoredRow.visible, StoredRow.visible, hdata₁, hdecoded₁, hcompressed₁, hdata₂, hdecoded₂,
        hcompressed₂, redact_envelope, redact_envelope]
  · have hdata₁ := eventData_clear hencrypted h₁
    have hdata₂ := eventData_clear hencrypted h₂
    constructor
    · intro hconcealed
      -- what is stored in the clear is all visible
      have hredact : redact row₁.eventData = redact row₂.eventData :=
        congrArg Prod.fst hconcealed.concealed
      rw [hdata₁, hdata₂, redact_of_not_envelope (isEnvelope_eventData event₁),
        redact_of_not_envelope (isEnvelope_eventData event₂)] at hredact
      exact .inr (eventData_injective hpublic hredact)
    · rintro (h | rfl)
      · exact absurd h hencrypted
      · refine ⟨?_, ?_, visible_eq h₁ h₂⟩
        · rw [hdata₁, decrypt_of_not_envelope (isEnvelope_eventData event₁)]
        · rw [hdata₂, decrypt_of_not_envelope (isEnvelope_eventData event₁)]

/-! ### A deployment with a key -/

/-- The payload of an event with this symbol as its topic and no value. -/
def symbolPayload (symbol : String) : Value :=
  .object [("topic", .array [.object [("symbol", .string symbol)]]), ("value", .null)]

/-- Writes such payloads as the bytes of the symbol, and adds the key's last byte to each. -/
def symbolCipher : Cipher where
  toVec v :=
    match v with
    | .object [("topic", .array [.object [("symbol", .string symbol)]]), ("value", .null)] =>
      some (symbol.toList.map fun c => UInt8.ofNat c.toNat)
    | _ => none
  fromSlice bytes := some (symbolPayload (String.ofList (bytes.map fun b => Char.ofNat b.toNat)))
  encrypt key _ bytes :=
    some (String.ofList (bytes.map fun b => Char.ofNat (b + UInt8.ofNat key.toNat).toNat))
  decrypt key _ data := some (data.toList.map fun c => UInt8.ofNat c.toNat - UInt8.ofNat key.toNat)

def symbolDeployment (encryptionFeature : Bool) : Deployment where
  encryptionFeature := encryptionFeature
  cipher := symbolCipher
  keyVersion := 1
  eventDataEncryptionKey := some 7
  eventCompressionEnabled := false
  enableContentDedup := false
  config := {}
  libraries :=
    { codec :=
        { fromXdrBase64 := fun _ => none
          fromValue := fun v => if (member v "symbol").isSome then some (.symbol []) else none }
      parseFromRfc3339 := fun _ => some 0
      serializedLen := fun _ => 50 }
  decodeEvent _ _ := none
  compress _ := none
  computeFingerprint key _ := key.txHash
  isContentDuplicate _ := false

def symbolEvent (symbol : String) : SorobanEvent where
  contractId := "CAAAAAAAAAAAAAAAAAAAAAAAAAAAAAAAAAAAAAAAAAAAAAAAAAAAAAAA"
  eventType := "contract"
  txHash := "0000000000000000000000000000000000000000000000000000000000000000"
  ledger := 8
  ledgerClosedAt := "2024-01-01T00:00:00Z"
  value := .null
  topic := some [.object [("symbol", .string symbol)]]

theorem symbolEvent_valid (feature : Bool) (symbol : String) :
    validateEventData (symbolDeployment feature).libraries.codec (symbolEvent symbol) = true := by
  have hcontract : validateContractId "CAAAAAAAAAAAAAAAAAAAAAAAAAAAAAAAAAAAAAAAAAAAAAAAAAAAAAAA" = true := by
    rw [validateContractId, String.toList_ofList]
    decide +kernel
  have htx : validateTxHash "0000000000000000000000000000000000000000000000000000000000000000" = true := by
    rw [validateTxHash, String.toList_ofList]
    decide +kernel
  have hdepth : exceedsMaxDepth (.object [("symbol", .string symbol)]) = false := by
    simp [exceedsMaxDepth, exceedsLoop, children, MAX_SCVAL_JSON_DEPTH]
  simp [validateEventData, validateXdr, symbolEvent, hcontract, htx, isValidScVal,
    XdrCodec.decodeScval, hdepth, symbolDeployment, member, List.lookup, Value.isNull]

/-- The row `store_event` inserts for it, with what it stores as the payload. -/
def symbolRow (symbol : String) (payload : Value) : StoredRow where
  contractId := (symbolEvent symbol).contractId
  eventType := "contract"
  txHash := (symbolEvent symbol).txHash
  ledger := 8
  timestamp := 0
  eventData := payload
  ledgerHash := none
  inSuccessfulCall := true
  tenantId := none

theorem symbolRow_inserted (feature : Bool) (symbol nonce : String) :
    (InsertPath.storeEvent nonce).Inserts (symbolDeployment feature) [] (symbolEvent symbol) false
      (symbolRow symbol (storedEventData (symbolDeployment feature) nonce (symbolEvent symbol))) := by
  rw [InsertPath.Inserts, InsertPath.store, storeEvent, symbolEvent_valid]
  rfl

theorem symbolRow_insertedInTx (feature : Bool) (symbol : String) :
    (InsertPath.storeEventInTx ⟨none, none⟩).Inserts (symbolDeployment feature) [] (symbolEvent symbol) false
      { symbolRow symbol (symbolPayload symbol) with fingerprint := some (symbolEvent symbol).txHash } := by
  have hrow : prepareRow (symbolDeployment feature).config (symbolDeployment feature).libraries
      (symbolEvent symbol) = .ok (some (rowOf {} (symbolEvent symbol) 0)) := by
    rw [prepareRow, symbolEvent_valid]
    rfl
  rw [InsertPath.Inserts, InsertPath.store, storeEventInTxColumns]
  simp only [DedupFilters.checkSession, DedupFilters.checkBloom, hrow]
  rfl

theorem symbolCipher_opens_transfer : symbolCipher.Opens 7 (eventData (symbolEvent "transfer")) :=
  ⟨_, rfl, rfl, fun _ => ⟨_, rfl, rfl⟩⟩

theorem symbolCipher_opens_mint : symbolCipher.Opens 7 (eventData (symbolEvent "mint")) :=
  ⟨_, rfl, rfl, fun _ => ⟨_, rfl, rfl⟩⟩

theorem concealed_storeEvent :
    Concealed (symbolDeployment true) 7 (symbolEvent "transfer") (symbolEvent "mint")
      (symbolRow "transfer" (storedEventData (symbolDeployment true) "n" (symbolEvent "transfer")))
      (symbolRow "mint" (storedEventData (symbolDeployment true) "n" (symbolEvent "mint"))) :=
  (concealed_iff (symbolDeployment true) 7 (.storeEvent "n") (symbolEvent "transfer")
    (symbolEvent "mint") [] [] false false _ _ rfl symbolCipher_opens_transfer
    symbolCipher_opens_mint rfl (symbolRow_inserted true "transfer" "n")
    (symbolRow_inserted true "mint" "n")).mpr (.inl ⟨rfl, "n", rfl⟩)

/-- The live path stores `transfer` and `mint` in the clear, with a key set. -/
theorem concealed_storeEventInTx_refuted :
    ¬∀ (d : Deployment) (key : EncryptionKey) (path : InsertPath) (event₁ event₂ : SorobanEvent)
      (row₁ row₂ : StoredRow), d.eventDataEncryptionKey = some key →
      d.cipher.Opens key (eventData event₁) → d.cipher.Opens key (eventData event₂) →
      SamePublic event₁ event₂ →
      path.Inserts d [] event₁ false row₁ → path.Inserts d [] event₂ false row₂ →
      Concealed d key event₁ event₂ row₁ row₂ := by
  intro h
  have hconcealed := h (symbolDeployment true) 7 (.storeEventInTx ⟨none, none⟩) (symbolEvent "transfer")
    (symbolEvent "mint") _ _ rfl symbolCipher_opens_transfer symbolCipher_opens_mint rfl
    (symbolRow_insertedInTx true "transfer") (symbolRow_insertedInTx true "mint")
  have hsymbol : symbolPayload "transfer" = symbolPayload "mint" :=
    congrArg Prod.fst hconcealed.concealed
  simp [symbolPayload] at hsymbol

end SorobanPulse.Ingest
