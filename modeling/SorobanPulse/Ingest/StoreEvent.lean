import SorobanPulse.Ingest.BloomFilter

/-! Storing one event: `store_event_in_tx`, inside the transaction of its page.

        session filter ──▶ persistent filter ──▶ prepareRow ──▶ INSERT ──▶ addresses, deployment
        (records the key)                    (tenant, checks)              (then bloom.set)

    The INSERT is `ON CONFLICT (tx_hash, contract_id, event_type) DO NOTHING`. A statement error
    aborts the transaction, as Postgres does: later statements fail and its COMMIT rolls back. -/

namespace SorobanPulse.Ingest
open Xdr

/-- The columns of the unique constraint. -/
structure EventKey where
  txHash : String
  contractId : String
  eventType : String
  deriving DecidableEq, Repr

def SorobanEvent.key (event : SorobanEvent) : EventKey :=
  ⟨event.txHash, event.contractId, event.eventType⟩

/-- A row of `events`, without the columns derived from these. -/
structure EventRow where
  contractId : String
  eventType : String
  txHash : String
  ledger : ℕ
  /-- Nanoseconds since the epoch. -/
  timestamp : ℤ
  eventData : Value
  ledgerHash : Option String
  inSuccessfulCall : Bool
  tenantId : Option String

def EventRow.key (row : EventRow) : EventKey := ⟨row.txHash, row.contractId, row.eventType⟩

def keys (rows : List EventRow) : List EventKey := rows.map (·.key)

@[simp] theorem keys_append (rows more : List EventRow) :
    keys (rows ++ more) = keys rows ++ keys more := List.map_append

/-- The settings that decide what is fetched and stored; content dedup is off. -/
structure Config where
  maxEventDataBytes : ℕ := 65536
  multiTenant : Bool := false
  indexerTenantId : Option String := none
  tenantContractFilter : List (String × List String) := []
  rpcMaxEventsPerPage : ℕ := 200
  indexerIgnoreCheckpoint : Bool := false

/-- The libraries the store path calls: the XDR codec, chrono and serde_json. -/
structure Libraries where
  codec : XdrCodec
  parseFromRfc3339 : String → Option ℤ
  /-- Length of the serialized JSON. -/
  serializedLen : Value → ℕ

inductive StoreError where
  | unparseableLedgerClosedAt
  | database
  deriving DecidableEq, Repr

/-! ### From event to row -/

/-- The tenant's allow-list; a missing or empty list allows every contract. -/
def tenantAllows (config : Config) (contractId : String) : Bool :=
  match config.multiTenant, config.indexerTenantId with
  | true, some tenantId =>
    match config.tenantContractFilter.lookup tenantId with
    | some allowed => allowed.isEmpty || allowed.contains contractId
    | none => true
  | _, _ => true

/-- `json!({ "value": event.value, "topic": event.topic })`, its members sorted. -/
def eventData (event : SorobanEvent) : Value :=
  .object [("topic", (event.topic.map .array).getD .null), ("value", event.value)]

def rowOf (config : Config) (event : SorobanEvent) (timestamp : ℤ) : EventRow where
  contractId := event.contractId
  eventType := event.eventType
  txHash := event.txHash
  ledger := event.ledger.toNat
  timestamp := timestamp
  eventData := eventData event
  ledgerHash := event.ledgerHash
  inSuccessfulCall := event.inSuccessfulCall
  tenantId := if config.multiTenant then config.indexerTenantId else none

@[simp] theorem rowOf_key (config : Config) (event : SorobanEvent) (timestamp : ℤ) :
    (rowOf config event timestamp).key = event.key := rfl

variable (config : Config) (libraries : Libraries)

/-- Everything between the filters and the INSERT: `ok none` skips the event. -/
def prepareRow (event : SorobanEvent) : Except StoreError (Option EventRow) :=
  if !tenantAllows config event.contractId then .ok none
  else if !validateEventData libraries.codec event then .ok none
  else if 2 ^ 63 ≤ event.ledger.toNat then .ok none  -- `i64::try_from`
  else
    match libraries.parseFromRfc3339 event.ledgerClosedAt with
    | none => .error .unparseableLedgerClosedAt
    | some timestamp =>
      if config.maxEventDataBytes < libraries.serializedLen (eventData event) then .ok none
      else .ok (some (rowOf config event timestamp))

/-- An event the indexer is there to store: in range, the tenant's, valid, dated and small enough. -/
def eligible (startLedger : UInt64) (event : SorobanEvent) : Bool :=
  decide (startLedger ≤ event.ledger) && tenantAllows config event.contractId &&
    validateEventData libraries.codec event &&
    (libraries.parseFromRfc3339 event.ledgerClosedAt).isSome &&
    decide (libraries.serializedLen (eventData event) ≤ config.maxEventDataBytes)

variable {config libraries} {event : SorobanEvent}

theorem prepareRow_eq_some {row : EventRow}
    (h : prepareRow config libraries event = .ok (some row)) :
    ∃ timestamp, libraries.parseFromRfc3339 event.ledgerClosedAt = some timestamp ∧
      row = rowOf config event timestamp := by
  unfold prepareRow at h
  split at h
  · cases h
  split at h
  · cases h
  split at h
  · cases h
  split at h
  · cases h
  · next timestamp hparse =>
    split at h
    · cases h
    · injection h with h
      injection h with h
      exact ⟨timestamp, hparse, h.symm⟩

/-- An eligible event gets a row as soon as its ledger fits the column. -/
theorem prepareRow_of_eligible {startLedger : UInt64}
    (h : eligible config libraries startLedger event = true) (hfits : event.ledger.toNat < 2 ^ 63) :
    ∃ timestamp, prepareRow config libraries event = .ok (some (rowOf config event timestamp)) := by
  simp only [eligible, Bool.and_eq_true, decide_eq_true_eq, Option.isSome_iff_exists] at h
  obtain ⟨⟨⟨⟨_, htenant⟩, hvalid⟩, timestamp, hparse⟩, hsize⟩ := h
  refine ⟨timestamp, ?_⟩
  have hledger : ¬ 2 ^ 63 ≤ event.ledger.toNat := by omega
  have hlen : ¬ config.maxEventDataBytes < libraries.serializedLen (eventData event) := by omega
  rw [prepareRow, htenant, hvalid, if_neg (by simp), if_neg (by simp), if_neg hledger, hparse]
  exact if_neg hlen

/-! ### The insert -/

/-- The statements of one store that can fail. -/
inductive Statement where
  | insert
  | afterInsert
  deriving DecidableEq, Repr

/-- An open transaction: the rows it has inserted, and whether a statement of it has failed. -/
structure Transaction where
  rows : List EventRow
  aborted : Bool

def Transaction.begin : Transaction := { rows := [], aborted := false }

def Transaction.abort (tx : Transaction) : Transaction := { tx with aborted := true }

def insertRow (table : List EventRow) (tx : Transaction) (row : EventRow)
    (fault : Option Statement) : Transaction × Except StoreError ℕ :=
  if tx.aborted = true ∨ fault = some .insert then (tx.abort, .error .database)
  else if row.key ∈ keys (table ++ tx.rows) then (tx, .ok 0)
  else if fault = some .afterInsert then (tx.abort, .error .database)
  else ({ tx with rows := tx.rows ++ [row] }, .ok 1)

/-- `store_event_in_tx`: the filters, the transaction, and the number of inserted rows. -/
def storeEventInTx (config : Config) (libraries : Libraries) (table : List EventRow)
    (filters : DedupFilters) (tx : Transaction) (event : SorobanEvent) (fault : Option Statement) :
    DedupFilters × Transaction × Except StoreError ℕ :=
  match filters.checkSession event with
  | (true, filters) => (filters, tx, .ok 0)
  | (false, filters) =>
    if filters.checkBloom event then (filters, tx, .ok 0)
    else
      match prepareRow config libraries event with
      | .error e => (filters, tx, .error e)
      | .ok none => (filters, tx, .ok 0)
      | .ok (some row) =>
        match insertRow table tx row fault with
        | (tx, .ok 1) => (filters.setBloom event, tx, .ok 1)
        | (tx, result) => (filters, tx, result)

/-- All that storing an event can do to the transaction, with the answer that goes with it. -/
inductive StoreOutcome (config : Config) (table : List EventRow) (tx : Transaction)
    (event : SorobanEvent) : Transaction × Except StoreError ℕ → Prop
  | skipped : StoreOutcome config table tx event (tx, .ok 0)
  | rejected (e : StoreError) : StoreOutcome config table tx event (tx, .error e)
  | aborted : StoreOutcome config table tx event (tx.abort, .error .database)
  | inserted (timestamp : ℤ) : tx.aborted = false → event.key ∉ keys (table ++ tx.rows) →
      StoreOutcome config table tx event
        ({ tx with rows := tx.rows ++ [rowOf config event timestamp] }, .ok 1)

variable {table : List EventRow} {filters : DedupFilters} {tx : Transaction}
  {fault : Option Statement}

theorem insertRow_outcome (config : Config) (table : List EventRow) (tx : Transaction)
    (event : SorobanEvent) (timestamp : ℤ) (fault : Option Statement) :
    StoreOutcome config table tx event
      (insertRow table tx (rowOf config event timestamp) fault) := by
  unfold insertRow
  split
  · exact .aborted
  · next hlive =>
    split
    · exact .skipped
    · next hfresh =>
      split
      · exact .aborted
      · refine .inserted timestamp ?_ hfresh
        simpa using fun habort => hlive (.inl habort)

theorem storeEventInTx_outcome (config : Config) (libraries : Libraries) (table : List EventRow)
    (filters : DedupFilters) (tx : Transaction) (event : SorobanEvent) (fault : Option Statement) :
    StoreOutcome config table tx event
      (storeEventInTx config libraries table filters tx event fault).2 := by
  unfold storeEventInTx
  split
  · exact .skipped
  · split
    · exact .skipped
    · split
      · next e _ => exact .rejected e
      · exact .skipped
      · next row hrow =>
        obtain ⟨timestamp, _, rfl⟩ := prepareRow_eq_some hrow
        have houtcome := insertRow_outcome config table tx event timestamp fault
        split <;> next heq => rw [heq] at houtcome; exact houtcome

/-- The filters learn no key but the event's own. -/
theorem mem_storeEventInTx_filters {key : String}
    (h : key ∈ (storeEventInTx config libraries table filters tx event fault).1.keys) :
    key = bloomKey event ∨ key ∈ filters.keys := by
  unfold storeEventInTx at h
  have hsession : ∀ checked : Bool × DedupFilters, filters.checkSession event = checked →
      key ∈ checked.2.keys → key = bloomKey event ∨ key ∈ filters.keys := by
    rintro checked rfl hkey
    exact DedupFilters.mem_checkSession hkey
  split at h
  · next hcheck => exact hsession _ hcheck h
  · next hcheck =>
    split at h
    · exact hsession _ hcheck h
    · split at h
      · exact hsession _ hcheck h
      · exact hsession _ hcheck h
      · split at h
        · rcases DedupFilters.mem_setBloom h with hkey | hold
          · exact .inl hkey
          · exact hsession _ hcheck hold
        · exact hsession _ hcheck h

/-- A transaction keeps its rows, and once aborted stays so. -/
theorem StoreOutcome.grows {tx' : Transaction} {result : Except StoreError ℕ}
    (h : StoreOutcome config table tx event (tx', result)) :
    tx.rows ⊆ tx'.rows ∧ (tx'.aborted = false → tx.aborted = false) := by
  cases h with
  | skipped => exact ⟨List.Subset.refl _, id⟩
  | rejected e => exact ⟨List.Subset.refl _, id⟩
  | aborted => exact ⟨List.Subset.refl _, fun h => absurd h (by simp [Transaction.abort])⟩
  | inserted timestamp hlive _ => exact ⟨List.subset_append_left _ _, fun _ => hlive⟩

/-- A live transaction has the row it was to insert, or the table does. -/
theorem insertRow_stores {row : EventRow}
    (h : (insertRow table tx row fault).1.aborted = false) :
    row.key ∈ keys (table ++ (insertRow table tx row fault).1.rows) := by
  unfold insertRow at h ⊢
  split at h
  · cases h
  · next hlive =>
    rw [if_neg hlive]
    split at h
    · next hkey =>
      rw [if_pos hkey]
      exact hkey
    · next hkey =>
      rw [if_neg hkey]
      split at h
      · cases h
      · next hfault =>
        rw [if_neg hfault]
        simp [keys]

/-- The transaction after an event with a row that no filter has seen. -/
theorem storeEventInTx_tx {row : EventRow} (hunseen : filters.seen event = false)
    (hrow : prepareRow config libraries event = .ok (some row)) :
    (storeEventInTx config libraries table filters tx event fault).2.1 =
      (insertRow table tx row fault).1 := by
  obtain ⟨hsession, hbloom⟩ := DedupFilters.not_seen hunseen
  have hcheck : filters.checkSession event = (false, (filters.checkSession event).2) :=
    Prod.ext hsession rfl
  rw [storeEventInTx, hcheck]
  simp only [hbloom, hrow, Bool.false_eq_true, if_false]
  split
  · next heq => simp [heq]
  · next heq => simp [heq]

/-- What a filter has seen does not reach the transaction. -/
theorem storeEventInTx_of_seen (hseen : filters.seen event = true) :
    (storeEventInTx config libraries table filters tx event fault).2.1 = tx := by
  unfold storeEventInTx
  split
  · rfl
  · next filters' hcheck =>
    have hbloom : filters'.checkBloom event = true := by
      rw [DedupFilters.seen, Bool.or_eq_true] at hseen
      rcases hseen with hsession | hbloom
      · -- the session filter would have answered
        exfalso
        unfold DedupFilters.checkSession at hcheck
        split at hcheck
        · next session hs =>
          rw [hs, Option.any_some] at hsession
          rw [SessionBloomFilter.checkAndSet_fst, hsession] at hcheck
          cases hcheck
        · next hs =>
          rw [hs] at hsession
          cases hsession
      · have hkept := filters.checkSession_bloom event
        rw [hcheck] at hkept
        rw [DedupFilters.checkBloom, hkept]
        exact hbloom
    rw [if_pos hbloom]

/-- Nor does an event without a row. -/
theorem storeEventInTx_of_unprepared
    (h : ∀ row, prepareRow config libraries event ≠ .ok (some row)) :
    (storeEventInTx config libraries table filters tx event fault).2.1 = tx := by
  unfold storeEventInTx
  split
  · rfl
  · split
    · rfl
    · split
      · rfl
      · rfl
      · next row hrow => exact absurd hrow (h row)

end SorobanPulse.Ingest
