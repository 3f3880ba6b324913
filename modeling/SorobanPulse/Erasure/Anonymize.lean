import SorobanPulse.Erasure.Tables

/-! Erasure by anonymizing: `anonymize_event`, and `delete_contract_events` with `anonymize_only`.

        event_data, tx_hash, anonymized       overwritten
        every column derived from event_data  kept, the coordinates by the trigger too
        event_addresses, token_transfers      kept

    A row that is flagged as anonymized is passed over, whatever its event_data. Two runs on states
    that differ in one event's payload end alike exactly if the kept copies were alike. -/

namespace SorobanPulse.Erasure
open Events Ingest Lib

/-- `json!({"anonymized": true})` -/
def ANONYMIZED : Value := .object [("anonymized", .bool true)]

def EventRecord.anonymize (r : EventRecord) (hashedTx : String) : EventRecord :=
  { r with anonymized := true, eventData := ANONYMIZED, txHash := hashedTx }

/-- The row of this id, rewritten. -/
def anonymizeIf (id : Uuid) (hashedTx : String) (r : EventRecord) : EventRecord :=
  if r.id = id then r.anonymize hashedTx else r

@[simp] theorem anonymizeIf_id (id : Uuid) (hashedTx : String) (r : EventRecord) :
    (anonymizeIf id hashedTx r).id = r.id := by
  unfold anonymizeIf
  split <;> rfl

section
variable (casts : DoubleCasts)

/-- UPDATE events SET anonymized = TRUE, event_data = $1, tx_hash = $2 WHERE id = $3, behind the
    trigger; it fails when the new hash collides in the unique index. -/
def Db.update (db : Db) (id : Uuid) (hashedTx : String) : Except AppError Db :=
  match db.events.mapM fun r =>
      if r.id = id then (r.anonymize hashedTx).extractCoordinates casts else some r with
  | none => .error .Database
  | some events =>
    if h : (events.map (·.id)).Nodup ∧ (events.map (·.key)).Nodup then
      .ok { db with events, primaryKey := h.1, uniqueKey := h.2 }
    else .error .Database

variable (sha256 : String → String)

/-- `anonymize_event` -/
def anonymizeEvent (db : Db) (id : Uuid) : Except AppError Db :=
  match db.row id with
  | none => .error .NotFound
  | some row => if row.anonymized then .ok db else db.update casts id (sha256 row.txHash)

/-- The rows that `delete_contract_events` reads: SELECT id, tx_hash … AND anonymized = FALSE. -/
def selected (db : Db) (contractId : String) : List (Uuid × String) :=
  (db.events.filter fun r => r.contractId = contractId ∧ r.anonymized = false).map fun r =>
    (r.id, r.txHash)

/-- The rows one after another, each by its own statement. -/
def anonymizeRows (db : Db) (rows : List (Uuid × String)) : Except AppError Db :=
  rows.foldlM (fun db row => db.update casts row.1 (sha256 row.2)) db

/-- `delete_contract_events` -/
def deleteContractEvents (db : Db) (contractId : String) (anonymizeOnly : Bool) :
    Except AppError Db := do
  validateContractId contractId
  if anonymizeOnly then anonymizeRows casts sha256 db (selected db contractId)
  else
    .ok { db with
      events := db.events.filter (·.contractId ≠ contractId)
      primaryKey := db.primaryKey.sublist (List.filter_sublist.map _)
      uniqueKey := db.uniqueKey.sublist (List.filter_sublist.map _) }

inductive ErasureRequest where
  | event (id : Uuid)
  | contract (contractId : String)

/-- The two ways to anonymize. -/
def erase (db : Db) : ErasureRequest → Except AppError Db
  | .event id => anonymizeEvent casts sha256 db id
  | .contract contractId => deleteContractEvents casts sha256 db contractId true

/-- Is the row among those a request is about? -/
def ErasureRequest.Covers (r : EventRecord) : ErasureRequest → Prop
  | .event id => r.id = id
  | .contract contractId => r.contractId = contractId

/-! ### Two runs -/

/-- Rows that may differ in payload if they have this id. -/
def SameApart (id : Uuid) (r₁ r₂ : EventRecord) : Prop :=
  if r₁.id = id then { r₁ with eventData := r₂.eventData, copies := r₂.copies } = r₂ else r₁ = r₂

/-- The states differ at most in the payload of one event and what was derived from it. -/
structure DifferInPayload (id : Uuid) (db₁ db₂ : Db) : Prop where
  events : List.Forall₂ (SameApart id) db₁.events db₂.events
  addresses : ∀ i, i ≠ id → db₁.eventAddresses i = db₂.eventAddresses i
  transfers : ∀ i, i ≠ id → db₁.tokenTransfers i = db₂.tokenTransfers i

/-- After an erasure, states that differed in the payload of an erased event are equal. -/
def ErasureComplete : Prop :=
  ∀ (request : ErasureRequest) (r : EventRecord) (db₁ db₂ db₁' db₂' : Db),
    DifferInPayload r.id db₁ db₂ → r ∈ db₁.events → request.Covers r →
      erase casts sha256 db₁ request = .ok db₁' → erase casts sha256 db₂ request = .ok db₂' → db₁' = db₂'

/-- What erasure leaves of an event is the same in both states. -/
structure SameRemains (r : EventRecord) (db₁ db₂ : Db) : Prop where
  copies : (db₁.row r.id).map (·.copies) = (db₂.row r.id).map (·.copies)
  addresses : db₁.eventAddresses r.id = db₂.eventAddresses r.id
  transfers : db₁.tokenTransfers r.id = db₂.tokenTransfers r.id
  eventData : r.anonymized = true →
    (db₁.row r.id).map (·.eventData) = (db₂.row r.id).map (·.eventData)

end

section
variable {casts : DoubleCasts} {sha256 : String → String} {id i : Uuid} {r r₁ r₂ : EventRecord} {db db' db₁ db₂ db₁' db₂' : Db}
  {hashedTx : String}

theorem SameApart.id_eq (h : SameApart id r₁ r₂) : r₁.id = r₂.id := by
  unfold SameApart at h
  split at h <;> rw [← h]

theorem SameApart.contractId_eq (h : SameApart id r₁ r₂) : r₁.contractId = r₂.contractId := by
  unfold SameApart at h
  split at h <;> rw [← h]

theorem SameApart.txHash_eq (h : SameApart id r₁ r₂) : r₁.txHash = r₂.txHash := by
  unfold SameApart at h
  split at h <;> rw [← h]

theorem SameApart.anonymized_eq (h : SameApart id r₁ r₂) : r₁.anonymized = r₂.anonymized := by
  unfold SameApart at h
  split at h <;> rw [← h]

theorem SameApart.anonymizeIf (h : SameApart id r₁ r₂) (i : Uuid) (hashedTx : String) :
    SameApart id (anonymizeIf i hashedTx r₁) (anonymizeIf i hashedTx r₂) := by
  have hid := h.id_eq
  unfold SameApart at h ⊢
  rw [anonymizeIf_id, Erasure.anonymizeIf, Erasure.anonymizeIf, ← hid]
  split at h
  · next hrow =>
    rw [if_pos hrow]
    split
    · rw [← h]
      rfl
    · exact h
  · next hrow =>
    rw [if_neg hrow, h]

/-- Rows that differ in payload only are equal once their payload is. -/
theorem SameApart.eq (h : SameApart id r₁ r₂)
    (hdata : r₁.id = id → r₁.eventData = r₂.eventData) (hcopies : r₁.id = id → r₁.copies = r₂.copies) :
    r₁ = r₂ := by
  unfold SameApart at h
  split at h
  · next hid =>
    rw [← h, ← hdata hid, ← hcopies hid]
  · exact h

/-! ### One statement -/

/-- The marker has no coordinates, so the trigger leaves the old ones. -/
theorem extractCoordinates_anonymize (casts : DoubleCasts) (r : EventRecord) (hashedTx : String) :
    (r.anonymize hashedTx).extractCoordinates casts = some (r.anonymize hashedTx) :=
  extractCoordinates_of_absent casts rfl rfl rfl rfl

/-- The trigger lets every anonymized row through, and only the unique index can refuse it. -/
theorem update_eq (casts : DoubleCasts) (db : Db) (id : Uuid) (hashedTx : String) :
    db.update casts id hashedTx =
      if h : ((db.events.map (anonymizeIf id hashedTx)).map (·.key)).Nodup then
        .ok { db with
          events := db.events.map (anonymizeIf id hashedTx)
          primaryKey := by
            rw [List.map_map, Function.comp_def]
            simp only [anonymizeIf_id]
            exact db.primaryKey
          uniqueKey := h }
      else .error .Database := by
  have hrows : (fun r : EventRecord =>
      if r.id = id then (r.anonymize hashedTx).extractCoordinates casts else some r) =
        fun r => pure (anonymizeIf id hashedTx r) := by
    funext r
    rw [extractCoordinates_anonymize, anonymizeIf]
    split <;> rfl
  have hids : ((db.events.map (anonymizeIf id hashedTx)).map (·.id)).Nodup := by
    rw [List.map_map, Function.comp_def]
    simp only [anonymizeIf_id]
    exact db.primaryKey
  rw [Db.update, hrows, List.mapM_pure]
  dsimp only [pure]
  by_cases hkeys : ((db.events.map (anonymizeIf id hashedTx)).map (·.key)).Nodup
  · rw [dif_pos hkeys, dif_pos (And.intro hids hkeys)]
  · rw [dif_neg hkeys, dif_neg fun h => hkeys h.2]

theorem events_update (h : db.update casts id hashedTx = .ok db') :
    db'.events = db.events.map (anonymizeIf id hashedTx) ∧
      db'.eventAddresses = db.eventAddresses ∧ db'.tokenTransfers = db.tokenTransfers := by
  rw [update_eq] at h
  split at h
  · cases h
    exact ⟨rfl, rfl, rfl⟩
  · cases h

theorem row_update (h : db.update casts i hashedTx = .ok db') (id : Uuid) :
    db'.row id = (db.row id).map (anonymizeIf i hashedTx) := by
  rw [Db.row, (events_update h).1, List.find?_map, Function.comp_def]
  simp only [anonymizeIf_id]
  rfl

theorem copies_update (h : db.update casts i hashedTx = .ok db') (id : Uuid) :
    (db'.row id).map (·.copies) = (db.row id).map (·.copies) := by
  rw [row_update h, Option.map_map]
  congr 1
  funext r
  rw [Function.comp_apply, anonymizeIf]
  split <;> rfl

theorem eventData_update_self (h : db.update casts id hashedTx = .ok db') :
    (db'.row id).map (·.eventData) = (db.row id).map fun _ => ANONYMIZED := by
  rw [row_update h, Option.map_map]
  cases hrow : db.row id with
  | none => rfl
  | some r =>
    rw [Option.map_some, Option.map_some, Function.comp_apply, anonymizeIf,
      if_pos (Db.row_eq_some.mp hrow).2]
    rfl

theorem eventData_update_ne (h : db.update casts i hashedTx = .ok db') (hid : i ≠ id) :
    (db'.row id).map (·.eventData) = (db.row id).map (·.eventData) := by
  rw [row_update h, Option.map_map]
  cases hrow : db.row id with
  | none => rfl
  | some r =>
    rw [Option.map_some, Option.map_some, Function.comp_apply, anonymizeIf, if_neg]
    rw [(Db.row_eq_some.mp hrow).2]
    exact Ne.symm hid

theorem DifferInPayload.update (h : DifferInPayload id db₁ db₂)
    (h₁ : db₁.update casts i hashedTx = .ok db₁') (h₂ : db₂.update casts i hashedTx = .ok db₂') :
    DifferInPayload id db₁' db₂' := by
  obtain ⟨hevents₁, haddr₁, htrans₁⟩ := events_update h₁
  obtain ⟨hevents₂, haddr₂, htrans₂⟩ := events_update h₂
  refine ⟨?_, ?_, ?_⟩
  · rw [hevents₁, hevents₂, List.forall₂_map_left_iff, List.forall₂_map_right_iff]
    exact h.events.imp fun _ _ hrow => hrow.anonymizeIf i hashedTx
  · rw [haddr₁, haddr₂]
    exact h.addresses
  · rw [htrans₁, htrans₂]
    exact h.transfers

/-! ### Many -/

/-- Rows updated one after another: the payload's copies stay, and its column if none is the row's. -/
theorem anonymizeRows_spec {rows : List (Uuid × String)} (id : Uuid)
    (h : anonymizeRows casts sha256 db rows = .ok db') :
    (db'.row id).map (·.copies) = (db.row id).map (·.copies) ∧
      db'.eventAddresses = db.eventAddresses ∧ db'.tokenTransfers = db.tokenTransfers ∧
      (db'.row id).map (·.eventData) =
        if id ∈ rows.map (·.1) then (db.row id).map fun _ => ANONYMIZED
        else (db.row id).map (·.eventData) := by
  induction rows generalizing db with
  | nil =>
    cases h
    exact ⟨rfl, rfl, rfl, rfl⟩
  | cons row rest ih =>
    rw [anonymizeRows, List.foldlM_cons] at h
    obtain ⟨mid, hmid, hrest⟩ := bind_eq_ok h
    obtain ⟨hcopies, haddr, htrans, hdata⟩ := ih hrest
    obtain ⟨_, haddr', htrans'⟩ := events_update hmid
    refine ⟨hcopies.trans (copies_update hmid id), haddr.trans haddr', htrans.trans htrans', ?_⟩
    have hmark : (mid.row id).map (fun _ => ANONYMIZED) = (db.row id).map fun _ => ANONYMIZED := by
      rw [row_update hmid, Option.map_map]
      rfl
    rw [hdata, hmark, List.map_cons]
    by_cases hself : id = row.1
    · subst hself
      rw [eventData_update_self hmid, ite_self, if_pos List.mem_cons_self]
    · rw [eventData_update_ne hmid (Ne.symm hself)]
      refine if_congr ?_ rfl rfl
      rw [List.mem_cons, or_iff_right hself]

theorem DifferInPayload.anonymizeRows {rows : List (Uuid × String)} (h : DifferInPayload id db₁ db₂)
    (h₁ : anonymizeRows casts sha256 db₁ rows = .ok db₁') (h₂ : anonymizeRows casts sha256 db₂ rows = .ok db₂') :
    DifferInPayload id db₁' db₂' := by
  induction rows generalizing db₁ db₂ with
  | nil =>
    cases h₁
    cases h₂
    exact h
  | cons row rest ih =>
    rw [Erasure.anonymizeRows, List.foldlM_cons] at h₁ h₂
    obtain ⟨mid₁, hmid₁, hrest₁⟩ := bind_eq_ok h₁
    obtain ⟨mid₂, hmid₂, hrest₂⟩ := bind_eq_ok h₂
    exact ih (h.update hmid₁ hmid₂) hrest₁ hrest₂

theorem DifferInPayload.selected_eq (h : DifferInPayload id db₁ db₂) (contractId : String) :
    selected db₁ contractId = selected db₂ contractId := by
  have hevents := h.events
  rw [selected, selected]
  generalize db₁.events = rows₁ at hevents
  generalize db₂.events = rows₂ at hevents
  induction hevents with
  | nil => rfl
  | cons hrow _ ih =>
    rw [List.filter_cons, List.filter_cons, hrow.contractId_eq, hrow.anonymized_eq]
    split
    · rw [List.map_cons, List.map_cons, hrow.id_eq, hrow.txHash_eq, ih]
    · exact ih

/-! ### Either request -/

/-- The rows a request works off. -/
def ErasureRequest.rows (db : Db) : ErasureRequest → List (Uuid × String)
  | .event id => ((db.row id).filter (!·.anonymized)).toList.map fun r => (id, r.txHash)
  | .contract contractId => selected db contractId

theorem anonymizeRows_of_erase {request : ErasureRequest} (h : erase casts sha256 db request = .ok db') :
    anonymizeRows casts sha256 db (request.rows db) = .ok db' := by
  cases request with
  | event id =>
    rw [erase, anonymizeEvent] at h
    rw [ErasureRequest.rows]
    split at h
    · cases h
    · next row hrow =>
      rw [hrow]
      split at h
      · next hflag =>
        rw [Option.filter_some, hflag]
        exact h
      · next hflag =>
        rw [Option.filter_some, if_pos (by simpa using hflag)]
        rw [Option.toList_some, List.map_singleton, anonymizeRows, List.foldlM_cons, h]
        rfl
  | contract contractId =>
    rw [erase, deleteContractEvents] at h
    obtain ⟨_, _, h⟩ := bind_eq_ok h
    exact h

theorem DifferInPayload.row (h : DifferInPayload id db₁ db₂) (i : Uuid) :
    Option.Rel (SameApart id) (db₁.row i) (db₂.row i) := by
  have hevents := h.events
  rw [Db.row, Db.row]
  generalize db₁.events = rows₁ at hevents
  generalize db₂.events = rows₂ at hevents
  induction hevents with
  | nil => exact .none
  | cons hrow _ ih =>
    rw [List.find?_cons, List.find?_cons, hrow.id_eq]
    split
    · exact .some hrow
    · exact ih

theorem DifferInPayload.rows_eq (h : DifferInPayload id db₁ db₂) (request : ErasureRequest) :
    request.rows db₁ = request.rows db₂ := by
  cases request with
  | event i =>
    rw [ErasureRequest.rows, ErasureRequest.rows]
    have hrow := h.row i
    generalize db₁.row i = row₁ at hrow ⊢
    generalize db₂.row i = row₂ at hrow ⊢
    cases hrow with
    | none => rfl
    | some hrow =>
      rw [Option.filter_some, Option.filter_some, hrow.anonymized_eq]
      split
      · rw [Option.toList_some, Option.toList_some, List.map_singleton, List.map_singleton,
          hrow.txHash_eq]
      · rfl
  | contract contractId => exact h.selected_eq contractId

/-- A covered row is worked off unless it is flagged already. -/
theorem mem_rows {request : ErasureRequest} (hr : r ∈ db.events) (hcovers : request.Covers r) :
    r.id ∈ (request.rows db).map (·.1) ↔ r.anonymized = false := by
  cases request with
  | event i =>
    obtain rfl : r.id = i := hcovers
    rw [ErasureRequest.rows, Db.row_eq_some.mpr ⟨hr, rfl⟩, Option.filter_some]
    cases hflag : r.anonymized <;> simp
  | contract contractId =>
    obtain rfl : r.contractId = contractId := hcovers
    rw [ErasureRequest.rows, selected, List.map_map]
    constructor
    · intro hmem
      obtain ⟨r', hr', hid⟩ := List.mem_map.mp hmem
      obtain ⟨hr', hsel⟩ := List.mem_filter.mp hr'
      rw [← Db.eq_of_id hr' hr hid]
      exact (of_decide_eq_true hsel).2
    · intro hflag
      exact List.mem_map.mpr ⟨r, List.mem_filter.mpr ⟨hr, by simp [hflag]⟩, rfl⟩

/-- States that differ in one payload are equal if and only if they agree on it. -/
theorem DifferInPayload.eq_iff (h : DifferInPayload id db₁ db₂) :
    db₁ = db₂ ↔ (db₁.row id).map (·.copies) = (db₂.row id).map (·.copies) ∧
      (db₁.row id).map (·.eventData) = (db₂.row id).map (·.eventData) ∧
      db₁.eventAddresses id = db₂.eventAddresses id ∧
      db₁.tokenTransfers id = db₂.tokenTransfers id := by
  constructor
  · rintro rfl
    exact ⟨rfl, rfl, rfl, rfl⟩
  · rintro ⟨hcopies, hdata, haddr, htrans⟩
    refine Db.ext ?_ ?_ ?_
    · refine List.ext_getElem h.events.length_eq fun n h₁ h₂ => ?_
      have hrow := h.events.get h₁ h₂
      refine SameApart.eq hrow ?_ ?_
      · intro hid
        have hrow₁ := Db.row_eq_some.mpr ⟨List.getElem_mem h₁, hid⟩
        have hrow₂ := Db.row_eq_some.mpr ⟨List.getElem_mem h₂, hrow.id_eq.symm.trans hid⟩
        rw [hrow₁, hrow₂] at hdata
        exact Option.some.inj hdata
      · intro hid
        have hrow₁ := Db.row_eq_some.mpr ⟨List.getElem_mem h₁, hid⟩
        have hrow₂ := Db.row_eq_some.mpr ⟨List.getElem_mem h₂, hrow.id_eq.symm.trans hid⟩
        rw [hrow₁, hrow₂] at hcopies
        exact Option.some.inj hcopies
    · funext i
      by_cases hi : i = id
      · rw [hi, haddr]
      · exact h.addresses i hi
    · funext i
      by_cases hi : i = id
      · rw [hi, htrans]
      · exact h.transfers i hi

end

/-- Erasing an event makes two states that differ in its payload equal if and only if they agree on
    what erasure leaves: the derived columns, the side tables, and the payload of a flagged row. -/
theorem erased_eq_iff (casts : DoubleCasts) (sha256 : String → String) (request : ErasureRequest) (r : EventRecord)
    (db₁ db₂ db₁' db₂' : Db) (hdiffer : DifferInPayload r.id db₁ db₂) (hr : r ∈ db₁.events)
    (hcovers : request.Covers r) (h₁ : erase casts sha256 db₁ request = .ok db₁')
    (h₂ : erase casts sha256 db₂ request = .ok db₂') :
    db₁' = db₂' ↔ SameRemains r db₁ db₂ := by
  have hrows₁ := anonymizeRows_of_erase h₁
  have hrows₂ := anonymizeRows_of_erase h₂
  rw [← hdiffer.rows_eq request] at hrows₂
  obtain ⟨hcopies₁, haddr₁, htrans₁, hdata₁⟩ := anonymizeRows_spec r.id hrows₁
  obtain ⟨hcopies₂, haddr₂, htrans₂, hdata₂⟩ := anonymizeRows_spec r.id hrows₂
  rw [(hdiffer.anonymizeRows hrows₁ hrows₂).eq_iff, hcopies₁, hcopies₂, haddr₁, haddr₂, htrans₁,
    htrans₂, hdata₁, hdata₂]
  have hmark : (db₁.row r.id).map (fun _ => ANONYMIZED) = (db₂.row r.id).map fun _ => ANONYMIZED := by
    have hrow := hdiffer.row r.id
    generalize db₁.row r.id = row₁ at hrow ⊢
    generalize db₂.row r.id = row₂ at hrow ⊢
    cases hrow <;> rfl
  simp only [mem_rows hr hcovers]
  constructor
  · rintro ⟨hcopies, hdata, haddr, htrans⟩
    refine ⟨hcopies, haddr, htrans, ?_⟩
    intro hflag
    rwa [if_neg (by simp [hflag]), if_neg (by simp [hflag])] at hdata
  · intro h
    refine ⟨h.copies, ?_, h.addresses, h.transfers⟩
    split
    · exact hmark
    · next hflag => exact h.eventData (by simpa using hflag)

/-! ### One event with an empty topic list, or with none -/

def sampleEvent (topic : Option (List Value)) : SorobanEvent where
  contractId := "CAAAAAAAAAAAAAAAAAAAAAAAAAAAAAAAAAAAAAAAAAAAAAAAAAAAD2KM"
  eventType := "contract"
  txHash := "00000000000000000000000000000000000000000000000000000000000000aa"
  ledger := 100
  ledgerClosedAt := "2024-01-01T00:00:00Z"
  value := .null
  topic := topic

/-- The fingerprinted text for this payload. -/
def sampleText (data : String) : String :=
  (sampleEvent none).txHash ++ "\x00" ++ (sampleEvent none).contractId ++ "\x00"
    ++ (sampleEvent none).eventType ++ "\x00" ++ data

/-- SHA-256 of the two fingerprinted texts and of the transaction hash. -/
def sampleSha256 (text : String) : String :=
  if text = sampleText "\x7b\"topic\":null,\"value\":null\x7d" then
    "5ecd58e6c7760f6ffa160a12d1b3ddf428a6cb23ad6e54ae0cd6b48280b3176c"
  else if text = sampleText "\x7b\"topic\":[],\"value\":null\x7d" then
    "24c100a240f15c9b4b444c6abb4891cc03b70a46d54dcf4d6f4c58ffedc05a47"
  else "9ab8830ee8c51392c8aa50af7e0db22d79965b6b79b33bb4949281c9e84dd576"

/-- No ABI, no compression, no asset contract. -/
def sampleEnrichment : Enrichment where
  chainId := "mainnet"
  eventCompressionEnabled := false
  sha256 := sampleSha256
  toText := fun data =>
    if (topicsOf data).isSome then "\x7b\"topic\":[],\"value\":null\x7d"
    else "\x7b\"topic\":null,\"value\":null\x7d"
  decodeAbi := fun _ _ => none
  compress := fun _ => none
  detect := fun _ _ => none

/-- The event as the indexer stores it, and as a replay does. -/
def indexedRecord (topic : Option (List Value)) : EventRecord :=
  storedRecord sampleEnrichment 7 (sampleEvent topic) (rowOf {} (sampleEvent topic) 1704067200000000000)

def replayed (topic : Option (List Value)) : EventRecord :=
  replayedRecord 7 (sampleEvent topic) 1704067200000000000

/-- NULL is cast to NULL; the rest is not asked for. -/
def sampleCasts : DoubleCasts where
  ofText := fun v => if v.isNull then some none else none
  ofJsonb := fun _ => none

/-- A table of one row, without side rows. -/
def oneRow (record : EventRecord) : Db where
  events := [record]
  eventAddresses := fun _ => []
  tokenTransfers := fun _ => none
  primaryKey := List.nodup_singleton _
  uniqueKey := List.nodup_singleton _

theorem differ_oneRow {record record' : EventRecord} (hid : record.id = 7)
    (h : { record with eventData := record'.eventData, copies := record'.copies } = record') :
    DifferInPayload 7 (oneRow record) (oneRow record') := by
  refine ⟨.cons ?_ .nil, fun _ _ => rfl, fun _ _ => rfl⟩
  rw [SameApart, if_pos hid]
  exact h

/-- One row has no collision to fear. -/
theorem erase_oneRow {r : EventRecord} (hid : r.id = 7)
    (hflag : r.anonymized = false) :
    ∃ db', erase sampleCasts sampleSha256 (oneRow r) (.event 7) = .ok db' := by
  have hrow : (oneRow r).row 7 = some r :=
    Db.row_eq_some.mpr ⟨List.mem_singleton.mpr rfl, hid⟩
  rw [erase, anonymizeEvent, hrow]
  dsimp only
  rw [hflag, if_neg (by decide), update_eq]
  exact ⟨_, dif_pos (List.nodup_singleton _)⟩

/-- The fingerprints of the two payloads stay apart. -/
theorem not_erasureComplete_fingerprint : ¬ ErasureComplete sampleCasts sampleSha256 := by
  intro h
  obtain ⟨db₁', h₁⟩ := erase_oneRow (r := indexedRecord none) rfl rfl
  obtain ⟨db₂', h₂⟩ := erase_oneRow (r := indexedRecord (some [])) rfl rfl
  have heq := h (.event 7) (indexedRecord none) _ _ db₁' db₂' (differ_oneRow rfl rfl)
    (List.mem_singleton.mpr rfl) rfl h₁ h₂
  have hcopies₁ := (anonymizeRows_spec 7 (anonymizeRows_of_erase h₁)).1
  have hcopies₂ := (anonymizeRows_spec 7 (anonymizeRows_of_erase h₂)).1
  rw [← heq, hcopies₁] at hcopies₂
  have hfingerprint := congrArg PayloadCopies.fingerprint (Option.some.inj hcopies₂)
  exact absurd hfingerprint (by decide +kernel)

/-- A replayed row has no copies. -/
theorem erased_replayed :
    ∃ db', erase sampleCasts sampleSha256 (oneRow (replayed none)) (.event 7) = .ok db' ∧
      erase sampleCasts sampleSha256 (oneRow (replayed (some []))) (.event 7) = .ok db' := by
  obtain ⟨db₁', h₁⟩ := erase_oneRow (r := replayed none) rfl rfl
  obtain ⟨db₂', h₂⟩ := erase_oneRow (r := replayed (some [])) rfl rfl
  have heq := (erased_eq_iff sampleCasts sampleSha256 (.event 7) (replayed none) _ _ db₁' db₂'
    (differ_oneRow rfl rfl) (List.mem_singleton.mpr rfl) rfl h₁ h₂).mpr
    ⟨rfl, rfl, rfl, fun hflag => by cases hflag⟩
  exact ⟨db₁', h₁, heq ▸ h₂⟩

end SorobanPulse.Erasure
