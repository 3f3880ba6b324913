import SorobanPulse.Integrity.Writers

/-! What each writer leaves in the table.

        store       the rows that were there, and a healthy one or none
        anonymize   the rows that were there, with one anonymized or none
        tag         their payloads `tagged`
        transform   their payloads `transformed`

    The masking job leaves all as it was, `maskEventsBackground_eq`. -/

namespace SorobanPulse.Integrity
open Batch Erasure Ingest Lib

/-- The row as the scan reads it. -/
def recordRef (r : EventRecord) : EventRecordRef where
  id := uuidText r.id
  contractId := r.contractId
  txHash := r.txHash
  ledger := r.ledger
  timestamp := r.timestamp
  eventData := r.eventData

/-! ### Rows -/

section
variable {r : EventRecord} {data : Value}

/-- A new payload leaves a row healthy if it has the shape. -/
theorem healthy_setData_iff (h : (recordRef r).Healthy) :
    (recordRef { r with eventData := data }).Healthy ↔ Shaped data := by
  constructor
  · intro hnew
    exact hnew.eventData
  · intro hdata
    exact ⟨h.contractId, h.txHash, h.ledger, h.timestamp, hdata⟩

theorem shaped_anonymized : Shaped ANONYMIZED := ⟨_, rfl, by decide⟩

theorem isValidTxHash_lowerHex (digest : Vector UInt8 32) :
    isValidTxHash (String.ofList (lowerHex digest.toList)) = true := by
  have hdigit : ∀ d < 16, (hexDigit d).toNat < 128 ∧ isAsciiHexDigit (hexDigit d) = true := by decide
  have hmem : ∀ c ∈ lowerHex digest.toList, c.toNat < 128 ∧ isAsciiHexDigit c = true := by
    intro c hc
    obtain ⟨d, hd, rfl⟩ := mem_lowerHex hc
    exact hdigit d hd
  have hsize : (String.ofList (lowerHex digest.toList)).utf8ByteSize = 64 := by
    rw [utf8ByteSize_of_ascii fun c hc => (hmem c hc).1, length_lowerHex, Vector.length_toList]
  rw [isValidTxHash, hsize, String.toList_ofList, Bool.and_eq_true, List.all_eq_true]
  exact ⟨rfl, fun c hc => (hmem c hc).2⟩

theorem healthy_anonymize {writers : Writers} (h : (recordRef r).Healthy) (text : String) :
    (recordRef (r.anonymize (writers.enrichment.sha256 text))).Healthy := by
  refine ⟨h.contractId, ?_, h.ledger, h.timestamp, shaped_anonymized⟩
  change isValidTxHash (writers.enrichment.sha256 text) = true
  rw [writers.sha256_eq]
  exact isValidTxHash_lowerHex _

/-! ### Storing -/

/-- The checks of ingestion are as strict as those of the scan. -/
theorem isValidContractId_of_validate {contractId : String}
    (h : validateContractId contractId = true) : isValidContractId contractId = true := by
  simp only [validateContractId, isValidContractId, Bool.and_eq_true, List.all_eq_true] at h ⊢
  refine ⟨h.1, fun c hc => ?_⟩
  have hc' := h.2 c hc
  simp only [Char.isAlphanum, Char.isAlpha, Char.isUpper, Char.isDigit, Bool.or_eq_true,
    Bool.and_eq_true, decide_eq_true_eq] at hc' ⊢
  rcases hc' with ⟨hlow, hhigh⟩ | ⟨hlow, hhigh⟩
  · exact .inl (.inl ⟨hlow, hhigh⟩)
  · exact .inr ⟨le_trans (by decide) hlow, le_trans hhigh (by decide)⟩

theorem shaped_eventData {event : SorobanEvent}
    (h : event.value = .null ∨ ∃ map, event.value = .object map) : Shaped (eventData event) := by
  refine ⟨_, rfl, ?_, ?_⟩
  · rcases h with hvalue | ⟨map, hvalue⟩
    · simp [layoutOf, List.lookup, Nullable, hvalue, kindOf]
    · simp [layoutOf, List.lookup, Nullable, hvalue, kindOf]
  · cases event.topic with
    | none => simp [layoutOf, List.lookup, Nullable, kindOf]
    | some topics => simp [layoutOf, List.lookup, Nullable, kindOf]

end

theorem validateEventData_of_prepareRow {config : Config} {libraries : Libraries}
    {event : SorobanEvent} {row : EventRow}
    (h : prepareRow config libraries event = .ok (some row)) :
    validateEventData libraries.codec event = true := by
  unfold prepareRow at h
  split at h
  · cases h
  · split at h
    · cases h
    · next hvalid => simpa using hvalid

theorem validateXdr_of_validateEventData {codec : Xdr.XdrCodec} {event : SorobanEvent}
    (h : validateEventData codec event = true) :
    validateContractId event.contractId = true ∧ validateTxHash event.txHash = true := by
  have hxdr : validateXdr codec event.txHash event.contractId event.value event.topic = true := by
    unfold validateEventData at h
    split at h
    · exact h
    · exact h
    · cases h
  unfold validateXdr at hxdr
  split at hxdr
  · cases hxdr
  · next hcontract =>
    split at hxdr
    · cases hxdr
    · next htx => exact ⟨by simpa using hcontract, by simpa using htx⟩

section
variable {writers : Writers}

theorem healthy_storedRecord (call : StoreCall writers.libraries) {row : EventRow}
    (h : prepareRow writers.config writers.libraries call.event = .ok (some row)) :
    (recordRef (storedRecord writers.enrichment call.id call.event row)).Healthy := by
  have hvalid := validateEventData_of_prepareRow h
  obtain ⟨hcontract, htx⟩ := validateXdr_of_validateEventData hvalid
  obtain ⟨timestamp, hparse, rfl⟩ := prepareRow_eq_some h
  refine ⟨isValidContractId_of_validate hcontract, htx, ?_, call.dated timestamp hparse,
    shaped_eventData (validateEventData_value hvalid)⟩
  have hledger := call.ledger_pos
  change (0 : ℤ) < (call.event.ledger.toNat : ℤ)
  omega

/-- A store adds a healthy row, or none. -/
theorem store_events (s : ReingestState) (call : StoreCall writers.libraries) :
    (write writers s (.store call)).db.events = s.db.events ∨ ∃ record, (recordRef record).Healthy ∧
      (write writers s (.store call)).db.events = s.db.events ++ [record] := by
  rw [write]
  generalize (if writers.admits (eventData call.event) = true then call.fault
    else some Statement.insert) = fault
  cases call.contentDuplicate with
  | true => exact .inl rfl
  | false =>
    rw [if_neg Bool.false_ne_true]
    unfold ReingestState.store
    dsimp only
    rcases storeEventInTx_begin writers.config writers.libraries s.rows s.filters call.event fault with
      ⟨row, _, hrow, _, _, _, htx⟩ | ⟨_, hrows⟩
    · rw [htx]
      cases call.committed with
      | false => exact .inl rfl
      | true =>
        simp only [Bool.not_false, Bool.and_self, if_true]
        generalize (storeEventInTx writers.config writers.libraries s.rows s.filters .begin
          call.event fault).1 = filters
        obtain ⟨timestamp, _, hprepared⟩ := prepareRow_eq_some hrow
        obtain ⟨db, heq, hevents⟩ := @add_eq writers.toSetting { s with filters } call.event
          (storedRecord writers.enrichment call.id call.event row) (storedAddresses row)
          (by rw [hprepared]; rfl)
        rw [heq, hevents]
        split
        · exact .inr ⟨_, healthy_storedRecord call hrow, rfl⟩
        · exact .inl rfl
    · rw [hrows]
      split <;> exact .inl rfl

/-! ### Anonymizing -/

theorem anonymize_events (s : ReingestState) (id : Uuid) :
    (write writers s (.anonymize id)).db.events = s.db.events ∨ ∃ text,
      (write writers s (.anonymize id)).db.events =
        s.db.events.map (anonymizeIf id (writers.enrichment.sha256 text)) := by
  change (s.anonymize writers.toSetting id).db.events = _ ∨
    ∃ text, (s.anonymize writers.toSetting id).db.events = _
  unfold ReingestState.anonymize anonymizeEvent
  split
  · next db hok =>
    split at hok
    · cases hok
    · split at hok
      · cases hok
        exact .inl rfl
      · exact .inr ⟨_, (events_update hok).1⟩
  · exact .inl rfl

/-! ### The batch operations -/

variable {db : Db} {view : Batch.Database} {f g : EventRecord → Value}

theorem setEventData_congr (h : ∀ r ∈ db.events, f r = g r) :
    setEventData db f = setEventData db g := by
  refine Db.ext (List.map_congr_left fun r hr => ?_) rfl rfl
  rw [h r hr]

/-- What is set in the view is set in the table. -/
theorem writeBack_eq (h : view.events = db.events.map fun r =>
    { batchEvent r with eventData := g r }) : writeBack db view = setEventData db g := by
  refine setEventData_congr fun r hr => ?_
  have hrow : db.row r.id = some r := Db.row_eq_some.mpr ⟨hr, rfl⟩
  have hfind : view.events.find? (·.id = r.id) = some { batchEvent r with eventData := g r } := by
    rw [h, List.find?_map]
    exact congrArg (Option.map _) hrow
  rw [hfind]
  rfl

theorem writeBack_batchView (db : Db) : writeBack db (batchView db) = db := by
  have hself : writeBack db (batchView db) = setEventData db (·.eventData) := writeBack_eq rfl
  rw [hself]
  exact setEventData_self fun r _ => rfl

/-- The payload of a tagged row. -/
def tagged (ids : List Uuid) (req : BatchTagRequest) (r : EventRecord) : Value :=
  if ids.contains r.id then
    (tagData (tagsValue req.tags) (req.replace.getD false) r.eventData).getD r.eventData
  else r.eventData

theorem tag_db (req : BatchTagRequest) (faults : Faults) (db : Db) : ∃ ids,
    writeBack db (batchTagEvents (batchView db) req faults).1 = setEventData db (tagged ids req) := by
  have hnone : ∃ ids, writeBack db (batchView db) = setEventData db (tagged ids req) := by
    refine ⟨[], ?_⟩
    rw [writeBack_batchView]
    exact (setEventData_self fun r _ => by simp [tagged]).symm
  unfold batchTagEvents
  split
  · exact hnone
  · split
    · exact hnone
    · split
      · exact hnone
      · next db' hupdate =>
        refine ⟨req.ids, ?_⟩
        unfold Database.updateTags at hupdate
        split at hupdate
        · cases hupdate
          refine writeBack_eq ?_
          change ((db.events.map batchEvent).map _) = _
          rw [List.map_map]
          refine List.map_congr_left fun r _ => ?_
          by_cases hid : r.id ∈ req.ids <;> simp [tagged, batchEvent, hid]
        · cases hupdate

/-- The payload of a transformed row. -/
def transformed (ids : List Uuid) (pipeline : List TransformStep) (faults : Faults)
    (r : EventRecord) : Value :=
  if ids.contains r.id && !faults.update r.id then
    (applyPipeline pipeline r.eventData).toOption.getD r.eventData
  else r.eventData

theorem transformed_eq (ids : List Uuid) (pipeline : List TransformStep) (faults : Faults)
    (r : EventRecord) : transformed ids pipeline faults r =
      if r.id ∈ ids ∧ faults.update r.id = false then
        (applyPipeline pipeline r.eventData).toOption.getD r.eventData
      else r.eventData := by
  simp [transformed]

theorem written_eq_transformed (ids : List Uuid) (pipeline : List TransformStep) (faults : Faults)
    {r : EventRecord} (hr : r ∈ db.events) :
    written faults (transformedData pipeline ((batchView db).events.filter fun r => r.id ∈ ids))
      (batchEvent r) = transformed ids pipeline faults r := by
  have hmem : batchEvent r ∈ (batchView db).events := List.mem_map_of_mem hr
  have hid : (batchEvent r).id = r.id := rfl
  rw [transformed_eq]
  unfold written
  by_cases hin : r.id ∈ ids
  · have hselected : batchEvent r ∈ (batchView db).events.filter fun r => r.id ∈ ids :=
      List.mem_filter.mpr ⟨hmem, decide_eq_true hin⟩
    have hnodup : (((batchView db).events.filter fun r => r.id ∈ ids).map (·.id)).Nodup :=
      (batchView db).ids_nodup.sublist (List.filter_sublist.map _)
    rw [lookup_transformedData hnodup hselected, hid]
    have hdata : (batchEvent r).eventData = r.eventData := rfl
    rw [hdata]
    cases (applyPipeline pipeline r.eventData).toOption with
    | none => simp
    | some data => cases faults.update r.id <;> simp [hin]
  · rw [lookup_transformedData_none, if_neg fun h => hin h.1]
    · rfl
    · intro hselected
      obtain ⟨q, hq, heq⟩ := List.mem_map.mp hselected
      have hq' := (List.mem_filter.mp hq).2
      rw [heq] at hq'
      exact hin (of_decide_eq_true hq')

theorem transform_db (ids : List Uuid) (pipeline : List TransformStep) (faults : Faults) (db : Db) :
    writeBack db
        (batchTransformEvents (batchView db) { ids, pipeline, persist := some true } faults).1 =
      if faults.select then db else setEventData db (transformed ids pipeline faults) := by
  -- where no row changes, nothing is written
  have hsame : (∀ r ∈ db.events, transformed ids pipeline faults r = r.eventData) →
      writeBack db (batchView db) =
        if faults.select then db else setEventData db (transformed ids pipeline faults) := by
    intro h
    rw [writeBack_batchView, setEventData_self h, ite_self]
  unfold batchTransformEvents
  split
  · -- a rejected request names no rows or has no steps, which changes nothing, either
    next error hreject =>
    refine hsame fun r _ => ?_
    unfold rejectTransform at hreject
    unfold transformed
    split at hreject
    · next hempty =>
      have hids : ids = [] := List.isEmpty_iff.mp hempty
      simp [hids]
    · split at hreject
      · next hempty =>
        have hpipeline : pipeline = [] := List.isEmpty_iff.mp hempty
        rw [hpipeline]
        exact ite_self _
      · cases hreject
  · cases faults.select with
    | true => exact writeBack_batchView db
    | false =>
      simp only [Bool.false_eq_true, if_false, Option.getD_some, if_true]
      have hnodup : ((transformedData pipeline
          ((batchView db).events.filter fun r => r.id ∈ ids)).map (·.1)).Nodup :=
        (batchView db).ids_nodup.sublist
          ((ids_transformedData _ _).trans (List.filter_sublist.map _))
      refine writeBack_eq ?_
      rw [foldl_persist faults hnodup, batchView, List.map_map]
      refine List.map_congr_left fun r hr => ?_
      rw [Function.comp_apply, ← written_eq_transformed ids pipeline faults hr]
      rfl

/-! ### What a write can do to a row -/

/-- Leave it, anonymize it, or set the payload that it makes of the row's. -/
inductive Rewritten (writers : Writers) (w : Write writers.libraries) (r : EventRecord) :
    EventRecord → Prop
  | kept : Rewritten writers w r r
  | anonymized {id : Uuid} (text : String) : w = .anonymize id →
      Rewritten writers w r (r.anonymize (writers.enrichment.sha256 text))
  | set {data : Value} : w.payload writers r.eventData = some data →
      Rewritten writers w r { r with eventData := data }

theorem rewritten_tagged (ids : List Uuid) (req : BatchTagRequest) (faults : Faults)
    (r : EventRecord) : Rewritten writers (.tag req faults) r
      { r with eventData := tagged ids req r } := by
  unfold tagged
  split
  · cases htag : tagData (tagsValue req.tags) (req.replace.getD false) r.eventData with
    | none => exact .kept
    | some data => exact .set htag
  · exact .kept

theorem rewritten_transformed (ids : List Uuid) (pipeline : List TransformStep)
    (faults faults' : Faults) (r : EventRecord) :
    Rewritten writers (.transform ids pipeline faults) r
      { r with eventData := transformed ids pipeline faults' r } := by
  unfold transformed
  split
  · cases hresult : (applyPipeline pipeline r.eventData).toOption with
    | none => exact .kept
    | some data => exact .set hresult
  · exact .kept

/-- A write adds a healthy row, or rewrites the rows that are there. -/
theorem write_cases (s : ReingestState) (w : Write writers.libraries) :
    (∃ record, (recordRef record).Healthy ∧
      (write writers s w).db.events = s.db.events ++ [record]) ∨
    ∃ f : EventRecord → EventRecord, (write writers s w).db.events = s.db.events.map f ∧
      ∀ r, Rewritten writers w r (f r) := by
  have hkept : (write writers s w).db.events = s.db.events →
      ∃ f : EventRecord → EventRecord, (write writers s w).db.events = s.db.events.map f ∧
        ∀ r, Rewritten writers w r (f r) := by
    intro h
    exact ⟨id, by rw [h, List.map_id], fun _ => .kept⟩
  cases w with
  | store call =>
    rcases store_events s call with heq | hnew
    · exact .inr (hkept heq)
    · exact .inl hnew
  | anonymize id =>
    right
    rcases anonymize_events s id with heq | ⟨text, heq⟩
    · exact hkept heq
    · refine ⟨_, heq, fun r => ?_⟩
      unfold anonymizeIf
      split
      · exact .anonymized text rfl
      · exact .kept
  | mask contractIds faults =>
    refine .inr (hkept ?_)
    rw [write, maskEventsBackground_eq]  -- the background job masks a copy and writes nothing
  | tag req faults =>
    obtain ⟨ids, heq⟩ := tag_db req (tagFaults writers s.db req faults) s.db
    -- tags are merged into the rows that were named
    refine .inr ⟨fun r => { r with eventData := tagged ids req r }, ?_, ?_⟩
    · rw [write, heq]
      rfl
    · exact fun r => rewritten_tagged ids req faults r
  | transform ids pipeline faults =>
    right
    have heq : (write writers s (.transform ids pipeline faults)).db = _ :=
      transform_db ids pipeline (transformFaults writers s.db pipeline faults) s.db
    -- which statements fail no longer matters
    generalize transformFaults writers s.db pipeline faults = faults' at heq
    split at heq
    · exact hkept (congrArg Db.events heq)
    · refine ⟨fun r => { r with eventData := transformed ids pipeline faults' r },
        congrArg Db.events heq, ?_⟩
      exact fun r => rewritten_transformed ids pipeline faults faults' r

end

end SorobanPulse.Integrity
