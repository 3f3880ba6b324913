import SorobanPulse.Json
import SorobanPulse.Batch.Isolation
import SorobanPulse.Contracts.AbiDecode
import SorobanPulse.Erasure.Reingestion
import SorobanPulse.Integrity.EventRecord
import SorobanPulse.Lib.TextCodecs

/-! The writers of `events`, on one table.

        store_event_in_tx        one row more
        anonymize_event          payload and transaction hash of one row
        mask_events_background   payloads, one UPDATE a row
        batch_tag_events         `_tags` of the payloads, one UPDATE for all
        batch_transform_events   payloads, one UPDATE a row

    The masking job replaces a string under an address key by the first 56 bytes of a text of at most
    17. Slicing it panics, which ends the job: what it writes is what was there.

    A migration gave `events` a CHECK of the shape of its payloads. A later one renamed that table and
    put a partitioned one without the CHECK in its place. Where the table has it, a statement that
    would break it fails. -/

namespace SorobanPulse.Integrity
open Batch Erasure Ingest Lib

abbrev Uuid := Erasure.Uuid

/-- The CHECK `check_event_data_structure`:
    (event_data->'value' IS NULL OR jsonb_typeof(event_data->'value') = 'object') AND
    (event_data->'topic' IS NULL OR jsonb_typeof(event_data->'topic') = 'array') -/
def checkEventDataStructure (data : Value) : Bool :=
  (member data "value").all (fun v => kindOf v = .object) &&
    (member data "topic").all fun t => kindOf t = .array

example : checkEventDataStructure ANONYMIZED = true := rfl

/-! ### The masking job -/

/-- `key_lower.contains("address") || key_lower.contains("account")`; no letter of the two words has
    a capital outside ASCII. -/
def namesAddress (key : String) : Bool :=
  let keyLower := key.toList.map Char.toLower
  decide ("address".toList <:+: keyLower) || decide ("account".toList <:+: keyLower)

/-- `s[..n]` of an ASCII text; a text that is too short panics. -/
def sliceTo (n : ℕ) (s : String) : Option String :=
  if s.utf8ByteSize < n then none else some (String.ofList (s.toList.take n))

/-- What goes under a key: `format!("G{:x}", hash)[..56]` for the string of an address. -/
def maskMember (deterministicHash : String → UInt64) (key : String) (masked : Value) :
    Option Value :=
  match masked with
  | .string s =>
    if namesAddress key then
      (sliceTo 56 (String.ofList ('G' :: lowerHexU64 (deterministicHash s)))).map .string
    else some masked
  | masked => some masked

mutual
/-- `mask_event_data`; nothing if it panics. -/
def maskEventData (deterministicHash : String → UInt64) : Value → Option Value
  | .object map => (maskMembers deterministicHash map).map .object
  | .array items => (maskItems deterministicHash items).map .array
  | data => some data

/-- The keys of a map are distinct, so that the members keep their order. -/
def maskMembers (deterministicHash : String → UInt64) :
    List (String × Value) → Option (List (String × Value))
  | [] => some []
  | (key, value) :: map => do
    let masked ← maskEventData deterministicHash value
    let masked ← maskMember deterministicHash key masked
    let rest ← maskMembers deterministicHash map
    some ((key, masked) :: rest)

def maskItems (deterministicHash : String → UInt64) : List Value → Option (List Value)
  | [] => some []
  | value :: items => do
    let masked ← maskEventData deterministicHash value
    let rest ← maskItems deterministicHash items
    some (masked :: rest)
end

/-- Every row gets the payload that `f` has for it. -/
def setEventData (db : Db) (f : EventRecord → Value) : Db :=
  { db with
    events := db.events.map fun r => { r with eventData := f r }
    primaryKey := by
      rw [List.map_map]
      exact db.primaryKey
    uniqueKey := by
      rw [List.map_map]
      exact db.uniqueKey }

/-- UPDATE events SET event_data = $1 WHERE id = $2 -/
def updateEventData (db : Db) (id : Uuid) (data : Value) : Db :=
  setEventData db fun r => if r.id = id then data else r.eventData

/-- WHERE event_data IS NOT NULL AND contract_id IN (…), if there are any -/
def selectedForMasking (contractIds : Option (List String)) (r : EventRecord) : Bool :=
  match contractIds with
  | some ids => ids.isEmpty || ids.contains r.contractId
  | none => true

/-- … ORDER BY id LIMIT 1000 -/
def rowsToMask (contractIds : Option (List String)) (db : Db) : List (Uuid × Value) :=
  let rows := db.events.filter (selectedForMasking contractIds)
  ((rows.mergeSort fun a b => decide (a.id ≤ b.id)).take 1000).map fun r => (r.id, r.eventData)

/-- The loop of the job: a panic or a failing statement ends it. -/
def maskRows (deterministicHash : String → UInt64) (admits : Value → Bool) (faults : Faults) :
    Db → List (Uuid × Value) → Db
  | db, [] => db
  | db, (id, eventData) :: rows =>
    match maskEventData deterministicHash eventData with
    | none => db
    | some maskedData =>
      if faults.update id || !admits maskedData then db
      else maskRows deterministicHash admits faults (updateEventData db id maskedData) rows

def maskEventsBackground (deterministicHash : String → UInt64) (admits : Value → Bool)
    (faults : Faults) (db : Db) (contractIds : Option (List String)) : Db :=
  if faults.select then db
  else maskRows deterministicHash admits faults db (rowsToMask contractIds db)

/-! ### The batch operations on the table -/

def batchEvent (r : EventRecord) : Batch.Event := ⟨r.id, r.tenantId, r.eventData⟩

/-- The table as the batch operations see it. -/
def batchView (db : Db) : Batch.Database where
  events := db.events.map batchEvent
  ids_nodup := by
    rw [List.map_map]
    exact db.primaryKey
  auditLogs := []

/-- The payloads of a view, row by row. -/
def writeBack (db : Db) (view : Batch.Database) : Db :=
  setEventData db fun r =>
    ((view.events.find? (·.id = r.id)).map (·.eventData)).getD r.eventData

/-! ### A write -/

/-- A call of `store_event_in_tx`, for a ledger that exists and a close time since the genesis. -/
structure StoreCall (libraries : Libraries) where
  event : SorobanEvent
  /-- The id its row would draw. -/
  id : Uuid
  /-- Is content dedup enabled, and does its window have the fingerprint? -/
  contentDuplicate : Bool
  fault : Option Statement
  committed : Bool
  ledger_pos : 1 ≤ event.ledger.toNat
  dated : ∀ timestamp, libraries.parseFromRfc3339 event.ledgerClosedAt = some timestamp →
    STELLAR_GENESIS ≤ timestamp

inductive Write (libraries : Libraries) where
  | store (call : StoreCall libraries)
  | anonymize (id : Uuid)
  | mask (contractIds : Option (List String)) (faults : Faults)
  | tag (req : BatchTagRequest) (faults : Faults)
  /-- With persist = true. -/
  | transform (ids : List Uuid) (pipeline : List TransformStep) (faults : Faults)

/-- The settings and libraries of the writers, and the table they write to. -/
structure Writers extends Setting where
  digest : String → Vector UInt8 32
  sha256_eq : ∀ text, enrichment.sha256 text = String.ofList (lowerHex (digest text).toList)
  /-- `DefaultHasher` -/
  deterministicHash : String → UInt64
  /-- Does `events` carry `check_event_data_structure`? -/
  eventDataCheck : Bool

variable (writers : Writers)

/-- May a row have this payload? -/
def Writers.admits (data : Value) : Bool := !writers.eventDataCheck || checkEventDataStructure data

/-- The one UPDATE fails if a tagged payload breaks the CHECK. -/
def tagFaults (db : Db) (req : BatchTagRequest) (faults : Faults) : Faults :=
  { faults with
    write := faults.write || db.events.any fun r => req.ids.contains r.id &&
      !(tagData (tagsValue req.tags) (req.replace.getD false) r.eventData).all writers.admits }

/-- The UPDATE of a row fails if its transformed payload breaks the CHECK. -/
def transformFaults (db : Db) (pipeline : List TransformStep) (faults : Faults) : Faults :=
  { faults with
    update := fun id => faults.update id || db.events.any fun r => decide (r.id = id) &&
      !(applyPipeline pipeline r.eventData).toOption.all writers.admits }

/-- The payload of an anonymized row has neither member that the CHECK is about. -/
def write (s : ReingestState) : Write writers.libraries → ReingestState
  | .store call =>
    if call.contentDuplicate then { s with filters := (s.filters.checkSession call.event).2 }
    else
      s.store writers.toSetting call.event call.id
        (if writers.admits (eventData call.event) then call.fault else some .insert) call.committed
  | .anonymize id => s.anonymize writers.toSetting id
  | .mask contractIds faults =>
    { s with
      db := maskEventsBackground writers.deterministicHash writers.admits faults s.db contractIds }
  | .tag req faults =>
    { s with
      db := writeBack s.db
        (batchTagEvents (batchView s.db) req (tagFaults writers s.db req faults)).1 }
  | .transform ids pipeline faults =>
    { s with
      db := writeBack s.db
        (batchTransformEvents (batchView s.db) { ids, pipeline, persist := some true }
          (transformFaults writers s.db pipeline faults)).1 }

/-- What a write makes of a payload it comes to. -/
def Write.payload (data : Value) : Write writers.libraries → Option Value
  | .store _ => none
  | .anonymize _ => some ANONYMIZED
  | .mask _ _ => maskEventData writers.deterministicHash data
  | .tag req _ => tagData (tagsValue req.tags) (req.replace.getD false) data
  | .transform _ pipeline _ => (applyPipeline pipeline data).toOption

/-! ### Masking changes nothing -/

/-- A string stored directly under a key that contains "address" or "account". -/
def holdsAddress (key : String) (v : Value) : Bool := namesAddress key && v.asStr.isSome

/-- There is nothing to mask. -/
def NoAddress (v : Value) : Prop := ∀ s, ¬StoredUnder namesAddress s v

section
variable {deterministicHash : String → UInt64} {admits : Value → Bool} {faults : Faults} {db : Db}
  {key : String} {v : Value} {map : List (String × Value)} {items : List Value}

theorem noAddress_object_nil : NoAddress (.object []) := fun _ => storedUnder_object_nil

theorem noAddress_array_nil : NoAddress (.array []) := fun _ => storedUnder_array_nil

theorem noAddress_object_cons : NoAddress (.object ((key, v) :: map)) ↔
    holdsAddress key v = false ∧ NoAddress v ∧ NoAddress (.object map) := by
  have hkey : (∀ s, ¬(namesAddress key = true ∧ v = .string s)) ↔ holdsAddress key v = false := by
    rw [holdsAddress]
    cases namesAddress key <;> cases v <;> simp [Value.asStr]
  simp only [NoAddress, storedUnder_object_cons, not_or, forall_and, hkey]

theorem noAddress_array_cons : NoAddress (.array (v :: items)) ↔
    NoAddress v ∧ NoAddress (.array items) := by
  simp only [NoAddress, storedUnder_array_cons, not_or, forall_and]

/-- The sliced text is always too short. -/
theorem sliceTo_hash (n : UInt64) : sliceTo 56 (String.ofList ('G' :: lowerHexU64 n)) = none := by
  have hascii : Ascii ('G' :: lowerHexU64 n) := by
    rintro c (_ | ⟨_, hc⟩)
    · decide
    · exact ascii_lowerHexU64 n c hc
  have hlength := length_lowerHexU64_le n
  rw [sliceTo, utf8ByteSize_of_ascii hascii, List.length_cons, if_pos (by omega)]

/-- A string under an address key ends in the panic. -/
theorem maskMember_eq_some_iff {w : Value} :
    maskMember deterministicHash key v = some w ↔ w = v ∧ holdsAddress key v = false := by
  rw [holdsAddress]
  cases v with
  | string s =>
    rw [maskMember]
    split
    · next hkey =>
      rw [sliceTo_hash]
      simp [hkey, Value.asStr]
    · next hkey => simp [hkey, eq_comm]
  | null | bool _ | number _ | array _ | object _ => simp [maskMember, Value.asStr, eq_comm]

mutual
/-- What the function returns is what it was given, and it returns where there is nothing to mask. -/
theorem maskEventData_eq_some_iff : ∀ {data masked : Value},
    maskEventData deterministicHash data = some masked ↔ masked = data ∧ NoAddress data
  | .object map, masked => by
    simp only [maskEventData, Option.map_eq_some_iff, maskMembers_eq_some_iff]
    constructor
    · rintro ⟨map', ⟨rfl, hmap⟩, rfl⟩
      exact ⟨rfl, hmap⟩
    · rintro ⟨rfl, hmap⟩
      exact ⟨map, ⟨rfl, hmap⟩, rfl⟩
  | .array items, masked => by
    simp only [maskEventData, Option.map_eq_some_iff, maskItems_eq_some_iff]
    constructor
    · rintro ⟨items', ⟨rfl, hitems⟩, rfl⟩
      exact ⟨rfl, hitems⟩
    · rintro ⟨rfl, hitems⟩
      exact ⟨items, ⟨rfl, hitems⟩, rfl⟩
  | .null, masked | .bool _, masked | .number _, masked | .string _, masked => by
    simp only [maskEventData, Option.some.injEq, eq_comm, iff_self_and]
    rintro - s h
    cases h

theorem maskMembers_eq_some_iff : ∀ {map masked : List (String × Value)},
    maskMembers deterministicHash map = some masked ↔ masked = map ∧ NoAddress (.object map)
  | [], masked => by simp [maskMembers, noAddress_object_nil, eq_comm]
  | (key, v) :: map, masked => by
    rw [maskMembers, noAddress_object_cons]
    constructor
    · intro h
      obtain ⟨w, hw, h⟩ := Option.bind_eq_some_iff.mp h
      obtain ⟨w', hw', h⟩ := Option.bind_eq_some_iff.mp h
      obtain ⟨rest, hrest, hsome⟩ := Option.bind_eq_some_iff.mp h
      obtain ⟨rfl, hv⟩ := maskEventData_eq_some_iff.mp hw
      obtain ⟨rfl, hkey⟩ := maskMember_eq_some_iff.mp hw'
      obtain ⟨rfl, hmap⟩ := maskMembers_eq_some_iff.mp hrest
      exact ⟨(Option.some.inj hsome).symm, hkey, hv, hmap⟩
    · rintro ⟨rfl, hkey, hv, hmap⟩
      rw [maskEventData_eq_some_iff.mpr ⟨rfl, hv⟩, Option.bind_eq_bind, Option.bind_some,
        maskMember_eq_some_iff.mpr ⟨rfl, hkey⟩, Option.bind_eq_bind, Option.bind_some,
        maskMembers_eq_some_iff.mpr ⟨rfl, hmap⟩]
      rfl

theorem maskItems_eq_some_iff : ∀ {items masked : List Value},
    maskItems deterministicHash items = some masked ↔ masked = items ∧ NoAddress (.array items)
  | [], masked => by simp [maskItems, noAddress_array_nil, eq_comm]
  | v :: items, masked => by
    rw [maskItems, noAddress_array_cons]
    constructor
    · intro h
      obtain ⟨w, hw, h⟩ := Option.bind_eq_some_iff.mp h
      obtain ⟨rest, hrest, hsome⟩ := Option.bind_eq_some_iff.mp h
      obtain ⟨rfl, hv⟩ := maskEventData_eq_some_iff.mp hw
      obtain ⟨rfl, hitems⟩ := maskItems_eq_some_iff.mp hrest
      exact ⟨(Option.some.inj hsome).symm, hv, hitems⟩
    · rintro ⟨rfl, hv, hitems⟩
      rw [maskEventData_eq_some_iff.mpr ⟨rfl, hv⟩, Option.bind_eq_bind, Option.bind_some,
        maskItems_eq_some_iff.mpr ⟨rfl, hitems⟩]
      rfl
end

theorem setEventData_self {f : EventRecord → Value} (h : ∀ r ∈ db.events, f r = r.eventData) :
    setEventData db f = db := by
  refine Db.ext ?_ rfl rfl
  conv_rhs => rw [← List.map_id db.events]
  refine List.map_congr_left fun r hr => ?_
  rw [h r hr]
  rfl

theorem mem_rowsToMask {contractIds : Option (List String)} {item : Uuid × Value}
    (h : item ∈ rowsToMask contractIds db) : ∃ r ∈ db.events, item = (r.id, r.eventData) := by
  obtain ⟨r, hr, rfl⟩ := List.mem_map.mp h
  have hsorted := List.mem_of_mem_take hr
  rw [List.mem_mergeSort] at hsorted
  exact ⟨r, List.mem_of_mem_filter hsorted, rfl⟩

/-- Each row that the loop comes to gets the payload it has. -/
theorem maskRows_eq {rows : List (Uuid × Value)}
    (h : ∀ item ∈ rows, ∃ r ∈ db.events, item = (r.id, r.eventData)) :
    maskRows deterministicHash admits faults db rows = db := by
  induction rows with
  | nil => rfl
  | cons item rows ih =>
    obtain ⟨r, hr, rfl⟩ := h item List.mem_cons_self
    rw [maskRows]
    split
    · rfl
    · next masked hmasked =>
      split
      · rfl
      · have hsame : updateEventData db r.id masked = db := by
          refine setEventData_self fun q hq => ?_
          split
          · next hid => rw [Db.eq_of_id hq hr hid, (maskEventData_eq_some_iff.mp hmasked).1]
          · rfl
        rw [hsame]
        exact ih fun item hitem => h item (List.mem_cons_of_mem _ hitem)

theorem maskEventsBackground_eq (contractIds : Option (List String)) :
    maskEventsBackground deterministicHash admits faults db contractIds = db := by
  unfold maskEventsBackground
  split
  · rfl
  · exact maskRows_eq fun item hitem => mem_rowsToMask hitem

end

end SorobanPulse.Integrity
