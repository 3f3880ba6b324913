import SorobanPulse.Jsonb
import SorobanPulse.Auth.Router
import SorobanPulse.Lib.Run
import SorobanPulse.Lib.Pages

/-! Batch operations on events: delete, tag and transform.

        delete     DELETE FROM events WHERE id = ANY(ids)
        tag        UPDATE events SET event_data = jsonb_set(…)  WHERE id = ANY(ids)
        transform  SELECT … WHERE id = ANY(ids) ──▶ pipeline ──▶ UPDATE events … WHERE id = …

    The handlers are given the pool and the body of the request, and no tenant. -/

namespace SorobanPulse.Batch
open Lib Auth

abbrev Uuid := BitVec 128

/-- A row of `events`, as far as the batch operations read and write it. -/
structure Event where
  id : Uuid
  tenantId : Option String
  eventData : Value

structure AuditLog where
  id : Uuid
  entityIds : List Uuid
  reason : String
  operator : String
  createdAt : ℤ

structure Database where
  events : List Event
  /-- The primary key of `events`. -/
  ids_nodup : (events.map (·.id)).Nodup
  auditLogs : List AuditLog

/-! ### Requests and responses -/

def BATCH_DELETE_MAX_IDS : ℕ := 200

def BATCH_TAG_MAX_IDS : ℕ := 500

structure BatchDeleteRequest where
  ids : List Uuid
  reason : Option String := none
  operator : Option String := none

structure BatchTagRequest where
  ids : List Uuid
  tags : List (String × String)
  replace : Option Bool := none

structure TransformStep where
  op : String
  field : String
  value : Option Value

structure BatchTransformRequest where
  ids : List Uuid
  pipeline : List TransformStep
  persist : Option Bool := none

inductive BatchRequest where
  | delete (req : BatchDeleteRequest)
  | tag (req : BatchTagRequest)
  | transform (req : BatchTransformRequest)

inductive BatchResponse where
  | badRequest (error : String)
  | databaseError
  | deleted (deleted : ℕ) (notFound : List Uuid) (auditId : Uuid) (deletedAt : ℤ)
  | tagged (updated : ℕ) (notFound : List Uuid)
  | transformed (transformed : ℕ) (data : Option (List (Uuid × Value))) (notFound : List Uuid)
      (errors : List (Uuid × String))

/-- Which statements of a call fail. -/
structure Faults where
  select : Bool := false
  write : Bool := false
  audit : Bool := false
  /-- The update of this row, one statement each. -/
  update : Uuid → Bool := fun _ => false

/-! ### Statements -/

def Database.deleteIds (db : Database) (ids : List Uuid) : Database :=
  { db with
    events := db.events.filter fun r => r.id ∉ ids
    ids_nodup := db.ids_nodup.sublist (List.filter_sublist.map _) }

/-- Every row gets the data that `f` has for it. -/
def Database.setData (db : Database) (f : Event → Value) : Database :=
  { db with
    events := db.events.map fun r => { r with eventData := f r }
    ids_nodup := by
      rw [List.map_map]
      exact db.ids_nodup }

/-- The tags set under `_tags`, or merged into those that are there. -/
def tagData (tags : Value) (replace : Bool) (data : Value) : Option Value :=
  jsonbSet data "_tags"
    (if replace then tags else jsonbConcat ((member data "_tags").getD (.object [])) tags)

/-- One `UPDATE`: a row whose data is no object fails it for all. -/
def Database.updateTags (db : Database) (ids : List Uuid) (tags : Value) (replace : Bool) :
    Option Database :=
  if ∀ r ∈ db.events, r.id ∈ ids → (tagData tags replace r.eventData).isSome then
    some (db.setData fun r =>
      if r.id ∈ ids then (tagData tags replace r.eventData).getD r.eventData else r.eventData)
  else none

/-! ### Transformations -/

/-- What becomes of an object; anything else stays as it is. -/
def mapObject (data : Value) (f : List (String × Value) → List (String × Value)) : Value :=
  match data with
  | .object map => .object (f map)
  | data => data

def applyTransformStep (data : Value) (step : TransformStep) : Except String Value :=
  if step.op = "mask_field" then
    .ok (mapObject data fun map =>
      if (map.lookup step.field).isSome then insertMember step.field (.string "***") map else map)
  else if step.op = "drop_field" then .ok (mapObject data (removeMember step.field))
  else if step.op = "rename_field" then
    match step.value.bind Value.asStr with
    | none => .error "rename_field requires a string value"
    | some newName =>
      .ok (mapObject data fun map =>
        match map.lookup step.field with
        | some v => insertMember newName v (removeMember step.field map)
        | none => map)
  else if step.op = "set_field" then
    match step.value with
    | none => .error "set_field requires a value"
    | some v => .ok (mapObject data (insertMember step.field v))
  else .error ("unknown transform op: " ++ step.op)

def applyPipeline (pipeline : List TransformStep) (data : Value) : Except String Value :=
  pipeline.foldlM applyTransformStep data

/-- The update of one transformed event; its failure is ignored. -/
def Database.persist (faults : Faults) (db : Database) (item : Uuid × Value) : Database :=
  if faults.update item.1 then db
  else db.setData fun r => if r.id = item.1 then item.2 else r.eventData

/-! ### Handlers -/

/-- The checks of the id list that delete and tag share. -/
def rejectIds (ids : List Uuid) (max : ℕ) : Option String :=
  if ids.isEmpty then some "ids must not be empty"
  else if max < ids.length then some s!"too many ids; maximum is {max}"
  else none

def batchDeleteEvents (db : Database) (req : BatchDeleteRequest) (faults : Faults) (auditId : Uuid)
    (now : ℤ) : Database × BatchResponse :=
  match rejectIds req.ids BATCH_DELETE_MAX_IDS with
  | some error => (db, .badRequest error)
  | none =>
    if faults.select then (db, .databaseError)
    else if faults.write then (db, .databaseError)
    else
      let deleted := db.events.countP fun r => r.id ∈ req.ids
      let log : AuditLog :=
        { id := auditId
          entityIds := req.ids
          reason := req.reason.getD "batch delete"
          operator := req.operator.getD "system"
          createdAt := now }
      let db := db.deleteIds req.ids
      (if faults.audit then db else { db with auditLogs := db.auditLogs ++ [log] },
        .deleted deleted (if deleted < req.ids.length then req.ids.drop deleted else []) auditId now)

def tagsValue (tags : List (String × String)) : Value :=
  .object (tags.foldl (fun map e => insertMember e.1 (.string e.2) map) [])

def batchTagEvents (db : Database) (req : BatchTagRequest) (faults : Faults) :
    Database × BatchResponse :=
  match rejectIds req.ids BATCH_TAG_MAX_IDS with
  | some error => (db, .badRequest error)
  | none =>
    if faults.write then (db, .databaseError)
    else
      match db.updateTags req.ids (tagsValue req.tags) (req.replace.getD false) with
      | none => (db, .databaseError)
      | some db' =>
        let updated := db.events.countP fun r => r.id ∈ req.ids
        (db', .tagged updated (if 0 < req.ids.length - updated then req.ids.drop updated else []))

/-- The events that went through the pipeline, and those that did not. -/
def transformedData (pipeline : List TransformStep) (rows : List Event) : List (Uuid × Value) :=
  rows.filterMap fun r => (applyPipeline pipeline r.eventData).toOption.map fun data => (r.id, data)

def transformErrors (pipeline : List TransformStep) (rows : List Event) : List (Uuid × String) :=
  rows.filterMap fun r =>
    match applyPipeline pipeline r.eventData with
    | .error msg => some (r.id, msg)
    | .ok _ => none

def rejectTransform (req : BatchTransformRequest) : Option String :=
  if req.ids.isEmpty then some "ids must not be empty"
  else if req.pipeline.isEmpty then some "pipeline must not be empty"
  else none

def batchTransformEvents (db : Database) (req : BatchTransformRequest) (faults : Faults) :
    Database × BatchResponse :=
  match rejectTransform req with
  | some error => (db, .badRequest error)
  | none =>
    if faults.select then (db, .databaseError)
    else
      let rows := db.events.filter fun r => r.id ∈ req.ids
      let data := transformedData req.pipeline rows
      let persist := req.persist.getD false
      (if persist then data.foldl (Database.persist faults) db else db,
        .transformed data.length (if persist then none else some data)
          (req.ids.filter fun id => id ∉ rows.map (·.id)) (transformErrors req.pipeline rows))

/-! ### Calls -/

/-- A request for a batch endpoint, and the application as it is then. -/
structure Call where
  app : App
  authorization : Option String := none
  xApiKey : Option String := none
  body : BatchRequest
  faults : Faults := {}
  auditId : Uuid
  now : ℤ

def BatchRequest.path : BatchRequest → String
  | .delete _ => "/v1/events/batch/delete"
  | .tag _ => "/v1/events/batch/tag"
  | .transform _ => "/v1/events/batch/transform"

def Call.request (call : Call) : Request where
  method := .post
  path := call.body.path
  authorization := call.authorization
  xApiKey := call.xApiKey

def Call.handle (call : Call) (db : Database) : Database × BatchResponse :=
  match call.body with
  | .delete req => batchDeleteEvents db req call.faults call.auditId call.now
  | .tag req => batchTagEvents db req call.faults
  | .transform req => batchTransformEvents db req call.faults

/-- The tenant that the call is authenticated for. -/
def Call.tenantId (call : Call) : Option String :=
  match authMiddleware call.app.auth call.request with
  | .ok ext => ext.tenantId
  | .error _ => none

/-- A call with a key of this tenant. -/
def step (t : String) (db : Database) (call : Call) : Option Database :=
  if call.tenantId = some t then
    match serve call.app call.request with
    | .handled _ => some (call.handle db).1
    | _ => some db
  else none

end SorobanPulse.Batch

/-! `batch_retrieve_events`: the requested events, a page of them at a time.

        WHERE id = ANY(ids) ORDER BY created_at DESC LIMIT … OFFSET (page - 1) * limit

    Events of one `created_at` come in any order, in each query its own. An id is reported as not
    found when its event is not on the page. -/

namespace SorobanPulse.Batch
open Lib OffsetPages

/-- A row of `events`, as far as a page of it can fail to be read. -/
structure StoredEvent extends Event where
  eventType : String
  createdAt : ℤ

structure EventsTable where
  rows : List StoredEvent
  ids_nodup : (rows.map (·.id)).Nodup

def EventsTable.ids (table : EventsTable) : List Uuid := table.rows.map (·.id)

def BATCH_RETRIEVE_MAX_IDS : ℕ := 500

structure BatchRetrievalRequest where
  ids : List Uuid
  page : Option ℤ := none
  limit : Option ℤ := none

structure BatchRetrievalResponse where
  data : List StoredEvent
  notFound : List Uuid
  found : ℕ
  page : ℤ
  limit : ℤ

inductive RetrieveOutcome where
  | badRequest (error : String)
  | databaseError
  | panicked
  | retrieved (resp : BatchRetrievalResponse)

/-! ### Pages -/

def BatchRetrievalRequest.pageNumber (req : BatchRetrievalRequest) : ℤ := max (req.page.getD 1) 1

/-- `clamp(1, 500)` -/
def BatchRetrievalRequest.pageLimit (req : BatchRetrievalRequest) : ℤ :=
  max 1 (min 500 (req.limit.getD 100))

/-- `(page - 1) * limit` of `i64`s. Out of range it panics, or wraps when built without checks. -/
def BatchRetrievalRequest.offset (overflowChecks : Bool) (req : BatchRetrievalRequest) : Option ℤ :=
  let product := (req.pageNumber - 1) * req.pageLimit
  if product < 2 ^ 63 then some product
  else if overflowChecks then none
  else some (product.bmod (2 ^ 64))

/-! ### The query -/

/-- A row is read as an event when its type is known and its tenant is not NULL. -/
def StoredEvent.decodes (row : StoredEvent) : Bool :=
  ["contract", "diagnostic", "system"].contains row.eventType && row.tenantId.isSome

/-- `WHERE id = ANY($1)` -/
def EventsTable.matching (table : EventsTable) (ids : List Uuid) : List StoredEvent :=
  table.rows.filter fun row => ids.contains row.id

/-- `created_at DESC` -/
def latestFirst (row : StoredEvent) : ℤ := -row.createdAt

/-- The order in which a query happens to give the rows. -/
structure Arrangement (rows : List StoredEvent) where
  arranged : List StoredEvent
  ordered : Ordered latestFirst rows arranged

/-- A negative offset and a row that cannot be read are errors. -/
def selectPage (arranged : List StoredEvent) (limit offset : ℤ) : Option (List StoredEvent) :=
  if offset < 0 then none
  else
    let rows := (arranged.drop offset.toNat).take limit.toNat
    if rows.all StoredEvent.decodes then some rows else none

def batchRetrieveEvents (overflowChecks : Bool) (table : EventsTable) (req : BatchRetrievalRequest)
    (arrangement : Arrangement (table.matching req.ids)) (faults : Faults) : RetrieveOutcome :=
  match rejectIds req.ids BATCH_RETRIEVE_MAX_IDS with
  | some error => .badRequest error
  | none =>
    match req.offset overflowChecks with
    | none => .panicked
    | some offset =>
      if faults.select then .databaseError
      else
        match selectPage arrangement.arranged req.pageLimit offset with
        | none => .databaseError
        | some events =>
          .retrieved {
            data := events
            notFound := req.ids.filter fun id => id ∉ events.map (·.id)
            found := events.length
            page := req.pageNumber
            limit := req.pageLimit }

def RetrieveOutcome.data? : RetrieveOutcome → Option (List StoredEvent)
  | .retrieved resp => some resp.data
  | _ => none

/-- Pages 1 to `n`, each with an order of its own, when all are given. -/
def retrievePages (overflowChecks : Bool) (table : EventsTable) (ids : List Uuid) (limit : Option ℤ)
    (arrangement : ℕ → Arrangement (table.matching ids)) : ℕ → Option (List StoredEvent)
  | 0 => some []
  | n + 1 => do
    let before ← retrievePages overflowChecks table ids limit arrangement n
    let events ← (batchRetrieveEvents overflowChecks table
      { ids, page := some (n + 1), limit } (arrangement n) {}).data?
    return before ++ events

end SorobanPulse.Batch
