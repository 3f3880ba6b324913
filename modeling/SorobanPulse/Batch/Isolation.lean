import SorobanPulse.Batch.Operations

/-! Tenant isolation of the batch writes.

    A call of tenant `t` is isolated when the rows of other tenants stay as they are, and when, being
    a delete, it deletes nothing. No statement names a tenant, so this is up to the ids: what is
    asked of them is `Harmless`. -/

namespace SorobanPulse.Batch
open Lib Auth PathRouter

/-- The row is another tenant's. -/
def Event.Foreign (t : String) (r : Event) : Prop := ∃ t', r.tenantId = some t' ∧ t' ≠ t

instance (t : String) : DecidablePred (Event.Foreign t) := fun r =>
  match h : r.tenantId with
  | none => .isFalse fun ⟨_, ht, _⟩ => by rw [h] at ht; cases ht
  | some t' =>
    if hne : t' = t then .isFalse fun ⟨_, ht, hother⟩ => by
      rw [h] at ht
      exact hother ((Option.some.inj ht).symm.trans hne)
    else .isTrue ⟨t', h, hne⟩

def Database.foreign (db : Database) (t : String) : List Event := db.events.filter (Event.Foreign t)

structure Isolated (t : String) (call : Call) (db db' : Database) : Prop where
  frame : db'.foreign t = db.foreign t
  noDelete : ∀ req, call.body = .delete req → db'.events = db.events

/-- Where the call leads is isolated from where it was made. -/
def StaysIsolated (t : String) (db : Database) (call : Call) : Prop :=
  ∀ db', step t db call = some db' → Isolated t call db db'

/-! ### What a call must meet -/

/-- The delete names no row, or does not come to its statement. -/
def BatchDeleteRequest.Harmless (req : BatchDeleteRequest) (db : Database) (faults : Faults) : Prop :=
  rejectIds req.ids BATCH_DELETE_MAX_IDS = none → faults.select = false → faults.write = false →
    ∀ r ∈ db.events, r.id ∉ req.ids

/-- The foreign rows among the ids carry these tags already, or the statement fails. -/
def BatchTagRequest.Harmless (req : BatchTagRequest) (t : String) (db : Database) (faults : Faults) :
    Prop :=
  rejectIds req.ids BATCH_TAG_MAX_IDS = none → faults.write = false →
    (∀ r ∈ db.events, r.id ∈ req.ids → ∃ map, r.eventData = .object map) →
    ∀ r ∈ db.events, r.Foreign t → r.id ∈ req.ids →
      tagData (tagsValue req.tags) (req.replace.getD false) r.eventData = some r.eventData

/-- The foreign rows among the ids are such as the pipeline leaves as they are or fails on, or such
    as are not updated. -/
def BatchTransformRequest.Harmless (req : BatchTransformRequest) (t : String) (db : Database)
    (faults : Faults) : Prop :=
  rejectTransform req = none → faults.select = false → req.persist = some true →
    ∀ r ∈ db.events, r.Foreign t → r.id ∈ req.ids → faults.update r.id = false →
      ∀ data, applyPipeline req.pipeline r.eventData = .ok data → data = r.eventData

def Harmless (t : String) (db : Database) (call : Call) : Prop :=
  call.app.innerLayers call.request = true →
    match call.body with
    | .delete req => req.Harmless db call.faults
    | .tag req => req.Harmless t db call.faults
    | .transform req => req.Harmless t db call.faults

/-! ### The statements and the foreign rows -/

variable {t : String} {db : Database}

theorem foreign_setData (db : Database) (f : Event → Value) (t : String) :
    (db.setData f).foreign t = (db.foreign t).map fun r => { r with eventData := f r } := by
  rw [Database.foreign, Database.foreign, Database.setData, List.filter_map]
  rfl

theorem mem_foreign {r : Event} : r ∈ db.foreign t ↔ r ∈ db.events ∧ r.Foreign t := by
  rw [Database.foreign, List.mem_filter, decide_eq_true_eq]

/-- Setting data keeps the foreign rows exactly if it sets what they have. -/
theorem foreign_setData_iff {f : Event → Value} : (db.setData f).foreign t = db.foreign t ↔
    ∀ r ∈ db.events, r.Foreign t → f r = r.eventData := by
  rw [foreign_setData]
  constructor
  · intro h r hr hforeign
    have hmap : (db.foreign t).map (fun r => { r with eventData := f r }) = (db.foreign t).map id := by
      rw [h, List.map_id]
    exact congrArg Event.eventData (List.map_inj_left.mp hmap r (mem_foreign.mpr ⟨hr, hforeign⟩))
  · intro h
    conv_rhs => rw [← List.map_id (db.foreign t)]
    refine List.map_congr_left fun r hr => ?_
    rcases mem_foreign.mp hr with ⟨hmem, hforeign⟩
    rw [h r hmem hforeign]
    rfl

theorem deleteIds_events_iff {ids : List Uuid} :
    (db.deleteIds ids).events = db.events ↔ ∀ r ∈ db.events, r.id ∉ ids := by
  rw [Database.deleteIds, List.filter_eq_self]
  simp

/-! ### Delete -/

variable {call : Call}

theorem delete_isolated_iff (req : BatchDeleteRequest) (faults : Faults) (auditId : Uuid) (now : ℤ) :
    (batchDeleteEvents db req faults auditId now).1.events = db.events ↔ req.Harmless db faults := by
  unfold batchDeleteEvents BatchDeleteRequest.Harmless
  cases rejectIds req.ids BATCH_DELETE_MAX_IDS with
  | some error => simp
  | none =>
    cases faults.select with
    | true => simp
    | false =>
      cases faults.write with
      | true => simp
      | false =>
        rw [← deleteIds_events_iff]
        cases faults.audit <;> simp

/-! ### Tag -/

theorem tagData_isSome_iff {tags data : Value} {replace : Bool} :
    (tagData tags replace data).isSome = true ↔ ∃ map, data = .object map := by
  unfold tagData jsonbSet
  cases data <;> simp

theorem tag_isolated_iff (req : BatchTagRequest) (faults : Faults) :
    (batchTagEvents db req faults).1.foreign t = db.foreign t ↔ req.Harmless t db faults := by
  unfold batchTagEvents BatchTagRequest.Harmless
  cases rejectIds req.ids BATCH_TAG_MAX_IDS with
  | some error => simp
  | none =>
    cases faults.write with
    | true => simp
    | false =>
      rw [if_neg Bool.false_ne_true, Database.updateTags]
      by_cases hobjects : ∀ r ∈ db.events, r.id ∈ req.ids →
          (tagData (tagsValue req.tags) (req.replace.getD false) r.eventData).isSome = true
      · rw [if_pos hobjects]
        rw [foreign_setData_iff]
        constructor
        · intro h _ _ _ r hr hforeign hid
          rcases Option.isSome_iff_exists.mp (hobjects r hr hid) with ⟨data, hdata⟩
          have hsame := h r hr hforeign
          rw [if_pos hid, hdata, Option.getD_some] at hsame
          rw [hdata, hsame]
        · intro h r hr hforeign
          by_cases hid : r.id ∈ req.ids
          · rw [if_pos hid, h rfl rfl (fun r hr hid => tagData_isSome_iff.mp (hobjects r hr hid)) r hr
              hforeign hid, Option.getD_some]
          · rw [if_neg hid]
      · rw [if_neg hobjects]
        simp only [tagData_isSome_iff] at hobjects
        simp [hobjects]

/-! ### Transform -/

/-- What the updates of these items leave in a row. -/
def written (faults : Faults) (items : List (Uuid × Value)) (r : Event) : Value :=
  match items.lookup r.id with
  | some data => if faults.update r.id then r.eventData else data
  | none => r.eventData

theorem persist_eq (faults : Faults) (db : Database) (item : Uuid × Value) :
    (db.persist faults item).events =
      db.events.map fun r => { r with eventData := written faults [item] r } := by
  rcases item with ⟨id, data⟩
  rw [Database.persist]
  cases hfails : faults.update id with
  | true =>
    conv_lhs => rw [if_pos rfl, ← List.map_id db.events]
    refine List.map_congr_left fun r _ => ?_
    by_cases hid : id = r.id
    · subst hid
      simp [written, List.lookup, hfails]
    · simp [written, List.lookup, beq_eq_false_iff_ne.mpr (Ne.symm hid)]
  | false =>
    rw [if_neg Bool.false_ne_true, Database.setData]
    refine List.map_congr_left fun r _ => ?_
    by_cases hid : r.id = id
    · simp [written, List.lookup, hid, hfails]
    · simp [written, List.lookup, hid, beq_eq_false_iff_ne.mpr hid]

/-- The updates reach each row once: no two items have one id. -/
theorem foldl_persist (faults : Faults) {items : List (Uuid × Value)}
    (hnodup : (items.map (·.1)).Nodup) (db : Database) :
    (items.foldl (Database.persist faults) db).events =
      db.events.map fun r => { r with eventData := written faults items r } := by
  induction items generalizing db with
  | nil =>
    conv_lhs => rw [List.foldl_nil, ← List.map_id db.events]
    rfl
  | cons item items ih =>
    rcases item with ⟨id, data⟩
    rw [List.map_cons, List.nodup_cons] at hnodup
    rw [List.foldl_cons, ih hnodup.2, persist_eq, List.map_map]
    refine List.map_congr_left fun r _ => ?_
    have hwritten : written faults items { r with eventData := written faults [(id, data)] r } =
        written faults ((id, data) :: items) r := by
      by_cases hid : r.id = id
      · have hnone : items.lookup id = none := by
          rw [List.lookup_eq_none_iff]
          intro item hitem
          rw [bne_iff_ne]
          rintro rfl
          exact hnodup.1 (List.mem_map.mpr ⟨item, hitem, rfl⟩)
        simp [written, List.lookup, hid, hnone]
      · simp [written, List.lookup, beq_eq_false_iff_ne.mpr hid]
    rw [Function.comp_apply, hwritten]

theorem ids_transformedData (pipeline : List TransformStep) (rows : List Event) :
    ((transformedData pipeline rows).map (·.1)).Sublist (rows.map (·.id)) := by
  induction rows with
  | nil => exact .slnil
  | cons r rows ih =>
    rw [transformedData, List.filterMap_cons]
    cases (applyPipeline pipeline r.eventData).toOption with
    | none => exact ih.cons _
    | some data => exact ih.cons_cons _

theorem lookup_transformedData_none {pipeline : List TransformStep} {rows : List Event} {id : Uuid}
    (h : id ∉ rows.map (·.id)) : (transformedData pipeline rows).lookup id = none := by
  rw [List.lookup_eq_none_iff]
  rintro ⟨id', data⟩ hitem
  rw [bne_iff_ne]
  rintro rfl
  rcases List.mem_filterMap.mp hitem with ⟨r, hr, hdata⟩
  rcases Option.map_eq_some_iff.mp hdata with ⟨_, -, heq⟩
  exact h (List.mem_map.mpr ⟨r, hr, (Prod.mk.inj heq).1⟩)

/-- A row is found under its id, if it went through the pipeline. -/
theorem lookup_transformedData {pipeline : List TransformStep} {rows : List Event}
    (hnodup : (rows.map (·.id)).Nodup) {r : Event} (hr : r ∈ rows) :
    (transformedData pipeline rows).lookup r.id = (applyPipeline pipeline r.eventData).toOption := by
  induction rows with
  | nil => cases hr
  | cons q rows ih =>
    rw [List.map_cons, List.nodup_cons] at hnodup
    rcases List.mem_cons.mp hr with rfl | hmem
    · have hrest : (transformedData pipeline rows).lookup r.id = none :=
        lookup_transformedData_none hnodup.1
      rw [transformedData, List.filterMap_cons]
      cases hdata : (applyPipeline pipeline r.eventData).toOption with
      | none => simpa [transformedData] using hrest
      | some data => simp
    · have hne : r.id ≠ q.id := by
        intro hid
        exact hnodup.1 (hid ▸ List.mem_map_of_mem hmem)
      have hrest := ih hnodup.2 hmem
      rw [transformedData, List.filterMap_cons]
      cases (applyPipeline pipeline q.eventData).toOption with
      | none => simpa [transformedData] using hrest
      | some data =>
        rw [Option.map_some]
        simpa [List.lookup, beq_eq_false_iff_ne.mpr hne, transformedData] using hrest

/-- What a persisted transformation leaves in a row of the table. -/
theorem written_transformed (pipeline : List TransformStep) (faults : Faults) (ids : List Uuid)
    {r : Event} (hr : r ∈ db.events) :
    written faults (transformedData pipeline (db.events.filter fun r => r.id ∈ ids)) r =
        r.eventData ↔ (r.id ∈ ids → faults.update r.id = false →
      ∀ data, applyPipeline pipeline r.eventData = .ok data → data = r.eventData) := by
  have hnodup : ((db.events.filter fun r => r.id ∈ ids).map (·.id)).Nodup :=
    db.ids_nodup.sublist (List.filter_sublist.map _)
  rw [written]
  by_cases hid : r.id ∈ ids
  · have hmem : r ∈ db.events.filter fun r => r.id ∈ ids := by
      rw [List.mem_filter, decide_eq_true_eq]
      exact ⟨hr, hid⟩
    rw [lookup_transformedData hnodup hmem]
    cases applyPipeline pipeline r.eventData with
    | error msg => simp [Except.toOption]
    | ok data => cases faults.update r.id <;> simp [Except.toOption, hid]
  · rw [lookup_transformedData_none]
    · simp [hid]
    · simp only [List.mem_map, List.mem_filter, decide_eq_true_eq, not_exists, not_and]
      intro q hq heq
      exact hid (heq ▸ hq.2)

theorem foreign_congr {db' : Database} {f : Event → Value}
    (h : db'.events = db.events.map fun r => { r with eventData := f r }) :
    db'.foreign t = (db.setData f).foreign t := by
  rw [Database.foreign, h]
  rfl

theorem transform_isolated_iff (req : BatchTransformRequest) (faults : Faults) :
    (batchTransformEvents db req faults).1.foreign t = db.foreign t ↔ req.Harmless t db faults := by
  unfold batchTransformEvents BatchTransformRequest.Harmless
  cases rejectTransform req with
  | some error => simp
  | none =>
    cases faults.select with
    | true => simp
    | false =>
      by_cases hpersist : req.persist = some true
      · have hnodup : ((transformedData req.pipeline
            (db.events.filter fun r => r.id ∈ req.ids)).map (·.1)).Nodup :=
          db.ids_nodup.sublist ((ids_transformedData _ _).trans (List.filter_sublist.map _))
        simp only [hpersist, Option.getD_some, if_true, Bool.false_eq_true, if_false]
        rw [foreign_congr (foldl_persist faults hnodup db), foreign_setData_iff]
        constructor
        · intro h _ _ _ r hr hforeign
          exact (written_transformed req.pipeline faults req.ids hr).mp (h r hr hforeign)
        · intro h r hr hforeign
          exact (written_transformed req.pipeline faults req.ids hr).mpr
            (h trivial trivial trivial r hr hforeign)
      · have hfalse : req.persist.getD false = false := by
          cases hcase : req.persist with
          | none => rfl
          | some b => cases b <;> simp_all
        simp [hpersist, hfalse]

/-! ### Calls -/

theorem delete_foreign_eq {req : BatchDeleteRequest} {faults : Faults} {auditId : Uuid} {now : ℤ}
    (h : (batchDeleteEvents db req faults auditId now).1.events = db.events) :
    (batchDeleteEvents db req faults auditId now).1.foreign t = db.foreign t := by
  rw [Database.foreign, h]
  rfl

/-- A call that reaches its handler is isolated exactly if it is harmless to the rows. -/
theorem handle_isolated_iff (call : Call) :
    Isolated t call db (call.handle db).1 ↔
      match call.body with
      | .delete req => req.Harmless db call.faults
      | .tag req => req.Harmless t db call.faults
      | .transform req => req.Harmless t db call.faults := by
  unfold Call.handle
  cases hbody : call.body with
  | delete req =>
    change Isolated t call db (batchDeleteEvents db req call.faults call.auditId call.now).1 ↔
      req.Harmless db call.faults
    rw [← delete_isolated_iff req call.faults call.auditId call.now]
    exact ⟨fun h => h.noDelete req hbody, fun h => ⟨delete_foreign_eq h, fun _ _ => h⟩⟩
  | tag req =>
    change Isolated t call db (batchTagEvents db req call.faults).1 ↔ req.Harmless t db call.faults
    rw [← tag_isolated_iff]
    refine ⟨fun h => h.frame, fun h => ⟨h, fun req' hreq' => ?_⟩⟩
    rw [hbody] at hreq'
    cases hreq'
  | transform req =>
    change Isolated t call db (batchTransformEvents db req call.faults).1 ↔
      req.Harmless t db call.faults
    rw [← transform_isolated_iff]
    refine ⟨fun h => h.frame, fun h => ⟨h, fun req' hreq' => ?_⟩⟩
    rw [hbody] at hreq'
    cases hreq'

/-- The batch routes have no layer of their own. -/
theorem endpointOf_path (body : BatchRequest) : endpointOf body.path = some ⟨[.post], none⟩ := by
  have hdelete : endpointOf "/v1/events/batch/delete" = some ⟨[.post], none⟩ := by decide +kernel
  have htag : endpointOf "/v1/events/batch/tag" = some ⟨[.post], none⟩ := by decide +kernel
  have htransform : endpointOf "/v1/events/batch/transform" = some ⟨[.post], none⟩ := by decide +kernel
  cases body with
  | delete req => exact hdelete
  | tag req => exact htag
  | transform req => exact htransform

theorem isDashboardPath_path (body : BatchRequest) : isDashboardPath body.path = false := by
  have hdelete : isDashboardPath "/v1/events/batch/delete" = false := by decide
  have htag : isDashboardPath "/v1/events/batch/tag" = false := by decide
  have htransform : isDashboardPath "/v1/events/batch/transform" = false := by decide
  cases body with
  | delete req => exact hdelete
  | tag req => exact htag
  | transform req => exact htransform

/-- A tenant's call reaches its handler unless a limit stops it. -/
theorem serve_of_tenantId (h : call.tenantId = some t) :
    (∃ ext, serve call.app call.request = .handled ext) ↔
      call.app.innerLayers call.request = true := by
  have hext : ∃ ext, authMiddleware call.app.auth call.request = .ok ext := by
    rw [Call.tenantId] at h
    cases hauth : authMiddleware call.app.auth call.request with
    | error refusal => rw [hauth] at h; cases h
    | ok ext => exact ⟨ext, rfl⟩
  have hdashboard : isDashboardPath call.request.path = false := isDashboardPath_path call.body
  have hdispatch : ∀ ext, ∃ ext', dispatch call.app call.request ext = .handled ext' := by
    intro ext
    refine (dispatch_handled_iff hdashboard).mpr ⟨_, endpointOf_path call.body, ?_, ?_⟩
    · exact List.mem_singleton.mpr rfl
    · intro layer hlayer
      cases hlayer
  constructor
  · intro hserve
    rcases runs_iff.mp hserve with ⟨_, _, hinner, _⟩
    exact hinner
  · intro hinner
    rcases hext with ⟨ext, hext⟩
    exact runs_iff.mpr ⟨ext, hext, hinner, hdispatch ext⟩

theorem step_handled {ext : Extensions} (h : call.tenantId = some t)
    (hserve : serve call.app call.request = .handled ext) (db : Database) :
    step t db call = some (call.handle db).1 := by
  rw [step, if_pos h, hserve]

theorem step_isolated_iff {db' : Database} (h : step t db call = some db') :
    Isolated t call db db' ↔ Harmless t db call := by
  unfold step at h
  split at h
  · next htenant =>
    rw [Harmless, ← serve_of_tenantId htenant, ← handle_isolated_iff]
    split at h
    · next ext hserve =>
      rw [← Option.some.inj h]
      exact ⟨fun hisolated _ => hisolated, fun hisolated => hisolated ⟨ext, hserve⟩⟩
    · next hserve =>
      rw [← Option.some.inj h]
      refine ⟨fun _ ⟨ext, hhandled⟩ => absurd hhandled (hserve ext), fun _ => ⟨rfl, fun _ _ => rfl⟩⟩
  · cases h

/-- In a run of a tenant's calls every step is isolated exactly if every call is harmless. -/
theorem run_isolated_iff (t : String) (db u : Database) (calls : List Call) :
    Run (step t) (StaysIsolated t) db calls u ↔ Run (step t) (Harmless t) db calls u := by
  refine @Run.congr _ _ _ _ (fun _ => True) _ (fun _ _ => trivial) (fun hstep _ => ?_) _ _ _ trivial
  rw [← step_isolated_iff hstep]
  refine ⟨fun h => h _ hstep, fun h db' hdb' => ?_⟩
  cases hstep.symm.trans hdb'
  exact h

/-! ### A tenant deletes the event of another -/

def twoTenants : App where
  auth :=
    { apiKeys := ["key-1", "key-2"]
      adminApiKeys := ["root"]
      tenantMap := [("key-1", "tenant-1"), ("key-2", "tenant-2")]
      multiTenant := true
      pool := some ⟨[], false⟩
      requireAuth := false
      hashApiKey := fun key => key }
  innerLayers _ := true
  serveDashboard := false

def deleteFirst : Call where
  app := twoTenants
  xApiKey := some "key-1"
  body := .delete { ids := [1] }
  auditId := 9
  now := 0

def oneEvent : Database where
  events := [⟨1, some "tenant-2", .object []⟩]
  ids_nodup := List.nodup_singleton _
  auditLogs := []

theorem tenantId_deleteFirst : deleteFirst.tenantId = some "tenant-1" := by decide

/-- The first tenant deletes the only event, which is the second tenant's. -/
theorem not_isolated_deleteFirst : ¬∀ (t : String) (db u : Database) (calls : List Call),
    AnyRun (step t) db calls u → Run (step t) (StaysIsolated t) db calls u := by
  intro h
  have hserve : ∃ ext, serve twoTenants deleteFirst.request = .handled ext :=
    (serve_of_tenantId tenantId_deleteFirst).mpr rfl
  have hstep : step "tenant-1" oneEvent deleteFirst = some (deleteFirst.handle oneEvent).1 := by
    rcases hserve with ⟨ext, hserve⟩
    exact step_handled tenantId_deleteFirst hserve oneEvent
  have hrun := h "tenant-1" oneEvent _ [deleteFirst] (.cons trivial hstep (.nil _))
  cases hrun with
  | cons hisolated _ _ =>
    have hempty := (hisolated _ hstep).noDelete _ rfl
    cases hempty

end SorobanPulse.Batch
