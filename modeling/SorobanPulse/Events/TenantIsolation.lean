import SorobanPulse.Events.TenantReads

/-! Who sees whose events: a tenant's requests over two histories that agree on its events.

    A request keeps to its tenant exactly when its endpoint has the tenant in every condition it
    reads by, or reads nothing. -/

namespace SorobanPulse.Events
open Lib Sse
open Ingest (SorobanEvent)

/-- An event of another tenant, or of none. -/
def Signal.foreign (t : String) : Signal → Bool
  | .received event => event.tenantId ≠ some t
  | _ => false

/-- The two histories have the same events of this tenant, in the same places among the other signals. -/
structure Agree (t : String) (h₁ h₂ : History) : Prop where
  events : h₁.events.filter (·.tenantId = some t) = h₂.events.filter (·.tenantId = some t)
  ring : h₁.ring.inner.filter (·.event.tenantId = some t) =
    h₂.ring.inner.filter (·.event.tenantId = some t)
  live : h₁.live.filter (!·.foreign t) = h₂.live.filter (!·.foreign t)

/-- Other tenants' events make no difference, and none of them is received. -/
def Isolated (s : ReadServer) (t : String) (r : ReadRequest) : Prop :=
  (∀ h₁ h₂, Agree t h₁ h₂ → s.receives t r h₁ = s.receives t r h₂) ∧
    ∀ h, ∀ frame ∈ s.receives t r h, frame.tenantId = some t

/-- The endpoint reads by tenant, has nothing to return, or refuses; a stream is not opened, or has
    nothing to replay. -/
def Confined (s : ReadServer) : ReadRequest → Prop
  | .getEvents _ _ | .getRecentEvents _ | .getEventsByTx _ _ => True
  | .getEventsByTxBatch hashes => hashes = [] ∨ s.batchTxMaxSize < hashes.length ∨
      ∃ h ∈ hashes, (validateTxHash h).isOk = false
  | .getRelatedEventsByTx txHash depth =>
      (validateTxHash txHash.toLower).isOk = false ∨ 3 < depth.getD 1
  | .getEventsByLedgerHash _ p => p.columns.isOk = false
  | .streamEvents p => s.opensInternal p = false ∨ s.lastId p = none ∨ s.sseReplayLimit = 0
  | .streamEventsMulti p => s.opensMulti p = false ∨ s.lastId p = none ∨ s.sseReplayLimit = 0
  | .wsEvents contractId | .wsStreamEvents contractId =>
      (contractId.forM validateContractId).isOk = false

/-! ### Reading by tenant -/

section
variable {α : Type} {l l₁ l₂ : List α} {p q : α → Bool}

theorem filter_own (h : ∀ a, q a = true → p a = true) : (l.filter p).filter q = l.filter q := by
  rw [List.filter_filter]
  apply List.filter_congr
  intro a _
  cases hq : q a with
  | false => rfl
  | true => rw [h a hq, Bool.true_and]

/-- What is only looked for among the own elements is the same wherever these are. -/
theorem filter_agree (h : ∀ a, q a = true → p a = true) (heq : l₁.filter p = l₂.filter p) :
    l₁.filter q = l₂.filter q := by
  rw [← filter_own h, heq, filter_own h]

end

section
variable {libs : Libraries} {pg : Pg} {db : Database} {r : Request} {t : String}

/-- The database with one tenant's events only. -/
def Database.own (db : Database) (t : String) : Database :=
  ⟨db.events.filter (·.tenantId = some t), 0⟩

theorem tenantId_of_satisfies {ps : List Param} {row : EventRow} (ht : r.tenantId = some t)
    (hmem : .tenant ∈ ps) (h : r.satisfies libs pg ps row = true) : row.tenantId = some t := by
  have hholds := List.all_eq_true.mp h .tenant hmem
  simpa [Request.values, ht, Param.holds] using hholds

theorem tenantId_of_crossed {ps : List Param} {row : EventRow} (ht : r.tenantId = some t)
    (hmem : .tenant ∈ ps) (h : r.satisfiesWith libs pg (r.crossedValues libs) ps row = true) :
    row.tenantId = some t := by
  have hholds := List.all_eq_true.mp h .tenant hmem
  simpa [Request.crossedValues, crossed_of_ne, Request.values, ht, Param.holds] using hholds

/-- A statement that only selects rows of the tenant sees no others. -/
theorem select_own {q : Query} {sortBy : SortBy} {order : SortOrder}
    (h : q.runs pg sortBy = true → ∀ row, q.selects pg sortBy order row = true → row.tenantId = some t)
    (events : List EventRow) : q.select pg sortBy order (events.filter (·.tenantId = some t)) =
      q.select pg sortBy order events := by
  unfold Query.select
  cases hruns : q.runs pg sortBy with
  | false => rfl
  | true =>
    rw [filter_own]
    intro row hrow
    exact decide_eq_true (h hruns row hrow)

theorem offsetLike_own {q : Query} (hq : OffsetLike libs r q) (ht : r.tenantId = some t) (row : EventRow)
    (h : q.selects pg r.sortColumn r.order row = true) : row.tenantId = some t := by
  rw [hq.selects] at h
  exact tenantId_of_satisfies ht (by decide) h

theorem cursorQuery_own {q : Query} {valText : String} {cursorId : Uuid}
    (hq : cursorQuery libs r valText cursorId = .ok q) (ht : r.tenantId = some t) (row : EventRow)
    (h : q.selects pg r.sortColumn r.order row = true) : row.tenantId = some t := by
  rcases cursorQuery_selects hq with ⟨after, -, hselects⟩
  rw [hselects, Bool.and_eq_true] at h
  exact tenantId_of_crossed ht (by decide) h.2

theorem cursorPath_own (ht : r.tenantId = some t) (cursorStr : String) :
    cursorPath libs pg (db.own t) r cursorStr = cursorPath libs pg db r cursorStr := by
  unfold cursorPath
  cases decodeCursorTagged libs cursorStr with
  | error e => rfl
  | ok cursor =>
    rw [ok_bind, ok_bind]
    congr 1
    funext _
    cases hq : cursorQuery libs r cursor.value cursor.id with
    | error e => rfl
    | ok q =>
      rw [ok_bind, ok_bind, Database.own, select_own fun _ => cursorQuery_own hq ht]

/-- With a tenant there is always a condition to count under. -/
theorem countEvents_own (ht : r.tenantId = some t) :
    countEvents libs pg (db.own t) r = countEvents libs pg db r := by
  have hcond : (offsetConditions r).conditions ≠ [] := by
    intro hnil
    have hw := widths_offsetConditions libs r
    rw [hnil] at hw
    have hmem : (Param.tenant, Param.tenant.width) ∈ r.pushed libs offsetParams := by
      simp [Request.pushed, offsetParams, Request.values, ht]
    rw [← hw] at hmem
    cases hmem
  have hcount : ∀ row, (countQuery libs r).runs pg r.sortColumn = true →
      (countQuery libs r).selects pg r.sortColumn r.order row = true → row.tenantId = some t := by
    intro row hruns
    exact offsetLike_own (offsetLike_countQuery ((countQuery_runs r.sortColumn).mp hruns)) ht row
  unfold countEvents
  rw [if_pos (by simp [hcond]), if_pos (by simp [hcond]), Database.own]
  rw [select_own fun hruns row => hcount row hruns]

theorem offsetPath_own (ht : r.tenantId = some t) :
    offsetPath libs pg (db.own t) r = offsetPath libs pg db r := by
  unfold offsetPath
  cases hq : offsetQuery libs r with
  | error e => rfl
  | ok q =>
    rw [ok_bind, ok_bind, countEvents_own ht, Database.own,
      select_own fun _ => offsetLike_own (offsetLike_offsetQuery hq) ht]

/-- The whole answer, with its cursor and its total, comes from the tenant's own events. -/
theorem listEvents_own (ht : r.tenantId = some t) :
    listEvents libs pg (db.own t) r = listEvents libs pg db r := by
  unfold listEvents
  cases r.cursor with
  | none => exact offsetPath_own ht
  | some cursorStr => exact cursorPath_own ht cursorStr

theorem mem_of_select {q : Query} {sortBy : SortBy} {order : SortOrder} {events rows : List EventRow}
    (h : q.select pg sortBy order events = .ok rows) : ∀ row ∈ rows, row ∈ events := by
  rcases bind_eq_ok h with ⟨_, -, hrows⟩
  rw [← Except.ok.inj hrows]
  intro row hrow
  exact List.mem_of_mem_filter hrow

theorem mem_cursorOrder {sortBy : SortBy} {order : SortOrder} {rows : List EventRow} {row : EventRow} :
    row ∈ cursorOrder sortBy order rows ↔ row ∈ rows := by
  cases sortBy <;> exact Keyset.mem_sortOn

/-- What is listed is in the table. -/
theorem mem_of_listEvents {l : Listing} (h : listEvents libs pg db r = .ok l) :
    ∀ row ∈ l.rows, row ∈ db.events := by
  intro row hrow
  unfold listEvents at h
  cases hcursor : r.cursor with
  | some cursorStr =>
    rw [hcursor] at h
    rcases bind_eq_ok h with ⟨cursor, -, h⟩
    rcases bind_eq_ok h with ⟨_, -, h⟩
    rcases bind_eq_ok h with ⟨q, -, h⟩
    rcases bind_eq_ok h with ⟨selected, hselected, h⟩
    rcases bind_eq_ok h with ⟨_, -, h⟩
    rw [← Except.ok.inj h] at hrow
    exact mem_of_select hselected row (mem_cursorOrder.mp (List.mem_of_mem_take hrow))
  | none =>
    rw [hcursor] at h
    rcases bind_eq_ok h with ⟨q, -, h⟩
    rcases bind_eq_ok h with ⟨selected, hselected, h⟩
    rcases bind_eq_ok h with ⟨_, -, h⟩
    rw [← Except.ok.inj h] at hrow
    have hmem := List.mem_of_mem_drop (List.mem_of_mem_take hrow)
    exact mem_of_select hselected row (Keyset.mem_sortOn.mp hmem)

theorem tenantId_of_validate {isAdmin : Bool} {tenantId : Option String} {p : PaginationParams}
    (h : validate libs.parseTimestamp isAdmin tenantId p = .ok r) : r.tenantId = tenantId := by
  rcases bind_eq_ok h with ⟨_, -, h⟩
  rcases bind_eq_ok h with ⟨_, -, h⟩
  rcases bind_eq_ok h with ⟨_, -, h⟩
  rcases bind_eq_ok h with ⟨_, -, h⟩
  rcases bind_eq_ok h with ⟨_, -, h⟩
  rcases bind_eq_ok h with ⟨_, -, h⟩
  rcases bind_eq_ok h with ⟨_, -, h⟩
  rcases bind_eq_ok h with ⟨_, -, h⟩
  rcases bind_eq_ok h with ⟨_, -, h⟩
  rcases bind_eq_ok h with ⟨_, -, h⟩
  rcases bind_eq_ok h with ⟨_, -, h⟩
  rw [← Except.ok.inj h]

theorem getEvents_own (isAdmin : Bool) (p : PaginationParams) :
    getEvents libs pg (db.own t) isAdmin (some t) p = getEvents libs pg db isAdmin (some t) p := by
  unfold getEvents
  cases hr : validate libs.parseTimestamp isAdmin (some t) p with
  | error e => rfl
  | ok r =>
    rw [ok_bind, ok_bind]
    exact listEvents_own (tenantId_of_validate hr)

end

/-! ### Endpoint by endpoint -/

theorem mem_answerRows {answer : Except AppError (List EventRow)} {frame : Frame} :
    frame ∈ answerRows answer ↔ ∃ rows row, answer = .ok rows ∧ row ∈ rows ∧ frame = .stored row := by
  unfold answerRows
  constructor
  · intro hframe
    split at hframe
    · next rows =>
      obtain ⟨row, hrow, rfl⟩ := List.mem_map.mp hframe
      exact ⟨rows, row, rfl, hrow, rfl⟩
    · cases hframe
  · rintro ⟨rows, row, rfl, hrow, rfl⟩
    exact List.mem_map_of_mem hrow

section
variable {s : ReadServer} {t : String}

theorem isolated_getEvents (isAdmin : Bool) (p : PaginationParams) :
    Isolated s t (.getEvents isAdmin p) := by
  constructor
  · intro h₁ h₂ hagree
    have hown : (⟨h₁.events, h₁.reltuples⟩ : Database).own t =
        (⟨h₂.events, h₂.reltuples⟩ : Database).own t := by
      rw [Database.own, Database.own, hagree.events]
    rw [ReadServer.receives, ReadServer.receives, ← getEvents_own, hown, getEvents_own]
  · intro h frame hframe
    obtain ⟨rows, row, hanswer, hrow, rfl⟩ := mem_answerRows.mp hframe
    rw [← getEvents_own] at hanswer
    cases hlisting : getEvents s.libs s.pg
        ((⟨h.events, h.reltuples⟩ : Database).own t) isAdmin (some t) p with
    | error e =>
      rw [hlisting] at hanswer
      cases hanswer
    | ok l =>
      rw [hlisting] at hanswer
      rw [← Except.ok.inj hanswer] at hrow
      rcases bind_eq_ok hlisting with ⟨r, -, hlist⟩
      have hmem := mem_of_listEvents hlist row hrow
      exact of_decide_eq_true (List.mem_filter.mp hmem).2

/-- Its statement does not select `event_data_normalized`: one row, and the request fails. -/
theorem getRecentEvents_eq_nil {libs : Libraries} {p : RecentParams} {events rows : List EventRow}
    (h : getRecentEvents libs p events = .ok rows) : rows = [] := by
  have hmissing : REQUIRED_COLUMNS.all RECENT_COLUMNS.contains = false := by decide
  rcases bind_eq_ok h with ⟨_, -, h⟩
  rcases bind_eq_ok h with ⟨_, -, h⟩
  rcases bind_eq_ok h with ⟨_, -, h⟩
  rcases bind_eq_ok h with ⟨fetched, hfetched, h⟩
  unfold queryAs at hfetched
  split at hfetched
  · next hall =>
    rw [hmissing] at hall
    have hnil : fetched = [] := by
      rw [← Except.ok.inj hfetched]
      apply List.eq_nil_iff_forall_not_mem.mpr
      intro row hrow
      simpa using List.all_eq_true.mp hall row hrow
    rw [← Except.ok.inj h, hnil, List.take_nil]
  · cases hfetched

theorem receives_getRecentEvents (p : RecentParams) (h : History) :
    s.receives t (.getRecentEvents p) h = [] := by
  apply List.eq_nil_iff_forall_not_mem.mpr
  intro frame hframe
  obtain ⟨rows, row, hanswer, hrow, rfl⟩ := mem_answerRows.mp hframe
  rw [getRecentEvents_eq_nil hanswer] at hrow
  cases hrow

/-- A request that never receives anything. -/
theorem isolated_of_nil {r : ReadRequest} (hnil : ∀ h, s.receives t r h = []) : Isolated s t r := by
  constructor
  · intro h₁ h₂ _
    rw [hnil, hnil]
  · intro h frame hframe
    rw [hnil] at hframe
    cases hframe

theorem isolated_getEventsByTx (txHash : String) (p : PaginationParams) :
    Isolated s t (.getEventsByTx txHash p) := by
  have hown : ∀ row : EventRow, (row.txHash = txHash.toLower &&
      (some t).all (some · = row.tenantId)) = true → decide (row.tenantId = some t) = true := by
    intro row hrow
    simp only [Bool.and_eq_true, decide_eq_true_eq, Option.all_some] at hrow
    exact decide_eq_true hrow.2.symm
  constructor
  · intro h₁ h₂ hagree
    rw [ReadServer.receives, ReadServer.receives, getEventsByTx, getEventsByTx,
      filter_agree hown hagree.events]
  · intro h frame hframe
    obtain ⟨rows, row, hanswer, hrow, rfl⟩ := mem_answerRows.mp hframe
    rcases bind_eq_ok hanswer with ⟨_, -, hanswer⟩
    rcases bind_eq_ok hanswer with ⟨_, -, hanswer⟩
    rw [← Except.ok.inj hanswer] at hrow
    exact of_decide_eq_true (hown row (List.mem_filter.mp (Keyset.mem_sortOn.mp hrow)).2)

/-! ### Streams -/

/-- The live part is made of the own events. -/
theorem liveEvents_own {keeps : SorobanEvent → Bool} {maxLag : ℕ}
    (hkeeps : ∀ event, keeps event = true → event.tenantId = some t) (live : List Signal) :
    liveEvents keeps maxLag (live.filter (!·.foreign t)) = liveEvents keeps maxLag live := by
  induction live with
  | nil => rfl
  | cons signal rest ih =>
    cases signal with
    | received event =>
      by_cases hown : event.tenantId = some t
      · rw [List.filter_cons_of_pos (by simp [Signal.foreign, hown]), liveEvents, liveEvents, ih]
      · have hkeep : ¬keeps event = true := fun hk => hown (hkeeps event hk)
        rw [List.filter_cons_of_neg (by simp [Signal.foreign, hown]), liveEvents, if_neg hkeep, ih]
    | lagged n => rw [List.filter_cons_of_pos rfl, liveEvents, liveEvents, ih]
    | closed => rw [List.filter_cons_of_pos rfl, liveEvents, liveEvents]
    | message contractId => rw [List.filter_cons_of_pos rfl, liveEvents, liveEvents, ih]

theorem mem_liveEvents {keeps : SorobanEvent → Bool} {maxLag : ℕ} {live : List Signal}
    {event : SorobanEvent} (h : event ∈ liveEvents keeps maxLag live) : keeps event = true := by
  induction live with
  | nil => cases h
  | cons signal rest ih =>
    cases signal with
    | received other =>
      rw [liveEvents] at h
      split at h
      · next hkeep =>
        rcases List.mem_cons.mp h with rfl | h
        · exact hkeep
        · exact ih h
      · exact ih h
    | lagged n =>
      rw [liveEvents] at h
      split at h
      · cases h
      · exact ih h
    | closed => cases h
    | message contractId => exact ih h

theorem tenantId_of_liveKeeps {f : StreamFilter} (ht : f.tenantId = some t) {event : SorobanEvent}
    (h : f.liveKeeps event = true) : event.tenantId = some t := by
  unfold StreamFilter.liveKeeps at h
  rw [Bool.and_eq_true] at h
  have htenant := h.2
  rw [StreamFilter.keepsTenant, ht, Option.all_some, decide_eq_true_eq] at htenant
  exact htenant.symm

/-- Without a replay a stream is its live part. -/
theorem stream_live {f : StreamFilter} {query : List EventRow → Uuid → List EventRow}
    {p : StreamParams} (hquery : s.sseReplayLimit = 0 → ∀ events lastId, query events lastId = [])
    (h : s.lastId p = none ∨ s.sseReplayLimit = 0) (hist : History) :
    s.stream f query p hist =
      (liveEvents f.liveKeeps s.maxLag hist.live).map .published := by
  unfold ReadServer.stream
  rcases h with hlast | hlimit
  · rw [hlast]
    rfl
  · cases s.lastId p with
    | none => rfl
    | some lastId =>
      simp [StreamFilter.ringReplay, hlimit, hquery hlimit]

theorem isolated_stream {r : ReadRequest} {f : StreamFilter} (ht : f.tenantId = some t)
    (hlive : ∀ h, s.receives t r h = (liveEvents f.liveKeeps s.maxLag h.live).map .published) :
    Isolated s t r := by
  have hkeeps : ∀ event, f.liveKeeps event = true → event.tenantId = some t :=
    fun event hk => tenantId_of_liveKeeps ht hk
  constructor
  · intro h₁ h₂ hagree
    rw [hlive, hlive, ← liveEvents_own hkeeps, hagree.live, liveEvents_own hkeeps]
  · intro h frame hframe
    rw [hlive] at hframe
    obtain ⟨event, hevent, rfl⟩ := List.mem_map.mp hframe
    exact hkeeps event (mem_liveEvents hevent)

/-! ### What leaks -/

def otherTenant (t : String) : String := t ++ "2"

theorem otherTenant_ne (t : String) : some (otherTenant t) ≠ some t := by
  intro h
  have hlen := congrArg String.length (Option.some.inj h)
  rw [otherTenant, String.length_append] at hlen
  exact absurd hlen (by simp)

def foreignRow (t txHash : String) (ledgerHash : Option String) : EventRow where
  id := 1
  contractId := "C1"
  eventType := "contract"
  txHash := txHash
  ledger := 1
  timestamp := 0
  eventData := .null
  ledgerHash := ledgerHash
  createdAt := 0
  tenantId := some (otherTenant t)

def tenantEvent (t contractId eventType : String) : SorobanEvent where
  contractId := contractId
  eventType := eventType
  txHash := "aa"
  ledger := 1
  ledgerClosedAt := "2024-01-01T00:00:00Z"
  value := .null
  tenantId := some t

def History.ofRow (row : EventRow) : History := ⟨[row], 1, .new 100, []⟩

def History.ofSignal (event : SorobanEvent) : History := ⟨[], 0, .new 100, [.received event]⟩

/-- The client's last event, and one of another tenant after it. -/
def History.ofRing (lastId : Uuid) (own foreign : SorobanEvent) : History :=
  ⟨[], 0, ⟨[⟨lastId, own⟩, ⟨lastId + 1, foreign⟩], 100, 0⟩, []⟩

theorem not_isolated_of_row {r : ReadRequest} {txHash : String} {ledgerHash : Option String}
    (h : Frame.stored (foreignRow t txHash ledgerHash) ∈
      s.receives t r (.ofRow (foreignRow t txHash ledgerHash))) : ¬Isolated s t r := by
  intro hiso
  exact otherTenant_ne t (hiso.2 _ _ h)

theorem not_isolated_of_event {r : ReadRequest} {contractId eventType : String} {h : History}
    (hmem : Frame.published (tenantEvent (otherTenant t) contractId eventType) ∈ s.receives t r h) :
    ¬Isolated s t r := by
  intro hiso
  exact otherTenant_ne t (hiso.2 _ _ hmem)

theorem mem_latestFirst {rows : List EventRow} {keeps : EventRow → Bool} {row : EventRow}
    (h : row ∈ rows) (hkeeps : keeps row = true) : row ∈ latestFirst (rows.filter keeps) :=
  Keyset.mem_sortOn.mpr (List.mem_filter.mpr ⟨h, hkeeps⟩)

theorem isOk_iff {ε α : Type} {x : Except ε α} : x.isOk = true ↔ ∃ a, x = .ok a := by
  cases x with
  | error e =>
    constructor
    · intro h
      cases h
    · rintro ⟨a, ha⟩
      cases ha
  | ok a => exact ⟨fun _ => ⟨a, rfl⟩, fun _ => rfl⟩

theorem getEventsByTxBatch_ok {maxSize : ℕ} {hashes : List String} (events : List EventRow)
    (hlen : hashes.length ≤ maxSize) (hvalid : ∀ h ∈ hashes, (validateTxHash h).isOk = true) :
    getEventsByTxBatch maxSize hashes events = .ok ((hashes.map String.toLower).dedup.map fun h =>
      (h, latestFirst (events.filter (·.txHash = h)))) := by
  have hnone : hashes.filter (fun h => !(validateTxHash h).isOk) = [] := by
    rw [List.filter_eq_nil_iff]
    intro h hh
    simp [hvalid h hh]
  unfold getEventsByTxBatch
  rw [decide_eq_false (Nat.not_lt.mpr hlen), hnone]
  rfl

theorem not_isolated_getEventsByTxBatch {hashes : List String} (hne : hashes ≠ [])
    (hlen : hashes.length ≤ s.batchTxMaxSize)
    (hvalid : ∀ h ∈ hashes, (validateTxHash h).isOk = true) :
    ¬Isolated s t (.getEventsByTxBatch hashes) := by
  obtain ⟨h, hh⟩ := List.exists_mem_of_ne_nil hashes hne
  apply not_isolated_of_row
  · apply mem_answerRows.mpr
    rw [getEventsByTxBatch_ok _ hlen hvalid]
    refine ⟨_, foreignRow t h.toLower none, rfl, ?_, rfl⟩
    rw [List.mem_flatMap]
    refine ⟨_, List.mem_map_of_mem (List.mem_dedup.mpr (List.mem_map_of_mem hh)), ?_⟩
    exact mem_latestFirst (List.mem_singleton.mpr rfl) (decide_eq_true rfl)

/-- The rows of the frontier come with the first query. -/
theorem mem_relatedEvents {events : List EventRow} {depth : ℕ} {frontier seen : List String}
    {row : EventRow} (hrow : row ∈ events) (hfrontier : row.txHash ∈ frontier) :
    row ∈ relatedEvents events depth frontier seen := by
  have hne : frontier ≠ [] := List.ne_nil_of_mem hfrontier
  have hmem : row ∈ latestFirst (events.filter (frontier.contains ·.txHash)) :=
    mem_latestFirst hrow (List.contains_iff_mem.mpr hfrontier)
  cases depth with
  | zero =>
    rw [relatedEvents, if_neg hne]
    exact hmem
  | succ depth =>
    rw [relatedEvents, if_neg hne]
    exact List.mem_append_left _ hmem

theorem not_isolated_getRelatedEventsByTx {txHash : String} {depth : Option ℕ}
    (hvalid : (validateTxHash txHash.toLower).isOk = true) (hdepth : depth.getD 1 ≤ 3) :
    ¬Isolated s t (.getRelatedEventsByTx txHash depth) := by
  obtain ⟨u, hu⟩ := isOk_iff.mp hvalid
  apply not_isolated_of_row
  · apply mem_answerRows.mpr
    unfold getRelatedEventsByTx
    dsimp only
    rw [hu, decide_eq_false (Nat.not_lt.mpr hdepth)]
    refine ⟨_, foreignRow t txHash.toLower none, rfl, ?_, rfl⟩
    exact mem_relatedEvents (List.mem_singleton.mpr rfl) (List.mem_singleton.mpr rfl)

theorem not_isolated_getEventsByLedgerHash {hash : String} {p : PaginationParams}
    (hcols : p.columns.isOk = true) : ¬Isolated s t (.getEventsByLedgerHash hash p) := by
  obtain ⟨columns, hcols⟩ := isOk_iff.mp hcols
  apply not_isolated_of_row
  · apply mem_answerRows.mpr
    unfold getEventsByLedgerHash
    rw [hcols]
    refine ⟨_, foreignRow t "aa" (some hash), rfl, ?_, rfl⟩
    exact mem_latestFirst (List.mem_singleton.mpr rfl) (decide_eq_true rfl)

/-- The event type a stream lets through. -/
def StreamParams.typeText (p : StreamParams) : String := (p.eventType.map EventType.toString).getD ""

theorem ringKeeps_tenantEvent {f : StreamFilter} {p : StreamParams} {contractId owner : String}
    (htype : f.eventType = p.eventType) (hcontract : f.keepsContract contractId = true) :
    f.ringKeeps (tenantEvent owner contractId p.typeText) = true := by
  rw [StreamFilter.ringKeeps, tenantEvent, hcontract, Bool.true_and, StreamFilter.keepsType, htype,
    StreamParams.typeText]
  cases p.eventType with
  | none => rfl
  | some et => exact decide_eq_true rfl

/-- The ring buffer is replayed whoever its events belong to. -/
theorem mem_stream {f : StreamFilter} {query : List EventRow → Uuid → List EventRow}
    {p : StreamParams} {contractId : String} {lastId : Uuid} (own : SorobanEvent)
    (htype : f.eventType = p.eventType) (hcontract : f.keepsContract contractId = true)
    (hlast : s.lastId p = some lastId) (hlimit : s.sseReplayLimit ≠ 0) :
    Frame.published (tenantEvent (otherTenant t) contractId p.typeText) ∈
      s.stream f query p (.ofRing lastId own (tenantEvent (otherTenant t) contractId p.typeText)) := by
  obtain ⟨foreign, hforeign⟩ : ∃ e, e = tenantEvent (otherTenant t) contractId p.typeText := ⟨_, rfl⟩
  have hkeeps : f.ringKeeps foreign = true := hforeign ▸ ringKeeps_tenantEvent htype hcontract
  rw [← hforeign]
  have hsince : (History.ofRing lastId own foreign).ring.eventsSince lastId = some [foreign] := by
    rw [SseRingBuffer.eventsSince, History.ofRing, List.findIdx?_cons, if_pos (decide_eq_true rfl)]
    rfl
  obtain ⟨n, hn⟩ := Nat.exists_eq_succ_of_ne_zero hlimit
  unfold ReadServer.stream
  rw [hlast]
  apply List.mem_append_left
  simp [StreamFilter.ringReplay, hsince, hkeeps, hn]

theorem not_isolated_streamEvents {p : StreamParams} (hopen : s.opensInternal p = true)
    (hlast : s.lastId p ≠ none) (hlimit : s.sseReplayLimit ≠ 0) :
    ¬Isolated s t (.streamEvents p) := by
  obtain ⟨lastId, hlast⟩ := Option.ne_none_iff_exists'.mp hlast
  have hcontract : (ReadServer.internalFilter t p).keepsContract (p.contracts.getD "") = true := by
    rw [ReadServer.internalFilter, StreamFilter.keepsContract]
    cases p.contracts with
    | none => rfl
    | some c => simp
  apply not_isolated_of_event
  · rw [ReadServer.receives, if_pos hopen]
    exact mem_stream (tenantEvent t "C1" "contract") rfl hcontract hlast hlimit

theorem commaList_ne_nil (raw : String) : commaList raw ≠ [] := by
  rw [commaList, ne_eq, List.map_eq_nil_iff]
  exact List.splitOnP_ne_nil _ _

theorem not_isolated_streamEventsMulti {p : StreamParams} (hopen : s.opensMulti p = true)
    (hlast : s.lastId p ≠ none) (hlimit : s.sseReplayLimit ≠ 0) :
    ¬Isolated s t (.streamEventsMulti p) := by
  obtain ⟨lastId, hlast⟩ := Option.ne_none_iff_exists'.mp hlast
  obtain ⟨contractId, hmem⟩ := List.exists_mem_of_ne_nil _ (commaList_ne_nil (p.contracts.getD ""))
  have hcontract : (ReadServer.multiFilter t p).keepsContract contractId = true :=
    List.contains_iff_mem.mpr hmem
  apply not_isolated_of_event
  · rw [ReadServer.receives, if_pos hopen]
    exact mem_stream (tenantEvent t "C1" "contract") rfl hcontract hlast hlimit

/-- A WebSocket hands on whatever passes its contract filter. -/
theorem not_isolated_ws {contractId : Option String}
    (hvalid : (contractId.forM validateContractId).isOk = true) :
    ¬Isolated s t (.wsEvents contractId) ∧ ¬Isolated s t (.wsStreamEvents contractId) := by
  obtain ⟨u, hu⟩ := isOk_iff.mp hvalid
  obtain ⟨foreign, hforeign⟩ :
      ∃ e, e = tenantEvent (otherTenant t) (contractId.getD "") "contract" := ⟨_, rfl⟩
  have hpasses : contractId.all (foreign.contractId = ·) = true := by
    rw [hforeign]
    cases contractId with
    | none => rfl
    | some c => exact decide_eq_true rfl
  have hleaks {r : ReadRequest}
      (hmem : Frame.published foreign ∈ s.receives t r (.ofSignal foreign)) : ¬Isolated s t r := by
    rw [hforeign] at hmem
    exact not_isolated_of_event hmem
  constructor
  · apply hleaks
    rw [ReadServer.receives, hu, History.ofSignal]
    change _ ∈ (wsEvents contractId [.received foreign]).map Frame.published
    rw [wsEvents, if_pos hpasses]
    exact List.mem_cons_self
  · apply hleaks
    rw [ReadServer.receives, hu, History.ofSignal]
    change _ ∈ (wsStreamEvents contractId [.received foreign]).map Frame.published
    rw [wsStreamEvents, if_pos hpasses]
    exact List.mem_cons_self

/-! ### Exactly which requests keep to their tenant -/

theorem isolated_of_error {r : ReadRequest} {answer : History → Except AppError (List EventRow)}
    (hr : ∀ h, s.receives t r h = answerRows (answer h)) (herror : ∀ h, (answer h).isOk = false) :
    Isolated s t r := by
  apply isolated_of_nil
  intro h
  rw [hr]
  have hfails := herror h
  cases ha : answer h with
  | error e => rfl
  | ok rows =>
    rw [ha] at hfails
    cases hfails

theorem dbReplay_zero (columns : List String) (keeps : EventRow → Bool) (tie : Uuid → ℕ)
    (table : List EventRow) (lastId : Uuid) : dbReplay columns keeps tie 0 table lastId = [] := by
  unfold dbReplay
  dsimp only
  rw [List.take_zero]
  rfl

/-- A request that opens no stream, or one without a replay, keeps to its tenant. -/
theorem isolated_unless_replayed {r : ReadRequest} {f : StreamFilter} {opens : Bool}
    {query : List EventRow → Uuid → List EventRow} {p : StreamParams} (ht : f.tenantId = some t)
    (hr : ∀ h, s.receives t r h = if opens then s.stream f query p h else [])
    (hquery : s.sseReplayLimit = 0 → ∀ events lastId, query events lastId = [])
    (h : opens = false ∨ s.lastId p = none ∨ s.sseReplayLimit = 0) : Isolated s t r := by
  cases opens with
  | false => exact isolated_of_nil hr
  | true =>
    have hlast := h.resolve_left (by simp)
    apply isolated_stream ht
    intro hist
    rw [hr, if_pos rfl]
    exact stream_live hquery hlast hist

theorem isolated_streamEvents {p : StreamParams}
    (h : s.opensInternal p = false ∨ s.lastId p = none ∨ s.sseReplayLimit = 0) :
    Isolated s t (.streamEvents p) := by
  apply @isolated_unless_replayed s t _ (ReadServer.internalFilter t p) _ _ _ rfl (fun _ => rfl) _ h
  intro hlimit events lastId
  rw [hlimit]
  exact dbReplay_zero _ _ _ _ _

theorem isolated_streamEventsMulti {p : StreamParams}
    (h : s.opensMulti p = false ∨ s.lastId p = none ∨ s.sseReplayLimit = 0) :
    Isolated s t (.streamEventsMulti p) := by
  apply @isolated_unless_replayed s t _ (ReadServer.multiFilter t p) _ _ _ rfl (fun _ => rfl) _ h
  intro _ events lastId
  exact multiReplay_eq_nil _ _ _ _ _

theorem isolated_getEventsByTxBatch {hashes : List String}
    (h : hashes = [] ∨ s.batchTxMaxSize < hashes.length ∨
      ∃ h ∈ hashes, (validateTxHash h).isOk = false) : Isolated s t (.getEventsByTxBatch hashes) := by
  rcases h with rfl | hlen | ⟨h, hh, hinvalid⟩
  · apply isolated_of_nil
    intro hist
    rw [ReadServer.receives, getEventsByTxBatch_ok _ (Nat.zero_le _) (fun h hh => absurd hh List.not_mem_nil)]
    rfl
  · apply isolated_of_error (fun _ => rfl)
    intro hist
    unfold getEventsByTxBatch
    rw [decide_eq_true hlen]
    rfl
  · apply isolated_of_error (fun _ => rfl)
    intro hist
    have hne : hashes.filter (fun h => !(validateTxHash h).isOk) ≠ [] :=
      List.ne_nil_of_mem (List.mem_filter.mpr ⟨hh, by simp [hinvalid]⟩)
    unfold getEventsByTxBatch
    cases decide (s.batchTxMaxSize < hashes.length) with
    | true => rfl
    | false =>
      dsimp only
      rw [decide_eq_true hne]
      rfl

theorem isolated_getRelatedEventsByTx {txHash : String} {depth : Option ℕ}
    (h : (validateTxHash txHash.toLower).isOk = false ∨ 3 < depth.getD 1) :
    Isolated s t (.getRelatedEventsByTx txHash depth) := by
  apply isolated_of_error (fun _ => rfl)
  intro hist
  unfold getRelatedEventsByTx
  dsimp only
  rcases h with hinvalid | hdepth
  · cases hv : validateTxHash txHash.toLower with
    | error e => rfl
    | ok u =>
      rw [hv] at hinvalid
      cases hinvalid
  · cases validateTxHash txHash.toLower with
    | error e => rfl
    | ok u =>
      rw [decide_eq_true hdepth]
      rfl

theorem isolated_getEventsByLedgerHash {hash : String} {p : PaginationParams}
    (h : p.columns.isOk = false) : Isolated s t (.getEventsByLedgerHash hash p) := by
  apply isolated_of_error (fun _ => rfl)
  intro hist
  unfold getEventsByLedgerHash
  cases hcols : p.columns with
  | error e => rfl
  | ok columns =>
    rw [hcols] at h
    cases h

theorem isolated_ws {contractId : Option String}
    (h : (contractId.forM validateContractId).isOk = false) :
    Isolated s t (.wsEvents contractId) ∧ Isolated s t (.wsStreamEvents contractId) := by
  cases hv : contractId.forM validateContractId with
  | error e =>
    constructor
    · apply isolated_of_nil
      intro hist
      rw [ReadServer.receives, hv]
    · apply isolated_of_nil
      intro hist
      rw [ReadServer.receives, hv]
  | ok u =>
    rw [hv] at h
    cases h

/-- What is not reported as an error has gone through. -/
theorem isOk_of_ne {ε α : Type} {x : Except ε α} (h : ¬x.isOk = false) : x.isOk = true :=
  Bool.eq_true_of_not_eq_false h

/-- A request receives its tenant's events and nothing else exactly where it is confined to them. -/
theorem isolated_iff (s : ReadServer) (t : String) (r : ReadRequest) :
    Isolated s t r ↔ Confined s r := by
  cases r with
  | getEvents isAdmin p => exact ⟨fun _ => trivial, fun _ => isolated_getEvents isAdmin p⟩
  | getRecentEvents p =>
    exact ⟨fun _ => trivial, fun _ => isolated_of_nil fun h => receives_getRecentEvents p h⟩
  | getEventsByTx txHash p => exact ⟨fun _ => trivial, fun _ => isolated_getEventsByTx txHash p⟩
  | getEventsByTxBatch hashes =>
    refine ⟨fun hiso => ?_, isolated_getEventsByTxBatch⟩
    by_contra hconf  -- not confined: the request is answered, and from another tenant's rows
    rw [Confined, not_or, not_or] at hconf
    refine not_isolated_getEventsByTxBatch hconf.1 (Nat.not_lt.mp hconf.2.1) ?_ hiso
    intro h hh
    exact isOk_of_ne fun hinvalid => hconf.2.2 ⟨h, hh, hinvalid⟩
  | getRelatedEventsByTx txHash depth =>
    refine ⟨fun hiso => ?_, isolated_getRelatedEventsByTx⟩
    by_contra hconf
    rw [Confined, not_or] at hconf
    exact not_isolated_getRelatedEventsByTx (isOk_of_ne hconf.1) (Nat.not_lt.mp hconf.2) hiso
  | getEventsByLedgerHash hash p =>
    refine ⟨fun hiso => ?_, isolated_getEventsByLedgerHash⟩
    by_contra hconf
    exact not_isolated_getEventsByLedgerHash (isOk_of_ne hconf) hiso
  | streamEvents p =>
    refine ⟨fun hiso => ?_, isolated_streamEvents⟩
    by_contra hconf
    rw [Confined, not_or, not_or] at hconf
    exact not_isolated_streamEvents (Bool.eq_true_of_not_eq_false hconf.1) hconf.2.1 hconf.2.2 hiso
  | streamEventsMulti p =>
    refine ⟨fun hiso => ?_, isolated_streamEventsMulti⟩
    by_contra hconf
    rw [Confined, not_or, not_or] at hconf
    exact not_isolated_streamEventsMulti (Bool.eq_true_of_not_eq_false hconf.1) hconf.2.1 hconf.2.2 hiso
  | wsEvents contractId =>
    refine ⟨fun hiso => ?_, fun h => (isolated_ws h).1⟩
    by_contra hconf
    exact (not_isolated_ws (isOk_of_ne hconf)).1 hiso
  | wsStreamEvents contractId =>
    refine ⟨fun hiso => ?_, fun h => (isolated_ws h).2⟩
    by_contra hconf
    exact (not_isolated_ws (isOk_of_ne hconf)).2 hiso

end

def plainServer : ReadServer where
  libs := plainLibraries
  pg :=
    { like := fun _ _ => false
      topicContains := fun _ _ _ => false
      tsMatch := fun _ _ => false
      jsonpathValid := fun _ => true
      pathExists := fun _ _ => false
      withinKm := fun _ _ _ _ => false }
  limits := ⟨1000, 10, 20⟩
  sse := {}
  batchTxMaxSize := 100
  sseReplayLimit := 100
  maxLag := 0
  tie := fun _ => 0

/-- By a ledger's hash, a tenant reads the events of all. -/
theorem not_isolated_ledgerHash :
    ¬∀ (s : ReadServer) (t : String) (r : ReadRequest), Isolated s t r := by
  intro h
  exact not_isolated_getEventsByLedgerHash rfl
    (h plainServer "tenant-1" (.getEventsByLedgerHash "3389e9f0" {}))

end SorobanPulse.Events
