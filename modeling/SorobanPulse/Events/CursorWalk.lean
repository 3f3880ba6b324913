import SorobanPulse.Events.FilterPaths

/-! Walking `/v1/events`: a request without a cursor, then every `next_cursor` until there is none.

        offset query, by (col, id) ──▶ cursor of the last row ──▶ (col, id) past it, by TOID fields ──▶ …

    The position is the same on every page, the order is not: past the first page a `ledger` walk is
    ordered by the TOID fields within a ledger. A cursor of the time columns does not come back at
    all, since `splitn(3, ':')` cuts an RFC 3339 time at its first colon. -/

namespace SorobanPulse.Events
open Lib Lib.Keyset

/-! ### What the walk takes for granted -/

/-- The libraries read back the cursors they write, and a UUID that starts with a digit has no
    colon in it. -/
structure Libraries.ReadBack (libs : Libraries) : Prop where
  base64 : ∀ s, libs.base64Decode (libs.base64Encode s) = some s
  uuid : ∀ u, libs.parseUuid (libs.uuidText u) = some u
  colon : ∀ d cs, d.isDigit = true → ':' ∈ cs → libs.parseUuid (String.ofList (d :: cs)) = none
  /-- A time is a text without a colon, up to the minutes. -/
  rfc3339 : ∀ t, ∃ date d rest,
    (libs.toRfc3339 t).toList = date ++ ':' :: d :: rest ∧ ':' ∉ date ∧ d.isDigit = true

/-- The `events` table: its ids are primary keys from `gen_random_uuid()`, its ledgers `BIGINT`. -/
structure Stored (events : List EventRow) : Prop where
  ids : (events.map (·.id)).Nodup
  random : ∀ row ∈ events, isRandomUuid row.id = true
  ledger : ∀ row ∈ events, I64_MIN ≤ row.ledger ∧ row.ledger ≤ I64_MAX

/-- Parameters that mean the same to both paths: none of the filters only one of them knows. -/
structure BothPaths (p : PaginationParams) : Prop where
  page : p.page = none
  topics : p.topic0 = none ∧ p.topic1 = none ∧ p.topic2 = none ∧ p.topic3 = none
  dataPattern : p.dataPattern = none
  network : p.network = none
  rank : p.rankByRelevance.getD false = false
  format : checkFormat p.format = .ok ()

theorem readBack_plainLibraries : plainLibraries.ReadBack := by
  unfold plainLibraries
  refine ⟨?_, ?_, ?_, ?_⟩ <;> dsimp only
  · exact Lib.base64ReadText_text
  · exact Lib.parseUuid_uuidText
  · exact fun _ _ => Lib.parseUuid_colon
  · intro t
    rcases Lib.rfc3339_colon t with ⟨d, rest, h, hd⟩
    exact ⟨Lib.rfc3339Date t, d, rest, h, Lib.colon_not_mem_rfc3339Date t, hd⟩

/-! ### The walk -/

section
variable (libs : Libraries) (pg : Pg) (db : Database) (isAdmin : Bool) (tenantId : Option String)
  (p : PaginationParams)

/-- The rows that the responses carry, from the one with the given cursor until the last. -/
inductive Follow : Option String → List EventRow → Prop
  | last {cursor : Option String} {l : Listing} :
    getEvents libs pg db isAdmin tenantId { p with cursor } = .ok l → l.nextCursor = none →
      Follow cursor l.rows
  | next {cursor : Option String} {l : Listing} {c : String} {out : List EventRow} :
    getEvents libs pg db isAdmin tenantId { p with cursor } = .ok l → l.nextCursor = some c →
      Follow (some c) out → Follow cursor (l.rows ++ out)

/-- The stored events that pass the filters of a request. -/
def Request.matching (r : Request) : List EventRow :=
  db.events.filter (r.satisfies libs pg offsetParams)

/-- The walk returns each matching event exactly once, sorted by the column in its direction. -/
def WalkComplete (r : Request) : Prop :=
  ∃ out, Follow libs pg db isAdmin tenantId p none out ∧ out.Perm (r.matching libs pg db) ∧
    out.Pairwise fun a b => r.order.signed (r.sortColumn.value a) ≤ r.order.signed (r.sortColumn.value b)

end

/-! ### Cursors on the way back -/

theorem parseI64_i64Text {v : ℤ} (h : I64_MIN ≤ v ∧ v ≤ I64_MAX) : parseI64 (i64Text v) = some v := by
  rw [I64_MIN, I64_MAX] at h
  rw [parseI64, i64Text, String.toList_ofList]
  split
  · have hbound : v.natAbs ≤ 2 ^ 63 := by omega
    rw [Lib.parseSigned, Lib.digits?_decimal, Option.filter_some, if_pos (decide_eq_true hbound)]
    change some (-(v.natAbs : ℤ)) = some v
    congr 1
    omega
  · rw [Lib.parseSigned_decimal (by omega : v.natAbs < 2 ^ 63)]
    congr 1
    omega

theorem colon_not_mem_i64Text (v : ℤ) : ':' ∉ (i64Text v).toList := by
  have hdigit : ':' ∉ Lib.decimal 1 v.natAbs := Lib.not_mem_decimal (by decide) _ _
  rw [i64Text, String.toList_ofList]
  split
  · rw [List.mem_cons, not_or]
    exact ⟨by decide, hdigit⟩
  · exact hdigit

theorem colon_not_mem_asTag (sortBy : SortBy) : ':' ∉ sortBy.asTag.toList := by
  cases sortBy <;> decide

theorem toList_cursorText (tag value id : String) :
    (tag ++ ":" ++ value ++ ":" ++ id).toList
      = tag.toList ++ ':' :: (value.toList ++ ':' :: id.toList) := by
  simp [String.toList_append]

section
variable {libs : Libraries} (hlibs : libs.ReadBack)
include hlibs

/-- A value without a colon comes back as it was. -/
theorem decodeCursorTagged_encode {sortBy : SortBy} {value : String} {id : Uuid}
    (hvalue : ':' ∉ value.toList) (hid : isRandomUuid id = true) :
    decodeCursorTagged libs (encodeCursorTagged libs sortBy.asTag value id)
      = .ok ⟨sortBy.asTag, value, id⟩ := by
  rw [decodeCursorTagged, encodeCursorTagged, hlibs.base64]
  dsimp only
  rw [parseCursorText, toList_cursorText, Ingest.splitOnce_append (colon_not_mem_asTag sortBy),
    Option.bind_some, Ingest.splitOnce_append hvalue]
  simp only [Option.map_some, String.ofList_toList, hlibs.uuid, hid, if_true]

/-- A time is cut at its first colon, and what is taken for the UUID is none. -/
theorem decodeCursorTagged_time {sortBy : SortBy} (t : Timestamp) (id : Uuid) :
    decodeCursorTagged libs (encodeCursorTagged libs sortBy.asTag (libs.toRfc3339 t) id)
      = .error (.Validation "invalid cursor") := by
  rcases hlibs.rfc3339 t with ⟨date, d, rest, htext, hdate, hd⟩
  rw [decodeCursorTagged, encodeCursorTagged, hlibs.base64]
  dsimp only
  rw [parseCursorText, toList_cursorText, htext, Ingest.splitOnce_append (colon_not_mem_asTag sortBy),
    Option.bind_some, List.append_assoc, List.cons_append, Ingest.splitOnce_append hdate]
  simp only [Option.map_some, List.cons_append]
  rw [hlibs.colon d _ hd (List.mem_append_right _ List.mem_cons_self)]

end

/-! ### Requests that differ in the cursor -/

def Request.withCursor (r : Request) (cursor : Option String) : Request :=
  { r with toPaginationParams := { r.toPaginationParams with cursor } }

/-- No check reads the cursor. -/
theorem validate_withCursor (parse : String → Option Timestamp) (isAdmin : Bool)
    (tenantId : Option String) (p : PaginationParams) (cursor : Option String) :
    validate parse isAdmin tenantId { p with cursor }
      = (validate parse isAdmin tenantId p >>= fun r => .ok (r.withCursor cursor)) := by
  simp only [validate, bind_assoc, pure_bind]
  rfl

/-! ### Pages -/

/-- The cursor of a row. -/
def rowCursor (libs : Libraries) (sortBy : SortBy) (row : EventRow) : String :=
  encodeCursorTagged libs sortBy.asTag (sortBy.valueText libs row) row.id

section
variable {libs : Libraries} {pg : Pg} {db : Database} {r : Request}

/-- A page that is not full ends the walk. -/
theorem nextCursor_eq_none_iff {sortBy : SortBy} {limit : ℕ} {rows : List EventRow} (hlimit : 0 < limit) :
    nextCursor libs sortBy limit rows = none ↔ rows.length ≠ limit := by
  rw [nextCursor]
  split
  · next hlen =>
    have hne : rows ≠ [] := List.ne_nil_of_length_pos (by omega)
    rw [List.getLast?_eq_some_getLast hne]
    exact ⟨nofun, fun h => absurd hlen h⟩
  · next hlen => exact ⟨fun _ => hlen, fun _ => rfl⟩

theorem nextCursor_eq_some_iff {sortBy : SortBy} {limit : ℕ} {rows : List EventRow} {c : String} :
    nextCursor libs sortBy limit rows = some c ↔
      rows.length = limit ∧ ∃ row, rows.getLast? = some row ∧ c = rowCursor libs sortBy row := by
  rw [nextCursor]
  split
  · next hlen =>
    rw [Option.map_eq_some_iff]
    constructor
    · rintro ⟨row, hrow, rfl⟩
      exact ⟨hlen, row, hrow, rfl⟩
    · rintro ⟨-, row, hrow, rfl⟩
      exact ⟨row, hrow, rfl⟩
  · next hlen => exact ⟨nofun, fun h => absurd h.1 hlen⟩

/-- The total is computed unless the count would lack a value. -/
theorem countEvents_isOk :
    (∃ total, countEvents libs pg db r = .ok total) ↔
      r.contractIdsList = [] ∧ r.contractIdPrefix = none := by
  have hcount : (∃ total, (do
        let counted ← (countQuery libs r).select pg r.sortColumn r.order db.events
        return ((counted.length : ℤ), false) : Except AppError (ℤ × Bool)) = .ok total) ↔
      r.contractIdsList = [] ∧ r.contractIdPrefix = none := by
    rw [← @countQuery_runs libs pg r r.sortColumn, Query.select]
    cases (countQuery libs r).runs pg r.sortColumn with
    | false =>
      constructor
      · rintro ⟨total, htotal⟩
        cases htotal
      · intro hruns
        cases hruns
    | true => exact ⟨fun _ => rfl, fun _ => ⟨_, rfl⟩⟩
  rw [countEvents]
  split
  · exact hcount
  · next hcond =>
    rw [Bool.or_eq_true, not_or, decide_eq_true_eq, not_not] at hcond
    have hkeys := (offsetConditions_numbers r).distinct
    rw [hcond.2] at hkeys
    have hnil := List.length_eq_zero_iff.mp hkeys.symm
    simp only [contractKeys, List.append_eq_nil_iff] at hnil
    rcases hnil with ⟨⟨⟨⟨⟨-, hids⟩, hpre⟩, -⟩, -⟩, -⟩
    refine ⟨fun _ => ⟨(contractIds_unsupplied r).mp hids, (prefix_unsupplied r).mp hpre⟩, fun _ => ?_⟩
    cases r.tenantId with
    | none => exact ⟨_, rfl⟩
    | some t => exact ⟨_, rfl⟩

/-- The first page. -/
structure FirstPage (libs : Libraries) (pg : Pg) (db : Database) (r : Request) (l : Listing) : Prop where
  unfiltered : r.contractIdsList = [] ∧ r.contractIdPrefix = none
  rows : l.rows = page (rowKey r.sortColumn r.order) r.effectiveLimit (r.matching libs pg db)
  nextCursor : l.nextCursor = nextCursor libs r.sortColumn r.effectiveLimit l.rows

theorem firstPage_of_offsetPath (hcols : ∀ c ∈ r.columnsList, c ∈ ALLOWED_FIELDS)
    (hpage : r.page = none) {l : Listing} (h : offsetPath libs pg db r = .ok l) :
    FirstPage libs pg db r l := by
  rcases @offsetQuery_issued libs r hcols with ⟨q, hq⟩
  rw [offsetPath, hq] at h
  rcases bind_eq_ok h with ⟨q', hq', h⟩
  rw [← Except.ok.inj hq', (offsetLike_offsetQuery hq).select] at h
  rcases bind_eq_ok h with ⟨selected, hselected, h⟩
  rcases bind_eq_ok h with ⟨total, htotal, h⟩
  rw [← Except.ok.inj hselected, PaginationParams.offset_page_none hpage, List.drop_zero] at h
  rw [← Except.ok.inj h]
  exact ⟨countEvents_isOk.mp ⟨total, htotal⟩, rfl, rfl⟩

theorem exists_firstPage (hcols : ∀ c ∈ r.columnsList, c ∈ ALLOWED_FIELDS)
    (h : r.contractIdsList = [] ∧ r.contractIdPrefix = none) :
    ∃ l, offsetPath libs pg db r = .ok l := by
  rcases @offsetQuery_issued libs r hcols with ⟨q, hq⟩
  rcases (@countEvents_isOk libs pg db r).mpr h with ⟨total, htotal⟩
  have hselect := @OffsetLike.select libs pg r q (offsetLike_offsetQuery hq) db.events
  rw [offsetPath, hq, ok_bind, hselect, ok_bind, htotal, ok_bind]
  exact ⟨_, rfl⟩

/-! ### Pages behind a cursor -/

variable {p : PaginationParams}

/-- With parameters both paths know, the cursor query filters as the offset query does. -/
theorem cursorQuery_matching {valText : String} {cursorId : Uuid} {q : Query}
    (hboth : BothPaths r.toPaginationParams) (hq : cursorQuery libs r valText cursorId = .ok q) :
    q.runs pg r.sortColumn = true ∧ ∃ after, positionValue libs r valText = .ok after ∧
      db.events.filter (q.selects pg r.sortColumn r.order) =
        (r.matching libs pg db).filter fun row =>
          Param.position.holds pg r.sortColumn r.order row [after, .uuid cursorId] := by
  have hpattern : r.boundPattern = none := by rw [Request.boundPattern, hboth.dataPattern, Option.map_none]
  have hvalid : ∀ t, r.boundPattern = some t → pg.jsonpathValid t = true := by
    rw [hpattern]
    intro t ht
    cases ht
  refine ⟨(cursorQuery_runs hq).mpr hvalid, ?_⟩
  rcases @cursorQuery_selects libs pg r _ _ _ hq with ⟨after, hafter, hselects⟩
  refine ⟨after, hafter, ?_⟩
  have hapart : ¬(r.search.isSome ∧ r.dataPattern.isSome) := by
    rw [hboth.dataPattern]
    exact fun h => absurd h.2 (by decide)
  have hfilters : ∀ row, r.satisfies libs pg offsetParams row
      = r.satisfiesWith libs pg (r.crossedValues libs) cursorParams row := by
    intro row
    refine (row_apart hapart row).mpr fun _ => ?_
    simp [Request.satisfies, topicParams, Request.values, hboth.dataPattern, hboth.topics, hboth.network]
  rw [Request.matching, List.filter_filter]
  apply List.filter_congr
  intro row _
  rw [hselects, hfilters]

/-- A page behind a row, in a walk by ledger. -/
theorem cursorPath_ledger (hlibs : libs.ReadBack) (hboth : BothPaths r.toPaginationParams)
    (hcols : ∀ c ∈ r.columnsList, c ∈ ALLOWED_FIELDS) (hsort : r.sortColumn = .Ledger) {c : EventRow}
    (hledger : I64_MIN ≤ c.ledger ∧ c.ledger ≤ I64_MAX) (hid : isRandomUuid c.id = true) :
    ∃ l, cursorPath libs pg db r (rowCursor libs .Ledger c) = .ok l ∧
      l.rows = page (toidKey r.order) r.effectiveLimit ((r.matching libs pg db).filter fun row =>
        rowKey .Ledger r.order c < rowKey .Ledger r.order row) ∧
      l.nextCursor = nextCursor libs .Ledger r.effectiveLimit l.rows := by
  -- the cursor's text is read back, to the tag, the ledger and the id
  have hdecode : decodeCursorTagged libs (rowCursor libs .Ledger c)
      = .ok ⟨SortBy.Ledger.asTag, i64Text c.ledger, c.id⟩ :=
    decodeCursorTagged_encode hlibs (colon_not_mem_i64Text _) hid
  have hafter : positionValue libs r (i64Text c.ledger) = .ok (.bigint c.ledger) := by
    rw [positionValue, hsort]
    dsimp only
    rw [parseI64_i64Text hledger]
  have hissued : ∃ q, cursorQuery libs r (i64Text c.ledger) c.id = .ok q := by
    rw [cursorQuery, hboth.rank]
    simp only [Bool.false_and, Bool.false_eq_true, if_false, List.append_nil,
      checkColumns_validated hcols, hafter, ok_bind, cursorBinds, patternValue, hboth.dataPattern]
    exact ⟨_, rfl⟩
  rcases hissued with ⟨q, hq⟩
  rcases @cursorQuery_matching libs pg db r _ _ _ hboth hq with ⟨hruns, after, hafter', hrows⟩
  rw [hafter] at hafter'
  rw [← Except.ok.inj hafter'] at hrows
  -- the query selects the rows behind the cursor's row
  have hselect : q.select pg r.sortColumn r.order db.events = .ok ((r.matching libs pg db).filter
      fun row => rowKey .Ledger r.order c < rowKey .Ledger r.order row) := by
    rw [Query.select, hruns, hrows, hsort]
    rfl
  rw [cursorPath, hdecode, ok_bind]  -- and the page is the first of them
  dsimp only
  rw [hsort] at hselect ⊢
  simp only [rejectIf, ne_eq, not_true_eq_false, decide_false, Bool.false_eq_true, if_false, ok_bind,
    hq, hselect, hboth.format]
  exact ⟨_, rfl, rfl, rfl⟩

/-- A cursor of a time column is refused. -/
theorem cursorPath_time (hlibs : libs.ReadBack) (hsort : r.sortColumn ≠ .Ledger) (c : EventRow)
    (l : Listing) : cursorPath libs pg db r (rowCursor libs r.sortColumn c) ≠ .ok l := by
  have hdecode : ∃ e, decodeCursorTagged libs (rowCursor libs r.sortColumn c) = .error e := by
    rw [rowCursor]
    cases hs : r.sortColumn with
    | Ledger => exact absurd hs hsort
    | Timestamp | CreatedAt => exact ⟨_, decodeCursorTagged_time hlibs _ c.id⟩
  rcases hdecode with ⟨e, he⟩
  rw [cursorPath, he, error_bind]
  nofun

end

/-! ### Following the cursors -/

theorem id_of_signed {order : SortOrder} {a b : Uuid} (h : order.signed a.toNat = order.signed b.toNat) :
    a = b := by
  apply BitVec.eq_of_toNat_eq
  cases order
  · exact Int.ofNat_inj.mp h
  · exact Int.ofNat_inj.mp (neg_injective h)

theorem rowKey_injOn {events : List EventRow} (h : (events.map (·.id)).Nodup) (sortBy : SortBy)
    (order : SortOrder) : Distinct (rowKey sortBy order) events := by
  intro a ha b hb hab
  have hsigned : order.signed a.id.toNat = order.signed b.id.toNat :=
    congrArg (fun k => (ofLex k).2) hab
  exact List.inj_on_of_nodup_map h ha hb (id_of_signed hsigned)

theorem toidKey_injOn {events : List EventRow} (h : (events.map (·.id)).Nodup) (order : SortOrder) :
    Distinct (toidKey order) events := by
  intro a ha b hb hab
  have hsigned : order.signed a.id.toNat = order.signed b.id.toNat :=
    congrArg (fun k => (ofLex (ofLex (ofLex (ofLex k).2).2).2).2) hab
  exact List.inj_on_of_nodup_map h ha hb (id_of_signed hsigned)

section
variable {libs : Libraries} {pg : Pg} {db : Database} {isAdmin : Bool} {tenantId : Option String}
  {p : PaginationParams} {r : Request}
variable (hlibs : libs.ReadBack) (hstored : Stored db.events) (hboth : BothPaths p)
  (hr : validate libs.parseTimestamp isAdmin tenantId p = .ok r)

theorem mem_events_of_matching {row : EventRow} (h : row ∈ r.matching libs pg db) : row ∈ db.events :=
  List.mem_of_mem_filter h

theorem nodup_matching (h : (db.events.map (·.id)).Nodup) : (r.matching libs pg db).Nodup :=
  (List.Nodup.of_map _ h).filter _

include hr in
theorem getEvents_withCursor (cursor : Option String) :
    getEvents libs pg db isAdmin tenantId { p with cursor }
      = listEvents libs pg db (r.withCursor cursor) := by
  rw [getEvents, validate_withCursor, hr]
  rfl

include hboth hr in
theorem bothPaths_request : BothPaths r.toPaginationParams := by
  rw [(of_validate hr).1]
  exact hboth

include hlibs hstored hboth hr in
/-- The page behind a stored row. -/
theorem getEvents_behind (hsort : r.sortColumn = .Ledger) {c : EventRow} (hc : c ∈ db.events) :
    ∃ l, getEvents libs pg db isAdmin tenantId { p with cursor := some (rowCursor libs .Ledger c) }
        = .ok l ∧
      l.rows = page (toidKey r.order) r.effectiveLimit ((r.matching libs pg db).filter fun row =>
        rowKey .Ledger r.order c < rowKey .Ledger r.order row) ∧
      l.nextCursor = nextCursor libs .Ledger r.effectiveLimit l.rows := by
  rw [getEvents_withCursor hr]
  have hboth' : BothPaths (r.withCursor (some (rowCursor libs .Ledger c))).toPaginationParams := by
    have h := bothPaths_request hboth hr
    exact ⟨h.page, h.topics, h.dataPattern, h.network, h.rank, h.format⟩
  exact cursorPath_ledger hlibs hboth' (of_validate hr).2 hsort (hstored.ledger c hc) (hstored.random c hc)

/-- Behind a row of what lies behind another there is what lies behind both. -/
theorem filter_behind {events : List EventRow} {order : SortOrder} {c d : EventRow}
    (hd : d ∈ events.filter fun row => rowKey .Ledger order c < rowKey .Ledger order row) :
    (events.filter fun row => rowKey .Ledger order c < rowKey .Ledger order row).filter
        (fun row => rowKey .Ledger order d < rowKey .Ledger order row)
      = events.filter fun row => rowKey .Ledger order d < rowKey .Ledger order row := by
  rw [List.filter_filter]
  apply List.filter_congr
  intro row _
  have hcd : rowKey .Ledger order c < rowKey .Ledger order d := by
    simpa using List.of_mem_filter hd
  rw [Bool.eq_iff_iff, Bool.and_eq_true, decide_eq_true_eq, decide_eq_true_eq]
  exact ⟨fun h => h.1, fun h => ⟨h, hcd.trans h⟩⟩

include hlibs hstored hboth hr in
theorem behind_of_getEvents (hsort : r.sortColumn = .Ledger) {c : EventRow} (hc : c ∈ db.events)
    {cursor : Option String} (hcursor : cursor = some (rowCursor libs .Ledger c)) {l : Listing}
    (hget : getEvents libs pg db isAdmin tenantId { p with cursor } = .ok l) :
    l.rows = page (toidKey r.order) r.effectiveLimit ((r.matching libs pg db).filter fun row =>
        rowKey .Ledger r.order c < rowKey .Ledger r.order row) ∧
      l.nextCursor = nextCursor libs .Ledger r.effectiveLimit l.rows := by
  obtain ⟨l', hl, hrows, hnext⟩ := getEvents_behind hlibs hstored hboth hr hsort hc
  rw [← hcursor, hget] at hl
  rw [Except.ok.inj hl]
  exact ⟨hrows, hnext⟩

include hlibs hstored hboth hr in
/-- From a stored row on, the responses are the pages of a walk with the two orders. -/
theorem walk_of_follow (hsort : r.sortColumn = .Ledger) {cursor : Option String}
    {out : List EventRow} (h : Follow libs pg db isAdmin tenantId p cursor out) :
    ∀ c ∈ db.events, cursor = some (rowCursor libs .Ledger c) →
      Walk (rowKey .Ledger r.order) (toidKey r.order) r.effectiveLimit
        ((r.matching libs pg db).filter fun row =>
          rowKey .Ledger r.order c < rowKey .Ledger r.order row) out := by
  have hlimit := r.effectiveLimit_pos
  induction h with
  | last hget hnone =>
    intro c hc hcursor
    obtain ⟨hrows, hnext⟩ := behind_of_getEvents hlibs hstored hboth hr hsort hc hcursor hget
    rw [hnext, nextCursor_eq_none_iff hlimit, hrows] at hnone
    rw [hrows]
    refine .last (lt_of_le_of_ne ?_ hnone)
    rw [length_page]
    exact min_le_left _ _
  | next hget hsome _ ih =>
    intro c hc hcursor
    obtain ⟨hrows, hnext⟩ := behind_of_getEvents hlibs hstored hboth hr hsort hc hcursor hget
    rw [hnext, nextCursor_eq_some_iff, hrows] at hsome
    rcases hsome with ⟨hlen, d, hd, rfl⟩
    have hmem := mem_of_mem_page (List.mem_of_getLast? hd)
    have hwalk := ih d (mem_events_of_matching (List.mem_of_mem_filter hmem)) rfl
    rw [← filter_behind hmem] at hwalk
    rw [hrows]
    exact .next hlen hd hwalk

include hlibs hstored hboth hr in
theorem follow_of_walk (hsort : r.sortColumn = .Ledger) {rest out : List EventRow}
    (h : Walk (rowKey .Ledger r.order) (toidKey r.order) r.effectiveLimit rest out) :
    ∀ c ∈ db.events, rest = ((r.matching libs pg db).filter fun row =>
        rowKey .Ledger r.order c < rowKey .Ledger r.order row) →
      Follow libs pg db isAdmin tenantId p (some (rowCursor libs .Ledger c)) out := by
  have hlimit := r.effectiveLimit_pos
  induction h with
  | last hlen =>
    intro c hc hrest
    obtain ⟨l, hl, hrows, hnext⟩ := getEvents_behind hlibs hstored hboth hr hsort hc
    rw [← hrest] at hrows
    rw [← hrows]
    refine .last hl ?_
    rw [hnext, nextCursor_eq_none_iff hlimit, hrows]
    exact hlen.ne
  | @next rest out d hlen hd _ ih =>
    intro c hc hrest
    obtain ⟨l, hl, hrows, hnext⟩ := getEvents_behind hlibs hstored hboth hr hsort hc
    rw [← hrest] at hrows
    have hmem := mem_of_mem_page (List.mem_of_getLast? hd)
    rw [hrest] at hmem
    have hfollow := ih d (mem_events_of_matching (List.mem_of_mem_filter hmem))
      (by rw [hrest, filter_behind hmem])
    rw [← hrows]
    refine .next hl ?_ hfollow
    rw [hnext, nextCursor_eq_some_iff, hrows]
    exact ⟨hlen, d, hd, rfl⟩

/-- When the walk is complete. -/
structure WalkAligned (libs : Libraries) (pg : Pg) (db : Database) (r : Request) : Prop where
  contractIds : r.contractIdsList = []
  contractIdPrefix : r.contractIdPrefix = none
  /-- By ledger: past the first page both orders agree on the row that ends each page. -/
  ledger : r.sortColumn = .Ledger → Aligned (toidKey r.order) r.effectiveLimit
    ((sortOn (rowKey .Ledger r.order) (r.matching libs pg db)).drop r.effectiveLimit)
  /-- By time: the first page is the only one, and is not full. -/
  time : r.sortColumn ≠ .Ledger → (r.matching libs pg db).length < r.effectiveLimit

include hboth hr in
theorem firstPage {l : Listing}
    (h : getEvents libs pg db isAdmin tenantId { p with cursor := none } = .ok l) :
    FirstPage libs pg db r l := by
  rw [getEvents_withCursor hr] at h
  have hpage : r.page = none := (bothPaths_request hboth hr).page
  have hfirst := @firstPage_of_offsetPath libs pg db (r.withCursor none) (of_validate hr).2 hpage l h
  exact ⟨hfirst.unfiltered, hfirst.rows, hfirst.nextCursor⟩

include hr in
theorem exists_getEvents (h : r.contractIdsList = [] ∧ r.contractIdPrefix = none) :
    ∃ l, getEvents libs pg db isAdmin tenantId { p with cursor := none } = .ok l := by
  rw [getEvents_withCursor hr]
  exact @exists_firstPage libs pg db (r.withCursor none) (of_validate hr).2 h

include hlibs hr in
/-- Behind the first page of a walk by time there is an error. -/
theorem not_follow_time (hsort : r.sortColumn ≠ .Ledger) (c : EventRow) {out : List EventRow} :
    ¬Follow libs pg db isAdmin tenantId p (some (rowCursor libs r.sortColumn c)) out := by
  have hrefused : ∀ l, getEvents libs pg db isAdmin tenantId
      { p with cursor := some (rowCursor libs r.sortColumn c) } ≠ .ok l := by
    intro l
    rw [getEvents_withCursor hr]
    exact @cursorPath_time libs pg db (r.withCursor _) hlibs hsort c l
  intro h
  cases h with
  | last hget _ => exact hrefused _ hget
  | next hget _ _ => exact hrefused _ hget

theorem rowKey_le {order : SortOrder} {sortBy : SortBy} {a b : EventRow}
    (h : rowKey sortBy order a ≤ rowKey sortBy order b) :
    order.signed (sortBy.value a) ≤ order.signed (sortBy.value b) := Prod.Lex.monotone_fst _ _ h

theorem toidKey_le {order : SortOrder} {a b : EventRow} (h : toidKey order a ≤ toidKey order b) :
    order.signed (SortBy.Ledger.value a) ≤ order.signed (SortBy.Ledger.value b) :=
  Prod.Lex.monotone_fst _ _ h

theorem distinct_matching (h : (db.events.map (·.id)).Nodup) (sortBy : SortBy) :
    Distinct (rowKey sortBy r.order) (r.matching libs pg db) :=
  (rowKey_injOn h sortBy r.order).mono fun _ => mem_events_of_matching

theorem distinct_toid_matching (h : (db.events.map (·.id)).Nodup) :
    Distinct (toidKey r.order) (r.matching libs pg db) :=
  (toidKey_injOn h r.order).mono fun _ => mem_events_of_matching

include hlibs hstored hboth hr in
theorem walkAligned_of_complete (h : WalkComplete libs pg db isAdmin tenantId p r) :
    WalkAligned libs pg db r := by
  have hlimit := r.effectiveLimit_pos
  rcases h with ⟨out, hfollow, hperm, -⟩
  cases hfollow with
  | last hget hnone =>
    have hfirst := firstPage hboth hr hget
    rw [hfirst.nextCursor, nextCursor_eq_none_iff hlimit, hfirst.rows, length_page] at hnone
    have hlen : (r.matching libs pg db).length < r.effectiveLimit := by omega
    refine ⟨hfirst.unfiltered.1, hfirst.unfiltered.2, fun _ => ?_, fun _ => hlen⟩
    rw [List.drop_eq_nil_of_le (by rw [length_sortOn]; omega)]
    exact aligned_of_length_lt hlimit hlimit
  | next hget hsome hrest =>
    have hfirst := firstPage hboth hr hget
    rw [hfirst.nextCursor, nextCursor_eq_some_iff, hfirst.rows] at hsome
    rcases hsome with ⟨-, d, hd, rfl⟩
    refine ⟨hfirst.unfiltered.1, hfirst.unfiltered.2, fun hsort => ?_, fun hsort => ?_⟩
    · have hmem := mem_events_of_matching (mem_of_mem_page (List.mem_of_getLast? hd))
      rw [hfirst.rows] at hperm
      rw [hsort] at hd hrest hperm
      have hwalk := walk_of_follow hlibs hstored hboth hr hsort hrest d hmem rfl
      exact (perm_iff_behind_page hlimit (nodup_matching hstored.ids)
        (distinct_matching hstored.ids _) (distinct_toid_matching hstored.ids) hd hwalk).mp hperm
    · exact absurd hrest (not_follow_time hlibs hr hsort d)

include hlibs hstored hboth hr in
theorem walkComplete_of_aligned (h : WalkAligned libs pg db r) :
    WalkComplete libs pg db isAdmin tenantId p r := by
  have hlimit := r.effectiveLimit_pos
  have hissued : ∃ l, getEvents libs pg db isAdmin tenantId { p with cursor := none } = .ok l :=
    exists_getEvents hr ⟨h.contractIds, h.contractIdPrefix⟩
  rcases hissued with ⟨l, hget⟩
  have hfirst := firstPage hboth hr hget
  by_cases hlen : l.rows.length = r.effectiveLimit
  · -- a full page in the order of time would already break the condition
    have hsort : r.sortColumn = .Ledger := by
      by_contra hsort
      have hshort : (r.matching libs pg db).length < r.effectiveLimit := h.time hsort
      rw [hfirst.rows, length_page] at hlen
      omega
    have hne : l.rows ≠ [] := List.ne_nil_of_length_pos (by omega)
    rcases Option.isSome_iff_exists.mp (List.getLast?_isSome.mpr hne) with ⟨d, hd⟩
    have hsome : l.nextCursor = some (rowCursor libs .Ledger d) := by
      rw [hfirst.nextCursor, nextCursor_eq_some_iff, hsort]
      exact ⟨hlen, _, hd, rfl⟩
    rw [hfirst.rows, hsort] at hd
    -- behind the first page the walk is one of keyset pages, with the toid as their key
    have hmem := mem_events_of_matching (mem_of_mem_page (List.mem_of_getLast? hd))
    rcases exists_walk (rowKey .Ledger r.order) (toidKey r.order) hlimit
      ((r.matching libs pg db).filter fun row => rowKey .Ledger r.order d < rowKey .Ledger r.order row)
      with ⟨out, hwalk⟩
    have hfollow := follow_of_walk hlibs hstored hboth hr hsort hwalk _ hmem rfl
    refine ⟨l.rows ++ out, .next hget hsome hfollow, ?_, ?_⟩
    · rw [hfirst.rows, hsort]
      exact (perm_iff_behind_page hlimit (nodup_matching hstored.ids)
        (distinct_matching hstored.ids _) (distinct_toid_matching hstored.ids) hd hwalk).mpr (h.ledger hsort)
    · rw [hfirst.rows, hsort]
      exact pairwise_behind_page (fun _ _ => rowKey_le) (fun _ _ => toidKey_le) hd hwalk
  · -- a short first page is all there is
    have hall : l.rows = sortOn (rowKey r.sortColumn r.order) (r.matching libs pg db) := by
      rw [hfirst.rows, length_page] at hlen
      rw [hfirst.rows]
      exact List.take_of_length_le (by rw [length_sortOn]; omega)
    refine ⟨l.rows, .last hget ?_, ?_, ?_⟩
    · rw [hfirst.nextCursor]
      exact (nextCursor_eq_none_iff hlimit).mpr hlen
    · rw [hall]
      exact perm_sortOn _ _
    · rw [hall]
      exact (pairwise_sortOn (rowKey r.sortColumn r.order) _).imp fun {a b} hab => rowKey_le hab

include hlibs hstored hboth hr in
/-- The walk is complete exactly when no filter breaks the total of its first page and, by ledger, the
    two orders agree on where pages end, by time, there is no second page. -/
theorem walkComplete_iff :
    WalkComplete libs pg db isAdmin tenantId p r ↔ WalkAligned libs pg db r :=
  ⟨walkAligned_of_complete hlibs hstored hboth hr, walkComplete_of_aligned hlibs hstored hboth hr⟩

end

/-! ### Four events of one ledger -/

/-- An event of ledger 8, with an id and a place in the ledger. -/
def eventAt (id : Uuid) (txIndex : Option ℤ) : EventRow :=
  { mainnetEvent with id, txIndex, opIndex := some 0, eventIndex := some 0 }

def oneLedger : List EventRow :=
  [eventAt 0x00000000000040008000000000000001#128 (some 0),
    eventAt 0x00000000000040008000000000000002#128 (some 2),
    eventAt 0x00000000000040008000000000000003#128 none,
    eventAt 0x00000000000040008000000000000004#128 (some 1)]

theorem stored_oneLedger : Stored oneLedger := ⟨by decide, by decide, by decide⟩

/-- `?sort=asc&limit=…`, as it passes the checks. -/
def ascRequest (limit : ℤ) : Request :=
  { limit := some limit, sort := some .Asc, contractIdsList := [], fromTs := none, toTs := none,
    columnsList := ALLOWED_FIELDS, tenantId := none }

theorem ascRequest_validated (limit : ℤ) :
    validate plainLibraries.parseTimestamp false none { limit := some limit, sort := some .Asc }
      = .ok (ascRequest limit) := rfl

theorem bothPaths_asc (limit : ℤ) : BothPaths { limit := some limit, sort := some .Asc } where
  page := rfl
  topics := ⟨rfl, rfl, rfl, rfl⟩
  dataPattern := rfl
  network := rfl
  rank := rfl
  format := by
    have hjson : "json".toLower = "json" := by decide +kernel
    rw [checkFormat, Option.getD_none, hjson]
    rfl

theorem pairwise_oneLedger :
    oneLedger.Pairwise fun a b => rowKey .Ledger .Asc a ≤ rowKey .Ledger .Asc b := by
  decide

theorem walkComplete_limit_four :
    WalkComplete plainLibraries plainPg ⟨oneLedger, 0⟩ false none { limit := some 4, sort := some .Asc }
      (ascRequest 4) := by
  refine (walkComplete_iff readBack_plainLibraries stored_oneLedger (bothPaths_asc 4)
    (ascRequest_validated 4)).mpr ⟨rfl, rfl, fun _ => ?_, fun h => absurd rfl h⟩
  exact aligned_of_length_lt (by decide) (by decide)

/-- With one event a page, the second page is `tx_index` 1 and the cut behind it loses the others. -/
theorem walkComplete_refuted :
    ¬WalkComplete plainLibraries plainPg ⟨oneLedger, 0⟩ false none
      { limit := some 1, sort := some .Asc } (ascRequest 1) := by
  intro h
  have haligned := walkAligned_of_complete readBack_plainLibraries stored_oneLedger (bothPaths_asc 1)
    (ascRequest_validated 1) h
  have hsorted : sortOn (rowKey .Ledger .Asc)
      ((ascRequest 1).matching plainLibraries plainPg ⟨oneLedger, 0⟩) = oneLedger :=
    (rowKey_injOn stored_oneLedger.ids .Ledger .Asc |>.mono fun _ => mem_sortOn.mp).eq_of_perm
      (perm_sortOn _ _) (pairwise_sortOn _ _) pairwise_oneLedger
  have hledger : Aligned (toidKey .Asc) 1 ((sortOn (rowKey .Ledger .Asc)
      ((ascRequest 1).matching plainLibraries plainPg ⟨oneLedger, 0⟩)).drop 1) := haligned.ledger rfl
  rw [hsorted] at hledger
  exact absurd ((hledger 0 _ rfl).2 _ (List.mem_cons_of_mem _ List.mem_cons_self)) (by decide)

end SorobanPulse.Events
