import SorobanPulse.Events.Selection

/-! The two pagination paths of `get_events`, and the filters they apply.

    Over all its pages a path returns the rows its `WHERE` clause lets through, the position of a
    cursor aside. The count of the offset path is over the same clause.

        offset:  common filters, search
        cursor:  common filters, search, topic_0–3, data_pattern, network -/

namespace SorobanPulse.Events
open Lib

section
variable (libs : Libraries) (pg : Pg) (db : Database) (r : Request)

/-- What the offset path can return, over all pages. -/
def offsetSelection : Except AppError (List EventRow) := do
  let q ← offsetQuery libs r
  q.select pg r.sortColumn r.order db.events

/-- What the cursor path can return, over all pages; the position stands for any. -/
def cursorSelection (valText : String) (cursorId : Uuid) : Except AppError (List EventRow) := do
  let q ← cursorQuery libs r valText cursorId
  rejectIf (!q.runs pg r.sortColumn) .Database
  return db.events.filter (q.reaches pg r.sortColumn r.order)

/-- Both paths select the same rows, and the total is their number. -/
def FilterAlike (valText : String) (cursorId : Uuid) : Prop :=
  ∃ rows, offsetSelection libs pg db r = .ok rows ∧
    countEvents libs pg db r = .ok (rows.length, false) ∧
    cursorSelection libs pg db r valText cursorId = .ok rows

/-- The filters that both paths apply, but for `search`. -/
def commonParams : List Param := offsetParams.erase .search

/-- The filters only the cursor path applies, but for `data_pattern`. -/
def topicParams : List Param := [.topic0, .topic1, .topic2, .topic3, .network]

/-- When the paths filter alike. -/
structure FiltersShared : Prop where
  /-- The column check of the cursor path refuses `relevance_score`. -/
  unranked : r.rankByRelevance.getD false = false
  /-- The cursor path refuses `data_pattern` without `pattern`. -/
  patterned : r.dataPattern.isSome → r.pattern.isSome
  contractIds : r.contractIdsList = []
  contractIdPrefix : r.contractIdPrefix = none
  /-- The JSONPath that is bound parses. -/
  pattern : ∀ t, r.boundPattern = some t → pg.jsonpathValid t = true
  /-- The filters of the cursor path alone keep out none of the rows the other filters let through. -/
  apart : ¬(r.search.isSome ∧ r.dataPattern.isSome) → ∀ row ∈ db.events,
    r.satisfies libs pg offsetParams row →
      r.satisfies libs pg (.dataPattern :: topicParams) row
  /-- With `search` and `data_pattern`, each has the other's text on the cursor path. -/
  crossed : ∀ s path, r.search = some s → r.dataPattern = some path → ∀ row ∈ db.events,
    r.satisfies libs pg commonParams row →
      (pg.tsMatch row s ↔ pg.tsMatch row (formatJsonpathFilter path (r.pattern.getD "")) ∧
        pg.pathExists row s ∧ r.satisfies libs pg topicParams row)

end

section
variable {libs : Libraries} {pg : Pg} {db : Database} {r : Request}

/-! ### What the checks let through -/

/-- What passes the checks has the parameters it came with, and columns of the allowlist. -/
theorem of_validate {parse : String → Option Timestamp} {isAdmin : Bool} {tenantId : Option String}
    {p : PaginationParams} {r : Request} (h : validate parse isAdmin tenantId p = .ok r) :
    r.toPaginationParams = p ∧ ∀ c ∈ r.columnsList, c ∈ ALLOWED_FIELDS := by
  iterate 6 rcases bind_eq_ok h with ⟨_, -, h⟩
  iterate 4 rcases bind_eq_ok h with ⟨_, -, h⟩
  rcases bind_eq_ok h with ⟨cols, hcols, h⟩
  rw [← Except.ok.inj h]
  refine ⟨rfl, ?_⟩
  intro c hc
  rw [PaginationParams.columns] at hcols
  split at hcols
  · rw [Except.ok.inj hcols]
    exact hc
  · split at hcols
    · rw [Except.ok.inj hcols]
      exact hc
    · dsimp only at hcols
      split at hcols
      · next hunknown =>
        rw [← Except.ok.inj hcols] at hc
        simpa using List.filter_eq_nil_iff.mp hunknown c hc
      · cases hcols

theorem validateColumnName_allowed : ∀ c ∈ ALLOWED_FIELDS, validateColumnName c = true := by
  decide +kernel

theorem checkColumns_of_allowed {cols : List String} (h : ∀ c ∈ cols, c ∈ ALLOWED_FIELDS) :
    checkColumns cols = .ok () := by
  induction cols with
  | nil => rfl
  | cons c cols ih =>
    rw [checkColumns, List.forM, if_pos (validateColumnName_allowed c (h c List.mem_cons_self))]
    exact ih fun d hd => h d (List.mem_cons_of_mem _ hd)

theorem mem_selectColumns {cols : List String} {sortCol c : String}
    (h : c ∈ selectColumns cols sortCol) : c ∈ cols ∨ c ∈ [sortCol, "id", "created_at"] := by
  unfold selectColumns at h
  generalize [sortCol, "id", "created_at"] = added at h ⊢
  induction added generalizing cols with
  | nil => exact .inl h
  | cons d ds ih =>
    rw [List.foldl_cons] at h
    rcases ih h with hmem | hmem
    · split at hmem
      · exact .inl hmem
      · rcases List.mem_append.mp hmem with hmem | hmem
        · exact .inl hmem
        · exact .inr (List.mem_cons.mpr (.inl (List.mem_singleton.mp hmem)))
    · exact .inr (List.mem_cons_of_mem _ hmem)

theorem checkColumns_validated {r : Request} (h : ∀ c ∈ r.columnsList, c ∈ ALLOWED_FIELDS) :
    checkColumns (selectColumns r.columnsList r.sortColumn.asSqlCol) = .ok () := by
  have hadded : ∀ sortBy : SortBy, ∀ c ∈ [sortBy.asSqlCol, "id", "created_at"], c ∈ ALLOWED_FIELDS := by
    intro sortBy
    cases sortBy <;> decide
  apply checkColumns_of_allowed
  intro c hc
  rcases mem_selectColumns hc with hc | hc
  · exact h c hc
  · exact hadded _ c hc

theorem checkColumns_append_right {cols cols' : List String}
    (h : checkColumns (cols ++ cols') = .ok ()) : checkColumns cols' = .ok () := by
  induction cols with
  | nil => exact h
  | cons c cols ih =>
    rw [checkColumns, List.cons_append, List.forM] at h
    rcases bind_eq_ok h with ⟨_, -, hrest⟩
    exact ih hrest

theorem patternValue_isOk : (∃ v, patternValue r = .ok v) ↔ (r.dataPattern.isSome → r.pattern.isSome) := by
  rw [patternValue]
  cases r.dataPattern <;> cases r.pattern <;> simp

/-- Which requests the cursor path refuses, at a position of its sort column. -/
theorem cursorQuery_isOk (hcols : ∀ c ∈ r.columnsList, c ∈ ALLOWED_FIELDS) {valText : String}
    {cursorId : Uuid} {after : SqlValue} (hcursor : positionValue libs r valText = .ok after) :
    (∃ q, cursorQuery libs r valText cursorId = .ok q) ↔
      r.rankByRelevance.getD false = false ∧ (r.dataPattern.isSome → r.pattern.isSome) := by
  rw [← patternValue_isOk]
  cases hrank : r.rankByRelevance.getD false with
  | true =>
    refine ⟨fun ⟨q, hq⟩ => ?_, fun h => absurd h.1 (by decide)⟩
    rw [cursorQuery, hrank] at hq
    rcases bind_eq_ok hq with ⟨_, -, hq⟩
    rcases bind_eq_ok hq with ⟨_, hchecked, -⟩
    -- `relevance_score` is not in the allowlist
    exact absurd (checkColumns_append_right hchecked) (by decide)
  | false =>
    rw [and_iff_right rfl]
    constructor
    · rintro ⟨q, hq⟩
      rw [cursorQuery, hrank] at hq
      rcases bind_eq_ok hq with ⟨_, -, hq⟩
      rcases bind_eq_ok hq with ⟨_, -, hq⟩
      rcases bind_eq_ok hq with ⟨_, -, hq⟩
      rcases bind_eq_ok hq with ⟨binds, hbinds, -⟩
      rcases bind_eq_ok hbinds with ⟨v, hv, -⟩
      exact ⟨v, hv⟩
    · rintro ⟨v, hv⟩
      have hbinds : ∃ binds, cursorBinds libs r after cursorId = .ok binds := by
        rw [cursorBinds, hv]
        exact ⟨_, rfl⟩
      rcases hbinds with ⟨binds, hbinds⟩
      simp [cursorQuery, hrank, rejectIf, checkColumns_validated hcols, hcursor, hbinds]

/-! ### What each statement selects -/

theorem offsetQuery_issued (hcols : ∀ c ∈ r.columnsList, c ∈ ALLOWED_FIELDS) :
    ∃ q, offsetQuery libs r = .ok q := by
  rw [offsetQuery, checkColumns_validated hcols]
  exact ⟨_, rfl⟩

theorem offsetSelection_eq {q : Query} (h : offsetQuery libs r = .ok q) :
    offsetSelection libs pg db r = .ok (db.events.filter (r.satisfies libs pg offsetParams)) := by
  rw [offsetSelection, h]
  exact (offsetLike_offsetQuery h).select db.events

theorem countEvents_eq (hexact : r.exactCount = some true) (total : ℤ × Bool) :
    countEvents libs pg db r = .ok total ↔
      (r.contractIdsList = [] ∧ r.contractIdPrefix = none) ∧
        total = (((db.events.filter (r.satisfies libs pg offsetParams)).length : ℤ), false) := by
  have hcount : countEvents libs pg db r = do
      let counted ← (countQuery libs r).select pg r.sortColumn r.order db.events
      return (counted.length, false) := by
    rw [countEvents, hexact]
    rfl
  rw [hcount]
  by_cases h : r.contractIdsList = [] ∧ r.contractIdPrefix = none
  · rw [(offsetLike_countQuery h).select]
    constructor
    · intro htotal
      exact ⟨h, (Except.ok.inj htotal).symm⟩
    · rintro ⟨-, rfl⟩
      rfl
  · have hruns : (countQuery libs r).runs pg r.sortColumn = false :=
      Bool.eq_false_iff.mpr fun hr => h ((countQuery_runs r.sortColumn).mp hr)
    rw [Query.select, hruns]
    constructor
    · intro htotal
      cases htotal
    · intro htotal
      exact absurd htotal.1 h

theorem cursorSelection_eq {valText : String} {cursorId : Uuid} {q : Query}
    (h : cursorQuery libs r valText cursorId = .ok q) (rows : List EventRow) :
    cursorSelection libs pg db r valText cursorId = .ok rows ↔
      (∀ t, r.boundPattern = some t → pg.jsonpathValid t = true) ∧
        db.events.filter (r.satisfiesWith libs pg (r.crossedValues libs) cursorParams) = rows := by
  rw [cursorSelection, h, ← cursorQuery_runs h]
  change (do rejectIf (!q.runs pg r.sortColumn) .Database; _) = _ ↔ _
  rw [funext (cursorQuery_reaches h)]
  cases q.runs pg r.sortColumn with
  | false => exact ⟨nofun, nofun⟩
  | true => exact ⟨fun hrows => ⟨rfl, Except.ok.inj hrows⟩, fun hrows => congrArg _ hrows.2⟩

theorem filter_eq_filter_iff {α : Type} {l : List α} {P Q : α → Bool} :
    l.filter P = l.filter Q ↔ ∀ a ∈ l, P a = Q a := by
  constructor
  · intro h a ha
    have hmem : a ∈ l.filter P ↔ a ∈ l.filter Q := by rw [h]
    rw [List.mem_filter, List.mem_filter, and_iff_right ha, and_iff_right ha] at hmem
    exact Bool.eq_iff_iff.mpr hmem
  · exact List.filter_congr

/-! ### The conditions of the two paths -/

/-- The cursor path applies the common filters, then those on text and topics. -/
theorem satisfiesWith_cursorParams (val : Param → List SqlValue) (row : EventRow) :
    r.satisfiesWith libs pg val cursorParams row =
      (r.satisfiesWith libs pg val commonParams row &&
        r.satisfiesWith libs pg val (.search :: .dataPattern :: topicParams) row) := by
  have hperm : cursorParams.Perm (commonParams ++ .search :: .dataPattern :: topicParams) := by
    decide
  rw [Request.satisfiesWith, hperm.all_eq, List.all_append]
  rfl

theorem satisfies_offsetParams (row : EventRow) :
    r.satisfies libs pg offsetParams row =
      (r.satisfies libs pg commonParams row && r.satisfies libs pg [.search] row) := by
  have hperm : offsetParams.Perm (commonParams ++ [.search]) := by decide
  rw [Request.satisfies, hperm.all_eq, List.all_append]
  rfl

theorem satisfiesWith_crossed {ps : List Param}
    (hps : ∀ p ∈ ps, p ≠ .position ∧ r.crossed p = p) (row : EventRow) :
    r.satisfiesWith libs pg (r.crossedValues libs) ps row = r.satisfies libs pg ps row := by
  have hpos : Param.position ∉ ps := fun hmem => (hps _ hmem).1 rfl
  rw [← @satisfiesWith_bound _ _ _ [] _ hpos, Request.satisfiesWith, Request.satisfiesWith]
  apply all_congr_of_mem
  intro p hp
  rw [Request.crossedValues, (hps p hp).2, Request.bound, if_neg (hps p hp).1]

theorem satisfies_cons (p : Param) (ps : List Param) (row : EventRow) :
    r.satisfies libs pg (p :: ps) row = (r.satisfies libs pg [p] row && r.satisfies libs pg ps row) := by
  rw [Request.satisfies, List.all_cons, Request.satisfies, List.all_cons, List.all_nil, Bool.and_true]
  rfl

/-- One row is kept by both paths or by neither, unless it passes the offset filters only. -/
theorem row_apart (h : ¬(r.search.isSome ∧ r.dataPattern.isSome)) (row : EventRow) :
    r.satisfies libs pg offsetParams row
        = r.satisfiesWith libs pg (r.crossedValues libs) cursorParams row ↔
      (r.satisfies libs pg offsetParams row → r.satisfies libs pg (.dataPattern :: topicParams) row) := by
  have hcrossed : ∀ p, r.crossed p = p := by
    intro p
    unfold Request.crossed
    rw [if_neg]
    rwa [Bool.and_eq_true]
  have hrest : ∀ p ∈ Param.search :: Param.dataPattern :: topicParams, p ≠ .position := by decide
  have hcommon : ∀ p ∈ commonParams, p ≠ .position := by decide
  rw [satisfiesWith_cursorParams, satisfiesWith_crossed fun p hp => ⟨hcommon p hp, hcrossed p⟩,
    satisfiesWith_crossed fun p hp => ⟨hrest p hp, hcrossed p⟩, satisfies_offsetParams,
    satisfies_cons .search (.dataPattern :: topicParams)]
  have hbool : ∀ c s d : Bool, (c && s) = (c && (s && d)) ↔ ((c && s) = true → d = true) := by decide
  exact hbool _ _ _

theorem row_crossed {s path : String} (hs : r.search = some s) (hd : r.dataPattern = some path)
    (row : EventRow) :
    r.satisfies libs pg offsetParams row
        = r.satisfiesWith libs pg (r.crossedValues libs) cursorParams row ↔
      (r.satisfies libs pg commonParams row →
        (pg.tsMatch row s ↔ pg.tsMatch row (formatJsonpathFilter path (r.pattern.getD "")) ∧
          pg.pathExists row s ∧ r.satisfies libs pg topicParams row)) := by
  have hcommon : ∀ p ∈ commonParams, p ≠ .position ∧ p ≠ .search ∧ p ≠ .dataPattern := by decide
  have htopic : ∀ p ∈ topicParams, p ≠ .position ∧ p ≠ .search ∧ p ≠ .dataPattern := by decide
  have hrest : r.satisfiesWith libs pg (r.crossedValues libs) (.search :: .dataPattern :: topicParams) row
      = (pg.tsMatch row (formatJsonpathFilter path (r.pattern.getD "")) &&
          (pg.pathExists row s && r.satisfies libs pg topicParams row)) := by
    have htopics : r.satisfiesWith libs pg (r.crossedValues libs) topicParams row = _ :=
      satisfiesWith_crossed (fun p hp =>
        ⟨(htopic p hp).1, crossed_of_ne (htopic p hp).2.1 (htopic p hp).2.2⟩) row
    rw [← htopics]
    simp [Request.satisfiesWith, Request.crossedValues, Request.crossed, Request.values, hs, hd,
      Param.holds]
  have hsearch : r.satisfies libs pg [.search] row = pg.tsMatch row s := by
    simp [Request.satisfies, Request.values, hs, Param.holds]
  rw [satisfiesWith_cursorParams, satisfiesWith_crossed fun p hp =>
    ⟨(hcommon p hp).1, crossed_of_ne (hcommon p hp).2.1 (hcommon p hp).2.2⟩, hrest,
    satisfies_offsetParams, hsearch]
  have hbool : ∀ c s f p t : Bool, (c && s) = (c && (f && (p && t))) ↔
      (c = true → (s = true ↔ f = true ∧ p = true ∧ t = true)) := by
    decide
  exact hbool _ _ _ _ _

/-! ### Both paths -/

theorem filterAlike_iff_rows (hcols : ∀ c ∈ r.columnsList, c ∈ ALLOWED_FIELDS) {valText : String}
    {cursorId : Uuid} {q : Query} (hq : cursorQuery libs r valText cursorId = .ok q)
    (hexact : r.exactCount = some true) :
    FilterAlike libs pg db r valText cursorId ↔
      (r.contractIdsList = [] ∧ r.contractIdPrefix = none) ∧
        (∀ t, r.boundPattern = some t → pg.jsonpathValid t = true) ∧
        ∀ row ∈ db.events, r.satisfies libs pg offsetParams row
          = r.satisfiesWith libs pg (r.crossedValues libs) cursorParams row := by
  rcases @offsetQuery_issued libs r hcols with ⟨q', hq'⟩
  rw [FilterAlike, offsetSelection_eq hq']
  simp only [countEvents_eq hexact, cursorSelection_eq hq, ← filter_eq_filter_iff]
  constructor
  · rintro ⟨rows, hrows, hcount, hvalid, hcursor⟩
    exact ⟨hcount.1, hvalid, (Except.ok.inj hrows).trans hcursor.symm⟩
  · rintro ⟨hcount, hvalid, hrows⟩
    exact ⟨_, rfl, ⟨hcount, rfl⟩, hvalid, hrows.symm⟩

/-- What the cursor path selects it has asked for. -/
theorem cursorQuery_isOk_of_filterAlike {valText : String} {cursorId : Uuid}
    (h : FilterAlike libs pg db r valText cursorId) :
    ∃ q, cursorQuery libs r valText cursorId = .ok q := by
  rcases h with ⟨rows, -, -, hcursor⟩
  rcases bind_eq_ok hcursor with ⟨q, hq, -⟩
  exact ⟨q, hq⟩

end

/-! ### One stored event -/

/-- PostgreSQL with no text search, JSON or geography to compute. -/
def plainPg : Pg where
  like _ _ := false
  topicContains _ _ _ := false
  tsMatch _ _ := false
  jsonpathValid _ := false
  pathExists _ _ := false
  withinKm _ _ _ _ := false

def mainnetEvent : EventRow where
  id := 0x00000000000040008000000000000007#128
  contractId := "CDLZFC3SYJYDZT7K67VZ75HPJVIEUVNIXF47ZG2FB2RMQQVU2HHGCYSC"
  eventType := "contract"
  txHash := "a1b2"
  ledger := 8
  timestamp := 0
  eventData := .null
  createdAt := 0

/-- `?exact_count=true&network=…`, as it passes the checks. -/
def networkRequest (network : String) : Request :=
  { exactCount := some true, network := some network, contractIdsList := [], fromTs := none,
    toTs := none, columnsList := ALLOWED_FIELDS, tenantId := none }

end SorobanPulse.Events
