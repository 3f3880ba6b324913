import SorobanPulse.Events.BindOrder
import SorobanPulse.Events.GetEvents

/-! Which events the two paths of `get_events` select.

    Each supplied filter is a condition on the row with the filter's own values. The offset path
    applies `offsetParams`; the cursor path also knows the topics by position, `data_pattern` and
    `network`. Where `search` and `data_pattern` are both given, each condition is run with the
    value of the other.

        offset:  contract … topic_filter            search               time … tenant
        cursor:  contract … topic_filter  topic_0–3 search data_pattern  time … tenant  network -/

namespace SorobanPulse.Events
open Lib Lib.Placeholders

/-! ### The values of a request's filters -/

section
variable (libs : Libraries) (pg : Pg) (r : Request)

/-- The values a parameter is supplied with. -/
def Request.values : Param → Option (List SqlValue)
  | .position => none
  | .contractId => r.contractId.map fun v => [.text v]
  | .contractIds => (nonempty r.contractIdsList).map fun v => [.textArray v]
  | .contractIdPrefix => r.contractIdPrefix.map fun v => [.text (prefixPattern v)]
  | .eventType => r.eventType.map fun v => [.text v.toString]
  | .fromLedger => r.fromLedger.map fun v => [.bigint v]
  | .toLedger => r.toLedger.map fun v => [.bigint v]
  | .ledgerHash => r.ledgerHash.map fun v => [.text v]
  | .anonymized => r.anonymized.map fun v => [.bool v]
  | .inSuccessfulCall => r.inSuccessfulCall.map fun v => [.bool v]
  | .schemaVersion => r.schemaVersion.map fun v => [.bigint v]
  | .topicSym => r.topicSym.map fun v => [.text v]
  | .topicFilter => r.topicFilter.map fun v => [.text (libs.jsonText v)]
  | .topic0 => r.topic0.map fun v => [.text v]
  | .topic1 => r.topic1.map fun v => [.text (libs.jsonText (.string v))]
  | .topic2 => r.topic2.map fun v => [.text (libs.jsonText (.string v))]
  | .topic3 => r.topic3.map fun v => [.text (libs.jsonText (.string v))]
  | .search => r.search.map fun v => [.text v]
  | .dataPattern => r.dataPattern.map fun v => [.text (formatJsonpathFilter v (r.pattern.getD ""))]
  | .fromTs => r.fromTs.map fun v => [.timestamptz v]
  | .toTs => r.toTs.map fun v => [.timestamptz v]
  | .excludeContractIds => (nonempty r.excludeContractIdsList).map fun v => [.textArray v]
  | .excludeEventTypes => (nonempty r.excludeEventTypesList).map fun v => [.textArray v]
  | .near => r.nearValues
  | .tenant => r.tenantId.map fun v => [.text v]
  | .network => r.network.map fun v => [.text v]
  | .limit => some [.bigint r.effectiveLimit]
  | .offset => some [.bigint r.offset]

/-- The filters of the offset path, in its order. -/
def offsetParams : List Param :=
  [.contractId, .contractIds, .contractIdPrefix, .eventType, .fromLedger, .toLedger, .ledgerHash,
    .anonymized, .inSuccessfulCall, .schemaVersion, .topicSym, .topicFilter, .search, .fromTs, .toTs,
    .excludeContractIds, .excludeEventTypes, .near, .tenant]

/-- The filters of the cursor path, in its order. -/
def cursorParams : List Param :=
  [.contractId, .contractIds, .contractIdPrefix, .eventType, .fromLedger, .toLedger, .ledgerHash,
    .anonymized, .inSuccessfulCall, .schemaVersion, .topicSym, .topicFilter, .topic0, .topic1, .topic2,
    .topic3, .search, .dataPattern, .fromTs, .toTs, .excludeContractIds, .excludeEventTypes, .near,
    .tenant, .network]

/-- The supplied ones of `ps`, each true of the row with its own values. -/
def Request.satisfies (ps : List Param) (row : EventRow) : Bool :=
  ps.all fun p =>
    match r.values libs p with
    | none => true
    | some vs => p.holds pg r.sortColumn r.order row vs

/-- How many placeholders a condition has. -/
def Param.width : Param → ℕ
  | .position => 2
  | .near => 3
  | _ => 1

/-- The conditions that are pushed for the parameters of `ps`. -/
def Request.pushed (ps : List Param) : List (Param × ℕ) :=
  ps.flatMap fun p => guarded (r.values libs p).isSome [(p, p.width)]

theorem widths_offsetConditions :
    widths (offsetConditions r).conditions = r.pushed libs offsetParams := by
  simp [offsetConditions, Request.pushed, offsetParams, Request.values, Param.width]

theorem widths_cursorConditions :
    widths (cursorConditions r).conditions = (.position, 2) :: r.pushed libs cursorParams := by
  simp [cursorConditions, Request.pushed, cursorParams, Request.values, Param.width]

/-- The values of a supplied parameter have the types its condition needs. -/
theorem Request.types_values {p : Param} {vs : List SqlValue} (h : r.values libs p = some vs)
    (sortBy : SortBy) : vs.map SqlValue.type = p.types sortBy := by
  cases p with
  | position => cases h
  | near =>
    rw [Request.values, PaginationParams.nearValues] at h
    split at h
    · rw [← Option.some.inj h]
      rfl
    · cases h
  | limit | offset =>
    rw [← Option.some.inj h]
    rfl
  | _ =>
    rcases Option.map_eq_some_iff.mp h with ⟨v, -, rfl⟩
    rfl

theorem Param.length_types (p : Param) (sortBy : SortBy) : (p.types sortBy).length = p.width := by
  cases p <;> rfl

theorem Request.length_values {p : Param} {vs : List SqlValue} (h : r.values libs p = some vs) :
    vs.length = p.width := by
  rw [← p.length_types .Ledger, ← r.types_values libs h .Ledger, List.length_map]

/-! ### The values that are bound -/

/-- The values of each parameter, the position's being those of the cursor. -/
def Request.bound (position : List SqlValue) (p : Param) : List SqlValue :=
  if p = .position then position else (r.values libs p).getD []

variable (position : List SqlValue)

theorem fromValues_bindOne {α : Type} {p : Param} {f : α → SqlValue} {v : Option α}
    (hp : p ≠ .position) (h : r.values libs p = v.map fun a => [f a]) :
    FromValues (r.bound libs position) (bindOne p f v) := by
  apply fromValues_bindAll
  rw [Request.bound, if_neg hp, h]

theorem fromValues_near :
    FromValues (r.bound libs position) (bindOpt .near r.nearValues) := fromValues_bindAll rfl

theorem fromValues_limit :
    FromValues (r.bound libs position) (bindAll .limit [.bigint r.effectiveLimit]) :=
  fromValues_bindAll rfl

theorem fromValues_sharedBinds : FromValues (r.bound libs position) (sharedBinds libs r) := by
  simp only [sharedBinds, fromValues_append, fromValues_near, and_true]
  and_intros <;> exact fromValues_bindOne libs r position (by decide) rfl

theorem fromValues_offsetBinds : FromValues (r.bound libs position) (offsetBinds libs r) := by
  have hoffset : FromValues (r.bound libs position) (bindAll .offset [.bigint r.offset]) :=
    fromValues_bindAll rfl
  simp only [offsetBinds, fromValues_append, fromValues_sharedBinds, fromValues_limit, hoffset,
    and_true]
  and_intros <;> exact fromValues_bindOne libs r position (by decide) rfl

theorem fromValues_cursorBinds {after : SqlValue} {cursorId : Uuid}
    {binds : List (Bind Param SqlValue)} (h : cursorBinds libs r after cursorId = .ok binds) :
    FromValues (r.bound libs [after, .uuid cursorId]) binds := by
  rcases bind_eq_ok h with ⟨dataPattern, hp, hbinds⟩
  have hpattern : r.values libs .dataPattern = dataPattern.map fun a => [.text a] := by
    rw [patternValue] at hp
    split at hp
    · next hd => rw [← Except.ok.inj hp, Request.values, hd]; rfl
    · next hd hpat => rw [← Except.ok.inj hp, Request.values, hd, hpat]; rfl
    · cases hp
  have hfirst : FromValues (r.bound libs [after, .uuid cursorId])
      (bindAll .position [after, .uuid cursorId]) := fromValues_bindAll rfl
  have hdata := fromValues_bindOne libs r [after, .uuid cursorId] (by decide) hpattern
  rw [← Except.ok.inj hbinds]
  simp only [fromValues_append, fromValues_near, fromValues_limit, hfirst, hdata, and_true, true_and]
  and_intros <;> exact fromValues_bindOne libs r _ (by decide) rfl

end

/-! ### What a statement selects -/

section
variable {libs : Libraries} {pg : Pg} {r : Request}

theorem all_congr_of_mem {α : Type} {l : List α} {F G : α → Bool} (h : ∀ a ∈ l, F a = G a) :
    l.all F = l.all G := by
  rw [Bool.eq_iff_iff, List.all_eq_true, List.all_eq_true]
  exact forall₂_congr fun a ha => by rw [h a ha]

/-- A condition of each supplied parameter holds with the values `val` gives. -/
def Request.satisfiesWith (libs : Libraries) (pg : Pg) (r : Request)
    (val : Param → List SqlValue) (ps : List Param) (row : EventRow) : Bool :=
  ps.all fun p => !(r.values libs p).isSome || p.holds pg r.sortColumn r.order row (val p)

theorem satisfiesWith_bound {position : List SqlValue} {ps : List Param} (hps : .position ∉ ps)
    (row : EventRow) :
    r.satisfiesWith libs pg (r.bound libs position) ps row = r.satisfies libs pg ps row := by
  rw [Request.satisfiesWith, Request.satisfies]
  apply all_congr_of_mem
  intro p hp
  have hne : p ≠ .position := fun h => hps (h ▸ hp)
  rw [Request.bound, if_neg hne]
  cases r.values libs p <;> rfl

theorem all_pushed {ps : List Param} (F : Param × ℕ → Bool) :
    (r.pushed libs ps).all F = ps.all fun p => !(r.values libs p).isSome || F (p, p.width) := by
  rw [Request.pushed, List.all_flatMap]
  apply List.all_congr rfl
  intro p
  cases (r.values libs p).isSome <;> simp

theorem all_widths {conds : List (Condition Param)} {W : List (Param × ℕ)} (hw : widths conds = W)
    {F : Condition Param → Bool} {G : Param → Bool} (h : ∀ c ∈ conds, F c = G c.param) :
    conds.all F = W.all fun pw => G pw.1 := by
  rw [← hw, widths, List.all_map]
  exact all_congr_of_mem h

/-- What is pushed is about a supplied parameter, with a placeholder for each of its values. -/
theorem mem_pushed {ps : List Param} {k : Param × ℕ} (hk : k ∈ r.pushed libs ps) :
    k.1 ∈ ps ∧ k.2 = k.1.width ∧ (r.values libs k.1).isSome := by
  rcases List.mem_flatMap.mp hk with ⟨p, hp, hguard⟩
  cases hs : (r.values libs p).isSome with
  | false =>
    rw [hs] at hguard
    cases hguard
  | true =>
    rw [hs, guarded_true, List.mem_singleton] at hguard
    rw [hguard]
    exact ⟨hp, rfl, hs⟩

theorem holes_of_widths {conds : List (Condition Param)} {ps : List Param}
    (hw : widths conds = r.pushed libs ps) {c : Condition Param} (hc : c ∈ conds) :
    c.param ∈ ps ∧ c.holes.length = c.param.width ∧ (r.values libs c.param).isSome :=
  mem_pushed (hw ▸ List.mem_map_of_mem hc : (c.param, c.holes.length) ∈ r.pushed libs ps)

/-- Where each condition is given the values of `val`, so is the row's selection. -/
theorem Query.selects_eq {q : Query} (val : Param → List SqlValue) {W : List (Param × ℕ)}
    (hw : widths q.conditions = W) (h : ∀ c ∈ q.conditions, args q.binds c = val c.param)
    (sortBy : SortBy) (order : SortOrder) (row : EventRow) :
    q.selects pg sortBy order row = W.all fun pw => pw.1.holds pg sortBy order row (val pw.1) := by
  rw [Query.selects]
  apply all_widths hw (G := fun p => p.holds pg sortBy order row (val p))
  intro c hc
  rw [h c hc]

/-- The values of a supplied parameter are taken; a JSONPath has to parse. -/
theorem accepts_values {p : Param} {vs : List SqlValue} (h : r.values libs p = some vs)
    (hp : p ≠ .dataPattern) (sortBy : SortBy) : p.accepts pg sortBy vs = true := by
  unfold Param.accepts
  rw [decide_eq_true (r.types_values libs h sortBy), Bool.true_and]
  split
  · exact absurd rfl hp
  · rfl

theorem bound_of_values {position : List SqlValue} {p : Param} {vs : List SqlValue}
    (hvs : r.values libs p = some vs) : r.bound libs position p = vs := by
  rw [Request.bound, if_neg, hvs, Option.getD_some]
  intro hpos
  rw [hpos] at hvs
  cases hvs

/-- A condition about a supplied parameter, numbered in step with the values. -/
theorem args_bound {conds : List (Condition Param)} {binds : List (Bind Param SqlValue)}
    {position : List SqlValue} (hag : Agrees conds binds)
    (hval : FromValues (r.bound libs position) binds) {c : Condition Param} (hc : c ∈ conds)
    {vs : List SqlValue} (hvs : r.values libs c.param = some vs)
    (hlen : c.holes.length = c.param.width) : args binds c = vs := by
  have hbound : r.bound libs position c.param = vs := bound_of_values hvs
  rw [hag.args_eq hval hc (by rw [hbound, hlen, r.length_values libs hvs]), hbound]

/-! ### The offset path -/

/-- The conditions and windows of the offset path, numbered in step with the values. -/
structure OffsetLike (libs : Libraries) (r : Request) (q : Query) : Prop where
  conditions : q.conditions = (offsetConditions r).conditions
  window : ∀ c ∈ q.window, (c.param = .limit ∨ c.param = .offset) ∧ c.holes.length = 1
  agrees : q.Agrees
  values : FromValues (r.bound libs []) q.binds

theorem OffsetLike.args_eq {q : Query} (hq : OffsetLike libs r q) {c : Condition Param}
    (hc : c ∈ q.conditions ++ q.window) :
    c.param ∈ .limit :: .offset :: offsetParams ∧
      r.values libs c.param = some (args q.binds c) := by
  have hsupplied : c.param ∈ .limit :: .offset :: offsetParams ∧
      c.holes.length = c.param.width ∧ (r.values libs c.param).isSome := by
    rcases List.mem_append.mp hc with hc | hc
    · rw [hq.conditions] at hc
      have h := holes_of_widths (widths_offsetConditions libs r) hc
      exact ⟨List.mem_cons_of_mem _ (List.mem_cons_of_mem _ h.1), h.2⟩
    · rcases hq.window c hc with ⟨hp | hp, hlen⟩ <;> rw [hp, hlen]
      · exact ⟨by decide, rfl, rfl⟩
      · exact ⟨by decide, rfl, rfl⟩
  rcases Option.isSome_iff_exists.mp hsupplied.2.2 with ⟨vs, hvs⟩
  refine ⟨hsupplied.1, ?_⟩
  rw [args_bound hq.agrees hq.values hc hvs hsupplied.2.1, hvs]

theorem OffsetLike.selects {q : Query} (hq : OffsetLike libs r q) (row : EventRow) :
    q.selects pg r.sortColumn r.order row = r.satisfies libs pg offsetParams row := by
  have hargs : ∀ c ∈ q.conditions, args q.binds c = r.bound libs [] c.param := by
    intro c hc
    exact (bound_of_values (hq.args_eq (List.mem_append_left _ hc)).2).symm
  have hbound : r.satisfiesWith libs pg (r.bound libs []) offsetParams row = _ :=
    satisfiesWith_bound (by decide) row
  have hw : widths q.conditions = r.pushed libs offsetParams := by
    rw [hq.conditions, widths_offsetConditions libs r]
  rw [Query.selects_eq _ hw hargs, all_pushed, ← hbound]
  rfl

theorem OffsetLike.runs {q : Query} (hq : OffsetLike libs r q) (sortBy : SortBy) :
    q.runs pg sortBy = true := by
  rw [Query.runs, Bool.and_eq_true, decide_eq_true_eq, List.all_eq_true]
  refine ⟨hq.agrees.1, ?_⟩
  intro c hc
  rcases hq.args_eq hc with ⟨hmem, hvs⟩
  apply accepts_values hvs
  intro hp
  rw [hp] at hmem
  exact absurd hmem (by decide)

theorem OffsetLike.select {q : Query} (hq : OffsetLike libs r q) (events : List EventRow) :
    q.select pg r.sortColumn r.order events
      = .ok (events.filter (r.satisfies libs pg offsetParams)) := by
  rw [Query.select, hq.runs, funext (@OffsetLike.selects libs pg r q hq)]
  rfl

theorem offsetLike_offsetQuery {q : Query} (hq : offsetQuery libs r = .ok q) :
    OffsetLike libs r q := by
  have hag := offsetQuery_agrees r hq
  rcases bind_eq_ok hq with ⟨_, -, hq⟩
  rw [← Except.ok.inj hq] at hag ⊢
  refine ⟨rfl, ?_, hag, fromValues_offsetBinds libs r []⟩
  intro c hc
  rcases List.mem_cons.mp hc with rfl | hc
  · exact ⟨.inl rfl, rfl⟩
  · rw [List.mem_singleton.mp hc]
    exact ⟨.inr rfl, rfl⟩

theorem offsetLike_countQuery (h : r.contractIdsList = [] ∧ r.contractIdPrefix = none) :
    OffsetLike libs r (countQuery libs r) := by
  refine ⟨rfl, fun c hc => absurd hc List.not_mem_nil, (countQuery_agrees_iff r).mpr h, ?_⟩
  rw [countQuery, fromValues_append]
  exact ⟨fromValues_bindOne libs r [] (by decide) rfl, fromValues_sharedBinds libs r []⟩

/-- The count fails where a filter of its `WHERE` is left without a value. -/
theorem countQuery_runs (sortBy : SortBy) :
    (countQuery libs r).runs pg sortBy = true ↔
      r.contractIdsList = [] ∧ r.contractIdPrefix = none := by
  constructor
  · intro h
    rw [Query.runs, Bool.and_eq_true, decide_eq_true_eq] at h
    have hlen := h.1
    -- As many values as keys, where the conditions have those of `contract_ids` and the prefix too.
    simp only [countQuery, List.append_nil] at hlen
    rw [(offsetConditions_numbers r).distinct, ← List.length_map (f := Bind.key), List.map_append,
      map_key_bindOne, map_key_sharedBinds] at hlen
    simp only [contractKeys, List.length_append] at hlen
    have hids : (supplied (nonempty r.contractIdsList).isSome Param.contractIds).length = 0 := by
      omega
    have hpre : (supplied r.contractIdPrefix.isSome Param.contractIdPrefix).length = 0 := by
      omega
    rw [List.length_eq_zero_iff] at hids hpre
    exact ⟨(contractIds_unsupplied r).mp hids, (prefix_unsupplied r).mp hpre⟩
  · intro h
    exact (offsetLike_countQuery h).runs sortBy

/-! ### The cursor path -/

/-- Whose value a condition of the cursor query is run with. -/
def Request.crossed (r : Request) (p : Param) : Param :=
  if r.search.isSome && r.dataPattern.isSome then
    match p with
    | .search => .dataPattern
    | .dataPattern => .search
    | p => p
  else p

/-- The text the `data_pattern` condition is run with. -/
def Request.boundPattern (r : Request) : Option String :=
  r.dataPattern.map fun path => r.search.getD (formatJsonpathFilter path (r.pattern.getD ""))

@[simp] theorem crossed_crossed (p : Param) : r.crossed (r.crossed p) = p := by
  unfold Request.crossed
  cases r.search.isSome && r.dataPattern.isSome with
  | false => rfl
  | true => cases p <;> rfl

theorem crossed_of_ne {p : Param} (hs : p ≠ .search) (hd : p ≠ .dataPattern) : r.crossed p = p := by
  unfold Request.crossed
  split
  · split
    · exact absurd rfl hs
    · exact absurd rfl hd
    · rfl
  · rfl

/-- A value takes the place of one of its own type only. -/
theorem types_crossed (p : Param) (sortBy : SortBy) : (r.crossed p).types sortBy = p.types sortBy := by
  unfold Request.crossed
  split
  · cases p <;> rfl
  · rfl

theorem width_crossed (p : Param) : (r.crossed p).width = p.width := by
  rw [← Param.length_types _ .Ledger, types_crossed, Param.length_types]

theorem isSome_values_crossed (p : Param) :
    (r.values libs (r.crossed p)).isSome = (r.values libs p).isSome := by
  unfold Request.crossed
  split
  · next h =>
    rw [Bool.and_eq_true] at h
    cases p <;> simp [Request.values, h.1, h.2]
  · rfl

@[simp] theorem map_supplied (σ : Param → Param) (s : Bool) (p : Param) :
    (supplied s p).map (fun k => (σ k.1, k.2)) = supplied s (σ p) := by
  cases s <;> rfl

/-- The two binds out of place change their names. -/
theorem map_crossed_keys :
    (patternKeys r ++ searchKeys r).map (fun k => (r.crossed k.1, k.2))
      = searchKeys r ++ patternKeys r := by
  rw [List.map_append, patternKeys, searchKeys, map_supplied, map_supplied, Request.crossed,
    Request.crossed]
  cases r.search <;> cases r.dataPattern <;> rfl

theorem map_crossed_near :
    (guarded r.nearValues.isSome (parts Param.near 3)).map (fun k => (r.crossed k.1, k.2))
      = guarded r.nearValues.isSome (parts Param.near 3) := by
  cases r.nearValues.isSome
  · rfl
  · simp [parts, crossed_of_ne]

section
variable {valText : String} {cursorId : Uuid} {q : Query}

/-- Under the names of the values they get, the conditions and binds of the cursor query agree. -/
theorem agrees_crossed (hq : cursorQuery libs r valText cursorId = .ok q) :
    Lib.Placeholders.Agrees (q.conditions ++ q.window) (relabel r.crossed q.binds) := by
  rcases cursorQuery_eq r hq with ⟨after, binds, -, hbinds, rfl⟩
  have hkeys : (binds.map Bind.key).map (fun k => (r.crossed k.1, k.2))
      = [(.position, 0), (.position, 1)] ++ contractKeys r ++ middleKeys r ++ topicKeys r
        ++ (searchKeys r ++ patternKeys r) ++ tailKeys r ++ networkKeys r ++ [(.limit, 0)] := by
    have hcontract : (contractKeys r).map (fun k => (r.crossed k.1, k.2)) = contractKeys r := by
      simp [contractKeys, crossed_of_ne]
    have hmiddle : (middleKeys r).map (fun k => (r.crossed k.1, k.2)) = middleKeys r := by
      simp [middleKeys, crossed_of_ne]
    have htopic : (topicKeys r).map (fun k => (r.crossed k.1, k.2)) = topicKeys r := by
      simp [topicKeys, crossed_of_ne]
    have htail : (tailKeys r).map (fun k => (r.crossed k.1, k.2)) = tailKeys r := by
      simp [tailKeys, crossed_of_ne, map_crossed_near]
    have hnetwork : (networkKeys r).map (fun k => (r.crossed k.1, k.2)) = networkKeys r := by
      simp [networkKeys, crossed_of_ne]
    rw [map_key_cursorBinds r hbinds]
    simp only [List.map_append, hcontract, hmiddle, htopic, htail, hnetwork]
    rw [← List.map_append, map_crossed_keys]
    simp [crossed_of_ne]
  rw [← map_key_relabel] at hkeys
  exact (agrees_window (cursorConditions_numbers r) _).mpr hkeys

/-- Each condition of the cursor query has the values of the parameter it is crossed with. -/
theorem args_cursorQuery (hq : cursorQuery libs r valText cursorId = .ok q) :
    ∃ after, positionValue libs r valText = .ok after ∧
      ∀ c ∈ q.conditions ++ q.window, c.param ∈ .position :: .limit :: cursorParams ∧
        args q.binds c = r.bound libs [after, .uuid cursorId] (r.crossed c.param) ∧
        (c.param = .position ∨ (r.values libs c.param).isSome) := by
  have hag := agrees_crossed hq
  rcases cursorQuery_eq r hq with ⟨after, binds, hafter, hbinds, rfl⟩
  refine ⟨after, hafter, ?_⟩
  intro c hc
  -- every bind has the values of the parameter that it is crossed with
  have hval : FromValues (fun p => r.bound libs [after, .uuid cursorId] (r.crossed p))
      (relabel r.crossed binds) := by
    apply (fromValues_cursorBinds libs r hbinds).relabel
    intro p
    rw [crossed_crossed]
  -- each condition belongs to a parameter that was supplied, or to the position
  have hsupplied : c.param ∈ .position :: .limit :: cursorParams ∧
      c.holes.length = c.param.width ∧
      (c.param = .position ∨ (r.values libs c.param).isSome) := by
    rcases List.mem_append.mp hc with hc | hc
    · have hmem := List.mem_map_of_mem (f := fun c => (c.param, c.holes.length)) hc
      rw [← widths, widths_cursorConditions libs r, List.mem_cons, Prod.mk.injEq] at hmem
      rcases hmem with ⟨hp, hlen⟩ | hmem
      · rw [hp, hlen]
        exact ⟨by decide, rfl, .inl rfl⟩
      · have h := mem_pushed hmem
        exact ⟨List.mem_cons_of_mem _ (List.mem_cons_of_mem _ h.1), h.2.1, .inr h.2.2⟩
    · rw [List.mem_singleton.mp hc]
      exact ⟨List.mem_cons_of_mem _ List.mem_cons_self, rfl, .inr rfl⟩
  refine ⟨hsupplied.1, ?_, hsupplied.2.2⟩
  rw [← args_relabel r.crossed, hag.args_eq hval hc]
  rw [hsupplied.2.1, ← width_crossed (r := r)]
  rcases hsupplied.2.2 with hp | hs  -- the position is crossed with nothing
  · rw [hp, crossed_of_ne (by decide) (by decide)]
    rfl
  · rw [← isSome_values_crossed] at hs
    rcases Option.isSome_iff_exists.mp hs with ⟨vs, hvs⟩
    rw [bound_of_values hvs, r.length_values libs hvs]

/-- The values of the cursor query's conditions, but for the position. -/
def Request.crossedValues (libs : Libraries) (r : Request) (p : Param) : List SqlValue :=
  (r.values libs (r.crossed p)).getD []

/-- The `WHERE` clause but for the position: what some page of the walk can return. -/
def Query.reaches (q : Query) (pg : Pg) (sortBy : SortBy) (order : SortOrder) (row : EventRow) :
    Bool :=
  ({ q with conditions := q.conditions.filter (·.param ≠ .position) } : Query).selects pg sortBy order
    row

theorem type_positionValue {after : SqlValue} (h : positionValue libs r valText = .ok after) :
    after.type = if r.sortColumn = .Ledger then .bigint else .timestamptz := by
  rw [positionValue] at h
  split at h
  · next hs =>
    split at h
    · rw [← Except.ok.inj h, hs]
      rfl
    · cases h
  all_goals
    next hs =>
      split at h
      · rw [← Except.ok.inj h, hs]
        rfl
      · cases h

theorem types_crossedValues {p : Param} (hs : (r.values libs p).isSome) (sortBy : SortBy) :
    (r.crossedValues libs p).map SqlValue.type = p.types sortBy := by
  rw [← isSome_values_crossed] at hs
  rcases Option.isSome_iff_exists.mp hs with ⟨vs, hvs⟩
  rw [Request.crossedValues, hvs, Option.getD_some, r.types_values libs hvs, types_crossed]

/-- The value of the `data_pattern` condition is the search text where there is one. -/
theorem crossedValues_dataPattern {path : String} (h : r.dataPattern = some path) :
    ∃ t, r.boundPattern = some t ∧ r.crossedValues libs .dataPattern = [.text t] := by
  rw [Request.boundPattern, Request.crossedValues, Request.crossed, h]
  cases hs : r.search <;> simp [Request.values, h, hs]

theorem bound_crossed {position : List SqlValue} {p : Param} (hp : p ≠ .position) :
    r.bound libs position (r.crossed p) = r.crossedValues libs p := by
  have hne : r.crossed p ≠ .position := by
    intro h
    rw [← crossed_crossed (r := r) p, h, crossed_of_ne (by decide) (by decide)] at hp
    exact hp rfl
  rw [Request.bound, if_neg hne, Request.crossedValues]

theorem accepts_crossedValues {p : Param} (hs : (r.values libs p).isSome) (hp : p ≠ .dataPattern)
    (sortBy : SortBy) : p.accepts pg sortBy (r.crossedValues libs p) = true := by
  unfold Param.accepts
  rw [decide_eq_true (types_crossedValues hs sortBy), Bool.true_and]
  split
  · exact absurd rfl hp
  · rfl

/-- A cursor query that is issued runs unless the JSONPath it is given does not parse. -/
theorem cursorQuery_runs (hq : cursorQuery libs r valText cursorId = .ok q) :
    q.runs pg r.sortColumn = true ↔ ∀ t, r.boundPattern = some t → pg.jsonpathValid t = true := by
  rcases args_cursorQuery hq with ⟨after, hafter, hargs⟩
  have hlen := (agrees_crossed hq).1
  rw [relabel, List.length_map] at hlen
  rw [Query.runs, hlen, decide_eq_true rfl, Bool.true_and, List.all_eq_true]
  -- a placeholder of data_pattern holds what is bound as the pattern, which the window's cannot be
  have hpattern : ∀ c ∈ q.conditions ++ q.window, c.param = .dataPattern →
      ∃ t, r.boundPattern = some t ∧
        c.param.accepts pg r.sortColumn (args q.binds c) = pg.jsonpathValid t := by
    intro c hc hp
    rcases hargs c hc with ⟨-, hval, hs⟩
    rw [hp, bound_crossed (by decide)] at hval
    rcases hs with hpos | hs
    · rw [hp] at hpos
      cases hpos
    rw [hp, Request.values, Option.isSome_map] at hs
    rcases Option.isSome_iff_exists.mp hs with ⟨path, hpath⟩
    rcases @crossedValues_dataPattern libs r path hpath with ⟨t, ht, hv⟩
    refine ⟨t, ht, ?_⟩
    rw [hval, hv, hp]
    rfl
  constructor
  · intro h t ht
    rcases Option.map_eq_some_iff.mp ht with ⟨path, hpath, -⟩
    -- a JSONPath that is given has its condition in the query
    have hmem : (Param.dataPattern, 1) ∈ widths q.conditions := by
      rcases cursorQuery_eq r hq with ⟨_, _, -, -, rfl⟩
      rw [widths_cursorConditions libs r]
      refine List.mem_cons_of_mem _ (List.mem_flatMap.mpr ⟨.dataPattern, by decide, ?_⟩)
      simp [Request.values, hpath, Param.width]
    rcases List.mem_map.mp hmem with ⟨c, hc, hcp⟩
    rw [Prod.mk.injEq] at hcp
    have hc' := List.mem_append_left q.window hc
    rcases hpattern c hc' hcp.1 with ⟨t', ht', haccepts⟩
    rw [ht] at ht'
    rw [Option.some.inj ht', ← haccepts]
    exact h c hc'
  · intro h c hc
    rcases hargs c hc with ⟨-, hval, hs⟩
    by_cases hp : c.param = .dataPattern
    · rcases hpattern c hc hp with ⟨t, ht, haccepts⟩
      rw [haccepts]
      exact h t ht
    · -- the position, or a parameter whose values PostgreSQL always takes
      rcases hs with hpos | hs
      · rw [hval, hpos, crossed_of_ne (by decide) (by decide), Request.bound, if_pos rfl,
          Param.accepts, Param.types, List.map_cons, type_positionValue hafter]
        simp [SqlValue.type]
        rintro - ⟨⟩
      · rw [hval, bound_crossed]
        · exact accepts_crossedValues hs hp _
        · intro hpos
          rw [hpos] at hs
          cases hs

/-- The rows of a page: past the position, and through every filter the cursor path knows. -/
theorem cursorQuery_selects (hq : cursorQuery libs r valText cursorId = .ok q) :
    ∃ after, positionValue libs r valText = .ok after ∧ ∀ row,
      q.selects pg r.sortColumn r.order row
        = (Param.position.holds pg r.sortColumn r.order row [after, .uuid cursorId] &&
          r.satisfiesWith libs pg (r.crossedValues libs) cursorParams row) := by
  rcases args_cursorQuery hq with ⟨after, hafter, hargs⟩
  refine ⟨after, hafter, fun row => ?_⟩
  have hw : widths q.conditions = (.position, 2) :: r.pushed libs cursorParams := by
    rcases cursorQuery_eq r hq with ⟨_, _, -, -, rfl⟩
    exact widths_cursorConditions libs r
  obtain ⟨val, hval⟩ : ∃ val : Param → List SqlValue,
      ∀ p, val p = r.bound libs [after, .uuid cursorId] (r.crossed p) := ⟨_, fun _ => rfl⟩
  have hargs' : ∀ c ∈ q.conditions, args q.binds c = val c.param := by
    intro c hc
    rw [hval, (hargs c (List.mem_append_left _ hc)).2.1]
  rw [Query.selects_eq val hw hargs', List.all_cons, hval, crossed_of_ne (by decide) (by decide),
    Request.bound, if_pos rfl, all_pushed]
  congr 1
  apply all_congr_of_mem
  intro p hp
  rw [hval, bound_crossed]
  rintro rfl
  exact absurd hp (by decide)

theorem cursorQuery_reaches (hq : cursorQuery libs r valText cursorId = .ok q) (row : EventRow) :
    q.reaches pg r.sortColumn r.order row
      = r.satisfiesWith libs pg (r.crossedValues libs) cursorParams row := by
  rcases args_cursorQuery hq with ⟨after, hafter, hargs⟩
  have hw : widths (q.conditions.filter (·.param ≠ .position)) = r.pushed libs cursorParams := by
    have hfilter : widths (q.conditions.filter (·.param ≠ .position))
        = (widths q.conditions).filter (·.1 ≠ .position) := by
      rw [widths, widths, List.filter_map]
      rfl
    have hpushed : ∀ k ∈ r.pushed libs cursorParams, decide (k.1 ≠ Param.position) = true := by
      intro k hk
      rw [decide_eq_true_eq]
      intro hpos
      have hmem := (mem_pushed hk).1
      rw [hpos] at hmem
      exact absurd hmem (by decide)
    rcases cursorQuery_eq r hq with ⟨_, _, -, -, rfl⟩
    rw [hfilter, widths_cursorConditions libs r, List.filter_cons_of_neg (by simp),
      List.filter_eq_self.mpr hpushed]
  rw [Query.reaches, Query.selects_eq (r.crossedValues libs) hw, all_pushed]
  · rfl
  · intro c hc
    rcases List.mem_filter.mp hc with ⟨hc, hpos⟩
    rw [decide_eq_true_eq] at hpos
    rw [(hargs c (List.mem_append_left _ hc)).2.1, bound_crossed hpos]

end

end

end SorobanPulse.Events
