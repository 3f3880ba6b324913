import SorobanPulse.Lib.Placeholders

/-! `EventQueryBuilder`: SQL texts whose placeholders are numbered as they are written.

        add_complex_filter …        $1 … $n        when it is called
        with_filters                $n+1 … $n+w    when the query is built
        LIMIT, OFFSET               $n+w+1, $n+w+2

    The bind count is w + 2: it knows the filters and not the complex filters. A complex filter with
    a list takes a number and does not write it. -/

namespace SorobanPulse.Events
open Lib

/-! ### Parts -/

inductive FilterOp where
  | Equals | NotEquals | GreaterThan | LessThan | GreaterThanOrEqual | LessThanOrEqual | In | Like
  deriving DecidableEq, Repr

def FilterOp.asSql : FilterOp → String
  | .Equals => "="
  | .NotEquals => "!="
  | .GreaterThan => ">"
  | .LessThan => "<"
  | .GreaterThanOrEqual => ">="
  | .LessThanOrEqual => "<="
  | .In => "IN"
  | .Like => "LIKE"

structure EventFilters where
  contractId : Option String := none
  fromLedger : Option ℤ := none
  toLedger : Option ℤ := none
  eventType : Option String := none
  tenantId : Option String := none

inductive SortDirection where
  | Asc | Desc
  deriving DecidableEq, Repr

def SortDirection.text : SortDirection → String
  | .Asc => "ASC"
  | .Desc => "DESC"

def MAX_LIMIT : UInt64 := 1000

def DEFAULT_LIMIT : UInt64 := 20

/-- `u64::saturating_sub`. -/
def saturatingSub (a b : UInt64) : UInt64 := if b ≤ a then a - b else 0

/-- `u64::saturating_mul`. -/
def saturatingMul (a b : UInt64) : UInt64 := UInt64.ofNat (min (a.toNat * b.toNat) (2 ^ 64 - 1))

structure Pagination where
  page : UInt64 := 1
  limit : UInt64 := DEFAULT_LIMIT

def Pagination.offset (p : Pagination) : UInt64 := saturatingMul (saturatingSub p.page 1) p.limit

/-- `Pagination::limit`. -/
def Pagination.sqlLimit (p : Pagination) : UInt64 := min p.limit MAX_LIMIT

/-! ### The builder -/

structure EventQueryBuilder where
  filters : EventFilters := {}
  pagination : Pagination := {}
  sortColumn : String := "ledger"
  sortDirection : SortDirection := .Desc
  paramIdx : ℕ := 0
  whereClauses : List String := []

namespace EventQueryBuilder

def BASE_COLS : String :=
  "id, contract_id, event_type, tx_hash, ledger, timestamp, event_data, created_at"

def SORT_COLUMNS : List String := ["ledger", "timestamp", "created_at", "id"]

def withWhereClause (b : EventQueryBuilder) (clause : String) : EventQueryBuilder :=
  { b with whereClauses := b.whereClauses ++ [clause] }

def withFilters (b : EventQueryBuilder) (filters : EventFilters) : EventQueryBuilder :=
  { b with filters }

def paginate (b : EventQueryBuilder) (page limit : UInt64) : EventQueryBuilder :=
  { b with pagination := { page, limit := min limit MAX_LIMIT } }

def sortBy (b : EventQueryBuilder) (column : String) (direction : SortDirection) :
    EventQueryBuilder :=
  if SORT_COLUMNS.contains column then
    { b with sortColumn := column, sortDirection := direction }
  else b

def paramText (n : ℕ) : String := "$" ++ toString n

/-- `next_param`. -/
def nextParam (b : EventQueryBuilder) : String × EventQueryBuilder :=
  (paramText (b.paramIdx + 1), { b with paramIdx := b.paramIdx + 1 })

/-- The number is taken also where the clause lists its values. -/
def addComplexFilter (b : EventQueryBuilder) (column : String) (op : FilterOp)
    (value : Option String) : EventQueryBuilder :=
  let (param, b) := b.nextParam
  match op, value with
  | .In, some value => b.withWhereClause s!"{column} IN ({value})"
  | op, _ =>
    let sql := op.asSql
    b.withWhereClause s!"{column} {sql} {param}"

/-- One filter of `build_where_clauses`. -/
def pushFilter (isSome : Bool) (before after : String) (s : List String × EventQueryBuilder) :
    List String × EventQueryBuilder :=
  if isSome then
    let (param, b) := s.2.nextParam
    (s.1 ++ [before ++ param ++ after], b)
  else s

/-- The clauses of the filters. -/
def filterClauses (b : EventQueryBuilder) : List String × EventQueryBuilder :=
  (([], b) : List String × EventQueryBuilder)
    |> pushFilter b.filters.tenantId.isSome "tenant_id = " ""
    |> pushFilter b.filters.contractId.isSome "contract_id = " ""
    |> pushFilter b.filters.eventType.isSome "LOWER(event_type) = LOWER(" ")"
    |> pushFilter b.filters.fromLedger.isSome "ledger >= " ""
    |> pushFilter b.filters.toLedger.isSome "ledger <= " ""

def whereText (clauses : List String) : String :=
  if clauses = [] then "" else "WHERE " ++ " AND ".intercalate clauses

/-- `build_where_clauses`. -/
def buildWhereClauses (b : EventQueryBuilder) : String × EventQueryBuilder :=
  let (clauses, b) := b.filterClauses
  (whereText (clauses ++ b.whereClauses), { b with whereClauses := [] })

/-- `build`: the data SQL and the count SQL. -/
def build (b : EventQueryBuilder) : String × String :=
  let (whereClause, b) := b.buildWhereClauses
  let direction := b.sortDirection.text
  let order := "ORDER BY " ++ b.sortColumn ++ " " ++ direction ++ ", id " ++ direction
  let (limitParam, b) := b.nextParam
  let (offsetParam, _) := b.nextParam
  ("SELECT " ++ BASE_COLS ++ " FROM events " ++ whereClause ++ " " ++ order ++
      " LIMIT " ++ limitParam ++ " OFFSET " ++ offsetParam,
    "SELECT COUNT(*) FROM events " ++ whereClause)

def whereParamCount (b : EventQueryBuilder) : ℕ :=
  [b.filters.tenantId.isSome, b.filters.contractId.isSome, b.filters.eventType.isSome,
    b.filters.fromLedger.isSome, b.filters.toLedger.isSome].countP (· = true)

def bindCount (b : EventQueryBuilder) : ℕ := b.whereParamCount + 2

end EventQueryBuilder

/-! ### Sequences of calls -/

/-- The placeholders of a text. -/
def holes (text : String) : List ℕ := placeholders text.toList

/-- A clause that the caller writes, without placeholders. -/
def PlainClause : Type := {text : String // holes text = []}

inductive Call where
  | withFilters (filters : EventFilters)
  | addComplexFilter (column : String) (op : FilterOp) (value : Option String)
  | withWhereClause (clause : PlainClause)
  | sortBy (column : String) (direction : SortDirection)
  | paginate (page limit : UInt64)

def Call.apply (b : EventQueryBuilder) : Call → EventQueryBuilder
  | .withFilters filters => b.withFilters filters
  | .addComplexFilter column op value => b.addComplexFilter column op value
  | .withWhereClause clause => b.withWhereClause clause.val
  | .sortBy column direction => b.sortBy column direction
  | .paginate page limit => b.paginate page limit

/-- `EventQueryBuilder::new()` and the calls. -/
def builder (calls : List Call) : EventQueryBuilder := calls.foldl Call.apply {}

def Call.isComplex : Call → Bool
  | .addComplexFilter _ _ _ => true
  | _ => false

/-! ### What the numbering is for -/

/-- The bind count tells the placeholders of the data SQL; the count SQL has those of the conditions,
    and `LIMIT` and `OFFSET` have the last two. -/
structure Numbered (b : EventQueryBuilder) : Prop where
  data : ∀ n, n ∈ holes b.build.1 ↔ 1 ≤ n ∧ n ≤ b.bindCount
  count : ∀ n, n ∈ holes b.build.2 ↔ n ∈ holes b.buildWhereClauses.1
  window : ∃ text limit offset,
    b.build.1 = text ++ " LIMIT " ++ EventQueryBuilder.paramText limit ++ " OFFSET " ++
      EventQueryBuilder.paramText offset ∧
    (∀ n ∈ holes text, n < limit) ∧ limit < offset

/-! ### Placeholders of texts -/

section
variable {s t : String} {n : ℕ}

theorem holes_append (h : Detached t.toList) : holes (s ++ t) = holes s ++ holes t := by
  rw [holes, String.toList_append, placeholders_append h]
  rfl

theorem holes_append_left (h : '$' ∉ s.toList) : holes (s ++ t) = holes t := by
  rw [holes, String.toList_append, placeholders_append_left h]
  rfl

theorem holes_eq_nil (h : '$' ∉ s.toList) : holes s = [] := placeholders_eq_nil h

theorem toList_paramText (n : ℕ) :
    (EventQueryBuilder.paramText n).toList = '$' :: Nat.toDigits 10 n := by
  have hdigits : (toString n).toList = Nat.toDigits 10 n := Nat.toList_repr
  rw [EventQueryBuilder.paramText, String.toList_append, hdigits]
  rfl

@[simp] theorem holes_paramText (n : ℕ) : holes (EventQueryBuilder.paramText n) = [n] := by
  rw [holes, toList_paramText, placeholders_param]

theorem detached_append (h : Detached s.toList) (hne : s.toList ≠ []) : Detached (s ++ t).toList := by
  rw [String.toList_append]
  exact h.append hne

/-- A filter's clause has its number. -/
theorem holes_clause {before after : String} (hbefore : '$' ∉ before.toList)
    (hafter : '$' ∉ after.toList) (hdetached : Detached after.toList) :
    holes (before ++ EventQueryBuilder.paramText n ++ after) = [n] := by
  rw [holes_append hdetached, holes_append_left hbefore, holes_eq_nil hafter, holes_paramText]
  rfl

theorem holes_intercalate (clauses : List String) :
    holes (" AND ".intercalate clauses) = clauses.flatMap holes := by
  induction clauses with
  | nil => rfl
  | cons c clauses ih =>
    cases clauses with
    | nil => simp
    | cons d clauses =>
      have hdetached : Detached (" AND " ++ " AND ".intercalate (d :: clauses)).toList :=
        detached_append (by decide) (by decide)
      rw [String.intercalate_cons_cons, String.append_assoc, holes_append hdetached,
        holes_append_left (by decide), ih]
      rfl

theorem holes_whereText (clauses : List String) :
    holes (EventQueryBuilder.whereText clauses) = clauses.flatMap holes := by
  rw [EventQueryBuilder.whereText]
  split
  · next h =>
    rw [h]
    rfl
  · rw [holes_append_left (by decide), holes_intercalate]

end

/-! ### The texts of a builder -/

namespace EventQueryBuilder

section
variable (b : EventQueryBuilder)

/-- So many filters were pushed, and they have the next numbers. -/
def Pushed (w : ℕ) (s : List String × EventQueryBuilder) : Prop :=
  s.1.flatMap holes = List.range' (b.paramIdx + 1) w ∧ s.2 = { b with paramIdx := b.paramIdx + w }

variable {b} in
theorem pushed_pushFilter {w : ℕ} {s : List String × EventQueryBuilder} {isSome : Bool}
    {before after : String} (h : b.Pushed w s) (hbefore : '$' ∉ before.toList)
    (hafter : '$' ∉ after.toList) (hdetached : Detached after.toList) :
    b.Pushed (w + isSome.toNat) (pushFilter isSome before after s) := by
  obtain ⟨hholes, hb⟩ := h
  cases isSome with
  | false => exact ⟨hholes, hb⟩
  | true =>
    refine ⟨?_, ?_⟩
    · rw [pushFilter, if_pos rfl, nextParam]
      dsimp only
      rw [List.flatMap_append, hholes, hb, List.flatMap_singleton,
        holes_clause hbefore hafter hdetached, Bool.toNat_true, List.range'_1_concat]
      rw [Nat.add_right_comm]
    · rw [pushFilter, if_pos rfl, nextParam, hb]
      rfl

/-- The clauses of the filters have the next numbers, one each. -/
theorem pushed_filterClauses : b.Pushed b.whereParamCount b.filterClauses := by
  have hstart : b.Pushed 0 ([], b) := ⟨rfl, rfl⟩
  have hcount : b.whereParamCount = 0 + b.filters.tenantId.isSome.toNat +
      b.filters.contractId.isSome.toNat + b.filters.eventType.isSome.toNat +
      b.filters.fromLedger.isSome.toNat + b.filters.toLedger.isSome.toNat := by
    have hbit : ∀ x : Bool, (if decide (x = true) = true then 1 else 0) = x.toNat := by decide
    simp only [whereParamCount, List.countP_cons, List.countP_nil, hbit]
    omega
  rw [hcount]
  unfold filterClauses
  iterate 5
    refine pushed_pushFilter ?_ (by rw [String.toList_ofList]; decide) (by decide) (by decide)
  exact hstart

theorem holes_where : holes b.buildWhereClauses.1 =
    List.range' (b.paramIdx + 1) b.whereParamCount ++ b.whereClauses.flatMap holes := by
  obtain ⟨hclauses, hb⟩ := b.pushed_filterClauses
  rw [buildWhereClauses]
  dsimp only
  rw [holes_whereText, List.flatMap_append, hclauses, hb]

theorem buildWhereClauses_snd : b.buildWhereClauses.2 =
    { b with paramIdx := b.paramIdx + b.whereParamCount, whereClauses := [] } := by
  obtain ⟨-, hb⟩ := b.pushed_filterClauses
  rw [buildWhereClauses]
  dsimp only
  rw [hb]

/-- Sorting is by one of four columns. -/
def Sorted : Prop := SORT_COLUMNS.contains b.sortColumn = true

def orderText : String :=
  let direction := b.sortDirection.text
  "ORDER BY " ++ b.sortColumn ++ " " ++ direction ++ ", id " ++ direction

/-- The text in front of `LIMIT`. -/
def dataText : String :=
  "SELECT " ++ BASE_COLS ++ " FROM events " ++ b.buildWhereClauses.1 ++ " " ++ b.orderText

theorem build_fst : b.build.1 =
    b.dataText ++ " LIMIT " ++ paramText (b.paramIdx + b.whereParamCount + 1) ++ " OFFSET " ++
      paramText (b.paramIdx + b.whereParamCount + 2) := by
  have hwhere := b.buildWhereClauses_snd
  unfold build
  dsimp only [nextParam]
  rw [dataText, orderText, hwhere]

variable {b} in
theorem dollar_not_mem_orderText (hsorted : b.Sorted) : '$' ∉ b.orderText.toList := by
  have hcolumns : ∀ c ∈ SORT_COLUMNS, '$' ∉ c.toList := by decide
  have hdirection : '$' ∉ b.sortDirection.text.toList := by
    cases b.sortDirection <;> decide
  have hcolumn := hcolumns _ (List.contains_iff_mem.mp hsorted)
  simp [orderText, hcolumn, hdirection]

theorem dollar_not_mem_baseCols : '$' ∉ BASE_COLS.toList := by
  rw [BASE_COLS, String.toList_ofList]
  decide

variable {b} in
theorem holes_dataText (hsorted : b.Sorted) : holes b.dataText = holes b.buildWhereClauses.1 := by
  have hdetached : Detached (" " ++ b.orderText).toList := detached_append (by decide) (by decide)
  have horder : '$' ∉ (" " ++ b.orderText).toList := by
    simp [dollar_not_mem_orderText hsorted]
  have hselect : '$' ∉ ("SELECT " ++ BASE_COLS ++ " FROM events ").toList := by
    rw [String.toList_append, String.toList_append, List.mem_append, List.mem_append, not_or,
      not_or]
    exact ⟨⟨by decide, dollar_not_mem_baseCols⟩, by decide⟩
  rw [dataText, String.append_assoc, holes_append hdetached, holes_append_left hselect,
    holes_eq_nil horder, List.append_nil]

variable {b} in
/-- The placeholders of the data SQL: those of the conditions, and two more. -/
theorem holes_data (hsorted : b.Sorted) : holes b.build.1 =
    holes b.buildWhereClauses.1 ++
      [b.paramIdx + b.whereParamCount + 1, b.paramIdx + b.whereParamCount + 2] := by
  have hlimit : ∀ t : String, Detached (" LIMIT " ++ t).toList := fun _ =>
    detached_append (by decide) (by decide)
  have hoffset : ∀ t : String, Detached (" OFFSET " ++ t).toList := fun _ =>
    detached_append (by decide) (by decide)
  have hlimitText : '$' ∉ " LIMIT ".toList := by decide
  have hoffsetText : '$' ∉ " OFFSET ".toList := by decide
  rw [build_fst]
  simp only [String.append_assoc]
  rw [holes_append (hlimit _), holes_append_left hlimitText, holes_append (hoffset _),
    holes_append_left hoffsetText, holes_paramText, holes_paramText, holes_dataText hsorted]
  rfl

theorem holes_count : holes b.build.2 = holes b.buildWhereClauses.1 := by
  have hselect : '$' ∉ "SELECT COUNT(*) FROM events ".toList := by
    rw [String.toList_ofList]
    decide
  unfold build
  dsimp only
  rw [holes_append_left hselect]

/-! ### Sequences -/

/-- What calls keep: the column is one of the four, and as long as no number was taken there are no
    placeholders in the clauses. -/
structure Kept (b : EventQueryBuilder) : Prop where
  sorted : b.Sorted
  plain : b.paramIdx = 0 → b.whereClauses.flatMap holes = []

variable {b}

theorem kept_withWhereClause {clause : String} (h : b.Kept)
    (hclause : b.paramIdx = 0 → holes clause = []) : (b.withWhereClause clause).Kept where
  sorted := h.sorted
  plain hidx := by
    rw [withWhereClause, List.flatMap_append, h.plain hidx, List.flatMap_singleton, hclause hidx]
    rfl

/-- A complex filter takes a number. -/
theorem paramIdx_addComplexFilter {column : String} {op : FilterOp} {value : Option String} :
    (b.addComplexFilter column op value).paramIdx = b.paramIdx + 1 := by
  rw [addComplexFilter]
  dsimp only [nextParam]
  split <;> rfl

theorem kept_addComplexFilter {column : String} {op : FilterOp} {value : Option String}
    (h : b.Kept) : (b.addComplexFilter column op value).Kept where
  sorted := by
    rw [addComplexFilter]
    dsimp only [nextParam]
    split <;> exact h.sorted
  plain hidx := by
    rw [paramIdx_addComplexFilter] at hidx
    cases hidx

theorem kept_apply (h : b.Kept) (c : Call) : (c.apply b).Kept := by
  cases c with
  | withFilters filters => exact ⟨h.sorted, h.plain⟩
  | addComplexFilter column op value => exact kept_addComplexFilter h
  | withWhereClause clause => exact kept_withWhereClause h fun _ => clause.property
  | paginate page limit => exact ⟨h.sorted, h.plain⟩
  | sortBy column direction =>
    rw [Call.apply, sortBy]
    split
    · next hcolumn => exact ⟨hcolumn, h.plain⟩
    · exact h

theorem paramIdx_apply (c : Call) : (c.apply b).paramIdx = b.paramIdx + c.isComplex.toNat := by
  cases c with
  | addComplexFilter column op value => exact paramIdx_addComplexFilter
  | sortBy column direction =>
    rw [Call.apply, sortBy]
    split <;> rfl
  | withFilters _ | withWhereClause _ | paginate _ _ => rfl

theorem kept_foldl (h : b.Kept) (calls : List Call) :
    (calls.foldl Call.apply b).Kept ∧
      (calls.foldl Call.apply b).paramIdx = b.paramIdx + calls.countP (·.isComplex) := by
  induction calls generalizing b with
  | nil => exact ⟨h, rfl⟩
  | cons c calls ih =>
    obtain ⟨hkept, hidx⟩ := ih (kept_apply h c)
    refine ⟨hkept, ?_⟩
    rw [List.foldl_cons, hidx, paramIdx_apply, List.countP_cons]
    cases c.isComplex <;> simp [Nat.add_comm, Nat.add_left_comm]

theorem kept_new : ({} : EventQueryBuilder).Kept where
  sorted := rfl
  plain _ := rfl

theorem paramIdx_builder (calls : List Call) :
    (builder calls).paramIdx = calls.countP (·.isComplex) := by
  have hidx := (kept_foldl kept_new calls).2
  rwa [Nat.zero_add] at hidx

/-- Without complex filters the conditions have the numbers of the filters. -/
theorem mem_holes_where (h : b.Kept) (hidx : b.paramIdx = 0) {n : ℕ} :
    n ∈ holes b.buildWhereClauses.1 ↔ 1 ≤ n ∧ n ≤ b.whereParamCount := by
  rw [holes_where, h.plain hidx, hidx, List.append_nil, List.mem_range'_1]
  omega

/-- A builder that took no number before it is built is numbered, and no other. -/
theorem numbered_iff (h : b.Kept) : Numbered b ↔ b.paramIdx = 0 := by
  constructor
  · intro hnum
    have hoffset : b.paramIdx + b.whereParamCount + 2 ∈ holes b.build.1 := by
      rw [holes_data h.sorted]
      simp
    have hle := ((hnum.data _).mp hoffset).2
    rw [bindCount] at hle
    omega
  · intro hidx
    refine ⟨fun n => ?_, fun n => ?_, b.dataText, _, _, b.build_fst, fun n hn => ?_, ?_⟩
    · rw [holes_data h.sorted, List.mem_append, mem_holes_where h hidx, bindCount, hidx]
      simp only [List.mem_cons, List.not_mem_nil, or_false]
      omega
    · rw [holes_count]
    · rw [holes_dataText h.sorted, mem_holes_where h hidx] at hn
      omega
    · omega

end

end EventQueryBuilder

/-- The numbering is right for every sequence of calls without a complex filter, and for no other. -/
theorem numbered_builder_iff (calls : List Call) :
    Numbered (builder calls) ↔ ∀ c ∈ calls, c.isComplex = false := by
  have hkept : (builder calls).Kept :=
    (EventQueryBuilder.kept_foldl EventQueryBuilder.kept_new calls).1
  rw [EventQueryBuilder.numbered_iff hkept, EventQueryBuilder.paramIdx_builder, List.countP_eq_zero]
  simp

/-! ### Pages -/

/-- `u64::MAX`. -/
def U64_LAST : ℕ := 2 ^ 64 - 1

/-- The second page begins where the first one ends. -/
def Adjacent (p q : Pagination) : Prop := q.offset.toNat = p.offset.toNat + p.sqlLimit.toNat

section
variable {b : EventQueryBuilder} {page limit : UInt64}

theorem toNat_saturatingMul (m n : UInt64) :
    (saturatingMul m n).toNat = min (m.toNat * n.toNat) U64_LAST := by
  rw [saturatingMul, UInt64.toNat_ofNat', U64_LAST]
  exact Nat.mod_eq_of_lt (by omega)

theorem toNat_saturatingSub_one (h : 1 ≤ page) :
    (saturatingSub page 1).toNat = page.toNat - 1 := by
  rw [saturatingSub, if_pos h, UInt64.toNat_sub_of_le _ _ h]
  rfl

theorem toNat_min (m n : UInt64) : (min m n).toNat = min m.toNat n.toNat := by
  show (if m ≤ n then m else n).toNat = min m.toNat n.toNat
  split
  · next h => exact (Nat.min_eq_left (UInt64.le_iff_toNat_le.mp h)).symm
  · next h => exact (Nat.min_eq_right (Nat.le_of_not_le (mt UInt64.le_iff_toNat_le.mpr h))).symm

theorem sqlLimit_paginate :
    (b.paginate page limit).pagination.sqlLimit.toNat = (min limit MAX_LIMIT).toNat := by
  show (min (min limit MAX_LIMIT) MAX_LIMIT).toNat = (min limit MAX_LIMIT).toNat
  rw [toNat_min, toNat_min, Nat.min_assoc, Nat.min_self]

theorem offset_paginate (h : 1 ≤ page) : (b.paginate page limit).pagination.offset.toNat =
    min ((page.toNat - 1) * (min limit MAX_LIMIT).toNat) U64_LAST := by
  rw [EventQueryBuilder.paginate, Pagination.offset, toNat_saturatingMul, toNat_saturatingSub_one h]

theorem toNat_add_one (h : page.toNat < U64_LAST) : (page + 1).toNat = page.toNat + 1 := by
  rw [U64_LAST] at h
  rw [UInt64.toNat_add, UInt64.toNat_one]
  exact Nat.mod_eq_of_lt (by omega)

theorem offset_paginate_succ (h : page.toNat < U64_LAST) :
    (b.paginate (page + 1) limit).pagination.offset.toNat =
      min (page.toNat * (min limit MAX_LIMIT).toNat) U64_LAST := by
  have hnext : 1 ≤ page + 1 := by
    rw [UInt64.le_iff_toNat_le, toNat_add_one h, UInt64.toNat_one]
    omega
  rw [offset_paginate hnext, toNat_add_one h, Nat.add_sub_cancel]

theorem one_le_min_limit (h : 1 ≤ limit) : 1 ≤ (min limit MAX_LIMIT).toNat := by
  rw [toNat_min]
  exact le_min (UInt64.le_iff_toNat_le.mp h) (by decide)

/-- The next page begins where the page ends, up to the last offset there is. -/
theorem adjacent_paginate_iff (hpage : 1 ≤ page) (hlimit : 1 ≤ limit)
    (hnext : page.toNat < U64_LAST) :
    Adjacent (b.paginate page limit).pagination (b.paginate (page + 1) limit).pagination ↔
      page.toNat * (min limit MAX_LIMIT).toNat ≤ U64_LAST := by
  have hpos := one_le_min_limit hlimit
  have hone : 1 ≤ page.toNat := UInt64.le_iff_toNat_le.mp hpage
  rw [Adjacent, offset_paginate_succ hnext, offset_paginate hpage, sqlLimit_paginate]
  obtain ⟨k, hk⟩ := Nat.exists_eq_add_of_le' hone
  rw [hk, Nat.add_sub_cancel, Nat.succ_mul]
  omega

end

/-- The numbering is right exactly without complex filters; and pages are adjacent as long as the
    offset fits in 64 bits, behind which it stays at the last number. -/
theorem queryBuilder_iff (calls : List Call) (page limit : UInt64) (hpage : 1 ≤ page)
    (hlimit : 1 ≤ limit) (hnext : page.toNat < U64_LAST) :
    (Numbered (builder calls) ↔ ∀ c ∈ calls, c.isComplex = false) ∧
      (Adjacent ((builder calls).paginate page limit).pagination
          ((builder calls).paginate (page + 1) limit).pagination ↔
        page.toNat * (min limit MAX_LIMIT).toNat ≤ U64_LAST) :=
  ⟨numbered_builder_iff calls, adjacent_paginate_iff hpage hlimit hnext⟩

theorem queryBuilder_ledgerRange :
    let calls := [Call.withFilters { fromLedger := some 10, toLedger := some 20 },
      .withWhereClause ⟨"anonymized = FALSE", rfl⟩, .sortBy "timestamp" .Asc]
    Numbered (builder calls) ∧
      Adjacent ((builder calls).paginate 3 50).pagination
        ((builder calls).paginate 4 50).pagination := by
  intro calls
  have hiff := queryBuilder_iff calls 3 50 (by decide) (by decide) (by decide)
  exact ⟨hiff.1.mpr (by decide), hiff.2.mpr (by decide)⟩

/-- With one complex filter the offset is `$3`, and the bind count is 2. -/
theorem not_numbered_complexFilter :
    let b := builder [.addComplexFilter "status" .Equals none]
    b.bindCount = 2 ∧ holes b.build.1 = [1, 2, 3] ∧ ¬Numbered b := by
  intro b
  have hsorted : b.Sorted := rfl
  refine ⟨rfl, ?_, ?_⟩
  · rw [EventQueryBuilder.holes_data hsorted, EventQueryBuilder.holes_where]
    decide
  · rw [numbered_builder_iff]
    intro h
    cases h _ List.mem_cons_self

end SorobanPulse.Events
