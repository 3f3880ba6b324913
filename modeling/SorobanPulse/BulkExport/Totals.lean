import SorobanPulse.Events.EventQueryBuilder
import SorobanPulse.Events.PaginationParams
import SorobanPulse.Lib.Decimal

/-! Bulk exports: the total that is announced, and the rows that are selected.

                                  contract_id   event_type   ledger_min/max   start/end_time
        build_query                   $n            $n             $n               –
        count, contract and type      $1            $2             –                –
        count, contract               $1                           –                –
        count, otherwise                            –              –                –

    Each of the six filters that a statement leaves out lets through rows that another one drops. The
    count knows two of them, the event type only beside a contract. -/

namespace SorobanPulse.BulkExport
open Lib Events

/-- The fields that decide what is selected. -/
structure ExportRequest where
  contractId : Option String := none
  eventType : Option String := none
  ledgerMin : Option UInt64 := none
  ledgerMax : Option UInt64 := none
  startTime : Option Timestamp := none
  endTime : Option Timestamp := none

structure EventRow where
  contractId : String
  eventType : String
  ledger : ℤ
  timestamp : Timestamp

/-- The names of its columns, and the rows. -/
structure EventsTable where
  columns : List String
  rows : List EventRow

/-- What the filters are for. -/
def ExportRequest.satisfies (r : ExportRequest) (row : EventRow) : Bool :=
  r.contractId.all (row.contractId = ·) && r.eventType.all (row.eventType = ·) &&
    r.ledgerMin.all (fun n => (n.toNat : ℤ) ≤ row.ledger) &&
    r.ledgerMax.all (fun n => row.ledger ≤ (n.toNat : ℤ)) &&
    r.startTime.all (· ≤ row.timestamp) && r.endTime.all (row.timestamp ≤ ·)

def matchingRows (table : EventsTable) (r : ExportRequest) : List EventRow :=
  table.rows.filter r.satisfies

/-! ### Statements -/

inductive Clause where
  | contractId | eventType | ledgerMin | ledgerMax
  deriving DecidableEq

/-- The text in front of the placeholder. -/
def Clause.text : Clause → String
  | .contractId => " AND contract_id = "
  | .eventType => " AND event_type = "
  | .ledgerMin => " AND ledger >= "
  | .ledgerMax => " AND ledger <= "

def Clause.column : Clause → String
  | .contractId => "contract_id"
  | .eventType => "event_type"
  | .ledgerMin | .ledgerMax => "ledger"

/-- A clause and the number of its placeholder. -/
structure Condition where
  clause : Clause
  number : ℕ

def Condition.text (c : Condition) : String := c.clause.text ++ EventQueryBuilder.paramText c.number

/-- A statement up to its conditions, the conditions, what follows them; and the bound values. -/
structure Statement where
  columns : List String := []
  head : String
  conditions : List Condition := []
  tail : String := ""
  params : List String := []

def Statement.text (s : Statement) : String :=
  s.head ++ (String.join (s.conditions.map Condition.text) ++ s.tail)

/-- The placeholders are `$1` to `$n`, for `n` values. -/
def Statement.Numbered (s : Statement) : Prop := holes s.text = List.range' 1 s.params.length

/-! ### `build_query` -/

def SELECTED : List String :=
  ["id", "contract_id", "event_type", "tx_hash", "ledger", "ledger_close_time", "topic", "value",
    "source_account"]

def EXPORT_LIMIT : ℕ := 1000000

/-- `to_string` -/
def u64Text (n : UInt64) : String := toString n.toNat

/-- Pushes the clause with the next number, and the value. -/
def Statement.push (clause : Clause) (value : Option String) (s : Statement) : Statement :=
  match value with
  | none => s
  | some v =>
    { s with
      conditions := s.conditions ++ [⟨clause, s.params.length + 1⟩]
      params := s.params ++ [v] }

def ExportRequest.buildQuery (r : ExportRequest) : Statement :=
  { columns := SELECTED
    head := "SELECT " ++ ", ".intercalate SELECTED ++ " FROM events WHERE 1=1"
    tail := " ORDER BY ledger DESC LIMIT " ++ toString EXPORT_LIMIT : Statement }
    |>.push .contractId r.contractId
    |>.push .eventType r.eventType
    |>.push .ledgerMin (r.ledgerMin.map u64Text)
    |>.push .ledgerMax (r.ledgerMax.map u64Text)

/-! ### `count_matching_events` -/

/-- The text that is put together; the numbers are fixed. -/
def ExportRequest.countQuery (r : ExportRequest) : Statement :=
  { head := "SELECT COUNT(*) FROM events WHERE 1=1"
    conditions := (if r.contractId.isSome then [⟨.contractId, 1⟩] else []) ++
      (if r.eventType.isSome then [⟨.eventType, 2⟩] else []) }

/-- The statement that is run: without a contract it is another text. -/
def ExportRequest.countStatement (r : ExportRequest) : Statement :=
  match r.contractId, r.eventType with
  | some contractId, some eventType => { r.countQuery with params := [contractId, eventType] }
  | some contractId, none => { r.countQuery with params := [contractId] }
  | none, _ => { head := "SELECT COUNT(*) FROM events" }

/-! ### Running a statement -/

section
variable (bigint : String → Option ℤ)

/-- `bigint` is the server's reading of a text that is bound for a `BIGINT`; it may refuse it. -/
def Clause.accepts (value : String) : Clause → Bool
  | .contractId | .eventType => !value.toList.contains (Char.ofNat 0)
  | .ledgerMin | .ledgerMax => (bigint value).isSome

def Clause.holds (value : String) (row : EventRow) : Clause → Bool
  | .contractId => row.contractId = value
  | .eventType => row.eventType = value
  | .ledgerMin => (bigint value).any (· ≤ row.ledger)
  | .ledgerMax => (bigint value).any (row.ledger ≤ ·)

/-- Every clause passes with the value of its placeholder. -/
def Statement.checks (s : Statement) (passes : String → Clause → Bool) : Bool :=
  s.conditions.all fun c => (s.params[c.number - 1]?).any (passes · c.clause)

/-- The columns exist and the values are accepted. -/
def Statement.runs (s : Statement) (table : EventsTable) : Bool :=
  (s.columns ++ s.conditions.map (·.clause.column)).all table.columns.contains &&
    s.checks (Clause.accepts bigint)

def Statement.selects (s : Statement) (row : EventRow) : Bool :=
  s.checks fun value clause => clause.holds bigint value row

/-- The rows its conditions let through; `none` is a database error. -/
def Statement.select (s : Statement) (table : EventsTable) : Option (List EventRow) :=
  if s.runs bigint table then some (table.rows.filter (s.selects bigint)) else none

variable (table : EventsTable) (r : ExportRequest)

def countMatchingEvents : Option ℕ := (r.countStatement.select bigint table).map List.length

/-- What `build_query` selects. -/
def exportedRows : Option (List EventRow) :=
  (r.buildQuery.select bigint table).map fun rows =>
    (rows.mergeSort fun a b => b.ledger ≤ a.ledger).take EXPORT_LIMIT

structure ExportJob where
  request : ExportRequest
  totalEvents : ℕ
  processedEvents : ℕ := 0

/-- No job without a total. -/
def startExport : Option ExportJob :=
  (countMatchingEvents bigint table r).map fun totalEvents => { request := r, totalEvents }

/-- The announced total and the exported rows are the matching events. -/
structure TotalsMatch : Prop where
  total : (startExport bigint table r).map (·.totalEvents) = some (matchingRows table r).length
  exported : (exportedRows bigint table r).map List.length = some (matchingRows table r).length
  countNumbered : r.countStatement.Numbered
  queryNumbered : r.buildQuery.Numbered

/-- What the count looks at: the contract, and beside it the type. -/
def ExportRequest.counts (r : ExportRequest) (row : EventRow) : Bool :=
  r.contractId.all (row.contractId = ·) &&
    (r.contractId.isNone || r.eventType.all (row.eventType = ·))

/-- When the totals match. -/
structure Exportable : Prop where
  columns : SELECTED.all table.columns.contains
  texts : ∀ v, r.contractId = some v ∨ r.eventType = some v → Char.ofNat 0 ∉ v.toList
  bounds : ∀ n, r.ledgerMin = some n ∨ r.ledgerMax = some n → (bigint (u64Text n)).isSome
  /-- The filters that the count leaves out drop nothing. -/
  rows : ∀ row ∈ table.rows, r.counts row → r.satisfies row

end

/-! ### Numbering -/

section
variable {s : Statement} {clause : Clause} {value : Option String}

/-- The conditions have the numbers of the values. -/
def Statement.Aligned (s : Statement) : Prop :=
  s.conditions.map (·.number) = List.range' 1 s.params.length

theorem Statement.Aligned.push (h : s.Aligned) : (s.push clause value).Aligned := by
  cases value with
  | none => exact h
  | some v =>
    unfold Aligned at h ⊢
    rw [Statement.push]
    dsimp only
    rw [List.map_append, h, List.length_append, List.length_singleton, List.range'_1_concat,
      Nat.add_comm 1]
    rfl

/-- A value that is pushed is the one its clause is checked with. -/
theorem Statement.Aligned.checks_push (h : s.Aligned) (passes : String → Clause → Bool) :
    (s.push clause value).checks passes = (s.checks passes && value.all (passes · clause)) := by
  cases value with
  | none => simp [Statement.push]
  | some v =>
    have hold : ∀ c ∈ s.conditions, (s.params ++ [v])[c.number - 1]? = s.params[c.number - 1]? := by
      intro c hc
      have hnumber : c.number ∈ List.range' 1 s.params.length := h ▸ List.mem_map_of_mem hc
      rw [List.mem_range'_1] at hnumber
      exact List.getElem?_append_left (by omega)
    rw [Statement.checks, Statement.push]
    dsimp only
    rw [List.all_append, Statement.checks]
    congr 1
    · rw [Bool.eq_iff_iff, List.all_eq_true, List.all_eq_true]
      exact forall₂_congr fun c hc => by rw [hold c hc]
    · simp

@[simp] theorem Statement.columns_push : (s.push clause value).columns = s.columns := by
  cases value <;> rfl

@[simp] theorem Statement.head_push : (s.push clause value).head = s.head := by cases value <;> rfl

@[simp] theorem Statement.tail_push : (s.push clause value).tail = s.tail := by cases value <;> rfl

theorem dollar_notMem_clause : '$' ∉ clause.text.toList := by
  cases clause <;> decide

theorem detached_condition (c : Condition) (cs : List Condition) :
    Detached (String.join ((c :: cs).map Condition.text)).toList := by
  rw [List.map_cons, String.join_cons, Condition.text, String.append_assoc]
  exact detached_append (by cases c.clause <;> decide) (by cases c.clause <;> decide)

theorem holes_conditions (cs : List Condition) :
    holes (String.join (cs.map Condition.text)) = cs.map (·.number) := by
  induction cs with
  | nil => rfl
  | cons c cs ih =>
    have hdetached : Detached (String.join (cs.map Condition.text)).toList := by
      cases cs with
      | nil => rfl
      | cons d cs => exact detached_condition d cs
    rw [List.map_cons, String.join_cons, holes_append hdetached, ih, Condition.text,
      holes_append_left dollar_notMem_clause, holes_paramText]
    rfl

theorem Statement.Aligned.numbered (h : s.Aligned) (hhead : '$' ∉ s.head.toList)
    (htail : '$' ∉ s.tail.toList) (hdetached : Detached s.tail.toList) : s.Numbered := by
  rw [Statement.Numbered, Statement.text, holes_append_left hhead, holes_append hdetached,
    holes_conditions, holes_eq_nil htail, List.append_nil, h]

end

/-! ### The two statements -/

section
variable {bigint : String → Option ℤ} {table : EventsTable} (r : ExportRequest)

theorem aligned_countStatement : r.countStatement.Aligned := by
  rw [ExportRequest.countStatement, ExportRequest.countQuery]
  cases r.contractId with
  | none => rfl
  | some contractId => cases r.eventType <;> rfl

theorem numbered_countStatement : r.countStatement.Numbered := by
  have htail : r.countStatement.tail = "" := by
    rw [ExportRequest.countStatement, ExportRequest.countQuery]
    split <;> rfl
  have hhead : '$' ∉ r.countStatement.head.toList := by
    rw [ExportRequest.countStatement, ExportRequest.countQuery]
    split <;> (dsimp only; decide)
  exact (aligned_countStatement r).numbered hhead (by rw [htail]; decide) (by rw [htail]; rfl)

/-- The event type is checked beside a contract. -/
theorem checks_countStatement (passes : String → Clause → Bool) :
    r.countStatement.checks passes =
      (r.contractId.all (passes · .contractId) &&
        (r.contractId.isNone || r.eventType.all (passes · .eventType))) := by
  rw [ExportRequest.countStatement, ExportRequest.countQuery]
  cases r.contractId with
  | none => rfl
  | some contractId =>
    cases r.eventType with
    | none => simp [Statement.checks]
    | some eventType => simp [Statement.checks]

theorem aligned_buildQuery : r.buildQuery.Aligned := by
  unfold ExportRequest.buildQuery
  iterate 4 refine Statement.Aligned.push ?_
  rfl

theorem numbered_buildQuery : r.buildQuery.Numbered := by
  have hhead : r.buildQuery.head =
      "SELECT " ++ ", ".intercalate SELECTED ++ " FROM events WHERE 1=1" := by
    simp only [ExportRequest.buildQuery, Statement.head_push]
  have htail : r.buildQuery.tail = " ORDER BY ledger DESC LIMIT " ++ toString EXPORT_LIMIT := by
    simp only [ExportRequest.buildQuery, Statement.tail_push]
  have hdetached : Detached r.buildQuery.tail.toList := by
    rw [htail]
    decide
  exact (aligned_buildQuery r).numbered (by rw [hhead]; decide +kernel)
    (by rw [htail]; decide) hdetached

theorem checks_buildQuery (passes : String → Clause → Bool) :
    r.buildQuery.checks passes =
      (r.contractId.all (passes · .contractId) && r.eventType.all (passes · .eventType) &&
        r.ledgerMin.all (fun n => passes (u64Text n) .ledgerMin) &&
        r.ledgerMax.all fun n => passes (u64Text n) .ledgerMax) := by
  have hmap : ∀ (bound : Option UInt64) (p : String → Bool),
      (bound.map u64Text).all p = bound.all fun n => p (u64Text n) := fun bound p => by
    cases bound <;> rfl
  have hstart : Statement.Aligned
      { columns := SELECTED
        head := "SELECT " ++ ", ".intercalate SELECTED ++ " FROM events WHERE 1=1"
        tail := " ORDER BY ledger DESC LIMIT " ++ toString EXPORT_LIMIT } := rfl
  rw [ExportRequest.buildQuery, hstart.push.push.push.checks_push, hstart.push.push.checks_push,
    hstart.push.checks_push, hstart.checks_push, hmap, hmap]
  rfl

/-- The columns of the conditions are among the selected ones. -/
theorem columns_of_selected (hcolumns : SELECTED.all table.columns.contains) (s : Statement) :
    (s.conditions.map (·.clause.column)).all table.columns.contains = true := by
  have hselected : ∀ clause : Clause, clause.column ∈ SELECTED := by
    intro clause
    cases clause <;> decide
  rw [List.all_eq_true] at hcolumns ⊢
  intro column hcolumn
  rcases List.mem_map.mp hcolumn with ⟨c, -, rfl⟩
  exact hcolumns _ (hselected c.clause)

theorem columns_countStatement : r.countStatement.columns = [] := by
  rw [ExportRequest.countStatement, ExportRequest.countQuery]
  split <;> rfl

theorem columns_buildQuery : r.buildQuery.columns = SELECTED := by
  simp only [ExportRequest.buildQuery, Statement.columns_push]

theorem selects_countStatement (row : EventRow) :
    r.countStatement.selects bigint row = r.counts row :=
  checks_countStatement r _

theorem counts_of_satisfies {row : EventRow} (h : r.satisfies row) : r.counts row := by
  simp only [ExportRequest.satisfies, Bool.and_eq_true] at h
  rw [ExportRequest.counts, Bool.and_eq_true, Bool.or_eq_true]
  exact ⟨h.1.1.1.1.1, .inr h.1.1.1.1.2⟩

/-- `build_query` lets the matching rows through, and no more than the count does. -/
theorem selects_buildQuery (hbigint : ∀ (n : UInt64) v, bigint (u64Text n) = some v → v = n.toNat)
    (hbounds : ∀ n, r.ledgerMin = some n ∨ r.ledgerMax = some n → (bigint (u64Text n)).isSome)
    (row : EventRow) :
    (r.satisfies row → r.buildQuery.selects bigint row) ∧
      (r.buildQuery.selects bigint row → r.counts row) := by
  have hread : ∀ n, r.ledgerMin = some n ∨ r.ledgerMax = some n →
      bigint (u64Text n) = some (n.toNat : ℤ) := by
    intro n hn
    rcases Option.isSome_iff_exists.mp (hbounds n hn) with ⟨v, hv⟩
    rw [hv, hbigint n v hv]
  have hmin : r.ledgerMin.all (fun n => Clause.ledgerMin.holds bigint (u64Text n) row) =
      r.ledgerMin.all fun n => (n.toNat : ℤ) ≤ row.ledger := by
    cases hn : r.ledgerMin with
    | none => rfl
    | some n =>
      rw [Option.all_some, Clause.holds, hread n (.inl hn), Option.any_some, Option.all_some]
  have hmax : r.ledgerMax.all (fun n => Clause.ledgerMax.holds bigint (u64Text n) row) =
      r.ledgerMax.all fun n => row.ledger ≤ (n.toNat : ℤ) := by
    cases hn : r.ledgerMax with
    | none => rfl
    | some n =>
      rw [Option.all_some, Clause.holds, hread n (.inr hn), Option.any_some, Option.all_some]
  rw [Statement.selects, checks_buildQuery, hmin, hmax, ExportRequest.satisfies, ExportRequest.counts]
  simp only [Bool.and_eq_true, Bool.or_eq_true]
  constructor
  · intro h
    exact h.1.1
  · intro h
    exact ⟨h.1.1.1, .inr h.1.1.2⟩

end

/-! ### When the totals match -/

section
variable {bigint : String → Option ℤ} {table : EventsTable} {r : ExportRequest}

theorem noNul_iff {v : String} :
    (!v.toList.contains (Char.ofNat 0)) = true ↔ Char.ofNat 0 ∉ v.toList := by
  simp

theorem accepts_text {v : String} (hv : Char.ofNat 0 ∉ v.toList) {clause : Clause}
    (hclause : clause = .contractId ∨ clause = .eventType) : clause.accepts bigint v = true := by
  have hnul : (!v.toList.contains (Char.ofNat 0)) = true := noNul_iff.mpr hv
  rcases hclause with rfl | rfl
  · exact hnul
  · exact hnul

theorem runs_countStatement (h : Exportable bigint table r) :
    r.countStatement.runs bigint table = true := by
  have htexts : r.countStatement.checks (Clause.accepts bigint) = true := by
    rw [checks_countStatement, Bool.and_eq_true, Bool.or_eq_true, Option.all_eq_true,
      Option.all_eq_true]
    exact ⟨fun v hv => accepts_text (h.texts v (.inl hv)) (.inl rfl),
      .inr fun v hv => accepts_text (h.texts v (.inr hv)) (.inr rfl)⟩
  rw [Statement.runs, columns_countStatement, List.nil_append, columns_of_selected h.columns, htexts]
  rfl

/-- The exported statement runs when its columns exist and its values are taken. -/
theorem runs_buildQuery : r.buildQuery.runs bigint table = true ↔
    SELECTED.all table.columns.contains ∧
      (∀ v, r.contractId = some v ∨ r.eventType = some v → Char.ofNat 0 ∉ v.toList) ∧
      ∀ n, r.ledgerMin = some n ∨ r.ledgerMax = some n → (bigint (u64Text n)).isSome := by
  rw [Statement.runs, Bool.and_eq_true, checks_buildQuery, columns_buildQuery, List.all_append]
  simp only [Bool.and_eq_true, Option.all_eq_true, Clause.accepts, noNul_iff]
  constructor
  · rintro ⟨⟨hcolumns, -⟩, ⟨⟨hcontract, htype⟩, hmin⟩, hmax⟩
    exact ⟨hcolumns, fun v hv => hv.elim (hcontract v) (htype v),
      fun n hn => hn.elim (hmin n) (hmax n)⟩
  · rintro ⟨hcolumns, htexts, hbounds⟩
    exact ⟨⟨hcolumns, columns_of_selected hcolumns _⟩,
      ⟨⟨fun v hv => htexts v (.inl hv), fun v hv => htexts v (.inr hv)⟩,
        fun n hn => hbounds n (.inl hn)⟩, fun n hn => hbounds n (.inr hn)⟩

theorem total_eq : (startExport bigint table r).map (·.totalEvents) =
    countMatchingEvents bigint table r := by
  rw [startExport, Option.map_map]
  exact congrFun Option.map_id _

/-- A filter that lets through what another does, in the same number. -/
theorem filter_of_length_eq {rows : List EventRow} {p q : EventRow → Bool}
    (hqp : ∀ row, q row → p row) (h : (rows.filter p).length = (rows.filter q).length) :
    ∀ row ∈ rows, p row → q row := by
  intro row hrow hp
  have heq : rows.filter q = rows.filter p :=
    (List.monotone_filter_right rows hqp).eq_of_length h.symm
  have hmem : row ∈ rows.filter q := heq ▸ List.mem_filter.mpr ⟨hrow, hp⟩
  exact (List.mem_filter.mp hmem).2

/-- The totals match when the filters that are left out drop nothing, and only then. -/
theorem totalsMatch_iff (hlimit : (matchingRows table r).length ≤ EXPORT_LIMIT)
    (hbigint : ∀ (n : UInt64) v, bigint (u64Text n) = some v → v = n.toNat) :
    TotalsMatch bigint table r ↔ Exportable bigint table r := by
  have hcounts : r.countStatement.selects bigint = r.counts := funext (selects_countStatement r)
  constructor
  · rintro ⟨htotal, hexported, -, -⟩
    -- a query that does not run exports nothing, so this one runs
    have hruns : r.buildQuery.runs bigint table = true := by
      by_contra hruns
      rw [exportedRows, Statement.select, if_neg hruns] at hexported
      cases hexported
    obtain ⟨hcolumns, htexts, hbounds⟩ := runs_buildQuery.mp hruns
    -- what the count lets through is as much as what matches, and so it is the same
    refine ⟨hcolumns, htexts, hbounds, filter_of_length_eq (fun _ => counts_of_satisfies r) ?_⟩
    rw [total_eq, countMatchingEvents, Statement.select] at htotal
    split at htotal
    · rw [hcounts] at htotal
      exact Option.some.inj htotal
    · cases htotal
  · intro h
    have hcounted : table.rows.filter r.counts = matchingRows table r :=
      List.filter_congr fun row hrow =>
        Bool.eq_iff_iff.mpr ⟨h.rows row hrow, counts_of_satisfies r⟩
    have hselected : table.rows.filter (r.buildQuery.selects bigint) = matchingRows table r := by
      apply List.filter_congr
      intro row hrow
      obtain ⟨hfrom, hto⟩ := selects_buildQuery r hbigint h.bounds row
      exact Bool.eq_iff_iff.mpr ⟨fun hs => h.rows row hrow (hto hs), hfrom⟩
    refine ⟨?_, ?_, numbered_countStatement r, numbered_buildQuery r⟩
    · rw [total_eq, countMatchingEvents, Statement.select, if_pos (runs_countStatement h), hcounts,
        hcounted]
      rfl
    · rw [exportedRows, Statement.select,
        if_pos (runs_buildQuery.mpr ⟨h.columns, h.texts, h.bounds⟩), hselected, Option.map_some,
        Option.map_some, List.length_take, List.length_mergeSort, Nat.min_eq_right hlimit]

end

/-! ### A request by event type -/

/-- A table with the selected columns, and one contract event. -/
def oneContractEvent : EventsTable where
  columns := SELECTED
  rows := [⟨"CA", "contract", 7, 0⟩]

/-- A `BIGINT` as the server reads it. -/
def parseBigint (text : String) : Option ℤ := parseSigned (2 ^ 63) text.toList

theorem parseBigint_u64Text (n : UInt64) (v : ℤ) (h : parseBigint (u64Text n) = some v) :
    v = n.toNat := by
  have htext : (u64Text n).toList = decimal 0 n.toNat := by
    rw [decimal_zero]
    exact toList_toString_nat _
  rw [parseBigint, htext, parseSigned.eq_def] at h
  split at h
  · next ds hds => exact absurd hds (decimal_ne_cons rfl ds)
  · rcases Option.map_eq_some_iff.mp h with ⟨m, hm, rfl⟩
    by_cases hlt : n.toNat < 2 ^ 63
    · rw [parseUnsigned_decimal hlt, Option.some.injEq] at hm
      rw [hm]
      rfl
    · rw [parseUnsigned_decimal_of_le (Nat.le_of_not_lt hlt)] at hm
      cases hm

/-- Events of two contracts and two types. -/
def fourEvents : EventsTable where
  columns := SELECTED
  rows := [⟨"CA", "contract", 7, 0⟩, ⟨"CB", "contract", 8, 1⟩, ⟨"CA", "system", 9, 2⟩,
    ⟨"CA", "contract", 9, 3⟩]

theorem totalsMatch_contractEvents :
    TotalsMatch parseBigint fourEvents
      { contractId := some "CA", eventType := some "contract", ledgerMin := some 7 } := by
  refine (totalsMatch_iff (by decide) parseBigint_u64Text).mpr ⟨by decide, ?_, ?_, by decide⟩
  · rintro v (hv | hv) <;> cases hv <;> decide
  · rintro n (hn | hn) <;> cases hn
    decide

/-- Of the system events, one is counted and none is exported. -/
theorem not_totalsMatch_systemEvents :
    ¬TotalsMatch parseBigint oneContractEvent { eventType := some "system" } := by
  intro h
  exact absurd h.total (by decide)

end SorobanPulse.BulkExport
