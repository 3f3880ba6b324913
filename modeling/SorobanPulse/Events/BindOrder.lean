import SorobanPulse.Events.Queries

/-! Conditions and binds of the `/v1/events` and export statements, held against each other.

    Each builder numbers its placeholders by pushing, so agreement is the equality of two key
    lists. They differ in three places:

        cursor         … search, data_pattern …    bound   … data_pattern, search …
        count          contract_id, contract_ids, prefix, …    bound   contract_id, …
        export count   …, from_timestamp, to_timestamp         bound   … -/

namespace SorobanPulse.Events
open Lib Lib.Placeholders

/-- The key of a parameter with one value, where `s` holds. -/
def supplied (s : Bool) (p : Param) : List (Param × ℕ) := guarded s [(p, 0)]

/-! ### Keys of the binds -/

@[simp] theorem map_key_bindOne {α : Type} (p : Param) (f : α → SqlValue) (v : Option α) :
    (bindOne p f v).map Bind.key = supplied v.isSome p := by
  rw [bindOne, map_key_bindOpt p (w := 1)]
  · cases v <;> rfl
  · intro l hl
    rcases Option.map_eq_some_iff.mp hl with ⟨a, -, rfl⟩
    rfl

@[simp] theorem map_key_near (r : PaginationParams) :
    (bindOpt .near r.nearValues).map Bind.key = guarded r.nearValues.isSome (parts Param.near 3) := by
  apply map_key_bindOpt
  intro l hl
  rw [PaginationParams.nearValues] at hl
  split at hl
  · rw [← Option.some.inj hl]
    rfl
  · cases hl

/-! ### Keys of the conditions -/

/-- The `LIMIT` placeholder takes the next number. -/
theorem agrees_window {b : Builder Param} {keys : List (Param × ℕ)} (h : b.Numbers keys)
    (binds : List (Bind Param SqlValue)) :
    (Query.mk b.conditions [⟨.limit, [b.bindIdx]⟩] binds).Agrees ↔
      binds.map Bind.key = keys ++ [(.limit, 0)] :=
  (h.push true .limit 1).agrees_iff binds

theorem agrees_windows {b : Builder Param} {keys : List (Param × ℕ)} (h : b.Numbers keys)
    (binds : List (Bind Param SqlValue)) :
    (Query.mk b.conditions [⟨.limit, [b.bindIdx]⟩, ⟨.offset, [b.bindIdx + 1]⟩] binds).Agrees ↔
      binds.map Bind.key = keys ++ [(.limit, 0)] ++ [(.offset, 0)] := by
  have hnum := ((h.push true .limit 1).push true .offset 1).agrees_iff binds
  rw [Builder.push, if_pos rfl, Builder.push, if_pos rfl, List.append_assoc] at hnum
  exact hnum

theorem agrees_no_window {b : Builder Param} {keys : List (Param × ℕ)} (h : b.Numbers keys)
    (binds : List (Bind Param SqlValue)) :
    (Query.mk b.conditions [] binds).Agrees ↔ binds.map Bind.key = keys := by
  rw [Query.Agrees, List.append_nil]
  exact h.agrees_iff binds

theorem numbers_position :
    (⟨[⟨.position, [1, 2]⟩], 3⟩ : Builder Param).Numbers [(.position, 0), (.position, 1)] :=
  ⟨rfl, rfl⟩

section
variable (r : Request)

/-- The contract filters, which every path places first. -/
def contractKeys : List (Param × ℕ) :=
  supplied r.contractId.isSome .contractId
    ++ supplied (nonempty r.contractIdsList).isSome .contractIds
    ++ supplied r.contractIdPrefix.isSome .contractIdPrefix

/-- From `event_type` to `topic_filter`. -/
def middleKeys : List (Param × ℕ) :=
  supplied r.eventType.isSome .eventType
    ++ supplied r.fromLedger.isSome .fromLedger
    ++ supplied r.toLedger.isSome .toLedger
    ++ supplied r.ledgerHash.isSome .ledgerHash
    ++ supplied r.anonymized.isSome .anonymized
    ++ supplied r.inSuccessfulCall.isSome .inSuccessfulCall
    ++ supplied r.schemaVersion.isSome .schemaVersion
    ++ supplied r.topicSym.isSome .topicSym
    ++ supplied r.topicFilter.isSome .topicFilter

/-- The topics by position, which only the cursor path knows. -/
def topicKeys : List (Param × ℕ) :=
  supplied r.topic0.isSome .topic0
    ++ supplied r.topic1.isSome .topic1
    ++ supplied r.topic2.isSome .topic2
    ++ supplied r.topic3.isSome .topic3

def searchKeys : List (Param × ℕ) := supplied r.search.isSome .search

def patternKeys : List (Param × ℕ) := supplied r.dataPattern.isSome .dataPattern

/-- From the timestamps to the tenant. -/
def tailKeys : List (Param × ℕ) :=
  supplied r.fromTs.isSome .fromTs
    ++ supplied r.toTs.isSome .toTs
    ++ supplied (nonempty r.excludeContractIdsList).isSome .excludeContractIds
    ++ supplied (nonempty r.excludeEventTypesList).isSome .excludeEventTypes
    ++ guarded r.nearValues.isSome (parts Param.near 3)
    ++ supplied r.tenantId.isSome .tenant

def networkKeys : List (Param × ℕ) := supplied r.network.isSome .network

theorem cursorConditions_numbers :
    (cursorConditions r).Numbers ([(.position, 0), (.position, 1)] ++ contractKeys r ++ middleKeys r
      ++ topicKeys r ++ (searchKeys r ++ patternKeys r) ++ tailKeys r ++ networkKeys r) := by
  apply Builder.Numbers.of_eq
  · unfold cursorConditions
    iterate 25 apply Builder.Numbers.push
    exact numbers_position
  · simp only [contractKeys, supplied, middleKeys, topicKeys, searchKeys, patternKeys, tailKeys, networkKeys,
      parts_one, List.append_assoc]

theorem offsetConditions_numbers :
    (offsetConditions r).Numbers
      (contractKeys r ++ middleKeys r ++ searchKeys r ++ tailKeys r) := by
  apply Builder.Numbers.of_eq
  · unfold offsetConditions
    iterate 19 apply Builder.Numbers.push
    exact Builder.numbers_nil
  · simp only [contractKeys, supplied, middleKeys, searchKeys, tailKeys, parts_one, List.nil_append,
      List.append_assoc]

theorem patternValue_isSome {v : Option String} (h : patternValue r = .ok v) :
    v.isSome = r.dataPattern.isSome := by
  rw [patternValue] at h
  split at h
  · next hd => rw [← Except.ok.inj h, hd]
  · next hd _ => rw [← Except.ok.inj h, hd, Option.isSome_some, Option.isSome_some]
  · cases h

theorem map_key_sharedBinds (libs : Libraries) :
    (sharedBinds libs r).map Bind.key = middleKeys r ++ searchKeys r ++ tailKeys r := by
  simp only [sharedBinds, middleKeys, searchKeys, tailKeys, List.map_append, map_key_bindOne,
    map_key_near, List.append_assoc]

theorem map_key_cursorBinds {libs : Libraries} {after : SqlValue} {cursorId : Uuid}
    {binds : List (Bind Param SqlValue)} (h : cursorBinds libs r after cursorId = .ok binds) :
    binds.map Bind.key = [(.position, 0), (.position, 1)] ++ contractKeys r ++ middleKeys r
      ++ topicKeys r ++ (patternKeys r ++ searchKeys r) ++ tailKeys r ++ networkKeys r
      ++ [(.limit, 0)] := by
  rcases bind_eq_ok h with ⟨dataPattern, hp, hbinds⟩
  rw [← Except.ok.inj hbinds]
  simp only [contractKeys, middleKeys, topicKeys, searchKeys, patternKeys, tailKeys, networkKeys,
    List.map_append, map_key_bindOne, map_key_bindAll, map_key_near, patternValue_isSome r hp,
    List.append_assoc]
  rfl

/-! ### The statements of `get_events` -/

variable {libs : Libraries} {valText : String} {cursorId : Uuid}

/-- A cursor query that is issued has its binds and conditions of `cursorConditions`. -/
theorem cursorQuery_eq {q : Query} (h : cursorQuery libs r valText cursorId = .ok q) :
    ∃ after binds, positionValue libs r valText = .ok after ∧
      cursorBinds libs r after cursorId = .ok binds ∧
      q = ⟨(cursorConditions r).conditions, [⟨.limit, [(cursorConditions r).bindIdx]⟩], binds⟩ := by
  rcases bind_eq_ok h with ⟨_, -, h⟩
  rcases bind_eq_ok h with ⟨_, -, h⟩
  rcases bind_eq_ok h with ⟨after, hafter, h⟩
  rcases bind_eq_ok h with ⟨binds, hbinds, h⟩
  exact ⟨after, binds, hafter, hbinds, (Except.ok.inj h).symm⟩

/-- Two lists that may each be absent commute only when one of them is. -/
theorem patternKeys_append_searchKeys :
    patternKeys r ++ searchKeys r = searchKeys r ++ patternKeys r ↔
      ¬(r.search.isSome ∧ r.dataPattern.isSome) := by
  rw [patternKeys, searchKeys]
  cases r.search <;> cases r.dataPattern <;> simp [supplied]

theorem cursorQuery_agrees_iff {q : Query} (h : cursorQuery libs r valText cursorId = .ok q) :
    q.Agrees ↔ ¬(r.search.isSome ∧ r.dataPattern.isSome) := by
  rcases cursorQuery_eq r h with ⟨after, binds, -, hbinds, rfl⟩
  rw [agrees_window (cursorConditions_numbers r), map_key_cursorBinds r hbinds,
    ← patternKeys_append_searchKeys]
  simp only [List.append_assoc, List.append_right_inj]
  simp only [← List.append_assoc, List.append_left_inj]

theorem offsetQuery_agrees {q : Query} (h : offsetQuery libs r = .ok q) : q.Agrees := by
  rcases bind_eq_ok h with ⟨_, -, h⟩
  rw [← Except.ok.inj h, agrees_windows (offsetConditions_numbers r)]
  simp only [offsetBinds, contractKeys, List.map_append, map_key_bindOne, map_key_sharedBinds,
    map_key_bindAll, List.append_assoc]
  rfl

theorem supplied_eq_nil {s : Bool} {p : Param} : supplied s p = [] ↔ s = false :=
  guarded_eq_nil (List.cons_ne_nil _ _)

theorem contractIds_unsupplied :
    supplied (nonempty r.contractIdsList).isSome .contractIds = [] ↔ r.contractIdsList = [] := by
  rw [supplied_eq_nil, nonempty]
  split <;> simp_all

theorem prefix_unsupplied :
    supplied r.contractIdPrefix.isSome .contractIdPrefix = [] ↔ r.contractIdPrefix = none := by
  rw [supplied_eq_nil, Option.isSome_eq_false_iff, Option.isNone_iff_eq_none]

theorem countQuery_agrees_iff :
    (countQuery libs r).Agrees ↔ r.contractIdsList = [] ∧ r.contractIdPrefix = none := by
  rw [countQuery, agrees_no_window (offsetConditions_numbers r)]
  simp only [contractKeys, List.map_append, map_key_bindOne, map_key_sharedBinds, List.append_assoc,
    List.append_right_inj]
  rw [← List.append_assoc (supplied (nonempty r.contractIdsList).isSome _),
    List.self_eq_append_left, List.append_eq_nil_iff, contractIds_unsupplied, prefix_unsupplied]

end

/-! ### The statements of `export_events` -/

section
variable (x : ExportParams)

def exportKeys : List (Param × ℕ) :=
  supplied x.contractId.isSome .contractId
    ++ supplied x.eventType.isSome .eventType
    ++ supplied x.fromLedger.isSome .fromLedger
    ++ supplied x.toLedger.isSome .toLedger

def exportTimeKeys : List (Param × ℕ) :=
  supplied x.fromTimestamp.isSome .fromTs ++ supplied x.toTimestamp.isSome .toTs

theorem exportConditions_numbers :
    (exportConditions x).Numbers (exportKeys x ++ exportTimeKeys x) := by
  apply Builder.Numbers.of_eq
  · unfold exportConditions
    iterate 6 apply Builder.Numbers.push
    exact Builder.numbers_nil
  · simp only [exportKeys, exportTimeKeys, supplied, parts_one, List.nil_append, List.append_assoc]

theorem map_key_exportBinds : (exportBinds x).map Bind.key = exportKeys x := by
  simp only [exportBinds, exportKeys, List.map_append, map_key_bindOne]

theorem exportQuery_agrees (maxRows : ℕ) : (exportQuery x maxRows).Agrees := by
  rw [exportQuery, agrees_window (exportConditions_numbers x)]
  simp only [exportTimeKeys, List.map_append, map_key_exportBinds, map_key_bindOne, map_key_bindAll,
    List.append_assoc]
  rfl

theorem exportCountQuery_agrees_iff :
    (exportCountQuery x).Agrees ↔ x.fromTimestamp = none ∧ x.toTimestamp = none := by
  rw [exportCountQuery, agrees_no_window (exportConditions_numbers x), map_key_exportBinds,
    List.self_eq_append_right, exportTimeKeys, List.append_eq_nil_iff, supplied_eq_nil,
    supplied_eq_nil, Option.isSome_eq_false_iff, Option.isSome_eq_false_iff,
    Option.isNone_iff_eq_none, Option.isNone_iff_eq_none]

end

/-! ### All five together -/

/-- Every statement the two handlers issue binds each placeholder to its own parameter. -/
structure BindsAgree (libs : Libraries) (r : Request) (valText : String) (cursorId : Uuid)
    (x : ExportParams) (maxRows : ℕ) : Prop where
  cursor : ∀ q, cursorQuery libs r valText cursorId = .ok q → q.Agrees
  offset : ∀ q, offsetQuery libs r = .ok q → q.Agrees
  count : (countQuery libs r).Agrees
  exported : (exportQuery x maxRows).Agrees
  exportCount : (exportCountQuery x).Agrees

/-- `search` and `data_pattern` are bound in each other's place; the offset count leaves out the
    contract list and the prefix, the export count the timestamps. Nothing else is out of step. -/
theorem bindsAgree_iff (libs : Libraries) (r : Request) (valText : String) (cursorId : Uuid)
    (x : ExportParams) (maxRows : ℕ) :
    BindsAgree libs r valText cursorId x maxRows ↔
      ((∃ q, cursorQuery libs r valText cursorId = .ok q) →
        ¬(r.search.isSome ∧ r.dataPattern.isSome)) ∧
      (r.contractIdsList = [] ∧ r.contractIdPrefix = none) ∧
      (x.fromTimestamp = none ∧ x.toTimestamp = none) := by
  constructor
  · intro h
    refine ⟨?_, (countQuery_agrees_iff r).mp h.count, (exportCountQuery_agrees_iff x).mp h.exportCount⟩
    rintro ⟨q, hq⟩
    exact (cursorQuery_agrees_iff r hq).mp (h.cursor q hq)
  · rintro ⟨hcursor, hcount, hexport⟩
    refine ⟨?_, ?_, (countQuery_agrees_iff r).mpr hcount, exportQuery_agrees x maxRows,
      (exportCountQuery_agrees_iff x).mpr hexport⟩
    · intro q hq
      exact (cursorQuery_agrees_iff r hq).mpr (hcursor ⟨q, hq⟩)
    · intro q hq
      exact offsetQuery_agrees r hq

/-- `?search=transfer&data_pattern=$.value&pattern=CABC`, and a cursor at ledger 7. -/
theorem bindsAgree_refuted : ∃ r,
    validate plainLibraries.parseTimestamp false none
        { search := some "transfer", dataPattern := some "$.value", pattern := some "CABC" } = .ok r ∧
      ¬BindsAgree plainLibraries r "7" 0 {} 1000 := by
  refine ⟨_, rfl, ?_⟩
  intro h
  have hissued : ∃ q, cursorQuery plainLibraries
      { search := some "transfer", dataPattern := some "$.value", pattern := some "CABC",
        contractIdsList := [], fromTs := none, toTs := none, columnsList := ALLOWED_FIELDS,
        tenantId := none } "7" 0 = .ok q := ⟨_, rfl⟩
  rcases hissued with ⟨q, hq⟩
  exact (cursorQuery_agrees_iff _ hq).mp (h.cursor q hq) ⟨rfl, rfl⟩

end SorobanPulse.Events
