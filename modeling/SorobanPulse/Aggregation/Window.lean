import SorobanPulse.Events.PaginationParams
import SorobanPulse.JsonInjective
import SorobanPulse.Jsonb
import SorobanPulse.Normalizer.Pointer

/-! Aggregation of the events of a window, by a rule of selectors.

        events in the window ──────────────────────────────▶ event_count
              │ filter_condition
              ▼
        filtered events ──selector──▶ alias ↦ operation     aggregated_data

    The count is taken in front of the filter and the selectors are computed behind it. What the
    rule groups by is fetched and not looked at. -/

namespace SorobanPulse.Aggregation
open Events Lib Normalizer

/-! ### JSON pointers -/

/-- `parse_index` -/
def parseIndex (token : String) : Option ℕ :=
  match token.toList with
  | '+' :: _ => none
  | '0' :: _ :: _ => none
  | ds => parseUnsigned (2 ^ 64) ds

def follow : Value → List String → Option Value
  | value, [] => some value
  | .object map, token :: rest => (map.lookup token).bind fun value => follow value rest
  | .array list, token :: rest =>
    (parseIndex token).bind fun i => list[i]?.bind fun value => follow value rest
  | _, _ :: _ => none

/-- `value.pointer(path)` -/
def pointer (value : Value) (path : String) : Option Value :=
  match path.toList with
  | [] => some value
  | '/' :: rest => follow value ((rest.splitOn '/').map unescape)
  | _ => none

/-! ### Operations -/

/-- `value.as_f64()` -/
def asF64 : Value → Option Float
  | .number (.int n) => some (Float.ofInt n)
  | .number (.float bits) => some (Float.ofBits bits)
  | _ => none

/-- `json!(x)`: infinities and NaN are no JSON numbers. -/
def jsonF64 (x : Float) : Value := if x.isFinite then .number (.float x.toBits) else .null

def f64Min (a b : Float) : Float :=
  if a.isNaN then b else if b.isNaN then a else if b < a then b else a

def f64Max (a b : Float) : Float :=
  if a.isNaN then b else if b.isNaN then a else if a < b then b else a

def INFINITY : Float := .ofBits 0x7FF0000000000000
def NEG_INFINITY : Float := .ofBits 0xFFF0000000000000

/-- `values.iter().sum::<f64>()`, which starts at -0. -/
def sumF64 (values : List Float) : Float := values.foldl (· + ·) (.ofBits 0x8000000000000000)

def avgF64 (values : List Float) : Float := sumF64 values / Float.ofNat values.length

inductive AggregationOp where
  | count | sum | avg | min | max | distinctCount
  deriving DecidableEq

structure FieldSelector where
  path : String
  operation : AggregationOp
  aliasName : Option String := none

abbrev WindowEvent := Uuid × Value

/-- The numbers at a path. -/
def numbersAt (path : String) (events : List WindowEvent) : List Float :=
  events.filterMap fun e => (pointer e.2 path).bind asF64

section
variable (double : UInt64 → String)

/-- The texts at a path. -/
def textsAt (path : String) (events : List WindowEvent) : List String :=
  events.filterMap fun e => (pointer e.2 path).map (jsonText double)

/-- Compute aggregation operation on events. -/
def computeOperation (events : List WindowEvent) (selector : FieldSelector) : Value :=
  let values := numbersAt selector.path events
  match selector.operation with
  | .count => .number (.int events.length)
  | .sum => jsonF64 (sumF64 values)
  | .avg => if values.isEmpty then .null else jsonF64 (avgF64 values)
  | .min => jsonF64 (values.foldl f64Min INFINITY)
  | .max => jsonF64 (values.foldl f64Max NEG_INFINITY)
  | .distinctCount => .number (.int (textsAt double selector.path events).dedup.length)

/-! ### A window -/

/-- Apply a filter condition to an event. -/
def applyFilter (event : Value) (filter : String) : Bool :=
  match pointer event filter with
  | some (.bool b) => b
  | some .null => false
  | some _ => true
  | none => false

/-- What the aggregation reads of a rule. -/
structure AggregationRule where
  id : Uuid
  fields : Value
  groupBy : Option Value
  filterCondition : Option String

structure AggregationResult where
  id : Uuid
  ruleId : Uuid
  subscriptionId : Uuid
  windowStart : Timestamp
  windowEnd : Timestamp
  groupValues : Option Value
  aggregatedData : Value
  eventCount : ℤ
  createdAt : Timestamp

/-- The events that pass the rule's filter. -/
def AggregationRule.filteredEvents (rule : AggregationRule) (events : List WindowEvent) :
    List WindowEvent :=
  match rule.filterCondition with
  | some filter => events.filter fun e => applyFilter e.2 filter
  | none => events

/-- `selector.alias.unwrap_or(selector.path)` -/
def FieldSelector.name (selector : FieldSelector) : String := selector.aliasName.getD selector.path

/-- `aggregated_data`, selector after selector. -/
def aggregate (events : List WindowEvent) (selectors : List FieldSelector) :
    List (String × Value) :=
  selectors.foldl
    (fun obj selector => insertMember selector.name (computeOperation double events selector) obj) []

structure EventRow where
  id : Uuid
  subscriptionId : Uuid
  timestamp : Timestamp
  value : Value

structure Database where
  aggregationRules : List AggregationRule
  sorobanEvents : List EventRow
  aggregationResults : List AggregationResult

/-- The statements that the database is sent. -/
inductive Query where
  | fetchRule
  | fetchEvents
  | storeResult

/-- `SELECT … FROM aggregation_rules WHERE id = $1` -/
def Database.rule (db : Database) (ruleId : Uuid) : Option AggregationRule :=
  db.aggregationRules.find? (·.id = ruleId)

/-- `SELECT id, value FROM soroban_events WHERE … timestamp >= $2 AND timestamp < $3` -/
def Database.windowEvents (db : Database) (subscriptionId : Uuid) (start stop : Timestamp) :
    List WindowEvent :=
  (db.sorobanEvents.filter fun row =>
    row.subscriptionId = subscriptionId ∧ start ≤ row.timestamp ∧ row.timestamp < stop).map
    fun row => (row.id, row.value)

/-- What a call draws: an id and two readings of the clock. And why the database fails a statement,
    as it does the second one where nobody has created `soroban_events`. -/
structure Call where
  resultId : Uuid
  storedAt : Timestamp
  returnedAt : Timestamp
  failure : Query → Option String

variable (fieldSelectors : Value → Option (List FieldSelector))

/-- `serde_json::from_value(rule.fields).unwrap_or_default()` -/
def AggregationRule.selectors (rule : AggregationRule) : List FieldSelector :=
  (fieldSelectors rule.fields).getD []

/-- Evaluate an aggregation window and store the result. -/
def evaluateAggregationWindow (call : Call) (db : Database) (ruleId subscriptionId : Uuid)
    (windowStart windowEnd : Timestamp) : Except String AggregationResult × Database :=
  match call.failure .fetchRule with
  | some e => (.error ("Failed to fetch aggregation rule: " ++ e), db)
  | none =>
    match db.rule ruleId with
    | none => (.error ("Aggregation rule not found: " ++ uuidText ruleId), db)
    | some rule =>
      match call.failure .fetchEvents with
      | some e => (.error ("Failed to fetch events: " ++ e), db)
      | none =>
        let events := db.windowEvents subscriptionId windowStart windowEnd
        let eventCount : ℤ := events.length
        let filteredEvents := rule.filteredEvents events
        let aggregatedData := aggregate double filteredEvents (rule.selectors fieldSelectors)
        let result (createdAt : Timestamp) : AggregationResult :=
          { id := call.resultId
            ruleId, subscriptionId, windowStart, windowEnd
            groupValues := none
            aggregatedData := .object aggregatedData
            eventCount, createdAt }
        match call.failure .storeResult with
        | some e => (.error ("Failed to store aggregation result: " ++ e), db)
        | none =>
          let stored := { db with
            aggregationResults := db.aggregationResults ++ [result call.storedAt] }
          (.ok (result call.returnedAt), stored)

end

/-! ### What the results of a window have to say -/

/-- A result counts the events of its group, and so does every count among its data. -/
structure ReportsOn (selectors : List FieldSelector) (group : List WindowEvent)
    (r : AggregationResult) : Prop where
  eventCount : r.eventCount = group.length
  counts : ∀ s ∈ selectors, s.operation = .count →
    member r.aggregatedData s.name = some (.number (.int r.eventCount))

structure GroupBy where
  field : String
  interval : Option String

section
variable {K : Type} [DecidableEq K] (bucket : GroupBy → Value → K)

/-- How a field tells events apart is nowhere said: into some buckets. -/
def groupKey (fields : List GroupBy) (event : Value) : List K := fields.map fun g => bucket g event

/-- One result per group, and one for all where nothing is grouped by. -/
def Reports (fields : List GroupBy) (selectors : List FieldSelector) (passed : List WindowEvent)
    (results : List AggregationResult) : Prop :=
  if fields = [] then ∃ r, results = [r] ∧ ReportsOn selectors passed r
  else ∃ keys : List (List K), keys.Nodup ∧
    (∀ k, k ∈ keys ↔ ∃ e ∈ passed, groupKey bucket fields e.2 = k) ∧
    List.Forall₂ (fun k r =>
      ReportsOn selectors (passed.filter fun e => groupKey bucket fields e.2 = k) r) keys results

/-- All events are of one group. -/
def OneGroup (fields : List GroupBy) (events : List WindowEvent) : Prop :=
  fields = [] ∨ events ≠ [] ∧
    ∀ e ∈ events, ∀ e' ∈ events, groupKey bucket fields e.2 = groupKey bucket fields e'.2

variable (fieldSelectors : Value → Option (List FieldSelector))
  (groupFields : Value → Option (List GroupBy))

/-- What the rule groups by. -/
def AggregationRule.groupings (rule : AggregationRule) : List GroupBy :=
  (rule.groupBy.bind groupFields).getD []

/-- The results that were stored for a window are about its events that pass the filter. -/
def ReportsWindow (rule : AggregationRule) (events : List WindowEvent)
    (before after : List AggregationResult) : Prop :=
  ∃ results, after = before ++ results ∧ Reports bucket (rule.groupings groupFields)
    (rule.selectors fieldSelectors) (rule.filteredEvents events) results

end

/-- The selector whose value stays under a name. -/
def lastNamed (selectors : List FieldSelector) (name : String) : Option FieldSelector :=
  (selectors.filter (·.name = name)).getLast?

/-- Every event has a value at the path, and no two the same. -/
def EachDifferent (path : String) (events : List WindowEvent) : Prop :=
  (∀ e ∈ events, (pointer e.2 path).isSome) ∧ (events.map fun e => pointer e.2 path).Nodup

/-- Under the name of a count stands a count at last, or what comes to the same. -/
def CountsStay (selectors : List FieldSelector) (events : List WindowEvent) : Prop :=
  ∀ s ∈ selectors, s.operation = .count → ∀ t ∈ lastNamed selectors s.name,
    t.operation = .count ∨ t.operation = .distinctCount ∧ EachDifferent t.path events

def AllPass (rule : AggregationRule) (events : List WindowEvent) : Prop :=
  ∀ filter ∈ rule.filterCondition, ∀ e ∈ events, applyFilter e.2 filter = true

/-- What a window has to be like for one result to say all this. -/
structure Faithful {K : Type} (bucket : GroupBy → Value → K)
    (fieldSelectors : Value → Option (List FieldSelector))
    (groupFields : Value → Option (List GroupBy)) (rule : AggregationRule)
    (events : List WindowEvent) : Prop where
  allPass : AllPass rule events
  countsStay : CountsStay (rule.selectors fieldSelectors) events
  oneGroup : OneGroup bucket (rule.groupings groupFields) events

section
variable {double : UInt64 → String} {events : List WindowEvent} {selectors : List FieldSelector}

/-! ### Operations over no values -/

theorem isFinite_infinity : INFINITY.isFinite = false := by decide +kernel
theorem isFinite_neg_infinity : NEG_INFINITY.isFinite = false := by decide +kernel

/-- Over no values the least, the greatest and the mean are null. -/
theorem computeOperation_of_empty {selector : FieldSelector}
    (hop : selector.operation = .min ∨ selector.operation = .max ∨ selector.operation = .avg)
    (hnone : numbersAt selector.path events = []) :
    computeOperation double events selector = .null := by
  rw [computeOperation, hnone]
  rcases hop with h | h | h
  · rw [h]
    exact if_neg (Bool.eq_false_iff.mp isFinite_infinity)
  · rw [h]
    exact if_neg (Bool.eq_false_iff.mp isFinite_neg_infinity)
  · rw [h]
    rfl

/-! ### Counts -/

theorem jsonF64_ne_int (x : Float) (n : ℤ) : jsonF64 x ≠ .number (.int n) := by
  rw [jsonF64]
  split
  · exact fun h => by cases h
  · exact fun h => by cases h

theorem filteredEvents_eq_self_iff {rule : AggregationRule} :
    (rule.filteredEvents events).length = events.length ↔ AllPass rule events := by
  rw [AggregationRule.filteredEvents, AllPass]
  cases rule.filterCondition with
  | none => simp
  | some filter => simp [List.length_filter_eq_length_iff]

theorem map_some_textsAt {path : String} (h : ∀ e ∈ events, (pointer e.2 path).isSome) :
    (textsAt double path events).map some =
      (events.map fun e => pointer e.2 path).map (Option.map (jsonText double)) := by
  induction events with
  | nil => rfl
  | cons e events ih =>
    obtain ⟨hhead, htail⟩ := List.forall_mem_cons.mp h
    obtain ⟨v, hv⟩ := Option.isSome_iff_exists.mp hhead
    rw [List.map_cons, List.map_cons, ← ih htail, textsAt, List.filterMap_cons, hv]
    rfl

/-- Distinct texts are distinct values, one for each event. -/
theorem length_dedup_textsAt (hdouble : DoubleText double) (path : String) :
    (textsAt double path events).dedup.length = events.length ↔ EachDifferent path events := by
  have htexts : (textsAt double path events).length ≤ events.length := List.length_filterMap_le _ _
  have hdedup := (List.dedup_sublist (textsAt double path events)).length_le
  have hall : (textsAt double path events).length = events.length ↔
      ∀ e ∈ events, (pointer e.2 path).isSome := by
    rw [textsAt, List.filterMap_length_eq_length]
    simp
  have hnodup : (textsAt double path events).dedup.length = (textsAt double path events).length ↔
      (textsAt double path events).Nodup := by
    rw [← List.dedup_eq_self]
    exact ⟨(List.dedup_sublist _).eq_of_length, congrArg _⟩
  have hvalues (h : ∀ e ∈ events, (pointer e.2 path).isSome) :
      (textsAt double path events).Nodup ↔ (events.map fun e => pointer e.2 path).Nodup := by
    rw [← List.nodup_map_iff (Option.some_injective _), map_some_textsAt h,
      List.nodup_map_iff (Option.map_injective (jsonText_injective hdouble))]
  constructor
  · intro h
    have hsome := hall.mp (le_antisymm htexts (h.symm.trans_le hdedup))
    refine ⟨hsome, (hvalues hsome).mp (hnodup.mp ?_)⟩
    rw [h, hall.mpr hsome]
  · rintro ⟨hsome, hdistinct⟩
    rw [hnodup.mpr ((hvalues hsome).mpr hdistinct), hall.mpr hsome]

theorem computeOperation_eq_length_iff (hdouble : DoubleText double) {selector : FieldSelector} :
    computeOperation double events selector = .number (.int events.length) ↔
      selector.operation = .count ∨
        selector.operation = .distinctCount ∧ EachDifferent selector.path events := by
  rw [← length_dedup_textsAt hdouble, computeOperation]
  cases selector.operation with
  | count => exact iff_of_true rfl (.inl rfl)
  | distinctCount => simp
  | avg =>
    simp only [reduceCtorEq, false_and, or_false, iff_false]
    split
    · exact fun h => by cases h
    · exact jsonF64_ne_int _ _
  | sum => simpa using jsonF64_ne_int _ _
  | min => simpa using jsonF64_ne_int _ _
  | max => simpa using jsonF64_ne_int _ _

/-- Under a name stands the value of the last selector of this name. -/
theorem lookup_aggregate (name : String) : (aggregate double events selectors).lookup name =
    (lastNamed selectors name).map (computeOperation double events) := by
  induction selectors using List.reverseRecOn with
  | nil => rfl
  | append_singleton selectors s ih =>
    rw [aggregate, List.foldl_append, ← aggregate, List.foldl_cons, List.foldl_nil, lastNamed,
      List.filter_append]
    by_cases hname : s.name = name
    · have hsingle : [s].filter (·.name = name) = [s] := by simp [hname]
      rw [hsingle, List.getLast?_concat, ← hname, lookup_insertMember]
      rfl
    · have hsingle : [s].filter (·.name = name) = [] := by simp [hname]
      rw [hsingle, List.append_nil, lookup_insertMember_of_ne (Ne.symm hname), ih, lastNamed]

theorem lastNamed_isSome {s : FieldSelector} (hs : s ∈ selectors) :
    (lastNamed selectors s.name).isSome := by
  rw [lastNamed, List.getLast?_isSome]
  exact List.ne_nil_of_mem (List.mem_filter.mpr ⟨hs, decide_eq_true rfl⟩)

/-- The counts among the data are the number of events. -/
theorem counts_iff (hdouble : DoubleText double) :
    (∀ s ∈ selectors, s.operation = .count →
      member (.object (aggregate double events selectors)) s.name =
        some (.number (.int events.length))) ↔ CountsStay selectors events := by
  refine forall₃_congr fun s hs _ => ?_
  obtain ⟨t, ht⟩ := Option.isSome_iff_exists.mp (lastNamed_isSome hs)
  rw [member, lookup_aggregate, ht]
  simp [computeOperation_eq_length_iff hdouble]

/-! ### A window's result -/

theorem filteredEvents_of_allPass {rule : AggregationRule} (h : AllPass rule events) :
    rule.filteredEvents events = events := by
  rw [AggregationRule.filteredEvents]
  split
  · next filter heq => exact List.filter_eq_self.mpr (h filter heq)
  · rfl

section
variable {rule : AggregationRule} {r : AggregationResult}

theorem reportsOn_iff (hdouble : DoubleText double) (hcount : r.eventCount = events.length)
    (hdata : r.aggregatedData =
      .object (aggregate double (rule.filteredEvents events) selectors)) :
    ReportsOn selectors (rule.filteredEvents events) r ↔
      AllPass rule events ∧ CountsStay selectors events := by
  constructor
  · rintro ⟨hevents, hcounts⟩
    have hpass : AllPass rule events :=
      filteredEvents_eq_self_iff.mp (by exact_mod_cast hevents.symm.trans hcount)
    rw [hdata, filteredEvents_of_allPass hpass, hcount] at hcounts
    exact ⟨hpass, (counts_iff hdouble).mp hcounts⟩
  · rintro ⟨hpass, hstay⟩
    rw [filteredEvents_of_allPass hpass] at hdata ⊢
    refine ⟨hcount, ?_⟩
    rw [hdata, hcount]
    exact (counts_iff hdouble).mpr hstay

variable {K : Type} [DecidableEq K] {bucket : GroupBy → Value → K} {fields : List GroupBy}

/-- A single result is a result per group where there is one group. -/
theorem reports_singleton_iff :
    Reports bucket fields selectors events [r] ↔
      ReportsOn selectors events r ∧ OneGroup bucket fields events := by
  rw [Reports, OneGroup]
  split
  · next hnil =>
    simp [hnil]
  · next hne =>
    rw [or_iff_right hne]
    -- a group that holds every event is the whole window
    have hgroup {k : List K} (h : ∀ e ∈ events, groupKey bucket fields e.2 = k) :
        (events.filter fun e => groupKey bucket fields e.2 = k) = events :=
      List.filter_eq_self.mpr fun e he => decide_eq_true (h e he)
    constructor
    · rintro ⟨keys, -, hkeys, hresults⟩
      cases hresults with
      | cons hreport htail =>
        cases htail
        next k =>  -- there is one key, so every event has it
        have hall : ∀ e ∈ events, groupKey bucket fields e.2 = k := fun e he =>
          List.mem_singleton.mp ((hkeys _).mpr ⟨e, he, rfl⟩)
        obtain ⟨e, he, -⟩ := (hkeys k).mp (List.mem_singleton.mpr rfl)
        rw [hgroup hall] at hreport
        exact ⟨hreport, List.ne_nil_of_mem he, fun e he e' he' =>
          (hall e he).trans (hall e' he').symm⟩
    · rintro ⟨hreport, hne, hsame⟩
      obtain ⟨e₀, he₀⟩ := List.exists_mem_of_ne_nil events hne
      have hall : ∀ e ∈ events, groupKey bucket fields e.2 = groupKey bucket fields e₀.2 :=
        fun e he => hsame e he e₀ he₀
      -- the one key is that of any event
      refine ⟨[groupKey bucket fields e₀.2], List.nodup_singleton _, fun k => ?_, ?_⟩
      · rw [List.mem_singleton]
        constructor
        · rintro rfl
          exact ⟨e₀, he₀, rfl⟩
        · rintro ⟨e, he, rfl⟩
          exact hall e he
      · rw [List.forall₂_cons, hgroup hall]
        exact ⟨hreport, .nil⟩

end

/-- A call that succeeds stores one result: the count of the events before the filter, and what the
    selectors make of those behind it. -/
theorem exists_stored {fieldSelectors : Value → Option (List FieldSelector)} {call : Call}
    {db db' : Database} {ruleId subscriptionId : Uuid} {windowStart windowEnd : Timestamp}
    {result : AggregationResult}
    (h : evaluateAggregationWindow double fieldSelectors call db ruleId subscriptionId windowStart
      windowEnd = (.ok result, db')) :
    ∃ rule r, db.rule ruleId = some rule ∧
      db'.aggregationResults = db.aggregationResults ++ [r] ∧
      r.eventCount = ((db.windowEvents subscriptionId windowStart windowEnd).length : ℤ) ∧
      r.aggregatedData = .object (aggregate double
        (rule.filteredEvents (db.windowEvents subscriptionId windowStart windowEnd))
        (rule.selectors fieldSelectors)) := by
  rw [evaluateAggregationWindow] at h
  split at h
  · cases h
  split at h
  · cases h
  next rule hrule =>
  split at h
  · cases h
  dsimp only at h
  split at h
  · cases h
  cases h
  exact ⟨rule, _, hrule, rfl, rfl, rfl⟩

theorem reportsWindow_iff (hdouble : DoubleText double) {K : Type} [DecidableEq K]
    (bucket : GroupBy → Value → K) (fieldSelectors : Value → Option (List FieldSelector))
    (groupFields : Value → Option (List GroupBy)) (call : Call) (db : Database)
    (ruleId subscriptionId : Uuid) (windowStart windowEnd : Timestamp)
    {result : AggregationResult} {db' : Database}
    (h : evaluateAggregationWindow double fieldSelectors call db ruleId subscriptionId windowStart
      windowEnd = (.ok result, db')) :
    ∃ rule, db.rule ruleId = some rule ∧
      (ReportsWindow bucket fieldSelectors groupFields rule
          (db.windowEvents subscriptionId windowStart windowEnd)
          db.aggregationResults db'.aggregationResults ↔
        Faithful bucket fieldSelectors groupFields rule
          (db.windowEvents subscriptionId windowStart windowEnd)) := by
  obtain ⟨rule, r, hrule, hstored, hcount, hdata⟩ := exists_stored h
  refine ⟨rule, hrule, ?_⟩
  have hresults (results : List AggregationResult) :
      db'.aggregationResults = db.aggregationResults ++ results ↔ results = [r] := by
    rw [hstored, List.append_cancel_left_eq]
    exact eq_comm
  simp only [ReportsWindow, hresults, exists_eq_left, reports_singleton_iff]
  rw [reportsOn_iff hdouble hcount hdata]
  constructor
  · rintro ⟨⟨hpass, hstay⟩, hgroup⟩
    rw [filteredEvents_of_allPass hpass] at hgroup
    exact ⟨hpass, hstay, hgroup⟩
  · rintro ⟨hpass, hstay, hgroup⟩
    rw [filteredEvents_of_allPass hpass]
    exact ⟨⟨hpass, hstay⟩, hgroup⟩

end

end SorobanPulse.Aggregation
