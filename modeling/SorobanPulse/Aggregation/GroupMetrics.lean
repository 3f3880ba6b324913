import SorobanPulse.Aggregation.Window
import SorobanPulse.Lib.Grouping

/-! Metrics per group: events are grouped by the text of the value at the group key.

        {"k": 1}   {"k": "1"}   {"k": null}   {}
        1          "1"          null          null        the texts

    A value is written in one way, and no two in the same way. Only for a missing value there is no
    text, and it takes the one of a null. -/

namespace SorobanPulse.Aggregation
open Events Lib

/-- Configuration for a group-based aggregation run. -/
structure GroupConfiguration where
  groupKey : String

/-- The group key as a JSON pointer, `/` in front of it if it is missing. -/
def GroupConfiguration.pointer (config : GroupConfiguration) : String :=
  match config.groupKey.toList with
  | '/' :: _ => config.groupKey
  | _ => "/" ++ config.groupKey

/-- Per-group statistics computed over a window. -/
structure GroupMetrics where
  groupKey : String
  ruleId : Uuid
  subscriptionId : Uuid
  windowStart : Timestamp
  windowEnd : Timestamp
  eventCount : ℤ
  avgValue : Option Float
  minValue : Option Float
  maxValue : Option Float
  sumValue : Option Float
  distinctCount : Option ℤ

/-- The three maps of the loop. -/
structure Groups where
  groups : AList fun _ : String => List Float
  groupCounts : AList fun _ : String => ℤ
  groupDistinct : AList fun _ : String => Finset String

section
variable (double : UInt64 → String)

/-- The group an event is put into. -/
def keyText (found : Option Value) : String := (found.map (jsonText double)).getD "null"

/-- An event is put into its group. -/
def Groups.add (path : String) (m : Groups) (event : WindowEvent) : Groups :=
  let found := pointer event.2 path
  let keyValue := keyText double found
  { groups := orInsert m.groups keyValue [] fun values => values ++ (found.bind asF64).toList
    groupCounts := orInsert m.groupCounts keyValue 0 (· + 1)
    groupDistinct := orInsert m.groupDistinct keyValue ∅
      (insert ((found.map (jsonText double)).getD "")) }

/-- Compute per-group metrics for events within a time window. -/
def computeGroupMetrics (ruleId subscriptionId : Uuid) (windowStart windowEnd : Timestamp)
    (events : List WindowEvent) (config : GroupConfiguration) : List GroupMetrics :=
  let m := events.foldl (Groups.add double config.pointer) ⟨∅, ∅, ∅⟩
  m.groups.entries.map fun ⟨groupKey, values⟩ =>
    { groupKey, ruleId, subscriptionId, windowStart, windowEnd
      eventCount := (m.groupCounts.lookup groupKey).getD 0
      avgValue := if values.isEmpty then none else some (avgF64 values)
      minValue := if values.isEmpty then none else some (values.foldl f64Min INFINITY)
      maxValue := if values.isEmpty then none else some (values.foldl f64Max NEG_INFINITY)
      sumValue := if values.isEmpty then none else some (sumF64 values)
      distinctCount := (m.groupDistinct.lookup groupKey).map fun s => (s.card : ℤ) }

end

open scoped Classical in
/-- The events whose value at the path is this one. -/
noncomputable def eventsOf (path : String) (events : List WindowEvent) (k : Option Value) :
    List WindowEvent :=
  events.filter fun e => pointer e.2 path = k

/-- One entry per value of the key, a missing one being a value of its own, and all events counted. -/
structure OnePerKey (path : String) (events : List WindowEvent) (metrics : List GroupMetrics) :
    Prop where
  entries : ∃ keys : List (Option Value), keys.Nodup ∧
    (∀ k, k ∈ keys ↔ ∃ e ∈ events, pointer e.2 path = k) ∧
    metrics.map (·.eventCount) = keys.map fun k => ((eventsOf path events k).length : ℤ)
  sum : (metrics.map (·.eventCount)).sum = events.length

/-- Some event has no value at the path, and some event a null. -/
def MissingAndNull (path : String) (events : List WindowEvent) : Prop :=
  (∃ e ∈ events, pointer e.2 path = none) ∧ ∃ e ∈ events, pointer e.2 path = some .null

section
variable {double : UInt64 → String} {path : String} {events : List WindowEvent}

/-! ### The loop -/

/-- The text that an event's group goes by. -/
def eventText (double : UInt64 → String) (path : String) (event : WindowEvent) : String :=
  keyText double (pointer event.2 path)

theorem foldl_add (double : UInt64 → String) (path : String) (events : List WindowEvent) :
    (events.foldl (Groups.add double path) ⟨∅, ∅, ∅⟩).groups =
        collect (eventText double path) []
          (fun values e => values ++ ((pointer e.2 path).bind asF64).toList) events ∧
      (events.foldl (Groups.add double path) ⟨∅, ∅, ∅⟩).groupCounts =
        collect (eventText double path) 0 (fun count _ => count + 1) events := by
  induction events using List.reverseRecOn with
  | nil => exact ⟨rfl, rfl⟩
  | append_singleton events e ih =>
    rw [List.foldl_append, List.foldl_cons, List.foldl_nil, collect_concat, collect_concat, ← ih.1,
      ← ih.2]
    exact ⟨rfl, rfl⟩

theorem foldl_count (group : List WindowEvent) (n : ℤ) :
    group.foldl (fun count _ => count + 1) n = n + group.length := by
  induction group generalizing n with
  | nil => simp
  | cons e group ih =>
    rw [List.foldl_cons, ih, List.length_cons]
    push_cast
    ring

/-- One entry per text, with the events that have it. -/
theorem exists_texts (double : UInt64 → String) (ruleId subscriptionId : Uuid)
    (windowStart windowEnd : Timestamp) (events : List WindowEvent) (config : GroupConfiguration) :
    ∃ texts : List String, texts.Nodup ∧
    (∀ t, t ∈ texts ↔ ∃ e ∈ events, eventText double config.pointer e = t) ∧
    (computeGroupMetrics double ruleId subscriptionId windowStart windowEnd events config).map
        (·.eventCount) =
      texts.map fun t => ((events.filter (eventText double config.pointer · = t)).length : ℤ) := by
  obtain ⟨hgroups, hcounts⟩ := foldl_add double config.pointer events
  refine ⟨(events.foldl (Groups.add double config.pointer) ⟨∅, ∅, ∅⟩).groups.keys,
    AList.keys_nodup _, fun t => ?_, ?_⟩
  · rw [hgroups, mem_keys_collect]
  · rw [computeGroupMetrics, List.map_map, AList.keys, List.keys, List.map_map]
    refine List.map_congr_left fun entry hentry => ?_
    have hkey : ∃ e ∈ events, eventText double config.pointer e = entry.1 := by
      rw [hgroups] at hentry
      exact (mem_keys_collect _ _ _).mp (List.mem_keys_of_mem hentry)
    simp only [Function.comp_apply, hcounts, lookup_collect, if_pos hkey, Option.getD_some,
      foldl_count, zero_add]

/-! ### Texts and values -/

theorem jsonText_null : jsonText double .null = "null" := rfl

/-- The text tells the values apart, but for a missing one and a null. -/
theorem eq_of_keyText_eq (hdouble : DoubleText double) (h : ¬MissingAndNull path events)
    {k k' : Option Value} (hk : ∃ e ∈ events, pointer e.2 path = k)
    (hk' : ∃ e ∈ events, pointer e.2 path = k') (htext : keyText double k = keyText double k') :
    k = k' := by
  have hnull {v : Value} (hv : jsonText double v = "null") : v = .null :=
    jsonText_injective hdouble (hv.trans jsonText_null.symm)
  cases k with
  | none =>
    cases k' with
    | none => rfl
    | some w =>
      obtain rfl := hnull htext.symm
      exact absurd ⟨hk, hk'⟩ h
  | some v =>
    cases k' with
    | none =>
      obtain rfl := hnull htext
      exact absurd ⟨hk', hk⟩ h
    | some w => exact congrArg some (jsonText_injective hdouble htext)

section
variable {texts : List String} {counts : List ℤ} (hnodup : texts.Nodup)
  (hmem : ∀ t, t ∈ texts ↔ ∃ e ∈ events, eventText double path e = t)
include hnodup hmem

/-- With a text of its own for each value, the entries are one per value. -/
theorem exists_keys (hdouble : DoubleText double) (h : ¬MissingAndNull path events) :
    ∃ keys : List (Option Value), keys.Nodup ∧
      (∀ k, k ∈ keys ↔ ∃ e ∈ events, pointer e.2 path = k) ∧
      (texts.map fun t => ((events.filter (eventText double path · = t)).length : ℤ)) =
        keys.map fun k => ((eventsOf path events k).length : ℤ) := by
  classical
  -- each text is that of a value that occurs
  have hvalue (t : String) (ht : t ∈ texts) :
      ∃ k : Option Value, (∃ e ∈ events, pointer e.2 path = k) ∧ keyText double k = t := by
    obtain ⟨e, he, heq⟩ := (hmem t).mp ht
    exact ⟨_, ⟨e, he, rfl⟩, heq⟩
  choose! value hoccurs htext using hvalue
  have hkeyText : (texts.map value).map (keyText double) = texts := by
    rw [List.map_map]
    conv_rhs => rw [← List.map_id texts]
    exact List.map_congr_left htext
  have hvalues : (texts.map value).Nodup := .of_map (keyText double) (hkeyText.symm ▸ hnodup)
  refine ⟨texts.map value, hvalues, fun k => ?_, ?_⟩
  · rw [List.mem_map]
    constructor
    · rintro ⟨t, ht, rfl⟩
      exact hoccurs t ht
    · intro hk
      have ht : keyText double k ∈ texts := by
        obtain ⟨e, he, rfl⟩ := hk
        exact (hmem _).mpr ⟨e, he, rfl⟩
      exact ⟨_, ht, eq_of_keyText_eq hdouble h (hoccurs _ ht) hk (htext _ ht)⟩
  · rw [List.map_map]
    refine List.map_congr_left fun t ht => ?_
    -- the events of a text are those of its value
    have hsame : events.filter (eventText double path · = t) = eventsOf path events (value t) := by
      refine List.filter_congr fun e he => decide_eq_decide.mpr ⟨fun heq => ?_, fun heq => ?_⟩
      · have hboth := heq.trans (htext t ht).symm
        exact eq_of_keyText_eq hdouble h ⟨e, he, rfl⟩ (hoccurs t ht) hboth
      · rw [eventText, heq, htext t ht]
    exact congrArg (fun l : List WindowEvent => (l.length : ℤ)) hsame

/-- As many values as texts: none is without a text of its own. -/
theorem not_missingAndNull {keys : List (Option Value)}
    (hkeys : ∀ k, k ∈ keys ↔ ∃ e ∈ events, pointer e.2 path = k)
    (hlength : keys.length = texts.length) : ¬MissingAndNull path events := by
  rintro ⟨⟨e, he, hmissing⟩, e', he', hnull⟩
  have hsubset : texts ⊆ keys.map (keyText double) := by
    intro t ht
    obtain ⟨e, he, rfl⟩ := (hmem t).mp ht
    exact List.mem_map.mpr ⟨_, (hkeys _).mpr ⟨e, he, rfl⟩, rfl⟩
  have hperm := (hnodup.subperm hsubset).perm_of_length_le
    (by rw [List.length_map, hlength])
  have hkeysNodup : (keys.map (keyText double)).Nodup := hperm.nodup_iff.mp hnodup
  have hsame : keyText double none = keyText double (some .null) := rfl
  have := List.inj_on_of_nodup_map hkeysNodup ((hkeys _).mpr ⟨e, he, hmissing⟩)
    ((hkeys _).mpr ⟨e', he', hnull⟩) hsame
  cases this

end

/-- The entries are one per value of the key, but for windows with both a missing value and a
    null. -/
theorem onePerKey_iff (hdouble : DoubleText double) (ruleId subscriptionId : Uuid)
    (windowStart windowEnd : Timestamp) (events : List WindowEvent) (config : GroupConfiguration) :
    OnePerKey config.pointer events (computeGroupMetrics double ruleId subscriptionId windowStart
      windowEnd events config) ↔ ¬MissingAndNull config.pointer events := by
  obtain ⟨texts, hnodup, hmem, hcounts⟩ := exists_texts double ruleId subscriptionId windowStart
    windowEnd events config
  constructor
  · rintro ⟨⟨keys, -, hkeys, heq⟩, -⟩
    refine not_missingAndNull hnodup hmem hkeys ?_
    have hlength := congrArg List.length (hcounts.symm.trans heq)
    rw [List.length_map, List.length_map] at hlength
    exact hlength.symm
  · intro h
    obtain ⟨keys, hkeysNodup, hkeys, heq⟩ := exists_keys hnodup hmem hdouble h
    refine ⟨⟨keys, hkeysNodup, hkeys, hcounts.trans heq⟩, ?_⟩
    have hsum := sum_length_groups hnodup hmem
    rw [hcounts, ← hsum, Nat.cast_list_sum, List.map_map]
    rfl

end

/-- A window's stored results say what they have to exactly when nothing is filtered out, no count's
    entry is replaced by another number, and all events are of one group. Over no values the least,
    the greatest and the mean are null. The metrics are right up to a missing value and a null. -/
theorem aggregation_reports (double : UInt64 → String) (hdouble : DoubleText double) :
    (∀ (K : Type) [DecidableEq K] (bucket : GroupBy → Value → K)
        (fieldSelectors : Value → Option (List FieldSelector))
        (groupFields : Value → Option (List GroupBy)) (call : Call) (db : Database)
        (ruleId subscriptionId : Uuid) (windowStart windowEnd : Timestamp)
        (result : AggregationResult) (db' : Database),
      evaluateAggregationWindow double fieldSelectors call db ruleId subscriptionId windowStart
          windowEnd = (.ok result, db') →
        ∃ rule, db.rule ruleId = some rule ∧
          (ReportsWindow bucket fieldSelectors groupFields rule
              (db.windowEvents subscriptionId windowStart windowEnd)
              db.aggregationResults db'.aggregationResults ↔
            Faithful bucket fieldSelectors groupFields rule
              (db.windowEvents subscriptionId windowStart windowEnd))) ∧
      (∀ (events : List WindowEvent) (selector : FieldSelector),
        (selector.operation = .min ∨ selector.operation = .max ∨ selector.operation = .avg) →
          numbersAt selector.path events = [] → computeOperation double events selector = .null) ∧
      ∀ (ruleId subscriptionId : Uuid) (windowStart windowEnd : Timestamp)
        (events : List WindowEvent) (config : GroupConfiguration),
        OnePerKey config.pointer events (computeGroupMetrics double ruleId subscriptionId
          windowStart windowEnd events config) ↔ ¬MissingAndNull config.pointer events := by
  refine ⟨?_, fun events selector => computeOperation_of_empty, onePerKey_iff hdouble⟩
  intro K _ bucket fieldSelectors groupFields call db ruleId subscriptionId start stop result db'
  exact reportsWindow_iff hdouble bucket fieldSelectors groupFields call db ruleId subscriptionId
    start stop

/-- The rule `{path: "/action", operation: count}` over this filter and these events. -/
def actionCounts (filter : Option String) (values : List Value) : Database where
  aggregationRules := [⟨1, .array [], none, filter⟩]
  sorobanEvents := values.map fun v => ⟨3, 2, 5, v⟩
  aggregationResults := []

def countActions (_ : Value) : Option (List FieldSelector) := some [⟨"/action", .count, none⟩]

def transferEvent : Value := .object [("action", .string "transfer")]

theorem aggregation_reports_transfer :
    (∃ rule, (actionCounts (some "/action") [transferEvent]).rule 1 = some rule ∧
      (ReportsWindow (fun _ _ => ()) countActions (fun _ => none) rule
          ((actionCounts (some "/action") [transferEvent]).windowEvents 2 0 10) []
          (evaluateAggregationWindow bitsText countActions ⟨9, 10, 10, fun _ => none⟩
            (actionCounts (some "/action") [transferEvent]) 1 2 0 10).2.aggregationResults ↔
        Faithful (fun _ _ => ()) countActions (fun _ => none) rule
          ((actionCounts (some "/action") [transferEvent]).windowEvents 2 0 10))) ∧
      computeOperation bitsText [(3, transferEvent)] ⟨"/amount", .min, none⟩ = .null :=
  ⟨(aggregation_reports bitsText doubleText_bitsText).1 Unit (fun _ _ => ()) countActions
      (fun _ => none) ⟨9, 10, 10, fun _ => none⟩ (actionCounts (some "/action") [transferEvent])
      1 2 0 10 _ _ rfl,
    (aggregation_reports bitsText doubleText_bitsText).2.1 [(3, transferEvent)]
      ⟨"/amount", .min, none⟩ (.inl rfl) rfl⟩

/-- An event that the filter rejects is counted, and an event without the key joins those with a
    null. -/
theorem not_reports_rejected :
    ¬ReportsWindow (fun _ _ => ()) countActions (fun _ => none) ⟨1, .array [], none, some "/action"⟩
        ((actionCounts (some "/action") [transferEvent, .object []]).windowEvents 2 0 10) []
        (evaluateAggregationWindow bitsText countActions ⟨9, 10, 10, fun _ => none⟩
          (actionCounts (some "/action") [transferEvent, .object []]) 1 2 0 10).2.aggregationResults ∧
      ¬OnePerKey "/k" [(3, .object [("k", .null)]), (4, .object [])] (computeGroupMetrics bitsText
        1 2 0 10 [(3, .object [("k", .null)]), (4, .object [])] ⟨"k"⟩) := by
  constructor
  · intro h
    obtain ⟨rule, hrule, hiff⟩ := reportsWindow_iff doubleText_bitsText (fun _ _ => ()) countActions
      (fun _ => none) ⟨9, 10, 10, fun _ => none⟩
      (actionCounts (some "/action") [transferEvent, .object []]) 1 2 0 10 rfl
    cases hrule
    have hmem : (3, .object []) ∈
        (actionCounts (some "/action") [transferEvent, .object []]).windowEvents 2 0 10 := by
      simp [actionCounts, Database.windowEvents]
    exact absurd ((hiff.mp h).allPass "/action" rfl _ hmem) (by decide)
  · have hpointer : GroupConfiguration.pointer ⟨"k"⟩ = "/k" := by decide
    rw [← hpointer, onePerKey_iff doubleText_bitsText, not_not]
    exact ⟨⟨(4, .object []), by simp, rfl⟩, (3, .object [("k", .null)]), by simp, rfl⟩

end SorobanPulse.Aggregation
