import SorobanPulse.Lib.ReadThrough
import SorobanPulse.Events.CursorWalk

/-! `events_aggregations`: four counts over the events of a filter, behind a cache.

        agg:{contract_id}:{event_type}:{from_ledger}:{to_ledger}:{time_bucket}:{limit}

    The two filters are free texts, which may have the separator in them, and an absent filter is
    written like an empty one, an absent bound like 0. The other parts of the key can be read back. -/

namespace SorobanPulse.Events
open Lib
open Lib.ReadThrough (Agree AnswersFresh Serves)

structure EventsAggregationParams where
  contractId : Option String := none
  eventType : Option String := none
  fromLedger : Option ℤ := none
  toLedger : Option ℤ := none
  timeBucket : String := "daily"
  limit : Option ℤ := none

inductive AggregationError where
  | Validation (message : String)
  | Internal (message : String)
  deriving DecidableEq

/-- A count for each value, as the response lists them. -/
abbrev Counts := List (String × ℕ)

structure AggregationsResponse where
  timeBucket : String
  contractId : Option String
  eventType : Option String
  fromLedger : Option ℤ
  toLedger : Option ℤ
  byEventType : Counts
  byContractId : Counts
  byTime : Counts
  byTopic : Counts
  deriving DecidableEq

/-- What Rust and PostgreSQL compute on a text, a time or a payload. -/
structure AggregationLibraries where
  /-- `str::to_lowercase`. -/
  toLowercase : String → String
  dateTrunc : String → Timestamp → Timestamp
  toRfc3339 : Timestamp → String
  /-- `event_data->>'topic'`. -/
  topicText : Value → Option String
  /-- How the database orders groups of one count. -/
  tie : String → ℕ
  /-- The error for a text with a NUL in it. -/
  nulError : String

section
variable (libs : AggregationLibraries) (p : EventsAggregationParams)

/-! ### The response -/

/-- `params.limit.unwrap_or(100).max(1).min(500)`. -/
def EventsAggregationParams.effectiveLimit : ℕ := (min (max (p.limit.getD 100) 1) 500).toNat

/-- The `WHERE` clause. -/
def EventsAggregationParams.selects (row : EventRow) : Bool :=
  p.contractId.all (row.contractId = ·) && p.eventType.all (row.eventType = ·) &&
    p.fromLedger.all (· ≤ row.ledger) && p.toLedger.all (row.ledger ≤ ·)

/-- `GROUP BY` with `COUNT(*)`. -/
def groupCounts {α : Type} [DecidableEq α] (keys : List α) : List (α × ℕ) :=
  keys.dedup.map fun k => (k, keys.count k)

/-- `ORDER BY count DESC LIMIT …`. -/
def topCounts (limit : ℕ) (keys : List String) : Counts :=
  (Keyset.sortOn (fun g => toLex (-(g.2 : ℤ), libs.tie g.1)) (groupCounts keys)).take limit

def TIME_BUCKETS : List String := ["hourly", "daily", "weekly"]

def truncFn (timeBucket : String) : String :=
  if timeBucket = "hourly" then "hour" else if timeBucket = "weekly" then "week" else "day"

/-- `ORDER BY bucket DESC LIMIT …`. -/
def timeCounts (timeBucket : String) (limit : ℕ) (rows : List EventRow) : Counts :=
  let buckets := rows.map fun row => libs.dateTrunc (truncFn timeBucket) row.timestamp
  ((Keyset.sortOn (fun g => -g.1) (groupCounts buckets)).take limit).map fun g =>
    (libs.toRfc3339 g.1, g.2)

/-- A text parameter of a statement has no NUL. -/
def bindable (text : Option String) : Bool := text.all fun s => !s.toList.contains (Char.ofNat 0)

/-- The response without the cache. -/
def freshAggregations (events : List EventRow) : Except AggregationError AggregationsResponse :=
  let timeBucket := libs.toLowercase p.timeBucket
  if !TIME_BUCKETS.contains timeBucket then
    .error (.Validation "time_bucket must be 'hourly', 'daily', or 'weekly'")
  else if !(bindable p.contractId && bindable p.eventType) then
    .error (.Internal ("event_type aggregation failed: " ++ libs.nulError))
  else
    let rows := events.filter p.selects
    let limit := p.effectiveLimit
    .ok {
      timeBucket
      contractId := p.contractId
      eventType := p.eventType
      fromLedger := p.fromLedger
      toLedger := p.toLedger
      byEventType := topCounts libs limit (rows.map (·.eventType))
      byContractId := topCounts libs limit (rows.map (·.contractId))
      byTime := timeCounts libs timeBucket limit rows
      byTopic := topCounts libs limit (rows.filterMap fun row => libs.topicText row.eventData) }

/-! ### The cache -/

/-- The `format!` of the key. -/
def cacheKeyText : String :=
  "agg:" ++ p.contractId.getD "" ++ ":" ++ p.eventType.getD "" ++ ":" ++
    i64Text (p.fromLedger.getD 0) ++ ":" ++ i64Text (p.toLedger.getD 0) ++ ":" ++
    libs.toLowercase p.timeBucket ++ ":" ++ i64Text p.effectiveLimit

/-- The key; a request with another time bucket is refused before it has one. -/
def cacheKey : Option String :=
  if TIME_BUCKETS.contains (libs.toLowercase p.timeBucket) then some (cacheKeyText libs p) else none

/-- `events_aggregations`; only a response is inserted. -/
def eventsAggregations (events : List EventRow)
    (cache : ReadThrough.Cache String (Except AggregationError AggregationsResponse)) :=
  ReadThrough.serve (cacheKey libs) (fun p => freshAggregations libs p events) Except.isOk cache p

/-! ### Requests that are taken for each other -/

/-- The two text filters, as the key has them. -/
def EventsAggregationParams.filterText : String :=
  p.contractId.getD "" ++ ":" ++ p.eventType.getD ""

/-- The parts of the key agree. -/
structure SameParts (q : EventsAggregationParams) : Prop where
  filterText : p.filterText = q.filterText
  fromLedger : p.fromLedger.getD 0 = q.fromLedger.getD 0
  toLedger : p.toLedger.getD 0 = q.toLedger.getD 0
  timeBucket : libs.toLowercase p.timeBucket = libs.toLowercase q.timeBucket
  limit : p.effectiveLimit = q.effectiveLimit

/-- The filters agree, absent ones included. -/
structure SameFilters (q : EventsAggregationParams) : Prop where
  contractId : p.contractId = q.contractId
  eventType : p.eventType = q.eventType
  fromLedger : p.fromLedger = q.fromLedger
  toLedger : p.toLedger = q.toLedger

/-- Two valid requests with other filters and the same parts. -/
structure Confused (q : EventsAggregationParams) : Prop where
  valid : TIME_BUCKETS.contains (libs.toLowercase p.timeBucket) = true
  bindable : (Events.bindable p.contractId && Events.bindable p.eventType) = true
  parts : SameParts libs p q
  filters : ¬SameFilters p q

end

section
variable {libs : AggregationLibraries} {p q : EventsAggregationParams} {events : List EventRow}

/-! ### The key -/

theorem i64Text_injective : Function.Injective i64Text := by
  intro v w h
  have hminus (n : ℕ) (cs : List Char) : decimal 1 n ≠ '-' :: cs := decimal_ne_cons (by decide) cs
  have hlist := congrArg String.toList h
  rw [i64Text, i64Text, String.toList_ofList, String.toList_ofList] at hlist
  split at hlist <;> split at hlist
  · have habs := decimal_injective 1 (List.cons.inj hlist).2
    omega
  · exact absurd hlist.symm (hminus _ _)
  · exact absurd hlist (hminus _ _)
  · have habs := decimal_injective 1 hlist
    omega

theorem bucket_no_separator {bucket : String} (h : TIME_BUCKETS.contains bucket = true) :
    ':' ∉ bucket.toList := by
  have hbuckets : ∀ b ∈ TIME_BUCKETS, ':' ∉ b.toList := by decide
  exact hbuckets bucket (List.contains_iff_mem.mp h)

theorem toList_cacheKeyText : (cacheKeyText libs p).toList = "agg:".toList ++
    ((((p.filterText.toList ++ ':' :: (i64Text (p.fromLedger.getD 0)).toList) ++
      ':' :: (i64Text (p.toLedger.getD 0)).toList) ++
      ':' :: (libs.toLowercase p.timeBucket).toList) ++
      ':' :: (i64Text p.effectiveLimit).toList) := by
  have hcolon : ":".toList = [':'] := rfl
  unfold cacheKeyText EventsAggregationParams.filterText
  simp only [String.toList_append, hcolon, List.append_assoc, List.cons_append, List.nil_append]

/-- The key gives back its parts, the two filters as one text. -/
theorem cacheKeyText_eq_iff (hp : TIME_BUCKETS.contains (libs.toLowercase p.timeBucket) = true)
    (hq : TIME_BUCKETS.contains (libs.toLowercase q.timeBucket) = true) :
    cacheKeyText libs p = cacheKeyText libs q ↔ SameParts libs p q := by
  constructor
  · intro h
    have hlist := congrArg String.toList h
    rw [toList_cacheKeyText, toList_cacheKeyText] at hlist
    obtain ⟨hlist, hlimit⟩ := eq_of_append_last_separator (colon_not_mem_i64Text _)
      (colon_not_mem_i64Text _) (List.append_cancel_left hlist)
    obtain ⟨hlist, hbucket⟩ := eq_of_append_last_separator (bucket_no_separator hp)
      (bucket_no_separator hq) hlist
    obtain ⟨hlist, hto⟩ := eq_of_append_last_separator (colon_not_mem_i64Text _)
      (colon_not_mem_i64Text _) hlist
    obtain ⟨hlist, hfrom⟩ := eq_of_append_last_separator (colon_not_mem_i64Text _)
      (colon_not_mem_i64Text _) hlist
    exact ⟨String.toList_inj.mp hlist, i64Text_injective (String.toList_inj.mp hfrom),
      i64Text_injective (String.toList_inj.mp hto), String.toList_inj.mp hbucket,
      Int.ofNat_inj.mp (i64Text_injective (String.toList_inj.mp hlimit))⟩
  · intro h
    apply String.toList_inj.mp
    rw [toList_cacheKeyText, toList_cacheKeyText, h.filterText, h.fromLedger, h.toLedger,
      h.timeBucket, h.limit]

/-! ### The response -/

/-- Requests with the same filters and the same parts have the same response. -/
theorem freshAggregations_congr (hfilters : SameFilters p q) (hparts : SameParts libs p q) :
    freshAggregations libs p events = freshAggregations libs q events := by
  have hselects : p.selects = q.selects := by
    funext row
    rw [EventsAggregationParams.selects, EventsAggregationParams.selects, hfilters.contractId,
      hfilters.eventType, hfilters.fromLedger, hfilters.toLedger]
  rw [freshAggregations, freshAggregations, hfilters.contractId, hfilters.eventType,
    hfilters.fromLedger, hfilters.toLedger, hparts.timeBucket, hparts.limit, hselects]

/-- A response repeats its filters. -/
theorem filters_of_fresh {r : AggregationsResponse} (h : freshAggregations libs p events = .ok r) :
    r.contractId = p.contractId ∧ r.eventType = p.eventType ∧ r.fromLedger = p.fromLedger ∧
      r.toLedger = p.toLedger := by
  rw [freshAggregations] at h
  dsimp only at h
  split at h
  · cases h
  · split at h
    · cases h
    · rw [← Except.ok.inj h]
      exact ⟨rfl, rfl, rfl, rfl⟩

theorem freshAggregations_isOk : (freshAggregations libs p events).isOk = true ↔
    TIME_BUCKETS.contains (libs.toLowercase p.timeBucket) = true ∧
      (bindable p.contractId && bindable p.eventType) = true := by
  rw [freshAggregations]
  dsimp only
  cases TIME_BUCKETS.contains (libs.toLowercase p.timeBucket) <;>
    cases bindable p.contractId && bindable p.eventType <;> simp [Except.isOk, Except.toBool]

theorem bindable_getD (text : Option String) :
    bindable text = !(text.getD "").toList.contains (Char.ofNat 0) := by
  cases text <;> rfl

theorem bindable_filterText : (bindable p.contractId && bindable p.eventType) =
    !p.filterText.toList.contains (Char.ofNat 0) := by
  rw [bindable_getD, bindable_getD, EventsAggregationParams.filterText]
  simp [String.toList_append]

/-- The database refuses a NUL. -/
theorem freshAggregations_unbindable
    (hvalid : TIME_BUCKETS.contains (libs.toLowercase p.timeBucket) = true)
    (h : (bindable p.contractId && bindable p.eventType) = false) :
    freshAggregations libs p events =
      .error (.Internal ("event_type aggregation failed: " ++ libs.nulError)) := by
  rw [freshAggregations]
  dsimp only
  rw [hvalid, h]
  rfl

/-- Requests with the same parts agree unless they are confused. -/
theorem fresh_eq_iff (hvalid : TIME_BUCKETS.contains (libs.toLowercase p.timeBucket) = true)
    (hparts : SameParts libs p q) :
    freshAggregations libs q events = freshAggregations libs p events ↔ ¬Confused libs p q := by
  constructor
  · intro h hconf
    cases hr : freshAggregations libs p events with
    | error e =>
      have hok : (freshAggregations libs p events).isOk = true :=
        freshAggregations_isOk.mpr ⟨hvalid, hconf.bindable⟩
      rw [hr] at hok
      cases hok
    | ok r =>
      obtain ⟨hcid, het, hfrom, hto⟩ := filters_of_fresh hr
      obtain ⟨hcid', het', hfrom', hto'⟩ := filters_of_fresh (h.trans hr)
      exact hconf.filters ⟨hcid ▸ hcid', het ▸ het', hfrom ▸ hfrom', hto ▸ hto'⟩
  · intro hconf
    by_cases hsame : SameFilters p q
    · exact (freshAggregations_congr hsame hparts).symm
    · have hp : (bindable p.contractId && bindable p.eventType) = false := by
        by_contra h
        exact hconf ⟨hvalid, Bool.not_eq_false _ ▸ h, hparts, hsame⟩
      have hq : (bindable q.contractId && bindable q.eventType) = false := by
        rw [bindable_filterText, ← hparts.filterText, ← bindable_filterText, hp]
      rw [freshAggregations_unbindable hvalid hp,
        freshAggregations_unbindable (hparts.timeBucket ▸ hvalid) hq]

theorem cacheKey_eq_some {k : String} : cacheKey libs p = some k ↔
    TIME_BUCKETS.contains (libs.toLowercase p.timeBucket) = true ∧ cacheKeyText libs p = k := by
  rw [cacheKey]
  cases TIME_BUCKETS.contains (libs.toLowercase p.timeBucket) <;> simp

/-- Confused requests share their key. -/
theorem Confused.cacheKey (h : Confused libs p q) :
    Events.cacheKey libs p = some (cacheKeyText libs p) ∧
      Events.cacheKey libs q = some (cacheKeyText libs p) := by
  have hq : TIME_BUCKETS.contains (libs.toLowercase q.timeBucket) = true :=
    h.parts.timeBucket ▸ h.valid
  exact ⟨cacheKey_eq_some.mpr ⟨h.valid, rfl⟩,
    cacheKey_eq_some.mpr ⟨hq, ((cacheKeyText_eq_iff h.valid hq).mpr h.parts).symm⟩⟩

/-- Two requests of one key have one response unless they are confused. -/
theorem sameKey_iff :
    (∀ k, cacheKey libs p = some k → cacheKey libs q = some k →
      freshAggregations libs q events = freshAggregations libs p events) ↔ ¬Confused libs p q := by
  constructor
  · intro h hconf
    obtain ⟨hp, hq⟩ := hconf.cacheKey
    exact (fresh_eq_iff hconf.valid hconf.parts).mp (h _ hp hq) hconf
  · intro hconf k hp hq
    obtain ⟨hvp, hp⟩ := cacheKey_eq_some.mp hp
    obtain ⟨hvq, hq⟩ := cacheKey_eq_some.mp hq
    exact (fresh_eq_iff hvp ((cacheKeyText_eq_iff hvp hvq).mp (hp.trans hq.symm))).mpr hconf

theorem agree_iff : Agree (cacheKey libs) (fun p => freshAggregations libs p events) Except.isOk p q ↔
    ¬Confused libs p q := by
  constructor
  · intro h hconf
    obtain ⟨hp, hq⟩ := hconf.cacheKey
    have hok : (freshAggregations libs p events).isOk = true :=
      freshAggregations_isOk.mpr ⟨hconf.valid, hconf.bindable⟩
    exact (fresh_eq_iff hconf.valid hconf.parts).mp (h _ hp hq hok) hconf
  · intro hconf k hp hq _
    exact sameKey_iff.mpr hconf k hp hq

end

/-! ### Histories -/

/-- Every request of the history is answered as if it were computed, whatever entries go. -/
def CacheSound (libs : AggregationLibraries) (events : List EventRow)
    (history : List EventsAggregationParams) : Prop :=
  AnswersFresh (cacheKey libs) (fun p => freshAggregations libs p events) Except.isOk history

/-- Two requests of one key have one response exactly if they are not confused, and the cached answers
    of a history are right exactly if no two of its requests are. -/
theorem aggregations_sound_iff (libs : AggregationLibraries) (events : List EventRow) :
    (∀ p q, (∀ k, cacheKey libs p = some k → cacheKey libs q = some k →
      freshAggregations libs q events = freshAggregations libs p events) ↔ ¬Confused libs p q) ∧
    ∀ history, CacheSound libs events history ↔
      history.Pairwise fun p q => ¬Confused libs p q := by
  refine ⟨fun p q => sameKey_iff, fun history => ?_⟩
  rw [CacheSound, ReadThrough.answersFresh_iff]
  exact List.Pairwise.iff fun p q => agree_iff

/-! ### An empty filter and none -/

def sampleAggregationLibraries : AggregationLibraries where
  toLowercase := String.toLower
  dateTrunc _ t := t
  toRfc3339 := rfc3339
  topicText _ := none
  tie _ := 0
  nulError := "invalid byte sequence"

/-- `?contract_id=`. -/
def emptyContract : EventsAggregationParams := { contractId := some "" }

/-- No filter. -/
def noFilter : EventsAggregationParams := {}

theorem confused_emptyContract : Confused sampleAggregationLibraries emptyContract noFilter where
  valid := by decide +kernel
  bindable := by decide
  parts := ⟨rfl, rfl, rfl, rfl, rfl⟩
  filters := fun h => (by cases h.contractId)

/-- The first request selects nothing and the second everything; with the cache the second gets the
    response of the first. -/
theorem not_aggregations_sound :
    cacheKey sampleAggregationLibraries emptyContract = cacheKey sampleAggregationLibraries noFilter ∧
      ([mainnetEvent].filter emptyContract.selects).length = 0 ∧
      ([mainnetEvent].filter noFilter.selects).length = 1 ∧
      ¬CacheSound sampleAggregationLibraries [mainnetEvent] [emptyContract, noFilter] := by
  obtain ⟨hp, hq⟩ := confused_emptyContract.cacheKey
  refine ⟨hp.trans hq.symm, rfl, rfl, fun h => ?_⟩
  rw [CacheSound, ReadThrough.answersFresh_iff, List.pairwise_cons] at h
  exact agree_iff.mp (h.1 noFilter List.mem_cons_self) confused_emptyContract

end SorobanPulse.Events
