import SorobanPulse.Ingest.SorobanEvent

/-! The two deduplication filters in front of the `events` table.

    `SessionBloomFilter` is reset when a new ledger is seen and records a key the first time it is
    asked about it; `EventBloomFilter` records a key after its insert and keeps one generation of
    older keys. Filters are taken without hash collisions: a Bloom filter is the list of its keys. -/

namespace SorobanPulse.Ingest

/-- `format!("{tx_hash}:{contract_id}:{event_type}")`. -/
def bloomKey (event : SorobanEvent) : String :=
  event.txHash ++ ":" ++ event.contractId ++ ":" ++ event.eventType

/-! ### Session filter -/

structure SessionBloomFilter where
  inner : List String
  /-- The ledger at which the filter was last reset. -/
  currentLedger : UInt64
  deriving DecidableEq, Repr

def SessionBloomFilter.new : SessionBloomFilter := { inner := [], currentLedger := 0 }

/-- The reset on a new ledger. -/
def SessionBloomFilter.resetAt (filter : SessionBloomFilter) (ledger : UInt64) :
    SessionBloomFilter :=
  if filter.currentLedger < ledger then { inner := [], currentLedger := ledger } else filter

/-- Would the filter call this event a duplicate? -/
def SessionBloomFilter.seen (filter : SessionBloomFilter) (event : SorobanEvent) : Bool :=
  (filter.resetAt event.ledger).inner.contains (bloomKey event)

/-- The answer, and the filter with the event recorded. -/
def SessionBloomFilter.checkAndSet (filter : SessionBloomFilter) (event : SorobanEvent) :
    Bool × SessionBloomFilter :=
  if (filter.resetAt event.ledger).inner.contains (bloomKey event) then
    (true, filter.resetAt event.ledger)
  else
    (false, { filter.resetAt event.ledger with
      inner := bloomKey event :: (filter.resetAt event.ledger).inner })

@[simp] theorem SessionBloomFilter.checkAndSet_fst (filter : SessionBloomFilter)
    (event : SorobanEvent) : (filter.checkAndSet event).1 = filter.seen event := by
  unfold checkAndSet seen
  split
  · next h => exact h.symm
  · next h => simpa using h

theorem SessionBloomFilter.resetAt_subset (filter : SessionBloomFilter) (ledger : UInt64) :
    (filter.resetAt ledger).inner ⊆ filter.inner := by
  unfold resetAt
  split
  · exact List.nil_subset _
  · exact List.Subset.refl _

/-- The filter learns no key but the event's own. -/
theorem SessionBloomFilter.mem_checkAndSet {filter : SessionBloomFilter} {event : SorobanEvent}
    {key : String} (h : key ∈ (filter.checkAndSet event).2.inner) :
    key = bloomKey event ∨ key ∈ filter.inner := by
  have hsub := filter.resetAt_subset event.ledger
  unfold checkAndSet at h
  split at h
  · exact .inr (hsub h)
  · rcases List.mem_cons.mp h with hkey | hold
    · exact .inl hkey
    · exact .inr (hsub hold)

/-! ### Persistent filter -/

structure EventBloomFilter where
  inner : List String
  previous : Option (List String)
  insertCount : ℕ
  /-- Has this many inserts brought the fill ratio to the threshold? (`f64` arithmetic.) -/
  full : ℕ → Bool

/-- `maybe_rotate`. -/
def EventBloomFilter.maybeRotate (filter : EventBloomFilter) : EventBloomFilter :=
  if filter.full filter.insertCount then
    { filter with inner := [], previous := some filter.inner, insertCount := 0 }
  else filter

def EventBloomFilter.check (filter : EventBloomFilter) (event : SorobanEvent) : Bool :=
  filter.inner.contains (bloomKey event) || (filter.previous.getD []).contains (bloomKey event)

def EventBloomFilter.set (filter : EventBloomFilter) (event : SorobanEvent) : EventBloomFilter :=
  { filter with
    inner := bloomKey event :: filter.inner
    insertCount := filter.insertCount + 1 }.maybeRotate

/-- The keys of both generations. -/
def EventBloomFilter.keys (filter : EventBloomFilter) : List String :=
  filter.inner ++ filter.previous.getD []

@[simp] theorem EventBloomFilter.check_eq_true {filter : EventBloomFilter} {event : SorobanEvent} :
    filter.check event = true ↔ bloomKey event ∈ filter.keys := by
  simp [check, keys]

theorem EventBloomFilter.mem_maybeRotate {filter : EventBloomFilter} {key : String}
    (h : key ∈ filter.maybeRotate.keys) : key ∈ filter.keys := by
  unfold maybeRotate at h
  split at h
  · simp only [keys, List.nil_append, Option.getD_some] at h
    exact List.mem_append_left _ h
  · exact h

/-- Rotation only forgets: the filter learns no key but the event's own. -/
theorem EventBloomFilter.mem_set {filter : EventBloomFilter} {event : SorobanEvent} {key : String}
    (h : key ∈ (filter.set event).keys) : key = bloomKey event ∨ key ∈ filter.keys := by
  have hkeys := mem_maybeRotate h
  simpa [keys, or_assoc] using hkeys

/-! ### Both -/

/-- The filters an indexer runs with; either may be missing. -/
structure DedupFilters where
  session : Option SessionBloomFilter
  bloom : Option EventBloomFilter

/-- Would one of the filters skip this event? -/
def DedupFilters.seen (filters : DedupFilters) (event : SorobanEvent) : Bool :=
  filters.session.any (·.seen event) || filters.bloom.any (·.check event)

/-- The session filter's check, which records the event. -/
def DedupFilters.checkSession (filters : DedupFilters) (event : SorobanEvent) :
    Bool × DedupFilters :=
  match filters.session with
  | some session =>
    ((session.checkAndSet event).1, { filters with session := some (session.checkAndSet event).2 })
  | none => (false, filters)

def DedupFilters.checkBloom (filters : DedupFilters) (event : SorobanEvent) : Bool :=
  filters.bloom.any (·.check event)

def DedupFilters.setBloom (filters : DedupFilters) (event : SorobanEvent) : DedupFilters :=
  { filters with bloom := filters.bloom.map (·.set event) }

/-- Every key a filter holds. -/
def DedupFilters.keys (filters : DedupFilters) : List String :=
  (filters.session.elim [] (·.inner)) ++ (filters.bloom.elim [] (·.keys))

@[simp] theorem DedupFilters.checkSession_bloom (filters : DedupFilters) (event : SorobanEvent) :
    (filters.checkSession event).2.bloom = filters.bloom := by
  unfold checkSession
  split <;> rfl

/-- An event neither filter has seen passes both checks. -/
theorem DedupFilters.not_seen {filters : DedupFilters} {event : SorobanEvent}
    (h : filters.seen event = false) :
    (filters.checkSession event).1 = false ∧
      (filters.checkSession event).2.checkBloom event = false := by
  rw [seen, Bool.or_eq_false_iff] at h
  obtain ⟨hsession, hbloom⟩ := h
  refine ⟨?_, ?_⟩
  · unfold checkSession
    split
    · next session hs =>
      rw [hs] at hsession
      simpa using hsession
    · rfl
  · rw [checkBloom, checkSession_bloom]
    exact hbloom

theorem DedupFilters.mem_checkSession {filters : DedupFilters} {event : SorobanEvent}
    {key : String} (h : key ∈ (filters.checkSession event).2.keys) :
    key = bloomKey event ∨ key ∈ filters.keys := by
  unfold checkSession at h
  split at h
  · next session hs =>
    rcases List.mem_append.mp h with hsession | hbloom
    · rcases SessionBloomFilter.mem_checkAndSet hsession with hkey | hold
      · exact .inl hkey
      · refine .inr (List.mem_append_left _ ?_)
        rw [hs]
        exact hold
    · exact .inr (List.mem_append_right _ hbloom)
  · exact .inr h

theorem DedupFilters.mem_setBloom {filters : DedupFilters} {event : SorobanEvent} {key : String}
    (h : key ∈ (filters.setBloom event).keys) : key = bloomKey event ∨ key ∈ filters.keys := by
  rcases List.mem_append.mp h with hsession | hbloom
  · exact .inr (List.mem_append_left _ hsession)
  · cases hb : filters.bloom with
    | none => simp [setBloom, hb] at hbloom
    | some bloom =>
      simp only [setBloom, hb, Option.map_some, Option.elim_some] at hbloom
      rcases EventBloomFilter.mem_set hbloom with hkey | hold
      · exact .inl hkey
      · refine .inr (List.mem_append_right _ ?_)
        rw [hb]
        exact hold

/-- Whatever a filter skips, it holds the key of. -/
theorem DedupFilters.key_mem_of_seen {filters : DedupFilters} {event : SorobanEvent}
    (h : filters.seen event = true) : bloomKey event ∈ filters.keys := by
  rw [seen, Bool.or_eq_true] at h
  rcases h with hsession | hbloom
  · cases hs : filters.session with
    | none => simp [hs] at hsession
    | some session =>
      rw [hs, Option.any_some, SessionBloomFilter.seen, List.contains_iff_mem] at hsession
      refine List.mem_append_left _ ?_
      rw [hs]
      exact session.resetAt_subset event.ledger hsession
  · cases hb : filters.bloom with
    | none => simp [hb] at hbloom
    | some bloom =>
      rw [hb, Option.any_some, EventBloomFilter.check_eq_true] at hbloom
      refine List.mem_append_right _ ?_
      rw [hb]
      exact hbloom

end SorobanPulse.Ingest
