import SorobanPulse.Events.GetEvents
import SorobanPulse.Ingest.SorobanEvent
import SorobanPulse.Lib.After

/-! What an SSE stream shows: replay from the ring buffer, else from the database, then live.

                        contract   event_type   tenant
        ring buffer        x           x          -       the rest after the slot with this id
        database           x           -          -       created after the row with this id
        database, multi    x           -          x
        live               x           x          x

    The id of a slot is drawn by `push`, that of a row by the database: no id is both. -/

namespace SorobanPulse.Sse
open Events Lib
open Ingest (SorobanEvent)

/-- What is asked for: `contract_filter` or the list of ids, `event_type`, and whose events. -/
structure StreamFilter where
  contracts : Option (List String) := none
  eventType : Option EventType := none
  tenantId : Option String := none

/-- An event in the stream: as it was broadcast, or as its row. -/
inductive Frame where
  | published (event : SorobanEvent)
  | stored (row : EventRow)

def Frame.tenantId : Frame → Option String
  | .published event => event.tenantId
  | .stored row => row.tenantId

/-! ### Ring buffer -/

/-- `events_since`: `none` when the slot is not there, whatever the reason. -/
def SseRingBuffer.eventsSince {Event : Type*} (buf : SseRingBuffer Event) (lastId : Uuid) :
    Option (List Event) :=
  (buf.inner.findIdx? (·.id = lastId)).map fun pos => (buf.inner.drop (pos + 1)).map (·.event)

namespace StreamFilter
variable (f : StreamFilter)

def keepsContract (contractId : String) : Bool := f.contracts.all (·.contains contractId)

def keepsType (eventType : String) : Bool := f.eventType.all (·.toString = eventType)

def keepsTenant (tenantId : Option String) : Bool := f.tenantId.all (some · = tenantId)

/-- The filter of the ring replay. -/
def ringKeeps (event : SorobanEvent) : Bool :=
  f.keepsContract event.contractId && f.keepsType event.eventType

def liveKeeps (event : SorobanEvent) : Bool :=
  f.keepsContract event.contractId && f.keepsType event.eventType && f.keepsTenant event.tenantId

def ringReplay (limit : ℕ) (buf : SseRingBuffer SorobanEvent) (lastId : Uuid) : List SorobanEvent :=
  (((buf.eventsSince lastId).getD []).filter f.ringKeeps).take limit

end StreamFilter

/-! ### Database -/

/-- `created_at > (SELECT created_at FROM events WHERE id = $1)`: nothing, if there is no such row. -/
def laterRows (table : List EventRow) (lastId : Uuid) : List EventRow :=
  match table.find? (·.id = lastId) with
  | none => []
  | some last => table.filter (last.createdAt < ·.createdAt)

/-- `ORDER BY created_at`; rows with the same time come as `tie` has it. -/
def createdKey (tie : Uuid → ℕ) (row : EventRow) : ℤ ×ₗ ℕ := toLex (row.createdAt, tie row.id)

/-- The columns of `models::Event` without a default, `event_data_normalized` among them. -/
def REQUIRED_COLUMNS : List String :=
  ["id", "contract_id", "event_type", "tx_hash", "ledger", "timestamp", "event_data",
    "event_data_normalized", "created_at"]

/-- `query_as::<_, models::Event>`: one row that does not decode fails the query. -/
def queryAs (columns : List String) (rows : List EventRow) : Except AppError (List EventRow) :=
  if rows.all fun row => REQUIRED_COLUMNS.all columns.contains &&
      row.eventType ∈ [EventType.Contract, .Diagnostic, .System].map EventType.toString then .ok rows
  else .error .Database

/-- The columns `stream_events_internal` selects. -/
def INTERNAL_COLUMNS : List String :=
  ["id", "contract_id", "event_type", "tx_hash", "ledger", "timestamp", "event_data",
    "event_data_normalized", "created_at", "schema_version", "total_count"]

/-- The columns `stream_events_multi` selects. -/
def MULTI_COLUMNS : List String :=
  ["id", "contract_id", "event_type", "tx_hash", "ledger", "timestamp", "event_data", "created_at",
    "total_count"]

/-- An error is an empty replay: `unwrap_or_default`. -/
def dbReplay (columns : List String) (keeps : EventRow → Bool) (tie : Uuid → ℕ) (limit : ℕ)
    (table : List EventRow) (lastId : Uuid) : List EventRow :=
  let rows := Keyset.sortOn (createdKey tie) ((laterRows table lastId).filter keeps)
  match queryAs columns (rows.take limit) with
  | .ok rows => rows
  | .error _ => []

namespace StreamFilter
variable (f : StreamFilter)

/-- The query of `stream_events_internal`. -/
def internalReplay (tie : Uuid → ℕ) (limit : ℕ) (table : List EventRow) (lastId : Uuid) :
    List EventRow :=
  dbReplay INTERNAL_COLUMNS (fun row => f.keepsContract row.contractId) tie limit table lastId

/-- The query of `stream_events_multi`. -/
def multiReplay (tie : Uuid → ℕ) (limit : ℕ) (table : List EventRow) (lastId : Uuid) :
    List EventRow :=
  dbReplay MULTI_COLUMNS (fun row => f.keepsContract row.contractId && f.keepsTenant row.tenantId)
    tie limit table lastId

end StreamFilter

/-! ### What is found -/

/-- `events_since` gives the events after the first slot with the id. -/
theorem SseRingBuffer.eventsSince_eq {Event : Type*} {buf : SseRingBuffer Event} {lastId : Uuid}
    {events : List Event} (h : buf.eventsSince lastId = some events) :
    events = (after (fun slot => slot.id = lastId) buf.inner).map (·.event) := by
  obtain ⟨pos, hpos, rfl⟩ := Option.map_eq_some_iff.mp h
  rw [drop_findIdx hpos]

theorem dbReplay_prefix {columns : List String} {keeps : EventRow → Bool} {tie : Uuid → ℕ} {limit : ℕ}
    {table : List EventRow} {lastId : Uuid} : dbReplay columns keeps tie limit table lastId <+:
      Keyset.sortOn (createdKey tie) ((laterRows table lastId).filter keeps) := by
  unfold dbReplay queryAs
  dsimp only
  split
  · next hrows =>
    split at hrows
    · rw [← Except.ok.inj hrows]
      exact List.take_prefix _ _
    · cases hrows
  · exact List.nil_prefix

/-- Without `event_data_normalized` no row decodes, and the replay is always empty. -/
theorem multiReplay_eq_nil (f : StreamFilter) (tie : Uuid → ℕ) (limit : ℕ) (table : List EventRow)
    (lastId : Uuid) : f.multiReplay tie limit table lastId = [] := by
  have hmissing : REQUIRED_COLUMNS.all MULTI_COLUMNS.contains = false := by decide
  unfold StreamFilter.multiReplay dbReplay queryAs
  dsimp only
  split
  · next hrows =>
    split at hrows
    · next hall =>
      rw [hmissing] at hall
      rw [← Except.ok.inj hrows]
      apply List.eq_nil_iff_forall_not_mem.mpr
      intro row hrow
      simpa using List.all_eq_true.mp hall row hrow
    · cases hrows
  · rfl

end SorobanPulse.Sse

/-! The ring buffer as the list of the last events.

        pushed      e₁ … eₙ₋ₖ │ eₙ₋ₖ₊₁ … eₙ        k = capacity
        in buffer             │ eₙ₋ₖ₊₁ … eₙ
                      n - k evicted

    `push` evicts before it appends, so a buffer of capacity 0 holds one event. The counter of the
    evicted events is a `u64`. -/

namespace SorobanPulse.Sse

variable {Event : Type*}

def SseRingBuffer.len (buf : SseRingBuffer Event) : ℕ := buf.inner.length

/-- `overflow_count()`: the atomic counter wraps. -/
def SseRingBuffer.loadOverflowCount (buf : SseRingBuffer Event) : UInt64 := .ofNat buf.overflowCount

/-- A new buffer after these pushes, each with the id that it drew. -/
def pushAll (capacity : ℕ) (pushes : List (Slot Event)) : SseRingBuffer Event :=
  pushes.foldl (fun buf s => buf.push s.id s.event) (.new capacity)

/-- A buffer of this capacity holds the last of these pushes. -/
structure HoldsLast (capacity : ℕ) (pushes : List (Slot Event)) (buf : SseRingBuffer Event) :
    Prop where
  contents : buf.inner = pushes.drop (pushes.length - capacity)
  len : buf.len ≤ capacity
  overflow : buf.loadOverflowCount.toNat = pushes.length - capacity
  since : ∀ (k : ℕ) (hk : k < pushes.length), buf.eventsSince pushes[k].id =
    if pushes.length - capacity ≤ k then some ((pushes.drop (k + 1)).map (·.event)) else none

section
variable {capacity : ℕ} {pushes : List (Slot Event)} {s : Slot Event}

/-! ### What the pushes leave -/

theorem pushAll_concat : pushAll capacity (pushes ++ [s]) =
    (pushAll capacity pushes).push s.id s.event := by
  rw [pushAll, List.foldl_append]
  rfl

theorem pushAll_capacity : (pushAll capacity pushes).capacity = capacity := by
  induction pushes using List.reverseRecOn with
  | nil => rfl
  | append_singleton pushes s ih =>
    rw [pushAll_concat, SseRingBuffer.push]
    split <;> exact ih

/-- The last events, and never fewer than one. -/
theorem pushAll_inner (capacity : ℕ) (pushes : List (Slot Event)) :
    (pushAll capacity pushes).inner = pushes.drop (pushes.length - max capacity 1) := by
  induction pushes using List.reverseRecOn with
  | nil => simp [pushAll, SseRingBuffer.new]
  | append_singleton pushes s ih =>
    rw [pushAll_concat, SseRingBuffer.push, pushAll_capacity, ih, List.length_drop,
      List.length_append, List.length_singleton]
    split
    · next hfull =>
      dsimp only
      rw [List.tail_drop, List.drop_append_of_le_length (by omega)]
      by_cases hnone : pushes.length = 0
      · rw [List.length_eq_zero_iff.mp hnone]
        simp
      · rw [show pushes.length - max capacity 1 + 1 = pushes.length + 1 - max capacity 1 by omega]
    · next hroom =>
      rw [Nat.sub_eq_zero_of_le (by omega), Nat.sub_eq_zero_of_le (by omega)]
      rfl

/-- A push evicts once there have been `capacity` pushes. -/
theorem pushAll_overflowCount (capacity : ℕ) (pushes : List (Slot Event)) :
    (pushAll capacity pushes).overflowCount = pushes.length - capacity := by
  induction pushes using List.reverseRecOn with
  | nil => exact (Nat.zero_sub capacity).symm
  | append_singleton pushes s ih =>
    rw [pushAll_concat, SseRingBuffer.push, pushAll_capacity, pushAll_inner, List.length_drop,
      List.length_append, List.length_singleton]
    split
    · dsimp only
      rw [ih]
      omega
    · dsimp only
      rw [ih]
      omega

/-! ### Lookup by position -/

/-- Ids are different, so the position of one is that of its push. -/
theorem findIdx?_drop (hids : (pushes.map (·.id)).Nodup) {d k : ℕ} (hk : k < pushes.length) :
    (pushes.drop d).findIdx? (·.id = pushes[k].id) = if d ≤ k then some (k - d) else none := by
  have hinj : ∀ (j : ℕ) (hj : j < pushes.length), pushes[j].id = pushes[k].id → j = k := by
    intro j hj hsame
    have hj' : j < (pushes.map (·.id)).length := by rwa [List.length_map]
    have hk' : k < (pushes.map (·.id)).length := by rwa [List.length_map]
    have hmap : (pushes.map (·.id))[j] = (pushes.map (·.id))[k] := by
      rw [List.getElem_map, List.getElem_map, hsame]
    exact hids.getElem_inj_iff.mp hmap
  split
  · next hd =>
    rw [List.findIdx?_eq_some_iff_getElem]
    refine ⟨by rw [List.length_drop]; omega, ?_, ?_⟩
    · rw [List.getElem_drop, decide_eq_true_eq]
      congr 2
      omega
    · intro j hj
      rw [List.getElem_drop, decide_eq_true_eq]
      intro hsame
      have := hinj _ _ hsame
      omega
  · next hd =>
    rw [List.findIdx?_eq_none_iff]
    intro slot hslot
    obtain ⟨j, hj, rfl⟩ := List.getElem_of_mem hslot
    rw [List.getElem_drop, decide_eq_false_iff_not]
    intro hsame
    have := hinj _ _ hsame
    omega

theorem eventsSince_pushAll (hids : (pushes.map (·.id)).Nodup) {k : ℕ} (hk : k < pushes.length) :
    (pushAll capacity pushes).eventsSince pushes[k].id =
      if pushes.length - max capacity 1 ≤ k then some ((pushes.drop (k + 1)).map (·.event))
      else none := by
  rw [SseRingBuffer.eventsSince, pushAll_inner, findIdx?_drop hids hk]
  split
  · next hd =>
    rw [Option.map_some, List.drop_drop,
      show pushes.length - max capacity 1 + (k - (pushes.length - max capacity 1) + 1) = k + 1 by
        omega]
  · rfl

end

/-! ### When it is the last events -/

/-- The buffer holds the last events exactly if its capacity is positive or nothing was pushed, and
    the counter of the evicted ones has not wrapped. -/
theorem holdsLast_iff (capacity : ℕ) (pushes : List (Slot Event))
    (hids : (pushes.map (·.id)).Nodup) :
    HoldsLast capacity pushes (pushAll capacity pushes) ↔
      (capacity = 0 → pushes = []) ∧ pushes.length - capacity < 2 ^ 64 := by
  -- a capacity of 0 still keeps one slot
  have hlen : (pushAll capacity pushes).len = min pushes.length (max capacity 1) := by
    rw [SseRingBuffer.len, pushAll_inner, List.length_drop]
    omega
  have hcount : (pushAll capacity pushes).loadOverflowCount.toNat =
      (pushes.length - capacity) % 2 ^ 64 := by
    rw [SseRingBuffer.loadOverflowCount, pushAll_overflowCount, UInt64.toNat_ofNat']
  constructor
  · -- the length is bounded by the capacity, and the counter by 2 ^ 64
    rintro ⟨-, hfits, hoverflow, -⟩
    rw [hlen] at hfits
    rw [hcount] at hoverflow
    refine ⟨fun hzero => List.length_eq_zero_iff.mp ?_, ?_⟩
    · omega
    · rw [← hoverflow]
      exact Nat.mod_lt _ (by decide)
  · rintro ⟨hroom, hsmall⟩
    -- with the room that is asked for, as many are dropped as exceed the capacity
    have hdrop : pushes.length - max capacity 1 = pushes.length - capacity := by
      by_cases hzero : capacity = 0
      · rw [hroom hzero]
        simp
      · rw [max_eq_left (Nat.pos_of_ne_zero hzero)]
    refine ⟨?_, ?_, ?_, fun k hk => ?_⟩
    · rw [pushAll_inner, hdrop]
    · rw [hlen]
      by_cases hzero : capacity = 0
      · rw [hroom hzero]
        simp
      · omega
    · rw [hcount, Nat.mod_eq_of_lt hsmall]
    · rw [eventsSince_pushAll hids hk, hdrop]

/-- Three pushes into a buffer of two. -/
def threePushes : List (Slot String) := [⟨1, "first"⟩, ⟨2, "second"⟩, ⟨3, "third"⟩]

theorem holdsLast_threePushes : HoldsLast 2 threePushes (pushAll 2 threePushes) :=
  (holdsLast_iff 2 threePushes (by decide)).mpr ⟨by decide, by decide⟩

/-- A buffer of capacity 0 holds the event that was pushed. -/
theorem not_holdsLast_zero : ¬∀ (capacity : ℕ) (pushes : List (Slot String)),
    (pushes.map (·.id)).Nodup → HoldsLast capacity pushes (pushAll capacity pushes) := by
  intro h
  have hlen := (h 0 [⟨1, "first"⟩] (by decide)).len
  exact absurd hlen (by decide)

end SorobanPulse.Sse
