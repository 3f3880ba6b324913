import SorobanPulse.Subscriptions.DeliveryQueue

/-! One cycle of the delivery worker.

        SELECT … LIMIT 200 ──┬──▶ single: one POST a row ────┐
                             └──▶ batch: one POST a group ───┴──▶ delivered, or tried again later

    Groups are keyed by the row of the queue, so that each of them holds one row. -/

namespace SorobanPulse.Subscriptions
open Lib

/-- What `deliver_pending` selects of a queue row, its subscription and its event. -/
structure Row where
  item : QueueItem
  sub : Subscription
  event : Event
  deriving DecidableEq, Repr

/-- The JSON of a request. -/
inductive Payload where
  | single (eventId : ℕ) (ledger : ℤ) (eventData : String)
  | batch (events : List (ℕ × ℤ × String)) (batchSize : ℤ)
  deriving DecidableEq, Repr

/-- An HTTP request, the subscription it is for and the queue rows it settles. -/
structure Post where
  subscriptionId : ℕ
  callbackUrl : String
  payload : Payload
  timeoutMs : ℤ
  queueIds : List ℕ
  deriving DecidableEq, Repr

inductive Reply where
  | success
  | status (text : String)
  | error (text : String)
  deriving DecidableEq, Repr

/-! ### Selection -/

/-- The WHERE clause. -/
def Deliverable (now : Time) (item : QueueItem) (sub : Subscription) : Prop :=
  sub.id = item.subscriptionId ∧ item.status = .pending ∧ item.nextAttemptAt ≤ now ∧
    sub.status = .active

instance (now : Time) (item : QueueItem) (sub : Subscription) :
    Decidable (Deliverable now item sub) := by
  unfold Deliverable
  infer_instance

/-- The joined rows. -/
def Tables.due (t : Tables) (now : Time) : List Row :=
  t.deliveryQueue.flatMap fun item =>
    (t.subscriptions.filter fun sub => Deliverable now item sub).flatMap fun sub =>
      (t.events.filter fun event => event.id = item.eventId).map fun event => ⟨item, sub, event⟩

/-- ORDER BY ledger LIMIT 200, on the rows in the order in which they are found. -/
def selected (scan : List Row) : List Row := (Keyset.sortOn (·.item.ledger) scan).take 200

/-! ### Requests -/

def singlePost (row : Row) : Post where
  subscriptionId := row.sub.id
  callbackUrl := row.sub.callbackUrl
  payload := .single row.event.id row.item.ledger row.event.eventData
  timeoutMs := 10000
  queueIds := [row.item.id]

/-- The groups of `batch_items`. -/
def batchGroups (rows : List Row) : List (List Row) :=
  (rows.map (·.item.id)).dedup.map fun queueId => rows.filter (·.item.id = queueId)

/-- At most `batch_size` rows of a group are sent; a negative one, as usize, does not bound them. -/
def batchPost : List Row → Option Post
  | [] => none
  | first :: rest =>
    let items := first :: rest
    let sent := if first.sub.batchSize < 0 then items else items.take first.sub.batchSize.toNat
    some {
      subscriptionId := first.sub.id
      callbackUrl := first.sub.callbackUrl
      payload := .batch (sent.map fun row => (row.event.id, row.item.ledger, row.event.eventData))
        first.sub.batchSize
      timeoutMs := first.sub.batchTimeoutMs
      queueIds := sent.map (·.item.id) }

def isBatch (row : Row) : Bool := row.sub.subscriptionType = .batch

/-- The requests of a cycle: the single ones first, then the groups in any order. -/
def posts (rows : List Row) (groups : List (List Row)) : List Post :=
  (rows.filter (!isBatch ·)).map singlePost ++ groups.filterMap batchPost

/-! ### Settling -/

def Tables.updateItems (t : Tables) (ids : List ℕ) (f : QueueItem → QueueItem) : Tables :=
  { t with deliveryQueue := t.deliveryQueue.map fun item => if item.id ∈ ids then f item else item }

/-- `schedule_retry`: 2^attempts seconds, at most an hour. -/
def scheduleRetry (now : Time) (error : String) (item : QueueItem) : QueueItem :=
  { item with
    attempts := item.attempts + 1
    lastError := some error
    nextAttemptAt := now + (min (2 ^ (item.attempts + 1)) 3600 : ℕ) * 1000000 }

def Tables.settle (t : Tables) (now : Time) (post : Post) : Reply → Tables
  | .success => t.updateItems post.queueIds fun item => { item with status := .delivered }
  | .status text => t.updateItems post.queueIds (scheduleRetry now s!"HTTP {text}")
  | .error text => t.updateItems post.queueIds (scheduleRetry now text)

/-- The tables after a cycle with these requests, and the number of rows delivered. -/
def Tables.deliver (t : Tables) (now : Time) (requests : List Post) (reply : Post → Reply) :
    Tables × ℕ :=
  (requests.foldl (fun t post => t.settle now post (reply post)) t,
    ((requests.filter (reply · = .success)).map (·.queueIds.length)).sum)

section
variable {t : Tables} {now : Time} {row : Row} {rows : List Row} {groups : List (List Row)}
  {item : QueueItem} {sub : Subscription} {event : Event}

theorem mem_due : row ∈ t.due now ↔ row.item ∈ t.deliveryQueue ∧ row.sub ∈ t.subscriptions ∧
    row.event ∈ t.events ∧ row.event.id = row.item.eventId ∧ Deliverable now row.item row.sub := by
  obtain ⟨item, sub, event⟩ := row
  simp only [Tables.due, List.mem_flatMap, List.mem_filter, List.mem_map, decide_eq_true_eq]
  constructor
  · rintro ⟨_, hitem, _, ⟨hsub, hdue⟩, _, ⟨hevent, hid⟩, heq⟩
    cases heq
    exact ⟨hitem, hsub, hevent, hid, hdue⟩
  · rintro ⟨hitem, hsub, hevent, hid, hdue⟩
    exact ⟨item, hitem, sub, ⟨hsub, hdue⟩, event, ⟨hevent, hid⟩, rfl⟩

theorem mem_of_mem_selected {scan : List Row} (h : row ∈ selected scan) : row ∈ scan :=
  Keyset.mem_sortOn.mp (List.mem_of_mem_take h)

theorem mem_batchGroups {group : List Row} : group ∈ batchGroups rows ↔
    ∃ row ∈ rows, group = rows.filter (·.item.id = row.item.id) := by
  simp only [batchGroups, List.mem_map, List.mem_dedup]
  constructor
  · rintro ⟨_, ⟨row, hrow, rfl⟩, rfl⟩
    exact ⟨row, hrow, rfl⟩
  · rintro ⟨row, hrow, rfl⟩
    exact ⟨_, ⟨row, hrow, rfl⟩, rfl⟩

/-- A request is for the subscription of a row. -/
theorem exists_row_of_mem_posts (hgroups : groups.Perm (batchGroups (rows.filter isBatch)))
    {post : Post} (h : post ∈ posts rows groups) : ∃ row ∈ rows, post.subscriptionId = row.sub.id := by
  rcases List.mem_append.mp h with hsingle | hbatch
  · obtain ⟨row, hrow, rfl⟩ := List.mem_map.mp hsingle
    exact ⟨row, List.mem_of_mem_filter hrow, rfl⟩
  · obtain ⟨group, hgroup, hpost⟩ := List.mem_filterMap.mp hbatch
    obtain ⟨row, _, hfilter⟩ := mem_batchGroups.mp (hgroups.mem_iff.mp hgroup)
    cases group with
    | nil => cases hpost
    | cons first rest =>
      cases hpost
      have hfirst : first ∈ (rows.filter isBatch).filter (·.item.id = row.item.id) :=
        hfilter ▸ List.mem_cons_self
      exact ⟨first, List.mem_of_mem_filter (List.mem_of_mem_filter hfirst), rfl⟩

/-- Rows with one queue id have one subscription. -/
def Keyed (rows : List Row) : Prop :=
  ∀ row ∈ rows, ∀ other ∈ rows, other.item.id = row.item.id → other.sub.id = row.sub.id

/-- For every row there is a request to its subscription. -/
theorem exists_post_of_mem (hkeyed : Keyed rows)
    (hgroups : groups.Perm (batchGroups (rows.filter isBatch))) (hrow : row ∈ rows) :
    ∃ post ∈ posts rows groups, post.subscriptionId = row.sub.id := by
  cases hbatch : isBatch row with
  | false =>
    refine ⟨singlePost row, List.mem_append_left _ (List.mem_map_of_mem ?_), rfl⟩
    exact List.mem_filter.mpr ⟨hrow, by simp [hbatch]⟩
  | true =>
    have hmem : row ∈ rows.filter isBatch := List.mem_filter.mpr ⟨hrow, hbatch⟩
    have hgroup := hgroups.mem_iff.mpr (mem_batchGroups.mpr ⟨row, hmem, rfl⟩)
    cases hfilter : (rows.filter isBatch).filter (·.item.id = row.item.id) with
    | nil =>
      have hin : row ∈ (rows.filter isBatch).filter (·.item.id = row.item.id) :=
        List.mem_filter.mpr ⟨hmem, by simp⟩
      rw [hfilter] at hin
      cases hin
    | cons first rest =>
      have hfirst : first ∈ (rows.filter isBatch).filter (·.item.id = row.item.id) :=
        hfilter ▸ List.mem_cons_self
      obtain ⟨hold, hid⟩ := List.mem_filter.mp hfirst
      rw [hfilter] at hgroup
      refine ⟨_, List.mem_append_right _ (List.mem_filterMap.mpr ⟨_, hgroup, rfl⟩), ?_⟩
      exact hkeyed row hrow first (List.mem_of_mem_filter hold) (by simpa using hid)

/-! ### What a cycle leaves alone -/

/-- The columns that no statement changes. -/
def QueueItem.keys (item : QueueItem) : ℕ × ℕ × ℕ := (item.id, item.subscriptionId, item.eventId)

theorem keys_updateItems {ids : List ℕ} {f : QueueItem → QueueItem}
    (hf : ∀ item, (f item).keys = item.keys) :
    (t.updateItems ids f).deliveryQueue.map QueueItem.keys = t.deliveryQueue.map QueueItem.keys := by
  rw [Tables.updateItems, List.map_map]
  refine List.map_congr_left fun item _ => ?_
  rw [Function.comp_apply]
  split
  · exact hf item
  · rfl

/-- Subscriptions, events and the keys of the queue. -/
structure SameKeys (t u : Tables) : Prop where
  subscriptions : u.subscriptions = t.subscriptions
  events : u.events = t.events
  nextItemId : u.nextItemId = t.nextItemId
  items : u.deliveryQueue.map QueueItem.keys = t.deliveryQueue.map QueueItem.keys

theorem sameKeys_settle (post : Post) (reply : Reply) : SameKeys t (t.settle now post reply) := by
  cases reply with
  | success => exact ⟨rfl, rfl, rfl, keys_updateItems fun _ => rfl⟩
  | status text => exact ⟨rfl, rfl, rfl, keys_updateItems fun _ => rfl⟩
  | error text => exact ⟨rfl, rfl, rfl, keys_updateItems fun _ => rfl⟩

theorem sameKeys_deliver (requests : List Post) (reply : Post → Reply) :
    SameKeys t (t.deliver now requests reply).1 := by
  rw [Tables.deliver]
  induction requests generalizing t with
  | nil => exact ⟨rfl, rfl, rfl, rfl⟩
  | cons post requests ih =>
    have hhead : SameKeys t (t.settle now post (reply post)) := sameKeys_settle post (reply post)
    have htail := ih (t := t.settle now post (reply post))
    exact ⟨htail.subscriptions.trans hhead.subscriptions, htail.events.trans hhead.events,
      htail.nextItemId.trans hhead.nextItemId, htail.items.trans hhead.items⟩

theorem SameKeys.mem {u : Tables} (h : SameKeys t u) (hitem : item ∈ u.deliveryQueue) :
    ∃ old ∈ t.deliveryQueue, old.keys = item.keys := by
  have hmem : item.keys ∈ u.deliveryQueue.map QueueItem.keys := List.mem_map_of_mem hitem
  rw [h.items] at hmem
  exact List.mem_map.mp hmem

theorem SameKeys.consistent {u : Tables} (h : SameKeys t u) (hkeys : t.Consistent) :
    u.Consistent := by
  have hids : u.deliveryQueue.map (·.id) = t.deliveryQueue.map (·.id) := by
    have hfst := congrArg (List.map Prod.fst) h.items
    rwa [List.map_map, List.map_map] at hfst
  refine ⟨h.subscriptions ▸ hkeys.subscriptionIds, h.events ▸ hkeys.eventIds,
    hids ▸ hkeys.itemIds, ?_, ?_, ?_⟩
  · intro item hitem
    obtain ⟨old, hold, heq⟩ := h.mem hitem
    rw [h.nextItemId, ← show old.id = item.id from congrArg (·.1) heq]
    exact hkeys.itemId_lt old hold
  · intro item hitem
    obtain ⟨old, hold, heq⟩ := h.mem hitem
    rw [h.subscriptions, ← show old.subscriptionId = item.subscriptionId from congrArg (·.2.1) heq]
    exact hkeys.subscription old hold
  · intro item hitem
    obtain ⟨old, hold, heq⟩ := h.mem hitem
    rw [h.events, ← show old.eventId = item.eventId from congrArg (·.2.2) heq]
    exact hkeys.event old hold

end

end SorobanPulse.Subscriptions
