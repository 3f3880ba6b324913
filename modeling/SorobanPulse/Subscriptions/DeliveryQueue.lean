import SorobanPulse.Lib.Keyset
import SorobanPulse.Outbound.Validators

/-! Subscriptions and their delivery queue.

        create_subscription ──▶ subscriptions ──┬── every event so far ──▶ delivery_queue
        enqueue_event ──────────────────────────┴── the new event ───────────────┤
                                                                                 │ pending, due
        callback_url ◀── POST ── deliver_pending ◀───────────────────────────────┘

    Queue rows have ids of their own and no other key. -/

namespace SorobanPulse.Subscriptions
open Events Outbound Lib

/-- In microseconds. -/
abbrev Time := ℤ

inductive Status where
  | active | cancelled
  deriving DecidableEq, Repr

inductive SubscriptionType where
  | single | batch
  deriving DecidableEq, Repr

structure Subscription where
  id : ℕ
  callbackUrl : String
  fromLedger : ℤ
  status : Status := .active
  subscriptionType : SubscriptionType
  batchSize : ℤ
  batchTimeoutMs : ℤ
  pauseUntil : Option Time := none
  pauseReason : Option String := none
  pausedAt : Option Time := none
  deriving DecidableEq, Repr

/-- A row of events; `eventData` is its JSON as text. -/
structure Event where
  id : ℕ
  ledger : ℤ
  eventData : String
  deriving DecidableEq, Repr

inductive ItemStatus where
  | pending | delivered | failed
  deriving DecidableEq, Repr

/-- A row of delivery_queue. -/
structure QueueItem where
  id : ℕ
  subscriptionId : ℕ
  eventId : ℕ
  ledger : ℤ
  status : ItemStatus := .pending
  attempts : ℕ := 0
  nextAttemptAt : Time
  lastError : Option String := none
  deriving DecidableEq, Repr

/-- The tables; `nextItemId` stands for gen_random_uuid. -/
structure Tables where
  subscriptions : List Subscription := []
  events : List Event := []
  deliveryQueue : List QueueItem := []
  nextItemId : ℕ := 0

/-- Primary and foreign keys. -/
structure Tables.Consistent (t : Tables) : Prop where
  subscriptionIds : (t.subscriptions.map (·.id)).Nodup
  eventIds : (t.events.map (·.id)).Nodup
  itemIds : (t.deliveryQueue.map (·.id)).Nodup
  itemId_lt : ∀ item ∈ t.deliveryQueue, item.id < t.nextItemId
  subscription : ∀ item ∈ t.deliveryQueue, ∃ sub ∈ t.subscriptions, sub.id = item.subscriptionId
  event : ∀ item ∈ t.deliveryQueue, ∃ event ∈ t.events, event.id = item.eventId

/-! ### Filling the queue -/

structure CreateSubscriptionRequest where
  callbackUrl : String
  fromLedger : ℤ
  subscriptionType : Option String := none
  batchSize : Option ℤ := none
  batchTimeoutMs : Option ℤ := none

structure SubscriptionConfig where
  environment : Environment
  subscriptionDefaultBatchSize : ℤ
  subscriptionDefaultBatchTimeoutMs : ℤ

def parseSubscriptionType (text : String) : Except AppError SubscriptionType :=
  if text = "single" then .ok .single
  else if text = "batch" then .ok .batch
  else .error (.Validation "subscription_type must be 'single' or 'batch'")

/-- The checks of `create_subscription`, and the row that it inserts first. -/
def newSubscription (crate : UrlCrate) (setting : Option String) (config : SubscriptionConfig)
    (id : ℕ) (body : CreateSubscriptionRequest) : Except AppError Subscription := do
  if body.callbackUrl = "" then throw (.Validation "callback_url is required")
  validateCallbackUrl crate setting body.callbackUrl config.environment
  if body.fromLedger < 0 then throw (.Validation "from_ledger must be non-negative")
  let subscriptionType ← parseSubscriptionType (body.subscriptionType.getD "single")
  return {
    id
    callbackUrl := body.callbackUrl
    fromLedger := body.fromLedger
    subscriptionType
    batchSize := clamp (body.batchSize.getD config.subscriptionDefaultBatchSize) 1 1000
    batchTimeoutMs :=
      clamp (body.batchTimeoutMs.getD config.subscriptionDefaultBatchTimeoutMs) 100 60000 }
where
  clamp (x lo hi : ℤ) : ℤ := max lo (min x hi)

/-- INSERT INTO delivery_queue (subscription_id, event_id, ledger) -/
def Tables.enqueue (t : Tables) (now : Time) (rows : List (ℕ × ℕ × ℤ)) : Tables where
  subscriptions := t.subscriptions
  events := t.events
  deliveryQueue := t.deliveryQueue ++ rows.zipIdx.map fun ((subscriptionId, eventId, ledger), i) =>
    { id := t.nextItemId + i, subscriptionId, eventId, ledger, nextAttemptAt := now }
  nextItemId := t.nextItemId + rows.length

/-- The second statement of `create_subscription`. -/
def Tables.enqueueHistory (t : Tables) (now : Time) (sub : Subscription) : Tables :=
  t.enqueue now <|
    (Keyset.sortOn Event.ledger (t.events.filter (sub.fromLedger ≤ ·.ledger))).map fun event =>
      (sub.id, event.id, event.ledger)

/-- `enqueue_event`. The ids of the new rows being new, ON CONFLICT never applies. -/
def Tables.enqueueEvent (t : Tables) (now : Time) (eventId : ℕ) (ledger : ℤ) : Tables :=
  t.enqueue now <|
    (t.subscriptions.filter fun sub => sub.status = .active ∧ sub.fromLedger ≤ ledger).map
      fun sub => (sub.id, eventId, ledger)

/-- How often an event is queued for a subscription. -/
def Tables.queued (t : Tables) (subscriptionId eventId : ℕ) : ℕ :=
  t.deliveryQueue.countP fun item => item.subscriptionId = subscriptionId ∧ item.eventId = eventId

section
variable {t : Tables} {now : Time} {sub : Subscription} {event : Event}

theorem queued_enqueue (rows : List (ℕ × ℕ × ℤ)) (k e : ℕ) :
    (t.enqueue now rows).queued k e =
      t.queued k e + rows.countP fun row => row.1 = k ∧ row.2.1 = e := by
  rw [Tables.queued, Tables.enqueue, List.countP_append, List.countP_map, Tables.queued,
    Nat.add_left_cancel_iff]
  conv_rhs => rw [← List.zipIdx_map_fst 0 rows, List.countP_map]
  rfl

/-- One element of a list without repeated keys has a given key. -/
theorem countP_key {α : Type*} {key : α → ℕ} {l : List α} {a : α} (hnodup : (l.map key).Nodup)
    (ha : a ∈ l) (p : α → Bool) :
    l.countP (fun b => key b = key a ∧ p b = true) = if p a then 1 else 0 := by
  induction l with
  | nil => cases ha
  | cons b l ih =>
    rw [List.map_cons, List.nodup_cons] at hnodup
    rw [List.countP_cons]
    rcases List.mem_cons.mp ha with rfl | hmem
    · have hrest : l.countP (fun b => key b = key a ∧ p b = true) = 0 := by
        rw [List.countP_eq_zero]
        intro b hb
        have hne : key b ≠ key a := fun heq => hnodup.1 (heq ▸ List.mem_map_of_mem hb)
        simp [hne]
      rw [hrest]
      simp
    · have hne : key b ≠ key a := fun heq => hnodup.1 (heq ▸ List.mem_map_of_mem hmem)
      rw [ih hnodup.2 hmem]
      simp [hne]

/-- The history holds every event from the ledger on once. -/
theorem queued_enqueueHistory (now : Time) (sub : Subscription) (hkeys : t.Consistent)
    (hevent : event ∈ t.events) (k : ℕ) :
    (t.enqueueHistory now sub).queued k event.id =
      t.queued k event.id + if sub.id = k ∧ sub.fromLedger ≤ event.ledger then 1 else 0 := by
  rw [Tables.enqueueHistory, queued_enqueue, List.countP_map,
    (Keyset.perm_sortOn _ _).countP_eq, List.countP_filter, Nat.add_left_cancel_iff]
  by_cases hk : sub.id = k
  · have hcount := countP_key hkeys.eventIds hevent (sub.fromLedger ≤ ·.ledger)
    simpa [hk, Function.comp_def, Bool.decide_and] using hcount
  · rw [if_neg (by simp [hk]), List.countP_eq_zero]
    intro event _
    simp [hk]

/-- A new event is queued once for every active subscription that asks for its ledger. -/
theorem queued_enqueueEvent (now : Time) (hkeys : t.Consistent) (hsub : sub ∈ t.subscriptions)
    (eventId e : ℕ) (ledger : ℤ) :
    (t.enqueueEvent now eventId ledger).queued sub.id e =
      t.queued sub.id e +
        if eventId = e ∧ sub.status = .active ∧ sub.fromLedger ≤ ledger then 1 else 0 := by
  rw [Tables.enqueueEvent, queued_enqueue, List.countP_map, List.countP_filter,
    Nat.add_left_cancel_iff]
  by_cases he : eventId = e
  · have hcount := countP_key hkeys.subscriptionIds hsub fun sub =>
      sub.status = .active ∧ sub.fromLedger ≤ ledger
    simpa [he, Function.comp_def] using hcount
  · rw [if_neg (by simp [he]), List.countP_eq_zero]
    intro sub _
    simp [he]

end

/-! ### One subscription, one event -/

def sampleSubscription : Subscription where
  id := 1
  callbackUrl := "https://example.com/hook"
  fromLedger := 100
  subscriptionType := .single
  batchSize := 10
  batchTimeoutMs := 5000

def sampleEvent : Event where
  id := 7
  ledger := 120
  eventData := "null"

/-- The event queued for the subscription. -/
def sampleItem (id : ℕ) (now : Time) : QueueItem where
  id := id
  subscriptionId := 1
  eventId := 7
  ledger := 120
  nextAttemptAt := now

end SorobanPulse.Subscriptions
