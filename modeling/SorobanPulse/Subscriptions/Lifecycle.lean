import SorobanPulse.Subscriptions.DeliverPending
import SorobanPulse.Subscriptions.QueuedOnce

/-! What becomes of a queued delivery, and of the e-mails.

        pending ──┬── POST answered with success ─────┐
                  ├── acknowledged up to its ledger ──┼──▶ delivered
                  ├── e-mail sent ────────────────────┘
                  └── POST failed ──▶ pending, due again later

    Any number of workers select rows, make their requests and settle them, one statement after the
    other, while subscriptions come and go and events are indexed. The log keeps what the statements
    did to the queue; the rows are what it makes of them. -/

namespace SorobanPulse.Subscriptions
open Outbound Lib

/-- What a statement did to rows of the queue; `nextItemId` bounds the rows that were there. -/
inductive Settlement where
  | settled (post : Post) (reply : Reply) (now : Time)
  | acked (subscriptionId : ℕ) (ledger : ℤ) (nextItemId : ℕ)
  | mailed (subscriptionId eventId nextItemId : ℕ)

/-- The requests that a delivery worker has still to make; the first one may have its reply. -/
structure Requests where
  posts : List Post := []
  reply : Option Reply := none

structure EmailConfig where
  emailAddress : Option String := none
  emailEnabled : Bool := false

structure Mail where
  subscriptionId : ℕ
  emailAddress : String
  eventId : ℕ
  deriving DecidableEq, Repr

/-- What comes next for the first mail of a round; a mail is sent on the count of a day. -/
inductive MailPhase where
  | count
  | send (day : ℕ)
  | mark (sent : Bool)
  deriving DecidableEq, Repr

/-- The mails that an e-mail worker has still to send. -/
structure MailRound where
  mails : List Mail := []
  phase : MailPhase := .count

/-- The tables, with the columns of subscriptions that `Subscription` lacks, and the workers. -/
structure Deliveries where
  queue : QueueState := { tables := {} }
  ackedLedger : ℕ → ℤ := fun _ => 0
  email : ℕ → EmailConfig := fun _ => {}
  sendCount : String → ℕ → ℕ := fun _ _ => 0
  /-- Acknowledgements between their two statements. -/
  acking : List (ℕ × ℤ) := []
  cycles : ℕ → Requests := fun _ => {}
  rounds : List MailRound
  log : List Settlement := []
  /-- The mails handed to the SMTP server, latest first. -/
  sent : List (Mail × ℕ) := []

def EMAIL_DAILY_LIMIT : ℕ := 100

inductive DeliveryAction where
  | queue (action : QueueAction)
  | cancelSubscription (id : ℕ)
  | updateBatchConfig (id : ℕ) (subscriptionType : Option SubscriptionType)
      (batchSize batchTimeoutMs : Option ℤ)
  | updateEmail (id : ℕ) (config : EmailConfig)
  | ack (id : ℕ) (ledger : ℤ)
  | ackRows (id : ℕ) (ledger : ℤ)
  | select (worker : ℕ) (now : Time) (scan : List Row) (groups : List (List Row))
  | answer (worker : ℕ) (reply : Reply)
  | settle (worker : ℕ) (now : Time)
  | abort (worker : ℕ)
  | mailSelect (worker : ℕ) (now : Time) (scan : List Row)
  | mailCount (worker day : ℕ)
  | mailSend (worker : ℕ) (accepted : Bool)
  | mailMark (worker : ℕ)
  | mailSkip (worker : ℕ)

/-! ### The statements -/

abbrev Deliveries.tables (s : Deliveries) : Tables := s.queue.tables

def Deliveries.setTables (s : Deliveries) (tables : Tables) : Deliveries :=
  { s with queue := { s.queue with tables } }

def Deliveries.setCycle (s : Deliveries) (worker : ℕ) (cycle : Requests) : Deliveries :=
  { s with cycles := Function.update s.cycles worker cycle }

def Deliveries.setRound (s : Deliveries) (worker : ℕ) (round : MailRound) : Deliveries :=
  { s with rounds := s.rounds.set worker round }

/-- UPDATE subscriptions … WHERE id = $1 AND status = 'active' -/
def Tables.updateSubscription (t : Tables) (id : ℕ) (f : Subscription → Subscription) : Tables :=
  { t with subscriptions := t.subscriptions.map fun sub =>
      if sub.id = id ∧ sub.status = .active then f sub else sub }

def Tables.isActive (t : Tables) (id : ℕ) : Prop :=
  ∃ sub ∈ t.subscriptions, sub.id = id ∧ sub.status = .active

instance (t : Tables) (id : ℕ) : Decidable (t.isActive id) := by
  unfold Tables.isActive
  infer_instance

/-- The columns that `update_subscription_batch_config` leaves out stay as they are. -/
def updateBatchConfig (subscriptionType : Option SubscriptionType)
    (batchSize batchTimeoutMs : Option ℤ) (sub : Subscription) : Subscription :=
  { sub with
    subscriptionType := subscriptionType.getD sub.subscriptionType
    batchSize := (batchSize.map (newSubscription.clamp · 1 1000)).getD sub.batchSize
    batchTimeoutMs :=
      (batchTimeoutMs.map (newSubscription.clamp · 100 60000)).getD sub.batchTimeoutMs }

/-- The check of `update_subscription_email`. -/
def EmailConfig.Valid (config : EmailConfig) : Prop :=
  config.emailEnabled = true → ∃ addr ∈ config.emailAddress, addr ≠ "" ∧ '@' ∈ addr.toList

instance (config : EmailConfig) : Decidable config.Valid := by
  unfold EmailConfig.Valid
  infer_instance

def delivered (item : QueueItem) : QueueItem := { item with status := .delivered }

/-- The second statement of `ack_subscription`. -/
def Tables.ackRows (t : Tables) (id : ℕ) (ledger : ℤ) : Tables :=
  { t with deliveryQueue := t.deliveryQueue.map fun item =>
      if item.subscriptionId = id ∧ item.ledger ≤ ledger ∧ item.status = .pending then
        delivered item
      else item }

/-- The statement after an e-mail. -/
def Tables.mailRows (t : Tables) (subscriptionId eventId : ℕ) : Tables :=
  { t with deliveryQueue := t.deliveryQueue.map fun item =>
      if item.subscriptionId = subscriptionId ∧ item.eventId = eventId then delivered item
      else item }

/-- The mail for a due row, if its subscription has e-mail. -/
def mailOf (email : ℕ → EmailConfig) (row : Row) : Option Mail :=
  if (email row.sub.id).emailEnabled then
    (email row.sub.id).emailAddress.map fun emailAddress =>
      { subscriptionId := row.sub.id, emailAddress, eventId := row.event.id }
  else none

/-- DISTINCT ON (s.id) … ORDER BY s.id, dq.ledger LIMIT 100 -/
def mailsOf (email : ℕ → EmailConfig) (scan : List Row) : List Mail :=
  let rows := (Keyset.sortOn (·.item.ledger) scan).filter fun row => (mailOf email row).isSome
  let ids := Keyset.sortOn id (rows.map (·.sub.id)).dedup
  (ids.filterMap fun id => (rows.find? (·.sub.id = id)).bind (mailOf email)).take 100

/-- The counter of the address and the day, one further, and whether it is within the limit. -/
def Deliveries.checkAndIncrementEmailRateLimit (s : Deliveries) (email : String) (day : ℕ) :
    Deliveries × Bool :=
  let sendCount := s.sendCount email day + 1
  ({ s with sendCount := fun a d => if a = email ∧ d = day then sendCount else s.sendCount a d },
    sendCount ≤ EMAIL_DAILY_LIMIT)

variable (crate : UrlCrate) (setting : Option String) (config : SubscriptionConfig)

/-- One statement, request or mail. -/
def Deliveries.step (s : Deliveries) : DeliveryAction → Option Deliveries
  | .queue action =>
    (s.queue.step crate setting config action).map fun queue => { s with queue }
  | .cancelSubscription id =>
    some <| s.setTables <|
      s.tables.updateSubscription id fun sub => { sub with status := .cancelled }
  | .updateBatchConfig id subscriptionType batchSize batchTimeoutMs =>
    some <| s.setTables <|
      s.tables.updateSubscription id (updateBatchConfig subscriptionType batchSize batchTimeoutMs)
  | .updateEmail id config =>
    if config.Valid ∧ s.tables.isActive id then
      some { s with email := Function.update s.email id config }
    else some s
  | .ack id ledger =>
    -- the acknowledged ledger only moves forward, the rows are marked in any case
    if ∃ sub ∈ s.tables.subscriptions, sub.id = id then
      some { s with
        acking := (id, ledger) :: s.acking
        ackedLedger :=
          if s.tables.isActive id ∧ s.ackedLedger id < ledger then
            Function.update s.ackedLedger id ledger
          else s.ackedLedger }
    else some s
  | .ackRows id ledger =>
    if (id, ledger) ∈ s.acking then
      some { s.setTables (s.tables.ackRows id ledger) with
        acking := s.acking.erase (id, ledger)
        log := .acked id ledger s.tables.nextItemId :: s.log }
    else none
  | .select worker now scan groups =>
    if (s.cycles worker).posts.isEmpty ∧ scan.Perm (s.tables.due now) ∧
        groups.Perm (batchGroups ((selected scan).filter isBatch)) then
      some (s.setCycle worker ⟨posts (selected scan) groups, none⟩)
    else none
  | .answer worker reply =>
    match s.cycles worker with
    | ⟨post :: rest, none⟩ => some (s.setCycle worker ⟨post :: rest, some reply⟩)
    | _ => none
  | .settle worker now =>
    match s.cycles worker with
    | ⟨post :: rest, some reply⟩ =>
      some { (s.setTables (s.tables.settle now post reply)).setCycle worker ⟨rest, none⟩ with
        log := .settled post reply now :: s.log }
    | _ => none
  | .abort worker => some (s.setCycle worker {})
  | .mailSelect worker now scan =>
    match s.rounds[worker]? with
    | some ⟨[], _⟩ =>
      if scan.Perm (s.tables.due now) then
        some (s.setRound worker ⟨mailsOf s.email scan, .count⟩)
      else none
    | _ => none
  | .mailCount worker day =>
    match s.rounds[worker]? with
    | some ⟨mail :: rest, .count⟩ =>
      let (s, allowed) := s.checkAndIncrementEmailRateLimit mail.emailAddress day
      some (s.setRound worker (if allowed then ⟨mail :: rest, .send day⟩ else ⟨rest, .count⟩))
    | _ => none
  | .mailSend worker accepted =>
    match s.rounds[worker]? with
    | some ⟨mail :: rest, .send day⟩ =>
      some { s.setRound worker ⟨mail :: rest, .mark accepted⟩ with sent := (mail, day) :: s.sent }
    | _ => none
  | .mailMark worker =>
    match s.rounds[worker]? with
    | some ⟨mail :: rest, .mark accepted⟩ =>
      if accepted then
        some { (s.setTables (s.tables.mailRows mail.subscriptionId mail.eventId)).setRound worker
            ⟨rest, .count⟩ with
          log := .mailed mail.subscriptionId mail.eventId s.tables.nextItemId :: s.log }
      else some (s.setRound worker ⟨rest, .count⟩)
    | _ => none
  | .mailSkip worker =>
    match s.rounds[worker]? with
    | some ⟨_ :: rest, _⟩ => some (s.setRound worker ⟨rest, .count⟩)
    | _ => none

/-! ### The log and the rows -/

def Reply.settle (now : Time) : Reply → QueueItem → QueueItem
  | .success => delivered
  | .status text => scheduleRetry now s!"HTTP {text}"
  | .error text => scheduleRetry now text

/-- What a statement did to a row. -/
def Settlement.apply : Settlement → QueueItem → QueueItem
  | .settled post reply now, item =>
    if item.id ∈ post.queueIds then reply.settle now item else item
  | .acked id ledger nextItemId, item =>
    if item.subscriptionId = id ∧ item.ledger ≤ ledger ∧ item.status = .pending ∧
        item.id < nextItemId then
      delivered item
    else item
  | .mailed subscriptionId eventId nextItemId, item =>
    if item.subscriptionId = subscriptionId ∧ item.eventId = eventId ∧ item.id < nextItemId then
      delivered item
    else item

/-- A row as it was queued. -/
def QueueItem.fresh (item : QueueItem) (queuedAt : Time) : QueueItem where
  id := item.id
  subscriptionId := item.subscriptionId
  eventId := item.eventId
  ledger := item.ledger
  nextAttemptAt := queuedAt

/-- The statement says that the row need not be sent, or not any more. -/
def Settlement.Delivers (item : QueueItem) : Settlement → Prop
  | .settled post reply _ => reply = .success ∧ item.id ∈ post.queueIds
  | .acked id ledger nextItemId =>
    item.subscriptionId = id ∧ item.ledger ≤ ledger ∧ item.id < nextItemId
  | .mailed subscriptionId eventId nextItemId =>
    item.subscriptionId = subscriptionId ∧ item.eventId = eventId ∧ item.id < nextItemId

/-- When the statement put the row off. -/
def Settlement.failedAt (item : QueueItem) : Settlement → Option Time
  | .settled post reply now =>
    if item.id ∈ post.queueIds ∧ reply ≠ .success then some now else none
  | _ => none

/-- The rows that a statement can have touched had ids below the bound. -/
def Settlement.Below (bound : ℕ) : Settlement → Prop
  | .settled post _ _ => ∀ id ∈ post.queueIds, id < bound
  | .acked _ _ nextItemId => nextItemId ≤ bound
  | .mailed _ _ nextItemId => nextItemId ≤ bound

/-- Every row is accounted for by the log. -/
structure Accounted (s : Deliveries) : Prop where
  /-- Delivered is what was accepted, acknowledged or mailed, and nothing else. -/
  delivered_iff : ∀ item ∈ s.tables.deliveryQueue,
    item.status = .delivered ↔ ∃ entry ∈ s.log, entry.Delivers item
  /-- Everything else is still to be sent. -/
  pending : ∀ item ∈ s.tables.deliveryQueue, item.status ≠ .delivered → item.status = .pending
  attempts : ∀ item ∈ s.tables.deliveryQueue,
    item.attempts = (s.log.filterMap (·.failedAt item)).length
  /-- The next attempt comes after the last failure, by at most an hour. -/
  nextAttemptAt : ∀ item ∈ s.tables.deliveryQueue,
    ∀ failed ∈ (s.log.filterMap (·.failedAt item)).head?,
      item.nextAttemptAt = failed + (min (2 ^ item.attempts) 3600 : ℕ) * 1000000
  /-- A row counts as mailed only if its event went to the address of a subscription of its own. -/
  mailed : ∀ subscriptionId eventId nextItemId,
    .mailed subscriptionId eventId nextItemId ∈ s.log →
      ∃ sent ∈ s.sent, sent.1.subscriptionId = subscriptionId ∧ sent.1.eventId = eventId

section
variable {item : QueueItem} {entry : Settlement} {log : List Settlement} {now queuedAt : Time}
  {bound : ℕ}

theorem keys_settle (reply : Reply) :
    (reply.settle now item).keys = item.keys ∧ (reply.settle now item).ledger = item.ledger := by
  cases reply <;> exact ⟨rfl, rfl⟩

theorem keys_apply (entry : Settlement) (item : QueueItem) :
    (entry.apply item).keys = item.keys ∧ (entry.apply item).ledger = item.ledger := by
  cases entry with
  | settled post reply now =>
    rw [Settlement.apply]
    split
    · exact keys_settle reply
    · exact ⟨rfl, rfl⟩
  | acked id ledger nextItemId =>
    rw [Settlement.apply]
    split <;> exact ⟨rfl, rfl⟩
  | mailed subscriptionId eventId nextItemId =>
    rw [Settlement.apply]
    split <;> exact ⟨rfl, rfl⟩

/-- A row is not touched by what was done before it came. -/
theorem apply_of_le (h : entry.Below bound) (hitem : bound ≤ item.id) :
    entry.apply item = item := by
  cases entry with
  | settled post reply now =>
    exact if_neg fun hmem => absurd (h item.id hmem) (by omega)
  | acked id ledger nextItemId =>
    have hle : nextItemId ≤ bound := h
    exact if_neg fun hall => by omega
  | mailed subscriptionId eventId nextItemId =>
    have hle : nextItemId ≤ bound := h
    exact if_neg fun hall => by omega

theorem foldr_apply_of_le (h : ∀ entry ∈ log, entry.Below bound) (hitem : bound ≤ item.id) :
    log.foldr Settlement.apply item = item := by
  induction log with
  | nil => rfl
  | cons entry log ih =>
    rw [List.foldr_cons, ih fun entry hentry => h entry (List.mem_cons_of_mem _ hentry)]
    exact apply_of_le (h entry List.mem_cons_self) hitem

theorem fresh_congr {other : QueueItem} (hkeys : other.keys = item.keys)
    (hledger : other.ledger = item.ledger) (queuedAt : Time) :
    other.fresh queuedAt = item.fresh queuedAt := by
  simp only [QueueItem.keys, Prod.mk.injEq] at hkeys
  simp only [QueueItem.fresh, hkeys, hledger]

/-- What the log says of a row, it says of the row as it was queued. -/
structure Reads (log : List Settlement) (item : QueueItem) : Prop where
  delivered_iff : item.status = .delivered ↔ ∃ entry ∈ log, entry.Delivers item
  pending : item.status ≠ .delivered → item.status = .pending
  attempts : item.attempts = (log.filterMap (·.failedAt item)).length
  nextAttemptAt : ∀ failed ∈ (log.filterMap (·.failedAt item)).head?,
    item.nextAttemptAt = failed + (min (2 ^ item.attempts) 3600 : ℕ) * 1000000

theorem delivers_congr {other : QueueItem} (hkeys : other.keys = item.keys)
    (hledger : other.ledger = item.ledger) : entry.Delivers other ↔ entry.Delivers item := by
  simp only [QueueItem.keys, Prod.mk.injEq] at hkeys
  cases entry <;> simp only [Settlement.Delivers, hkeys, hledger]

theorem failedAt_congr {other : QueueItem} (hkeys : other.keys = item.keys) :
    Settlement.failedAt other = Settlement.failedAt item := by
  simp only [QueueItem.keys, Prod.mk.injEq] at hkeys
  funext entry
  cases entry <;> simp only [Settlement.failedAt, hkeys]

theorem status_apply (entry : Settlement) (h : item.status ≠ .delivered → item.status = .pending) :
    ((entry.apply item).status = .delivered ↔ entry.Delivers item ∨ item.status = .delivered) ∧
      ((entry.apply item).status ≠ .delivered → (entry.apply item).status = .pending) := by
  cases entry with
  | settled post reply now =>
    by_cases hmem : item.id ∈ post.queueIds
    · cases reply <;>
        simp [Settlement.apply, Settlement.Delivers, hmem, Reply.settle, delivered,
          scheduleRetry] <;>
        exact h
    · simp [Settlement.apply, Settlement.Delivers, hmem]
      exact h
  | acked id ledger nextItemId =>
    rw [Settlement.apply, Settlement.Delivers]
    split
    · next hall => simp [delivered, hall]
    · next hall =>
      refine ⟨⟨.inr, ?_⟩, h⟩
      rintro (⟨hsub, hledger, hid⟩ | hdelivered)
      · by_contra hnot
        exact hall ⟨hsub, hledger, h hnot, hid⟩
      · exact hdelivered
  | mailed subscriptionId eventId nextItemId =>
    rw [Settlement.apply, Settlement.Delivers]
    split
    · next hall => simp [delivered, hall]
    · next hall => exact ⟨by simp [hall], h⟩

/-- A failed request puts the row off, nothing else does. -/
theorem failedAt_apply (entry : Settlement) (item : QueueItem) :
    match entry.failedAt item with
    | some failed => (entry.apply item).attempts = item.attempts + 1 ∧
        (entry.apply item).nextAttemptAt =
          failed + (min (2 ^ (item.attempts + 1)) 3600 : ℕ) * 1000000
    | none => (entry.apply item).attempts = item.attempts ∧
        (entry.apply item).nextAttemptAt = item.nextAttemptAt := by
  cases entry with
  | settled post reply now =>
    by_cases hmem : item.id ∈ post.queueIds
    · cases reply <;>
        simp [Settlement.apply, Settlement.failedAt, hmem, Reply.settle, delivered, scheduleRetry]
    · simp [Settlement.apply, Settlement.failedAt, hmem]
  | acked id ledger nextItemId =>
    simp only [Settlement.failedAt, Settlement.apply]
    split <;> exact ⟨rfl, rfl⟩
  | mailed subscriptionId eventId nextItemId =>
    simp only [Settlement.failedAt, Settlement.apply]
    split <;> exact ⟨rfl, rfl⟩

/-- One more entry. -/
theorem Reads.cons (h : Reads log item) (entry : Settlement) :
    Reads (entry :: log) (entry.apply item) := by
  obtain ⟨hkeys, hledger⟩ := keys_apply entry item
  obtain ⟨hstatus, hpending⟩ := status_apply entry h.pending
  have hfailed := failedAt_apply entry item
  refine ⟨?_, hpending, ?_, ?_⟩
  · rw [hstatus, h.delivered_iff]
    simp only [List.exists_mem_cons_iff, delivers_congr hkeys hledger]
  · rw [failedAt_congr hkeys, List.filterMap_cons]
    cases hentry : entry.failedAt item with
    | none =>
      rw [hentry] at hfailed
      exact hfailed.1.trans h.attempts
    | some failed =>
      rw [hentry] at hfailed
      exact hfailed.1.trans (congrArg (· + 1) h.attempts)
  · rw [failedAt_congr hkeys, List.filterMap_cons]
    cases hentry : entry.failedAt item with
    | none =>
      rw [hentry] at hfailed
      rw [hfailed.1, hfailed.2]
      exact h.nextAttemptAt
    | some failed =>
      rw [hentry] at hfailed
      rintro _ ⟨⟩
      rw [hfailed.1, hfailed.2]

theorem reads_foldr (log : List Settlement) :
    Reads log (log.foldr Settlement.apply (item.fresh queuedAt)) := by
  induction log with
  | nil => exact ⟨by simp [QueueItem.fresh], fun _ => rfl, rfl, by simp⟩
  | cons entry log ih => exact ih.cons entry

end

/-! ### One step -/

/-- A row of the queue as the log explains it. -/
def Explained (log : List Settlement) (bound : ℕ) (item : QueueItem) : Prop :=
  item.id < bound ∧ ∃ queuedAt, item = log.foldr Settlement.apply (item.fresh queuedAt)

/-- What every step keeps. -/
structure Deliveries.Inv (s : Deliveries) : Prop where
  rows : ∀ item ∈ s.tables.deliveryQueue, Explained s.log s.tables.nextItemId item
  log : ∀ entry ∈ s.log, entry.Below s.tables.nextItemId
  requests : ∀ worker, ∀ post ∈ (s.cycles worker).posts, ∀ id ∈ post.queueIds,
    id < s.tables.nextItemId
  /-- A mail is marked after it was sent. -/
  marking : ∀ round ∈ s.rounds, ∀ accepted, round.phase = .mark accepted →
    ∀ mail ∈ round.mails.head?, mail ∈ s.sent.map (·.1)
  mailed : ∀ subscriptionId eventId nextItemId,
    .mailed subscriptionId eventId nextItemId ∈ s.log →
      ∃ sent ∈ s.sent, sent.1.subscriptionId = subscriptionId ∧ sent.1.eventId = eventId

section
variable {s t : Deliveries} {item : QueueItem} {entry : Settlement} {log : List Settlement}
  {now : Time} {bound : ℕ}

theorem Explained.apply (h : Explained log bound item) (entry : Settlement) :
    Explained (entry :: log) bound (entry.apply item) := by
  obtain ⟨hid, queuedAt, hitem⟩ := h
  obtain ⟨hkeys, hledger⟩ := keys_apply entry item
  have hsame : (entry.apply item).id = item.id := congrArg (·.1) hkeys
  refine ⟨hsame ▸ hid, queuedAt, ?_⟩
  rw [List.foldr_cons, fresh_congr hkeys hledger, ← hitem]

/-- Rows that are queued later are as they were queued. -/
theorem explained_enqueue {tables : Tables} (rows : List (ℕ × ℕ × ℤ))
    (hrows : ∀ item ∈ tables.deliveryQueue, Explained log tables.nextItemId item)
    (hlog : ∀ entry ∈ log, entry.Below tables.nextItemId) :
    ∀ item ∈ (tables.enqueue now rows).deliveryQueue,
      Explained log (tables.enqueue now rows).nextItemId item := by
  intro item hitem
  rcases List.mem_append.mp hitem with hold | hnew
  · obtain ⟨hid, hexplained⟩ := hrows item hold
    exact ⟨Nat.lt_of_lt_of_le hid (Nat.le_add_right _ _), hexplained⟩
  · obtain ⟨⟨row, i⟩, hmem, rfl⟩ := List.mem_map.mp hnew
    have hi := (List.mem_zipIdx' hmem).1
    refine ⟨Nat.add_lt_add_left hi _, now, ?_⟩
    rw [foldr_apply_of_le hlog]
    · rfl
    · exact Nat.le_add_right _ _

theorem Settlement.Below.mono {bound' : ℕ} (h : entry.Below bound) (hle : bound ≤ bound') :
    entry.Below bound' := by
  cases entry with
  | settled post reply now => exact fun id hid => Nat.lt_of_lt_of_le (h id hid) hle
  | acked id ledger nextItemId => exact Nat.le_trans h hle
  | mailed subscriptionId eventId nextItemId => exact Nat.le_trans h hle

/-- How a step of the subscriptions and the indexer changes the queue. -/
theorem queue_step {crate : UrlCrate} {setting : Option String} {config : SubscriptionConfig}
    {q q' : QueueState} {action : QueueAction} (h : q.step crate setting config action = some q') :
    ∃ now rows, q'.tables.deliveryQueue = (q.tables.enqueue now rows).deliveryQueue ∧
      q'.tables.nextItemId = (q.tables.enqueue now rows).nextItemId := by
  obtain ⟨sub, -, -, -, rfl⟩ | ⟨sub, now, -, -, rfl⟩ | ⟨event, -, -, rfl⟩ |
    ⟨event, now, -, -, rfl⟩ := step_cases h
  · exact ⟨0, [], by simp [Tables.enqueue, QueueState.addSubscription],
      by simp [Tables.enqueue, QueueState.addSubscription]⟩
  · exact ⟨now, _, rfl, rfl⟩
  · exact ⟨0, [], by simp [Tables.enqueue, QueueState.addEvent],
      by simp [Tables.enqueue, QueueState.addEvent]⟩
  · exact ⟨now, _, rfl, rfl⟩

/-- A cycle begins with requests for rows of the queue. -/
theorem queueIds_of_mem_posts {rows : List Row} {groups : List (List Row)} {post : Post}
    (hgroups : groups.Perm (batchGroups (rows.filter isBatch))) (h : post ∈ posts rows groups) :
    ∀ id ∈ post.queueIds, ∃ row ∈ rows, row.item.id = id := by
  rcases List.mem_append.mp h with hsingle | hbatch
  · obtain ⟨row, hrow, rfl⟩ := List.mem_map.mp hsingle
    intro id hid
    rcases List.mem_singleton.mp hid with rfl
    exact ⟨row, List.mem_of_mem_filter hrow, rfl⟩
  · obtain ⟨group, hgroup, hpost⟩ := List.mem_filterMap.mp hbatch
    obtain ⟨row, -, rfl⟩ := mem_batchGroups.mp (hgroups.mem_iff.mp hgroup)
    intro id hid
    generalize hitems : (rows.filter isBatch).filter (·.item.id = row.item.id) = items at hpost
    have hsub : ∀ other ∈ items, other ∈ rows := by
      intro other hother
      rw [← hitems] at hother
      exact List.mem_of_mem_filter (List.mem_of_mem_filter hother)
    cases items with
    | nil => cases hpost
    | cons first rest =>
      cases hpost
      dsimp only at hid
      obtain ⟨other, hother, rfl⟩ := List.mem_map.mp hid
      refine ⟨other, hsub other ?_, rfl⟩
      split at hother
      · exact hother
      · exact List.mem_of_mem_take hother

/-- A statement that touches rows, and is logged. -/
theorem Deliveries.Inv.settled (entry : Settlement) (tables : Tables) (h : s.Inv)
    (hbelow : entry.Below s.tables.nextItemId)
    (hqueue : tables.deliveryQueue = s.tables.deliveryQueue.map entry.apply)
    (hnext : tables.nextItemId = s.tables.nextItemId) :
    (∀ item ∈ tables.deliveryQueue, Explained (entry :: s.log) tables.nextItemId item) ∧
      ∀ other ∈ entry :: s.log, other.Below tables.nextItemId := by
  rw [hqueue, hnext]
  constructor
  · intro item hitem
    obtain ⟨old, hold, rfl⟩ := List.mem_map.mp hitem
    exact (h.rows old hold).apply entry
  · intro other hother
    rcases List.mem_cons.mp hother with rfl | hother
    · exact hbelow
    · exact h.log other hother

/-- A worker goes on with requests for rows of the queue. -/
theorem Deliveries.Inv.setCycle (h : s.Inv) (worker : ℕ) (requests : Requests)
    (hrequests : ∀ post ∈ requests.posts, ∀ id ∈ post.queueIds, id < s.tables.nextItemId) :
    ∀ other, ∀ post ∈ ((s.setCycle worker requests).cycles other).posts, ∀ id ∈ post.queueIds,
      id < s.tables.nextItemId := by
  intro other post hpost
  change post ∈ (Function.update s.cycles worker requests other).posts at hpost
  rcases eq_or_ne other worker with rfl | hother
  · rw [Function.update_self] at hpost
    exact hrequests post hpost
  · rw [Function.update_of_ne hother] at hpost
    exact h.requests other post hpost

/-- A round that is not about to mark a mail, or has sent it. -/
theorem Deliveries.Inv.setRound (h : s.Inv) (worker : ℕ) (round : MailRound)
    (hround : ∀ accepted, round.phase = .mark accepted →
      ∀ mail ∈ round.mails.head?, mail ∈ s.sent.map (·.1)) :
    ∀ other ∈ (s.setRound worker round).rounds, ∀ accepted, other.phase = .mark accepted →
      ∀ mail ∈ other.mails.head?, mail ∈ s.sent.map (·.1) := by
  intro other hother
  rcases List.mem_or_eq_of_mem_set hother with hold | rfl
  · exact h.marking other hold
  · exact hround

theorem settle_deliveryQueue (tables : Tables) (now : Time) (post : Post) (reply : Reply) :
    (tables.settle now post reply).deliveryQueue =
        tables.deliveryQueue.map (Settlement.settled post reply now).apply ∧
      (tables.settle now post reply).nextItemId = tables.nextItemId := by
  cases reply <;> exact ⟨rfl, rfl⟩

variable {crate : UrlCrate} {setting : Option String} {config : SubscriptionConfig}
  {action : DeliveryAction}

theorem Deliveries.Inv.step (h : s.Inv) (hstep : s.step crate setting config action = some t) :
    t.Inv := by
  cases action with
  | queue action =>
    obtain ⟨queue, hqueue, rfl⟩ := Option.map_eq_some_iff.mp hstep
    obtain ⟨now, rows, hitems, hnext⟩ := queue_step hqueue
    -- new rows take fresh ids, so that no settlement in the log is about them
    have hle : s.tables.nextItemId ≤ queue.tables.nextItemId := hnext ▸ Nat.le_add_right _ _
    refine ⟨?_, fun entry hentry => (h.log entry hentry).mono hle,
      fun worker post hpost id hid => Nat.lt_of_lt_of_le (h.requests worker post hpost id hid) hle,
      h.marking, h.mailed⟩
    intro item hitem
    rw [Deliveries.tables, hitems] at hitem
    rw [Deliveries.tables, hnext]
    exact explained_enqueue rows h.rows h.log item hitem
  | cancelSubscription id =>
    cases hstep
    exact ⟨h.rows, h.log, h.requests, h.marking, h.mailed⟩
  | updateBatchConfig id subscriptionType batchSize batchTimeoutMs =>
    cases hstep
    exact ⟨h.rows, h.log, h.requests, h.marking, h.mailed⟩
  | updateEmail id config =>
    rw [Deliveries.step] at hstep
    split at hstep <;> cases hstep <;> exact ⟨h.rows, h.log, h.requests, h.marking, h.mailed⟩
  | ack id ledger =>
    rw [Deliveries.step] at hstep
    split at hstep <;> cases hstep <;> exact ⟨h.rows, h.log, h.requests, h.marking, h.mailed⟩
  | ackRows id ledger =>
    rw [Deliveries.step, Option.ite_none_right_eq_some] at hstep
    obtain ⟨-, hstep⟩ := hstep
    cases hstep
    obtain ⟨hrows, hlog⟩ := h.settled (.acked id ledger s.tables.nextItemId)
      (s.tables.ackRows id ledger) (Nat.le_refl _) (by
        -- the log entry does to each row what the UPDATE does, as all ids are below the counter
        refine List.map_congr_left fun item hitem => ?_
        have hid := (h.rows item hitem).1
        simp [Settlement.apply, hid]) rfl
    refine ⟨hrows, hlog, h.requests, h.marking, ?_⟩
    intro subscriptionId eventId nextItemId hmem
    rcases List.mem_cons.mp hmem with heq | hmem
    · cases heq
    · exact h.mailed _ _ _ hmem
  | select worker now scan groups =>
    rw [Deliveries.step, Option.ite_none_right_eq_some] at hstep
    obtain ⟨⟨-, hscan, hgroups⟩, hstep⟩ := hstep
    cases hstep
    refine ⟨h.rows, h.log, h.setCycle worker _ ?_, h.marking, h.mailed⟩
    intro post hpost id hid  -- requests carry ids of rows that were due
    obtain ⟨row, hrow, rfl⟩ := queueIds_of_mem_posts hgroups hpost id hid
    exact (h.rows _ (mem_due.mp (hscan.mem_iff.mp (mem_of_mem_selected hrow))).1).1
  | answer worker reply =>
    rw [Deliveries.step] at hstep
    split at hstep
    · next post rest hcycle =>
      cases hstep
      refine ⟨h.rows, h.log, h.setCycle worker _ ?_, h.marking, h.mailed⟩
      have hold := h.requests worker
      rw [hcycle] at hold
      exact hold
    · cases hstep
  | settle worker now =>
    rw [Deliveries.step] at hstep
    split at hstep
    · next post rest reply hcycle =>
      cases hstep
      have hold := h.requests worker
      rw [hcycle] at hold
      obtain ⟨hqueue, hnext⟩ := settle_deliveryQueue s.tables now post reply
      obtain ⟨hrows, hlog⟩ := h.settled (.settled post reply now) _
        (hold post List.mem_cons_self) hqueue hnext
      -- the answered post goes, and the other workers' posts have their ids below the counter
      refine ⟨hrows, hlog, ?_, h.marking, ?_⟩
      · have hrest := h.setCycle worker ⟨rest, none⟩ fun post hpost =>
          hold post (List.mem_cons_of_mem _ hpost)
        intro other post hpost id hid
        exact hnext ▸ hrest other post hpost id hid
      · -- a settlement is no mail
        intro subscriptionId eventId nextItemId hmem
        rcases List.mem_cons.mp hmem with heq | hmem
        · cases heq
        · exact h.mailed _ _ _ hmem
    · cases hstep
  | abort worker =>
    cases hstep
    refine ⟨h.rows, h.log, h.setCycle worker _ ?_, h.marking, h.mailed⟩
    rintro _ ⟨⟩
  | mailSelect worker now scan =>
    rw [Deliveries.step] at hstep
    split at hstep
    · split at hstep <;> cases hstep
      exact ⟨h.rows, h.log, h.requests, h.setRound worker _ (by rintro _ ⟨⟩), h.mailed⟩
    · cases hstep
  | mailCount worker day =>
    rw [Deliveries.step] at hstep
    split at hstep
    · cases hstep
      refine ⟨h.rows, h.log, h.requests, h.setRound worker _ ?_, h.mailed⟩
      split <;> rintro _ ⟨⟩
    · cases hstep
  | mailSend worker accepted =>
    rw [Deliveries.step] at hstep
    split at hstep
    · next mail rest day hround =>
      cases hstep
      refine ⟨h.rows, h.log, h.requests, ?_, ?_⟩
      · -- the accepted mail is remembered before it is marked
        intro round hmem accepted' hphase mail' hmail
        rcases List.mem_or_eq_of_mem_set hmem with hold | rfl
        · exact List.mem_cons_of_mem _ (h.marking round hold accepted' hphase mail' hmail)
        · cases hmail
          exact List.mem_cons_self
      · intro subscriptionId eventId nextItemId hmem
        obtain ⟨sent, hsent, hids⟩ := h.mailed _ _ _ hmem
        exact ⟨sent, List.mem_cons_of_mem _ hsent, hids⟩
    · cases hstep
  | mailMark worker =>
    rw [Deliveries.step] at hstep
    split at hstep
    · next mail rest accepted hround =>
      have hrest := h.setRound worker ⟨rest, .count⟩ (by rintro _ ⟨⟩)
      split at hstep <;> cases hstep
      · obtain ⟨hrows, hlog⟩ := h.settled
          (.mailed mail.subscriptionId mail.eventId s.tables.nextItemId)
          (s.tables.mailRows mail.subscriptionId mail.eventId) (Nat.le_refl _) (by
            refine List.map_congr_left fun item hitem => ?_
            have hid := (h.rows item hitem).1
            simp [Settlement.apply, hid]) rfl
        refine ⟨hrows, hlog, h.requests, hrest, ?_⟩
        intro subscriptionId eventId nextItemId hmem
        rcases List.mem_cons.mp hmem with heq | hmem
        · cases heq
          -- a mark was preceded by a mail that was accepted
          have hmarked := h.marking _ (List.mem_of_getElem? hround) accepted rfl mail rfl
          obtain ⟨sent, hsent, rfl⟩ := List.mem_map.mp hmarked
          exact ⟨sent, hsent, rfl, rfl⟩
        · exact h.mailed _ _ _ hmem
      · exact ⟨h.rows, h.log, h.requests, hrest, h.mailed⟩
    · cases hstep
  | mailSkip worker =>
    rw [Deliveries.step] at hstep
    split at hstep
    · cases hstep
      exact ⟨h.rows, h.log, h.requests, h.setRound worker _ (by rintro _ ⟨⟩), h.mailed⟩
    · cases hstep

end

/-- No subscription, no event, and some e-mail workers. -/
def Deliveries.start (mailWorkers : ℕ) : Deliveries where
  rounds := List.replicate mailWorkers {}

theorem inv_start (mailWorkers : ℕ) : (Deliveries.start mailWorkers).Inv where
  rows := by
    rintro _ ⟨⟩
  log := by
    rintro _ ⟨⟩
  requests := by
    rintro _ _ ⟨⟩
  marking := by
    intro round hround accepted hphase
    rw [List.eq_of_mem_replicate hround] at hphase
    cases hphase
  mailed := by
    rintro _ _ _ ⟨⟩

theorem Deliveries.Inv.accounted {s : Deliveries} (h : s.Inv) : Accounted s := by
  have hreads : ∀ item ∈ s.tables.deliveryQueue, Reads s.log item := by
    intro item hitem
    obtain ⟨-, queuedAt, heq⟩ := h.rows item hitem
    rw [heq]
    exact reads_foldr s.log
  exact ⟨fun item hitem => (hreads item hitem).delivered_iff,
    fun item hitem => (hreads item hitem).pending, fun item hitem => (hreads item hitem).attempts,
    fun item hitem => (hreads item hitem).nextAttemptAt, h.mailed⟩

section
variable {s t : Deliveries} {address : String} {day : ℕ}

/-- The mails sent to an address on the count of a day. -/
def Deliveries.sentOn (s : Deliveries) (address : String) (day : ℕ) : ℕ :=
  s.sent.countP fun sent => sent.1.emailAddress = address ∧ sent.2 = day

/-- A mail that is counted and not yet sent. -/
def MailRound.sending (address : String) (day : ℕ) (round : MailRound) : Bool :=
  round.phase = .send day ∧ round.mails.head?.map (·.emailAddress) = some address

/-- The mails sent and those about to be sent were counted, and the limit kept. -/
def Deliveries.Limited (s : Deliveries) : Prop :=
  ∀ address day, s.sentOn address day + s.rounds.countP (·.sending address day) ≤
    min (s.sendCount address day) EMAIL_DAILY_LIMIT

/-- The rounds after one of them has moved on. -/
theorem countP_setRound (address : String) (day : ℕ) (new : MailRound) {worker : ℕ}
    {old : MailRound} (hround : s.rounds[worker]? = some old) :
    (s.setRound worker new).rounds.countP (·.sending address day) +
        (if old.sending address day then 1 else 0) =
      s.rounds.countP (·.sending address day) + if new.sending address day then 1 else 0 := by
  obtain ⟨hlt, rfl⟩ := List.getElem?_eq_some_iff.mp hround
  have hpos : (if s.rounds[worker].sending address day then 1 else 0) ≤
      s.rounds.countP (·.sending address day) := by
    split
    · next hsending =>
      exact List.countP_pos_iff.mpr ⟨_, List.getElem_mem hlt, hsending⟩
    · exact Nat.zero_le _
  change (s.rounds.set worker new).countP _ + _ = _
  rw [List.countP_set hlt]
  omega

variable {crate : UrlCrate} {setting : Option String} {config : SubscriptionConfig}
  {action : DeliveryAction}

/-- A round that moves on to no mail of the address leaves room. -/
theorem Deliveries.Limited.setRound (h : s.Limited) {worker : ℕ} {old new : MailRound}
    (hround : s.rounds[worker]? = some old) (hnew : ∀ day, new.phase ≠ .send day) :
    (s.setRound worker new).Limited := by
  intro address day
  have hcount := countP_setRound address day new hround
  have hidle : new.sending address day = false := by simp [MailRound.sending, hnew]
  have hlimit := h address day
  rw [hidle] at hcount
  change s.sentOn address day + _ ≤ min (s.sendCount address day) EMAIL_DAILY_LIMIT
  simp only [Bool.false_eq_true, if_false] at hcount
  omega

theorem sending_send (mail : Mail) (rest : List Mail) (day' : ℕ) :
    (⟨mail :: rest, .send day⟩ : MailRound).sending address day' =
      decide (mail.emailAddress = address ∧ day = day') := by
  simp [MailRound.sending, and_comm]

theorem limited_count (h : s.Limited) {worker : ℕ} {mail : Mail} {rest : List Mail}
    (hround : s.rounds[worker]? = some ⟨mail :: rest, .count⟩) (day : ℕ) :
    ((s.checkAndIncrementEmailRateLimit mail.emailAddress day).1.setRound worker
      (if (s.checkAndIncrementEmailRateLimit mail.emailAddress day).2 then
        ⟨mail :: rest, .send day⟩
      else ⟨rest, .count⟩)).Limited := by
  intro address' day'
  have hlimit := h address' day'
  have hcount := fun new => countP_setRound address' day' new hround
  have hold : (⟨mail :: rest, .count⟩ : MailRound).sending address' day' = false := by
    simp [MailRound.sending]
  have hidle : (⟨rest, .count⟩ : MailRound).sending address' day' = false := by
    simp [MailRound.sending]
  change s.sentOn address' day' + (s.setRound worker _).rounds.countP _ ≤
    min (if address' = mail.emailAddress ∧ day' = day then s.sendCount mail.emailAddress day + 1
      else s.sendCount address' day') EMAIL_DAILY_LIMIT
  -- does the count after the increment keep the limit?
  by_cases hle : s.sendCount mail.emailAddress day + 1 ≤ EMAIL_DAILY_LIMIT
  · have hsend := hcount ⟨mail :: rest, .send day⟩
    rw [if_pos (by simpa [Deliveries.checkAndIncrementEmailRateLimit] using hle)]
    rw [hold, sending_send] at hsend
    by_cases hsame : mail.emailAddress = address' ∧ day = day'
    · obtain ⟨rfl, rfl⟩ := hsame
      simp at hsend ⊢
      omega
    · rw [if_neg fun heq => hsame ⟨heq.1.symm, heq.2.symm⟩]
      simp [hsame] at hsend
      omega
  · -- the mail is skipped, and the count stays above
    have hskip := hcount ⟨rest, .count⟩
    rw [if_neg (by simpa [Deliveries.checkAndIncrementEmailRateLimit] using hle)]
    rw [hold, hidle] at hskip
    simp at hskip
    split
    · next hsame =>
      obtain ⟨rfl, rfl⟩ := hsame
      omega
    · omega

theorem limited_send (h : s.Limited) {worker : ℕ} {mail : Mail} {rest : List Mail} {day : ℕ}
    {accepted : Bool} (hround : s.rounds[worker]? = some ⟨mail :: rest, .send day⟩) :
    Deliveries.Limited
      { s.setRound worker ⟨mail :: rest, .mark accepted⟩ with sent := (mail, day) :: s.sent } := by
  intro address' day'
  have hlimit := h address' day'
  have hcount := countP_setRound address' day' ⟨mail :: rest, .mark accepted⟩ hround
  have hnew : (⟨mail :: rest, .mark accepted⟩ : MailRound).sending address' day' = false := by
    simp [MailRound.sending]
  rw [sending_send, hnew] at hcount
  change ((mail, day) :: s.sent).countP _ + _ ≤ min (s.sendCount address' day') EMAIL_DAILY_LIMIT
  rw [List.countP_cons]
  change s.sentOn address' day' + _ + _ ≤ _
  by_cases hsame : mail.emailAddress = address' ∧ day = day'
  · simp [hsame] at hcount ⊢
    omega
  · simp [hsame] at hcount ⊢
    omega

theorem Deliveries.Limited.step (h : s.Limited)
    (hstep : s.step crate setting config action = some t) : t.Limited := by
  cases action with
  | queue action =>
    obtain ⟨queue, -, rfl⟩ := Option.map_eq_some_iff.mp hstep
    exact h  -- only a mail round changes what was counted or sent
  | cancelSubscription id =>
    cases hstep
    exact h
  | updateBatchConfig id subscriptionType batchSize batchTimeoutMs =>
    cases hstep
    exact h
  | updateEmail id config =>
    rw [Deliveries.step] at hstep
    split at hstep <;> cases hstep <;> exact h
  | ack id ledger =>
    rw [Deliveries.step] at hstep
    split at hstep <;> cases hstep <;> exact h
  | ackRows id ledger =>
    rw [Deliveries.step] at hstep
    split at hstep <;> cases hstep
    exact h
  | select worker now scan groups =>
    rw [Deliveries.step] at hstep
    split at hstep <;> cases hstep
    exact h
  | answer worker reply =>
    rw [Deliveries.step] at hstep
    split at hstep <;> cases hstep
    exact h
  | settle worker now =>
    rw [Deliveries.step] at hstep
    split at hstep <;> cases hstep
    exact h
  | abort worker =>
    cases hstep
    exact h
  | mailSelect worker now scan =>
    rw [Deliveries.step] at hstep
    split at hstep
    · next hround =>
      split at hstep <;> cases hstep
      exact h.setRound hround (by simp)
    · cases hstep
  | mailCount worker day =>
    rw [Deliveries.step] at hstep
    split at hstep
    · next hround =>
      cases hstep
      -- the counter goes up by one, and at most one mail is now about to be sent
      exact limited_count h hround day
    · cases hstep
  | mailSend worker accepted =>
    rw [Deliveries.step] at hstep
    split at hstep
    · next hround =>
      cases hstep
      exact limited_send h hround  -- a mail about to be sent becomes a sent one, and the sum stays
    · cases hstep
  | mailMark worker =>
    rw [Deliveries.step] at hstep
    split at hstep
    · next hround => split at hstep <;> cases hstep <;> exact h.setRound hround (by simp)
    · cases hstep
  | mailSkip worker =>
    rw [Deliveries.step] at hstep
    split at hstep
    · next hround =>
      cases hstep
      exact h.setRound hround (by simp)
    · cases hstep

theorem limited_start (mailWorkers : ℕ) : (Deliveries.start mailWorkers).Limited := by
  intro address day
  have hidle : ({} : MailRound).sending address day = false := by simp [MailRound.sending]
  simp [Deliveries.start, Deliveries.sentOn, List.countP_replicate, hidle]

end

/-! ### Runs -/

section
variable {crate : UrlCrate} {setting : Option String} {config : SubscriptionConfig}
  {mailWorkers : ℕ} {actions : List DeliveryAction} {s : Deliveries}

/-- No address gets more mails on the count of a day than the limit, nor than were counted. -/
theorem Deliveries.sentOn_le
    (hrun : AnyRun (Deliveries.step crate setting config) (.start mailWorkers) actions s)
    (address : String) (day : ℕ) :
    s.sentOn address day ≤ min (s.sendCount address day) EMAIL_DAILY_LIMIT := by
  have hlimited := hrun.invariant (fun _ hstep h => h.step hstep) (limited_start mailWorkers)
  have hle := hlimited address day
  omega

end

def sampleRow : Row := ⟨sampleItem 0 1, sampleSubscription, sampleEvent⟩

/-- A request fails, and the subscriber acknowledges the ledger. -/
def failedThenAcked : List DeliveryAction :=
  [.queue (.insertSubscription 1 sampleBody), .queue (.enqueueHistory sampleSubscription 0),
    .queue (.commitEvent sampleEvent), .queue (.enqueueEvent sampleEvent 1),
    .select 0 2 [sampleRow] [], .answer 0 (.status "503 Service Unavailable"), .settle 0 3,
    .ack 1 120, .ackRows 1 120]

def afterFailedThenAcked : Deliveries :=
  (exec (Deliveries.step sampleCrate none sampleConfig) (.start 1) failedThenAcked).get (by decide)

theorem run_failedThenAcked :
    AnyRun (Deliveries.step sampleCrate none sampleConfig) (.start 1) failedThenAcked
      afterFailedThenAcked :=
  anyRun_iff_exec.mpr (Option.some_get _).symm

/-- The subscription has an address, and the event goes there. -/
def mailedOnce : List DeliveryAction :=
  [.queue (.insertSubscription 1 sampleBody), .queue (.enqueueHistory sampleSubscription 0),
    .updateEmail 1 ⟨some "a@example.com", true⟩, .queue (.commitEvent sampleEvent),
    .queue (.enqueueEvent sampleEvent 1), .mailSelect 0 2 [sampleRow], .mailCount 0 20000,
    .mailSend 0 true, .mailMark 0]

def afterMailedOnce : Deliveries :=
  (exec (Deliveries.step sampleCrate none sampleConfig) (.start 1) mailedOnce).get (by decide)

theorem run_mailedOnce :
    AnyRun (Deliveries.step sampleCrate none sampleConfig) (.start 1) mailedOnce afterMailedOnce :=
  anyRun_iff_exec.mpr (Option.some_get _).symm

theorem sentOn_mailedOnce :
    afterMailedOnce.sentOn "a@example.com" 20000 ≤ min 1 EMAIL_DAILY_LIMIT :=
  Deliveries.sentOn_le run_mailedOnce "a@example.com" 20000

end SorobanPulse.Subscriptions
