import SorobanPulse.Lib.RateWindows
import SorobanPulse.Webhook.Replay

/-! Delivery of events to the webhook.

        suppressed? ── yes ──▶ nothing
             │ no
        endpoint_rate_limited ── backoff, or too many this minute ──▶ webhook_retry_queue
             │ passes
        POST, up to max_attempts times ──┬── success ──▶ notification_acknowledgments
                                         └── none ──▶ webhook_failures

    Any number of deliveries run at the same time, one statement or request after the other. A
    statement that fails is logged, and the delivery goes on. Times are in microseconds. -/

namespace SorobanPulse.Webhook
open Lib Sse Ingest

def SECOND : ℤ := 1000000

def MINUTE : ℤ := 60 * SECOND

/-! ### Endpoints -/

inductive HealthStatus where
  | healthy | degraded | unhealthy
  deriving DecidableEq, Repr

/-- A row of rate_limit_endpoints. -/
structure Endpoint where
  perMinuteLimit : ℕ := 60
  windowStart : ℤ
  windowCount : ℕ
  consecutiveFailures : ℕ := 0
  healthStatus : HealthStatus := .healthy
  backoffUntil : Option ℤ := none
  deriving DecidableEq, Repr

/-- The upsert: the first delivery a minute after the start of a window starts the next one. -/
def Endpoint.touch (now : ℤ) : Option Endpoint → Endpoint
  | none => { windowStart := now, windowCount := 1 }
  | some endpoint =>
    if endpoint.windowStart < now - MINUTE then
      { endpoint with windowStart := now, windowCount := 1 }
    else { endpoint with windowCount := endpoint.windowCount + 1 }

/-- When a delivery that must not be sent now is to be tried again. -/
def Endpoint.limited (endpoint : Endpoint) (now : ℤ) : Option ℤ :=
  match endpoint.backoffUntil with
  | some backoffUntil => if now < backoffUntil then some backoffUntil else tooMany
  | none => tooMany
where
  tooMany : Option ℤ :=
    if endpoint.perMinuteLimit < endpoint.windowCount then some (now + MINUTE) else none

def Endpoint.recordSuccess (endpoint : Endpoint) : Endpoint :=
  { endpoint with consecutiveFailures := 0, healthStatus := .healthy, backoffUntil := none }

/-- 2, 4, 8 … seconds, at most 15 minutes. -/
def backoff (failures : ℕ) : ℤ := (min 900 (2 ^ min failures 10) : ℕ) * SECOND

def Endpoint.recordFailure (endpoint : Endpoint) (now : ℤ) : Endpoint :=
  { endpoint with
    consecutiveFailures := endpoint.consecutiveFailures + 1
    healthStatus := if 3 ≤ endpoint.consecutiveFailures + 1 then .unhealthy else .degraded
    backoffUntil := some (now + backoff (endpoint.consecutiveFailures + 1)) }

/-! ### Deliveries -/

structure Delivery where
  url : String
  secret : Option String
  event : StreamedEvent
  priority : String

/-- How a delivery ends; `inserted` tells whether its row could be written. -/
inductive Outcome where
  | suppressed
  | deferred (inserted : Bool)
  | acknowledged (inserted : Bool)
  | failed (error : String) (inserted : Bool)
  deriving DecidableEq, Repr

/-- What a delivery does next. -/
inductive Phase where
  | checkSuppression
  | checkEndpoint
  | enqueueRetry
  | post (attempt : ℕ)
  | recordSuccess
  | acknowledge
  | recordFailure (error : String)
  | insertFailure (error : String)
  | enqueueDlq (error : String) (inserted : Bool)
  | done (outcome : Outcome)
  deriving DecidableEq, Repr

/-- A row of notification_acknowledgments. -/
structure Acknowledgment where
  eventContractId : String
  eventType : String
  priority : String
  deriving DecidableEq, Repr

/-- A row of webhook_failures. -/
structure WebhookFailure where
  url : String
  payload : Value
  attempts : ℕ
  lastError : String

/-- A delivery that was let through, at this time and in this window of its endpoint, after the
    failures that were recorded there since the last success. -/
structure Pass where
  url : String
  windowStart : ℤ
  now : ℤ
  clock : ℤ
  failures : List ℤ

/-- The tables and the deliveries. Not in the tables: what was let through, the replies to each
    delivery, and the failures recorded for each endpoint since its last success. -/
structure Dispatch where
  endpoints : String → Option Endpoint
  suppressions : List (String × Option ℤ) := []
  retryQueue : List RetryRow := []
  acknowledgments : List Acknowledgment := []
  failures : List WebhookFailure := []
  dlq : List DlqRow := []
  calls : List (Delivery × Phase) := []
  passes : List Pass := []
  replies : ℕ → List Bool := fun _ => []
  failedAt : String → List ℤ := fun _ => []

inductive DispatchAction where
  | deliver (delivery : Delivery)
  | setSuppressions (suppressions : List (String × Option ℤ))
  | checkSuppression (call : ℕ) (now : ℤ) (ok : Bool)
  /-- `now` is the time of the database, `clock` that of the process. -/
  | checkEndpoint (call : ℕ) (now clock : ℤ) (ok : Bool)
  | enqueueRetry (call : ℕ) (ok : Bool)
  | post (call : ℕ) (reply : Except String Unit)
  | recordSuccess (call : ℕ) (ok : Bool)
  | acknowledge (call : ℕ) (ok : Bool)
  | recordFailure (call : ℕ) (now : ℤ) (ok : Bool)
  | insertFailure (call : ℕ) (ok : Bool)
  | enqueueDlq (call : ℕ) (ok : Bool)

/-- A target is suppressed while it has a row that has not expired. -/
def Suppressed (suppressions : List (String × Option ℤ)) (url : String) (now : ℤ) :
    Prop :=
  ∃ row ∈ suppressions, row.1 = url ∧ ∀ expiresAt ∈ row.2, now < expiresAt

instance (suppressions : List (String × Option ℤ)) (url : String) (now : ℤ) :
    Decidable (Suppressed suppressions url now) := by
  unfold Suppressed
  infer_instance

/-- The insert of `enqueue_dlq`; the column of the subscription is NOT NULL. -/
def enqueueDlq (dlq : List DlqRow) (id : Uuid) (subscriptionId : Option Uuid)
    (event : StreamedEvent) (lastError : String) : Option (List DlqRow) :=
  subscriptionId.map fun subscriptionId =>
    dlq ++ [⟨id, subscriptionId, toValue event, some lastError, false⟩]

def Dispatch.setPhase (s : Dispatch) (call : ℕ) (delivery : Delivery) (phase : Phase) : Dispatch :=
  { s with calls := s.calls.set call (delivery, phase) }

/-- The row of an endpoint is there once a delivery was checked. -/
def Dispatch.recordSuccess (s : Dispatch) (url : String) : Dispatch :=
  match s.endpoints url with
  | none => s
  | some endpoint =>
    { s with
      endpoints := Function.update s.endpoints url (some endpoint.recordSuccess)
      failedAt := Function.update s.failedAt url [] }

def Dispatch.recordFailure (s : Dispatch) (url : String) (now : ℤ) : Dispatch :=
  match s.endpoints url with
  | none => s
  | some endpoint =>
    { s with
      endpoints := Function.update s.endpoints url (some (endpoint.recordFailure now))
      failedAt := Function.update s.failedAt url (now :: s.failedAt url) }

/-- The upsert and the decision; a delivery goes on only if it passes. -/
def Dispatch.checkEndpoint (s : Dispatch) (url : String) (now clock : ℤ) : Dispatch × Bool :=
  let endpoint := Endpoint.touch now (s.endpoints url)
  let s := { s with endpoints := Function.update s.endpoints url (some endpoint) }
  match endpoint.limited clock with
  | some _ => (s, false)
  | none =>
    ({ s with passes := ⟨url, endpoint.windowStart, now, clock, s.failedAt url⟩ :: s.passes }, true)

/-- The row for a delivery that is put off, with the digest of its secret. -/
def Delivery.retryRow (digest : String → String) (delivery : Delivery) : RetryRow :=
  { enqueueEndpointRetry delivery.url delivery.event "endpoint rate limited" with
    secretHash := delivery.secret.map digest }

def Delivery.acknowledgment (delivery : Delivery) : Acknowledgment :=
  ⟨delivery.event.contractId, delivery.event.eventType, delivery.priority⟩

def Delivery.failure (maxAttempts : ℕ) (delivery : Delivery) (error : String) : WebhookFailure :=
  ⟨delivery.url, toValue delivery.event, maxAttempts, error⟩

variable (digest : String → String) (maxAttempts : ℕ)

/-- One statement or request of a delivery. -/
def Dispatch.step (s : Dispatch) : DispatchAction → Option Dispatch
  | .deliver delivery => some { s with calls := s.calls ++ [(delivery, .checkSuppression)] }
  | .setSuppressions suppressions => some { s with suppressions }
  | .checkSuppression call now ok =>
    match s.calls[call]? with
    | some (delivery, .checkSuppression) =>
      if ok ∧ Suppressed s.suppressions delivery.url now then
        some (s.setPhase call delivery (.done .suppressed))
      else some (s.setPhase call delivery .checkEndpoint)
    | _ => none
  | .checkEndpoint call now clock ok =>
    match s.calls[call]? with
    | some (delivery, .checkEndpoint) =>
      -- a delivery whose endpoint cannot be checked is sent
      let (s, passes) := if ok then s.checkEndpoint delivery.url now clock else (s, true)
      some (s.setPhase call delivery (if passes then .post 1 else .enqueueRetry))
    | _ => none
  | .enqueueRetry call ok =>
    match s.calls[call]? with
    | some (delivery, .enqueueRetry) =>
      some { s.setPhase call delivery (.done (.deferred ok)) with
        retryQueue := if ok then delivery.retryRow digest :: s.retryQueue else s.retryQueue }
    | _ => none
  | .post call reply =>
    match s.calls[call]? with
    | some (delivery, .post attempt) =>
      match reply with
      | .ok _ =>
        some { s.setPhase call delivery .recordSuccess with
          replies := Function.update s.replies call (s.replies call ++ [true]) }
      | .error error =>
        let phase := if attempt < max maxAttempts 1 then .post (attempt + 1)
          else .recordFailure error
        some { s.setPhase call delivery phase with
          replies := Function.update s.replies call (s.replies call ++ [false]) }
    | _ => none
  | .recordSuccess call ok =>
    match s.calls[call]? with
    | some (delivery, .recordSuccess) =>
      let s := if ok then s.recordSuccess delivery.url else s
      some (s.setPhase call delivery .acknowledge)
    | _ => none
  | .acknowledge call ok =>
    match s.calls[call]? with
    | some (delivery, .acknowledge) =>
      some { s.setPhase call delivery (.done (.acknowledged ok)) with
        acknowledgments :=
          if ok then delivery.acknowledgment :: s.acknowledgments else s.acknowledgments }
    | _ => none
  | .recordFailure call now ok =>
    match s.calls[call]? with
    | some (delivery, .recordFailure error) =>
      let s := if ok then s.recordFailure delivery.url now else s
      some (s.setPhase call delivery (.insertFailure error))
    | _ => none
  | .insertFailure call ok =>
    match s.calls[call]? with
    | some (delivery, .insertFailure error) =>
      some { s.setPhase call delivery (.enqueueDlq error ok) with
        failures := if ok then delivery.failure maxAttempts error :: s.failures else s.failures }
    | _ => none
  | .enqueueDlq call ok =>
    match s.calls[call]? with
    | some (delivery, .enqueueDlq error inserted) =>
      let dlq := (enqueueDlq s.dlq call none delivery.event error).getD s.dlq
      some { s.setPhase call delivery (.done (.failed error inserted)) with
        dlq := if ok then dlq else s.dlq }
    | _ => none

/-! ### What becomes of the deliveries -/

/-- The row that a delivery has written into the retry queue. -/
def wroteRetry : Delivery × Phase → Option RetryRow
  | (delivery, .done (.deferred true)) => some (delivery.retryRow digest)
  | _ => none

def wroteAcknowledgment : Delivery × Phase → Option Acknowledgment
  | (delivery, .done (.acknowledged true)) => some delivery.acknowledgment
  | _ => none

def wroteFailure : Delivery × Phase → Option WebhookFailure
  | (delivery, .enqueueDlq error true) | (delivery, .done (.failed error true)) =>
    some (delivery.failure maxAttempts error)
  | _ => none

/-- The replies that a delivery has had: failures up to a success, or up to the last attempt. -/
def Phase.Replied (maxAttempts : ℕ) (replies : List Bool) : Phase → Prop
  | .checkSuppression | .checkEndpoint | .enqueueRetry
  | .done .suppressed | .done (.deferred _) => replies = []
  | .post attempt =>
    0 < attempt ∧ attempt ≤ max maxAttempts 1 ∧ replies = List.replicate (attempt - 1) false
  | .recordSuccess | .acknowledge | .done (.acknowledged _) =>
    ∃ failures < max maxAttempts 1, replies = List.replicate failures false ++ [true]
  | .recordFailure _ | .insertFailure _ | .enqueueDlq _ _ | .done (.failed _ _) =>
    replies = List.replicate (max maxAttempts 1) false

/-- Every row is that of one delivery which ended so, and every delivery has its row and its
    replies. -/
structure Conserved (s : Dispatch) : Prop where
  retryQueue : s.retryQueue.Perm (s.calls.filterMap (wroteRetry digest))
  acknowledgments : s.acknowledgments.Perm (s.calls.filterMap wroteAcknowledgment)
  failures : s.failures.Perm (s.calls.filterMap (wroteFailure maxAttempts))
  /-- Without a subscription nothing gets into the dead-letter queue. -/
  dlq : s.dlq = []
  replies : ∀ (call : ℕ) (delivery : Delivery) (phase : Phase),
    s.calls[call]? = some (delivery, phase) → phase.Replied maxAttempts (s.replies call)
  unborn : ∀ call, s.calls.length ≤ call → s.replies call = []

section
variable {digest maxAttempts} {s t : Dispatch} {call : ℕ} {delivery : Delivery}
  {phase phase' : Phase} {action : DispatchAction}

/-- One element changed. -/
theorem perm_filterMap_set {α β : Type*} (f : α → Option β) {l : List α} {i : ℕ} {old : α} (new : α)
    (h : l[i]? = some old) :
    ((f old).toList ++ (l.set i new).filterMap f).Perm ((f new).toList ++ l.filterMap f) := by
  have hperm := (List.getD_set_perm_cons l i new).filterMap f
  rw [h, Option.getD_some, List.filterMap_cons, List.filterMap_cons] at hperm
  cases hold : f old <;> cases hnew : f new <;> simpa [hold, hnew] using hperm

/-- A new delivery. -/
theorem perm_append_none {α β : Type*} {f : α → Option β} {l : List α} {a : α} {rows : List β}
    (hrows : rows.Perm (l.filterMap f)) (h : f a = none) : rows.Perm ((l ++ [a]).filterMap f) := by
  simpa [h] using hrows

/-- A delivery that writes nothing. -/
theorem perm_setPhase {β : Type*} {f : Delivery × Phase → Option β} {rows : List β}
    (hrows : rows.Perm (s.calls.filterMap f)) (hcall : s.calls[call]? = some (delivery, phase))
    (hsame : f (delivery, phase') = f (delivery, phase)) :
    rows.Perm ((s.setPhase call delivery phase').calls.filterMap f) := by
  have hset := perm_filterMap_set f (delivery, phase') hcall
  rw [hsame, List.perm_append_left_iff] at hset
  exact hrows.trans hset.symm

/-- A delivery that writes a row. -/
theorem perm_cons_setPhase {β : Type*} {f : Delivery × Phase → Option β} {rows : List β} {row : β}
    (hrows : rows.Perm (s.calls.filterMap f)) (hcall : s.calls[call]? = some (delivery, phase))
    (hold : f (delivery, phase) = none) (hnew : f (delivery, phase') = some row) :
    (row :: rows).Perm ((s.setPhase call delivery phase').calls.filterMap f) := by
  have hset := perm_filterMap_set f (delivery, phase') hcall
  rw [hold, hnew] at hset
  exact (hrows.cons row).trans hset.symm

variable (phase') in
/-- The replies after one delivery has moved on. -/
theorem replied_set (h : Conserved digest maxAttempts s)
    (hcall : s.calls[call]? = some (delivery, phase)) {replies : ℕ → List Bool}
    (hother : ∀ other, other ≠ call → replies other = s.replies other)
    (hnew : phase'.Replied maxAttempts (replies call)) :
    (∀ (other : ℕ) (delivery' : Delivery) (phase'' : Phase),
      (s.setPhase call delivery phase').calls[other]? = some (delivery', phase'') →
        phase''.Replied maxAttempts (replies other)) ∧
      ∀ other, (s.setPhase call delivery phase').calls.length ≤ other → replies other = [] := by
  have hlt := (List.getElem?_eq_some_iff.mp hcall).1
  constructor
  · intro other delivery' phase'' hget
    rw [Dispatch.setPhase, List.getElem?_set] at hget
    split at hget
    · next heq =>
      subst heq
      cases hget
      exact hnew
    · next hne =>
      rw [hother other (Ne.symm hne)]
      exact h.replies other delivery' phase'' hget
  · intro other hle
    rw [Dispatch.setPhase, List.length_set] at hle
    rw [hother other (by omega)]
    exact h.unborn other hle

variable (phase') in
/-- A delivery that moves on and writes nothing. -/
theorem Conserved.setPhase (h : Conserved digest maxAttempts s)
    (hcall : s.calls[call]? = some (delivery, phase))
    (hretry : wroteRetry digest (delivery, phase') = wroteRetry digest (delivery, phase))
    (hack : wroteAcknowledgment (delivery, phase') = wroteAcknowledgment (delivery, phase))
    (hfailure : wroteFailure maxAttempts (delivery, phase') =
      wroteFailure maxAttempts (delivery, phase))
    (hreplied : phase'.Replied maxAttempts (s.replies call)) :
    Conserved digest maxAttempts (s.setPhase call delivery phase') := by
  obtain ⟨hreplies, hunborn⟩ := replied_set phase' h hcall (fun _ _ => rfl) hreplied
  exact ⟨perm_setPhase h.retryQueue hcall hretry, perm_setPhase h.acknowledgments hcall hack,
    perm_setPhase h.failures hcall hfailure, h.dlq, hreplies, hunborn⟩

theorem Conserved.checkEndpoint (h : Conserved digest maxAttempts s) (url : String)
    (now clock : ℤ) :
    Conserved digest maxAttempts (s.checkEndpoint url now clock).1 ∧
      (s.checkEndpoint url now clock).1.calls = s.calls ∧
        (s.checkEndpoint url now clock).1.replies = s.replies := by
  unfold Dispatch.checkEndpoint
  dsimp only
  split <;>
    exact ⟨⟨h.retryQueue, h.acknowledgments, h.failures, h.dlq, h.replies, h.unborn⟩, rfl, rfl⟩

theorem Conserved.recordSuccess (h : Conserved digest maxAttempts s) (url : String) :
    Conserved digest maxAttempts (s.recordSuccess url) ∧
      (s.recordSuccess url).calls = s.calls ∧ (s.recordSuccess url).replies = s.replies := by
  unfold Dispatch.recordSuccess
  split
  · exact ⟨h, rfl, rfl⟩
  · exact ⟨⟨h.retryQueue, h.acknowledgments, h.failures, h.dlq, h.replies, h.unborn⟩, rfl, rfl⟩

theorem Conserved.recordFailure (h : Conserved digest maxAttempts s) (url : String)
    (now : ℤ) :
    Conserved digest maxAttempts (s.recordFailure url now) ∧
      (s.recordFailure url now).calls = s.calls ∧
        (s.recordFailure url now).replies = s.replies := by
  unfold Dispatch.recordFailure
  split
  · exact ⟨h, rfl, rfl⟩
  · exact ⟨⟨h.retryQueue, h.acknowledgments, h.failures, h.dlq, h.replies, h.unborn⟩, rfl, rfl⟩

theorem Conserved.step (h : Conserved digest maxAttempts s)
    (hstep : s.step digest maxAttempts action = some t) : Conserved digest maxAttempts t := by
  cases action with
  | deliver delivery =>
    cases hstep
    refine ⟨?_, ?_, ?_, h.dlq, ?_, ?_⟩  -- the new call has no outcome yet, and no reply
    · exact perm_append_none h.retryQueue rfl
    · exact perm_append_none h.acknowledgments rfl
    · exact perm_append_none h.failures rfl
    · intro call delivery' phase hget
      rcases lt_or_ge call s.calls.length with hlt | hge
      · rw [List.getElem?_append_left hlt] at hget
        exact h.replies call delivery' phase hget
      · rw [List.getElem?_append_right hge, List.getElem?_singleton] at hget
        split at hget <;> cases hget
        exact h.unborn call hge
    · intro call hle
      rw [List.length_append, List.length_singleton] at hle
      exact h.unborn call (by omega)
  | setSuppressions suppressions =>
    cases hstep
    exact ⟨h.retryQueue, h.acknowledgments, h.failures, h.dlq, h.replies, h.unborn⟩
  | checkSuppression call now ok =>
    rw [Dispatch.step] at hstep
    split at hstep
    · next delivery hcall =>
      have hnone := h.replies _ _ _ hcall
      split at hstep <;> cases hstep <;> exact h.setPhase _ hcall rfl rfl rfl hnone
    · cases hstep
  | checkEndpoint call now clock ok =>
    rw [Dispatch.step] at hstep
    split at hstep
    · next delivery hcall =>
      have hnone : s.replies call = [] := h.replies _ _ _ hcall
      -- no request before the check, so the first one is within max_attempts
      have hfirst : (Phase.post 1).Replied maxAttempts (s.replies call) :=
        ⟨Nat.one_pos, Nat.le_max_right _ _, hnone⟩
      cases hstep
      cases ok with
      | false => exact h.setPhase _ hcall rfl rfl rfl hfirst
      | true =>  -- the check writes the endpoint's row only
        obtain ⟨hsame, hcalls, hreplies⟩ := h.checkEndpoint delivery.url now clock
        have hcall' := hcall
        rw [← hcalls] at hcall'
        change Conserved _ _ ((s.checkEndpoint delivery.url now clock).1.setPhase call delivery
          (if (s.checkEndpoint delivery.url now clock).2 then .post 1 else .enqueueRetry))
        rw [← hreplies] at hnone hfirst
        cases (s.checkEndpoint delivery.url now clock).2 with
        | false => exact hsame.setPhase .enqueueRetry hcall' rfl rfl rfl hnone
        | true => exact hsame.setPhase (.post 1) hcall' rfl rfl rfl hfirst
    · cases hstep
  | enqueueRetry call ok =>
    rw [Dispatch.step] at hstep
    split at hstep
    · next delivery hcall =>
      have hnone := h.replies _ _ _ hcall
      cases hstep
      cases ok with
      | false => exact h.setPhase _ hcall rfl rfl rfl hnone
      | true =>  -- the inserted row is the call's own, and the call ends with it
        obtain ⟨hreplies, hunborn⟩ := replied_set (.done (.deferred true)) h hcall
          (fun _ _ => rfl) hnone
        exact ⟨perm_cons_setPhase h.retryQueue hcall rfl rfl,
          perm_setPhase h.acknowledgments hcall rfl, perm_setPhase h.failures hcall rfl, h.dlq,
          hreplies, hunborn⟩
    · cases hstep
  | post call reply =>
    rw [Dispatch.step] at hstep
    split at hstep
    · next delivery attempt hcall =>
      obtain ⟨hpos, hle, hreplied⟩ := h.replies _ _ _ hcall
      have hother : ∀ reply other, other ≠ call →
          Function.update s.replies call (s.replies call ++ [reply]) other = s.replies other :=
        fun reply other hne => Function.update_of_ne hne _ _
      split at hstep <;> cases hstep
      · -- accepted: the failures before it and one success
        obtain ⟨hreplies, hunborn⟩ := replied_set .recordSuccess h hcall
          (hother true) (by
            rw [Function.update_self, hreplied]
            exact ⟨attempt - 1, by omega, rfl⟩)
        exact ⟨perm_setPhase h.retryQueue hcall rfl, perm_setPhase h.acknowledgments hcall rfl,
          perm_setPhase h.failures hcall rfl, h.dlq, hreplies, hunborn⟩
      · next error =>  -- refused: as many failures as attempts
        have hmore : s.replies call ++ [false] = List.replicate attempt false := by
          rw [hreplied, ← List.replicate_succ', Nat.sub_add_cancel hpos]
        split
        · -- attempts are left
          next hlt =>
          obtain ⟨hreplies, hunborn⟩ := replied_set (.post (attempt + 1)) h hcall
            (hother false) (by
              rw [Function.update_self, hmore]
              exact ⟨Nat.succ_pos _, hlt, rfl⟩)
          exact ⟨perm_setPhase h.retryQueue hcall rfl, perm_setPhase h.acknowledgments hcall rfl,
            perm_setPhase h.failures hcall rfl, h.dlq, hreplies, hunborn⟩
        · next hlast =>  -- that was the last one, so all max(max_attempts, 1) have failed
          obtain ⟨hreplies, hunborn⟩ := replied_set (.recordFailure error) h hcall
            (hother false) (by
              rw [Function.update_self, hmore, Nat.le_antisymm hle (Nat.not_lt.mp hlast)]
              rfl)
          exact ⟨perm_setPhase h.retryQueue hcall rfl, perm_setPhase h.acknowledgments hcall rfl,
            perm_setPhase h.failures hcall rfl, h.dlq, hreplies, hunborn⟩
    · cases hstep
  | recordSuccess call ok =>
    rw [Dispatch.step] at hstep
    split at hstep
    · next delivery hcall =>
      have hreplied := h.replies _ _ _ hcall
      cases hstep
      cases ok with
      | false => exact h.setPhase _ hcall rfl rfl rfl hreplied
      | true =>
        obtain ⟨hsame, hcalls, hreplies⟩ := h.recordSuccess delivery.url
        rw [← hcalls] at hcall
        exact hsame.setPhase _ hcall rfl rfl rfl (hreplies ▸ hreplied)
    · cases hstep
  | acknowledge call ok =>
    rw [Dispatch.step] at hstep
    split at hstep
    · next delivery hcall =>
      have hreplied := h.replies _ _ _ hcall
      cases hstep
      cases ok with
      | false => exact h.setPhase _ hcall rfl rfl rfl hreplied
      | true =>
        obtain ⟨hreplies, hunborn⟩ := replied_set (.done (.acknowledged true)) h hcall
          (fun _ _ => rfl) hreplied
        exact ⟨perm_setPhase h.retryQueue hcall rfl,
          perm_cons_setPhase h.acknowledgments hcall rfl rfl, perm_setPhase h.failures hcall rfl,
          h.dlq, hreplies, hunborn⟩
    · cases hstep
  | recordFailure call now ok =>
    rw [Dispatch.step] at hstep
    split at hstep
    · next delivery error hcall =>
      have hreplied := h.replies _ _ _ hcall
      cases hstep
      cases ok with
      | false => exact h.setPhase _ hcall rfl rfl rfl hreplied
      | true =>
        obtain ⟨hsame, hcalls, hreplies⟩ := h.recordFailure delivery.url now
        rw [← hcalls] at hcall
        exact hsame.setPhase _ hcall rfl rfl rfl (hreplies ▸ hreplied)
    · cases hstep
  | insertFailure call ok =>
    rw [Dispatch.step] at hstep
    split at hstep
    · next delivery error hcall =>
      have hreplied := h.replies _ _ _ hcall
      cases hstep
      cases ok with
      | false => exact h.setPhase _ hcall rfl rfl rfl hreplied
      | true =>
        obtain ⟨hreplies, hunborn⟩ := replied_set (.enqueueDlq error true) h hcall
          (fun _ _ => rfl) hreplied
        exact ⟨perm_setPhase h.retryQueue hcall rfl, perm_setPhase h.acknowledgments hcall rfl,
          perm_cons_setPhase h.failures hcall rfl rfl, h.dlq, hreplies, hunborn⟩
    · cases hstep
  | enqueueDlq call ok =>
    rw [Dispatch.step] at hstep
    split at hstep
    · next delivery error inserted hcall =>
      have hreplied := h.replies _ _ _ hcall
      cases hstep
      -- the insert without a subscription has added nothing
      have hdlq : (if ok then s.dlq else s.dlq) = [] := by simp [h.dlq]
      have hmoved := h.setPhase (.done (.failed error inserted)) hcall rfl rfl
        (by cases inserted <;> rfl) hreplied
      exact ⟨hmoved.retryQueue, hmoved.acknowledgments, hmoved.failures, hdlq, hmoved.replies,
        hmoved.unborn⟩
    · cases hstep

end

/-! ### What an endpoint lets through -/

/-- The limits that operators have set, each with the time of its row. -/
def Dispatch.start (limits : String → Option (ℕ × ℤ)) : Dispatch where
  endpoints url := (limits url).map fun (perMinuteLimit, windowStart) =>
    { perMinuteLimit, windowStart, windowCount := 0 }

/-- Per minute; 60 where no operator has set it. -/
def limitOf (limits : String → Option (ℕ × ℤ)) (url : String) : ℕ :=
  ((limits url).map (·.1)).getD 60

def healthOf (failures : ℕ) : HealthStatus :=
  if failures = 0 then .healthy else if 3 ≤ failures then .unhealthy else .degraded

/-- The row of an endpoint tells the failures since its last success. -/
structure Endpoint.Tells (failures : List ℤ) (endpoint : Endpoint) : Prop where
  consecutiveFailures : endpoint.consecutiveFailures = failures.length
  healthStatus : endpoint.healthStatus = healthOf failures.length
  backoffUntil : endpoint.backoffUntil = failures.head?.map (· + backoff failures.length)

def Dispatch.passesIn (s : Dispatch) (url : String) (windowStart : ℤ) : ℕ :=
  s.passes.countP fun pass => pass.url = url ∧ pass.windowStart = windowStart

/-- Two windows are the same, or start more than a minute apart. -/
def Apart (a b : ℤ) : Prop := a = b ∨ a + MINUTE < b ∨ b + MINUTE < a

variable (limits : String → Option (ℕ × ℤ))

/-- What the checks of the endpoints keep to. -/
structure Gated (s : Dispatch) : Prop where
  tells : ∀ url, ∀ endpoint ∈ s.endpoints url, endpoint.Tells (s.failedAt url)
  window : ∀ url windowStart, s.passesIn url windowStart ≤ limitOf limits url
  apart : ∀ p ∈ s.passes, ∀ q ∈ s.passes, p.url = q.url → Apart p.windowStart q.windowStart
  within : ∀ p ∈ s.passes, p.now ≤ p.windowStart + MINUTE
  /-- Nothing is sent before the time that the last failure has set. -/
  late : ∀ p ∈ s.passes, ∀ failed ∈ p.failures.head?,
    failed + backoff p.failures.length ≤ p.clock

/-- The state of the checks: `Gated`, and what the rows know of the windows. -/
structure GateInv (s : Dispatch) : Prop extends Gated limits s where
  limit : ∀ url, ((s.endpoints url).map (·.perMinuteLimit)).getD 60 = limitOf limits url
  current : ∀ url, ∀ endpoint ∈ s.endpoints url,
    s.passesIn url endpoint.windowStart ≤ min endpoint.windowCount endpoint.perMinuteLimit
  latest : ∀ p ∈ s.passes, ∃ endpoint ∈ s.endpoints p.url,
    p.windowStart = endpoint.windowStart ∨ p.windowStart + MINUTE < endpoint.windowStart
  untouched : ∀ url, s.endpoints url = none → s.failedAt url = []

section
variable {limits} {s t : Dispatch} {url : String} {now clock : ℤ}

theorem Endpoint.touch_spec (now : ℤ) (row : Option Endpoint) :
    (Endpoint.touch now row).perMinuteLimit = (row.map (·.perMinuteLimit)).getD 60 ∧
      now ≤ (Endpoint.touch now row).windowStart + MINUTE ∧
      (∀ failures, (∀ endpoint ∈ row, endpoint.Tells failures) → (row = none → failures = []) →
        (Endpoint.touch now row).Tells failures) ∧
      ∀ endpoint ∈ row,
        (Endpoint.touch now row = { endpoint with windowCount := endpoint.windowCount + 1 }) ∨
          endpoint.windowStart + MINUTE < now ∧
            Endpoint.touch now row = { endpoint with windowStart := now, windowCount := 1 } := by
  cases row with
  | none =>
    refine ⟨rfl, by simp [Endpoint.touch, MINUTE, SECOND], ?_, by simp⟩
    intro failures _ hnil
    rw [hnil rfl]
    exact ⟨rfl, rfl, rfl⟩
  | some endpoint =>
    rw [Endpoint.touch]
    split
    · next hold =>
      refine ⟨rfl, by simp [MINUTE, SECOND], ?_, ?_⟩
      · intro failures htells _
        obtain ⟨hcount, hhealth, hbackoff⟩ := htells endpoint rfl
        exact ⟨hcount, hhealth, hbackoff⟩
      · rintro _ ⟨⟩
        exact .inr ⟨by omega, rfl⟩
    · next hnew =>
      refine ⟨rfl, by dsimp only; omega, ?_, ?_⟩
      · intro failures htells _
        obtain ⟨hcount, hhealth, hbackoff⟩ := htells endpoint rfl
        exact ⟨hcount, hhealth, hbackoff⟩
      · rintro _ ⟨⟩
        exact .inl rfl

/-- Only an endpoint without a backoff, and within its limit, lets a delivery through. -/
theorem Endpoint.limited_eq_none {endpoint : Endpoint} (h : endpoint.limited clock = none) :
    (∀ backoffUntil ∈ endpoint.backoffUntil, backoffUntil ≤ clock) ∧
      endpoint.windowCount ≤ endpoint.perMinuteLimit := by
  have htooMany : Endpoint.limited.tooMany endpoint clock = none →
      endpoint.windowCount ≤ endpoint.perMinuteLimit := by
    intro hnone
    rw [Endpoint.limited.tooMany] at hnone
    split at hnone
    · cases hnone
    · omega
  rw [Endpoint.limited] at h
  split at h
  · next backoffUntil hbackoff =>
    split at h
    · cases h
    · next hlt =>
      refine ⟨?_, htooMany h⟩
      rw [hbackoff]
      rintro _ ⟨⟩
      exact not_lt.mp hlt
  · next hbackoff =>
    refine ⟨?_, htooMany h⟩
    rw [hbackoff]
    rintro _ ⟨⟩

/-- Where the endpoints and the passes are the same, nothing changes. -/
theorem GateInv.congr (h : GateInv limits s) (hendpoints : t.endpoints = s.endpoints)
    (hpasses : t.passes = s.passes) (hfailedAt : t.failedAt = s.failedAt) : GateInv limits t := by
  obtain ⟨⟨htells, hwindow, hapart, hwithin, hlate⟩, hlimit, hcurrent, hlatest, huntouched⟩ := h
  refine ⟨⟨?_, ?_, ?_, ?_, ?_⟩, ?_, ?_, ?_, ?_⟩
  all_goals simpa only [Dispatch.passesIn, hendpoints, hpasses, hfailedAt]

theorem passesIn_eq_zero {windowStart : ℤ}
    (h : ∀ p ∈ s.passes, p.url = url → p.windowStart ≠ windowStart) :
    s.passesIn url windowStart = 0 := by
  rw [Dispatch.passesIn, List.countP_eq_zero]
  intro p hp
  simpa using h p hp

/-- A row that knows the failures and the windows of its endpoint. -/
theorem GateInv.setRow (h : GateInv limits s) {endpoint : Endpoint} {failures : List ℤ}
    (hlimit : endpoint.perMinuteLimit = limitOf limits url) (htells : endpoint.Tells failures)
    (hcurrent : s.passesIn url endpoint.windowStart ≤
      min endpoint.windowCount endpoint.perMinuteLimit)
    (hlatest : ∀ p ∈ s.passes, p.url = url → p.windowStart = endpoint.windowStart ∨
      p.windowStart + MINUTE < endpoint.windowStart) :
    GateInv limits { s with
      endpoints := Function.update s.endpoints url (some endpoint)
      failedAt := Function.update s.failedAt url failures } := by
  refine ⟨⟨?_, h.window, h.apart, h.within, h.late⟩, ?_, ?_, ?_, ?_⟩
  · -- the row of this endpoint is the new one, any other is as it was
    intro other row hrow
    dsimp only at hrow ⊢
    rcases eq_or_ne other url with rfl | hne
    · rw [Function.update_self] at hrow ⊢
      cases hrow
      exact htells
    · rw [Function.update_of_ne hne] at hrow ⊢
      exact h.tells other row hrow
  · intro other
    dsimp only
    rcases eq_or_ne other url with rfl | hne
    · rw [Function.update_self]
      exact hlimit
    · rw [Function.update_of_ne hne]
      exact h.limit other
  · intro other row hrow
    dsimp only at hrow
    rcases eq_or_ne other url with rfl | hne
    · rw [Function.update_self] at hrow
      cases hrow
      exact hcurrent
    · rw [Function.update_of_ne hne] at hrow
      exact h.current other row hrow
  · intro p hp
    dsimp only
    rcases eq_or_ne p.url url with heq | hne
    · rw [heq, Function.update_self]
      exact ⟨endpoint, rfl, hlatest p hp heq⟩
    · rw [Function.update_of_ne hne]
      exact h.latest p hp
  · intro other hnone
    dsimp only at hnone ⊢
    rcases eq_or_ne other url with rfl | hne
    · rw [Function.update_self] at hnone
      cases hnone
    · rw [Function.update_of_ne hne] at hnone ⊢
      exact h.untouched other hnone

/-- The upsert leaves room for the delivery that it counts. -/
theorem GateInv.touch (h : GateInv limits s) (url : String) (now : ℤ) :
    GateInv limits { s with
      endpoints := Function.update s.endpoints url (some (Endpoint.touch now (s.endpoints url))) } ∧
      s.passesIn url (Endpoint.touch now (s.endpoints url)).windowStart + 1 ≤
        (Endpoint.touch now (s.endpoints url)).windowCount := by
  obtain ⟨hlimit, -, htells, hrow⟩ := Endpoint.touch_spec now (s.endpoints url)
  have htells := htells (s.failedAt url) (h.tells url) (h.untouched url)
  have hsame := h.setRow (hlimit.trans (h.limit url)) htells
  rw [Function.update_eq_self] at hsame
  cases hold : s.endpoints url with
  | none =>
    have hnone : ∀ p ∈ s.passes, p.url ≠ url := by
      intro p hp hurl
      obtain ⟨row, hmem, -⟩ := h.latest p hp
      rw [hurl, hold] at hmem
      cases hmem
    have hzero : ∀ windowStart, s.passesIn url windowStart = 0 := fun windowStart =>
      passesIn_eq_zero fun p hp hurl => absurd hurl (hnone p hp)
    rw [hold] at hsame
    refine ⟨hsame ?_ fun p hp hurl => absurd hurl (hnone p hp), ?_⟩
    · rw [hzero]
      exact Nat.zero_le _
    · rw [hzero]
      exact Nat.le_refl _
  | some old =>
    have hcurrent := h.current url old hold
    have hlatest : ∀ p ∈ s.passes, p.url = url →
        p.windowStart = old.windowStart ∨ p.windowStart + MINUTE < old.windowStart := by
      intro p hp hurl
      obtain ⟨row, hmem, hbefore⟩ := h.latest p hp
      rw [hurl, hold] at hmem
      cases hmem
      exact hbefore
    rw [hold] at hsame
    obtain hcounted | ⟨hlater, hnew⟩ := hrow old hold
    · rw [hold] at hcounted
      rw [hcounted] at hsame ⊢
      refine ⟨hsame ?_ hlatest, ?_⟩ <;> dsimp only <;> omega
    · have hpast : ∀ p ∈ s.passes, p.url = url → p.windowStart + MINUTE < now := by
        intro p hp hurl
        rw [MINUTE, SECOND] at *
        rcases hlatest p hp hurl with heq | hlt <;> omega
      have hzero : s.passesIn url now = 0 := passesIn_eq_zero fun p hp hurl => by
        have hlt := hpast p hp hurl
        rw [MINUTE, SECOND] at hlt
        omega
      rw [hold] at hnew
      rw [hnew] at hsame ⊢
      refine ⟨hsame ?_ fun p hp hurl => .inr (hpast p hp hurl), ?_⟩
      · rw [hzero]
        exact Nat.zero_le _
      · rw [hzero]

/-- A delivery that an endpoint lets through. -/
theorem GateInv.pass (h : GateInv limits s) {endpoint : Endpoint}
    (hrow : s.endpoints url = some endpoint) (hlimited : endpoint.limited clock = none)
    (hroom : s.passesIn url endpoint.windowStart + 1 ≤ endpoint.windowCount)
    (hnow : now ≤ endpoint.windowStart + MINUTE) :
    GateInv limits { s with
      passes := ⟨url, endpoint.windowStart, now, clock, s.failedAt url⟩ :: s.passes } := by
  obtain ⟨hbackoff, hcount⟩ := Endpoint.limited_eq_none hlimited
  have hlimit : endpoint.perMinuteLimit = limitOf limits url := by
    rw [← h.limit url, hrow, Option.map_some, Option.getD_some]
  have hpasses : ∀ url' windowStart, Dispatch.passesIn { s with
      passes := ⟨url, endpoint.windowStart, now, clock, s.failedAt url⟩ :: s.passes } url'
        windowStart =
      s.passesIn url' windowStart +
        if url = url' ∧ endpoint.windowStart = windowStart then 1 else 0 := by
    intro url' windowStart
    rw [Dispatch.passesIn, List.countP_cons, Dispatch.passesIn]
    simp
  -- windows on this endpoint start together or more than a minute apart
  have hapart : ∀ q ∈ s.passes, q.url = url → Apart q.windowStart endpoint.windowStart := by
    intro q hq hurl
    obtain ⟨row, hmem, hbefore⟩ := h.latest q hq
    rw [hurl, hrow] at hmem
    cases hmem
    exact hbefore.imp_right .inl
  refine ⟨⟨h.tells, ?_, ?_, ?_, ?_⟩, h.limit, ?_, ?_, h.untouched⟩
  · intro url' windowStart
    rw [hpasses]
    split
    · next hsame =>
      obtain ⟨rfl, rfl⟩ := hsame
      omega
    · exact h.window url' windowStart
  · intro p hp q hq hurl
    -- of two passes, one may be the new one
    rcases List.mem_cons.mp hp with rfl | hp <;> rcases List.mem_cons.mp hq with rfl | hq
    · exact .inl rfl
    · rcases hapart q hq hurl.symm with heq | hlt | hlt
      · exact .inl heq.symm
      · exact .inr (.inr hlt)
      · exact .inr (.inl hlt)
    · exact hapart p hp hurl
    · exact h.apart p hp q hq hurl
  · intro p hp
    rcases List.mem_cons.mp hp with rfl | hp
    · exact hnow
    · exact h.within p hp
  · -- it passed, so the backoff of the recorded failure is over
    intro p hp failed hfailed
    rcases List.mem_cons.mp hp with rfl | hp
    · refine hbackoff _ ?_
      rw [(h.tells url endpoint hrow).backoffUntil, hfailed]
      rfl
    · exact h.late p hp failed hfailed
  · -- one more in this window, which had room for it
    intro url' row hmem
    rw [hpasses]
    split
    · next hsame =>
      obtain ⟨rfl, -⟩ := hsame
      cases Option.some.inj (hrow.symm.trans hmem)
      omega
    · exact h.current url' row hmem
  · intro p hp
    rcases List.mem_cons.mp hp with rfl | hp
    · exact ⟨endpoint, hrow, .inl rfl⟩
    · exact h.latest p hp

theorem tells_recordFailure {endpoint : Endpoint} {failures : List ℤ}
    (h : endpoint.Tells failures) (now : ℤ) :
    (endpoint.recordFailure now).Tells (now :: failures) := by
  refine ⟨congrArg (· + 1) h.consecutiveFailures, ?_, ?_⟩
  · simp only [Endpoint.recordFailure, healthOf, h.consecutiveFailures, List.length_cons,
      Nat.add_one_ne_zero, if_false]
  · simp only [Endpoint.recordFailure, h.consecutiveFailures, List.length_cons, List.head?_cons,
      Option.map_some]

theorem GateInv.recordSuccess (h : GateInv limits s) (url : String) :
    GateInv limits (s.recordSuccess url) := by
  rw [Dispatch.recordSuccess]
  split
  · exact h
  · next endpoint hrow =>
    have hlimit := h.limit url
    rw [hrow] at hlimit
    refine h.setRow hlimit ⟨rfl, rfl, rfl⟩ (h.current url endpoint hrow) ?_
    intro p hp hurl
    obtain ⟨row, hmem, hbefore⟩ := h.latest p hp
    rw [hurl, hrow] at hmem
    cases hmem
    exact hbefore

theorem GateInv.recordFailure (h : GateInv limits s) (url : String) (now : ℤ) :
    GateInv limits (s.recordFailure url now) := by
  rw [Dispatch.recordFailure]
  split
  · exact h
  · next endpoint hrow =>
    have hlimit := h.limit url
    rw [hrow] at hlimit
    refine h.setRow hlimit (tells_recordFailure (h.tells url endpoint hrow) now)
      (h.current url endpoint hrow) ?_
    intro p hp hurl
    obtain ⟨row, hmem, hbefore⟩ := h.latest p hp
    rw [hurl, hrow] at hmem
    cases hmem
    exact hbefore

theorem GateInv.checkEndpoint (h : GateInv limits s) (url : String) (now clock : ℤ) :
    GateInv limits (s.checkEndpoint url now clock).1 := by
  obtain ⟨htouched, hroom⟩ := h.touch url now
  rw [Dispatch.checkEndpoint]
  split
  · exact htouched
  · next hlimited =>
    exact htouched.pass (Function.update_self ..) hlimited hroom
      (Endpoint.touch_spec now (s.endpoints url)).2.1

variable {digest : String → String} {maxAttempts : ℕ} {action : DispatchAction}

theorem GateInv.step (h : GateInv limits s) (hstep : s.step digest maxAttempts action = some t) :
    GateInv limits t := by
  cases action with
  | deliver delivery =>
    cases hstep
    exact h.congr rfl rfl rfl
  | setSuppressions suppressions =>
    cases hstep
    exact h.congr rfl rfl rfl
  | checkSuppression call now ok =>
    rw [Dispatch.step] at hstep
    split at hstep
    · split at hstep <;> cases hstep <;> exact h.congr rfl rfl rfl
    · cases hstep
  | checkEndpoint call now clock ok =>
    rw [Dispatch.step] at hstep
    split at hstep
    · next delivery _ =>
      cases hstep
      cases ok with
      | false => exact h.congr rfl rfl rfl
      | true => exact (h.checkEndpoint delivery.url now clock).congr rfl rfl rfl
    · cases hstep
  | enqueueRetry call ok =>
    rw [Dispatch.step] at hstep
    split at hstep <;> cases hstep
    exact h.congr rfl rfl rfl
  | post call reply =>
    rw [Dispatch.step] at hstep
    split at hstep
    · split at hstep <;> cases hstep <;> exact h.congr rfl rfl rfl
    · cases hstep
  | recordSuccess call ok =>
    rw [Dispatch.step] at hstep
    split at hstep
    · next delivery _ =>
      cases hstep
      cases ok with
      | false => exact h.congr rfl rfl rfl
      | true => exact (h.recordSuccess delivery.url).congr rfl rfl rfl
    · cases hstep
  | acknowledge call ok =>
    rw [Dispatch.step] at hstep
    split at hstep <;> cases hstep
    exact h.congr rfl rfl rfl
  | recordFailure call now ok =>
    rw [Dispatch.step] at hstep
    split at hstep
    · next delivery _ _ =>
      cases hstep
      cases ok with
      | false => exact h.congr rfl rfl rfl
      | true => exact (h.recordFailure delivery.url now).congr rfl rfl rfl
    · cases hstep
  | insertFailure call ok =>
    rw [Dispatch.step] at hstep
    split at hstep <;> cases hstep
    exact h.congr rfl rfl rfl
  | enqueueDlq call ok =>
    rw [Dispatch.step] at hstep
    split at hstep <;> cases hstep
    exact h.congr rfl rfl rfl

theorem gateInv_start (limits : String → Option (ℕ × ℤ)) : GateInv limits (.start limits) := by
  refine ⟨⟨?_, ?_, ?_, ?_, ?_⟩, ?_, ?_, ?_, ?_⟩
  · intro url endpoint hrow
    obtain ⟨row, -, rfl⟩ := Option.map_eq_some_iff.mp hrow
    exact ⟨rfl, rfl, rfl⟩
  · exact fun _ _ => Nat.zero_le _
  · rintro _ ⟨⟩
  · rintro _ ⟨⟩
  · rintro _ ⟨⟩
  · intro url
    rw [Dispatch.start, Option.map_map]
    rfl
  · exact fun _ _ _ => Nat.zero_le _
  · rintro _ ⟨⟩
  · exact fun _ _ => rfl

theorem conserved_start (limits : String → Option (ℕ × ℤ)) :
    Conserved digest maxAttempts (.start limits) := by
  refine ⟨.nil, .nil, .nil, rfl, ?_, fun _ _ => rfl⟩
  rintro _ _ _ ⟨⟩

end

section
variable {digest : String → String} {maxAttempts : ℕ} {limits : String → Option (ℕ × ℤ)}
  {actions : List DispatchAction} {s : Dispatch}

/-- However the deliveries interleave, and whichever statements fail: the rows of the retry queue,
    the acknowledgments and the failures are those of the deliveries that ended so, one each. -/
theorem Dispatch.conserved
    (hrun : AnyRun (Dispatch.step digest maxAttempts) (.start limits) actions s) :
    Conserved digest maxAttempts s :=
  hrun.invariant (fun _ hstep h => h.step hstep) (conserved_start limits)

/-- However the deliveries interleave: an endpoint lets through no more than its limit in a window,
    nothing before the time that its last failure has set, and, where the clock of the database does
    not run back behind the start of a window, no more than twice its limit in any minute. -/
theorem Dispatch.gated
    (hrun : AnyRun (Dispatch.step digest maxAttempts) (.start limits) actions s) :
    Gated limits s ∧
      ∀ url, (∀ p ∈ s.passes, p.url = url → p.windowStart ≤ p.now) → ∀ start : ℤ,
        s.passes.countP (fun p => p.url = url ∧ start ≤ p.now ∧ p.now ≤ start + MINUTE) ≤
          2 * limitOf limits url := by
  have hinv := hrun.invariant (fun _ hstep h => h.step hstep) (gateInv_start limits)
  refine ⟨hinv.toGated, ?_⟩
  intro url hclock start
  have hburst : (s.passes.filter (·.url = url)).countP
      (fun p => start ≤ p.now ∧ p.now ≤ start + MINUTE) ≤ 2 * limitOf limits url := by
    refine FixedWindows.countP_le_two_mul Pass.windowStart Pass.now ?_ ?_ ?_ start
    · intro p hp
      obtain ⟨hp, hurl⟩ := List.mem_filter.mp hp
      exact ⟨hclock p hp (by simpa using hurl), hinv.within p hp⟩
    · intro p hp q hq
      obtain ⟨hp, hpurl⟩ := List.mem_filter.mp hp
      obtain ⟨hq, hqurl⟩ := List.mem_filter.mp hq
      simp only [decide_eq_true_eq] at hpurl hqurl
      exact hinv.apart p hp q hq (hpurl.trans hqurl.symm)
    · intro windowStart
      have hwindow := hinv.window url windowStart
      rw [List.countP_filter]
      simpa [Dispatch.passesIn, and_comm] using hwindow
  rw [List.countP_filter] at hburst
  refine le_of_eq_of_le (List.countP_congr fun p _ => ?_) hburst
  simp only [Bool.decide_and, Bool.and_eq_true, decide_eq_true_eq]
  tauto

end

/-! ### Two deliveries side by side -/

def sampleDelivery (priority : String) : Delivery where
  url := "https://example.com/hook"
  secret := none
  event := transferEvent
  priority := priority

/-- With a limit of one, the second delivery of the minute is put off; the first one is refused
    twice. -/
def twoDeliveries : List DispatchAction :=
  [.deliver (sampleDelivery "high"), .deliver (sampleDelivery "low"), .checkSuppression 0 0 true,
    .checkSuppression 1 0 true, .checkEndpoint 0 5 5 true, .checkEndpoint 1 6 6 true,
    .post 0 (.error "HTTP 503"), .enqueueRetry 1 true, .post 0 (.error "HTTP 500"),
    .recordFailure 0 9 true, .insertFailure 0 true, .enqueueDlq 0 true]

def oneAMinute (url : String) : Option (ℕ × ℤ) :=
  if url = "https://example.com/hook" then some (1, 0) else none

def afterTwo : Dispatch :=
  (exec (Dispatch.step id 2) (.start oneAMinute) twoDeliveries).get (by decide)

theorem run_twoDeliveries :
    AnyRun (Dispatch.step id 2) (.start oneAMinute) twoDeliveries afterTwo :=
  anyRun_iff_exec.mpr (Option.some_get _).symm

theorem conserved_afterTwo : Conserved id 2 afterTwo :=
  Dispatch.conserved run_twoDeliveries

theorem gated_afterTwo :
    Gated oneAMinute afterTwo ∧
      ∀ url, (∀ p ∈ afterTwo.passes, p.url = url → p.windowStart ≤ p.now) → ∀ start : ℤ,
        afterTwo.passes.countP (fun p => p.url = url ∧ start ≤ p.now ∧ p.now ≤ start + MINUTE) ≤
          2 * limitOf oneAMinute url :=
  Dispatch.gated run_twoDeliveries

end SorobanPulse.Webhook
