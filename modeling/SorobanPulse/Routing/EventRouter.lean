import Mathlib.Data.List.AList
import SorobanPulse.Ingest.SorobanEvent
import SorobanPulse.Lib.Pages

/-! The router in front of the streaming platforms.

        events ──rules──▶ destination d ──▶ batch 0, batch 1, …
                                             │ limiter refuses ─────────────▶ throttled
                                             │ a publish_batch succeeds ────▶ delivered
                                             │ none does, parked ───────────▶ dead-lettered
                                             └ none does, not parked ───────▶ retrying

    The sinks, the dead-letter sink and the clock answer as they please. Floating point is a
    parameter. -/

namespace SorobanPulse.Routing
open Ingest Lib

/-! ### Rules -/

inductive RouteMatcher where
  | all
  | contractId (ids : List String)
  | eventType (types : List String)
  | minLedger (min : UInt32)
  | allOf (inner : List RouteMatcher)
  | any (inner : List RouteMatcher)

mutual
def RouteMatcher.matches (event : SorobanEvent) : RouteMatcher → Bool
  | .all => true
  | .contractId ids => ids.contains event.contractId
  | .eventType types => types.contains event.eventType
  | .minLedger min => decide (min.toNat ≤ event.ledger.toNat)
  | .allOf inner => allMatch event inner
  | .any inner => anyMatches event inner

def allMatch (event : SorobanEvent) : List RouteMatcher → Bool
  | [] => true
  | m :: rest => m.matches event && allMatch event rest

def anyMatches (event : SorobanEvent) : List RouteMatcher → Bool
  | [] => false
  | m :: rest => m.matches event || anyMatches event rest
end

structure RoutingRule where
  destination : String
  matcher : RouteMatcher
  enabled : Bool := true

/-- The destinations that the enabled rules select, each once. -/
def resolveDestinations (rules : List RoutingRule) (event : SorobanEvent) : List String :=
  (rules.filter (·.enabled)).foldl (fun seen rule =>
    if rule.matcher.matches event && !seen.contains rule.destination then seen ++ [rule.destination]
    else seen) []

/-- A `HashMap` of events by destination. -/
abbrev Grouped := AList fun _ : String => List SorobanEvent

/-- `grouped.entry(destination).or_default().push(event)` -/
def pushTo (event : SorobanEvent) (grouped : Grouped) (destination : String) : Grouped :=
  grouped.insert destination ((grouped.lookup destination).getD [] ++ [event])

def partitionByDestination (rules : List RoutingRule) (events : List SorobanEvent) : Grouped :=
  events.foldl (fun grouped event => (resolveDestinations rules event).foldl (pushTo event) grouped) ∅

/-! ### The rate limiter -/

/-- The operations on `f64` that the limiter uses. -/
structure FloatOps (F : Type) where
  add : F → F → F
  sub : F → F → F
  mul : F → F → F
  min : F → F → F
  le : F → F → Bool
  ofNat : ℕ → F

structure RateLimiter (F : Type) where
  capacity : F
  tokens : F
  refillPerSec : F

/-- Take `n` tokens, `elapsed` seconds after the last call. -/
def RateLimiter.tryAcquire {F : Type} (ops : FloatOps F) (limiter : RateLimiter F) (elapsed n : F) :
    Bool × RateLimiter F :=
  let refilled := ops.add limiter.tokens (ops.mul elapsed limiter.refillPerSec)
  let tokens := ops.min refilled limiter.capacity
  if ops.le n tokens then (true, { limiter with tokens := ops.sub tokens n })
  else (false, { limiter with tokens })

/-! ### Delivery -/

structure DeliveryBatch where
  events : List SorobanEvent
  idempotencyKeys : List String

/-- `format!("{}:{}:{}", tx_hash, contract_id, ledger)` -/
def idempotencyKey (event : SorobanEvent) : String :=
  event.txHash ++ ":" ++ event.contractId ++ ":" ++ toString event.ledger.toNat

inductive DeliveryStatus where
  | delivered
  | retrying
  | deadLettered
  | throttled
  deriving DecidableEq, Repr

structure RouterConfig where
  maxBatchSize : ℕ
  maxRetries : UInt32
  retryBackoffBaseMs : UInt64

/-- Split events into batches no larger than the configured maximum. -/
def RouterConfig.batch (config : RouterConfig) (events : List SorobanEvent) : List DeliveryBatch :=
  (chunks (max config.maxBatchSize 1) events).map fun chunk =>
    { events := chunk, idempotencyKeys := chunk.map idempotencyKey }

/-- What `publish_batch` answers, and which of the batch's events it came to. -/
structure Answer where
  result : Except String Unit
  reached : ℕ → Bool

/-- What the delivery of one batch meets: the clock, the sink's answers, the dead-letter sink. -/
structure Conditions (F : Type) where
  elapsed : F
  answer : ℕ → Answer
  park : Except String Unit

/-- What the retry loop leaves. -/
structure Attempts where
  published : Bool
  lastError : String
  /-- How many times `publish_batch` was called. -/
  made : ℕ := 0
  /-- The attempts after which a backoff was computed. -/
  backoffs : List ℕ := []

/-- The loop from `attempt` on, with so many attempts to go. -/
def attemptsFrom (maxRetries : ℕ) (answer : ℕ → Answer) : ℕ → ℕ → String → Attempts
  | 0, _, lastError => { published := false, lastError }
  | n + 1, attempt, lastError =>
    match (answer attempt).result with
    | .ok () => { published := true, lastError, made := 1 }
    | .error e =>
      let rest := attemptsFrom maxRetries answer n (attempt + 1) e
      { rest with
        made := rest.made + 1
        backoffs := if attempt < maxRetries then attempt :: rest.backoffs else rest.backoffs }

/-- `retry_backoff_base_ms * 2_u64.pow(attempt)` is in range. -/
def RouterConfig.BackoffFits (config : RouterConfig) (attempt : ℕ) : Prop :=
  2 ^ attempt < 2 ^ 64 ∧ config.retryBackoffBaseMs.toNat * 2 ^ attempt < 2 ^ 64

structure EventRouter (F : Type) where
  ops : FloatOps F
  /-- The limiters of the registered destinations. -/
  destinations : String → Option (RateLimiter F)
  rules : List RoutingRule
  /-- Whether there is a dead-letter sink. -/
  deadLetter : Bool
  config : RouterConfig

/-- A batch and what became of it. -/
structure Delivery (F : Type) where
  batch : DeliveryBatch
  status : DeliveryStatus
  limiter : RateLimiter F
  made : ℕ := 0
  backoffs : List ℕ := []

section
variable {F : Type} (router : EventRouter F)

def EventRouter.deliver (limiter : RateLimiter F) (conditions : Conditions F)
    (batch : DeliveryBatch) : Delivery F :=
  let (admitted, limiter) :=
    limiter.tryAcquire router.ops conditions.elapsed (router.ops.ofNat batch.events.length)
  if !admitted then { batch, status := .throttled, limiter }
  else
    let maxRetries := router.config.maxRetries.toNat
    let attempts := attemptsFrom maxRetries conditions.answer (maxRetries + 1) 0 ""
    let status : DeliveryStatus :=
      if attempts.published then .delivered
      else if router.deadLetter then
        match conditions.park with
        | .ok () => .deadLettered
        | .error _ => .retrying
      else .retrying
    { batch, status, limiter, made := attempts.made, backoffs := attempts.backoffs }

/-- The batches of a destination in turn, from batch `k` on. -/
def EventRouter.deliverEach (conditions : ℕ → Conditions F) :
    ℕ → RateLimiter F → List DeliveryBatch → List (Delivery F)
  | _, _, [] => []
  | k, limiter, batch :: rest =>
    let delivery := router.deliver limiter (conditions k) batch
    delivery :: EventRouter.deliverEach conditions (k + 1) delivery.limiter rest

/-- The outcome of a destination: the status of its last batch that was not delivered. -/
def outcome (deliveries : List (Delivery F)) : DeliveryStatus :=
  deliveries.foldl (fun status delivery =>
    if delivery.status ≠ .delivered then delivery.status else status) .delivered

/-- `route`: the deliveries to each known destination. A rule's unknown destination is skipped. -/
def EventRouter.route (world : String → ℕ → Conditions F) (events : List SorobanEvent) :
    List (String × List (Delivery F)) :=
  (partitionByDestination router.rules events).entries.filterMap fun group =>
    (router.destinations group.1).map fun limiter =>
      (group.1, router.deliverEach (world group.1) 0 limiter (router.config.batch group.2))

/-- The map that `route` returns. -/
def EventRouter.outcomes (world : String → ℕ → Conditions F) (events : List SorobanEvent) :
    List (String × DeliveryStatus) :=
  (router.route world events).map fun (destination, deliveries) => (destination, outcome deliveries)

end

/-! ### What becomes of a batch -/

def Answer.ok (answer : Answer) : Bool :=
  match answer.result with
  | .ok () => true
  | .error _ => false

section
variable {F : Type} (router : EventRouter F) (conditions : Conditions F)

/-- One of the attempts succeeds. -/
def EventRouter.delivers : Bool :=
  (List.range (router.config.maxRetries.toNat + 1)).any fun i => (conditions.answer i).ok

/-- A batch that is not delivered would be parked. -/
def EventRouter.parks : Bool :=
  router.deadLetter && match conditions.park with
    | .ok () => true
    | .error _ => false

def EventRouter.admits (limiter : RateLimiter F) (batch : DeliveryBatch) : Bool :=
  (limiter.tryAcquire router.ops conditions.elapsed (router.ops.ofNat batch.events.length)).1

/-- The limiter as batch `k` meets it. -/
def EventRouter.limiterBefore (conditions : ℕ → Conditions F) (limiter : RateLimiter F) :
    List DeliveryBatch → ℕ → RateLimiter F
  | _, 0 => limiter
  | [], _ + 1 => limiter
  | batch :: rest, k + 1 =>
    EventRouter.limiterBefore (fun j => conditions (j + 1)) (limiter.tryAcquire router.ops
      (conditions 0).elapsed (router.ops.ofNat batch.events.length)).2 rest k

end

/-- The events that the rules select for a destination. -/
def selected (rules : List RoutingRule) (events : List SorobanEvent) (d : String) :
    List SorobanEvent :=
  events.filter fun event => decide (d ∈ resolveDestinations rules event)

/-! ### Attempts -/

section
variable {maxRetries : ℕ} {answer : ℕ → Answer}

theorem ok_eq_true {a : Answer} : a.ok = true ↔ a.result = .ok () := by
  rw [Answer.ok]
  cases a.result with
  | ok u => exact ⟨fun _ => rfl, fun _ => rfl⟩
  | error e => exact iff_of_false Bool.false_ne_true (fun h => by cases h)

theorem attempts_published : ∀ {n attempt : ℕ} {lastError : String},
    (attemptsFrom maxRetries answer n attempt lastError).published = true ↔
      ∃ i < n, (answer (attempt + i)).ok = true
  | 0, attempt, lastError => by simp [attemptsFrom]
  | n + 1, attempt, lastError => by
    rw [attemptsFrom]
    cases hresult : (answer attempt).result with
    | ok u => exact ⟨fun _ => ⟨0, Nat.succ_pos n, ok_eq_true.mpr hresult⟩, fun _ => rfl⟩
    | error e =>
      dsimp only
      rw [attempts_published]
      constructor
      · rintro ⟨i, hi, hok⟩
        exact ⟨i + 1, by omega, by rwa [← Nat.add_assoc, Nat.add_right_comm]⟩
      · rintro ⟨i, hi, hok⟩
        cases i with
        | zero =>
          rw [Nat.add_zero, ok_eq_true, hresult] at hok
          cases hok
        | succ i => exact ⟨i, by omega, by rwa [Nat.add_right_comm, Nat.add_assoc]⟩

/-- The attempt that succeeds is one of those made. -/
theorem exists_ok_of_published : ∀ {n attempt : ℕ} {lastError : String},
    (attemptsFrom maxRetries answer n attempt lastError).published = true →
      ∃ i < (attemptsFrom maxRetries answer n attempt lastError).made,
        (answer (attempt + i)).ok = true
  | 0, attempt, lastError, h => by
    rw [attemptsFrom] at h
    cases h
  | n + 1, attempt, lastError, h => by
    rw [attemptsFrom] at h ⊢
    cases hresult : (answer attempt).result with
    | ok u => exact ⟨0, Nat.zero_lt_one, ok_eq_true.mpr hresult⟩
    | error e =>
      rw [hresult] at h
      obtain ⟨i, hi, hok⟩ := exists_ok_of_published h
      exact ⟨i + 1, Nat.succ_lt_succ hi, by rwa [← Nat.add_assoc, Nat.add_right_comm]⟩

/-- A backoff is computed after each failure but the last. -/
theorem attempts_backoffs {a : ℕ} : ∀ {n attempt : ℕ} {lastError : String},
    a ∈ (attemptsFrom maxRetries answer n attempt lastError).backoffs ↔
      attempt ≤ a ∧ a < attempt + n ∧ a < maxRetries ∧
        ∀ i, attempt ≤ i → i ≤ a → (answer i).ok = false
  | 0, attempt, lastError => by
    rw [attemptsFrom]
    exact ⟨fun h => absurd h List.not_mem_nil, fun h => by omega⟩
  | n + 1, attempt, lastError => by
    rw [attemptsFrom]
    cases hresult : (answer attempt).result with  -- an answer ends the attempts
    | ok u =>
      refine ⟨fun h => absurd h List.not_mem_nil, fun h => ?_⟩
      have hfails := h.2.2.2 attempt (Nat.le_refl _) h.1
      rw [ok_eq_true.mpr hresult] at hfails
      cases hfails
    | error e =>
      have hfails : (answer attempt).ok = false := by
        rw [Answer.ok, hresult]
      -- the attempt at hand has failed
      have hrest : (∀ i, attempt ≤ i → i ≤ a → (answer i).ok = false) ↔
          ∀ i, attempt + 1 ≤ i → i ≤ a → (answer i).ok = false := by
        refine ⟨fun h i hi => h i (by omega), fun h i hi hia => ?_⟩
        rcases Nat.lt_or_eq_of_le hi with hlt | rfl
        · exact h i hlt hia
        · exact hfails
      dsimp only
      split
      · -- while retries are left, the backoff is computed before the next attempt
        rw [List.mem_cons, attempts_backoffs, hrest]
        constructor
        · rintro (rfl | ⟨hle, hlt, hmax, hall⟩)
          · exact ⟨Nat.le_refl _, by omega, by omega, fun i hi hia => by omega⟩
          · exact ⟨by omega, by omega, hmax, hall⟩
        · rintro ⟨hle, hlt, hmax, hall⟩
          rcases Nat.lt_or_eq_of_le hle with hgt | heq
          · exact .inr ⟨hgt, by omega, hmax, hall⟩
          · exact .inl heq.symm
      · rw [attempts_backoffs, hrest]
        exact ⟨fun h => ⟨by omega, by omega, h.2.2⟩, fun h => ⟨by omega, by omega, h.2.2⟩⟩

end

/-! ### Deliveries -/

section
variable {F : Type} {router : EventRouter F} {limiter : RateLimiter F} {conditions : Conditions F}
  {batch : DeliveryBatch} {batches : List DeliveryBatch}

theorem delivers_iff : router.delivers conditions = true ↔
    ∃ i ≤ router.config.maxRetries.toNat, (conditions.answer i).ok = true := by
  rw [EventRouter.delivers, List.any_eq_true]
  refine exists_congr fun i => and_congr_left fun _ => ?_
  rw [List.mem_range, Nat.lt_succ_iff]

theorem published_eq : (attemptsFrom router.config.maxRetries.toNat conditions.answer
    (router.config.maxRetries.toNat + 1) 0 "").published = router.delivers conditions := by
  rw [Bool.eq_iff_iff, attempts_published, delivers_iff]
  refine exists_congr fun i => ?_
  rw [Nat.zero_add, Nat.lt_succ_iff]

@[simp] theorem deliver_batch : (router.deliver limiter conditions batch).batch = batch := by
  rw [EventRouter.deliver]
  dsimp only
  split <;> rfl

theorem deliver_limiter : (router.deliver limiter conditions batch).limiter =
    (limiter.tryAcquire router.ops conditions.elapsed (router.ops.ofNat batch.events.length)).2 := by
  rw [EventRouter.deliver]
  dsimp only
  split <;> rfl

/-- What becomes of a batch. -/
theorem deliver_status : (router.deliver limiter conditions batch).status =
    if router.admits conditions limiter batch then
      if router.delivers conditions then .delivered
      else if router.parks conditions then .deadLettered
      else .retrying
    else .throttled := by
  rw [EventRouter.deliver, EventRouter.admits]
  dsimp only
  cases (limiter.tryAcquire router.ops conditions.elapsed
    (router.ops.ofNat batch.events.length)).1 with
  | false => rfl
  | true =>
    rw [Bool.not_true, if_neg Bool.false_ne_true, if_pos rfl]
    dsimp only
    rw [published_eq, EventRouter.parks]
    cases router.deadLetter with
    | false => rfl
    | true => cases conditions.park <;> rfl

theorem exists_ok_of_delivered
    (h : (router.deliver limiter conditions batch).status = .delivered) :
    ∃ i < (router.deliver limiter conditions batch).made, (conditions.answer i).ok = true := by
  rw [deliver_status] at h
  split_ifs at h with hadmitted hdelivers
  rw [EventRouter.admits] at hadmitted
  rw [← published_eq] at hdelivers
  obtain ⟨i, hi, hok⟩ := exists_ok_of_published hdelivers
  rw [EventRouter.deliver]
  dsimp only
  rw [hadmitted, Bool.not_true, if_neg Bool.false_ne_true]
  rw [Nat.zero_add] at hok
  exact ⟨i, hi, hok⟩

theorem mem_deliver_backoffs {a : ℕ} : a ∈ (router.deliver limiter conditions batch).backoffs ↔
    router.admits conditions limiter batch = true ∧ a < router.config.maxRetries.toNat ∧
      ∀ i ≤ a, (conditions.answer i).ok = false := by
  rw [EventRouter.deliver, EventRouter.admits]
  dsimp only
  cases (limiter.tryAcquire router.ops conditions.elapsed
    (router.ops.ofNat batch.events.length)).1 with
  | false =>
    rw [Bool.not_false, if_pos rfl]
    exact ⟨fun h => absurd h List.not_mem_nil, fun h => by cases h.1⟩
  | true =>
    rw [Bool.not_true, if_neg Bool.false_ne_true, attempts_backoffs, and_iff_right rfl]
    constructor
    · rintro ⟨-, -, hmax, hall⟩
      exact ⟨hmax, fun i => hall i (Nat.zero_le i)⟩
    · rintro ⟨hmax, hall⟩
      exact ⟨Nat.zero_le a, by omega, hmax, fun i _ => hall i⟩

theorem getElem?_deliverEach (conditions : ℕ → Conditions F) :
    ∀ (batches : List DeliveryBatch) (k i : ℕ) (limiter : RateLimiter F),
      (router.deliverEach conditions k limiter batches)[i]? = batches[i]?.map fun batch =>
        router.deliver (router.limiterBefore (fun j => conditions (k + j)) limiter batches i)
          (conditions (k + i)) batch
  | [], k, i, limiter => rfl
  | batch :: rest, k, 0, limiter => by
    rw [EventRouter.deliverEach, EventRouter.limiterBefore]
    rfl
  | batch :: rest, k, i + 1, limiter => by
    rw [EventRouter.deliverEach, List.getElem?_cons_succ, List.getElem?_cons_succ,
      getElem?_deliverEach conditions rest, EventRouter.limiterBefore, deliver_limiter]
    simp only [Nat.add_right_comm k 1, Nat.add_assoc, Nat.add_zero]

end

/-! ### Partition -/

section
variable {rules : List RoutingRule} {events : List SorobanEvent} {event : SorobanEvent}
  {grouped : Grouped} {d : String}

theorem nodup_resolveDestinations (rules : List RoutingRule) (event : SorobanEvent) :
    (resolveDestinations rules event).Nodup := by
  rw [resolveDestinations]
  induction rules.filter (·.enabled) using List.reverseRecOn with
  | nil => exact List.nodup_nil
  | append_singleton rules rule ih =>
    rw [List.foldl_append, List.foldl_cons, List.foldl_nil]
    split
    · next h =>
      rw [Bool.and_eq_true, Bool.not_eq_true', List.contains_eq_mem, decide_eq_false_iff_not] at h
      rw [← List.concat_eq_append]
      exact ih.concat h.2
    · exact ih

theorem lookup_pushTo (d' : String) : (pushTo event grouped d).lookup d' =
    if d' = d then some ((grouped.lookup d').getD [] ++ [event]) else grouped.lookup d' := by
  rw [pushTo]
  split
  · next h =>
    subst h
    exact AList.lookup_insert grouped
  · next h => exact AList.lookup_insert_ne h

/-- One event goes to each of its destinations once. -/
theorem lookup_foldl_pushTo : ∀ {destinations : List String} {grouped : Grouped},
    destinations.Nodup → (destinations.foldl (pushTo event) grouped).lookup d =
      if d ∈ destinations then some ((grouped.lookup d).getD [] ++ [event]) else grouped.lookup d
  | [], grouped, _ => by simp
  | d' :: rest, grouped, hnd => by
    obtain ⟨hnot, hnd⟩ := List.nodup_cons.mp hnd
    rw [List.foldl_cons, lookup_foldl_pushTo hnd, lookup_pushTo]
    by_cases heq : d = d'
    · subst heq
      rw [if_neg hnot, if_pos rfl, if_pos List.mem_cons_self]
    · rw [if_neg heq]
      exact if_congr (by rw [List.mem_cons, or_iff_right heq]) rfl rfl

theorem selected_concat : selected rules (events ++ [event]) d =
    selected rules events d ++ if d ∈ resolveDestinations rules event then [event] else [] := by
  rw [selected, List.filter_append, ← selected]
  congr 1
  by_cases hmem : d ∈ resolveDestinations rules event <;> simp [hmem]

/-- A destination's group are the events selected for it. -/
theorem lookup_partitionByDestination (rules : List RoutingRule) (events : List SorobanEvent)
    (d : String) : (partitionByDestination rules events).lookup d =
      if selected rules events d = [] then none else some (selected rules events d) := by
  induction events using List.reverseRecOn with
  | nil => rfl
  | append_singleton events event ih =>
    rw [partitionByDestination, List.foldl_append, List.foldl_cons, List.foldl_nil,
      lookup_foldl_pushTo (nodup_resolveDestinations rules event), ← partitionByDestination, ih,
      selected_concat]
    by_cases hmem : d ∈ resolveDestinations rules event
    · rw [if_pos hmem, if_pos hmem,
        if_neg (List.append_ne_nil_of_right_ne_nil _ (List.cons_ne_nil _ _))]
      split
      · next hnil => rw [hnil, Option.getD_none]
      · rw [Option.getD_some]
    · rw [if_neg hmem, if_neg hmem, List.append_nil]

end

section
variable {F : Type} {router : EventRouter F} {world : String → ℕ → Conditions F}
  {events : List SorobanEvent} {d : String} {deliveries : List (Delivery F)}

/-- What `route` does at a destination. -/
theorem mem_route_iff : (d, deliveries) ∈ router.route world events ↔
    selected router.rules events d ≠ [] ∧ ∃ limiter, router.destinations d = some limiter ∧
      deliveries = router.deliverEach (world d) 0 limiter
        (router.config.batch (selected router.rules events d)) := by
  rw [EventRouter.route, List.mem_filterMap]
  constructor
  · rintro ⟨⟨d', routed⟩, hmem, hgroup⟩
    obtain ⟨limiter, hlimiter, heq⟩ := Option.map_eq_some_iff.mp hgroup
    cases heq
    have hlookup := AList.mem_lookup_iff.mpr hmem
    rw [lookup_partitionByDestination] at hlookup
    split at hlookup
    · cases hlookup
    · next hne =>
      cases hlookup
      exact ⟨hne, limiter, hlimiter, rfl⟩
  · rintro ⟨hne, limiter, hlimiter, rfl⟩
    refine ⟨⟨d, selected router.rules events d⟩, AList.mem_lookup_iff.mp ?_, ?_⟩
    · rw [lookup_partitionByDestination, if_neg hne]
      rfl
    · rw [hlimiter]
      rfl

end

end SorobanPulse.Routing
