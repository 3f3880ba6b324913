import SorobanPulse.Routing.EventRouter

/-! What `route` leaves of each event.

        batch         0          1           2          outcome: the last that is not delivered
        status    retrying  deadLettered  delivered  ─▶ deadLettered       batch 0 is lost
                  throttled  delivered    delivered  ─▶ throttled          batch 0 is dropped

    No event is lost silently exactly when all destinations are known, the limiters refuse no batch,
    and behind a parked batch that follows an unsent one there is another unsent one. -/

namespace SorobanPulse.Routing
open Ingest Lib

section
variable {F : Type}

/-- The events of the batches with one of these statuses. -/
def eventsWith (p : DeliveryStatus → Bool) (deliveries : List (Delivery F)) : List SorobanEvent :=
  (deliveries.filter fun x => p x.status).flatMap fun x => x.batch.events

/-- Published by a successful `publish_batch`. -/
def published (deliveries : List (Delivery F)) : List SorobanEvent :=
  eventsWith (· = .delivered) deliveries

def parked (deliveries : List (Delivery F)) : List SorobanEvent :=
  eventsWith (· = .deadLettered) deliveries

def refused (deliveries : List (Delivery F)) : List SorobanEvent :=
  eventsWith (· = .throttled) deliveries

/-- Each event is published or parked, or else the outcome says that it must be sent again. -/
def Accounted (deliveries : List (Delivery F)) (events : List SorobanEvent) : Prop :=
  ∃ unsent, (published deliveries ++ parked deliveries ++ unsent).Perm events ∧
    (unsent ≠ [] → outcome deliveries = .retrying)

/-- No event is lost silently, no batch is refused and left, and no backoff overflows. -/
structure LosesNothing (router : EventRouter F) (world : String → ℕ → Conditions F)
    (events : List SorobanEvent) : Prop where
  accounted : ∀ d, selected router.rules events d ≠ [] → ∃ deliveries,
    (d, deliveries) ∈ router.route world events ∧
      Accounted deliveries (selected router.rules events d)
  refused : ∀ d deliveries, (d, deliveries) ∈ router.route world events → refused deliveries = []
  backoffs : ∀ d deliveries, (d, deliveries) ∈ router.route world events →
    ∀ x ∈ deliveries, ∀ a ∈ x.backoffs, router.config.BackoffFits a

section
variable (router : EventRouter F)

/-- No attempt succeeds and the batch is not parked. -/
def EventRouter.Unsent (conditions : Conditions F) : Prop :=
  router.delivers conditions = false ∧ router.parks conditions = false

def EventRouter.Parked (conditions : Conditions F) : Prop :=
  router.delivers conditions = false ∧ router.parks conditions = true

/-- At one destination: the limiter admits all batches, a parked batch hides no unsent one, and the
    backoffs between failed attempts are in range. -/
structure EventRouter.SafeAt (conditions : ℕ → Conditions F) (limiter : RateLimiter F)
    (batches : List DeliveryBatch) : Prop where
  admitted : ∀ k batch, batches[k]? = some batch →
    router.admits (conditions k) (router.limiterBefore conditions limiter batches k) batch = true
  visible : ∀ k k', k < k' → k' < batches.length → router.Unsent (conditions k) →
    router.Parked (conditions k') → ∃ k'', k' < k'' ∧ k'' < batches.length ∧
      router.Unsent (conditions k'')
  backoffs : ∀ k < batches.length, ∀ a < router.config.maxRetries.toNat,
    (∀ i ≤ a, ((conditions k).answer i).ok = false) → router.config.BackoffFits a

end

/-! ### Statuses -/

/-- `outcome`, of the statuses. -/
def lastStatus (statuses : List DeliveryStatus) : DeliveryStatus :=
  statuses.foldl (fun status s => if s ≠ .delivered then s else status) .delivered

theorem outcome_eq (deliveries : List (Delivery F)) :
    outcome deliveries = lastStatus (deliveries.map (·.status)) := by
  rw [outcome, lastStatus, List.foldl_map]

theorem lastStatus_concat (statuses : List DeliveryStatus) (s : DeliveryStatus) :
    lastStatus (statuses ++ [s]) = if s ≠ .delivered then s else lastStatus statuses := by
  rw [lastStatus, List.foldl_append]
  rfl

theorem eq_delivered_of_lastStatus {statuses : List DeliveryStatus}
    (h : lastStatus statuses = .delivered) : ∀ s ∈ statuses, s = .delivered := by
  induction statuses using List.reverseRecOn with
  | nil => exact fun s hs => absurd hs List.not_mem_nil
  | append_singleton statuses t ih =>
    rw [lastStatus_concat] at h
    split_ifs at h with ht
    · exact absurd h ht
    · intro s hs
      rcases List.mem_append.mp hs with hs | hs
      · exact ih h s hs
      · rw [List.mem_singleton.mp hs]
        exact not_not.mp ht

/-- An unsent batch shows exactly when none that is parked later is the last. -/
theorem lastStatus_retrying_iff {statuses : List DeliveryStatus}
    (hno : DeliveryStatus.throttled ∉ statuses) :
    (DeliveryStatus.retrying ∈ statuses → lastStatus statuses = .retrying) ↔
      ∀ k k' : ℕ, k < k' → statuses[k]? = some DeliveryStatus.retrying →
        statuses[k']? = some DeliveryStatus.deadLettered →
          ∃ k'' : ℕ, k' < k'' ∧ statuses[k'']? = some DeliveryStatus.retrying := by
  induction statuses using List.reverseRecOn with
  | nil => simp
  | append_singleton statuses s ih =>
    have hno' : DeliveryStatus.throttled ∉ statuses := fun h => hno (List.mem_append_left _ h)
    have ih := ih hno'
    -- the statuses before the last one are those of the shorter list
    have hget : ∀ (k : ℕ) (t : DeliveryStatus), (statuses ++ [s])[k]? = some t ↔
        statuses[k]? = some t ∨ k = statuses.length ∧ s = t := by
      intro k t
      rcases Nat.lt_trichotomy k statuses.length with hlt | rfl | hgt
      · rw [List.getElem?_append_left hlt]
        exact ⟨.inl, fun h => h.resolve_right fun h => by omega⟩
      · simp
      · rw [List.getElem?_eq_none (by simp; omega), List.getElem?_eq_none (by omega)]
        simp
        omega
    have hlen : ∀ {k : ℕ} {t : DeliveryStatus}, statuses[k]? = some t → k < statuses.length :=
      fun h => (List.getElem?_eq_some_iff.mp h).1
    rw [lastStatus_concat]
    cases s with
    | delivered =>  -- a delivered batch is never shown over another status
      simp only [hget, List.mem_append, List.mem_singleton, reduceCtorEq, and_false, or_false,
        ne_eq, not_true_eq_false, if_false]
      exact ih
    | retrying =>  -- unsent and last, so it is shown
      simp only [hget, reduceCtorEq, and_false, or_false, ne_eq, not_false_eq_true, if_true,
        and_true, implies_true, true_iff]
      intro k k' _ _ hk'
      exact ⟨statuses.length, hlen hk', .inr rfl⟩
    | deadLettered =>  -- parked and last, so none that waits may stand before it
      simp only [hget, reduceCtorEq, and_false, or_false, ne_eq, not_false_eq_true, if_true,
        and_true, List.mem_append, List.mem_singleton]
      constructor
      · intro h k k' hlt hk
        exact absurd (List.mem_of_getElem? hk) h
      · intro h hmem
        obtain ⟨k, hk⟩ := List.mem_iff_getElem?.mp hmem
        obtain ⟨k'', hlt, hk''⟩ := h k statuses.length (hlen hk) hk (.inr rfl)
        exact absurd (hlen hk'') (by omega)
    | throttled => exact absurd (List.mem_append_right _ (List.mem_singleton.mpr rfl)) hno

/-! ### Conservation -/

section
variable {deliveries : List (Delivery F)} {events : List SorobanEvent}

/-- The events of the other batches. -/
def leftOver (deliveries : List (Delivery F)) : List SorobanEvent :=
  eventsWith (fun s => s = .retrying || s = .throttled) deliveries

theorem eventsWith_append_perm (p : DeliveryStatus → Bool) (deliveries : List (Delivery F)) :
    (eventsWith p deliveries ++ eventsWith (fun s => !p s) deliveries).Perm
      (deliveries.flatMap fun x => x.batch.events) := by
  rw [eventsWith, eventsWith, ← List.flatMap_append]
  exact (List.filter_append_perm (fun x => p x.status) deliveries).flatMap_right _

/-- Each event is in exactly one of the three. -/
theorem parts_perm (deliveries : List (Delivery F)) :
    (published deliveries ++ parked deliveries ++ leftOver deliveries).Perm
      (deliveries.flatMap fun x => x.batch.events) := by
  refine List.Perm.trans ?_ (eventsWith_append_perm (fun s => s = .delivered) deliveries)
  rw [List.append_assoc]
  refine List.Perm.append_left _ ?_
  rw [parked, leftOver, eventsWith, eventsWith, eventsWith, ← List.flatMap_append]
  refine List.Perm.flatMap_right _ ?_
  have hperm := List.filter_append_perm (fun x : Delivery F => decide (x.status = .deadLettered))
    (deliveries.filter fun x => !decide (x.status = .delivered))
  rw [List.filter_filter, List.filter_filter] at hperm
  refine List.Perm.trans (List.Perm.of_eq ?_) hperm
  congr 1
  · refine List.filter_congr fun x _ => ?_
    cases x.status <;> rfl
  · refine List.filter_congr fun x _ => ?_
    cases x.status <;> rfl

theorem eventsWith_eq_nil_iff {p : DeliveryStatus → Bool}
    (hne : ∀ x ∈ deliveries, x.batch.events ≠ []) :
    eventsWith p deliveries = [] ↔ ∀ x ∈ deliveries, p x.status = false := by
  rw [eventsWith, List.flatMap_eq_nil_iff]
  constructor
  · intro h x hx
    by_contra hp
    exact hne x hx (h x (List.mem_filter.mpr ⟨hx, Bool.eq_true_of_not_eq_false hp⟩))
  · intro h x hx
    obtain ⟨hx, hp⟩ := List.mem_filter.mp hx
    rw [h x hx] at hp
    cases hp

/-- What has to show in the outcome are the batches left over. -/
theorem accounted_iff (hperm : (deliveries.flatMap fun x => x.batch.events).Perm events) :
    Accounted deliveries events ↔ (leftOver deliveries ≠ [] → outcome deliveries = .retrying) := by
  constructor
  · rintro ⟨unsent, hunsent, houtcome⟩ hne
    refine houtcome fun hnil => hne ?_
    have hsame : (leftOver deliveries).Perm unsent := by
      refine (List.perm_append_left_iff (published deliveries ++ parked deliveries)).mp ?_
      exact ((parts_perm deliveries).trans hperm).trans hunsent.symm
    rw [hnil] at hsame
    exact hsame.eq_nil
  · exact fun h => ⟨leftOver deliveries, (parts_perm deliveries).trans hperm, h⟩

end

/-! ### One destination -/

section
variable {router : EventRouter F} {conditions : ℕ → Conditions F} {limiter : RateLimiter F}
  {batches : List DeliveryBatch} {events : List SorobanEvent}

theorem getElem?_deliveries (k : ℕ) : (router.deliverEach conditions 0 limiter batches)[k]? =
    batches[k]?.map fun batch =>
      router.deliver (router.limiterBefore conditions limiter batches k) (conditions k) batch := by
  rw [getElem?_deliverEach]
  simp only [Nat.zero_add]

theorem map_batch_deliveries :
    (router.deliverEach conditions 0 limiter batches).map (·.batch) = batches := by
  refine List.ext_getElem? fun k => ?_
  rw [List.getElem?_map, getElem?_deliveries, Option.map_map]
  simp [Function.comp_def]

theorem ne_nil_of_mem_batch (config : RouterConfig) {batch : DeliveryBatch}
    (h : batch ∈ config.batch events) : batch.events ≠ [] := by
  obtain ⟨chunk, hchunk, rfl⟩ := List.mem_map.mp h
  exact ne_nil_of_mem_chunks (by omega) hchunk

theorem flatMap_batch (config : RouterConfig) (events : List SorobanEvent) :
    (config.batch events).flatMap (·.events) = events := by
  rw [RouterConfig.batch, List.flatMap_map, List.flatMap_id']
  exact flatten_chunks (by omega) events

theorem flatMap_deliveries : (router.deliverEach conditions 0 limiter
    (router.config.batch events)).flatMap (fun x => x.batch.events) = events := by
  rw [← List.flatMap_map (Delivery.batch (F := F)) DeliveryBatch.events, map_batch_deliveries,
    flatMap_batch]

theorem ne_nil_of_mem_deliveries {x : Delivery F}
    (h : x ∈ router.deliverEach conditions 0 limiter (router.config.batch events)) :
    x.batch.events ≠ [] := by
  have hmem := List.mem_map_of_mem (f := fun x => x.batch) h
  rw [map_batch_deliveries] at hmem
  exact ne_nil_of_mem_batch router.config hmem

theorem not_throttled_iff :
    DeliveryStatus.throttled ∉ (router.deliverEach conditions 0 limiter batches).map (·.status) ↔
      ∀ k batch, batches[k]? = some batch →
        router.admits (conditions k) (router.limiterBefore conditions limiter batches k) batch =
          true := by
  constructor
  · intro hno k batch hbatch
    by_contra hrefused
    refine hno (List.mem_of_getElem? (i := k) ?_)
    rw [List.getElem?_map, getElem?_deliveries, hbatch, Option.map_some, Option.map_some,
      deliver_status, if_neg hrefused]
  · intro hadmitted hmem
    obtain ⟨k, hk⟩ := List.mem_iff_getElem?.mp hmem
    rw [List.getElem?_map, getElem?_deliveries, Option.map_map] at hk
    obtain ⟨batch, hbatch, hstatus⟩ := Option.map_eq_some_iff.mp hk
    rw [Function.comp_apply, deliver_status, if_pos (hadmitted k batch hbatch)] at hstatus
    split_ifs at hstatus

/-- The status of an admitted batch. -/
theorem getElem?_status (hadmitted : ∀ k batch, batches[k]? = some batch →
      router.admits (conditions k) (router.limiterBefore conditions limiter batches k) batch = true)
    (k : ℕ) : ((router.deliverEach conditions 0 limiter batches).map (·.status))[k]? =
      batches[k]?.map fun _ =>
        if router.delivers (conditions k) then DeliveryStatus.delivered
        else if router.parks (conditions k) then .deadLettered
        else .retrying := by
  rw [List.getElem?_map, getElem?_deliveries]
  cases hbatch : batches[k]? with
  | none => rfl
  | some batch =>
    rw [Option.map_some, Option.map_some, Option.map_some, deliver_status,
      if_pos (hadmitted k batch hbatch)]

theorem accounted_batches_iff (hadmitted : ∀ k batch, batches[k]? = some batch →
      router.admits (conditions k) (router.limiterBefore conditions limiter batches k) batch = true) :
    (DeliveryStatus.retrying ∈ (router.deliverEach conditions 0 limiter batches).map (·.status) →
        outcome (router.deliverEach conditions 0 limiter batches) = .retrying) ↔
      ∀ k k', k < k' → k' < batches.length → router.Unsent (conditions k) →
        router.Parked (conditions k') → ∃ k'', k' < k'' ∧ k'' < batches.length ∧
          router.Unsent (conditions k'') := by
  -- the status of batch k is that of its delivery, if there is a batch k
  have hretrying : ∀ k, ((router.deliverEach conditions 0 limiter batches).map (·.status))[k]? =
      some .retrying ↔ k < batches.length ∧ router.Unsent (conditions k) := by
    intro k
    rw [getElem?_status hadmitted, EventRouter.Unsent]
    rcases Nat.lt_or_ge k batches.length with hlt | hge
    · rw [List.getElem?_eq_getElem hlt, Option.map_some]
      cases router.delivers (conditions k) <;> cases router.parks (conditions k) <;> simp [hlt]
    · rw [List.getElem?_eq_none hge]
      simp
      omega
  have hparked : ∀ k, ((router.deliverEach conditions 0 limiter batches).map (·.status))[k]? =
      some .deadLettered ↔ k < batches.length ∧ router.Parked (conditions k) := by
    intro k
    rw [getElem?_status hadmitted, EventRouter.Parked]
    rcases Nat.lt_or_ge k batches.length with hlt | hge
    · rw [List.getElem?_eq_getElem hlt, Option.map_some]
      cases router.delivers (conditions k) <;> cases router.parks (conditions k) <;> simp [hlt]
    · rw [List.getElem?_eq_none hge]
      simp
      omega
  -- the outcome is the last status that is not a delivery, and none is throttled
  rw [outcome_eq, lastStatus_retrying_iff (not_throttled_iff.mpr hadmitted)]
  simp only [hretrying, hparked]
  constructor
  · intro h k k' hlt hlen hunsent hpark
    obtain ⟨k'', hlt'', hlen'', hunsent''⟩ := h k k' hlt ⟨by omega, hunsent⟩ ⟨hlen, hpark⟩
    exact ⟨k'', hlt'', hlen'', hunsent''⟩
  · rintro h k k' hlt ⟨-, hunsent⟩ ⟨hlen, hpark⟩
    obtain ⟨k'', hlt'', hlen'', hunsent''⟩ := h k k' hlt hlen hunsent hpark
    exact ⟨k'', hlt'', hlen'', hunsent''⟩

theorem backoffs_iff (hadmitted : ∀ k batch, batches[k]? = some batch →
      router.admits (conditions k) (router.limiterBefore conditions limiter batches k) batch = true) :
    (∀ x ∈ router.deliverEach conditions 0 limiter batches, ∀ a ∈ x.backoffs,
        router.config.BackoffFits a) ↔
      ∀ k < batches.length, ∀ a < router.config.maxRetries.toNat,
        (∀ i ≤ a, ((conditions k).answer i).ok = false) → router.config.BackoffFits a := by
  constructor
  · intro h k hk a ha hfails
    have hbatch := List.getElem?_eq_getElem hk
    have hx : (router.deliverEach conditions 0 limiter batches)[k]? = some (router.deliver
        (router.limiterBefore conditions limiter batches k) (conditions k) batches[k]) := by
      rw [getElem?_deliveries, hbatch, Option.map_some]
    exact h _ (List.mem_of_getElem? hx) a
      (mem_deliver_backoffs.mpr ⟨hadmitted k _ hbatch, ha, hfails⟩)
  · intro h x hx a ha
    obtain ⟨k, hk⟩ := List.mem_iff_getElem?.mp hx
    rw [getElem?_deliveries] at hk
    obtain ⟨batch, hbatch, rfl⟩ := Option.map_eq_some_iff.mp hk
    obtain ⟨-, hmax, hfails⟩ := mem_deliver_backoffs.mp ha
    exact h k (List.getElem?_eq_some_iff.mp hbatch).1 a hmax hfails

/-- At one destination nothing is lost exactly when it is safe. -/
theorem safeAt_iff :
    (Accounted (router.deliverEach conditions 0 limiter (router.config.batch events)) events ∧
        refused (router.deliverEach conditions 0 limiter (router.config.batch events)) = [] ∧
        ∀ x ∈ router.deliverEach conditions 0 limiter (router.config.batch events),
          ∀ a ∈ x.backoffs, router.config.BackoffFits a) ↔
      router.SafeAt conditions limiter (router.config.batch events) := by
  set batches := router.config.batch events with hbatches
  have hne : ∀ x ∈ router.deliverEach conditions 0 limiter batches, x.batch.events ≠ [] :=
    fun x hx => ne_nil_of_mem_deliveries hx
  have hrefused : refused (router.deliverEach conditions 0 limiter batches) = [] ↔
      ∀ k batch, batches[k]? = some batch →
        router.admits (conditions k) (router.limiterBefore conditions limiter batches k) batch =
          true := by
    rw [← not_throttled_iff, refused, eventsWith_eq_nil_iff hne, List.mem_map]
    simp only [decide_eq_false_iff_not, not_exists, not_and]
  have hperm : ((router.deliverEach conditions 0 limiter batches).flatMap
      fun x => x.batch.events).Perm events := List.Perm.of_eq flatMap_deliveries
  rw [accounted_iff hperm, hrefused]
  -- left over means waiting for a retry, as nothing is throttled
  have hleft : ∀ hadmitted : ∀ k batch, batches[k]? = some batch →
      router.admits (conditions k) (router.limiterBefore conditions limiter batches k) batch = true,
      leftOver (router.deliverEach conditions 0 limiter batches) ≠ [] ↔
        DeliveryStatus.retrying ∈
          (router.deliverEach conditions 0 limiter batches).map (·.status) := by
    intro hadmitted
    have hno := not_throttled_iff.mpr hadmitted
    rw [leftOver, Ne, eventsWith_eq_nil_iff hne, List.mem_map]
    push Not
    refine exists_congr fun x => and_congr_right fun hx => ?_
    have hx' : x.status ≠ .throttled := fun h => hno (List.mem_map.mpr ⟨x, hx, h⟩)
    simp [hx']
  constructor
  · rintro ⟨haccounted, hadmitted, hbackoffs⟩
    rw [hleft hadmitted, accounted_batches_iff hadmitted] at haccounted
    exact ⟨hadmitted, haccounted, (backoffs_iff hadmitted).mp hbackoffs⟩
  · rintro ⟨hadmitted, hvisible, hbackoffs⟩
    rw [hleft hadmitted, accounted_batches_iff hadmitted, backoffs_iff hadmitted]
    exact ⟨hvisible, hadmitted, hbackoffs⟩

end

/-! ### All destinations -/

section
variable {router : EventRouter F} {world : String → ℕ → Conditions F} {events : List SorobanEvent}

theorem safeAt_of_losesNothing (h : LosesNothing router world events) {d : String}
    (hne : selected router.rules events d ≠ []) : ∃ limiter, router.destinations d = some limiter ∧
      router.SafeAt (world d) limiter (router.config.batch (selected router.rules events d)) := by
  obtain ⟨deliveries, hroute, haccounted⟩ := h.accounted d hne
  have hrefused := h.refused d deliveries hroute
  have hbackoffs := h.backoffs d deliveries hroute
  obtain ⟨-, limiter, hlimiter, rfl⟩ := mem_route_iff.mp hroute
  exact ⟨limiter, hlimiter, safeAt_iff.mp ⟨haccounted, hrefused, hbackoffs⟩⟩

theorem losesNothing_of_safeAt (h : ∀ d, selected router.rules events d ≠ [] →
    ∃ limiter, router.destinations d = some limiter ∧
      router.SafeAt (world d) limiter (router.config.batch (selected router.rules events d))) :
    LosesNothing router world events := by
  refine ⟨fun d hne => ?_, fun d deliveries hroute => ?_, fun d deliveries hroute => ?_⟩
  · obtain ⟨limiter, hlimiter, hsafe⟩ := h d hne
    exact ⟨_, mem_route_iff.mpr ⟨hne, limiter, hlimiter, rfl⟩, (safeAt_iff.mpr hsafe).1⟩
  · obtain ⟨hne, limiter, hlimiter, rfl⟩ := mem_route_iff.mp hroute
    obtain ⟨limiter', hlimiter', hsafe⟩ := h d hne
    rw [hlimiter] at hlimiter'
    cases hlimiter'
    exact (safeAt_iff.mpr hsafe).2.1
  · obtain ⟨hne, limiter, hlimiter, rfl⟩ := mem_route_iff.mp hroute
    obtain ⟨limiter', hlimiter', hsafe⟩ := h d hne
    rw [hlimiter] at hlimiter'
    cases hlimiter'
    exact (safeAt_iff.mpr hsafe).2.2

/-- The router loses nothing exactly when every destination selected is known and safe. -/
theorem losesNothing_iff (router : EventRouter F) (world : String → ℕ → Conditions F)
    (events : List SorobanEvent) : LosesNothing router world events ↔
      ∀ d, selected router.rules events d ≠ [] → ∃ limiter, router.destinations d = some limiter ∧
        router.SafeAt (world d) limiter
          (router.config.batch (selected router.rules events d)) :=
  ⟨fun h _ hne => safeAt_of_losesNothing h hne, losesNothing_of_safeAt⟩

end

end

/-! ### A hidden batch -/

/-- Whole tokens. -/
def wholeOps : FloatOps ℕ where
  add := (· + ·)
  sub := (· - ·)
  mul := (· * ·)
  min := min
  le m n := decide (m ≤ n)
  ofNat n := n

/-- All events go to SQS, one by one and without retries. -/
def sqsRouter : EventRouter ℕ where
  ops := wholeOps
  destinations d := if d = "sqs" then some ⟨1000, 1000, 1000⟩ else none
  rules := [{ destination := "sqs", matcher := .all }]
  deadLetter := true
  config := { maxBatchSize := 1, maxRetries := 0, retryBackoffBaseMs := 100 }

/-- SQS is down, and the dead-letter sink refuses the first batch. -/
def sqsDown (_ : String) (k : ℕ) : Conditions ℕ where
  elapsed := 0
  answer _ := { result := .error "unavailable", reached := fun _ => false }
  park := if k = 0 then .error "full" else .ok ()

def transferAt (ledger : UInt64) : SorobanEvent where
  contractId := "C"
  eventType := "contract"
  txHash := "t"
  ledger := ledger
  ledgerClosedAt := ""
  value := .null

/-- The second batch is parked, and the outcome hides the first. -/
theorem not_losesNothing_sqs : ¬LosesNothing sqsRouter sqsDown [transferAt 1, transferAt 2] := by
  intro h
  have hselected : selected sqsRouter.rules [transferAt 1, transferAt 2] "sqs" =
      [transferAt 1, transferAt 2] := rfl
  obtain ⟨limiter, -, hsafe⟩ := safeAt_of_losesNothing h (d := "sqs") (by
    rw [hselected]
    exact List.cons_ne_nil _ _)
  have hlen : (sqsRouter.config.batch (selected sqsRouter.rules [transferAt 1, transferAt 2]
      "sqs")).length = 2 := rfl
  obtain ⟨k'', hlt, hlen'', -⟩ := hsafe.visible 0 1 Nat.zero_lt_one (by rw [hlen]; decide)
    ⟨rfl, rfl⟩ ⟨rfl, rfl⟩
  omega

end SorobanPulse.Routing
