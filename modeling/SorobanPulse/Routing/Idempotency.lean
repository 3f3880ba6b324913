import SorobanPulse.Ingest.TrueDuplicates
import SorobanPulse.Routing.Conservation

/-! Exactly-once publishing at a sink that honours the idempotency keys.

        attempt 0   e₁ e₂ │ e₃ e₄     the call fails after e₂
        attempt 1   e₁ e₂   e₃ e₄     e₁ and e₂ are known: only e₃ and e₄ go out

    The key is made of the transaction, the contract and the ledger. Two events of one contract in one
    transaction share it, and the sink takes the second for the first. -/

namespace SorobanPulse.Routing
open Ingest Lib

/-! ### The sink -/

/-- What a sink has published, and under which keys. -/
abbrev Sink := List (String × SorobanEvent)

/-- A successful call has come to all events of the batch. -/
def Answer.reaches (answer : Answer) (i : ℕ) : Bool := answer.ok || answer.reached i

/-- The events of a batch that a call comes to, with their keys. -/
def reachedBy (answer : Answer) (batch : DeliveryBatch) : Sink :=
  ((batch.idempotencyKeys.zip batch.events).zipIdx.filter fun x => answer.reaches x.2).map (·.1)

/-- The contract of `publish_batch`: an event goes out if and only if its key did not before. -/
def publishBatch (sink : Sink) (batch : DeliveryBatch) (answer : Answer) : Sink :=
  (reachedBy answer batch).foldl (keepFirst Prod.fst) sink

section
variable {F : Type}

/-- The attempts on one batch. -/
def publishAttempts (answer : ℕ → Answer) (sink : Sink) (delivery : Delivery F) : Sink :=
  (List.range delivery.made).foldl (fun sink i => publishBatch sink delivery.batch (answer i)) sink

/-- The batches of a destination in turn. -/
def publishEach (conditions : ℕ → Conditions F) (sink : Sink) (deliveries : List (Delivery F)) :
    Sink :=
  deliveries.zipIdx.foldl (fun sink x => publishAttempts (conditions x.2).answer sink x.1) sink

/-- One call of `route`, and what it meets. -/
structure Call (F : Type) where
  router : EventRouter F
  world : String → ℕ → Conditions F
  events : List SorobanEvent

/-- What a call of `route` leaves at the sink of `d`. -/
def publishCall (d : String) (sink : Sink) (call : Call F) : Sink :=
  match (call.router.route call.world call.events).lookup d with
  | some deliveries => publishEach (call.world d) sink deliveries
  | none => sink

/-- The sink of `d` after these calls. -/
def sinkAfter (calls : List (Call F)) (d : String) : Sink := calls.foldl (publishCall d) []

end

/-- A finite set of events, distinct by their RPC ids. -/
structure DistinctEvents where
  events : List SorobanEvent
  ids : (events.map (·.rpcId)).Nodup

/-- How often the sink of `d` has published an event. -/
def timesPublished {F : Type} (calls : List (Call F)) (d : String) (event : SorobanEvent) : ℕ :=
  ((sinkAfter calls d).map (·.2.rpcId)).count event.rpcId

/-- The keys tell the events apart, and whatever is reported as delivered went out exactly once. -/
structure KeysIdentify (F : Type) (E : DistinctEvents) : Prop where
  keys : ∀ e ∈ E.events, ∀ e' ∈ E.events, e.rpcId ≠ e'.rpcId → idempotencyKey e ≠ idempotencyKey e'
  atMostOnce : ∀ calls : List (Call F), (∀ call ∈ calls, call.events ⊆ E.events) →
    ∀ d, ∀ e ∈ E.events, timesPublished calls d e ≤ 1
  exactlyOnce : ∀ calls : List (Call F), (∀ call ∈ calls, call.events ⊆ E.events) →
    ∀ call ∈ calls, ∀ d,
      (d, DeliveryStatus.delivered) ∈ call.router.outcomes call.world call.events →
        ∀ e ∈ selected call.router.rules call.events d, timesPublished calls d e = 1

/-! ### Keys -/

theorem toList_idempotencyKey (event : SorobanEvent) : (idempotencyKey event).toList =
    (event.txHash ++ ":" ++ event.contractId).toList ++
      ':' :: Nat.toDigits 10 event.ledger.toNat := by
  rw [idempotencyKey]
  simp only [String.toList_append, toList_toString_nat, List.append_assoc]
  rfl

/-- A key is one text and one ledger. -/
theorem idempotencyKey_eq_iff {e e' : SorobanEvent} : idempotencyKey e = idempotencyKey e' ↔
    e.ledger = e'.ledger ∧ e.txHash ++ ":" ++ e.contractId = e'.txHash ++ ":" ++ e'.contractId := by
  have hdigits : ∀ n, ':' ∉ (Nat.toDigits 10 n).reverse := by
    intro n hcolon
    exact not_mem_toDigits rfl n (List.mem_reverse.mp hcolon)
  constructor
  · intro h
    -- the ledger is what follows the last colon
    have hlist := congrArg (fun s => s.toList.reverse) h
    simp only [toList_idempotencyKey, List.reverse_append, List.reverse_cons, List.append_assoc,
      List.singleton_append] at hlist
    obtain ⟨hledger, htext⟩ := eq_of_append_separator (hdigits _) (hdigits _) hlist
    rw [List.reverse_inj] at hledger htext
    exact ⟨UInt64.toNat_inj.mp (toDigits_injective hledger), String.toList_inj.mp htext⟩
  · rintro ⟨hledger, htext⟩
    rw [idempotencyKey, idempotencyKey, hledger, htext]

/-! ### Everything a sink comes to -/

section
variable {F : Type}

def attempted (answer : ℕ → Answer) (delivery : Delivery F) : Sink :=
  (List.range delivery.made).flatMap fun i => reachedBy (answer i) delivery.batch

def attemptedEach (conditions : ℕ → Conditions F) (deliveries : List (Delivery F)) : Sink :=
  deliveries.zipIdx.flatMap fun x => attempted (conditions x.2).answer x.1

def attemptedCall (d : String) (call : Call F) : Sink :=
  match (call.router.route call.world call.events).lookup d with
  | some deliveries => attemptedEach (call.world d) deliveries
  | none => []

theorem publishAttempts_eq (answer : ℕ → Answer) (sink : Sink) (delivery : Delivery F) :
    publishAttempts answer sink delivery =
      (attempted answer delivery).foldl (keepFirst Prod.fst) sink := by
  rw [attempted, List.foldl_flatMap]
  rfl

theorem publishEach_eq (conditions : ℕ → Conditions F) (sink : Sink)
    (deliveries : List (Delivery F)) : publishEach conditions sink deliveries =
      (attemptedEach conditions deliveries).foldl (keepFirst Prod.fst) sink := by
  rw [attemptedEach, List.foldl_flatMap, publishEach]
  simp only [publishAttempts_eq]

theorem publishCall_eq (d : String) (sink : Sink) (call : Call F) :
    publishCall d sink call = (attemptedCall d call).foldl (keepFirst Prod.fst) sink := by
  rw [publishCall, attemptedCall]
  split
  · exact publishEach_eq _ _ _
  · rfl

/-- A sink keeps the first of each key. -/
theorem sinkAfter_eq (calls : List (Call F)) (d : String) :
    sinkAfter calls d = firstBy Prod.fst (calls.flatMap (attemptedCall d)) := by
  rw [firstBy, List.foldl_flatMap, sinkAfter]
  simp only [← publishCall_eq]

/-! ### What is in a batch -/

theorem mem_reachedBy {answer : Answer} {batch : DeliveryBatch} {x : String × SorobanEvent}
    (h : x ∈ reachedBy answer batch) : x ∈ batch.idempotencyKeys.zip batch.events := by
  obtain ⟨⟨y, i⟩, hy, rfl⟩ := List.mem_map.mp h
  exact List.fst_mem_of_mem_zipIdx (List.mem_filter.mp hy).1

theorem reachedBy_of_ok {answer : Answer} (h : answer.ok = true) (batch : DeliveryBatch) :
    reachedBy answer batch = batch.idempotencyKeys.zip batch.events := by
  rw [reachedBy, List.filter_eq_self.mpr]
  · exact List.zipIdx_map_fst _ _
  · intro x _
    rw [Answer.reaches, h, Bool.true_or]

theorem mem_zip_batch {config : RouterConfig} {events : List SorobanEvent} {batch : DeliveryBatch}
    (h : batch ∈ config.batch events) {x : String × SorobanEvent} :
    x ∈ batch.idempotencyKeys.zip batch.events ↔
      x.2 ∈ batch.events ∧ x.1 = idempotencyKey x.2 := by
  obtain ⟨chunk, -, rfl⟩ := List.mem_map.mp h
  have hzip : (chunk.map idempotencyKey).zip chunk = chunk.map fun e => (idempotencyKey e, e) := by
    conv_lhs => rw [← List.map_id chunk, List.map_map, List.zip_map']
    rfl
  dsimp only
  rw [hzip, List.mem_map]
  constructor
  · rintro ⟨e, he, rfl⟩
    exact ⟨he, rfl⟩
  · rintro ⟨he, hkey⟩
    exact ⟨x.2, he, Prod.ext hkey.symm rfl⟩

theorem mem_of_mem_batch {config : RouterConfig} {events : List SorobanEvent} {batch : DeliveryBatch}
    {e : SorobanEvent} (h : batch ∈ config.batch events) (he : e ∈ batch.events) : e ∈ events := by
  rw [← flatMap_batch config events]
  exact List.mem_flatMap.mpr ⟨batch, h, he⟩

/-! ### What a call comes to -/

section
variable {router : EventRouter F} {conditions : ℕ → Conditions F} {limiter : RateLimiter F}
  {events : List SorobanEvent} {d : String} {call : Call F}

/-- A sink comes to events of the destination only, under their keys. -/
theorem mem_attemptedEach {batches : List DeliveryBatch} {x : String × SorobanEvent}
    (h : x ∈ attemptedEach conditions (router.deliverEach conditions 0 limiter batches)) :
    ∃ batch ∈ batches, x ∈ batch.idempotencyKeys.zip batch.events := by
  obtain ⟨⟨delivery, k⟩, hdelivery, hx⟩ := List.mem_flatMap.mp h
  obtain ⟨i, -, hx⟩ := List.mem_flatMap.mp hx
  refine ⟨delivery.batch, ?_, mem_reachedBy hx⟩
  have hmem := List.mem_map_of_mem (f := fun x => x.batch) (List.fst_mem_of_mem_zipIdx hdelivery)
  rwa [map_batch_deliveries] at hmem

theorem mem_attemptedCall {x : String × SorobanEvent} (h : x ∈ attemptedCall d call) :
    x.2 ∈ call.events ∧ x.1 = idempotencyKey x.2 := by
  rw [attemptedCall] at h
  split at h
  · next deliveries hlookup =>
    obtain ⟨l₁, l₂, hroute, -⟩ := List.lookup_eq_some_iff.mp hlookup
    have hmem : (d, deliveries) ∈ call.router.route call.world call.events := by
      rw [hroute]
      exact List.mem_append_right _ List.mem_cons_self
    obtain ⟨-, limiter, -, rfl⟩ := mem_route_iff.mp hmem
    obtain ⟨batch, hbatch, hx⟩ := mem_attemptedEach h
    obtain ⟨he, hkey⟩ := (mem_zip_batch hbatch).mp hx
    exact ⟨List.mem_of_mem_filter (mem_of_mem_batch hbatch he), hkey⟩
  · cases h

/-- What is reported as delivered was come to. -/
theorem mem_attemptedEach_of_delivered {e : SorobanEvent} (he : e ∈ events)
    (h : outcome (router.deliverEach conditions 0 limiter (router.config.batch events)) =
      .delivered) : (idempotencyKey e, e) ∈ attemptedEach conditions
        (router.deliverEach conditions 0 limiter (router.config.batch events)) := by
  rw [← flatMap_batch router.config events] at he
  obtain ⟨batch, hbatch, he⟩ := List.mem_flatMap.mp he
  obtain ⟨k, hk⟩ := List.mem_iff_getElem?.mp hbatch
  have hdelivery : (router.deliverEach conditions 0 limiter (router.config.batch events))[k]? =
      some (router.deliver (router.limiterBefore conditions limiter (router.config.batch events) k)
        (conditions k) batch) := by
    rw [getElem?_deliveries, hk, Option.map_some]
  have hstatus := eq_delivered_of_lastStatus (outcome_eq _ ▸ h) _
    (List.mem_map_of_mem (List.mem_of_getElem? hdelivery))
  obtain ⟨i, hi, hok⟩ := exists_ok_of_delivered hstatus
  refine List.mem_flatMap.mpr ⟨(_, k), List.mk_mem_zipIdx_iff_getElem?.mpr hdelivery, ?_⟩
  refine List.mem_flatMap.mpr ⟨i, List.mem_range.mpr hi, ?_⟩
  rw [reachedBy_of_ok hok, deliver_batch, mem_zip_batch hbatch]
  exact ⟨he, rfl⟩

theorem mem_attemptedCall_of_delivered {e : SorobanEvent}
    (he : e ∈ selected call.router.rules call.events d)
    (h : (d, DeliveryStatus.delivered) ∈ call.router.outcomes call.world call.events) :
    (idempotencyKey e, e) ∈ attemptedCall d call := by
  obtain ⟨⟨d', deliveries⟩, hroute, heq⟩ := List.mem_map.mp h
  obtain ⟨rfl, houtcome⟩ := Prod.mk.inj heq
  have hne : (call.router.route call.world call.events).lookup d' ≠ none := by
    intro hnone
    have hno := List.lookup_eq_none_iff.mp hnone _ hroute
    rw [bne_self_eq_false] at hno
    cases hno
  obtain ⟨deliveries', hlookup⟩ := Option.ne_none_iff_exists'.mp hne
  obtain ⟨l₁, l₂, hsplit, -⟩ := List.lookup_eq_some_iff.mp hlookup
  have hroute' : (d', deliveries') ∈ call.router.route call.world call.events := by
    rw [hsplit]
    exact List.mem_append_right _ List.mem_cons_self
  obtain ⟨-, limiter, hlimiter, rfl⟩ := mem_route_iff.mp hroute
  obtain ⟨-, limiter', hlimiter', rfl⟩ := mem_route_iff.mp hroute'
  rw [hlimiter] at hlimiter'
  cases hlimiter'
  rw [attemptedCall, hlookup]
  exact mem_attemptedEach_of_delivered he houtcome

end

/-! ### Exactly once -/

section
variable {E : DistinctEvents} {calls : List (Call F)} {d : String}

theorem eq_of_rpcId_eq (E : DistinctEvents) {e e' : SorobanEvent} (he : e ∈ E.events)
    (he' : e' ∈ E.events) (h : e.rpcId = e'.rpcId) : e = e' :=
  List.inj_on_of_nodup_map E.ids he he' h

theorem mem_sinkAfter (hcalls : ∀ call ∈ calls, call.events ⊆ E.events) {x : String × SorobanEvent}
    (h : x ∈ sinkAfter calls d) : x.2 ∈ E.events ∧ x.1 = idempotencyKey x.2 := by
  rw [sinkAfter_eq] at h
  obtain ⟨call, hcall, hx⟩ := List.mem_flatMap.mp (mem_of_mem_firstBy h)
  obtain ⟨he, hkey⟩ := mem_attemptedCall hx
  exact ⟨hcalls call hcall he, hkey⟩

/-- Whatever the keys, no event goes out twice. -/
theorem nodup_sinkAfter (hcalls : ∀ call ∈ calls, call.events ⊆ E.events) (d : String) :
    ((sinkAfter calls d).map (·.2.rpcId)).Nodup := by
  have hkeys : ((sinkAfter calls d).map Prod.fst).Nodup := by
    rw [sinkAfter_eq]
    exact nodup_firstBy _ _
  refine List.Nodup.map_on (fun x hx y hy heq => ?_) hkeys.of_map
  obtain ⟨hx, hxkey⟩ := mem_sinkAfter hcalls hx
  obtain ⟨hy, hykey⟩ := mem_sinkAfter hcalls hy
  have hsame : x.2 = y.2 := eq_of_rpcId_eq E hx hy heq
  exact Prod.ext (by rw [hxkey, hykey, hsame]) hsame

theorem timesPublished_eq_one (hkeys : ∀ e ∈ E.events, ∀ e' ∈ E.events, e.rpcId ≠ e'.rpcId →
      idempotencyKey e ≠ idempotencyKey e') (hcalls : ∀ call ∈ calls, call.events ⊆ E.events)
    {call : Call F} (hcall : call ∈ calls)
    (h : (d, DeliveryStatus.delivered) ∈ call.router.outcomes call.world call.events)
    {e : SorobanEvent} (he : e ∈ selected call.router.rules call.events d) :
    timesPublished calls d e = 1 := by
  have hmem := List.mem_flatMap.mpr ⟨call, hcall, mem_attemptedCall_of_delivered he h⟩
  obtain ⟨x, hx, hkey⟩ := exists_firstBy (f := Prod.fst) hmem
  rw [← sinkAfter_eq] at hx
  obtain ⟨hxE, hxkey⟩ := mem_sinkAfter hcalls hx
  have heE := hcalls call hcall (List.mem_of_mem_filter he)
  -- the event under this key is the event itself
  have hid : x.2.rpcId = e.rpcId := by
    by_contra hne
    exact hkeys _ hxE _ heE hne (hxkey.symm.trans hkey)
  refine List.count_eq_one_of_mem (nodup_sinkAfter hcalls d) ?_
  rw [← hid]
  exact List.mem_map_of_mem hx

/-- The keys identify the events exactly when no two of them share the ledger, the transaction and
    the contract. -/
theorem keysIdentify_iff (F : Type) (E : DistinctEvents) : KeysIdentify F E ↔
    ∀ e ∈ E.events, ∀ e' ∈ E.events, e.rpcId ≠ e'.rpcId → ¬(e.ledger = e'.ledger ∧
      e.txHash ++ ":" ++ e.contractId = e'.txHash ++ ":" ++ e'.contractId) := by
  constructor
  · intro h e he e' he' hne hsame
    exact h.keys e he e' he' hne (idempotencyKey_eq_iff.mpr hsame)
  · intro h
    have hkeys : ∀ e ∈ E.events, ∀ e' ∈ E.events, e.rpcId ≠ e'.rpcId →
        idempotencyKey e ≠ idempotencyKey e' :=
      fun e he e' he' hne hsame => h e he e' he' hne (idempotencyKey_eq_iff.mp hsame)
    refine ⟨hkeys, fun calls hcalls d e _ => ?_, fun calls hcalls call hcall d hd e he => ?_⟩
    · exact List.nodup_iff_count_le_one.mp (nodup_sinkAfter hcalls d) _
    · exact timesPublished_eq_one hkeys hcalls hcall hd he

end

end

/-! ### Two events of one contract in one transaction -/

def eventAt (id : String) : SorobanEvent := { transferAt 1 with rpcId := some id }

def twoEvents : DistinctEvents where
  events := [eventAt "1-0", eventAt "1-1"]
  ids := by decide

/-- SQS answers, and both go in one batch. -/
def oneBatch : Call ℕ where
  router := { sqsRouter with config := { sqsRouter.config with maxBatchSize := 10 } }
  world _ _ := { elapsed := 0, answer := fun _ => ⟨.ok (), fun _ => true⟩, park := .ok () }
  events := twoEvents.events

/-- The batch is delivered, and the second event never goes out. -/
theorem not_keysIdentify_twoEvents : ¬KeysIdentify ℕ twoEvents := by
  intro h
  have hone := h.exactlyOnce [oneBatch] (by
    intro call hcall
    rw [List.mem_singleton.mp hcall]
    exact List.Subset.refl _) oneBatch (List.mem_singleton.mpr rfl) "sqs" (by decide +kernel)
    (eventAt "1-1") (List.mem_cons_of_mem _ List.mem_cons_self)
  revert hone
  decide +kernel

end SorobanPulse.Routing
