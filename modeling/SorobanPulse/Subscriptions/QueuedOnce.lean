import SorobanPulse.Lib.Run
import SorobanPulse.Outbound.SsrfGuard
import SorobanPulse.Subscriptions.DeliveryQueue

/-! Is each event queued once for each subscription?

    A subscription takes two statements, and so does an event:

        create_subscription   INSERT subscriptions ─────────── INSERT delivery_queue (history)
        indexer                       INSERT events ──── enqueue_event

    As drawn, the event is queued twice: the history holds it already, and its own INSERT finds the
    subscription already. It is so whenever each pair starts before the other one ends. Never is an
    event missed. -/

namespace SorobanPulse.Subscriptions
open Events Outbound Lib

/-- The tables, the subscriptions inserted without their history, the events stored and not yet
    announced. -/
structure QueueState where
  tables : Tables
  creating : List Subscription := []
  announcing : List Event := []

inductive QueueAction where
  | insertSubscription (id : ℕ) (body : CreateSubscriptionRequest)
  | enqueueHistory (sub : Subscription) (now : Time)
  | commitEvent (event : Event)
  | enqueueEvent (event : Event) (now : Time)

def QueueState.addSubscription (s : QueueState) (sub : Subscription) : QueueState :=
  { s with
    tables := { s.tables with subscriptions := s.tables.subscriptions ++ [sub] }
    creating := sub :: s.creating }

def QueueState.addEvent (s : QueueState) (event : Event) : QueueState :=
  { s with
    tables := { s.tables with events := s.tables.events ++ [event] }
    announcing := event :: s.announcing }

variable (crate : UrlCrate) (setting : Option String) (config : SubscriptionConfig)

/-- One statement; new ids are new. -/
def QueueState.step (s : QueueState) : QueueAction → Option QueueState
  | .insertSubscription id body =>
    match newSubscription crate setting config id body with
    | .ok sub =>
      if id ∈ s.tables.subscriptions.map (·.id) then none else some (s.addSubscription sub)
    | .error _ => none
  | .enqueueHistory sub now =>
    if sub ∈ s.creating then
      some { s with tables := s.tables.enqueueHistory now sub, creating := s.creating.erase sub }
    else none
  | .commitEvent event =>
    if event.id ∈ s.tables.events.map (·.id) then none else some (s.addEvent event)
  | .enqueueEvent event now =>
    if event ∈ s.announcing then
      some { s with
        tables := s.tables.enqueueEvent now event.id event.ledger
        announcing := s.announcing.erase event }
    else none

/-! ### Once -/

/-- An active subscription asks for an event. -/
structure Asks (t : Tables) (sub : Subscription) (event : Event) : Prop where
  sub_mem : sub ∈ t.subscriptions
  event_mem : event ∈ t.events
  active : sub.status = .active
  ledger : sub.fromLedger ≤ event.ledger

/-- Every event is queued once for every active subscription that asks for it. -/
def ExactlyOnce (t : Tables) : Prop :=
  ∀ sub event, Asks t sub event → t.queued sub.id event.id = 1

/-- All operations have finished. -/
def QueueState.Finished (s : QueueState) : Prop := s.creating = [] ∧ s.announcing = []

/-- From tables in which it is so, every run that finishes queues every event once. -/
def QueuedOnce : Prop :=
  ∀ (tables : Tables) (actions : List QueueAction) (t : QueueState),
    tables.Consistent → ExactlyOnce tables →
      AnyRun (QueueState.step crate setting config) { tables } actions t → t.Finished →
        ExactlyOnce t.tables

/-- No event is announced while a subscription that asks for it waits for its history, and no
    history is queued while an event that it holds waits to be announced. -/
def Apart (s : QueueState) : QueueAction → Prop
  | .enqueueHistory sub _ => ∀ event ∈ s.announcing, event.ledger < sub.fromLedger
  | .enqueueEvent event _ => ∀ sub ∈ s.creating, event.ledger < sub.fromLedger
  | _ => True

/-- The rows that should be there: one, unless the subscription or the event is under way. -/
def QueueState.owed (s : QueueState) (sub : Subscription) (event : Event) : ℕ :=
  if sub ∈ s.creating ∨ event ∈ s.announcing then 0 else 1

/-- What holds in every run. -/
structure QueueState.Inv (s : QueueState) : Prop where
  keys : s.tables.Consistent
  creating : ∀ sub ∈ s.creating, sub ∈ s.tables.subscriptions ∧ sub.status = .active
  announcing : ∀ event ∈ s.announcing, event ∈ s.tables.events
  creating_nodup : s.creating.Nodup
  announcing_nodup : s.announcing.Nodup
  /-- No event is missed. -/
  owed : ∀ sub event, Asks s.tables sub event →
    s.owed sub event ≤ s.tables.queued sub.id event.id

/-- And none is queued too often. -/
def QueueState.Exact (s : QueueState) : Prop :=
  ∀ sub event, Asks s.tables sub event → s.tables.queued sub.id event.id = s.owed sub event

section
variable {crate setting config} {s t : QueueState} {action : QueueAction} {tables : Tables}
  {now : Time} {sub sub' : Subscription} {event event' : Event}

/-! ### Keys -/

theorem Tables.Consistent.sub_ext (h : tables.Consistent) (hsub : sub ∈ tables.subscriptions)
    (hsub' : sub' ∈ tables.subscriptions) (hid : sub.id = sub'.id) : sub = sub' :=
  List.inj_on_of_nodup_map h.subscriptionIds hsub hsub' hid

theorem Tables.Consistent.event_ext (h : tables.Consistent) (hevent : event ∈ tables.events)
    (hevent' : event' ∈ tables.events) (hid : event.id = event'.id) : event = event' :=
  List.inj_on_of_nodup_map h.eventIds hevent hevent' hid

/-- The ids of new rows are new. -/
theorem itemIds_enqueue (now : Time) (hids : (tables.deliveryQueue.map (·.id)).Nodup)
    (hbound : ∀ item ∈ tables.deliveryQueue, item.id < tables.nextItemId)
    (rows : List (ℕ × ℕ × ℤ)) :
    ((tables.enqueue now rows).deliveryQueue.map (·.id)).Nodup ∧
      ∀ item ∈ (tables.enqueue now rows).deliveryQueue,
        item.id < (tables.enqueue now rows).nextItemId := by
  -- the new ids are those from nextItemId on
  have hnew : ((tables.enqueue now rows).deliveryQueue.map (·.id)) =
      tables.deliveryQueue.map (·.id) ++
        (List.range' 0 rows.length).map (tables.nextItemId + ·) := by
    rw [Tables.enqueue, List.map_append, List.map_map, ← List.zipIdx_map_snd 0 rows, List.map_map]
    rfl
  have hmem : ∀ id, id ∈ (List.range' 0 rows.length).map (tables.nextItemId + ·) →
      tables.nextItemId ≤ id ∧ id < tables.nextItemId + rows.length := by
    intro id hid
    obtain ⟨i, hi, rfl⟩ := List.mem_map.mp hid
    rw [List.mem_range'_1] at hi
    omega
  refine ⟨?_, ?_⟩
  · rw [hnew, List.nodup_append]
    refine ⟨hids, List.Nodup.map (add_right_injective _) List.nodup_range', ?_⟩
    rintro id hold id' hid' rfl
    obtain ⟨item, hitem, rfl⟩ := List.mem_map.mp hold
    exact absurd (hbound item hitem) (not_lt.mpr (hmem _ hid').1)
  · intro item hitem
    have hid : item.id ∈ (tables.enqueue now rows).deliveryQueue.map (·.id) :=
      List.mem_map_of_mem hitem
    rw [hnew, List.mem_append] at hid
    rw [Tables.enqueue]
    rcases hid with hold | hlater
    · -- an old id is below the old counter, which only grows
      obtain ⟨item', hitem', heq⟩ := List.mem_map.mp hold
      have hlt := hbound item' hitem'
      dsimp only at heq ⊢
      omega
    · exact (hmem _ hlater).2

/-- Rows may be queued that name a subscription and an event. -/
theorem Tables.Consistent.enqueue (h : tables.Consistent) {rows : List (ℕ × ℕ × ℤ)}
    (hrows : ∀ row ∈ rows, (∃ sub ∈ tables.subscriptions, sub.id = row.1) ∧
      ∃ event ∈ tables.events, event.id = row.2.1) : (tables.enqueue now rows).Consistent := by
  have hnew : ∀ item ∈ (tables.enqueue now rows).deliveryQueue, item ∈ tables.deliveryQueue ∨
      ∃ row ∈ rows, item.subscriptionId = row.1 ∧ item.eventId = row.2.1 := by
    intro item hitem
    rw [Tables.enqueue, List.mem_append, List.mem_map] at hitem
    rcases hitem with hold | ⟨⟨row, i⟩, hmem, rfl⟩
    · exact .inl hold
    · exact .inr ⟨row, (List.mem_zipIdx' hmem).2 ▸ List.getElem_mem _, rfl, rfl⟩
  obtain ⟨hids, hbound⟩ := itemIds_enqueue now h.itemIds h.itemId_lt rows
  refine ⟨h.subscriptionIds, h.eventIds, hids, hbound, ?_, ?_⟩
  · intro item hitem
    rcases hnew item hitem with hold | ⟨row, hrow, hid, _⟩
    · exact h.subscription item hold
    · rw [hid]
      exact (hrows row hrow).1
  · intro item hitem
    rcases hnew item hitem with hold | ⟨row, hrow, _, hid⟩
    · exact h.event item hold
    · rw [hid]
      exact (hrows row hrow).2

theorem Tables.Consistent.enqueueHistory (h : tables.Consistent)
    (hsub : sub ∈ tables.subscriptions) : (tables.enqueueHistory now sub).Consistent := by
  apply h.enqueue
  intro row hrow
  obtain ⟨event, hevent, rfl⟩ := List.mem_map.mp hrow
  rw [Keyset.mem_sortOn, List.mem_filter] at hevent
  exact ⟨⟨sub, hsub, rfl⟩, event, hevent.1, rfl⟩

theorem Tables.Consistent.enqueueEvent (h : tables.Consistent) (hevent : event ∈ tables.events) :
    (tables.enqueueEvent now event.id event.ledger).Consistent := by
  apply h.enqueue
  intro row hrow
  obtain ⟨sub, hsub, rfl⟩ := List.mem_map.mp hrow
  exact ⟨⟨sub, (List.mem_filter.mp hsub).1, rfl⟩, event, hevent, rfl⟩

theorem consistent_addSubscription (h : s.tables.Consistent)
    (hnew : sub.id ∉ s.tables.subscriptions.map (·.id)) :
    (s.addSubscription sub).tables.Consistent := by
  refine ⟨?_, h.eventIds, h.itemIds, h.itemId_lt, ?_, h.event⟩
  · rw [QueueState.addSubscription, List.map_append, List.nodup_append]
    refine ⟨h.subscriptionIds, List.nodup_singleton _, ?_⟩
    rintro id hid id' hid' rfl
    cases List.mem_singleton.mp hid'
    exact hnew hid
  · intro item hitem
    obtain ⟨sub', hsub', hid⟩ := h.subscription item hitem
    exact ⟨sub', List.mem_append_left _ hsub', hid⟩

theorem consistent_addEvent (h : s.tables.Consistent)
    (hnew : event.id ∉ s.tables.events.map (·.id)) : (s.addEvent event).tables.Consistent := by
  refine ⟨h.subscriptionIds, ?_, h.itemIds, h.itemId_lt, h.subscription, ?_⟩
  · rw [QueueState.addEvent, List.map_append, List.nodup_append]
    refine ⟨h.eventIds, List.nodup_singleton _, ?_⟩
    rintro id hid id' hid' rfl
    cases List.mem_singleton.mp hid'
    exact hnew hid
  · intro item hitem
    obtain ⟨event', hevent', hid⟩ := h.event item hitem
    exact ⟨event', List.mem_append_left _ hevent', hid⟩

/-- Nothing is queued for a subscription or an event that is not there. -/
theorem queued_eq_zero (h : tables.Consistent) (k e : ℕ)
    (hnew : k ∉ tables.subscriptions.map (·.id) ∨ e ∉ tables.events.map (·.id)) :
    tables.queued k e = 0 := by
  rw [Tables.queued, List.countP_eq_zero]
  intro item hitem
  simp only [decide_eq_true_eq]
  rintro ⟨rfl, rfl⟩
  rcases hnew with hnew | hnew
  · obtain ⟨sub, hsub, hid⟩ := h.subscription item hitem
    exact hnew (hid ▸ List.mem_map_of_mem hsub)
  · obtain ⟨event, hevent, hid⟩ := h.event item hitem
    exact hnew (hid ▸ List.mem_map_of_mem hevent)

theorem newSubscription_eq_ok {id : ℕ} {body : CreateSubscriptionRequest}
    (h : newSubscription crate setting config id body = .ok sub) :
    sub.id = id ∧ sub.status = .active := by
  rw [newSubscription] at h
  split at h
  · cases h
  · obtain ⟨_, _, h⟩ := bind_eq_ok h
    split at h
    · cases h
    · obtain ⟨_, _, h⟩ := bind_eq_ok h
      cases h
      exact ⟨rfl, rfl⟩

/-! ### One statement -/

/-- What a statement does. -/
theorem step_cases (h : s.step crate setting config action = some t) :
    (∃ sub, sub.status = .active ∧ sub.id ∉ s.tables.subscriptions.map (·.id) ∧
      (∃ id body, action = .insertSubscription id body) ∧ t = s.addSubscription sub) ∨
    (∃ sub now, action = .enqueueHistory sub now ∧ sub ∈ s.creating ∧
      t = { s with tables := s.tables.enqueueHistory now sub, creating := s.creating.erase sub }) ∨
    (∃ event, action = .commitEvent event ∧ event.id ∉ s.tables.events.map (·.id) ∧
      t = s.addEvent event) ∨
    ∃ event now, action = .enqueueEvent event now ∧ event ∈ s.announcing ∧
      t = { s with
        tables := s.tables.enqueueEvent now event.id event.ledger
        announcing := s.announcing.erase event } := by
  cases action with
  | insertSubscription id body =>
    rw [QueueState.step] at h
    split at h
    · next sub hsub =>
      obtain ⟨hid, hactive⟩ := newSubscription_eq_ok hsub
      split at h
      · cases h
      · next hnew =>
        cases h
        exact .inl ⟨sub, hactive, hid ▸ hnew, ⟨id, body, rfl⟩, rfl⟩
    · cases h
  | enqueueHistory sub now =>
    rw [QueueState.step, Option.ite_none_right_eq_some] at h
    exact .inr (.inl ⟨sub, now, rfl, h.1, (Option.some.inj h.2).symm⟩)
  | commitEvent event =>
    rw [QueueState.step, Option.ite_none_left_eq_some] at h
    exact .inr (.inr (.inl ⟨event, rfl, h.1, (Option.some.inj h.2).symm⟩))
  | enqueueEvent event now =>
    rw [QueueState.step, Option.ite_none_right_eq_some] at h
    exact .inr (.inr (.inr ⟨event, now, rfl, h.1, (Option.some.inj h.2).symm⟩))

/-- The statement finds the other half of a pair under way. -/
def Crossed (s : QueueState) (sub : Subscription) (event : Event) : QueueAction → Prop
  | .enqueueHistory sub' _ => sub' = sub ∧ event ∈ s.announcing
  | .enqueueEvent event' _ => event' = event ∧ sub ∈ s.creating
  | _ => False

theorem apart_iff (h : s.step crate setting config action = some t) (hinv : s.Inv) :
    Apart s action ↔ ∀ sub event, Asks s.tables sub event → ¬ Crossed s sub event action := by
  obtain ⟨_, _, _, ⟨_, _, rfl⟩, _⟩ | ⟨sub, now, rfl, hsub, _⟩ | ⟨_, rfl, _, _⟩ |
    ⟨event, now, rfl, hevent, _⟩ := step_cases h
  · exact iff_of_true trivial fun _ _ _ hcrossed => hcrossed
  · constructor
    · rintro hapart _ event hasks ⟨rfl, hevent⟩
      exact absurd hasks.ledger (not_le.mpr (hapart event hevent))
    · intro hfree event hevent
      by_contra hle
      obtain ⟨hmem, hactive⟩ := hinv.creating sub hsub
      exact hfree sub event ⟨hmem, hinv.announcing event hevent, hactive, not_lt.mp hle⟩ ⟨rfl, hevent⟩
  · exact iff_of_true trivial fun _ _ _ hcrossed => hcrossed
  · constructor
    · rintro hapart sub _ hasks ⟨rfl, hsub⟩
      exact absurd hasks.ledger (not_le.mpr (hapart sub hsub))
    · intro hfree sub hsub
      by_contra hle
      obtain ⟨hmem, hactive⟩ := hinv.creating sub hsub
      exact hfree sub event ⟨hmem, hinv.announcing event hevent, hactive, not_lt.mp hle⟩ ⟨rfl, hsub⟩

theorem owed_eq_zero (h : sub ∈ s.creating ∨ event ∈ s.announcing) : s.owed sub event = 0 := by
  rw [QueueState.owed, if_pos h]

theorem owed_eq_one_iff :
    s.owed sub event = 1 ↔ sub ∉ s.creating ∧ event ∉ s.announcing := by
  rw [QueueState.owed, ← not_or]
  split
  · next h => simp [h]
  · next h => simp [h]

theorem owed_le_one : s.owed sub event ≤ 1 := by
  rw [QueueState.owed]
  split
  · exact Nat.zero_le _
  · exact le_rfl

theorem owed_congr (hsub : sub ∈ t.creating ↔ sub ∈ s.creating)
    (hevent : event ∈ t.announcing ↔ event ∈ s.announcing) :
    t.owed sub event = s.owed sub event := by
  simp only [QueueState.owed, hsub, hevent]

/-- What a statement does to the rows of a subscription and an event: the pair is new, or nothing
    changes, or a row is added that is owed unless the statement is crossed. -/
theorem step_pair (h : s.step crate setting config action = some t) (hinv : s.Inv)
    (hasks : Asks t.tables sub event) :
    (¬ Asks s.tables sub event ∧ t.tables.queued sub.id event.id = 0 ∧ t.owed sub event = 0) ∨
    (Asks s.tables sub event ∧ ¬ Crossed s sub event action ∧
      t.tables.queued sub.id event.id = s.tables.queued sub.id event.id ∧
      t.owed sub event = s.owed sub event) ∨
    Asks s.tables sub event ∧
      t.tables.queued sub.id event.id = s.tables.queued sub.id event.id + 1 ∧
      s.owed sub event = 0 ∧ (t.owed sub event = 1 ↔ ¬ Crossed s sub event action) := by
  obtain ⟨new, _, hnew, ⟨_, _, rfl⟩, rfl⟩ | ⟨sub', now, rfl, hsub', rfl⟩ | ⟨new, rfl, hnew, rfl⟩ |
    ⟨event', now, rfl, hevent', rfl⟩ := step_cases h
  · -- a subscription is created; if it is this one, the pair is new and its history is still to come
    rcases List.mem_append.mp hasks.sub_mem with hold | hlast
    · have hne : sub ≠ new := by
        rintro rfl
        exact hnew (List.mem_map_of_mem hold)
      refine .inr (.inl ⟨⟨hold, hasks.event_mem, hasks.active, hasks.ledger⟩, id, rfl, ?_⟩)
      exact owed_congr (by simp [QueueState.addSubscription, hne]) Iff.rfl
    · cases List.mem_singleton.mp hlast
      refine .inl ⟨fun hold => hnew (List.mem_map_of_mem hold.sub_mem), ?_, ?_⟩
      · exact queued_eq_zero hinv.keys _ _ (.inl hnew)
      · exact owed_eq_zero (.inl List.mem_cons_self)
  · -- the history of a subscription is queued
    have hold : Asks s.tables sub event :=
      ⟨hasks.sub_mem, hasks.event_mem, hasks.active, hasks.ledger⟩
    have hcount := queued_enqueueHistory now sub' hinv.keys hold.event_mem sub.id
    by_cases hsub : sub' = sub
    · -- it is this one, so it was owed the event, and still is one if the two were crossed
      subst hsub
      rw [if_pos ⟨rfl, hold.ledger⟩] at hcount
      refine .inr (.inr ⟨hold, hcount, owed_eq_zero (.inl hsub'), ?_⟩)
      rw [owed_eq_one_iff]
      simp [Crossed, hinv.creating_nodup.not_mem_erase]
    · have hid : sub'.id ≠ sub.id := by
        intro hid
        exact hsub (hinv.keys.sub_ext (hinv.creating _ hsub').1 hold.sub_mem hid)
      rw [if_neg (fun hboth => hid hboth.1), Nat.add_zero] at hcount
      refine .inr (.inl ⟨hold, fun hcrossed => hsub hcrossed.1, hcount, ?_⟩)
      exact owed_congr (List.mem_erase_of_ne (Ne.symm hsub)) Iff.rfl
  · -- an event is stored, which is the same from the other side
    rcases List.mem_append.mp hasks.event_mem with hold | hlast
    · have hne : event ≠ new := by
        rintro rfl
        exact hnew (List.mem_map_of_mem hold)
      refine .inr (.inl ⟨⟨hasks.sub_mem, hold, hasks.active, hasks.ledger⟩, id, rfl, ?_⟩)
      exact owed_congr Iff.rfl (by simp [QueueState.addEvent, hne])
    · cases List.mem_singleton.mp hlast
      refine .inl ⟨fun hold => hnew (List.mem_map_of_mem hold.event_mem), ?_, ?_⟩
      · exact queued_eq_zero hinv.keys _ _ (.inr hnew)
      · exact owed_eq_zero (.inr List.mem_cons_self)
  · -- an event is announced to the subscriptions
    have hold : Asks s.tables sub event :=
      ⟨hasks.sub_mem, hasks.event_mem, hasks.active, hasks.ledger⟩
    have hcount := queued_enqueueEvent now hinv.keys hold.sub_mem event'.id event.id
      event'.ledger
    by_cases hevent : event' = event
    · subst hevent
      rw [if_pos ⟨rfl, hold.active, hold.ledger⟩] at hcount
      refine .inr (.inr ⟨hold, hcount, owed_eq_zero (.inr hevent'), ?_⟩)
      rw [owed_eq_one_iff]
      simp [Crossed, hinv.announcing_nodup.not_mem_erase]
    · have hid : event'.id ≠ event.id := by
        intro hid
        exact hevent (hinv.keys.event_ext (hinv.announcing _ hevent') hold.event_mem hid)
      rw [if_neg (fun hboth => hid hboth.1), Nat.add_zero] at hcount
      refine .inr (.inl ⟨hold, fun hcrossed => hevent hcrossed.1, hcount, ?_⟩)
      exact owed_congr Iff.rfl (List.mem_erase_of_ne (Ne.symm hevent))

/-- Subscriptions and events stay. -/
theorem Asks.step (h : s.step crate setting config action = some t)
    (hasks : Asks s.tables sub event) : Asks t.tables sub event := by
  obtain ⟨hsub, hevent, hactive, hledger⟩ := hasks
  obtain ⟨_, _, _, _, rfl⟩ | ⟨_, _, _, _, rfl⟩ | ⟨_, _, _, rfl⟩ | ⟨_, _, _, _, rfl⟩ := step_cases h
  · exact ⟨List.mem_append_left _ hsub, hevent, hactive, hledger⟩
  · exact ⟨hsub, hevent, hactive, hledger⟩
  · exact ⟨hsub, List.mem_append_left _ hevent, hactive, hledger⟩
  · exact ⟨hsub, hevent, hactive, hledger⟩

/-! ### Runs -/

/-- What is owed is always there. -/
theorem inv_step (h : s.step crate setting config action = some t) (hinv : s.Inv) : t.Inv := by
  -- an owed row is there, or was queued by this very statement
  have howed : ∀ sub event, Asks t.tables sub event →
      t.owed sub event ≤ t.tables.queued sub.id event.id := by
    intro sub event hasks
    obtain ⟨_, _, hzero⟩ | ⟨hold, _, hcount, howed⟩ | ⟨_, hcount, _⟩ := step_pair h hinv hasks
    · omega
    · have := hinv.owed sub event hold
      omega
    · have : t.owed sub event ≤ 1 := owed_le_one
      omega
  obtain ⟨new, hactive, hnew, _, rfl⟩ | ⟨sub', now, rfl, hsub', rfl⟩ | ⟨new, rfl, hnew, rfl⟩ |
    ⟨event', now, rfl, hevent', rfl⟩ := step_cases h
  · -- a subscription is created and owed its history
    refine ⟨consistent_addSubscription hinv.keys hnew, ?_, hinv.announcing, ?_,
      hinv.announcing_nodup, howed⟩
    · intro sub hsub
      rcases List.mem_cons.mp hsub with rfl | hold
      · exact ⟨List.mem_append_right _ (List.mem_singleton_self _), hactive⟩
      · obtain ⟨hmem, hactive⟩ := hinv.creating sub hold
        exact ⟨List.mem_append_left _ hmem, hactive⟩
    · refine List.nodup_cons.mpr ⟨?_, hinv.creating_nodup⟩
      exact fun hmem => hnew (List.mem_map_of_mem (hinv.creating new hmem).1)
  · -- its history is queued, and it is owed no longer
    refine ⟨hinv.keys.enqueueHistory (hinv.creating _ hsub').1, ?_, hinv.announcing,
      hinv.creating_nodup.erase _, hinv.announcing_nodup, howed⟩
    exact fun sub hsub => hinv.creating sub (List.mem_of_mem_erase hsub)
  · -- the same for an event and its announcement
    refine ⟨consistent_addEvent hinv.keys hnew, hinv.creating, ?_, hinv.creating_nodup, ?_, howed⟩
    · intro event hevent
      rcases List.mem_cons.mp hevent with rfl | hold
      · exact List.mem_append_right _ (List.mem_singleton_self _)
      · exact List.mem_append_left _ (hinv.announcing event hold)
    · refine List.nodup_cons.mpr ⟨?_, hinv.announcing_nodup⟩
      exact fun hmem => hnew (List.mem_map_of_mem (hinv.announcing new hmem))
  · refine ⟨hinv.keys.enqueueEvent (hinv.announcing _ hevent'), hinv.creating, ?_,
      hinv.creating_nodup, hinv.announcing_nodup.erase _, howed⟩
    exact fun event hevent => hinv.announcing event (List.mem_of_mem_erase hevent)

/-- No row too many before, and the statement not crossed: that is so if and only if there is none
    after it. -/
theorem exact_step_iff (h : s.step crate setting config action = some t) (hinv : s.Inv) :
    t.Exact ↔ s.Exact ∧ Apart s action := by
  rw [apart_iff h hinv]
  constructor
  · intro hexact
    refine ⟨?_, ?_⟩
    · intro sub event hasks
      have hcount := hexact sub event (hasks.step h)
      obtain ⟨hnew, _⟩ | ⟨_, _, hsame, howed⟩ | ⟨_, hadd, hzero, _⟩ :=
        step_pair h hinv (hasks.step h)
      · exact absurd hasks hnew
      · omega
      · have : t.owed sub event ≤ 1 := owed_le_one
        omega
    · intro sub event hasks
      have hcount := hexact sub event (hasks.step h)
      obtain ⟨hnew, _⟩ | ⟨_, hfree, _⟩ | ⟨_, hadd, hzero, hfree⟩ := step_pair h hinv (hasks.step h)
      · exact absurd hasks hnew
      · exact hfree
      · have : t.owed sub event ≤ 1 := owed_le_one
        exact hfree.mp (by omega)
  · rintro ⟨hexact, hfree⟩ sub event hasks
    obtain ⟨_, hnone, hzero⟩ | ⟨hold, _, hsame, howed⟩ | ⟨hold, hadd, hzero, hiff⟩ :=
      step_pair h hinv hasks
    · rw [hnone, hzero]
    · rw [hsame, howed, hexact sub event hold]
    · rw [hadd, hexact sub event hold, hzero, hiff.mpr (hfree sub event hold)]

theorem inv_init (hkeys : tables.Consistent) (hexact : ExactlyOnce tables) :
    QueueState.Inv { tables } where
  keys := hkeys
  creating := by
    rintro _ ⟨⟩
  announcing := by
    rintro _ ⟨⟩
  creating_nodup := List.nodup_nil
  announcing_nodup := List.nodup_nil
  owed := fun sub event hasks => owed_le_one.trans (hexact sub event hasks).ge

/-- When all operations have finished, one row is owed for each pair. -/
theorem exact_iff_exactlyOnce (h : s.Finished) : s.Exact ↔ ExactlyOnce s.tables := by
  have howed : ∀ sub event, s.owed sub event = 1 := by
    intro sub event
    rw [owed_eq_one_iff, h.1, h.2]
    exact ⟨List.not_mem_nil, List.not_mem_nil⟩
  simp only [QueueState.Exact, ExactlyOnce, howed]

end

/-- A run that finishes has queued every event once if and only if no event is announced between the
    two statements of a subscription that asks for it, and no history is queued between an event's
    commit and its announcement. -/
theorem exactlyOnce_iff {tables : Tables} {actions : List QueueAction} {t : QueueState}
    (hkeys : tables.Consistent) (hexact : ExactlyOnce tables)
    (hrun : AnyRun (QueueState.step crate setting config) { tables } actions t)
    (hfinished : t.Finished) :
    ExactlyOnce t.tables ↔ Run (QueueState.step crate setting config) Apart { tables } actions t := by
  rw [← exact_iff_exactlyOnce hfinished]
  refine hrun.final_iff inv_step exact_step_iff (inv_init hkeys hexact) ?_
  exact (exact_iff_exactlyOnce ⟨rfl, rfl⟩).mpr hexact

/-- No event is ever missed. -/
theorem one_le_queued {tables : Tables} {actions : List QueueAction} {t : QueueState}
    {sub : Subscription} {event : Event} (hkeys : tables.Consistent) (hexact : ExactlyOnce tables)
    (hrun : AnyRun (QueueState.step crate setting config) { tables } actions t)
    (hfinished : t.Finished) (hasks : Asks t.tables sub event) :
    1 ≤ t.tables.queued sub.id event.id := by
  have hinv := hrun.invariant (fun _ h hs => inv_step h hs) (inv_init hkeys hexact)
  have howed : t.owed sub event = 1 := by
    rw [owed_eq_one_iff, hfinished.1, hfinished.2]
    exact ⟨List.not_mem_nil, List.not_mem_nil⟩
  exact howed ▸ hinv.owed sub event hasks

/-! ### One subscription, one event -/

def sampleConfig : SubscriptionConfig where
  environment := .Production
  subscriptionDefaultBatchSize := 10
  subscriptionDefaultBatchTimeoutMs := 5000

def sampleBody : CreateSubscriptionRequest where
  callbackUrl := "https://example.com/hook"
  fromLedger := 100

theorem consistent_empty : Tables.Consistent {} where
  subscriptionIds := List.nodup_nil
  eventIds := List.nodup_nil
  itemIds := List.nodup_nil
  itemId_lt := by
    rintro _ ⟨⟩
  subscription := by
    rintro _ ⟨⟩
  event := by
    rintro _ ⟨⟩

theorem exactlyOnce_empty : ExactlyOnce {} := by
  rintro _ _ ⟨hmem, _⟩
  cases hmem

/-- The event is announced between the two statements of the subscription. -/
theorem not_queuedOnce_crossed : ¬ QueuedOnce sampleCrate none sampleConfig := by
  intro h
  have hrun : AnyRun (QueueState.step sampleCrate none sampleConfig) { tables := {} }
      [.insertSubscription 1 sampleBody, .commitEvent sampleEvent, .enqueueEvent sampleEvent 0,
        .enqueueHistory sampleSubscription 1]
      { tables := {
          subscriptions := [sampleSubscription]
          events := [sampleEvent]
          deliveryQueue := [sampleItem 0 0, sampleItem 1 1]
          nextItemId := 2 } } := anyRun_iff_exec.mpr rfl
  have honce := h _ _ _ consistent_empty exactlyOnce_empty hrun ⟨rfl, rfl⟩ sampleSubscription
    sampleEvent ⟨List.mem_singleton_self _, List.mem_singleton_self _, rfl, by decide⟩
  exact absurd honce (by decide)

/-- One after the other, they queue the event once. -/
theorem exactlyOnce_apart :
    ExactlyOnce {
      subscriptions := [sampleSubscription]
      events := [sampleEvent]
      deliveryQueue := [sampleItem 0 1]
      nextItemId := 1 } := by
  have hrun : Run (QueueState.step sampleCrate none sampleConfig) Apart { tables := {} }
      [.insertSubscription 1 sampleBody, .enqueueHistory sampleSubscription 0,
        .commitEvent sampleEvent, .enqueueEvent sampleEvent 1]
      { tables := {
          subscriptions := [sampleSubscription]
          events := [sampleEvent]
          deliveryQueue := [sampleItem 0 1]
          nextItemId := 1 } } := by
    refine .cons trivial rfl (.cons ?_ rfl (.cons trivial rfl (.cons ?_ rfl (.nil _))))
    · rintro _ ⟨⟩
    · rintro _ ⟨⟩
  exact (exactlyOnce_iff sampleCrate none sampleConfig consistent_empty exactlyOnce_empty
    (anyRun_iff_exec.mpr rfl) ⟨rfl, rfl⟩).mpr hrun

end SorobanPulse.Subscriptions
