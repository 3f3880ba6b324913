import SorobanPulse.Subscriptions.DeliverPending

/-! Are the due rows of a batch subscription sent in batches?

        due rows of s:  r₁ r₂ r₃ … rₙ        batch_size = 10
        expected        POST [r₁ … r₁₀]  POST [r₁₁ … r₂₀] …
        sent            POST [r₁]  POST [r₂]  POST [r₃] …

    The groups of a cycle are keyed by the id of the queue row instead of the subscription's. A cycle
    ends at the first statement that fails: what it has sent by then may be sent again. -/

namespace SorobanPulse.Subscriptions
open Lib

/-! ### A cycle in which statements fail -/

/-- An UPDATE of the queue. -/
structure Statement where
  ids : List ℕ
  change : QueueItem → QueueItem

/-- What a reply does to each row that was sent. -/
def settleItem (now : Time) : Reply → QueueItem → QueueItem
  | .success => fun item => { item with status := .delivered }
  | .status text => scheduleRetry now s!"HTTP {text}"
  | .error text => scheduleRetry now text

/-- One statement for all that was delivered, or one for each row to retry. -/
def Post.statements (now : Time) (post : Post) (reply : Reply) : List Statement :=
  match reply with
  | .success => [⟨post.queueIds, settleItem now reply⟩]
  | _ => post.queueIds.map fun id => ⟨[id], settleItem now reply⟩

/-- The tables after a cycle, the requests that were made, and how many rows were delivered; `none`
    if a statement failed. -/
structure Cycle where
  tables : Tables
  sent : List Post
  delivered : Option ℕ

section
variable (fails : ℕ → Bool) (now : Time) (reply : Post → Reply)

/-- Statements up to one that fails; the `k`th statement of the cycle comes next. -/
def Tables.execute (k : ℕ) (t : Tables) : List Statement → Tables × Option ℕ
  | [] => (t, some k)
  | s :: rest =>
    if fails k then (t, none) else Tables.execute (k + 1) (t.updateItems s.ids s.change) rest

def deliverPosts (k : ℕ) (t : Tables) : List Post → Cycle
  | [] => ⟨t, [], some 0⟩
  | post :: rest =>
    match t.execute fails k (post.statements now (reply post)) with
    | (t, none) => ⟨t, [post], none⟩
    | (t, some k) =>
      let cycle := deliverPosts k t rest
      let count := if reply post = .success then post.queueIds.length else 0
      { cycle with sent := post :: cycle.sent, delivered := cycle.delivered.map (count + ·) }

/-- `deliver_pending`; its first statement is the SELECT, which finds `scan`. -/
def deliverPending (t : Tables) (scan : List Row) (groups : List (List Row)) : Cycle :=
  if fails 0 then ⟨t, [], none⟩
  else deliverPosts fails now reply 1 t (posts (selected scan) groups)

end

/-! ### What is expected -/

/-- The rows of one subscription. -/
def rowsOf (sub : Subscription) (rows : List Row) : List Row := rows.filter (·.sub.id = sub.id)

/-- The request that sends these rows to their subscription. -/
def Subscription.batchOf (sub : Subscription) (part : List Row) : Post where
  subscriptionId := sub.id
  callbackUrl := sub.callbackUrl
  payload := .batch (part.map fun row => (row.event.id, row.item.ledger, row.event.eventData))
    sub.batchSize
  timeoutMs := sub.batchTimeoutMs
  queueIds := part.map (·.item.id)

/-- The selected rows of a batch subscription went out in as few full batches as possible, and each
    is settled as its batch was answered. -/
structure SentInBatches (now : Time) (reply : Post → Reply) (rows : List Row) (cycle : Cycle)
    (sub : Subscription) : Prop where
  batches : ∀ post ∈ cycle.sent, post.subscriptionId = sub.id →
    ∃ part, post = sub.batchOf part ∧ (∀ row ∈ part, row ∈ rowsOf sub rows) ∧
      part.Pairwise (fun a b => a.item.ledger ≤ b.item.ledger) ∧ (part.length : ℤ) ≤ sub.batchSize
  few : (cycle.sent.filter (·.subscriptionId = sub.id)).length =
    (rowsOf sub rows).length ⌈/⌉ sub.batchSize.toNat
  complete : ∀ row ∈ rowsOf sub rows, ∃ post ∈ cycle.sent, row.item.id ∈ post.queueIds
  settled : ∀ row ∈ rowsOf sub rows, ∀ post ∈ cycle.sent, row.item.id ∈ post.queueIds →
    ∀ item ∈ cycle.tables.deliveryQueue, item.id = row.item.id →
      item = settleItem now (reply post) row.item

def ActiveBatch (t : Tables) (sub : Subscription) : Prop :=
  sub ∈ t.subscriptions ∧ sub.status = .active ∧ sub.subscriptionType = .batch

/-- A row for each batch: the subscription's size is 1, or one row is all that it has. -/
def OneEach (t : Tables) (rows : List Row) : Prop :=
  ∀ sub, ActiveBatch t sub → rowsOf sub rows ≠ [] →
    1 ≤ sub.batchSize ∧ ((rowsOf sub rows).length = 1 ∨ sub.batchSize = 1)

/-! ### Requests -/

/-- The rows that the request made for a batch row carries. -/
def carried (row : Row) : List Row := if row.sub.batchSize = 0 then [] else [row]

/-- The request for a row. -/
def rowPost (row : Row) : Post :=
  if isBatch row then row.sub.batchOf (carried row) else singlePost row

section
variable {t : Tables} {now : Time} {scan rows : List Row} {groups : List (List Row)} {row r : Row}
  {sub : Subscription} {fails : ℕ → Bool} {reply : Post → Reply} {k : ℕ} {item : QueueItem}

theorem batchPost_singleton : batchPost [row] = some (row.sub.batchOf (carried row)) := by
  have hsent : (if row.sub.batchSize < 0 then [row] else [row].take row.sub.batchSize.toNat) =
      carried row := by
    rw [carried]
    rcases lt_trichotomy row.sub.batchSize 0 with h | h | h
    · rw [if_pos h, if_neg h.ne]
    · rw [if_neg h.not_lt, if_pos h, h]
      rfl
    · rw [if_neg h.not_gt, if_neg h.ne', List.take_of_length_le]
      rw [List.length_singleton]
      omega
  rw [batchPost, hsent]
  rfl

@[simp] theorem subscriptionId_rowPost : (rowPost row).subscriptionId = row.sub.id := by
  rw [rowPost]
  split <;> rfl

theorem eq_of_mem_queueIds_rowPost {id : ℕ} (h : id ∈ (rowPost row).queueIds) : id = row.item.id := by
  rw [rowPost] at h
  split at h
  · simp only [Subscription.batchOf, carried] at h
    split at h
    · cases h
    · simpa using h
  · simpa [singlePost] using h

theorem queueIds_rowPost (h : isBatch row = true → 1 ≤ row.sub.batchSize) :
    (rowPost row).queueIds = [row.item.id] := by
  rw [rowPost]
  split
  · next hbatch =>
    have hne : row.sub.batchSize ≠ 0 := by
      have := h hbatch
      omega
    rw [Subscription.batchOf, carried, if_neg hne]
    rfl
  · rfl

theorem filter_item_id (hids : (rows.map (·.item.id)).Nodup) (hrow : row ∈ rows) :
    rows.filter (·.item.id = row.item.id) = [row] := by
  have hnodup : rows.Nodup := hids.of_map _
  have hinj := List.inj_on_of_nodup_map hids
  have heq : rows.filter (·.item.id = row.item.id) = rows.filter (· = row) := by
    refine List.filter_congr fun other hother => ?_
    rw [decide_eq_decide]
    exact ⟨fun h => hinj hother hrow h, fun h => by rw [h]⟩
  rw [heq, List.filter_eq, List.count_eq_one_of_mem hnodup hrow, List.replicate_one]

theorem batchGroups_eq (hids : (rows.map (·.item.id)).Nodup) :
    batchGroups rows = rows.map fun row => [row] := by
  rw [batchGroups, hids.dedup, List.map_map]
  exact List.map_congr_left fun row hrow => filter_item_id hids hrow

theorem eq_map_flatten {l : List (List Row)} (h : ∀ g ∈ l, ∃ row, g = [row]) :
    l = l.flatten.map fun row => [row] := by
  induction l with
  | nil => rfl
  | cons g l ih =>
    obtain ⟨row, rfl⟩ := h g List.mem_cons_self
    rw [List.flatten_cons, List.singleton_append, List.map_cons,
      ← ih fun g hg => h g (List.mem_cons_of_mem _ hg)]

/-- Every selected row has a request of its own, the single ones first. -/
theorem exists_order (hids : (rows.map (·.item.id)).Nodup)
    (hgroups : groups.Perm (batchGroups (rows.filter isBatch))) :
    ∃ batches, batches.Perm (rows.filter isBatch) ∧
      posts rows groups = (rows.filter (!isBatch ·) ++ batches).map rowPost := by
  have hbatchIds : ((rows.filter isBatch).map (·.item.id)).Nodup :=
    hids.sublist (List.filter_sublist.map _)
  rw [batchGroups_eq hbatchIds] at hgroups
  obtain ⟨batches, hperm, rfl⟩ : ∃ batches : List Row,
      batches.Perm (rows.filter isBatch) ∧ groups = batches.map fun row => [row] := by
    refine ⟨groups.flatten, ?_, eq_map_flatten ?_⟩
    · have hflat := hgroups.flatten
      rwa [← List.flatMap_def, List.flatMap_singleton'] at hflat
    · intro g hg
      obtain ⟨row, -, rfl⟩ := List.mem_map.mp (hgroups.mem_iff.mp hg)
      exact ⟨row, rfl⟩
  refine ⟨batches, hperm, ?_⟩
  rw [posts, List.map_append]
  congr 1
  · refine List.map_congr_left fun row hrow => ?_
    have hsingle := (List.mem_filter.mp hrow).2
    rw [rowPost, if_neg (by simpa using hsingle)]
  · rw [List.filterMap_map, ← List.filterMap_eq_map]
    refine List.filterMap_congr fun row hrow => ?_
    have hbatch := (List.mem_filter.mp (hperm.mem_iff.mp hrow)).2
    change batchPost [row] = some (rowPost row)
    rw [batchPost_singleton, rowPost, if_pos hbatch]

/-! ### Statements -/

theorem settle_eq (post : Post) (answer : Reply) :
    t.settle now post answer = t.updateItems post.queueIds (settleItem now answer) := by
  cases answer <;> rfl

theorem statements_singleton {post : Post} {id : ℕ} (h : post.queueIds = [id]) (answer : Reply) :
    post.statements now answer = [⟨[id], settleItem now answer⟩] := by
  cases answer <;> simp [Post.statements, h]

/-- Requests that are followed by one statement each are made and settled up to one whose statement
    fails. -/
theorem deliverPosts_eq (fails : ℕ → Bool) (now : Time) (reply : Post → Reply) (k : ℕ) (t : Tables)
    {requests : List Post} (hone : ∀ post ∈ requests, ∃ id, post.queueIds = [id]) :
    ∃ j ≤ requests.length,
      (deliverPosts fails now reply k t requests).sent = requests.take (j + 1) ∧
      (deliverPosts fails now reply k t requests).tables =
        (requests.take j).foldl (fun t post => t.settle now post (reply post)) t ∧
      (j < requests.length → fails (k + j) = true) ∧ ∀ i < j, fails (k + i) = false := by
  -- on the requests, with k as the number of the next statement
  induction requests generalizing k t with
  | nil => exact ⟨0, Nat.le_refl _, rfl, rfl, fun h => (by cases h), fun i hi => (by cases hi)⟩
  | cons post requests ih =>
    obtain ⟨id, hid⟩ := hone post List.mem_cons_self
    rw [deliverPosts, statements_singleton hid, Tables.execute]
    cases hfails : fails k with  -- does the statement of the first request fail?
    | true => exact ⟨0, Nat.zero_le _, rfl, rfl, fun _ => hfails, fun i hi => (by cases hi)⟩
    | false =>
      rw [if_neg Bool.false_ne_true, Tables.execute]
      obtain ⟨j, hj, hsent, htables, hstop, hbefore⟩ :=
        ih (k + 1) (t.settle now post (reply post))
          fun p hp => hone p (List.mem_cons_of_mem _ hp)
      rw [settle_eq, hid] at hsent htables
      refine ⟨j + 1, Nat.succ_le_succ hj, ?_, ?_, ?_, ?_⟩
      · rw [List.take_succ_cons]
        exact congrArg (post :: ·) hsent
      · rw [List.take_succ_cons, List.foldl_cons, settle_eq, hid]
        exact htables
      · intro hlt
        rw [show k + (j + 1) = k + 1 + j by omega]
        exact hstop (Nat.lt_of_succ_lt_succ hlt)
      · intro i hi
        cases i with
        | zero => exact hfails
        | succ i =>
          rw [show k + (i + 1) = k + 1 + i by omega]
          exact hbefore i (Nat.lt_of_succ_lt_succ hi)

theorem sent_prefix {requests : List Post} :
    (deliverPosts fails now reply k t requests).sent <+: requests := by
  induction requests generalizing k t with
  | nil => exact List.nil_prefix
  | cons post requests ih =>
    rw [deliverPosts]
    split
    · exact ⟨requests, rfl⟩
    · exact List.cons_prefix_cons.mpr ⟨rfl, ih⟩

/-- What requests make of a row of the queue. -/
def settledBy (now : Time) (reply : Post → Reply) (requests : List Post) (item : QueueItem) :
    QueueItem :=
  requests.foldl
    (fun item post => if item.id ∈ post.queueIds then settleItem now (reply post) item else item) item

theorem deliveryQueue_settle (requests : List Post) :
    (requests.foldl (fun t post => t.settle now post (reply post)) t).deliveryQueue =
      t.deliveryQueue.map (settledBy now reply requests) := by
  induction requests generalizing t with
  | nil => exact (List.map_id _).symm
  | cons post requests ih =>
    rw [List.foldl_cons, ih, settle_eq, Tables.updateItems, List.map_map]
    rfl

@[simp] theorem id_settleItem (answer : Reply) (item : QueueItem) :
    (settleItem now answer item).id = item.id := by
  cases answer <;> rfl

@[simp] theorem id_settledBy (requests : List Post) (item : QueueItem) :
    (settledBy now reply requests item).id = item.id := by
  induction requests generalizing item with
  | nil => rfl
  | cons post requests ih =>
    rw [settledBy, List.foldl_cons, ← settledBy, ih]
    split
    · exact id_settleItem _ _
    · rfl

theorem settledBy_of_not_mem {requests : List Post}
    (h : ∀ post ∈ requests, item.id ∉ post.queueIds) : settledBy now reply requests item = item := by
  induction requests with
  | nil => rfl
  | cons post requests ih =>
    rw [settledBy, List.foldl_cons, if_neg (h post List.mem_cons_self), ← settledBy]
    exact ih fun p hp => h p (List.mem_cons_of_mem _ hp)

/-- A row that one request carries is settled once. -/
theorem settledBy_of_mem {before after : List Post} {post : Post}
    (hbefore : ∀ p ∈ before, item.id ∉ p.queueIds) (hpost : item.id ∈ post.queueIds)
    (hafter : ∀ p ∈ after, item.id ∉ p.queueIds) :
    settledBy now reply (before ++ post :: after) item = settleItem now (reply post) item := by
  have hstart : settledBy now reply before item = item := settledBy_of_not_mem hbefore
  rw [settledBy] at hstart
  rw [settledBy, List.foldl_append, hstart, List.foldl_cons, if_pos hpost, ← settledBy]
  apply settledBy_of_not_mem
  simpa using hafter

/-- A pending row is not settled by being left alone. -/
theorem settleItem_ne (answer : Reply) (h : item.status = .pending) :
    settleItem now answer item ≠ item := by
  intro heq
  cases answer with
  | success =>
    have := congrArg QueueItem.status heq
    rw [h] at this
    cases this
  | status | error =>
    have := congrArg QueueItem.attempts heq
    exact Nat.succ_ne_self _ this

/-! ### Without failures -/

theorem updateItems_cons {id : ℕ} {ids : List ℕ} {f : QueueItem → QueueItem} (hid : id ∉ ids)
    (hf : ∀ item, (f item).id = item.id) :
    (t.updateItems [id] f).updateItems ids f = t.updateItems (id :: ids) f := by
  rw [Tables.updateItems, Tables.updateItems, Tables.updateItems, List.map_map]
  congr 1
  refine List.map_congr_left fun item _ => ?_
  rw [Function.comp_apply]
  by_cases h : item.id = id
  · simp [h, hf, hid]
  · simp [h]

theorem execute_retries {answer : Reply} {ids : List ℕ} (hok : ∀ k, fails k = false)
    (hids : ids.Nodup) :
    ∃ k', t.execute fails k (ids.map fun id => ⟨[id], settleItem now answer⟩) =
      (t.updateItems ids (settleItem now answer), some k') := by
  induction ids generalizing t k with
  | nil => exact ⟨k, by simp [Tables.execute, Tables.updateItems]⟩
  | cons id ids ih =>
    obtain ⟨hid, hids⟩ := List.nodup_cons.mp hids
    obtain ⟨k', hk'⟩ := ih (t := t.updateItems [id] (settleItem now answer)) (k := k + 1) hids
    refine ⟨k', ?_⟩
    rw [List.map_cons, Tables.execute, hok, if_neg Bool.false_ne_true, hk',
      updateItems_cons hid (id_settleItem answer)]

/-- A cycle in which no statement fails is the cycle of `Tables.deliver`. -/
theorem deliverPosts_eq_deliver {requests : List Post} (hok : ∀ k, fails k = false)
    (hids : ∀ post ∈ requests, post.queueIds.Nodup) :
    deliverPosts fails now reply k t requests =
      ⟨(t.deliver now requests reply).1, requests, some (t.deliver now requests reply).2⟩ := by
  have hexecute : ∀ (post : Post) (k : ℕ) (t : Tables), post.queueIds.Nodup →
      ∃ k', t.execute fails k (post.statements now (reply post)) =
        (t.settle now post (reply post), some k') := by
    intro post k t hpost
    rw [settle_eq]
    cases hreply : reply post with
    | success => exact ⟨k + 1, by simp [Post.statements, Tables.execute, hok]⟩
    | status | error => exact execute_retries hok hpost
  induction requests generalizing k t with
  | nil => rfl
  | cons post requests ih =>
    obtain ⟨k', hk'⟩ := hexecute post k t (hids post List.mem_cons_self)
    rw [deliverPosts, hk']
    dsimp only
    rw [ih fun p hp => hids p (List.mem_cons_of_mem _ hp)]
    by_cases hreply : reply post = .success
    · simp [Tables.deliver, hreply]
    · simp [Tables.deliver, hreply]

/-! ### The selected rows -/

theorem isBatch_iff : isBatch row = true ↔ row.sub.subscriptionType = .batch := by
  rw [isBatch, decide_eq_true_eq]

theorem length_filter_le_one {α : Type} {key : α → ℕ} {l : List α} (h : (l.map key).Nodup)
    {p : α → Bool} {n : ℕ} (hp : ∀ a ∈ l, p a = true → key a = n) : (l.filter p).length ≤ 1 := by
  have hnodup : ((l.filter p).map key).Nodup := h.sublist (List.filter_sublist.map _)
  have hall : ∀ k ∈ (l.filter p).map key, k = n := by
    intro k hk
    obtain ⟨a, ha, rfl⟩ := List.mem_map.mp hk
    exact hp a (List.mem_of_mem_filter ha) (List.mem_filter.mp ha).2
  rw [← List.length_map key, List.eq_replicate_of_mem hall]
  rw [List.eq_replicate_of_mem hall, List.nodup_replicate] at hnodup
  simpa using hnodup

/-- A queue row with at most one subscription and at most one event is joined at most once. -/
theorem sublist_of_length_le_one {subs : List Subscription} {events : List Event}
    (hsubs : subs.length ≤ 1) (hevents : events.length ≤ 1) :
    ((subs.flatMap fun sub => events.map fun event => (⟨item, sub, event⟩ : Row)).map
      (·.item.id)).Sublist [item.id] := by
  rcases subs with _ | ⟨sub, _ | ⟨_, _⟩⟩
  · simp
  · rcases events with _ | ⟨event, _ | ⟨_, _⟩⟩
    · simp
    · simp
    · simp at hevents
  · simp at hsubs

/-- A queue row is found at most once. -/
theorem nodup_due (hkeys : t.Consistent) : ((t.due now).map (·.item.id)).Nodup := by
  have hone : ∀ item : QueueItem,
      (((t.subscriptions.filter fun sub => Deliverable now item sub).flatMap fun sub =>
        (t.events.filter fun event => event.id = item.eventId).map fun event =>
          (⟨item, sub, event⟩ : Row)).map (·.item.id)).Sublist [item.id] := by
    intro item
    have hsubs : (t.subscriptions.filter fun sub => Deliverable now item sub).length ≤ 1 := by
      refine length_filter_le_one hkeys.subscriptionIds (n := item.subscriptionId) ?_
      intro sub _ h
      exact (of_decide_eq_true h).1
    have hevents : (t.events.filter fun event => event.id = item.eventId).length ≤ 1 := by
      refine length_filter_le_one hkeys.eventIds (n := item.eventId) ?_
      intro event _ h
      exact of_decide_eq_true h
    exact sublist_of_length_le_one hsubs hevents
  have hsub : ((t.due now).map (·.item.id)).Sublist (t.deliveryQueue.map (·.id)) := by
    rw [Tables.due]
    induction t.deliveryQueue with
    | nil => exact .slnil
    | cons item queue ih =>
      rw [List.flatMap_cons, List.map_append, List.map_cons, ← List.singleton_append]
      exact (hone item).append ih
  exact hkeys.itemIds.sublist hsub

/-- What is known of the selected rows. -/
structure Selection (t : Tables) (now : Time) (rows : List Row) : Prop where
  ids : (rows.map (·.item.id)).Nodup
  due : ∀ row ∈ rows, row ∈ t.due now

theorem selection (hkeys : t.Consistent) (hscan : scan.Perm (t.due now)) :
    Selection t now (selected scan) := by
  refine ⟨?_, fun row hrow => hscan.mem_iff.mp (mem_of_mem_selected hrow)⟩
  have hperm := ((Keyset.perm_sortOn (·.item.ledger) scan).trans hscan).map (·.item.id)
  exact (hperm.nodup_iff.mpr (nodup_due hkeys)).sublist ((List.take_sublist 200 _).map _)

theorem Selection.eq_of_id (h : Selection t now rows) (hrow : row ∈ rows) (hr : r ∈ rows)
    (hid : row.item.id = r.item.id) : row = r :=
  List.inj_on_of_nodup_map h.ids hrow hr hid

/-- A row of a batch subscription is a batch row. -/
theorem Selection.sub_eq (h : Selection t now rows) (hkeys : t.Consistent)
    (hsub : sub ∈ t.subscriptions) (hrow : row ∈ rowsOf sub rows) : row ∈ rows ∧ row.sub = sub := by
  obtain ⟨hmem, hid⟩ := List.mem_filter.mp hrow
  have hdue := mem_due.mp (h.due row hmem)
  exact ⟨hmem, List.inj_on_of_nodup_map hkeys.subscriptionIds hdue.2.1 hsub (of_decide_eq_true hid)⟩

theorem Selection.activeBatch (h : Selection t now rows) (hrow : row ∈ rows)
    (hbatch : isBatch row = true) : ActiveBatch t row.sub ∧ row ∈ rowsOf row.sub rows := by
  have hdue := mem_due.mp (h.due row hrow)
  refine ⟨⟨hdue.2.1, hdue.2.2.2.2.2.2.2, isBatch_iff.mp hbatch⟩, ?_⟩
  exact List.mem_filter.mpr ⟨hrow, decide_eq_true rfl⟩

theorem Selection.pending (h : Selection t now rows) (hrow : row ∈ rows) :
    row.item ∈ t.deliveryQueue ∧ row.item.status = .pending := by
  have hdue := mem_due.mp (h.due row hrow)
  exact ⟨hdue.1, hdue.2.2.2.2.2.1⟩

/-! ### What was sent -/

variable {order : List Row} {m : ℕ} {cycle : Cycle}

/-- The request that carries a selected row is the row's own. -/
theorem Selection.carrier (h : Selection t now rows) (hperm : order.Perm rows)
    (hsent : cycle.sent = (order.take m).map rowPost) (hrow : row ∈ rows) {post : Post}
    (hpost : post ∈ cycle.sent) (hid : row.item.id ∈ post.queueIds) :
    post = rowPost row ∧ row ∈ order.take m := by
  rw [hsent] at hpost
  obtain ⟨r, hr, rfl⟩ := List.mem_map.mp hpost
  have hmem : r ∈ rows := hperm.mem_iff.mp (List.mem_of_mem_take hr)
  obtain rfl := h.eq_of_id hrow hmem (eq_of_mem_queueIds_rowPost hid)
  exact ⟨rfl, hr⟩

theorem filter_sent (hsent : cycle.sent = (order.take m).map rowPost) (sub : Subscription) :
    cycle.sent.filter (·.subscriptionId = sub.id) = (rowsOf sub (order.take m)).map rowPost := by
  rw [hsent, List.filter_map, rowsOf]
  congr 1
  refine List.filter_congr fun row _ => ?_
  simp

theorem ceilDiv_eq_self {n b : ℕ} (hn : 0 < n) (hb : 0 < b) (h : n ≤ n ⌈/⌉ b) : n = 1 ∨ b = 1 := by
  rw [Nat.ceilDiv_eq_add_pred_div, Nat.le_div_iff_mul_le hb] at h
  by_contra hne
  rw [not_or] at hne
  have : n + b ≤ n * b := Nat.add_le_mul (by omega) (by omega)
  omega

/-- When all of a subscription's rows were sent in its batches, one row was a batch. -/
theorem Selection.oneEach (h : Selection t now rows) (hkeys : t.Consistent)
    (hperm : order.Perm rows) (hsent : cycle.sent = (order.take m).map rowPost)
    (hall : ∀ sub, ActiveBatch t sub → SentInBatches now reply rows cycle sub) : OneEach t rows := by
  intro sub hsub hne
  have hbatches := hall sub hsub
  have hpos : 0 < (rowsOf sub rows).length := List.length_pos_iff.mpr hne
  obtain ⟨row, hrow⟩ := List.exists_mem_of_ne_nil _ hne
  obtain ⟨hmem, hrowSub⟩ := h.sub_eq hkeys hsub.1 hrow
  -- the batch of a row has a place for it
  have hsize : 1 ≤ sub.batchSize := by
    obtain ⟨post, hpost, hid⟩ := hbatches.complete row hrow
    obtain ⟨rfl, -⟩ := h.carrier hperm hsent hmem hpost hid
    obtain ⟨part, heq, -, -, hle⟩ :=
      hbatches.batches _ hpost (by rw [subscriptionId_rowPost, hrowSub])
    have hpart : part ≠ [] := by
      rintro rfl
      rw [heq] at hid
      cases hid
    have := List.length_pos_iff.mpr hpart
    omega
  refine ⟨hsize, ?_⟩
  -- and there are as many batches as rows
  have hsubset : rowsOf sub rows ⊆ rowsOf sub (order.take m) := by
    intro r hr
    obtain ⟨hmem, hrSub⟩ := h.sub_eq hkeys hsub.1 hr
    obtain ⟨post, hpost, hid⟩ := hbatches.complete r hr
    exact List.mem_filter.mpr
      ⟨(h.carrier hperm hsent hmem hpost hid).2, decide_eq_true (by rw [hrSub])⟩
  have hnodup : (rowsOf sub rows).Nodup := (h.ids.of_map _).filter _
  have hcount := (hnodup.subperm hsubset).length_le
  have hfew := hbatches.few
  rw [filter_sent hsent, List.length_map] at hfew
  rw [hfew] at hcount
  rcases ceilDiv_eq_self hpos (by omega) hcount with hone | hone
  · exact .inl hone
  · exact .inr (by omega)

/-- Rows that are batches of their own are sent in batches when each is sent and settled. -/
theorem OneEach.sentInBatches (hone : OneEach t rows) (h : Selection t now rows)
    (hkeys : t.Consistent) (hperm : order.Perm rows) (hsub : ActiveBatch t sub)
    (hsent : ∀ row ∈ rowsOf sub rows, row ∈ order.take m)
    (hcycle : cycle.sent = (order.take m).map rowPost)
    (hsettled : ∀ row ∈ rowsOf sub rows, ∀ item ∈ cycle.tables.deliveryQueue,
      item.id = row.item.id → item = settleItem now (reply (rowPost row)) row.item) :
    SentInBatches now reply rows cycle sub := by
  have hbatch : ∀ row ∈ rowsOf sub rows, isBatch row = true ∧ row.sub = sub ∧ 1 ≤ sub.batchSize := by
    intro row hrow
    obtain ⟨-, hrowSub⟩ := h.sub_eq hkeys hsub.1 hrow
    exact ⟨isBatch_iff.mpr (by rw [hrowSub, hsub.2.2]), hrowSub,
      (hone sub hsub (List.ne_nil_of_mem hrow)).1⟩
  have hids : ∀ row ∈ rowsOf sub rows, (rowPost row).queueIds = [row.item.id] := by
    intro row hrow
    obtain ⟨-, hrowSub, hsize⟩ := hbatch row hrow
    exact queueIds_rowPost fun _ => by rw [hrowSub]; exact hsize
  have hnodup : rows.Nodup := h.ids.of_map _
  -- every one of its rows was sent, so its requests are its rows
  have hperm' : (rowsOf sub (order.take m)).Perm (rowsOf sub rows) := by
    have htake : (order.take m).Nodup := (hperm.nodup_iff.mpr hnodup).sublist (List.take_sublist _ _)
    refine (List.perm_ext_iff_of_nodup (htake.filter _) (hnodup.filter _)).mpr fun row => ?_
    constructor
    · intro hrow
      obtain ⟨hmem, hid⟩ := List.mem_filter.mp hrow
      exact List.mem_filter.mpr ⟨hperm.mem_iff.mp (List.mem_of_mem_take hmem), hid⟩
    · exact fun hrow => List.mem_filter.mpr ⟨hsent row hrow, (List.mem_filter.mp hrow).2⟩
  refine ⟨?_, ?_, ?_, ?_⟩
  · -- each request carries one row of the subscription
    intro post hpost hid
    rw [hcycle] at hpost
    obtain ⟨row, hrow, rfl⟩ := List.mem_map.mp hpost
    rw [subscriptionId_rowPost] at hid
    have hmine : row ∈ rowsOf sub rows :=
      hperm'.mem_iff.mp (List.mem_filter.mpr ⟨hrow, decide_eq_true hid⟩)
    obtain ⟨hrowBatch, hrowSub, hsize⟩ := hbatch row hmine
    refine ⟨[row], ?_, ?_, List.pairwise_singleton _ _, by simpa using hsize⟩
    · rw [rowPost, if_pos hrowBatch, carried, if_neg (by rw [hrowSub]; omega), hrowSub]
    · intro r hr
      rwa [List.mem_singleton.mp hr]
  · -- n rows of size 1, or one row of any size, need as many batches as there are rows
    rw [filter_sent hcycle, List.length_map, hperm'.length_eq]
    by_cases hne : rowsOf sub rows = []
    · simp [hne]
    · obtain ⟨hsize, hcases⟩ := hone sub hsub hne
      rcases hcases with hlen | hlen
      · rw [hlen, Nat.ceilDiv_eq_add_pred_div, Nat.add_sub_cancel_left]
        exact (Nat.div_self (by omega)).symm
      · rw [hlen]
        exact (ceilDiv_one _).symm
  · intro row hrow
    refine ⟨rowPost row, ?_, ?_⟩
    · rw [hcycle]
      exact List.mem_map_of_mem (hsent row hrow)
    · rw [hids row hrow]
      exact List.mem_singleton_self _
  · -- one request carries the row, and it settles it
    intro row hrow post hpost hid item hitem hitemId
    obtain ⟨rfl, -⟩ := h.carrier hperm hcycle (List.mem_of_mem_filter hrow) hpost hid
    exact hsettled row hrow item hitem hitemId

/-! ### The cycle -/

theorem Selection.queueIds (h : Selection t now rows) (hone : OneEach t rows) (hrow : row ∈ rows) :
    (rowPost row).queueIds = [row.item.id] := by
  refine queueIds_rowPost fun hbatch => ?_
  obtain ⟨hactive, hmine⟩ := h.activeBatch hrow hbatch
  exact (hone _ hactive (List.ne_nil_of_mem hmine)).1

/-- The item of a row in the tables after some of the requests. -/
theorem Selection.settled (h : Selection t now rows) (hkeys : t.Consistent) (hrow : row ∈ rows)
    {requests : List Post}
    (hitem : item ∈ (requests.foldl (fun t post => t.settle now post (reply post)) t).deliveryQueue)
    (hid : item.id = row.item.id) : item = settledBy now reply requests row.item := by
  rw [deliveryQueue_settle] at hitem
  obtain ⟨old, hold, rfl⟩ := List.mem_map.mp hitem
  rw [id_settledBy] at hid
  rw [List.inj_on_of_nodup_map hkeys.itemIds hold (h.pending hrow).1 hid]

/-- No statement failed before all rows were settled. -/
theorem Selection.stops_at_end (h : Selection t now rows) (hone : OneEach t rows)
    {singles batches : List Row} (horder : order = singles ++ batches) (hperm : order.Perm rows)
    (hsingles : ∀ row ∈ singles, isBatch row = false)
    (hbatches : ∀ row ∈ batches, isBatch row = true) {j : ℕ} (hj : j ≤ order.length)
    (hsent : cycle.sent = (order.take (j + 1)).map rowPost)
    (htables : cycle.tables = ((order.take j).map rowPost).foldl
      (fun t post => t.settle now post (reply post)) t)
    (hall : ∀ sub, ActiveBatch t sub → SentInBatches now reply rows cycle sub)
    (hrow : row ∈ rows) (hbatch : isBatch row = true) : j = order.length := by
  by_contra hne
  have hlt : j < order.length := lt_of_le_of_ne hj hne
  have hstop : order[j] ∈ rows := hperm.mem_iff.mp (List.getElem_mem hlt)
  cases hkind : isBatch order[j] with
  | false =>
    -- the batch row comes later, and its request was never made
    have hjs : j < singles.length := by
      by_contra hge
      have hmem : order[j] ∈ batches := by
        simp only [horder, List.getElem_append_right (Nat.le_of_not_lt hge)]
        exact List.getElem_mem _
      rw [hbatches _ hmem] at hkind
      cases hkind
    obtain ⟨hactive, hmine⟩ := h.activeBatch hrow hbatch
    obtain ⟨post, hpost, hid⟩ := (hall _ hactive).complete row hmine
    obtain ⟨-, htake⟩ := h.carrier hperm hsent hrow hpost hid
    rw [horder, List.take_append_of_le_length (by omega)] at htake
    rw [hsingles row (List.mem_of_mem_take htake)] at hbatch
    cases hbatch
  | true =>
    -- the request was made, and its row was left as it was
    obtain ⟨hactive, hmine⟩ := h.activeBatch hstop hkind
    have hids := h.queueIds hone hstop
    have hnodup : order.Nodup := hperm.nodup_iff.mpr (h.ids.of_map _)
    have hpost : rowPost order[j] ∈ cycle.sent := by
      rw [hsent]
      exact List.mem_map_of_mem (List.mem_take_iff_getElem.mpr ⟨j, by omega, rfl⟩)
    have huntouched : settledBy now reply ((order.take j).map rowPost) order[j].item =
        order[j].item := by
      apply settledBy_of_not_mem
      intro post hmem hid
      obtain ⟨r, hr, rfl⟩ := List.mem_map.mp hmem
      obtain ⟨i, hi, rfl⟩ := List.mem_take_iff_getElem.mp hr
      have heq := h.eq_of_id hstop (hperm.mem_iff.mp (List.getElem_mem _))
        (eq_of_mem_queueIds_rowPost hid)
      have := hnodup.getElem_inj_iff.mp heq
      omega
    have hitem : order[j].item ∈ cycle.tables.deliveryQueue := by
      rw [htables, deliveryQueue_settle, ← huntouched]
      exact List.mem_map_of_mem (h.pending hstop).1
    have hsettled := (hall _ hactive).settled _ hmine _ hpost
      (by rw [hids]; exact List.mem_singleton_self _) _ hitem rfl
    exact settleItem_ne _ (h.pending hstop).2 hsettled.symm

/-- A row that was sent with the others is settled as its own request was answered. -/
theorem Selection.settledBy_rowPost (h : Selection t now rows) (hone : OneEach t rows)
    (hperm : order.Perm rows) (hrow : row ∈ rows) :
    settledBy now reply (order.map rowPost) row.item =
      settleItem now (reply (rowPost row)) row.item := by
  obtain ⟨before, after, rfl⟩ := List.append_of_mem (hperm.mem_iff.mpr hrow)
  have hnodup : (before ++ row :: after).Nodup := hperm.nodup_iff.mpr (h.ids.of_map _)
  have hother : ∀ r ∈ before ++ row :: after, row.item.id ∈ (rowPost r).queueIds → r = row :=
    fun r hr hid => (h.eq_of_id hrow (hperm.mem_iff.mp hr) (eq_of_mem_queueIds_rowPost hid)).symm
  rw [List.map_append, List.map_cons]
  apply settledBy_of_mem
  · intro post hpost hid
    obtain ⟨r, hr, rfl⟩ := List.mem_map.mp hpost
    obtain rfl := hother r (List.mem_append_left _ hr) hid
    exact (List.nodup_middle.mp hnodup).notMem (List.mem_append_left _ hr)
  · rw [h.queueIds hone hrow]
    exact List.mem_singleton_self _
  · intro post hpost hid
    obtain ⟨r, hr, rfl⟩ := List.mem_map.mp hpost
    obtain rfl := hother r (List.mem_append_right _ (List.mem_cons_of_mem _ hr)) hid
    exact (List.nodup_middle.mp hnodup).notMem (List.mem_append_right _ hr)

/-- A cycle whose SELECT succeeds. -/
theorem Selection.deliverPosts_iff (h : Selection t now rows) (hkeys : t.Consistent)
    {singles batches : List Row} (hperm : (singles ++ batches).Perm rows)
    (hsingles : ∀ row ∈ singles, isBatch row = false)
    (hbatches : ∀ row ∈ batches, isBatch row = true) :
    (∀ sub, ActiveBatch t sub → SentInBatches now reply rows
        (deliverPosts fails now reply 1 t ((singles ++ batches).map rowPost)) sub) ↔
      OneEach t rows ∧ (rows.any isBatch = true → ∀ k < rows.length, fails (1 + k) = false) := by
  set order := singles ++ batches with horder
  set cycle := deliverPosts fails now reply 1 t (order.map rowPost) with hcycle
  have hsingle : OneEach t rows → ∀ post ∈ order.map rowPost, ∃ id, post.queueIds = [id] := by
    intro hone post hpost
    obtain ⟨r, hr, rfl⟩ := List.mem_map.mp hpost
    exact ⟨_, h.queueIds hone (hperm.mem_iff.mp hr)⟩
  constructor
  · -- all in batches: the cycle sent a prefix of the rows in order, and each is a batch of its own
    intro hall
    have hprefix : cycle.sent = (order.take cycle.sent.length).map rowPost := by
      rw [List.map_take]
      exact List.prefix_iff_eq_take.mp sent_prefix
    have hone := h.oneEach hkeys hperm hprefix hall
    refine ⟨hone, fun hany k hk => ?_⟩
    obtain ⟨row, hrow, hbatch⟩ := List.any_eq_true.mp hany
    obtain ⟨j, hj, hsent, htables, -, hbefore⟩ := deliverPosts_eq fails now reply 1 t (hsingle hone)
    rw [List.length_map] at hj
    rw [← List.map_take] at hsent htables
    -- a prefix that holds every batch row is the whole order
    have hend := h.stops_at_end hone horder hperm hsingles hbatches hj hsent htables hall hrow hbatch
    rw [hend, hperm.length_eq] at hbefore
    exact hbefore k hk
  · rintro ⟨hone, hok⟩ sub hsub
    obtain ⟨j, hj, hsent, htables, hstop, -⟩ := deliverPosts_eq fails now reply 1 t (hsingle hone)
    rw [List.length_map] at hj hstop
    rw [← List.map_take] at hsent htables
    -- a statement that fails would stop the cycle early, and none fails
    have hend : ∀ row ∈ rowsOf sub rows, j = order.length := by
      intro row hrow
      obtain ⟨hmem, hrowSub⟩ := h.sub_eq hkeys hsub.1 hrow
      have hany : rows.any isBatch = true :=
        List.any_eq_true.mpr ⟨row, hmem, isBatch_iff.mpr (by rw [hrowSub, hsub.2.2])⟩
      by_contra hne
      have hlt : j < order.length := lt_of_le_of_ne hj hne
      have hfail := hstop hlt
      rw [hok hany j (by rw [← hperm.length_eq]; exact hlt)] at hfail
      cases hfail
    refine hone.sentInBatches h hkeys hperm hsub ?_ hsent ?_
    · intro row hrow
      rw [hend row hrow, List.take_of_length_le (Nat.le_succ _)]
      exact hperm.mem_iff.mpr (List.mem_of_mem_filter hrow)
    · intro row hrow item hitem hid
      have hmem := List.mem_of_mem_filter hrow
      rw [htables, hend row hrow, List.take_length] at hitem
      rw [h.settled hkeys hmem hitem hid, h.settledBy_rowPost hone hperm hmem]

theorem forall_le_iff {p : ℕ → Prop} {n : ℕ} :
    (∀ k ≤ n, p k) ↔ p 0 ∧ ∀ k < n, p (1 + k) := by
  constructor
  · exact fun h => ⟨h 0 (Nat.zero_le _), fun k hk => h (1 + k) (by omega)⟩
  · rintro ⟨hzero, hsucc⟩ k hk
    cases k with
    | zero => exact hzero
    | succ k =>
      rw [Nat.add_comm]
      exact hsucc k (by omega)

/-- A cycle sends the rows of every batch subscription in batches exactly if each row is a batch and,
    where there is a batch row, no statement of the cycle fails. -/
theorem sentInBatches_iff (t : Tables) (now : Time) (scan : List Row) (groups : List (List Row))
    (reply : Post → Reply) (fails : ℕ → Bool) (hkeys : t.Consistent) (hscan : scan.Perm (t.due now))
    (hgroups : groups.Perm (batchGroups ((selected scan).filter isBatch))) :
    (∀ sub, ActiveBatch t sub → SentInBatches now reply (selected scan)
        (deliverPending fails now reply t scan groups) sub) ↔
      OneEach t (selected scan) ∧ ((selected scan).any isBatch = true →
        ∀ k ≤ (selected scan).length, fails k = false) := by
  have h := selection hkeys hscan
  obtain ⟨batches, hbatchPerm, hposts⟩ := exists_order h.ids hgroups
  have hperm : ((selected scan).filter (!isBatch ·) ++ batches).Perm (selected scan) :=
    ((hbatchPerm.append_left _).trans List.perm_append_comm).trans
      (List.filter_append_perm isBatch (selected scan))
  have hsingles : ∀ row ∈ (selected scan).filter (!isBatch ·), isBatch row = false := by
    intro row hrow
    simpa using (List.mem_filter.mp hrow).2
  have hbatches : ∀ row ∈ batches, isBatch row = true := fun row hrow =>
    (List.mem_filter.mp (hbatchPerm.mem_iff.mp hrow)).2
  rw [deliverPending, hposts, forall_le_iff]
  cases hselect : fails 0 with
  | false =>
    rw [if_neg Bool.false_ne_true, h.deliverPosts_iff hkeys hperm hsingles hbatches]
    simp
  | true =>
    -- nothing is sent at all
    have hempty : (⟨t, [], none⟩ : Cycle).sent =
        (((selected scan).filter (!isBatch ·) ++ batches).take 0).map rowPost := rfl
    rw [if_pos rfl]
    constructor
    · intro hall
      refine ⟨h.oneEach hkeys hperm hempty hall, fun hany => ?_⟩
      obtain ⟨row, hrow, hbatch⟩ := List.any_eq_true.mp hany
      obtain ⟨hactive, hmine⟩ := h.activeBatch hrow hbatch
      obtain ⟨post, hpost, -⟩ := (hall _ hactive).complete row hmine
      cases hpost
    · rintro ⟨hone, hok⟩ sub hsub
      have hnone : ∀ row, row ∉ rowsOf sub (selected scan) := by
        intro row hrow
        obtain ⟨hmem, hrowSub⟩ := h.sub_eq hkeys hsub.1 hrow
        have hany : (selected scan).any isBatch = true :=
          List.any_eq_true.mpr ⟨row, hmem, isBatch_iff.mpr (by rw [hrowSub, hsub.2.2])⟩
        cases (hok hany).1
      exact hone.sentInBatches h hkeys hperm hsub (fun row hrow => absurd hrow (hnone row)) hempty
        fun row hrow => absurd hrow (hnone row)

end

/-- A batch subscription of size 10. -/
def tenAtOnce : Subscription :=
  ⟨1, "https://example.com/hook", 0, .active, .batch, 10, 5000, none, none, none⟩

/-- The subscription with these items, all of them due. -/
def batchTables (items : List ℕ) : Tables where
  subscriptions := [tenAtOnce]
  events := items.map fun id => ⟨id, id, "null"⟩
  deliveryQueue := items.map fun id => ⟨id, 1, id, id, .pending, 0, 0, none⟩
  nextItemId := 100

/-- Every request succeeds, and so does every statement. -/
def oneCycle (items : List ℕ) : Cycle :=
  deliverPending (fun _ => false) 0 (fun _ => .success) (batchTables items)
    ((batchTables items).due 0)
    (batchGroups ((selected ((batchTables items).due 0)).filter isBatch))

/-- Another one, of size 1. -/
def oneAtATime : Subscription := { tenAtOnce with id := 2, batchSize := 1 }

/-- It has three of the four due items. -/
def twoSubscriptions : Tables where
  subscriptions := [tenAtOnce, oneAtATime]
  events := [5, 6, 7, 8].map fun id => ⟨id, id, "null"⟩
  deliveryQueue := [(5, 2), (6, 1), (7, 2), (8, 2)].map fun (id, subscriptionId) =>
    ⟨id, subscriptionId, id, id, .pending, 0, 0, none⟩
  nextItemId := 100

/-- The endpoint refuses the batch of item 7. -/
def refuseSeven (post : Post) : Reply :=
  if post.queueIds = [7] then .status "500 Internal Server Error" else .success

/-- A cycle over both in which no statement fails. -/
def refusedOnce : Cycle :=
  deliverPending (fun _ => false) 0 refuseSeven twoSubscriptions (twoSubscriptions.due 0)
    (batchGroups ((selected (twoSubscriptions.due 0)).filter isBatch))

theorem sentInBatches_fourItems :
    SentInBatches 0 refuseSeven (selected (twoSubscriptions.due 0)) refusedOnce tenAtOnce ∧
      SentInBatches 0 refuseSeven (selected (twoSubscriptions.due 0)) refusedOnce oneAtATime := by
  have hkeys : twoSubscriptions.Consistent :=
    ⟨by decide, by decide, by decide, by decide, by decide, by decide⟩
  have hsent := (sentInBatches_iff twoSubscriptions 0 (twoSubscriptions.due 0)
    (batchGroups ((selected (twoSubscriptions.due 0)).filter isBatch)) refuseSeven
    (fun _ => false) hkeys (List.Perm.refl _) (List.Perm.refl _)).mpr ⟨?_, fun _ _ _ => rfl⟩
  · exact ⟨hsent tenAtOnce ⟨List.mem_cons_self, rfl, rfl⟩,
      hsent oneAtATime ⟨List.mem_cons_of_mem _ List.mem_cons_self, rfl, rfl⟩⟩
  · rintro sub ⟨hsub, -, -⟩ -
    rcases List.mem_pair.mp hsub with rfl | rfl <;> decide

/-- Two rows that fit into one batch are sent in two. -/
theorem not_sentInBatches_twoItems : ActiveBatch (batchTables [7, 8]) tenAtOnce ∧
    ¬SentInBatches 0 (fun _ => .success) (selected ((batchTables [7, 8]).due 0)) (oneCycle [7, 8])
      tenAtOnce := by
  refine ⟨⟨List.mem_singleton_self _, rfl, rfl⟩, fun h => ?_⟩
  have hfew := h.few
  revert hfew
  decide

end SorobanPulse.Subscriptions
