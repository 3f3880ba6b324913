import SorobanPulse.Lib.Run
import SorobanPulse.Webhook.EventJson

/-! Replay of the webhook dead-letter queue.

    A delivery that exhausted its retries leaves a row in `webhook_dlq`: the event, but not the URL. Any
    number of calls replay rows at the same time, one statement after the other and without a lock:

        select ──▶ enqueue ──▶ mark ──▶ next row of a bulk call
        replayed_at IS NULL    webhook_retry_queue    replayed_at = NOW()

    Each statement may fail. The enqueue's failure is only logged, the others end the entry.
    `Faithful` says that a marked row has one retry, to the webhook and with the event of the exhausted
    delivery; `faithful_of_exact` proves it for the runs whose steps meet `Exact`. -/

namespace SorobanPulse.Webhook
open Lib Sse

/-- A delivery that exhausted its retries. -/
structure Exhausted where
  url : String
  event : StreamedEvent

structure DlqRow where
  id : Uuid
  subscriptionId : Uuid
  payload : Value
  lastError : Option String
  /-- `replayed_at` is set. -/
  replayed : Bool

structure RetryRow where
  url : String
  payload : Value
  secretHash : Option String
  attempt : ℕ
  maxAttempts : ℕ
  lastError : String
  status : String

/-- The row that `enqueue_endpoint_retry` inserts for a delivery without a secret. -/
def enqueueEndpointRetry (url : String) (event : StreamedEvent) (reason : String) : RetryRow :=
  { url, payload := toValue event, secretHash := none, attempt := 0, maxAttempts := 5,
    lastError := reason, status := "pending" }

/-- Where a call is; `rest` are the rows that a bulk call has still to replay. -/
inductive Pc where
  | idle
  | select (id : Uuid) (rest : List Uuid)
  | enqueue (id : Uuid) (event : StreamedEvent) (lastError : Option String) (rest : List Uuid)
  | mark (id : Uuid) (rest : List Uuid)

def Pc.isIdle : Pc → Bool
  | .idle => true
  | _ => false

/-- The loop of `replay_dlq_bulk`. -/
def Pc.next : List Uuid → Pc
  | [] => .idle
  | id :: rest => .select id rest

structure ReplayState where
  dlq : List DlqRow
  /-- The retry rows, each with the dead letter that caused it. -/
  retryQueue : List (Uuid × RetryRow)
  calls : ℕ → Pc

def ReplayState.setCall (s : ReplayState) (c : ℕ) (pc : Pc) : ReplayState :=
  { s with calls := Function.update s.calls c pc }

theorem ReplayState.calls_setCall (s : ReplayState) (c c' : ℕ) (pc : Pc) :
    (s.setCall c pc).calls c' = if c' = c then pc else s.calls c' :=
  Function.update_apply s.calls c pc c'

/-- `SELECT id FROM webhook_dlq WHERE replayed_at IS NULL [AND subscription_id = …]`. -/
def pending (dlq : List DlqRow) (subscriptionId : Option Uuid) : List Uuid :=
  (dlq.filter fun row => !row.replayed && subscriptionId.all (· == row.subscriptionId)).map (·.id)

/-- `SELECT payload, last_error … WHERE id = … AND replayed_at IS NULL`, decoded. -/
def selectEntry (dlq : List DlqRow) (id : Uuid) : Option (StreamedEvent × Option String) := do
  let row ← dlq.find? fun row => row.id == id && !row.replayed
  let event ← fromValue row.payload
  some (event, row.lastError)

/-- `UPDATE webhook_dlq SET replayed_at = NOW() WHERE id = …`. -/
def markReplayed (dlq : List DlqRow) (id : Uuid) : List DlqRow :=
  dlq.map fun row => if row.id = id then { row with replayed := true } else row

/-- A call starts, or runs its next statement; `ok` tells whether that succeeds. -/
inductive ReplayStep where
  | replayDlqEntry (c : ℕ) (id : Uuid)
  /-- `ids` are the rows selected, in whatever order. -/
  | replayDlqBulk (c : ℕ) (subscriptionId : Option Uuid) (ids : List Uuid)
  | select (c : ℕ) (ok : Bool)
  | enqueue (c : ℕ) (ok : Bool)
  | mark (c : ℕ) (ok : Bool)

def ReplayState.step (s : ReplayState) : ReplayStep → Option ReplayState
  | .replayDlqEntry c id => if (s.calls c).isIdle then some (s.setCall c (.select id [])) else none
  | .replayDlqBulk c subscriptionId ids =>
    if (s.calls c).isIdle ∧ ids.Perm (pending s.dlq subscriptionId) then
      some (s.setCall c (.next ids))
    else none
  | .select c ok =>
    match s.calls c with
    | .select id rest =>
      match if ok then selectEntry s.dlq id else none with
      | some (event, lastError) => some (s.setCall c (.enqueue id event lastError rest))
      | none => some (s.setCall c (.next rest))
    | _ => none
  | .enqueue c ok =>
    match s.calls c with
    | .enqueue id event lastError rest =>
      let row := enqueueEndpointRetry event.contractId event (lastError.getD "replayed from DLQ")
      some { s with
        retryQueue := if ok then s.retryQueue ++ [(id, row)] else s.retryQueue
        calls := Function.update s.calls c (.mark id rest) }
    | _ => none
  | .mark c ok =>
    match s.calls c with
    | .mark id rest =>
      some { s with
        dlq := if ok then markReplayed s.dlq id else s.dlq
        calls := Function.update s.calls c (.next rest) }
    | _ => none

section
variable (origin : Uuid → Exhausted)

/-- The retries that a dead letter has caused. -/
def caused (s : ReplayState) (id : Uuid) : List RetryRow :=
  (s.retryQueue.filter fun r => r.1 == id).map (·.2)

/-- The retry goes to the webhook of the exhausted delivery and carries its event. -/
def Matches (id : Uuid) (r : RetryRow) : Prop :=
  r.url = (origin id).url ∧ fromValue r.payload = some (origin id).event

/-- Every row marked as replayed has caused one retry, the exhausted delivery's. -/
def Faithful (s : ReplayState) : Prop :=
  ∀ row ∈ s.dlq, row.replayed = true → ∃ r, caused s row.id = [r] ∧ Matches origin row.id r

/-- No call is under way, the rows are those that `enqueue_dlq` wrote, and the replays of the past
    were faithful. -/
structure Start (s : ReplayState) : Prop where
  idle : ∀ c, s.calls c = .idle
  payload : ∀ row ∈ s.dlq, row.payload = toValue (origin row.id).event
  faithful : Faithful origin s
  fresh : ∀ id, caused s id ≠ [] → ∃ row ∈ s.dlq, row.id = id ∧ row.replayed = true

/-- What a step must meet: a row is enqueued while no retry of it exists, it is marked when one does,
    and then its webhook is its contract's id and its event has no field that JSON drops. -/
def Exact (s : ReplayState) : ReplayStep → Prop
  | .enqueue c true =>
    ∀ id event lastError rest, s.calls c = .enqueue id event lastError rest → caused s id = []
  | .mark c true =>
    ∀ id rest, s.calls c = .mark id rest → caused s id ≠ [] ∧
      (origin id).url = (origin id).event.contractId ∧ (origin id).event.Plain
  | _ => True

/-- What exact steps keep. -/
structure Inv (s : ReplayState) : Prop where
  payload : ∀ row ∈ s.dlq, row.payload = toValue (origin row.id).event
  decoded : ∀ c id event lastError rest, s.calls c = .enqueue id event lastError rest →
    event = (origin id).event.reread
  single : ∀ id r, r ∈ caused s id → caused s id = [r] ∧
    ((origin id).url = (origin id).event.contractId → (origin id).event.Plain → Matches origin id r)
  marked : ∀ row ∈ s.dlq, row.replayed = true → ∃ r ∈ caused s row.id, Matches origin row.id r

end

section
variable {origin : Uuid → Exhausted} {s t : ReplayState} {c : ℕ} {id : Uuid}

theorem Inv.faithful (h : Inv origin s) : Faithful origin s := by
  intro row hrow hrep
  obtain ⟨r, hr, hmatch⟩ := h.marked row hrow hrep
  exact ⟨r, (h.single row.id r hr).1, hmatch⟩

theorem Start.inv (h : Start origin s) : Inv origin s where
  payload := h.payload
  decoded c id event lastError rest hc := by rw [h.idle c] at hc; cases hc
  single id r hr := by
    obtain ⟨row, hrow, rfl, hrep⟩ := h.fresh id (List.ne_nil_of_mem hr)
    obtain ⟨r', hr', hmatch⟩ := h.faithful row hrow hrep
    rw [hr', List.mem_singleton] at hr
    rw [hr]
    exact ⟨hr', fun _ _ => hmatch⟩
  marked row hrow hrep := by
    obtain ⟨r, hr, hmatch⟩ := h.faithful row hrow hrep
    exact ⟨r, hr ▸ List.mem_singleton.mpr rfl, hmatch⟩

/-! ### What a step keeps -/

/-- Moving a call on keeps the invariant, if the event that it takes along is the decoded one. -/
theorem Inv.setCall (h : Inv origin s) {pc : Pc}
    (hpc : ∀ id event lastError rest, pc = .enqueue id event lastError rest →
      event = (origin id).event.reread) : Inv origin (s.setCall c pc) where
  payload := h.payload
  single := h.single
  marked := h.marked
  decoded c' id event lastError rest hc' := by
    rw [ReplayState.calls_setCall] at hc'
    split at hc'
    · exact hpc id event lastError rest hc'
    · exact h.decoded c' id event lastError rest hc'

theorem next_ne_enqueue (rest : List Uuid) {event : StreamedEvent} {lastError : Option String}
    {rest' : List Uuid} : Pc.next rest ≠ .enqueue id event lastError rest' := by
  cases rest <;> exact Pc.noConfusion

/-- A selected row decodes to what JSON keeps of its event. -/
theorem Inv.selectEntry (h : Inv origin s) {event : StreamedEvent} {lastError : Option String}
    (hsel : selectEntry s.dlq id = some (event, lastError)) :
    event = (origin id).event.reread := by
  simp only [Webhook.selectEntry, Option.bind_eq_bind, Option.bind_eq_some_iff] at hsel
  obtain ⟨row, hfind, event', hdecode, hsome⟩ := hsel
  obtain ⟨rfl, -⟩ := Prod.mk.inj (Option.some.inj hsome)
  have hid : row.id = id := by
    have hpred := List.find?_some hfind
    rw [Bool.and_eq_true, beq_iff_eq] at hpred
    exact hpred.1
  rw [h.payload row (List.mem_of_find?_eq_some hfind), hid, fromValue_toValue] at hdecode
  exact (Option.some.inj hdecode).symm

theorem caused_append (s : ReplayState) (calls : ℕ → Pc) (id id' : Uuid) (row : RetryRow) :
    caused { s with retryQueue := s.retryQueue ++ [(id, row)], calls } id' =
      caused s id' ++ if id = id' then [row] else [] := by
  rw [caused, caused, List.filter_append, List.map_append]
  by_cases h : id = id' <;> simp [h]

/-- A retry of a row that has none yet. -/
theorem Inv.enqueue (h : Inv origin s) {event : StreamedEvent} {lastError : Option String}
    {rest : List Uuid} (hpc : s.calls c = .enqueue id event lastError rest)
    (hnone : caused s id = []) (reason : String) :
    Inv origin { s with
      retryQueue := s.retryQueue ++ [(id, enqueueEndpointRetry event.contractId event reason)]
      calls := Function.update s.calls c (.mark id rest) } := by
  have hmoved : Inv origin (s.setCall c (.mark id rest)) :=
    h.setCall fun _ _ _ _ h => Pc.noConfusion h
  have hevent := h.decoded c id event lastError rest hpc
  refine ⟨h.payload, hmoved.decoded, ?_, ?_⟩
  · intro id' r hr
    rw [caused_append] at hr ⊢
    by_cases hid : id = id'
    · subst hid
      rw [hnone, if_pos rfl, List.nil_append, List.mem_singleton] at hr
      subst hr
      rw [hnone, if_pos rfl, List.nil_append]
      refine ⟨rfl, fun hurl hplain => ?_⟩
      have hreread := reread_eq_iff.mpr hplain
      refine ⟨?_, ?_⟩
      · rw [hurl, enqueueEndpointRetry, hevent, hreread]
      · rw [enqueueEndpointRetry, fromValue_toValue, hevent, hreread, hreread]
    · rw [if_neg hid, List.append_nil] at hr ⊢
      exact h.single id' r hr
  · intro row hrow hrep
    obtain ⟨r, hr, hmatch⟩ := h.marked row hrow hrep
    rw [caused_append]
    exact ⟨r, List.mem_append_left _ hr, hmatch⟩

/-- Marking a row that has its retry. -/
theorem Inv.mark (h : Inv origin s) {calls : ℕ → Pc} (hmoved : Inv origin { s with calls })
    (hsome : caused s id ≠ []) (hurl : (origin id).url = (origin id).event.contractId)
    (hplain : (origin id).event.Plain) :
    Inv origin { s with dlq := markReplayed s.dlq id, calls } := by
  have hrows : ∀ row ∈ markReplayed s.dlq id, ∃ row' ∈ s.dlq, row.id = row'.id ∧
      row.payload = row'.payload ∧ (row.replayed = row'.replayed ∨ row.id = id) := by
    intro row hrow
    obtain ⟨row', hrow', rfl⟩ := List.mem_map.mp hrow
    refine ⟨row', hrow', ?_⟩
    split
    · next hid => exact ⟨rfl, rfl, .inr hid⟩
    · exact ⟨rfl, rfl, .inl rfl⟩
  refine ⟨?_, hmoved.decoded, h.single, ?_⟩
  · intro row hrow
    obtain ⟨row', hrow', hid, hpay, -⟩ := hrows row hrow
    rw [hpay, hid]
    exact h.payload row' hrow'
  · intro row hrow hrep
    obtain ⟨row', hrow', hid, -, hrep' | rfl⟩ := hrows row hrow
    · rw [hid]
      exact h.marked row' hrow' (hrep' ▸ hrep)
    · obtain ⟨r, hr⟩ := List.exists_mem_of_ne_nil _ hsome
      exact ⟨r, hr, (h.single row.id r hr).2 hurl hplain⟩

/-- Exact steps keep the invariant. -/
theorem inv_step {a : ReplayStep} (hP : Exact origin s a) (hs : s.step a = some t)
    (h : Inv origin s) : Inv origin t := by
  cases a with
  | replayDlqEntry c id =>
    obtain ⟨-, ⟨⟩⟩ := Option.ite_none_right_eq_some.mp hs
    exact h.setCall fun _ _ _ _ h => Pc.noConfusion h
  | replayDlqBulk c subscriptionId ids =>
    obtain ⟨-, ⟨⟩⟩ := Option.ite_none_right_eq_some.mp hs
    exact h.setCall fun _ _ _ _ hpc => absurd hpc (next_ne_enqueue ids)
  | select c ok =>
    simp only [ReplayState.step] at hs
    split at hs
    · next id rest hpc =>
      split at hs <;> obtain rfl := Option.some.inj hs
      · -- the entry was there, and the read gives its event and error
        next event lastError hsel =>
        refine h.setCall fun id' event' lastError' rest' heq => ?_
        obtain ⟨⟩ := heq
        cases ok with
        | true => exact h.selectEntry hsel
        | false => cases hsel
      · -- a missing entry or a failed read goes on with the next id
        exact h.setCall fun _ _ _ _ hpc => absurd hpc (next_ne_enqueue rest)
    · cases hs
  | enqueue c ok =>
    simp only [ReplayState.step] at hs
    split at hs
    · next id event lastError rest hpc =>
      -- the condition: what is enqueued is what the entry's delivery carried
      obtain rfl := Option.some.inj hs
      cases ok with
      | true => exact h.enqueue hpc (hP id event lastError rest hpc) _
      | false => exact h.setCall fun _ _ _ _ h => Pc.noConfusion h
    · cases hs
  | mark c ok =>
    simp only [ReplayState.step] at hs
    split at hs
    · next id rest hpc =>
      obtain rfl := Option.some.inj hs
      -- the call goes on with the next id whether the mark succeeds or not
      have hmoved : Inv origin (s.setCall c (.next rest)) :=
        h.setCall fun _ _ _ _ hpc => absurd hpc (next_ne_enqueue rest)
      cases ok with
      | true =>
        obtain ⟨hsome, hurl, hplain⟩ := hP id rest hpc
        exact h.mark hmoved hsome hurl hplain
      | false => exact hmoved
    · cases hs

end

/-- In a run of exact steps the replays are faithful, whatever the interleaving and the faults. -/
theorem faithful_of_exact {origin : Uuid → Exhausted} {s u : ReplayState} {as : List ReplayStep}
    (hstart : Start origin s) (hrun : Run ReplayState.step (Exact origin) s as u) :
    Faithful origin u :=
  (hrun.invariant inv_step hstart.inv).faithful

/-! ### One row, replayed once -/

def transferEvent : StreamedEvent :=
  { contractId := "CAAAAAAAAAAAAAAAAAAAAAAAAAAAAAAAAAAAAAAAAAAAAAAAAAAABSC4", eventType := "contract"
    txHash := "ab12", ledger := 1234, ledgerClosedAt := "2026-07-01T00:00:00Z", value := .null }

/-- The dead letter of a delivery of `transferEvent`, not yet replayed. -/
def oneRow : ReplayState where
  dlq := [{ id := 1, subscriptionId := 2, payload := toValue transferEvent
            lastError := some "HTTP 503", replayed := false }]
  retryQueue := []
  calls _ := .idle

def oneReplay : List ReplayStep :=
  [.replayDlqEntry 0 1, .select 0 true, .enqueue 0 true, .mark 0 true]

theorem start_oneRow {origin : Uuid → Exhausted} (h : (origin 1).event = transferEvent) :
    Start origin oneRow where
  idle _ := rfl
  payload row hrow := by
    obtain rfl := List.mem_singleton.mp hrow
    rw [h]
  faithful row hrow hrep := by
    obtain rfl := List.mem_singleton.mp hrow
    cases hrep
  fresh _ h := absurd rfl h

/-- The retry goes to the contract's id instead of the webhook. -/
theorem not_faithful_oneReplay :
    ¬ ∀ (origin : Uuid → Exhausted) (s u : ReplayState) (as : List ReplayStep),
      Start origin s → AnyRun ReplayState.step s as u → Faithful origin u := by
  intro h
  have hfaith := h (fun _ => ⟨"https://example.com/hook", transferEvent⟩) oneRow _ oneReplay
    (start_oneRow rfl)
    (.cons trivial rfl (.cons trivial rfl (.cons trivial rfl (.cons trivial rfl (.nil _)))))
  obtain ⟨r, hr, hurl, -⟩ := hfaith _ List.mem_cons_self rfl
  obtain rfl := (List.cons.inj hr).1
  exact absurd hurl (by decide)

/-- A webhook that is named like the contract would be retried as it should. -/
theorem faithful_oneReplay :
    ∃ u, Run ReplayState.step (Exact fun _ => ⟨transferEvent.contractId, transferEvent⟩) oneRow
        oneReplay u ∧ Faithful (fun _ => ⟨transferEvent.contractId, transferEvent⟩) u := by
  have hrun : ∃ u, Run ReplayState.step (Exact fun _ => ⟨transferEvent.contractId, transferEvent⟩)
      oneRow oneReplay u := by
    refine ⟨_, .cons ?_ rfl (.cons ?_ rfl (.cons ?_ rfl (.cons ?_ rfl (.nil _))))⟩
    · trivial
    · trivial
    · rintro id event lastError rest ⟨⟩
      rfl
    · rintro id rest ⟨⟩
      exact ⟨List.cons_ne_nil _ _, rfl, rfl, rfl, rfl⟩
  obtain ⟨u, hrun⟩ := hrun
  exact ⟨u, hrun, faithful_of_exact (start_oneRow rfl) hrun⟩

end SorobanPulse.Webhook
