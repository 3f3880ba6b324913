import SorobanPulse.Erasure.Redaction
import SorobanPulse.Lib.Backlog
import SorobanPulse.Sse.Replay

/-! The anonymization worker: batch after batch of events that are not anonymized yet.

        pending, oldest first   u₁ u₂ u₃ e …        batch_size 3 fetches u₁ u₂ u₃

    A batch marks the events to which a rule applied. The others keep their place: as soon as they
    fill a batch, the worker fetches them again and again and no event behind them is reached. -/

namespace SorobanPulse.Erasure
open Lib

/-- The columns of `events` that the worker reads and writes. -/
structure WorkerEvent where
  id : Sse.Uuid
  createdAt : ℤ
  eventData : Value
  anonymized : Bool := false

/-- `id` is the primary key. -/
structure WorkerDb where
  events : List WorkerEvent
  unique : (events.map (·.id)).Nodup
  /-- The audit trail: an event and the rules that applied. -/
  auditLogs : List (Sse.Uuid × List String) := []

section
variable {Regex : Type} (crate : RegexCrate Regex) (rules : List AnonymizationRule)

/-- `WHERE anonymized = FALSE`. -/
def WorkerDb.pending (db : WorkerDb) : List WorkerEvent := db.events.filter fun e => !e.anonymized

/-- `UPDATE events SET event_data = $1, anonymized = TRUE WHERE id = $2`. -/
def redactRow (id : Sse.Uuid) (redacted : Value) (e : WorkerEvent) : WorkerEvent :=
  if e.id = id then { e with eventData := redacted, anonymized := true } else e

theorem redactRow_id (id : Sse.Uuid) (redacted : Value) (e : WorkerEvent) :
    (redactRow id redacted e).id = e.id := by
  unfold redactRow
  split <;> rfl

def WorkerDb.redact (db : WorkerDb) (id : Sse.Uuid) (redacted : Value) : WorkerDb where
  events := db.events.map (redactRow id redacted)
  unique := by
    have hids : (WorkerEvent.id ∘ redactRow id redacted) = WorkerEvent.id :=
      funext (redactRow_id id redacted)
    rw [List.map_map, hids]
    exact db.unique
  auditLogs := db.auditLogs

/-- One round of the loop over the rows; the count is of the anonymized events. -/
def processRow (state : WorkerDb × ℕ) (row : WorkerEvent) : WorkerDb × ℕ :=
  let (db, total) := state
  if (scanForPii crate (compileDetectionRules crate rules) row.eventData).isEmpty then state
  else
    let (redacted, applied) := anonymizeValue crate (compileRules crate rules) row.eventData
    if !applied.isEmpty then
      let db := db.redact row.id redacted
      ({ db with auditLogs := db.auditLogs ++ [(row.id, applied)] }, total + 1)
    else state

/-- `process_batch` on the rows that its query returns. -/
def processBatch (db : WorkerDb) (rows : List WorkerEvent) : WorkerDb × ℕ :=
  if (compileDetectionRules crate rules).isEmpty then (db, 0)
  else rows.foldl (processRow crate rules) (db, 0)

/-- `ORDER BY created_at ASC LIMIT $1`; rows of one time come in any order. -/
def WorkerDb.Fetches (db : WorkerDb) (batchSize : ℕ) (rows : List WorkerEvent) : Prop :=
  ∃ order : List WorkerEvent, order.Perm db.pending ∧
    order.Pairwise (fun a b => a.createdAt ≤ b.createdAt) ∧ rows = order.take batchSize

/-- `n` calls of `process_batch`, with nothing in between. -/
inductive Calls (batchSize : ℕ) : ℕ → WorkerDb → WorkerDb → Prop
  | zero (db : WorkerDb) : Calls batchSize 0 db db
  | succ {n : ℕ} {db db' : WorkerDb} {rows : List WorkerEvent} :
      db.Fetches batchSize rows → Calls batchSize n (processBatch crate rules db rows).1 db' →
      Calls batchSize (n + 1) db db'

/-- The enabled rules would alter the event's data. -/
def Alters (e : WorkerEvent) : Prop :=
  (anonymizeValue crate (compileRules crate rules) e.eventData).1 ≠ e.eventData

/-- Some rule applies to the event's data. -/
def marks (e : WorkerEvent) : Bool :=
  !(anonymizeValue crate (compileRules crate rules) e.eventData).2.isEmpty

/-- No event that is not anonymized would be altered. -/
def WorkerDb.Clean (db : WorkerDb) : Prop := ∀ e ∈ db.pending, ¬Alters crate rules e

/-- The events that keep their place and may be fetched before `e`. -/
def WorkerDb.ahead (db : WorkerDb) (e : WorkerEvent) : ℕ :=
  db.pending.countP fun u => !marks crate rules u && decide (u.createdAt ≤ e.createdAt)

/-- Before each event to be altered there is less than a batch of events that keep their place. -/
def WorkerDb.Reachable (batchSize : ℕ) (db : WorkerDb) : Prop :=
  ∀ e ∈ db.pending, Alters crate rules e → db.ahead crate rules e < batchSize

end

section
variable {Regex : Type} {crate : RegexCrate Regex} {rules : List AnonymizationRule}
  {db db' : WorkerDb} {rows : List WorkerEvent} {e f : WorkerEvent} {batchSize n : ℕ}

/-! ### One batch -/

theorem marks_of_alters (h : Alters crate rules e) : marks crate rules e = true := by
  unfold marks
  rw [Bool.not_eq_true', ← Bool.not_eq_true, List.isEmpty_iff]
  exact fun hnil => h (anonymizeValue_nil hnil)

theorem pending_redact (db : WorkerDb) (id : Sse.Uuid) (redacted : Value) :
    (db.redact id redacted).pending = db.pending.filter fun e => decide (e.id ≠ id) := by
  rw [WorkerDb.pending, WorkerDb.pending, WorkerDb.redact]
  simp only
  induction db.events with
  | nil => rfl
  | cons e events ih =>
    rw [List.map_cons, List.filter_cons, List.filter_cons, ih]
    by_cases hid : e.id = id <;> cases hanon : e.anonymized <;> simp [redactRow, hid, hanon]

/-- A row that no rule applies to changes nothing; the others anonymize their event. -/
theorem processRow_pending (state : WorkerDb × ℕ) (row : WorkerEvent) :
    (processRow crate rules state row).1.pending =
      state.1.pending.filter fun e => !(marks crate rules row && decide (e.id = row.id)) := by
  unfold processRow
  simp only
  split
  · next hscan =>
    rw [List.isEmpty_iff, compileDetectionRules_eq] at hscan
    have hmarks : marks crate rules row = false := by
      rw [marks, anonymizeValue_of_scan hscan]
      rfl
    simp [hmarks]
  · split
    · next happlied =>
      have hmarks : marks crate rules row = true := happlied
      have hpending := pending_redact state.1 row.id
        (anonymizeValue crate (compileRules crate rules) row.eventData).1
      simpa [hmarks, WorkerDb.pending, decide_not] using hpending
    · next happlied =>
      have hmarks : marks crate rules row = false := Bool.not_eq_true _ |>.mp happlied
      simp [hmarks]

theorem foldl_processRow_pending (state : WorkerDb × ℕ) :
    (rows.foldl (processRow crate rules) state).1.pending =
      state.1.pending.filter fun e =>
        !rows.any fun row => marks crate rules row && decide (e.id = row.id) := by
  induction rows generalizing state with
  | nil => simp
  | cons row rows ih =>
    rw [List.foldl_cons, ih, processRow_pending, List.filter_filter]
    congr 1
    funext e
    rw [List.any_cons, Bool.not_or, Bool.and_comm]

/-- Without rules no event is marked. -/
theorem marks_of_no_rules (h : compileRules crate rules = []) (row : WorkerEvent) :
    marks crate rules row = false := by
  have hscan : scanForPii crate ((compileRules crate rules).map fun r => (r.1, r.2.1))
      row.eventData = [] := by
    rw [h]
    exact scanRecursive_nil row.eventData
  rw [marks, anonymizeValue_of_scan hscan]
  rfl

/-- A batch takes away the events that it marks. -/
theorem pending_processBatch : (processBatch crate rules db rows).1.pending =
    Backlog.left (·.id) (marks crate rules) db.pending rows := by
  unfold processBatch
  split
  · next hnone =>
    rw [compileDetectionRules_eq, List.isEmpty_map, List.isEmpty_iff] at hnone
    exact (Backlog.left_of_stay fun row _ => marks_of_no_rules hnone row).symm
  · exact foldl_processRow_pending (db, 0)

theorem mem_processBatch_iff : e ∈ (processBatch crate rules db rows).1.pending ↔
    e ∈ db.pending ∧ ∀ row ∈ rows, marks crate rules row = true → e.id ≠ row.id := by
  rw [pending_processBatch, Backlog.mem_left_iff]

theorem clean_processBatch (h : db.Clean crate rules) :
    (processBatch crate rules db rows).1.Clean crate rules :=
  fun e he => h e (mem_processBatch_iff.mp he).1

theorem ahead_processBatch_le :
    (processBatch crate rules db rows).1.ahead crate rules e ≤ db.ahead crate rules e := by
  unfold WorkerDb.ahead
  rw [pending_processBatch]
  exact Backlog.ahead_left_le

/-! ### Progress -/

/-- A batch of a reachable table holds an event to mark, unless the table is clean. -/
theorem exists_marked (hreach : db.Reachable crate rules batchSize)
    (hfetch : db.Fetches batchSize rows) (he : e ∈ db.pending) (halters : Alters crate rules e) :
    ∃ f ∈ rows, marks crate rules f = true := by
  by_contra! hnone
  have hstay : ∀ row ∈ rows, marks crate rules row = false := by
    intro row hrow
    exact Bool.eq_false_of_not_eq_true (hnone row hrow)
  have hmem : e ∈ rows := Backlog.mem_of_ahead hfetch hstay he (hreach e he halters)
  exact hnone e hmem (marks_of_alters halters)

/-- The events still to be marked. -/
def WorkerDb.toMark (crate : RegexCrate Regex) (rules : List AnonymizationRule)
    (db : WorkerDb) : ℕ :=
  db.pending.countP (marks crate rules)

theorem toMark_processBatch_lt (hfetch : db.Fetches batchSize rows) (hf : f ∈ rows)
    (hmarks : marks crate rules f = true) :
    (processBatch crate rules db rows).1.toMark crate rules < db.toMark crate rules := by
  unfold WorkerDb.toMark
  rw [pending_processBatch]
  exact Backlog.countP_left_lt hfetch hf hmarks

theorem fetches_subset (hfetch : db.Fetches batchSize rows) (hf : f ∈ rows) : f ∈ db.pending :=
  Backlog.Fetches.subset hfetch hf

theorem reachable_processBatch (h : db.Reachable crate rules batchSize) :
    (processBatch crate rules db rows).1.Reachable crate rules batchSize :=
  fun e he halters =>
    ahead_processBatch_le.trans_lt (h e (mem_processBatch_iff.mp he).1 halters)

theorem clean_calls (hcalls : Calls crate rules batchSize n db db') (h : db.Clean crate rules) :
    db'.Clean crate rules := by
  induction hcalls with
  | zero db => exact h
  | succ _ _ ih => exact ih (clean_processBatch h)

/-- As many calls as there are events to mark clean a reachable table. -/
theorem clean_of_calls (hcalls : Calls crate rules batchSize n db db')
    (hreach : db.Reachable crate rules batchSize) (hn : db.toMark crate rules ≤ n) :
    db'.Clean crate rules := by
  induction hcalls with
  | zero db =>
    intro e he halters
    have hpos : 0 < db.toMark crate rules :=
      List.countP_pos_iff.mpr ⟨e, he, marks_of_alters halters⟩
    omega
  | @succ n db db' rows hfetch hrest ih =>
    by_cases hclean : db.Clean crate rules
    · exact clean_calls hrest (clean_processBatch hclean)
    · simp only [WorkerDb.Clean, not_forall, not_not] at hclean
      obtain ⟨e, he, halters⟩ := hclean
      obtain ⟨f, hf, hmarks⟩ := exists_marked hreach hfetch he halters
      have hlt := toMark_processBatch_lt hfetch hf hmarks
      exact ih (reachable_processBatch hreach) (by omega)

/-! ### Starvation -/

/-- Oldest first and, of one time, those that keep their place first. -/
def placeKey (crate : RegexCrate Regex) (rules : List AnonymizationRule) (e : WorkerEvent) :
    ℤ ×ₗ Bool :=
  toLex (e.createdAt, marks crate rules e)

/-- The batch that this order gives. -/
def placeBatch (crate : RegexCrate Regex) (rules : List AnonymizationRule) (batchSize : ℕ)
    (db : WorkerDb) : List WorkerEvent :=
  (Lib.Keyset.sortOn (placeKey crate rules) db.pending).take batchSize

theorem fetches_placeBatch (db : WorkerDb) (batchSize : ℕ) :
    db.Fetches batchSize (placeBatch crate rules batchSize db) :=
  Backlog.fetches_place db.pending

/-- A full batch of events that keep their place comes before `e`. -/
theorem not_mem_placeBatch (hahead : batchSize ≤ db.ahead crate rules e)
    (hmarks : marks crate rules e = true) : e ∉ placeBatch crate rules batchSize db :=
  Backlog.not_mem_place hahead hmarks

theorem eq_of_id {a b : WorkerEvent} (ha : a ∈ db.pending) (hb : b ∈ db.pending)
    (h : a.id = b.id) : a = b :=
  List.inj_on_of_nodup_map db.unique (List.mem_of_mem_filter ha) (List.mem_of_mem_filter hb) h

/-- What keeps its place is still there after a batch. -/
theorem ahead_processBatch (hfetch : db.Fetches batchSize rows) :
    (processBatch crate rules db rows).1.ahead crate rules e = db.ahead crate rules e := by
  unfold WorkerDb.ahead
  rw [pending_processBatch]
  exact Backlog.ahead_left (db.unique.sublist (List.filter_sublist.map _)) hfetch

/-- An event to be altered with a batch of events ahead of it that keep their place. -/
structure Stuck (crate : RegexCrate Regex) (rules : List AnonymizationRule) (batchSize : ℕ)
    (e : WorkerEvent) (db : WorkerDb) : Prop where
  pending : e ∈ db.pending
  alters : Alters crate rules e
  behind : batchSize ≤ db.ahead crate rules e

theorem Stuck.batch (h : Stuck crate rules batchSize e db) : Stuck crate rules batchSize e
    (processBatch crate rules db (placeBatch crate rules batchSize db)).1 := by
  have hfetch : db.Fetches batchSize (placeBatch crate rules batchSize db) :=
    fetches_placeBatch db batchSize
  have hnot := not_mem_placeBatch h.behind (marks_of_alters h.alters)
  refine ⟨mem_processBatch_iff.mpr ⟨h.pending, ?_⟩, h.alters, ?_⟩
  · intro row hrow _ hid
    exact hnot (eq_of_id h.pending (fetches_subset hfetch hrow) hid ▸ hrow)
  · rw [ahead_processBatch hfetch]
    exact h.behind

/-- A stuck event is never reached, in calls that break ties against it. -/
theorem Stuck.calls (h : Stuck crate rules batchSize e db) (n : ℕ) :
    ∃ db', Calls crate rules batchSize n db db' ∧ Stuck crate rules batchSize e db' := by
  induction n generalizing db with
  | zero => exact ⟨db, .zero db, h⟩
  | succ n ih =>
    obtain ⟨db', hcalls, hstuck⟩ := ih h.batch
    exact ⟨db', .succ (fetches_placeBatch db batchSize) hcalls, hstuck⟩

theorem not_cleans_of_stuck (h : Stuck crate rules batchSize e db) :
    ¬∃ n, ∀ db', Calls crate rules batchSize n db db' → db'.Clean crate rules := by
  rintro ⟨n, hclean⟩
  obtain ⟨db', hcalls, hstuck⟩ := h.calls n
  exact hclean db' hcalls e hstuck.pending hstuck.alters

/-- The worker cleans a table in a number of calls exactly if each event to be altered has less than
    a batch of pending events, as old or older, to which no rule applies. -/
theorem worker_cleans_iff (crate : RegexCrate Regex) (rules : List AnonymizationRule)
    (batchSize : ℕ) (db : WorkerDb) :
    (∃ n, ∀ db', Calls crate rules batchSize n db db' → db'.Clean crate rules) ↔
      db.Reachable crate rules batchSize := by
  constructor
  · intro hclean e he halters
    by_contra! hbehind
    exact not_cleans_of_stuck ⟨he, halters, hbehind⟩ hclean
  · intro hreach
    exact ⟨db.toMark crate rules, fun db' hcalls => clean_of_calls hcalls hreach le_rfl⟩

/-- A regex crate for patterns without operators, on strings that match as a whole or not at all. -/
def literalCrate : RegexCrate String where
  new pattern := some pattern
  isMatch re s := decide (s = re)
  replaceAll re s replacement := if s = re then replacement else s

def secretRule : AnonymizationRule where
  name := "secret"
  pattern := "secret"
  replacement := "[REDACTED]"
  enabled := true

def harmless : WorkerEvent where
  id := 1
  createdAt := 1
  eventData := .object [("memo", .string "hello")]

def revealing : WorkerEvent where
  id := 2
  createdAt := 2
  eventData := .object [("memo", .string "secret")]

/-- An older event without personal data and a newer one with some. -/
def twoEvents : WorkerDb where
  events := [harmless, revealing]
  unique := by decide

theorem marks_harmless : marks literalCrate [secretRule] harmless = false := by
  simp [marks, anonymizeValue, compileRules, literalCrate, secretRule, harmless, anonymizeRecursive,
    anonymizeMap, applyRule]

theorem alters_revealing : Alters literalCrate [secretRule] revealing := by
  simp [Alters, anonymizeValue, compileRules, literalCrate, secretRule, revealing,
    anonymizeRecursive, anonymizeMap, applyRule]

theorem not_cleans_twoEvents : ¬∃ n, ∀ db', Calls literalCrate [secretRule] 1 n twoEvents db' →
    db'.Clean literalCrate [secretRule] := by
  have hpending : twoEvents.pending = [harmless, revealing] := rfl
  refine not_cleans_of_stuck (e := revealing) ⟨?_, alters_revealing, ?_⟩
  · rw [hpending]
    exact List.mem_cons_of_mem _ List.mem_cons_self
  · rw [WorkerDb.ahead, hpending, List.countP_cons_of_pos (by rw [marks_harmless]; rfl)]
    exact Nat.le_add_left ..

end

end SorobanPulse.Erasure
