import SorobanPulse.Rpc.EventServer
import SorobanPulse.Ingest.LedgerHashes

/-! The replay job: `replay_events` accepts a ledger range, `execute_replay_job` walks it.

        from                 latest₀ + 1            latest₁ + 1        to
          ├─ page ─┤ · · · · · · ├─ page ─┤ · · · · · · ├─ page ─┤ · · · │
            ≤ 100     skipped      ≤ 100     skipped

    Each request asks for one page from the current ledger on, with no cursor, and then goes on
    behind the latest ledger of the answer. The events are stored one statement at a time, between
    which other writers insert rows of their own. -/

namespace SorobanPulse.Ingest
open Lib Rpc

/-! ### The request -/

structure ReplayRequest where
  fromLedger : UInt64
  toLedger : UInt64
  deriving DecidableEq, Repr

/-- `MIN(ledger)` and `MAX(ledger)` of the table. -/
def getIndexedLedgerRange (table : List EventRow) : Option ℤ × Option ℤ :=
  ((table.map fun row => (row.ledger : ℤ)).min?, (table.map fun row => (row.ledger : ℤ)).max?)

/-- A status and the text under `error`. -/
structure Refusal where
  status : ℕ
  error : String
  deriving DecidableEq, Repr

def rangeText (lower upper : ℤ) : String := s!"[{lower}, {upper}]"

/-- What is answered to a request; an accepted one may carry a warning. -/
def replayEvents (isActiveIndexer : Bool) (table : List EventRow) (request : ReplayRequest) :
    Except Refusal (Option String) :=
  let fromLedger := asI64 request.fromLedger
  let toLedger := asI64 request.toLedger
  let requested := "requested range " ++ rangeText fromLedger toLedger
  if request.toLedger < request.fromLedger then
    .error ⟨400, "from_ledger must be <= to_ledger"⟩
  -- the sum wraps for the range of all ledgers
  else if 10000 < request.toLedger - request.fromLedger + 1 then
    .error ⟨400, "ledger range cannot exceed 10,000 ledgers"⟩
  else if !isActiveIndexer then
    .error ⟨403, "replay endpoint only available on active indexer"⟩
  else
    match getIndexedLedgerRange table with
    | (none, none) =>
      .error ⟨400, "requested range is entirely outside the indexed window: " ++
        "no events have been indexed yet"⟩
    | (some minIndexed, some maxIndexed) =>
      let window := "the indexed window " ++ rangeText minIndexed maxIndexed
      if toLedger < minIndexed then
        .error ⟨400, requested ++ " is entirely before " ++ window⟩
      else if maxIndexed < fromLedger then
        .error ⟨400, requested ++ " is entirely after " ++ window⟩
      else if fromLedger < minIndexed ∨ maxIndexed < toLedger then
        .ok (some (requested ++ " is partially outside " ++ window ++ "; only ledgers " ++
          rangeText (max fromLedger minIndexed) (min toLedger maxIndexed) ++
          " will be replayed"))
      else .ok none
    | _ => .ok none

/-! ### The job -/

/-- The answer to a `getEvents` request. -/
inductive ReplayAnswer where
  | transportError (msg : String)
  | httpError (status : String)
  | rpcError (msg : String)
  | noResult
  | result (result : GetEventsResult)

inductive ReplayPhase where
  | fetching
  | storing (result : GetEventsResult) (queue : List SorobanEvent)
  | finished (outcome : Except String Unit)

/-- A page the job has stored, and the ledger it was asked for. -/
structure ReplayedPage where
  startLedger : UInt64
  result : GetEventsResult

/-- The table, the job's locals, and a record of its pages and of the rows of other writers. -/
structure ReplayJob where
  table : List EventRow
  currentLedger : UInt64
  phase : ReplayPhase
  pages : List ReplayedPage
  others : List EventRow

inductive ReplayAction where
  | fetch (answer : ReplayAnswer)
  | store (fails : Bool)
  /-- The end of a page, or of the loop. -/
  | advance
  /-- Another writer's `INSERT … ON CONFLICT DO NOTHING`. -/
  | elsewhere (row : EventRow)

/-- `INSERT … ON CONFLICT DO NOTHING`. -/
def insertIfNew (table : List EventRow) (row : EventRow) : List EventRow :=
  if row.key ∈ keys table then table else table ++ [row]

/-- The row of a replayed event: no hash, no tenant, and the default of `in_successful_call`. -/
def replayedRow (event : SorobanEvent) (timestamp : ℤ) : EventRow where
  contractId := event.contractId
  eventType := event.eventType
  txHash := event.txHash
  ledger := event.ledger.toNat
  timestamp := timestamp
  eventData := eventData event
  ledgerHash := none
  inSuccessfulCall := true
  tenantId := none

section
variable (libraries : Libraries)

/-- An event whose ledger fits its column and whose closing time parses. -/
def replayable (event : SorobanEvent) : Bool :=
  decide (event.ledger.toNat < 2 ^ 63) &&
    (libraries.parseFromRfc3339 event.ledgerClosedAt).isSome

/-- `store_event_with_idempotency`; its errors are only logged. -/
def storeEventWithIdempotency (table : List EventRow) (event : SorobanEvent) (fails : Bool) :
    List EventRow :=
  if event.ledger.toNat < 2 ^ 63 then
    match libraries.parseFromRfc3339 event.ledgerClosedAt with
    | none => table
    | some timestamp => if fails then table else insertIfNew table (replayedRow event timestamp)
  else table

def ReplayJob.start (table : List EventRow) (request : ReplayRequest) : ReplayJob where
  table := table
  currentLedger := request.fromLedger
  phase := .fetching
  pages := []
  others := []

def ReplayJob.fetch (job : ReplayJob) : ReplayAnswer → ReplayJob
  | .transportError msg => { job with phase := .finished (.error msg) }
  | .httpError status => { job with phase := .finished (.error ("RPC request failed: " ++ status)) }
  | .rpcError msg => { job with phase := .finished (.error ("RPC error: " ++ msg)) }
  | .noResult => { job with phase := .finished (.error "RPC returned no result") }
  | .result result => { job with phase := .storing result result.events }

/-- On behind the latest ledger, unless that is behind already. -/
def ReplayJob.endPage (job : ReplayJob) (result : GetEventsResult) : ReplayJob :=
  let pages := ⟨job.currentLedger, result⟩ :: job.pages
  if job.currentLedger ≤ result.latestLedger then
    { job with currentLedger := result.latestLedger + 1, phase := .fetching, pages }
  else { job with phase := .finished (.ok ()), pages }

def ReplayJob.step (toLedger : UInt64) (job : ReplayJob) : ReplayAction → Option ReplayJob
  | .fetch answer =>
    match job.phase with
    | .fetching => if job.currentLedger ≤ toLedger then some (job.fetch answer) else none
    | _ => none
  | .store fails =>
    match job.phase with
    | .storing result (event :: rest) =>
      some { job with
        table := storeEventWithIdempotency libraries job.table event fails
        phase := .storing result rest }
    | _ => none
  | .advance =>
    match job.phase with
    | .fetching =>
      if job.currentLedger ≤ toLedger then none
      else some { job with phase := .finished (.ok ()) }
    | .storing result [] => some (job.endPage result)
    | _ => none
  | .elsewhere row =>
    some { job with table := insertIfNew job.table row, others := row :: job.others }
end

/-! ### Which requests are accepted -/

section
variable {isActiveIndexer : Bool} {table : List EventRow} {request : ReplayRequest}

theorem asI64_eq (ledger : UInt64) :
    asI64 ledger = if ledger.toNat < 2 ^ 63 then (ledger.toNat : ℤ) else ledger.toNat - 2 ^ 64 := by
  rw [asI64, ← Int64.toInt_toBitVec, UInt64.toBitVec_toInt64, BitVec.toInt_eq_toNat_cond]
  simp only [UInt64.toNat_toBitVec]
  split <;> split <;> omega

theorem min?_map_ledger (h : table ≠ []) :
    ∃ lower upper, getIndexedLedgerRange table = (some lower, some upper) ∧
      (∀ n : ℤ, lower ≤ n ↔ ∃ row ∈ table, (row.ledger : ℤ) ≤ n) ∧
        ∀ n : ℤ, n ≤ upper ↔ ∃ row ∈ table, n ≤ (row.ledger : ℤ) := by
  have hne : (table.map fun row => (row.ledger : ℤ)) ≠ [] := by simpa using h
  obtain ⟨lower, hlower⟩ := Option.isSome_iff_exists.mp (List.isSome_min?_of_ne_nil hne)
  obtain ⟨upper, hupper⟩ := Option.isSome_iff_exists.mp (List.isSome_max?_of_ne_nil hne)
  obtain ⟨hlmem, hlle⟩ := List.min?_eq_some_iff.mp hlower
  obtain ⟨humem, hule⟩ := List.max?_eq_some_iff.mp hupper
  simp only [List.mem_map, forall_exists_index, and_imp, forall_apply_eq_imp_iff₂] at hlmem hlle
  simp only [List.mem_map, forall_exists_index, and_imp, forall_apply_eq_imp_iff₂] at humem hule
  obtain ⟨first, hfirst, rfl⟩ := hlmem
  obtain ⟨last, hlast, rfl⟩ := humem
  refine ⟨_, _, by rw [getIndexedLedgerRange, hlower, hupper], ?_, ?_⟩
  · intro n
    exact ⟨fun hn => ⟨first, hfirst, hn⟩, fun ⟨row, hrow, hn⟩ => (hlle row hrow).trans hn⟩
  · intro n
    exact ⟨fun hn => ⟨last, hlast, hn⟩, fun ⟨row, hrow, hn⟩ => hn.trans (hule row hrow)⟩

/-- A request is accepted exactly if the replica is active and the range, of at most 10,000
    ledgers that fit the column, meets the indexed ones. -/
theorem replayEvents_ok_iff (hfits : ∀ row ∈ table, row.ledger < 2 ^ 63) :
    (∃ warning, replayEvents isActiveIndexer table request = .ok warning) ↔
      isActiveIndexer = true ∧ request.fromLedger ≤ request.toLedger ∧
        request.toLedger.toNat < 2 ^ 63 ∧
        request.toLedger.toNat - request.fromLedger.toNat < 10000 ∧
        (∃ row ∈ table, row.ledger ≤ request.toLedger.toNat) ∧
        ∃ row ∈ table, request.fromLedger.toNat ≤ row.ledger := by
  by_cases hempty : table = []
  · -- an empty table has no range
    subst hempty
    simp only [replayEvents, getIndexedLedgerRange]
    split_ifs <;> simp
  obtain ⟨lower, upper, hrange, hlower, hupper⟩ := min?_map_ledger hempty
  obtain ⟨_, _, hnonneg⟩ := (hlower lower).mp le_rfl
  obtain ⟨last, hlast, hbound⟩ := (hupper upper).mp le_rfl
  have hsmall := hfits last hlast
  have hbefore := hlower request.toLedger.toNat
  have hafter := hupper request.fromLedger.toNat
  simp only [Nat.cast_le] at hbefore hafter
  rw [← hbefore, ← hafter]
  have hfrom := asI64_eq request.fromLedger  -- below 2^63 the casts of the ledgers to i64 are exact
  have hto := asI64_eq request.toLedger
  have hlt := request.toLedger.toNat_lt
  simp only [replayEvents, hrange, UInt64.lt_iff_toNat_lt, UInt64.le_iff_toNat_le,
    UInt64.toNat_add]
  -- with the range in order the difference does not wrap
  by_cases hle : request.fromLedger.toNat ≤ request.toLedger.toNat
  · have hsize := UInt64.toNat_sub_of_le _ _ (UInt64.le_iff_toNat_le.mpr hle)
    have hone : (1 : UInt64).toNat = 1 := rfl
    have hmax : (10000 : UInt64).toNat = 10000 := rfl
    rw [hsize, hone, hmax]
    cases isActiveIndexer
    · split_ifs <;> simp_all
    · simp only [Bool.not_true, Bool.false_eq_true, if_false]
      split_ifs at hfrom hto ⊢ <;> simp <;> omega
  · rw [if_pos (by omega)]
    simp [hle]

end

/-! ### What is stored -/

section
variable {libraries : Libraries} {server : EventServer} {request : ReplayRequest}
  {before : List EventRow} {job next : ReplayJob}

/-- An honest server, of events that fit their column, and statements that go through. -/
def ReplayHonest (server : EventServer) (job : ReplayJob) : ReplayAction → Prop
  | .fetch (.result result) =>
    server.AnswersAt (server.before job.currentLedger) result ∧
      result.latestLedger.toNat < 2 ^ 63
  | .store fails => fails = false
  | _ => True

/-- The events of a page that have been stored so far. -/
def ReplayPhase.done : ReplayPhase → List SorobanEvent
  | .storing result queue => result.events.take (result.events.length - queue.length)
  | _ => []

/-- Every event of the ended pages and of the page under way, up to its queue. -/
def ReplayJob.stored (job : ReplayJob) : List SorobanEvent :=
  job.pages.flatMap (·.result.events) ++ job.phase.done

@[simp] theorem mem_keys_insertIfNew {table : List EventRow} {row : EventRow} {key : EventKey} :
    key ∈ keys (insertIfNew table row) ↔ key ∈ keys table ∨ key = row.key := by
  unfold insertIfNew
  split
  · next hkey => exact ⟨.inl, Or.rec id fun h => h ▸ hkey⟩
  · simp [keys]

theorem mem_keys_storeEvent {table : List EventRow} {event : SorobanEvent} {key : EventKey} :
    key ∈ keys (storeEventWithIdempotency libraries table event false) ↔
      key ∈ keys table ∨ replayable libraries event = true ∧ key = event.key := by
  unfold storeEventWithIdempotency replayable
  by_cases hfits : event.ledger.toNat < 2 ^ 63
  · rw [if_pos hfits, decide_eq_true hfits]
    cases hparse : libraries.parseFromRfc3339 event.ledgerClosedAt with
    | none => simp
    | some timestamp => simp [replayedRow, EventRow.key, SorobanEvent.key]
  · rw [if_neg hfits, decide_eq_false hfits]
    simp

theorem done_storing {result : GetEventsResult} {stored queue : List SorobanEvent}
    (h : result.events = stored ++ queue) :
    (ReplayPhase.storing result queue).done = stored := by
  simp [ReplayPhase.done, h]

/-- The invariant of a job that started over `before`. -/
structure ReplayInv (libraries : Libraries) (server : EventServer) (request : ReplayRequest)
    (before : List EventRow) (job : ReplayJob) : Prop where
  keys : ∀ key, key ∈ keys job.table ↔ key ∈ keys (before ++ job.others) ∨
    ∃ event ∈ job.stored, replayable libraries event = true ∧ event.key = key
  floor : request.fromLedger ≤ job.currentLedger
  answers : ∀ page ∈ job.pages, request.fromLedger ≤ page.startLedger ∧
    server.AnswersAt (server.before page.startLedger) page.result
  storing : ∀ result queue, job.phase = .storing result queue →
    job.currentLedger ≤ request.toLedger ∧ result.latestLedger.toNat < 2 ^ 63 ∧
      server.AnswersAt (server.before job.currentLedger) result ∧
        ∃ stored, result.events = stored ++ queue
  walked : ∀ event : SorobanEvent, request.fromLedger ≤ event.ledger →
    event.ledger < job.currentLedger → ∃ page ∈ job.pages, page.startLedger ≤ event.ledger ∧
      event.ledger ≤ page.result.latestLedger
  behind : ∀ page ∈ job.pages, page.result.latestLedger < job.currentLedger
  apart : job.pages.Pairwise fun later earlier =>
    earlier.result.latestLedger < later.startLedger

theorem replayInv_start (before : List EventRow) :
    ReplayInv libraries server request before (.start before request) := by
  refine ⟨?_, UInt64.le_refl _, by simp [ReplayJob.start], ?_, ?_, by simp [ReplayJob.start],
    .nil⟩
  · simp [ReplayJob.start, ReplayJob.stored, ReplayPhase.done]
  · rintro _ _ ⟨⟩
  · intro event hfrom hlt
    exact absurd hlt (UInt64.not_lt.mpr hfrom)

/-- Ending the job without a page leaves its record as it is. -/
theorem replayInv_finished (h : ReplayInv libraries server request before job)
    (hphase : job.phase = .fetching) (outcome : Except String Unit) :
    ReplayInv libraries server request before { job with phase := .finished outcome } := by
  have hkeys := h.keys
  simp only [ReplayJob.stored, hphase, ReplayPhase.done] at hkeys
  exact ⟨hkeys, h.floor, h.answers, by rintro _ _ ⟨⟩, h.walked, h.behind, h.apart⟩

theorem replayInv_fetch (h : ReplayInv libraries server request before job)
    (hphase : job.phase = .fetching) (hle : job.currentLedger ≤ request.toLedger)
    {answer : ReplayAnswer} (hhonest : ReplayHonest server job (.fetch answer)) :
    ReplayInv libraries server request before (job.fetch answer) := by
  cases answer with
  | transportError msg => exact replayInv_finished h hphase _
  | httpError status => exact replayInv_finished h hphase _
  | rpcError msg => exact replayInv_finished h hphase _
  | noResult => exact replayInv_finished h hphase _
  | result result =>
    obtain ⟨hanswers, hlatest⟩ := hhonest
    have hkeys := h.keys
    simp only [ReplayJob.stored, hphase, ReplayPhase.done] at hkeys
    refine ⟨?_, h.floor, h.answers, ?_, h.walked, h.behind, h.apart⟩
    · simpa [ReplayJob.fetch, ReplayJob.stored, ReplayPhase.done] using hkeys
    · rintro _ _ ⟨⟩
      exact ⟨hle, hlatest, hanswers, [], rfl⟩

theorem replayInv_store (h : ReplayInv libraries server request before job)
    {result : GetEventsResult} {event : SorobanEvent} {rest : List SorobanEvent}
    (hphase : job.phase = .storing result (event :: rest)) :
    ReplayInv libraries server request before
      { job with
        table := storeEventWithIdempotency libraries job.table event false
        phase := .storing result rest } := by
  obtain ⟨hle, hlatest, hanswers, stored, hstored⟩ := h.storing _ _ hphase
  have hstored' : result.events = (stored ++ [event]) ++ rest := by simp [hstored]
  refine ⟨?_, h.floor, h.answers, ?_, h.walked, h.behind, h.apart⟩
  · intro key
    have hkeys := h.keys key
    simp only [ReplayJob.stored, hphase, done_storing hstored] at hkeys
    simp only [ReplayJob.stored, done_storing hstored', mem_keys_storeEvent, hkeys, or_assoc]
    refine or_congr_right ?_
    constructor
    · rintro (⟨other, hother, hreplay, rfl⟩ | ⟨hreplay, rfl⟩)
      · refine ⟨other, ?_, hreplay, rfl⟩
        rw [← List.append_assoc]
        exact List.mem_append_left _ hother
      · exact ⟨event, by simp, hreplay, rfl⟩
    · rintro ⟨other, hother, hreplay, rfl⟩
      simp only [List.mem_append, List.mem_singleton] at hother
      rcases hother with hpages | hdone | rfl
      · exact .inl ⟨other, List.mem_append_left _ hpages, hreplay, rfl⟩
      · exact .inl ⟨other, List.mem_append_right _ hdone, hreplay, rfl⟩
      · exact .inr ⟨hreplay, rfl⟩
  · rintro _ _ ⟨⟩
    exact ⟨hle, hlatest, hanswers, stored ++ [event], hstored'⟩

/-- Two members of a pairwise related list are related one way or the other. -/
theorem pairwise_or {α : Type*} {r : α → α → Prop} {l : List α} (h : l.Pairwise r) {a b : α}
    (ha : a ∈ l) (hb : b ∈ l) (hne : a ≠ b) : r a b ∨ r b a := by
  have hsymm : Std.Symm fun x y => r x y ∨ r y x := ⟨fun _ _ => Or.symm⟩
  have hor : l.Pairwise fun x y => r x y ∨ r y x := h.imp Or.inl
  exact hor.forall ha hb hne

theorem toNat_latest_succ {ledger : UInt64} (h : ledger.toNat + 1 < 2 ^ 64) :
    (ledger + 1).toNat = ledger.toNat + 1 := by
  have hone : (1 : UInt64).toNat = 1 := rfl
  rw [UInt64.toNat_add, hone]
  omega

theorem replayInv_endPage (h : ReplayInv libraries server request before job)
    {result : GetEventsResult} (hphase : job.phase = .storing result []) :
    ReplayInv libraries server request before (job.endPage result) := by
  obtain ⟨hle, hlatest, hanswers, stored, hstored⟩ := h.storing _ _ hphase
  -- ending the page moves its events from the phase into the pages
  have hkeys : ∀ (phase : ReplayPhase) (current : UInt64), phase.done = [] → ∀ key,
      key ∈ keys job.table ↔ key ∈ keys (before ++ job.others) ∨
        ∃ event ∈ ReplayJob.stored
            { job with
              phase, currentLedger := current
              pages := ⟨job.currentLedger, result⟩ :: job.pages },
          replayable libraries event = true ∧ event.key = key := by
    intro phase current hdone key
    rw [h.keys key]
    rw [List.append_nil] at hstored
    have hall : (ReplayPhase.storing result []).done = stored :=
      done_storing (by rw [hstored, List.append_nil])
    simp [ReplayJob.stored, hphase, hall, hdone, hstored, or_and_right, exists_or, or_comm]
  have hanswers' : ∀ page ∈ (⟨job.currentLedger, result⟩ : ReplayedPage) :: job.pages,
      request.fromLedger ≤ page.startLedger ∧
        server.AnswersAt (server.before page.startLedger) page.result := by
    intro page hpage
    rcases List.mem_cons.mp hpage with rfl | hold
    · exact ⟨h.floor, hanswers⟩
    · exact h.answers page hold
  have hapart : ((⟨job.currentLedger, result⟩ : ReplayedPage) :: job.pages).Pairwise
      fun later earlier => earlier.result.latestLedger < later.startLedger :=
    List.pairwise_cons.mpr ⟨h.behind, h.apart⟩
  unfold ReplayJob.endPage
  dsimp only
  split
  · next hforward =>  -- latestLedger is below 2^63, so its successor does not wrap
    have hsucc := @toNat_latest_succ result.latestLedger (by omega)
    have hforward' := UInt64.le_iff_toNat_le.mp hforward
    refine ⟨hkeys .fetching _ rfl, ?_, hanswers', by rintro _ _ ⟨⟩, ?_, ?_, hapart⟩
    · have hfloor := UInt64.le_iff_toNat_le.mp h.floor
      exact UInt64.le_iff_toNat_le.mpr (by dsimp only; omega)
    · -- below the new position: walked before, or in the page that has just ended
      intro event hfrom hlt
      by_cases hold : event.ledger < job.currentLedger
      · obtain ⟨page, hpage, hstep⟩ := h.walked event hfrom hold
        exact ⟨page, List.mem_cons_of_mem _ hpage, hstep⟩
      · refine ⟨_, List.mem_cons_self, UInt64.not_lt.mp hold, ?_⟩
        have hlt' := UInt64.lt_iff_toNat_lt.mp hlt
        exact UInt64.le_iff_toNat_le.mpr (by dsimp only at hlt' ⊢; omega)
    · intro page hpage
      rw [UInt64.lt_iff_toNat_lt]
      dsimp only
      rcases List.mem_cons.mp hpage with rfl | hold
      · dsimp only
        omega
      · have hbehind := UInt64.lt_iff_toNat_lt.mp (h.behind page hold)
        omega
  · -- the server is behind the position, and the job is finished
    next hback =>
    refine ⟨hkeys (.finished (.ok ())) _ rfl, h.floor, hanswers', by rintro _ _ ⟨⟩, ?_, ?_, hapart⟩
    · intro event hfrom hlt
      obtain ⟨page, hpage, hstep⟩ := h.walked event hfrom hlt
      exact ⟨page, List.mem_cons_of_mem _ hpage, hstep⟩
    · intro page hpage
      rcases List.mem_cons.mp hpage with rfl | hold
      · exact UInt64.not_le.mp hback
      · exact h.behind page hold

theorem replayInv_elsewhere (h : ReplayInv libraries server request before job) (row : EventRow) :
    ReplayInv libraries server request before
      { job with table := insertIfNew job.table row, others := row :: job.others } := by
  refine ⟨?_, h.floor, h.answers, h.storing, h.walked, h.behind, h.apart⟩
  intro key
  rw [mem_keys_insertIfNew, h.keys key]
  have hrow : key ∈ keys (before ++ row :: job.others) ↔
      key ∈ keys (before ++ job.others) ∨ key = row.key := by
    simp only [keys, List.map_append, List.map_cons, List.mem_append, List.mem_cons]
    rw [or_assoc, or_comm (a := key = row.key)]
  rw [hrow]
  exact or_right_comm

theorem replayInv_step {action : ReplayAction} (hhonest : ReplayHonest server job action)
    (hstep : job.step libraries request.toLedger action = some next)
    (h : ReplayInv libraries server request before job) :
    ReplayInv libraries server request before next := by
  unfold ReplayJob.step at hstep
  cases action with
  | fetch answer =>
    dsimp only at hstep
    split at hstep
    · next hphase =>
      split at hstep
      · next hle =>
        cases hstep
        exact replayInv_fetch h hphase hle hhonest
      · cases hstep
    · cases hstep
  | store fails =>  -- an honest run's inserts do not fail
    obtain rfl : fails = false := hhonest
    dsimp only at hstep
    split at hstep
    · next hphase =>
      cases hstep
      exact replayInv_store h hphase
    · cases hstep
  | advance =>
    dsimp only at hstep
    split at hstep
    · next hphase =>
      split at hstep
      · cases hstep
      · cases hstep
        exact replayInv_finished h hphase _
    · next hphase =>
      cases hstep
      exact replayInv_endPage h hphase
    · cases hstep
  | elsewhere row =>
    cases hstep
    exact replayInv_elsewhere h row

/-- Between pages, the job has brought in everything of its range that it has gone past exactly if
    every page holds what the job steps over with it. -/
theorem ReplayJob.replayed_iff (libraries : Libraries) (server : EventServer)
    (request : ReplayRequest) (before : List EventRow) (actions : List ReplayAction)
    (job : ReplayJob)
    (hidentified : ∀ a ∈ server.events, ∀ b ∈ server.events, a.key = b.key → a = b)
    (hrun : Run (ReplayJob.step libraries request.toLedger) (ReplayHonest server)
      (.start before request) actions job)
    (hbetween : ∀ result queue, job.phase ≠ .storing result queue) :
    (∀ event ∈ server.events, replayable libraries event = true →
      request.fromLedger ≤ event.ledger → event.ledger ≤ request.toLedger →
        event.ledger < job.currentLedger → event.key ∈ keys job.table) ↔
      ∀ page ∈ job.pages, ∀ event ∈ server.events, replayable libraries event = true →
        page.startLedger ≤ event.ledger → event.ledger ≤ page.result.latestLedger →
          event.ledger ≤ request.toLedger →
            event ∈ page.result.events ∨ event.key ∈ keys (before ++ job.others) := by
  have h : ReplayInv libraries server request before job :=
    hrun.invariant (fun hhonest hstep => replayInv_step hhonest hstep) (replayInv_start before)
  have hstored : job.stored = job.pages.flatMap (·.result.events) := by
    cases hphase : job.phase with
    | storing result queue => exact absurd hphase (hbetween result queue)
    | fetching => simp [ReplayJob.stored, hphase, ReplayPhase.done]
    | finished outcome => simp [ReplayJob.stored, hphase, ReplayPhase.done]
  constructor
  · intro hcovered page hpage event hevent hreplay hstart hlatest hto
    have hfrom := UInt64.le_trans (h.answers page hpage).1 hstart
    have hpast := UInt64.lt_of_le_of_lt hlatest (h.behind page hpage)
    rcases (h.keys event.key).mp (hcovered event hevent hreplay hfrom hto hpast) with
      hold | ⟨other, hother, _, hkey⟩
    · exact .inr hold
    rw [hstored, List.mem_flatMap] at hother
    obtain ⟨holder, hholder, hmem⟩ := hother
    obtain ⟨_, hanswers⟩ := h.answers holder hholder
    obtain rfl := hidentified other (hanswers.subset hmem) event hevent hkey
    -- the pages' ledgers do not overlap
    by_cases hsame : holder = page
    · exact .inl (hsame ▸ hmem)
    have hle := hanswers.le_latest hmem
    have hge := hanswers.start_le hmem
    rcases pairwise_or h.apart hholder hpage hsame with hlt | hlt
    · exact absurd (UInt64.lt_of_le_of_lt hlatest hlt) (UInt64.not_lt.mpr hge)
    · exact absurd (UInt64.lt_of_le_of_lt hle hlt) (UInt64.not_lt.mpr hstart)
  · intro hpages event hevent hreplay hfrom hto hpast
    obtain ⟨page, hpage, hstart, hlatest⟩ := h.walked event hfrom hpast
    rw [h.keys]
    rcases hpages page hpage event hevent hreplay hstart hlatest hto with hmem | hold
    · refine .inr ⟨event, ?_, hreplay, rfl⟩
      rw [hstored]
      exact List.mem_flatMap.mpr ⟨page, hpage, hmem⟩
    · exact .inl hold

/-! ### What it costs -/

/-- A call of the RPC server. -/
def ReplayAction.isFetch : ReplayAction → Bool
  | .fetch _ => true
  | _ => false

/-- After `calls` calls: each one that was answered has moved the job on by a ledger at least. -/
structure ReplayCost (request : ReplayRequest) (calls : ℕ) (job : ReplayJob) : Prop where
  bound : calls ≤ request.toLedger.toNat + 1 - request.fromLedger.toNat
  fetching : job.phase = .fetching → request.fromLedger.toNat + calls ≤ job.currentLedger.toNat
  storing : ∀ result queue, job.phase = .storing result queue →
    request.fromLedger.toNat + calls ≤ job.currentLedger.toNat + 1 ∧
      result.latestLedger.toNat + 1 < 2 ^ 64

/-- The latest ledger of an answer has a successor. -/
def LatestFits : ReplayAction → Prop
  | .fetch (.result result) => result.latestLedger.toNat + 1 < 2 ^ 64
  | _ => True

theorem replayCost_endPage {calls : ℕ} {result : GetEventsResult}
    (hphase : job.phase = .storing result []) (h : ReplayCost request calls job) :
    ReplayCost request calls (job.endPage result) := by
  obtain ⟨hcalls, hfits⟩ := h.storing _ _ hphase
  unfold ReplayJob.endPage
  dsimp only
  split
  · next hforward =>
    have hforward' := UInt64.le_iff_toNat_le.mp hforward
    have hsucc := toNat_latest_succ hfits
    refine ⟨h.bound, fun _ => ?_, by rintro _ _ ⟨⟩⟩
    dsimp only
    omega
  · exact ⟨h.bound, by rintro ⟨⟩, by rintro _ _ ⟨⟩⟩

theorem replayCost_step {calls : ℕ} {action : ReplayAction} (hlatest : LatestFits action)
    (hstep : job.step libraries request.toLedger action = some next)
    (h : ReplayCost request calls job) :
    ReplayCost request (calls + if action.isFetch then 1 else 0) next := by
  cases action with
  | fetch answer =>
    simp only [ReplayJob.step] at hstep
    split at hstep
    · next hphase =>
      split at hstep
      · next hle =>  -- one call more, and the position was still in the range
        have hle' := UInt64.le_iff_toNat_le.mp hle
        have hcalls := h.fetching hphase
        have hbound : calls + 1 ≤ request.toLedger.toNat + 1 - request.fromLedger.toNat := by omega
        cases hstep
        cases answer with
        | result result =>
          refine ⟨hbound, by rintro ⟨⟩, ?_⟩
          rintro _ _ ⟨⟩
          have hmoved : request.fromLedger.toNat + (calls + 1) ≤ job.currentLedger.toNat + 1 := by
            omega
          exact ⟨hmoved, hlatest⟩
        | transportError _ | httpError _ | rpcError _ | noResult =>  -- a failed call ends the job
          exact ⟨hbound, by rintro ⟨⟩, by rintro _ _ ⟨⟩⟩
      · cases hstep
    · cases hstep
  | store fails =>
    simp only [ReplayJob.step] at hstep
    split at hstep
    · next hphase =>
      cases hstep
      refine ⟨h.bound, by rintro ⟨⟩, ?_⟩
      rintro _ _ ⟨⟩
      exact h.storing _ _ hphase  -- storing makes no calls
    · cases hstep
  | advance =>
    simp only [ReplayJob.step] at hstep
    split at hstep
    · split at hstep
      · cases hstep
      · cases hstep
        exact ⟨h.bound, by rintro ⟨⟩, by rintro _ _ ⟨⟩⟩
    · next hphase =>
      cases hstep
      -- the next position is above this page's, as latestLedger + 1 does not wrap
      exact replayCost_endPage hphase h
    · cases hstep
  | elsewhere row =>
    cases hstep
    exact ⟨h.bound, h.fetching, h.storing⟩

/-- Where the rows come from, when the calls have brought these events. -/
structure RowsFrom (before : List EventRow) (brought : SorobanEvent → Prop) (job : ReplayJob) :
    Prop where
  rows : ∀ row ∈ job.table, row ∈ before ∨ row ∈ job.others ∨
    ∃ event timestamp, brought event ∧ row = replayedRow event timestamp
  queue : ∀ result queue, job.phase = .storing result queue → ∀ event ∈ queue, brought event

theorem mem_insertIfNew {table : List EventRow} {row r : EventRow}
    (h : r ∈ insertIfNew table row) : r ∈ table ∨ r = row := by
  unfold insertIfNew at h
  split at h
  · exact .inl h
  · exact (List.mem_append.mp h).imp_right List.mem_singleton.mp

theorem mem_storeEvent {table : List EventRow} {event : SorobanEvent} {fails : Bool}
    {row : EventRow} (h : row ∈ storeEventWithIdempotency libraries table event fails) :
    row ∈ table ∨ ∃ timestamp, row = replayedRow event timestamp := by
  unfold storeEventWithIdempotency at h
  split at h
  · split at h
    · exact .inl h
    · next timestamp _ =>
      split at h
      · exact .inl h
      · exact (mem_insertIfNew h).imp_right fun hrow => ⟨timestamp, hrow⟩
  · exact .inl h

theorem rowsFrom_step {brought : SorobanEvent → Prop} {action : ReplayAction}
    (hbrought : ∀ result, action = .fetch (.result result) → ∀ event ∈ result.events, brought event)
    (hstep : job.step libraries request.toLedger action = some next)
    (h : RowsFrom before brought job) : RowsFrom before brought next := by
  cases action with
  | fetch answer =>
    simp only [ReplayJob.step] at hstep
    split at hstep
    · split at hstep
      · cases hstep
        cases answer with
        | result result =>
          refine ⟨h.rows, ?_⟩
          rintro _ _ ⟨⟩  -- what an answer brings is in the queue
          exact hbrought result rfl
        | transportError _ | httpError _ | rpcError _ | noResult =>
          exact ⟨h.rows, by rintro _ _ ⟨⟩⟩
      · cases hstep
    · cases hstep
  | store fails =>
    simp only [ReplayJob.step] at hstep
    split at hstep
    · next event rest hphase =>
      cases hstep
      have hqueue := h.queue _ _ hphase
      refine ⟨?_, ?_⟩
      · intro row hrow
        -- an insert that succeeds adds the event's row, one that fails adds nothing
        rcases mem_storeEvent hrow with hold | ⟨timestamp, hnew⟩
        · exact h.rows row hold
        · exact .inr (.inr ⟨event, timestamp, hqueue event List.mem_cons_self, hnew⟩)
      · rintro _ _ ⟨⟩
        exact fun other hother => hqueue other (List.mem_cons_of_mem _ hother)
    · cases hstep
  | advance =>
    simp only [ReplayJob.step] at hstep
    split at hstep
    · split at hstep
      · cases hstep
      · cases hstep
        exact ⟨h.rows, by rintro _ _ ⟨⟩⟩
    · cases hstep
      unfold ReplayJob.endPage
      dsimp only
      split <;> exact ⟨h.rows, by rintro _ _ ⟨⟩⟩
    · cases hstep
  | elsewhere row =>
    cases hstep
    refine ⟨?_, h.queue⟩
    intro r hr
    rcases mem_insertIfNew hr with hold | rfl
    · -- a row of another writer counts as one of those
      exact (h.rows r hold).imp_right (Or.imp_left (List.mem_cons_of_mem _))
    · exact .inr (.inl List.mem_cons_self)

/-- An accepted request makes at most 10,000 calls, whatever their answers hold, and the rows that
    it leaves are old ones, those of others, and those of events that a call has brought. -/
theorem ReplayJob.bounded (libraries : Libraries) (request : ReplayRequest)
    (isActiveIndexer : Bool) (before : List EventRow) (warning : Option String)
    (actions : List ReplayAction) (job : ReplayJob)
    (hfits : ∀ row ∈ before, row.ledger < 2 ^ 63)
    (haccepted : replayEvents isActiveIndexer before request = .ok warning)
    (hlatest : ∀ action ∈ actions, LatestFits action)
    (hrun : AnyRun (ReplayJob.step libraries request.toLedger) (.start before request) actions job) :
    actions.countP ReplayAction.isFetch ≤ 10000 ∧
      ∀ row ∈ job.table, row ∈ before ∨ row ∈ job.others ∨
        ∃ result event timestamp, .fetch (.result result) ∈ actions ∧ event ∈ result.events ∧
          row = replayedRow event timestamp := by
  obtain ⟨_, hrange, _, hsize, _⟩ := (replayEvents_ok_iff hfits).mp ⟨warning, haccepted⟩
  constructor
  · have hcost : ReplayCost request 0 (.start before request) :=
      ⟨Nat.zero_le _, fun _ => le_rfl, by rintro _ _ ⟨⟩⟩
    have hend := (AnyRun.of_forall (P := fun _ a => LatestFits a) (fun a ha _ => hlatest a ha)
      hrun).countP_invariant ReplayAction.isFetch replayCost_step hcost
    have hbound := hend.bound
    omega
  · let brought (event : SorobanEvent) : Prop :=
      ∃ result, .fetch (.result result) ∈ actions ∧ event ∈ result.events
    have hstart : RowsFrom before brought (.start before request) :=
      ⟨fun _ hrow => .inl hrow, by rintro _ _ ⟨⟩⟩
    have hlabels : ∀ a ∈ actions, ∀ result, a = .fetch (.result result) →
        ∀ event ∈ result.events, brought event := by
      rintro _ ha result rfl event hevent
      exact ⟨result, ha, hevent⟩
    have hend := (AnyRun.of_forall (fun a ha _ => hlabels a ha) hrun).invariant rowsFrom_step hstart
    intro row hrow
    refine (hend.rows row hrow).imp_right (Or.imp_right ?_)
    rintro ⟨event, timestamp, ⟨result, hfetch, hevent⟩, heq⟩
    exact ⟨result, event, timestamp, hfetch, hevent, heq⟩

/-! ### One page, and the end of the server -/

def sampleReplay : ReplayRequest := { fromLedger := 90, toLedger := 110 }

/-- Rows of ledgers 90 and 110, the indexed window. -/
def sampleIndexed : List EventRow :=
  [{ replayedRow sampleEvent 0 with txHash := "first", ledger := 90 },
    { replayedRow sampleEvent 0 with txHash := "last", ledger := 110 }]

def emptyAnswer : GetEventsResult where
  events := []
  latestLedger := 101
  rpcCursor := none

def replayOnePage : List ReplayAction :=
  [.fetch (.result sampleAnswer), .store false, .advance, .fetch (.result emptyAnswer), .advance]

def replayedOnce : ReplayJob :=
  (exec (ReplayJob.step sampleLibraries 110) (.start sampleIndexed sampleReplay)
    replayOnePage).get (by decide +kernel)

theorem replayedOnce_run :
    Run (ReplayJob.step sampleLibraries 110) (ReplayHonest sampleServer)
      (.start sampleIndexed sampleReplay) replayOnePage replayedOnce := by
  refine .cons ⟨?_, by decide⟩ rfl (.cons rfl rfl (.cons trivial rfl
    (.cons ⟨?_, by decide⟩ rfl (.cons trivial rfl (.nil _)))))
  · exact sampleAnswer_answersAt
  · exact ⟨List.nil_prefix, .inl rfl, by rintro _ ⟨⟩, fun _ => by decide⟩

theorem replayed_replayedOnce : sampleEvent.key ∈ keys replayedOnce.table := by
  refine (ReplayJob.replayed_iff sampleLibraries sampleServer sampleReplay sampleIndexed
    replayOnePage replayedOnce (by simp [sampleServer]) replayedOnce_run ?_).mpr ?_ sampleEvent
    List.mem_cons_self (by decide) (by decide) (by decide) (by decide +kernel)
  · rintro _ _ ⟨⟩
  · have hpages : replayedOnce.pages = [⟨102, emptyAnswer⟩, ⟨90, sampleAnswer⟩] := rfl
    rw [hpages]
    intro page hpage event hevent _ hstart _ _
    obtain rfl := List.mem_singleton.mp hevent
    rcases List.mem_cons.mp hpage with rfl | hpage
    · exact absurd hstart (by decide)
    · obtain rfl := List.mem_singleton.mp hpage
      exact .inl List.mem_cons_self

theorem bounded_replayedOnce : replayOnePage.countP ReplayAction.isFetch ≤ 10000 := by
  refine (ReplayJob.bounded sampleLibraries sampleReplay true sampleIndexed none replayOnePage
    replayedOnce (by decide) (by decide +kernel) ?_ (anyRun_iff_exec.mpr rfl)).1
  have hsample : LatestFits (.fetch (.result sampleAnswer)) := by
    change sampleAnswer.latestLedger.toNat + 1 < 2 ^ 64
    decide
  have hempty : LatestFits (.fetch (.result emptyAnswer)) := by
    change emptyAnswer.latestLedger.toNat + 1 < 2 ^ 64
    decide
  simp [replayOnePage, hsample, hempty, LatestFits.eq_def (.store _), LatestFits.eq_def .advance]

end

end SorobanPulse.Ingest
