import SorobanPulse.Erasure.Anonymize
import SorobanPulse.Ingest.Checkpoint

/-! Ingesting an event again after it was anonymized.

    An insert is kept from doubling an event by the filters and by the unique index on
    (tx_hash, contract_id, event_type). Anonymizing rewrites tx_hash, so that the index no longer
    knows the event:

        store e ──▶ (tx, c, t) ──anonymize──▶ (sha256 tx, c, t)
        replay e ─────────────────────────────▶ (tx, c, t), with the payload

    The filters of the live path still hold the key, until the ledger changes, the filter rotates or
    the process restarts; the replay path has no filters. -/

namespace SorobanPulse.Erasure
open Ingest Lib

/-- The database, the indexer's filters and, for the record, the event each row was inserted for. -/
structure ReingestState where
  db : Db
  filters : DedupFilters
  origin : Uuid → SorobanEvent

inductive ReingestAction where
  /-- `store_event_in_tx`, with the id its row would draw, and the fate of its transaction. -/
  | store (event : SorobanEvent) (id : Uuid) (fault : Option Statement) (committed : Bool)
  /-- `store_event_with_idempotency`; does its statement succeed? -/
  | replay (event : SorobanEvent) (id : Uuid) (succeeds : Bool)
  | anonymize (id : Uuid)
  /-- A restart, with the filters it comes up with. -/
  | restart (filters : DedupFilters)

/-- The settings and libraries of a run. -/
structure Setting where
  config : Config
  libraries : Libraries
  enrichment : Enrichment
  casts : DoubleCasts

variable (setting : Setting)

def ReingestState.rows (s : ReingestState) : List EventRow := s.db.events.map (·.toEventRow)

/-- An insert, under an id that no row has. -/
def ReingestState.add (s : ReingestState) (event : SorobanEvent) (record : EventRecord)
    (addresses : List EventAddress) : ReingestState :=
  match s.db.insert setting.casts record addresses with
  | none => s
  | some db => { s with db, origin := fun i => if i = record.id then event else s.origin i }

def ReingestState.store (s : ReingestState) (event : SorobanEvent) (id : Uuid)
    (fault : Option Statement) (committed : Bool) : ReingestState :=
  let out := storeEventInTx setting.config setting.libraries s.rows s.filters .begin event fault
  if committed && !out.2.1.aborted then
    match out.2.1.rows with
    | row :: _ =>
      { s with filters := out.1 }.add setting event
        (storedRecord setting.enrichment id event row) (storedAddresses row)
    | [] => { s with filters := out.1 }
  else { s with filters := out.1 }

def ReingestState.replay (s : ReingestState) (event : SorobanEvent) (id : Uuid) (succeeds : Bool) :
    ReingestState :=
  if 2 ^ 63 ≤ event.ledger.toNat then s  -- `i64::try_from`
  else
    match setting.libraries.parseFromRfc3339 event.ledgerClosedAt with
    | none => s
    | some timestamp =>
      if succeeds then s.add setting event (replayedRecord id event timestamp) [] else s

/-- A request that fails leaves the database as it is. -/
def ReingestState.anonymize (s : ReingestState) (id : Uuid) : ReingestState :=
  match anonymizeEvent setting.casts setting.enrichment.sha256 s.db id with
  | .ok db => { s with db }
  | .error _ => s

def ReingestState.step (s : ReingestState) : ReingestAction → Option ReingestState
  | .store event id fault committed =>
    if (s.db.row id).isNone then some (s.store setting event id fault committed) else none
  | .replay event id succeeds =>
    if (s.db.row id).isNone then some (s.replay setting event id succeeds) else none
  | .anonymize id => some (s.anonymize setting id)
  | .restart filters => some { s with filters }

/-! ### Erasure that lasts -/

/-- An anonymized row holds no payload, and its event has no other row. -/
def NoResurrection (s : ReingestState) : Prop :=
  ∀ a ∈ s.db.events, a.anonymized = true → a.eventData = ANONYMIZED ∧
    ∀ b ∈ s.db.events, b.id ≠ a.id → s.origin b.id ≠ s.origin a.id

/-- Rows still to be anonymized, under the keys of their events. -/
structure ReingestState.Started (s : ReingestState) : Prop where
  fresh : ∀ a ∈ s.db.events, a.anonymized = false
  key : ∀ a ∈ s.db.events, a.key = (s.origin a.id).key

/-- `NoResurrection` in every state of every run. -/
def ErasureLasts : Prop :=
  ∀ (s : ReingestState) (actions : List ReingestAction) (t : ReingestState), s.Started →
    AnyRun (ReingestState.step setting) s actions t → NoResurrection t

/-- The event of an anonymized row. -/
def Forgotten (s : ReingestState) (event : SorobanEvent) : Prop :=
  ∃ a ∈ s.db.events, a.anonymized = true ∧ s.origin a.id = event

/-- Does an ingestion come to its insert and find its key free? -/
def Inserts (s : ReingestState) : ReingestAction → Prop
  | .store event _ fault committed =>
    s.filters.seen event = false ∧
      (∃ row, prepareRow setting.config setting.libraries event = .ok (some row)) ∧
      event.key ∉ s.db.events.map (·.key) ∧ fault = none ∧ committed = true
  | .replay event _ succeeds =>
    event.ledger.toNat < 2 ^ 63 ∧
      (setting.libraries.parseFromRfc3339 event.ledgerClosedAt).isSome = true ∧
      event.key ∉ s.db.events.map (·.key) ∧ succeeds = true
  | .anonymize _ => False
  | .restart _ => False

def ReingestAction.event : ReingestAction → Option SorobanEvent
  | .store event _ _ _ => some event
  | .replay event _ _ => some event
  | .anonymize _ => none
  | .restart _ => none

/-- No forgotten event comes to its insert and finds its key free. -/
def Suppressed (s : ReingestState) (action : ReingestAction) : Prop :=
  ∀ event ∈ action.event, Forgotten s event → ¬ Inserts setting s action

/-! ### What a step can do -/

/-- One row more, for this event. -/
structure Adds (s : ReingestState) (event : SorobanEvent) (t : ReingestState) (record : EventRecord) :
    Prop where
  events : t.db.events = s.db.events ++ [record]
  origin : t.origin record.id = event
  others : ∀ a ∈ s.db.events, a.id ≠ record.id ∧ t.origin a.id = s.origin a.id
  key : record.key = event.key
  fresh : record.anonymized = false

/-- The same rows, for the same events. -/
structure Keeps (s t : ReingestState) : Prop where
  events : t.db.events = s.db.events
  origin : ∀ a ∈ s.db.events, t.origin a.id = s.origin a.id

section
variable {setting} {s t : ReingestState} {event : SorobanEvent} {id : Uuid}
  {fault : Option Statement} {committed : Bool} {record : EventRecord}
  {addresses : List EventAddress} {action : ReingestAction}

theorem not_mem_of_row_isNone (h : (s.db.row id).isNone = true) : ∀ a ∈ s.db.events, a.id ≠ id := by
  rintro a ha rfl
  rw [Db.row_eq_some.mpr ⟨ha, rfl⟩] at h
  cases h

/-- A row of the indexer's payload passes the trigger. -/
theorem add_eq (hdata : record.eventData = eventData event) :
    ∃ db, s.add setting event record addresses =
        { s with db, origin := fun i => if i = record.id then event else s.origin i } ∧
      db.events = if record.id ∉ s.db.events.map (·.id) ∧ record.key ∉ s.db.events.map (·.key)
        then s.db.events ++ [record] else s.db.events := by
  rw [ReingestState.add, Db.insert, extractCoordinates_eventData setting.casts hdata]
  refine ⟨_, rfl, ?_⟩
  by_cases hfree : record.id ∉ s.db.events.map (·.id) ∧ record.key ∉ s.db.events.map (·.key)
  · rw [if_pos hfree]
    exact congrArg Db.events (dif_pos hfree)
  · rw [if_neg hfree]
    exact congrArg Db.events (dif_neg hfree)

theorem adds_add (filters : DedupFilters) (hid : ∀ a ∈ s.db.events, a.id ≠ record.id)
    (hdata : record.eventData = eventData event) (hkey : record.key = event.key)
    (hfresh : record.anonymized = false) (hnew : event.key ∉ s.db.events.map (·.key)) :
    Adds s event (ReingestState.add setting { s with filters } event record addresses) record := by
  obtain ⟨db, heq, hevents⟩ := @add_eq setting { s with filters } event record addresses hdata
  have hfree : record.id ∉ s.db.events.map (·.id) ∧ record.key ∉ s.db.events.map (·.key) := by
    refine ⟨?_, hkey ▸ hnew⟩
    intro hmem
    obtain ⟨a, ha, hsame⟩ := List.mem_map.mp hmem
    exact hid a ha hsame
  rw [heq]
  refine ⟨?_, if_pos rfl, ?_, hkey, hfresh⟩
  · rw [hevents, if_pos hfree]
  · exact fun a ha => ⟨hid a ha, if_neg (hid a ha)⟩

/-- The transaction of a single event. -/
theorem storeEventInTx_begin (config : Config) (libraries : Libraries) (table : List EventRow)
    (filters : DedupFilters) (event : SorobanEvent) (fault : Option Statement) :
    (∃ row, filters.seen event = false ∧ prepareRow config libraries event = .ok (some row) ∧
      event.key ∉ keys table ∧ fault = none ∧ row.key = event.key ∧
      (storeEventInTx config libraries table filters .begin event fault).2.1
        = { rows := [row], aborted := false }) ∨
    ((filters.seen event = true ∨
        (∀ row, prepareRow config libraries event ≠ .ok (some row)) ∨ event.key ∈ keys table ∨
        fault ≠ none) ∧
      (storeEventInTx config libraries table filters .begin event fault).2.1.rows = []) := by
  cases hseen : filters.seen event with
  | true =>
    right
    rw [storeEventInTx_of_seen hseen]
    exact ⟨.inl rfl, rfl⟩
  | false =>
    by_cases hprepared : ∃ row, prepareRow config libraries event = .ok (some row)
    · obtain ⟨row, hrow⟩ := hprepared
      have hkey : row.key = event.key := by  -- the prepared row is stored under the event's key
        obtain ⟨timestamp, _, rfl⟩ := prepareRow_eq_some hrow
        rfl
      rw [storeEventInTx_tx hseen hrow, insertRow, hkey]
      by_cases hknown : event.key ∈ keys table  -- ON CONFLICT DO NOTHING adds no row
      · right
        refine ⟨.inr (.inr (.inl hknown)), ?_⟩
        split
        · rfl
        · rw [if_pos (by simpa [Transaction.begin] using hknown)]
          rfl
      · cases fault with
        | none =>
          left
          refine ⟨row, rfl, hrow, hknown, rfl, hkey, ?_⟩
          rw [if_neg (by simp [Transaction.begin]), if_neg (by simpa [Transaction.begin] using hknown),
            if_neg (by simp)]
          rfl
        | some statement =>
          right
          refine ⟨.inr (.inr (.inr (by simp))), ?_⟩
          -- before the row is in or after it, the transaction is aborted and keeps none
          cases statement with
          | insert => rw [if_pos (.inr rfl)]; rfl
          | afterInsert =>
            rw [if_neg (by simp [Transaction.begin]),
              if_neg (by simpa [Transaction.begin] using hknown), if_pos rfl]
            rfl
    · right
      rw [storeEventInTx_of_unprepared fun row hrow => hprepared ⟨row, hrow⟩]
      exact ⟨.inr (.inl fun row hrow => hprepared ⟨row, hrow⟩), rfl⟩

theorem keys_rows_eq (s : ReingestState) : keys s.rows = s.db.events.map (·.key) := by
  rw [keys, ReingestState.rows, List.map_map]
  rfl

theorem store_cases (hid : ∀ a ∈ s.db.events, a.id ≠ id) :
    (Inserts setting s (.store event id fault committed) ∧
      ∃ record, Adds s event (s.store setting event id fault committed) record) ∨
    (¬ Inserts setting s (.store event id fault committed) ∧
      Keeps s (s.store setting event id fault committed)) := by
  unfold ReingestState.store
  dsimp only
  have hcases := storeEventInTx_begin setting.config setting.libraries s.rows s.filters event fault
  rw [keys_rows_eq] at hcases
  rcases hcases with ⟨row, hseen, hrow, hnew, hfault, hkey, htx⟩ | ⟨hstop, hrows⟩
  · rw [htx]
    cases committed with
    | true =>
      refine .inl ⟨⟨hseen, ⟨row, hrow⟩, hnew, hfault, rfl⟩,
        storedRecord setting.enrichment id event row, ?_⟩
      obtain ⟨timestamp, _, hprepared⟩ := prepareRow_eq_some hrow
      exact adds_add _ hid (by rw [hprepared]; rfl) hkey rfl hnew
    | false =>
      refine .inr ⟨?_, rfl, fun _ _ => rfl⟩
      rintro ⟨_, _, _, _, hcommitted⟩
      cases hcommitted
  · rw [hrows]
    refine .inr ⟨?_, ?_, ?_⟩
    · rintro ⟨hseen, ⟨row, hrow⟩, hnew, hfault, _⟩
      rcases hstop with h | h | h | h
      · rw [hseen] at h
        cases h
      · exact h row hrow
      · exact hnew h
      · exact h hfault
    · split <;> rfl
    · split <;> exact fun _ _ => rfl

theorem replay_cases (hid : ∀ a ∈ s.db.events, a.id ≠ id) :
    (Inserts setting s (.replay event id committed) ∧
      ∃ record, Adds s event (s.replay setting event id committed) record) ∨
    (¬ Inserts setting s (.replay event id committed) ∧
      Keeps s (s.replay setting event id committed)) := by
  unfold ReingestState.replay
  split
  · -- the ledger does not fit the column
    next hledger =>
    refine .inr ⟨?_, rfl, fun _ _ => rfl⟩
    rintro ⟨hfits, _⟩
    omega
  · next hledger =>
    split
    · -- the timestamp cannot be read
      next hparse =>
      refine .inr ⟨?_, rfl, fun _ _ => rfl⟩
      rintro ⟨_, hsome, _⟩
      rw [hparse] at hsome
      cases hsome
    · next timestamp hparse =>
      cases committed with
      | false =>  -- the statement fails
        refine .inr ⟨?_, rfl, fun _ _ => rfl⟩
        rintro ⟨_, _, _, hsucceeds⟩
        cases hsucceeds
      | true =>
        rw [if_pos rfl]
        by_cases hnew : event.key ∈ s.db.events.map (·.key)  -- has another row the key?
        · obtain ⟨db, heq, hevents⟩ := @add_eq setting s event (replayedRecord id event timestamp) [] rfl
          rw [heq]
          refine .inr ⟨fun hinserts => hinserts.2.2.1 hnew, ?_, fun a ha => if_neg (hid a ha)⟩
          rw [hevents, if_neg fun h => h.2 hnew]
        · refine .inl ⟨⟨by omega, by rw [hparse]; rfl, hnew, rfl⟩,
            replayedRecord id event timestamp, ?_⟩
          exact adds_add s.filters hid rfl rfl rfl hnew

theorem ingest_cases (hstep : s.step setting action = some t) (hevent : action.event = some event) :
    (Inserts setting s action ∧ ∃ record, Adds s event t record) ∨
      (¬ Inserts setting s action ∧ Keeps s t) := by
  cases action with
  | store e id fault committed =>
    cases hevent
    rw [ReingestState.step] at hstep
    split at hstep
    · next hnone =>
      cases hstep
      exact store_cases (not_mem_of_row_isNone hnone)
    · cases hstep
  | replay e id succeeds =>
    cases hevent
    rw [ReingestState.step] at hstep
    split at hstep
    · next hnone =>
      cases hstep
      exact replay_cases (not_mem_of_row_isNone hnone)
    · cases hstep
  | anonymize id => cases hevent
  | restart filters => cases hevent

/-- Anonymizing rewrites one row that was not flagged, or nothing. -/
theorem anonymize_cases (setting : Setting) (s : ReingestState) (id : Uuid) :
    s.anonymize setting id = s ∨ ∃ hashedTx,
      (s.anonymize setting id).db.events = s.db.events.map (anonymizeIf id hashedTx) ∧
        (s.anonymize setting id).origin = s.origin := by
  unfold ReingestState.anonymize anonymizeEvent
  split
  · next db hok =>
    split at hok
    · cases hok
    · next row hrow =>
      split at hok
      · cases hok
        exact .inl rfl
      · exact .inr ⟨_, (events_update hok).1, rfl⟩
  · exact .inl rfl

/-! ### What a run keeps -/

/-- A row that is not anonymized has its event's key. -/
def Keyed (s : ReingestState) : Prop :=
  ∀ a ∈ s.db.events, a.anonymized = false → a.key = (s.origin a.id).key

theorem Keeps.noResurrection (h : Keeps s t) (hs : NoResurrection s) : NoResurrection t := by
  intro a ha hflag
  rw [h.events] at ha
  refine ⟨(hs a ha hflag).1, ?_⟩
  intro b hb hne
  rw [h.events] at hb
  rw [h.origin a ha, h.origin b hb]
  exact (hs a ha hflag).2 b hb hne

theorem Keeps.keyed (h : Keeps s t) (hs : Keyed s) : Keyed t := by
  intro a ha hflag
  rw [h.events] at ha
  rw [h.origin a ha]
  exact hs a ha hflag

theorem Adds.keyed (h : Adds s event t record) (hs : Keyed s) : Keyed t := by
  intro a ha hflag
  rw [h.events] at ha
  rcases List.mem_append.mp ha with hold | hnew
  · rw [(h.others a hold).2]
    exact hs a hold hflag
  · rw [List.mem_singleton.mp hnew, h.origin]
    exact h.key

/-- A new row revives a forgotten event, and nothing else does. -/
theorem Adds.noResurrection_iff (h : Adds s event t record) (hs : NoResurrection s) :
    NoResurrection t ↔ ¬ Forgotten s event := by
  have hmem : record ∈ t.db.events := by
    rw [h.events]
    exact List.mem_append_right _ (List.mem_singleton.mpr rfl)
  constructor
  · rintro ht ⟨a, ha, hflag, horigin⟩
    obtain ⟨hne, hkept⟩ := h.others a ha
    have hat : a ∈ t.db.events := by
      rw [h.events]
      exact List.mem_append_left _ ha
    refine (ht a hat hflag).2 record hmem (Ne.symm hne) ?_
    rw [h.origin, hkept, horigin]
  · intro hforgotten a ha hflag
    rw [h.events] at ha
    rcases List.mem_append.mp ha with hold | hnew
    · obtain ⟨hne, hkept⟩ := h.others a hold
      refine ⟨(hs a hold hflag).1, ?_⟩
      intro b hb hba
      rw [h.events] at hb
      rw [hkept]
      rcases List.mem_append.mp hb with hbold | hbnew
      · rw [(h.others b hbold).2]
        exact (hs a hold hflag).2 b hbold hba
      · rw [List.mem_singleton.mp hbnew, h.origin]
        rintro rfl
        exact hforgotten ⟨a, hold, hflag, rfl⟩
    · rw [List.mem_singleton.mp hnew, h.fresh] at hflag
      cases hflag

theorem anonymizeIf_keyed {hashedTx : String}
    (hevents : t.db.events = s.db.events.map (anonymizeIf id hashedTx)) (horigin : t.origin = s.origin)
    (hs : Keyed s) : Keyed t := by
  intro a' ha' hflag
  rw [hevents] at ha'
  obtain ⟨a, ha, rfl⟩ := List.mem_map.mp ha'
  rw [horigin, anonymizeIf_id]
  unfold anonymizeIf at hflag ⊢
  split at hflag
  · cases hflag
  · next hid =>
    rw [if_neg hid]
    exact hs a ha hflag

/-- Anonymizing keeps other rows of the event away, because before it there were none. -/
theorem anonymizeIf_noResurrection {hashedTx : String}
    (hevents : t.db.events = s.db.events.map (anonymizeIf id hashedTx)) (horigin : t.origin = s.origin)
    (hs : NoResurrection s) (hkeyed : Keyed s) : NoResurrection t := by
  intro a' ha' hflag
  rw [hevents] at ha'
  obtain ⟨a, ha, rfl⟩ := List.mem_map.mp ha'
  have hothers : ∀ b ∈ s.db.events, b.id ≠ a.id → s.origin b.id ≠ s.origin a.id := by
    intro b hb hne heq
    cases ha₁ : a.anonymized with
    | true => exact (hs a ha ha₁).2 b hb hne heq
    | false =>
      cases hb₁ : b.anonymized with
      | true => exact (hs b hb hb₁).2 a ha (Ne.symm hne) heq.symm
      | false =>
        -- two rows of one event would share its key
        have hkey : b.key = a.key := by rw [hkeyed a ha ha₁, hkeyed b hb hb₁, heq]
        exact hne (congrArg _ (List.inj_on_of_nodup_map s.db.uniqueKey hb ha hkey))
  refine ⟨?_, ?_⟩
  · unfold anonymizeIf at hflag ⊢
    split
    · rfl
    · next hid =>
      rw [if_neg hid] at hflag
      exact (hs a ha hflag).1
  · intro b' hb' hne
    rw [hevents] at hb'
    obtain ⟨b, hb, rfl⟩ := List.mem_map.mp hb'
    rw [anonymizeIf_id, anonymizeIf_id] at hne ⊢
    rw [horigin]
    exact hothers b hb hne

/-- What every suppressed step keeps. -/
def Lasting (s : ReingestState) : Prop := NoResurrection s ∧ Keyed s

theorem quiet_step (hstep : s.step setting action = some t) (hevent : action.event = none)
    (hs : Lasting s) : Lasting t := by
  cases action with
  | store e id fault committed => cases hevent
  | replay e id succeeds => cases hevent
  | anonymize id =>
    cases hstep
    rcases anonymize_cases setting s id with heq | ⟨hashedTx, hevents, horigin⟩
    · rw [heq]
      exact hs
    · exact ⟨anonymizeIf_noResurrection hevents horigin hs.1 hs.2,
        anonymizeIf_keyed hevents horigin hs.2⟩
  | restart filters =>
    cases hstep
    exact hs

theorem lasting_step (hsuppressed : Suppressed setting s action)
    (hstep : s.step setting action = some t) (hs : Lasting s) : Lasting t := by
  cases hevent : action.event with
  | none => exact quiet_step hstep hevent hs
  | some event =>
    rcases ingest_cases hstep hevent with ⟨hinserts, record, hadds⟩ | ⟨_, hkeeps⟩
    · refine ⟨(hadds.noResurrection_iff hs.1).mpr ?_, hadds.keyed hs.2⟩
      exact fun hforgotten => hsuppressed event hevent hforgotten hinserts
    · exact ⟨hkeeps.noResurrection hs.1, hkeeps.keyed hs.2⟩

theorem suppressed_of_noResurrection (hstep : s.step setting action = some t) (hs : Lasting s)
    (ht : NoResurrection t) : Suppressed setting s action := by
  intro event hevent hforgotten hinserts
  rcases ingest_cases hstep hevent with ⟨_, record, hadds⟩ | ⟨hno, _⟩
  · exact (hadds.noResurrection_iff hs.1).mp ht hforgotten
  · exact hno hinserts

theorem ReingestState.Started.lasting (h : s.Started) : Lasting s := by
  refine ⟨?_, fun a ha _ => h.key a ha⟩
  intro a ha hflag
  rw [h.fresh a ha] at hflag
  cases hflag

end

/-- Erasure lasts through a run if and only if every step of it is suppressed. -/
theorem erasureLasts_iff (setting : Setting) (s : ReingestState) (actions : List ReingestAction)
    (t : ReingestState) (hstart : s.Started)
    (hrun : AnyRun (ReingestState.step setting) s actions t) :
    Throughout (ReingestState.step setting) NoResurrection s actions ↔
      Run (ReingestState.step setting) (Suppressed setting) s actions t := by
  have hgood : ∀ {s}, Lasting s → NoResurrection s := fun hs => hs.1
  exact hrun.throughout_iff hgood lasting_step suppressed_of_noResurrection hstart.lasting

/-! ### Store, anonymize, ingest again -/

def sampleSetting : Setting where
  config := {}
  libraries := sampleLibraries
  enrichment := sampleEnrichment
  casts := sampleCasts

/-- No events yet; with a session filter or without. -/
def emptyState (session : Option SessionBloomFilter) : ReingestState where
  db :=
    { events := []
      eventAddresses := fun _ => []
      tokenTransfers := fun _ => none
      primaryKey := List.nodup_nil
      uniqueKey := List.nodup_nil }
  filters := { session, bloom := none }
  origin := fun _ => sampleEvent none

theorem emptyState_started (session : Option SessionBloomFilter) : (emptyState session).Started where
  fresh := by
    intro a ha
    cases ha
  key := by
    intro a ha
    cases ha

/-- One event is stored and anonymized. -/
def storeAndForget : List ReingestAction :=
  [.store (sampleEvent none) 7 none true, .anonymize 7]

/-- A replay finds the old key free. -/
theorem not_erasureLasts_replay : ¬ ErasureLasts sampleSetting := by
  intro h
  obtain ⟨t, ht⟩ : ∃ t, exec (ReingestState.step sampleSetting) (emptyState none)
      (storeAndForget ++ [.replay (sampleEvent none) 8 true]) = some t := ⟨_, rfl⟩
  have hrows : (exec (ReingestState.step sampleSetting) (emptyState none)
      (storeAndForget ++ [.replay (sampleEvent none) 8 true])).map
        (fun s => s.db.events.map fun r => (r.id, r.anonymized)) = some [(7, true), (8, false)] := by
    decide +kernel
  have horigin : (exec (ReingestState.step sampleSetting) (emptyState none)
      (storeAndForget ++ [.replay (sampleEvent none) 8 true])).map
        (fun s => (s.origin 7, s.origin 8)) = some (sampleEvent none, sampleEvent none) := rfl
  rw [ht, Option.map_some, Option.some_inj] at hrows horigin
  have hold : (7, true) ∈ t.db.events.map fun r => (r.id, r.anonymized) := by simp [hrows]
  have hnew : (8, false) ∈ t.db.events.map fun r => (r.id, r.anonymized) := by simp [hrows]
  obtain ⟨a, ha, haid⟩ := List.mem_map.mp hold
  obtain ⟨b, hb, hbid⟩ := List.mem_map.mp hnew
  rw [Prod.mk.injEq] at haid hbid horigin
  have hlast := h (emptyState none) _ t (emptyState_started none) (anyRun_iff_exec.mpr ht)
  refine (hlast a ha haid.2).2 b hb ?_ ?_
  · rw [haid.1, hbid.1]
    decide
  · rw [haid.1, hbid.1, horigin.1, horigin.2]

/-- Within the ledger, the session filter stops the event. -/
theorem erasureLasts_sessionFilter :
    Throughout (ReingestState.step sampleSetting) NoResurrection (emptyState (some .new))
      (storeAndForget ++ [.store (sampleEvent none) 8 none true]) := by
  obtain ⟨t, ht⟩ : ∃ t, exec (ReingestState.step sampleSetting) (emptyState (some .new))
      (storeAndForget ++ [.store (sampleEvent none) 8 none true]) = some t := ⟨_, rfl⟩
  refine (erasureLasts_iff sampleSetting _ _ t (emptyState_started _)
    (anyRun_iff_exec.mpr ht)).mpr (.cons ?_ rfl (.cons ?_ rfl (.cons ?_ (Option.some.inj ht ▸ rfl) (.nil _))))
  · rintro event _ ⟨a, ha, _⟩
    cases ha
  · intro event hevent
    cases hevent
  · intro event _ _ hinserts
    exact absurd hinserts.1 (by decide +kernel)

end SorobanPulse.Erasure
