import SorobanPulse.Ingest.Checkpoint
import SorobanPulse.Lib.Decimal
import SorobanPulse.Lib.Grouping

/-! What deduplication drops.

    The session filter, the persistent filter and the unique constraint all look at
    (tx_hash, contract_id, event_type). Under smooth runs, where every event is valid and every
    statement goes through, the three together keep the first event of each such key:

        events fetched ──take max──▶ taken ──firstBy key──▶ rows

    One transaction may emit several events of one type from one contract, with ids of their own,
    and only the first of them gets a row. -/

namespace SorobanPulse.Ingest
open Lib Sse

/-! ### The filters' key -/

theorem colon_not_mem_txHash {txHash : String} (h : validateTxHash txHash = true) :
    ':' ∉ txHash.toList := by
  rw [validateTxHash, Bool.and_eq_true, List.all_eq_true] at h
  intro hcolon
  exact absurd (h.2 ':' hcolon) (by decide)

theorem colon_not_mem_contractId {contractId : String} (h : validateContractId contractId = true) :
    ':' ∉ contractId.toList := by
  rw [validateContractId, Bool.and_eq_true, List.all_eq_true] at h
  intro hcolon
  exact absurd (h.2 ':' hcolon) (by decide)

/-- An event whose key can be read back from its Bloom key. -/
structure WellKeyed (event : SorobanEvent) : Prop where
  txHash : validateTxHash event.txHash = true
  contractId : validateContractId event.contractId = true

theorem toList_bloomKey (event : SorobanEvent) :
    (bloomKey event).toList =
      event.txHash.toList ++ ':' :: (event.contractId.toList ++ ':' :: event.eventType.toList) := by
  simp [bloomKey]

theorem key_eq_of_bloomKey_eq {a b : SorobanEvent} (ha : WellKeyed a) (hb : WellKeyed b)
    (h : bloomKey a = bloomKey b) : a.key = b.key := by
  have hlist := congrArg String.toList h
  rw [toList_bloomKey, toList_bloomKey] at hlist
  obtain ⟨htx, hrest⟩ := eq_of_append_separator (colon_not_mem_txHash ha.txHash)
    (colon_not_mem_txHash hb.txHash) hlist
  obtain ⟨hcontract, htype⟩ := eq_of_append_separator (colon_not_mem_contractId ha.contractId)
    (colon_not_mem_contractId hb.contractId) hrest
  rw [SorobanEvent.key, SorobanEvent.key, String.toList_inj.mp htx, String.toList_inj.mp hcontract,
    String.toList_inj.mp htype]

/-! ### Smooth runs -/

/-- A valid event of a page: it is one to be stored and its ledger fits the column. -/
def Valid (config : Config) (libraries : Libraries) (startLedger : UInt64) (event : SorobanEvent) :
    Prop :=
  eligible config libraries startLedger event = true ∧ event.ledger.toNat < 2 ^ 63

/-- Every answer arrives, every event is valid, and every statement goes through. -/
def Smooth (config : Config) (libraries : Libraries) (s : IndexerState) : Action → Prop
  | .call _ loaded => loaded = true
  | .rpcError _ => True
  | .receive result begins =>
    begins = true ∧ ∀ cycle, s.phase = .polling cycle →
      ∀ event ∈ result.events, Valid config libraries cycle.startLedger event
  | .store fault _ => fault = none
  | .finish ending => ending = ⟨true, true, true⟩

/-- A row as the event would have been inserted. -/
def RowOf (config : Config) (event : SorobanEvent) (row : EventRow) : Prop :=
  ∃ timestamp, row = rowOf config event timestamp

/-- An indexer that starts on a table of earlier events, with filters that hold none but those. -/
structure StartedOn (config : Config) (before : List SorobanEvent) (s : IndexerState) : Prop where
  started : s.Started
  wellKeyed : ∀ event ∈ before, WellKeyed event
  table : List.Forall₂ (RowOf config) (firstBy (·.key) before) s.table
  filters : ∀ key ∈ s.filters.keys, ∃ event ∈ before, bloomKey event = key

/-- The events of the ended pages. -/
def IndexerState.received (s : IndexerState) : List SorobanEvent :=
  s.pages.reverse.flatMap (·.events)

/-- Those that are left when the pages are truncated. -/
def IndexerState.taken (config : Config) (s : IndexerState) : List SorobanEvent :=
  s.pages.reverse.flatMap (·.events.take config.rpcMaxEventsPerPage)

/-- The RPC's ids name events: one id, one key. -/
def Identified (events : List SorobanEvent) : Prop :=
  ∀ a ∈ events, ∀ b ∈ events, a.rpcId = b.rpcId → a.key = b.key

/-- One row per event id: the rows are those of events with distinct ids, among them every id. -/
def OneRowPerEvent (config : Config) (events : List SorobanEvent) (table : List EventRow) : Prop :=
  ∃ stored, List.Forall₂ (RowOf config) stored table ∧ stored ⊆ events ∧
    (stored.map (·.rpcId)).Nodup ∧ ∀ event ∈ events, event.rpcId ∈ stored.map (·.rpcId)

/-- Smooth runs drop nothing but an event whose id has been stored. -/
def OnlyTrueDuplicatesDropped (config : Config) (libraries : Libraries) : Prop :=
  ∀ (before : List SorobanEvent) (s : IndexerState) (actions : List Action) (t : IndexerState),
    StartedOn config before s →
    Run (IndexerState.step config libraries) (Smooth config libraries) s actions t →
    t.phase.page = none → Identified (before ++ t.received) →
      OneRowPerEvent config (before ++ t.received) t.table

/-- Events of one transaction, contract and type are one event, and no page is cut short of one. -/
structure KeyedByEvent (config : Config) (before : List SorobanEvent) (t : IndexerState) : Prop where
  keys : ∀ a ∈ before ++ t.received, ∀ b ∈ before ++ t.received, a.key = b.key → a.rpcId = b.rpcId
  taken : ∀ a ∈ t.received, ∃ b ∈ before ++ t.taken config, b.rpcId = a.rpcId

/-! ### What is stored along a smooth run -/

/-- A page under way has done with some of its events and has the others to come. -/
structure Underway (config : Config) (libraries : Libraries) (done : List SorobanEvent)
    (cycle : Cycle) (page : Page) : Prop where
  split : page.result.events.take config.rpcMaxEventsPerPage = done ++ page.queue
  live : page.tx.aborted = false
  valid : ∀ event ∈ page.queue, Valid config libraries cycle.startLedger event

/-- The table and the open rows are the first event of each key, and the filters know no others. -/
structure KeepsFirst (config : Config) (libraries : Libraries) (before : List SorobanEvent)
    (s : IndexerState) (done : List SorobanEvent) : Prop where
  rows : List.Forall₂ (RowOf config) (firstBy (·.key) (before ++ s.taken config ++ done))
    (s.table ++ s.openRows)
  filters : ∀ key ∈ s.filters.keys, ∃ event ∈ before ++ s.taken config ++ done, bloomKey event = key
  wellKeyed : ∀ event ∈ before ++ s.taken config ++ done, WellKeyed event
  between : s.phase.page = none → done = []
  underway : ∀ cycle page, s.phase = .storing cycle page → Underway config libraries done cycle page

section
variable {config : Config} {libraries : Libraries} {before done : List SorobanEvent}
  {s t : IndexerState}

theorem wellKeyed_of_valid {startLedger : UInt64} {event : SorobanEvent}
    (h : Valid config libraries startLedger event) : WellKeyed event := by
  have hvalid := h.1
  simp only [eligible, Bool.and_eq_true] at hvalid
  have hxdr : validateXdr libraries.codec event.txHash event.contractId event.value event.topic
      = true := by
    have hdata := hvalid.1.1.2
    rw [validateEventData] at hdata
    split at hdata
    · exact hdata
    · exact hdata
    · cases hdata
  unfold validateXdr at hxdr
  split at hxdr
  · cases hxdr
  · next hcontract =>
    split at hxdr
    · cases hxdr
    · next htx => exact ⟨by simpa using htx, by simpa using hcontract⟩

theorem keys_rows {events : List SorobanEvent} {rows : List EventRow}
    (h : List.Forall₂ (RowOf config) events rows) : keys rows = events.map (·.key) := by
  induction h with
  | nil => rfl
  | cons hrow _ ih =>
    obtain ⟨timestamp, rfl⟩ := hrow
    rw [keys, List.map_cons, List.map_cons, rowOf_key]
    exact congrArg _ ih

/-- A valid event is inserted unless its key is there, if the filters know stored keys only. -/
theorem storeEventInTx_valid {table : List EventRow} {filters : DedupFilters} {tx : Transaction}
    {startLedger : UInt64} {event : SorobanEvent} (hvalid : Valid config libraries startLedger event)
    (hlive : tx.aborted = false)
    (hseen : filters.seen event = true → event.key ∈ keys (table ++ tx.rows)) :
    ∃ row, RowOf config event row ∧
      (storeEventInTx config libraries table filters tx event none).2.1 =
        if event.key ∈ keys (table ++ tx.rows) then tx
        else { tx with rows := tx.rows ++ [row] } := by
  obtain ⟨timestamp, hrow⟩ := prepareRow_of_eligible hvalid.1 hvalid.2
  refine ⟨rowOf config event timestamp, ⟨timestamp, rfl⟩, ?_⟩
  cases hs : filters.seen event with
  | true => rw [storeEventInTx_of_seen hs, if_pos (hseen hs)]
  | false =>
    rw [storeEventInTx_tx hs hrow, insertRow, if_neg (by simp [hlive]), rowOf_key]
    split <;> rfl

/-- One more event, one more row unless its key is there. -/
theorem rows_keepFirst {events : List SorobanEvent} {rows : List EventRow} {event : SorobanEvent}
    {row : EventRow} (h : List.Forall₂ (RowOf config) (firstBy (·.key) events) rows)
    (hrow : RowOf config event row) :
    List.Forall₂ (RowOf config) (firstBy (·.key) (events ++ [event]))
      (if event.key ∈ keys rows then rows else rows ++ [row]) := by
  rw [firstBy_append, keepFirst, keys_rows h]
  split
  · exact h
  · exact List.rel_append h (.cons hrow .nil)

theorem keepsFirst_store (h : KeepsFirst config libraries before s done) {cycle : Cycle}
    {page : Page} {event : SorobanEvent} {rest : List SorobanEvent} (eid : Uuid)
    (hphase : s.phase = .storing cycle page) (hqueue : page.queue = event :: rest) :
    KeepsFirst config libraries before (s.store config libraries cycle page event rest none eid)
      (done ++ [event]) := by
  obtain ⟨hsplit, hlive, hvalid⟩ := h.underway cycle page hphase
  rw [hqueue] at hsplit hvalid
  have hevent := hvalid event List.mem_cons_self
  have hopen := openRows_storing hphase
  -- a filter that knows the event has an earlier event of its key, and that one has its row
  have hseen : s.filters.seen event = true → event.key ∈ keys (s.table ++ page.tx.rows) := by
    intro hseen
    obtain ⟨other, hother, hbloom⟩ := h.filters _ (DedupFilters.key_mem_of_seen hseen)
    obtain ⟨first, hfirst, hkey⟩ := exists_firstBy (f := (·.key)) hother
    rw [← hopen, keys_rows h.rows]
    refine List.mem_map.mpr ⟨first, hfirst, hkey.trans ?_⟩
    exact key_eq_of_bloomKey_eq (h.wellKeyed other hother) (wellKeyed_of_valid hevent) hbloom
  obtain ⟨row, hrow, htx⟩ := storeEventInTx_valid hevent hlive hseen
  obtain ⟨htable, _, hpages⟩ := store_frame config libraries s cycle page event rest none eid
  have hphase' : (s.store config libraries cycle page event rest none eid).phase =
      .storing cycle { page with
        queue := rest
        tx := (storeEventInTx config libraries s.table s.filters page.tx event none).2.1 } :=
    store_phase (eligible_ledger hevent.1)
  have htaken : (s.store config libraries cycle page event rest none eid).taken config
      = s.taken config := by
    rw [IndexerState.taken, IndexerState.taken, hpages]
  have happend : before ++ s.taken config ++ (done ++ [event])
      = before ++ s.taken config ++ done ++ [event] := (List.append_assoc _ _ _).symm
  -- the rows are those of the first events of each key, with this one behind
  refine ⟨?_, ?_, ?_, ?_, ?_⟩
  · have hrows := h.rows
    rw [hopen] at hrows
    have hnext := rows_keepFirst hrows hrow
    rw [htaken, happend, htable, openRows_storing hphase', htx]
    split
    · next hkey => rwa [if_pos hkey] at hnext
    · next hkey =>
      rw [if_neg hkey, List.append_assoc s.table] at hnext
      exact hnext
  · intro key hkey
    rw [htaken, happend]
    rcases mem_store_filters hkey with rfl | hold
    · exact ⟨event, List.mem_append_right _ (List.mem_singleton.mpr rfl), rfl⟩
    · obtain ⟨other, hother, hbloom⟩ := h.filters key hold
      exact ⟨other, List.mem_append_left _ hother, hbloom⟩
  · rw [htaken, happend]
    intro other hother
    rcases List.mem_append.mp hother with hold | hnew
    · exact h.wellKeyed other hold
    · rw [List.mem_singleton.mp hnew]
      exact wellKeyed_of_valid hevent
  · intro hpage
    rw [hphase'] at hpage
    cases hpage
  · intro cycle' page' hphase''
    cases hphase'.symm.trans hphase''
    -- what is left of the page is the rest of it
    refine ⟨?_, ?_, fun other hother => hvalid other (List.mem_cons_of_mem _ hother)⟩
    · rw [hsplit, List.append_assoc]
      rfl
    · dsimp only
      rw [htx]
      split <;> exact hlive

theorem keepsFirst_receive (h : KeepsFirst config libraries before s []) {cycle : Cycle}
    {result : GetEventsResult} (hphase : s.phase = .polling cycle)
    (hvalid : ∀ event ∈ result.events, Valid config libraries cycle.startLedger event) :
    KeepsFirst config libraries before (s.receive config cycle result true) [] := by
  have hrows := h.rows
  rw [IndexerState.openRows, hphase] at hrows
  refine ⟨hrows, h.filters, h.wellKeyed, fun _ => rfl, ?_⟩
  rintro _ _ ⟨⟩
  exact ⟨rfl, rfl, fun event hevent => hvalid event (List.take_subset _ _ hevent)⟩

theorem keepsFirst_finish (h : KeepsFirst config libraries before s done) {cycle : Cycle}
    {page : Page} (hphase : s.phase = .storing cycle page) (hqueue : page.queue = []) :
    KeepsFirst config libraries before (s.finish cycle page ⟨true, true, true⟩) [] := by
  obtain ⟨hsplit, hlive, _⟩ := h.underway cycle page hphase
  rw [hqueue, List.append_nil] at hsplit
  have hlands : page.lands cycle ⟨true, true, true⟩ = true := by simp [Page.lands, hlive]
  have hnext := next_page cycle page.result true
  have htaken : (s.finish cycle page ⟨true, true, true⟩).taken config = s.taken config ++ done := by
    rw [IndexerState.finish, if_pos hlands]
    simp [IndexerState.taken, GetEventsResult.ended, hsplit]
  have hopen := openRows_storing hphase
  refine ⟨?_, ?_, ?_, fun _ => rfl, ?_⟩
  · have hrows := h.rows
    rw [htaken, List.append_nil, ← List.append_assoc, IndexerState.finish, if_pos hlands,
      IndexerState.openRows]
    dsimp only
    rw [hnext, Option.elim_none, List.append_nil, ← hopen]
    exact hrows
  · rw [htaken, List.append_nil, ← List.append_assoc, IndexerState.finish, if_pos hlands]
    exact h.filters
  · rw [htaken, List.append_nil, ← List.append_assoc]
    exact h.wellKeyed
  · intro cycle' page' hphase'
    rw [IndexerState.finish, if_pos hlands] at hphase'
    exact absurd hphase' (Phase.ne_storing hnext)

theorem keepsFirst_step {action : Action} (hsmooth : Smooth config libraries s action)
    (hstep : s.step config libraries action = some t)
    (h : ∃ done, KeepsFirst config libraries before s done) :
    ∃ done, KeepsFirst config libraries before t done := by
  obtain ⟨done, h⟩ := h
  cases step_cases hstep with
  | cycle phase returned hbefore hafter =>
    obtain rfl := h.between hbefore
    have hrows := h.rows
    rw [IndexerState.openRows, hbefore] at hrows
    refine ⟨[], ?_, h.filters, h.wellKeyed, fun _ => rfl, ?_⟩
    · rw [IndexerState.openRows, hafter]
      exact hrows
    · exact fun cycle page hphase => absurd hphase (Phase.ne_storing hafter)
  | receive cycle result begins hphase =>
    obtain ⟨rfl, hvalid⟩ := hsmooth
    obtain rfl := h.between (by rw [hphase]; rfl)
    exact ⟨[], keepsFirst_receive h hphase (hvalid cycle hphase)⟩
  | store cycle page event rest fault eid hphase hqueue =>
    obtain rfl : fault = none := hsmooth
    exact ⟨done ++ [event], keepsFirst_store h eid hphase hqueue⟩
  | finish cycle page ending hphase hqueue =>
    obtain rfl : ending = ⟨true, true, true⟩ := hsmooth
    exact ⟨[], keepsFirst_finish h hphase hqueue⟩

theorem StartedOn.keepsFirst (h : StartedOn config before s) :
    KeepsFirst config libraries before s [] := by
  have htaken : s.taken config = [] := by rw [IndexerState.taken, h.started.pages]; rfl
  have hidle : s.phase.page = none := by rw [h.started.idle]; rfl
  refine ⟨?_, ?_, ?_, fun _ => rfl, fun cycle page hphase => absurd hphase (Phase.ne_storing hidle)⟩
  · rw [htaken, IndexerState.openRows, hidle, List.append_nil, List.append_nil, Option.elim_none,
      List.append_nil]
    exact h.table
  · rw [htaken, List.append_nil, List.append_nil]
    exact h.filters
  · rw [htaken, List.append_nil, List.append_nil]
    exact h.wellKeyed

/-- Between pages, the table holds the first event of each key, of all that were taken. -/
theorem table_keepsFirst {actions : List Action} (hstart : StartedOn config before s)
    (hrun : Run (IndexerState.step config libraries) (Smooth config libraries) s actions t)
    (hidle : t.phase.page = none) :
    List.Forall₂ (RowOf config) (firstBy (·.key) (before ++ t.taken config)) t.table := by
  have h0 : ∃ done, KeepsFirst config libraries before s done := ⟨[], hstart.keepsFirst⟩
  obtain ⟨done, h⟩ := hrun.invariant keepsFirst_step h0
  obtain rfl := h.between hidle
  have hrows := h.rows
  rwa [IndexerState.openRows, hidle, Option.elim_none, List.append_nil, List.append_nil] at hrows

theorem taken_subset_received (before : List SorobanEvent) (t : IndexerState) :
    before ++ t.taken config ⊆ before ++ t.received := by
  refine List.append_subset.mpr ⟨List.subset_append_left _ _, ?_⟩
  intro event hevent
  refine List.mem_append_right _ ?_
  obtain ⟨page, hpage, hmem⟩ := List.mem_flatMap.mp hevent
  exact List.mem_flatMap.mpr ⟨page, hpage, List.take_subset _ _ hmem⟩

/-- One row per id means as many ids as keys. -/
theorem keyedByEvent_of_oneRow
    (htable : List.Forall₂ (RowOf config) (firstBy (·.key) (before ++ t.taken config)) t.table)
    (hids : Identified (before ++ t.received))
    (hone : OneRowPerEvent config (before ++ t.received) t.table) :
    KeyedByEvent config before t := by
  obtain ⟨stored, hrows, hsub, _, hall⟩ := hone
  have hkeys : stored.map (·.key) = (firstBy (·.key) (before ++ t.taken config)).map (·.key) :=
    (keys_rows hrows).symm.trans (keys_rows htable)
  have hnodup : (stored.map (·.key)).Nodup := hkeys ▸ nodup_firstBy _ _
  have hrow : ∀ a ∈ before ++ t.received, ∃ e ∈ stored, e.rpcId = a.rpcId ∧ e.key = a.key := by
    intro a ha
    obtain ⟨e, he, hid⟩ := List.mem_map.mp (hall a ha)
    exact ⟨e, he, hid, hids e (hsub he) a ha hid⟩
  have hcond : ∀ a ∈ before ++ t.received, ∀ b ∈ before ++ t.received, a.key = b.key →
      a.rpcId = b.rpcId := by
    intro a ha b hb hkey
    obtain ⟨e, he, heid, hekey⟩ := hrow a ha
    obtain ⟨e', he', heid', hekey'⟩ := hrow b hb
    have heq := List.inj_on_of_nodup_map hnodup he he' (hekey.trans (hkey.trans hekey'.symm))
    rw [← heid, ← heid', heq]
  refine ⟨hcond, ?_⟩
  intro a ha
  have ha' : a ∈ before ++ t.received := List.mem_append_right _ ha
  obtain ⟨e, he, _, hekey⟩ := hrow a ha'
  have hmem : a.key ∈ stored.map (·.key) := List.mem_map.mpr ⟨e, he, hekey⟩
  rw [hkeys] at hmem
  obtain ⟨b, hb, hbkey⟩ := List.mem_map.mp hmem
  have hbtaken := mem_of_mem_firstBy hb
  exact ⟨b, hbtaken, hcond b (taken_subset_received before t hbtaken) a ha' hbkey⟩

theorem oneRow_of_keyedByEvent
    (htable : List.Forall₂ (RowOf config) (firstBy (·.key) (before ++ t.taken config)) t.table)
    (hids : Identified (before ++ t.received)) (hkeyed : KeyedByEvent config before t) :
    OneRowPerEvent config (before ++ t.received) t.table := by
  have hsub : firstBy (·.key) (before ++ t.taken config) ⊆ before ++ t.received :=
    fun e he => taken_subset_received before t (mem_of_mem_firstBy he)
  refine ⟨_, htable, hsub, ?_, ?_⟩
  · -- rows with one id would have one key
    refine List.Nodup.map_on ?_ (List.Nodup.of_map _ (nodup_firstBy _ _))
    intro a ha b hb hid
    exact List.inj_on_of_nodup_map (nodup_firstBy _ _) ha hb (hids a (hsub ha) b (hsub hb) hid)
  · intro a ha
    obtain ⟨b, hb, hid⟩ : ∃ b ∈ before ++ t.taken config, b.rpcId = a.rpcId := by
      rcases List.mem_append.mp ha with hold | hnew
      · exact ⟨a, List.mem_append_left _ hold, rfl⟩
      · exact hkeyed.taken a hnew
    obtain ⟨e, he, hkey⟩ := exists_firstBy (f := (·.key)) hb
    have hsame := hkeyed.keys e (hsub he) b (taken_subset_received before t hb) hkey
    exact List.mem_map.mpr ⟨e, he, hsame.trans hid⟩

/-- After a smooth run, each event id has exactly one row if and only if events that share
    transaction, contract and type share their id and the truncated ones are served elsewhere. -/
theorem oneRowPerEvent_iff (config : Config) (libraries : Libraries) (before : List SorobanEvent)
    (s : IndexerState) (actions : List Action) (t : IndexerState)
    (hstart : StartedOn config before s)
    (hrun : Run (IndexerState.step config libraries) (Smooth config libraries) s actions t)
    (hidle : t.phase.page = none) (hids : Identified (before ++ t.received)) :
    OneRowPerEvent config (before ++ t.received) t.table ↔ KeyedByEvent config before t := by
  have htable := table_keepsFirst hstart hrun hidle
  exact ⟨keyedByEvent_of_oneRow htable hids, oneRow_of_keyedByEvent htable hids⟩

end

/-! ### Two events of one transaction -/

/-- Two events of one transaction and contract, of one type or of two. -/
def twoEvents (eventType : String) : GetEventsResult where
  events := [
    { sampleEvent with rpcId := some "100-0" },
    { sampleEvent with rpcId := some "100-1", eventType }]
  latestLedger := 100
  rpcCursor := none

def fetchTwoEvents (eventType : String) : List Action :=
  [.call 100 true, .receive (twoEvents eventType) true, .store none 7, .store none 8,
    .finish ⟨true, true, true⟩]

theorem sampleStart_startedOn : StartedOn {} [] (sampleStart none) where
  started := sampleStart_started none
  wellKeyed := by simp
  table := .nil
  filters := by simp [sampleStart, DedupFilters.keys]

theorem valid_twoEvents (eventType : String) :
    ∀ event ∈ (twoEvents eventType).events, Valid {} sampleLibraries 100 event := by
  have hvalid : Valid {} sampleLibraries 100 sampleEvent :=
    ⟨sampleEvent_eligible, by decide⟩
  intro event hevent
  simp only [twoEvents, List.mem_cons, List.not_mem_nil, or_false] at hevent
  rcases hevent with rfl | rfl <;> exact hvalid

theorem smooth_fetchTwoEvents {eventType : String} {t : IndexerState}
    (h : exec (IndexerState.step {} sampleLibraries) (sampleStart none) (fetchTwoEvents eventType)
      = some t) :
    Run (IndexerState.step {} sampleLibraries) (Smooth {} sampleLibraries) (sampleStart none)
      (fetchTwoEvents eventType) t := by
  cases anyRun_iff_exec.mpr h with
  | cons _ hcall hrest =>
    cases hrest with
    | cons _ hreceive hstores =>
      obtain rfl := Option.some.inj hcall
      refine .cons rfl hcall (.cons ⟨rfl, ?_⟩ hreceive (AnyRun.of_forall ?_ hstores))
      · rintro _ ⟨⟩
        exact valid_twoEvents eventType
      · simp [Smooth]

/-- Of two events of one type only the first is stored. -/
theorem not_onlyTrueDuplicatesDropped_twoEvents :
    ¬ OnlyTrueDuplicatesDropped {} sampleLibraries := by
  intro h
  have hfacts : ∃ u : IndexerState, u ∈ exec (IndexerState.step {} sampleLibraries)
      (sampleStart none) (fetchTwoEvents "contract") ∧ u.phase.page.isNone = true ∧
        Identified ([] ++ u.received) ∧ ¬ ∀ a : SorobanEvent, a ∈ [] ++ u.received →
          ∀ b : SorobanEvent, b ∈ [] ++ u.received → a.key = b.key → a.rpcId = b.rpcId := by
    unfold Identified
    decide
  obtain ⟨t, ht, hidle, hids, hkeys⟩ := hfacts
  rw [Option.isNone_iff_eq_none] at hidle
  have hrun := smooth_fetchTwoEvents ht
  have hone := h [] (sampleStart none) _ t sampleStart_startedOn hrun hidle hids
  have htable := table_keepsFirst sampleStart_startedOn hrun hidle
  exact hkeys (keyedByEvent_of_oneRow htable hids hone).keys

/-- Of two types both are. -/
theorem oneRowPerEvent_twoTypes :
    ∃ t, exec (IndexerState.step {} sampleLibraries) (sampleStart none) (fetchTwoEvents "diagnostic")
      = some t ∧ OneRowPerEvent {} ([] ++ t.received) t.table := by
  have hfacts : ∃ u : IndexerState, u ∈ exec (IndexerState.step {} sampleLibraries)
      (sampleStart none) (fetchTwoEvents "diagnostic") ∧ u.phase.page.isNone = true ∧
        Identified ([] ++ u.received) ∧
        (∀ a : SorobanEvent, a ∈ [] ++ u.received →
          ∀ b : SorobanEvent, b ∈ [] ++ u.received → a.key = b.key → a.rpcId = b.rpcId) ∧
        ∀ a ∈ u.received, ∃ b : SorobanEvent, b ∈ [] ++ u.taken {} ∧ b.rpcId = a.rpcId := by
    unfold Identified
    decide
  obtain ⟨t, ht, hidle, hids, hkeys, htaken⟩ := hfacts
  rw [Option.isNone_iff_eq_none] at hidle
  exact ⟨t, ht, (oneRowPerEvent_iff {} sampleLibraries [] (sampleStart none) _ t
    sampleStart_startedOn (smooth_fetchTwoEvents ht) hidle hids).mpr ⟨hkeys, htaken⟩⟩

end SorobanPulse.Ingest
