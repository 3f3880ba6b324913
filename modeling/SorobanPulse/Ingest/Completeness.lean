import SorobanPulse.Ingest.HonestFetch

/-! The run loop leaves no event behind.

    `Inv` holds of the first process before its start, each step of the loop keeps it, and so it
    holds wherever a run arrives: after RPC errors, expired cursors, failed calls and restarts in
    the middle of a page. -/

namespace SorobanPulse.Ingest
open Lib Rpc Sse

/-! ### The loop -/

section
variable {loop : LoopConfig} {config : Config} {libraries : Libraries} {server : EventServer}
  {s t : RunLoop}

/-- A process starts from a ledger below which nothing is missing. -/
theorem inv_start (h : Inv loop config libraries server s) (hstage : s.stage = .starting)
    {loaded : Bool} (hhonest : loaded = true ∨ loop.startLedger ≠ 0) :
    Inv loop config libraries server (s.start loop loaded) := by
  have hidle := h.calling (by rw [hstage]; simp)
  have hconfigured : StoredBelow config libraries server s.indexer.table s.indexer.origin
      (server.before loop.startLedger) := stored_below h.reached.configured
  -- the ledger it starts from, and that it does not ask for the latest one when there is an origin
  have hfrom : StoredBelow config libraries server s.indexer.table s.indexer.origin
      (server.before (s.start loop loaded).currentLedger) ∧
      loop.startLedger ≤ (s.start loop loaded).currentLedger ∧
      ((s.start loop loaded).currentLedger = 0 → s.indexer.origin = none) := by
    rcases hledgers : s.indexer.ledgers with _ | ⟨current, latest⟩
    · have hnone : s.indexer.origin = none := by
        by_contra hsome
        have hknown := h.reached.known (Option.isSome_iff_ne_none.mpr hsome)
        rw [hledgers] at hknown
        cases hknown
      have hcurrent : (s.start loop loaded).currentLedger = loop.startLedger := by
        cases loaded <;> simp [RunLoop.start, startFrom, hledgers]
      rw [hcurrent]
      exact ⟨hconfigured, UInt64.le_refl _, fun _ => hnone⟩
    · obtain ⟨hpositive, hstored⟩ := h.reached.ledgers _ hledgers
      by_cases hzero : loop.startLedger = 0
      · have hloaded : loaded = true := by simpa [hzero] using hhonest
        have hcurrent : (s.start loop loaded).currentLedger = current := by
          simp [RunLoop.start, startFrom, hledgers, hloaded, hzero, hpositive]
        rw [hcurrent]
        refine ⟨hstored, by simp [hzero], ?_⟩
        rintro rfl
        exact absurd hpositive (by simp)
      · have hcurrent : (s.start loop loaded).currentLedger = loop.startLedger := by
          cases loaded <;> simp [RunLoop.start, startFrom, hledgers, hzero]
        rw [hcurrent]
        exact ⟨hconfigured, UInt64.le_refl _, fun h0 => absurd h0 hzero⟩
  obtain ⟨hstored, hfloor, hnone⟩ := hfrom
  refine ⟨h.exact, ?_, hfloor, ?_, ?_, fun _ => hidle, ?_⟩
  · have hr := h.reached
    exact ⟨hstored, hr.checkpoint, hr.ledgers, hr.known, hr.configured,
      fun _ hp => absurd (hidle.symm.trans hp) (by simp),
      fun _ _ hp => absurd (hidle.symm.trans hp) (by simp)⟩
  · intro hturning
    by_contra hzero
    have hcurrent : (s.start loop loaded).currentLedger = 0 := by simpa using hzero
    simp only [RunLoop.start] at hcurrent hturning
    simp [hcurrent] at hturning
  · intro hlocating
    have hcurrent : (s.start loop loaded).currentLedger = 0 := by
      by_contra hne
      simp only [RunLoop.start] at hne hlocating
      simp [hne] at hlocating
    exact ⟨hcurrent, hnone hcurrent⟩
  · intro hcalling
    by_cases hzero : (s.start loop loaded).currentLedger = 0 <;>
      simp only [RunLoop.start] at hcalling hzero <;> simp [hzero] at hcalling

/-- Between calls the positions may be read at another ledger that the rows have reached. -/
theorem Reached.at_idle {indexer : IndexerState} {current current' : UInt64}
    (h : Reached loop config libraries server current indexer) (hidle : indexer.phase = .idle)
    (hstored : StoredBelow config libraries server indexer.table indexer.origin
      (server.before current')) :
    Reached loop config libraries server current' indexer :=
  ⟨hstored, h.checkpoint, h.ledgers, h.known, h.configured,
    fun _ hp => absurd (hidle.symm.trans hp) (by simp),
    fun _ _ hp => absurd (hidle.symm.trans hp) (by simp)⟩

theorem inv_located (h : Inv loop config libraries server s) (hstage : s.stage = .locating)
    {ledger : Option UInt64} (hpositive : ∀ l ∈ ledger, 0 < l) :
    Inv loop config libraries server (s.located ledger) := by
  have hidle := h.calling (by rw [hstage]; simp)
  obtain ⟨hzero, hnone⟩ := h.locating hstage
  cases ledger with
  | none =>
    exact ⟨h.exact, h.reached, h.floor, fun hs => absurd hs (by simp [RunLoop.located, hstage]),
      fun _ => ⟨hzero, hnone⟩, fun _ => hidle,
      fun hs => absurd hs (by simp [RunLoop.located, hstage])⟩
  | some l =>
    have hfloor : loop.startLedger = 0 := by
      have hle := h.floor
      rw [hzero] at hle
      exact UInt64.le_antisymm hle (by simp)
    refine ⟨h.exact, ?_, by simp [hfloor], fun _ => hpositive l rfl, by simp [RunLoop.located],
      fun _ => hidle, by simp [RunLoop.located]⟩
    refine h.reached.at_idle hidle (stored_below ?_)
    rw [hnone]
    simp

theorem inv_settle (h : Inv loop config libraries server s) (hstage : s.stage = .calling)
    (hidle : s.indexer.phase = .idle) {result : Except IndexerFetchError FetchResult}
    (hreturned : s.indexer.returned = some result) :
    Inv loop config libraries server (s.settle loop result) := by
  have hpositive := h.positive (.inr hstage)
  have hback : ∀ sleep errors, Inv loop config libraries server
      { s with stage := .turning, consecutiveDbErrors := errors, sleepMs := sleep } :=
    fun _ _ => ⟨h.exact, h.reached, h.floor, fun _ => hpositive, by simp, fun _ => hidle, by simp⟩
  unfold RunLoop.settle
  cases result with
  | error e => cases e <;> exact hback _ _
  | ok result =>
    dsimp only
    split
    · next hlt =>
      have hstored := h.returned hstage hidle result hreturned
      refine ⟨h.exact, h.reached.at_idle hidle hstored, ?_, ?_, by simp, fun _ => hidle, by simp⟩
      · exact UInt64.le_of_lt (UInt64.lt_of_le_of_lt h.floor hlt)
      · exact fun _ => UInt64.lt_trans hpositive hlt
    · exact hback _ _

theorem inv_call (h : Inv loop config libraries server s) (hstage : s.stage = .turning)
    (loaded : Bool) :
    Inv loop config libraries server
      { s with indexer := s.indexer.call config s.currentLedger loaded, stage := .calling } := by
  have hidle := h.calling (by rw [hstage]; simp)
  refine ⟨?_, reached_call h.reached loaded, h.floor, fun _ => h.positive (.inl hstage), by simp,
    by simp, by simp [Returned, IndexerState.call]⟩
  exact exact_of_no_page h.exact (by rw [hidle]; rfl) rfl rfl rfl

/-- The next process finds the database as it is, and filters that know stored keys only. -/
theorem inv_restart (hserver : Storable config libraries server)
    (h : Inv loop config libraries server s) {filters : DedupFilters}
    (hseeded : ∀ key ∈ filters.keys, ∃ row ∈ s.indexer.table, row.bloomKey = key) :
    Inv loop config libraries server (s.restart loop filters) := by
  have hr := h.reached
  have hopen : (s.restart loop filters).indexer.openRows = [] := rfl
  refine ⟨⟨?_, ?_, ?_⟩, ?_, UInt64.le_refl _, by simp [RunLoop.restart], by simp [RunLoop.restart],
    fun _ => rfl, by simp [RunLoop.restart]⟩
  · intro row hrow
    rw [hopen, List.append_nil] at hrow
    exact h.exact.rows row (List.mem_append_left _ hrow)
  · have hnodup := h.exact.nodup
    rw [keys_append] at hnodup
    rw [hopen, List.append_nil]
    exact hnodup.of_append_left
  · intro event hevent helig hkey
    obtain ⟨row, hrow, hbloom⟩ := hseeded _ hkey
    obtain ⟨other, hother, helig', timestamp, rfl⟩ :=
      h.exact.rows row (List.mem_append_left _ hrow)
    have hsame : event.key = other.key :=
      key_eq_of_bloomKey_eq (wellKeyed_of_valid ⟨helig, hserver.fits event hevent⟩)
        (wellKeyed_of_valid ⟨helig', hserver.fits other hother⟩) hbloom.symm
    rw [hopen, List.append_nil, hsame]
    exact List.mem_map.mpr ⟨_, hrow, rfl⟩
  · refine ⟨stored_below hr.configured, hr.checkpoint, hr.ledgers, hr.known, hr.configured, ?_, ?_⟩
    · rintro _ ⟨⟩
    · rintro _ _ ⟨⟩

theorem inv_step (hserver : Storable config libraries server) {action : LoopAction}
    (hhonest : Honest loop config server s action)
    (hstep : s.step loop config libraries action = some t)
    (h : Inv loop config libraries server s) : Inv loop config libraries server t := by
  unfold RunLoop.step at hstep
  cases action with
  | start loaded =>
    obtain ⟨hstage, rfl⟩ : s.stage = .starting ∧ s.start loop loaded = t := by simpa using hstep
    exact inv_start h hstage hhonest
  | located ledger =>
    obtain ⟨hstage, rfl⟩ : s.stage = .locating ∧ s.located ledger = t := by simpa using hstep
    exact inv_located h hstage hhonest
  | paused =>
    dsimp only at hstep
    split at hstep
    · cases hstep
      exact ⟨h.exact, h.reached, h.floor, h.positive, h.locating, h.calling, h.returned⟩
    · cases hstep
  | shutdown =>
    dsimp only at hstep
    split at hstep
    · next hstage =>
      cases hstep
      have hidle := h.calling (by rw [hstage]; simp)  -- between two calls the indexer is idle
      exact ⟨h.exact, h.reached, h.floor, by simp, by simp, fun _ => hidle, by simp⟩
    · cases hstep
  | call loaded =>
    dsimp only at hstep
    split at hstep
    · next hstage =>
      have hidle := h.calling (by rw [hstage]; simp)
      rw [IndexerState.step] at hstep
      simp only [hidle, Option.map_some, Option.some.injEq] at hstep
      subst hstep
      exact inv_call h hstage loaded
    · cases hstep
  | fetch action =>
    dsimp only at hstep
    split at hstep
    · cases hstep
    · next hstage hnotcall =>
      obtain ⟨indexer, hs, rfl⟩ := Option.map_eq_some_iff.mp hstep
      obtain ⟨hexact, hreached, hreturned⟩ := fetch_step hserver h.exact h.reached h.floor
        (h.positive (.inr hstage)) hnotcall hhonest hs
      exact ⟨hexact, hreached, h.floor, h.positive,
        fun hl => absurd (hstage.symm.trans hl) (by simp), fun hne => absurd hstage hne,
        fun _ => hreturned⟩
    · cases hstep
  | settle =>
    dsimp only at hstep
    split at hstep
    · next hstage hidle hreturned =>
      cases hstep
      exact inv_settle h hstage hidle hreturned
    · cases hstep
  | restart filters =>
    cases hstep
    exact inv_restart hserver h hhonest

theorem RunLoop.Fresh.inv (h : s.Fresh loop) : Inv loop config libraries server s := by
  have horigin : s.indexer.origin = none := by simp [IndexerState.origin, h.pages]
  have hopen : s.indexer.openRows = [] := by rw [IndexerState.openRows, h.phase]; rfl
  refine ⟨⟨?_, ?_, ?_⟩, ⟨?_, ?_, ?_, ?_, ?_, ?_, ?_⟩, ?_, ?_, ?_, fun _ => h.phase, ?_⟩
  · simp [h.table, hopen]
  · simp [h.table, hopen, keys]
  · simp [h.filters]
  · simp [StoredBelow, horigin]
  · simp [CursorStored, h.checkpoint]
  · simp [h.ledgers]
  · simp [horigin]
  · simp [horigin]
  · simp [h.phase]
  · simp [h.phase]
  · exact h.currentLedger ▸ UInt64.le_refl _
  · simp [h.starting]
  · simp [h.starting]
  · simp [h.starting]

/-- The table against the server: one row for each key, of its events and of nothing else, and for
    every event owed from the origin up to the ledger the loop has reached a row: its own, unless
    the server has another event of its key. -/
structure Complete (config : Config) (libraries : Libraries) (server : EventServer) (s : RunLoop) :
    Prop where
  rows : ∀ row ∈ s.indexer.table, ∃ event ∈ server.events, RowOf config event row
  nodup : (keys s.indexer.table).Nodup
  stored : ∀ origin ∈ s.indexer.origin, ∀ event ∈ server.events, event.ledger < s.currentLedger →
    eligible config libraries origin event = true → ∃ row ∈ s.indexer.table,
      ∃ twin ∈ server.events, twin.key = event.key ∧ RowOf config twin row

def sampleLoop : RunLoop where
  indexer := { sampleStart (some .new) with checkpoint := none }
  stage := .starting
  currentLedger := 100
  consecutiveDbErrors := 0
  rpcBackoffMs := 1000
  sleepMs := 0

/-- The first process stores the event and dies; the second one gets it again. -/
def crashAndResume : List LoopAction :=
  [.start true, .call true, .fetch (.receive sampleAnswer true), .fetch (.store none 7),
    .restart ⟨some .new, none⟩, .start true, .call true, .fetch (.receive sampleAnswer true),
    .fetch (.store none 8), .fetch (.finish ⟨true, true, true⟩), .settle]

end

end SorobanPulse.Ingest
