import SorobanPulse.Ingest.RunLoop

/-! One call of the polling loop against an honest server: what each step keeps of `Exact`,
    `Reached` and `Returned`.

    A page begins at the checkpoint or at the start ledger, and in either case where the rows end:

        stored ───────────────┤ page ├──── not yet visible
                     position ▲      ▲ position + length, its cursor

    Its events are stored or pending; when it lands, the rows end where the page does. -/

namespace SorobanPulse.Ingest
open Lib Rpc Sse

/-! ### Small facts -/

section
variable {loop : LoopConfig} {config : Config} {libraries : Libraries} {server : EventServer}
  {s t : IndexerState} {event : SorobanEvent}

theorem eligible_iff {startLedger : UInt64} :
    eligible config libraries startLedger event = true ↔
      startLedger ≤ event.ledger ∧ eligible config libraries 0 event = true := by
  simp [eligible, and_assoc]

theorem prepareRow_of_not_eligible (h : eligible config libraries 0 event = false)
    (row : EventRow) : prepareRow config libraries event ≠ .ok (some row) := by
  intro hrow
  unfold prepareRow at hrow
  split at hrow
  · cases hrow
  next htenant =>
  split at hrow
  · cases hrow
  next hvalid =>
  split at hrow
  · cases hrow
  split at hrow
  · cases hrow
  next timestamp hparse =>
  split at hrow
  · cases hrow
  next hsize =>
  simp_all [eligible]

/-- A landed page becomes the origin unless there is one; any other page changes nothing. -/
theorem getLast_committed (page : EndedPage) (pages : List EndedPage) :
    ((page :: pages).filter (·.committed)).getLast?.map (·.startLedger) =
      ((pages.filter (·.committed)).getLast?.map (·.startLedger)).or
        (if page.committed then some page.startLedger else none) := by
  cases hcommitted : page.committed with
  | false => simp [hcommitted]
  | true =>
    rw [List.filter_cons_of_pos hcommitted, List.getLast?_cons]
    cases (pages.filter (·.committed)).getLast? <;> rfl

/-- Positions already reached stay reached: the table grows and an origin is kept. -/
theorem StoredBelow.mono {table more : List EventRow} {origin : Option UInt64} {position : ℕ}
    (h : StoredBelow config libraries server table origin position) :
    StoredBelow config libraries server (table ++ more) origin position :=
  fun o ho => (h o ho).mono

theorem StoredBelow.of_le {table : List EventRow} {origin : Option UInt64} {position earlier : ℕ}
    (h : StoredBelow config libraries server table origin position) (hle : earlier ≤ position) :
    StoredBelow config libraries server table origin earlier :=
  fun o ho event hevent => h o ho event (List.take_subset_take_left _ hle hevent)

/-- Nothing is owed below the origin. -/
theorem stored_below {table : List EventRow} {origin : Option UInt64} {ledger : UInt64}
    (h : ∀ o ∈ origin, ledger ≤ o) :
    StoredBelow config libraries server table origin (server.before ledger) := by
  intro o ho event hevent helig
  have hlt := (mem_take_before.mp hevent).2
  exact absurd (UInt64.lt_of_lt_of_le hlt (h o ho)) (UInt64.not_lt.mpr (eligible_ledger helig))

/-- The first committed page makes its start ledger the origin, below which nothing is owed. -/
theorem StoredBelow.commit (more : List EventRow) {table : List EventRow} {origin : Option UInt64}
    {current ledger : UInt64} (hle : ledger ≤ current)
    (h : StoredBelow config libraries server table origin (server.before ledger)) :
    StoredBelow config libraries server (table ++ more) (origin.or (some current))
      (server.before ledger) := by
  cases origin with
  | some o => exact h.mono
  | none => exact stored_below (by simpa using hle)

theorem CursorStored.commit (more : List EventRow) (current : UInt64) {table : List EventRow}
    {origin : Option UInt64} {cursor : Option String}
    (h : CursorStored config libraries server table origin cursor) :
    CursorStored config libraries server (table ++ more) (origin.or (some current)) cursor := by
  intro c hc
  obtain ⟨hsome, position, htext, hstored⟩ := h c hc
  obtain ⟨o, rfl⟩ := Option.isSome_iff_exists.mp hsome
  exact ⟨rfl, position, htext, hstored.mono⟩

end

/-! ### One event -/

section
variable {loop : LoopConfig} {config : Config} {libraries : Libraries} {server : EventServer}
  {s t : IndexerState} {cycle : Cycle} {page : Page} {event : SorobanEvent}
  {rest : List SorobanEvent}

/-- What storing an event of the server adds to its live transaction: at most its row, and its row
    or one of its key when it is to be stored. -/
structure Added (config : Config) (libraries : Libraries) (s : IndexerState) (cycle : Cycle)
    (page : Page) (event : SorobanEvent) (more : List EventRow) : Prop where
  rows : ∀ row ∈ more, eligible config libraries 0 event = true ∧ RowOf config event row
  nodup : (keys (s.table ++ page.tx.rows ++ more)).Nodup
  stored : eligible config libraries cycle.startLedger event = true →
    event.key ∈ keys (s.table ++ page.tx.rows ++ more)

theorem added_nil (h : Exact config libraries server s) (hphase : s.phase = .storing cycle page)
    (hstored : eligible config libraries cycle.startLedger event = true →
      event.key ∈ keys (s.table ++ page.tx.rows)) :
    Added config libraries s cycle page event [] := by
  have hnodup := h.nodup
  rw [openRows_storing hphase] at hnodup
  refine ⟨by simp, ?_, ?_⟩ <;> rwa [List.append_nil]

/-- A filter that has seen an event to be stored knows a stored key. -/
theorem Exact.key_of_seen (h : Exact config libraries server s)
    (hphase : s.phase = .storing cycle page) (hevent : event ∈ server.events)
    (helig : eligible config libraries 0 event = true) (hseen : s.filters.seen event = true) :
    event.key ∈ keys (s.table ++ page.tx.rows) := by
  have hkey := h.filters event hevent helig (DedupFilters.key_mem_of_seen hseen)
  rwa [openRows_storing hphase] at hkey

theorem store_added (rest : List SorobanEvent) (hserver : Storable config libraries server)
    (h : Exact config libraries server s) (hphase : s.phase = .storing cycle page)
    (hlive : page.tx.aborted = false) (hevent : event ∈ server.events) (eid : Uuid) :
    ∃ more, Added config libraries s cycle page event more ∧
      (s.store config libraries cycle page event rest none eid).phase =
        .storing cycle { page with
          queue := rest
          tx := { page.tx with rows := page.tx.rows ++ more } } := by
  -- below the start ledger, skipped before the transaction sees it
  by_cases hbelow : event.ledger < cycle.startLedger
  · refine ⟨[], added_nil h hphase ?_, ?_⟩
    · exact fun helig => absurd (eligible_ledger helig) (UInt64.not_le.mpr hbelow)
    · rw [IndexerState.store, if_pos hbelow]
      simp
  have hledger := UInt64.not_lt.mp hbelow
  cases helig : eligible config libraries 0 event with
  | false =>
    refine ⟨[], added_nil h hphase ?_, ?_⟩
    · -- not storable: prepareRow gives no row
      intro hstart
      rw [(eligible_iff.mp hstart).2] at helig
      cases helig
    · rw [store_phase hledger, storeEventInTx_of_unprepared (prepareRow_of_not_eligible helig)]
      simp
  | true =>
    have hvalid : Valid config libraries cycle.startLedger event :=
      ⟨eligible_iff.mpr ⟨hledger, helig⟩, hserver.fits event hevent⟩
    obtain ⟨row, hrow, htx⟩ :=
      storeEventInTx_valid hvalid hlive (h.key_of_seen hphase hevent helig)
    -- an event of its key has its row already
    by_cases hkey : event.key ∈ keys (s.table ++ page.tx.rows)
    · refine ⟨[], added_nil h hphase fun _ => hkey, ?_⟩
      rw [store_phase hledger, htx, if_pos hkey]
      simp
    · -- the new row, under a key that no row had
      refine ⟨[row], ⟨by simpa using ⟨helig, hrow⟩, ?_, ?_⟩, ?_⟩
      · have hnodup := h.nodup
        obtain ⟨timestamp, rfl⟩ := hrow
        rw [openRows_storing hphase] at hnodup
        rw [keys_append, List.nodup_append]
        refine ⟨hnodup, by simp [keys], ?_⟩
        rintro a ha b hb rfl
        simp [keys] at hb
        exact hkey (hb ▸ ha)
      · obtain ⟨timestamp, rfl⟩ := hrow
        simp [keys]
      · rw [store_phase hledger, htx, if_neg hkey]

/-- The filters' memory after an event: its own key, where the event was looked at. -/
theorem exact_store (hserver : Storable config libraries server)
    (h : Exact config libraries server s) (hphase : s.phase = .storing cycle page)
    (hlive : page.tx.aborted = false) (hevent : event ∈ server.events) (eid : Uuid) :
    Exact config libraries server (s.store config libraries cycle page event rest none eid) := by
  obtain ⟨more, hadded, hphase'⟩ := store_added rest hserver h hphase hlive hevent eid
  obtain ⟨htable, _, _⟩ := store_frame config libraries s cycle page event rest none eid
  have hopen := openRows_storing hphase
  have hrows : (s.store config libraries cycle page event rest none eid).table ++
      (s.store config libraries cycle page event rest none eid).openRows =
        s.table ++ s.openRows ++ more := by
    rw [htable, openRows_storing hphase', hopen, List.append_assoc]
  refine ⟨?_, ?_, ?_⟩
  · rw [hrows]
    intro row hrow
    rcases List.mem_append.mp hrow with hold | hnew  -- a row of before, or that of this event
    · exact h.rows row hold
    · obtain ⟨helig, hof⟩ := hadded.rows row hnew
      exact ⟨event, hevent, helig, hof⟩
  · rw [hrows, hopen]
    exact hadded.nodup
  · rw [hrows]
    intro other hother helig hkey
    by_cases hbelow : event.ledger < cycle.startLedger  -- skipped, so the filters are as before
    · rw [IndexerState.store, if_pos hbelow] at hkey
      exact keys_subset _ _ (h.filters other hother helig hkey)
    rcases mem_store_filters hkey with hbloom | hold
    · -- the filters know the key now: eligible or not, all events of one Bloom key are alike
      have helig' : eligible config libraries 0 event = true :=
        (hserver.alike other hother event hevent hbloom) ▸ helig
      have hvalid : ∀ e ∈ server.events, eligible config libraries 0 e = true → WellKeyed e :=
        fun e he h0 => wellKeyed_of_valid ⟨h0, hserver.fits e he⟩
      rw [key_eq_of_bloomKey_eq (hvalid other hother helig) (hvalid event hevent helig') hbloom,
        hopen]
      exact hadded.stored (eligible_iff.mpr ⟨UInt64.not_lt.mp hbelow, helig'⟩)
    · exact keys_subset _ _ (h.filters other hother helig hold)

theorem storing_store (hserver : Storable config libraries server)
    (hexact : Exact config libraries server s) (hphase : s.phase = .storing cycle page)
    (hqueue : page.queue = event :: rest) (h : Storing config libraries server s cycle page)
    (eid : Uuid) {cycle' : Cycle} {page' : Page}
    (hphase' : (s.store config libraries cycle page event rest none eid).phase =
      .storing cycle' page') :
    cycle' = cycle ∧ Storing config libraries server
      (s.store config libraries cycle page event rest none eid) cycle' page' := by
  obtain ⟨position, hbegins, hanswer⟩ := h.answer
  have hevent : event ∈ server.events :=
    hanswer.subset (h.queue (by rw [hqueue]; exact List.mem_cons_self))
  obtain ⟨more, hadded, heq⟩ := store_added rest hserver hexact hphase h.live hevent eid
  obtain ⟨htable, _, hpages⟩ := store_frame config libraries s cycle page event rest none eid
  have horigin : (s.store config libraries cycle page event rest none eid).origin = s.origin := by
    rw [IndexerState.origin, hpages, IndexerState.origin]
  cases heq.symm.trans hphase'
  refine ⟨rfl, ⟨?_, ⟨position, hbegins, hanswer⟩, h.latest, h.live, ?_, ?_⟩⟩
  · rw [htable, horigin]
    exact h.cursor
  · intro other hother
    exact h.queue (by rw [hqueue]; exact List.mem_cons_of_mem _ hother)
  · intro other hother helig
    rw [htable, ← List.append_assoc]
    rcases h.pending other hother helig with hkey | hlater
    · exact .inl (keys_subset _ _ hkey)
    · rw [hqueue] at hlater
      rcases List.mem_cons.mp hlater with rfl | hrest
      · exact .inl (hadded.stored helig)
      · exact .inr hrest

end

/-! ### One step of a call -/

section
variable {loop : LoopConfig} {config : Config} {libraries : Libraries} {server : EventServer}
  {s t : IndexerState} {current : UInt64}

theorem exact_of_no_page (h : Exact config libraries server s) (hbefore : s.phase.page = none)
    {t : IndexerState} (htable : t.table = s.table) (hfilters : t.filters = s.filters)
    (hafter : t.openRows = []) : Exact config libraries server t := by
  have hopen : s.openRows = [] := by rw [IndexerState.openRows, hbefore]; rfl
  obtain ⟨hrows, hnodup, hkeys⟩ := h
  rw [hopen] at hrows hnodup hkeys
  refine ⟨?_, ?_, ?_⟩ <;> rw [htable, hafter]
  · exact hrows
  · exact hnodup
  · rw [hfilters]
    exact hkeys

/-- Whatever ends or resumes a call without a page keeps the positions. -/
theorem reached_of_no_page (h : Reached loop config libraries server current s) {phase : Phase}
    (hphase : phase.page = none) (returned)
    (hpolling : ∀ cycle, phase = .polling cycle → cycle.startLedger = current ∧
      CursorStored config libraries server s.table s.origin cycle.cursor) :
    Reached loop config libraries server current { s with phase, returned } :=
  ⟨h.here, h.checkpoint, h.ledgers, h.known, h.configured, hpolling,
    fun _ _ hstoring => absurd hstoring (Phase.ne_storing hphase)⟩

theorem reached_call (h : Reached loop config libraries server current s) (loaded : Bool) :
    Reached loop config libraries server current (s.call config current loaded) := by
  refine reached_of_no_page h rfl s.returned ?_
  rintro _ ⟨⟩
  refine ⟨rfl, ?_⟩
  dsimp only
  split
  · exact h.checkpoint
  · simp [CursorStored]

theorem reached_rpcError (h : Reached loop config libraries server current s) {cycle : Cycle}
    (hphase : s.phase = .polling cycle) (msg : String) :
    Reached loop config libraries server current (s.rpcError cycle msg) := by
  obtain ⟨hstart, hcursor⟩ := h.polling cycle hphase
  unfold IndexerState.rpcError
  split
  · split
    · refine reached_of_no_page h rfl s.returned ?_
      rintro _ ⟨⟩
      exact ⟨hstart, by simp [CursorStored]⟩
    · refine reached_of_no_page h rfl s.returned ?_
      rintro _ ⟨⟩
      exact ⟨hstart, hcursor⟩
  · exact reached_of_no_page h rfl _ (by simp)

theorem returned_rpcError (s : IndexerState) (cycle : Cycle) (msg : String) :
    Returned config libraries server (s.rpcError cycle msg) := by
  unfold IndexerState.rpcError
  split
  · split <;> simp [Returned]
  · simp [Returned]

/-- A page that is given up leaves the positions as they are. -/
theorem reached_giveUp (h : Reached loop config libraries server current s) (cycle : Cycle)
    (result : GetEventsResult) (returned) :
    Reached loop config libraries server current
      { s with phase := .idle, returned, pages := result.ended cycle false :: s.pages } := by
  have horigin : IndexerState.origin
      { s with phase := .idle, returned, pages := result.ended cycle false :: s.pages } =
        s.origin := by
    simp [IndexerState.origin, GetEventsResult.ended]
  refine ⟨?_, ?_, ?_, ?_, ?_, by simp, by simp⟩ <;> rw [horigin]
  · exact h.here
  · exact h.checkpoint
  · exact h.ledgers
  · exact h.known
  · exact h.configured

theorem reached_receive (h : Reached loop config libraries server current s) {cycle : Cycle}
    {result : GetEventsResult} {begins : Bool} (hphase : s.phase = .polling cycle)
    (hhonest : FetchHonest config server s (.receive result begins)) :
    Reached loop config libraries server current (s.receive config cycle result begins) := by
  obtain ⟨hstart, hcursor⟩ := h.polling cycle hphase
  obtain ⟨hlength, hanswers⟩ := hhonest
  unfold IndexerState.receive
  cases begins with
  | false => exact reached_giveUp h cycle result _
  | true =>
    refine ⟨h.here, h.checkpoint, h.ledgers, h.known, h.configured, by simp, ?_⟩
    rintro _ _ ⟨⟩
    refine ⟨hstart, hcursor, hanswers cycle hphase, rfl, rfl, ?_, ?_⟩
    · exact List.take_subset _ _
    · intro event hevent _
      rw [List.take_of_length_le hlength]
      exact .inr hevent

theorem reached_store (hserver : Storable config libraries server)
    (hexact : Exact config libraries server s)
    (h : Reached loop config libraries server current s) {cycle : Cycle} {page : Page}
    {event : SorobanEvent} {rest : List SorobanEvent} (eid : Uuid)
    (hphase : s.phase = .storing cycle page) (hqueue : page.queue = event :: rest) :
    Reached loop config libraries server current
      (s.store config libraries cycle page event rest none eid) := by
  obtain ⟨hstart, hstoring⟩ := h.storing cycle page hphase
  obtain ⟨htable, hcheckpoint, hpages⟩ :=
    store_frame config libraries s cycle page event rest none eid
  have horigin : (s.store config libraries cycle page event rest none eid).origin = s.origin := by
    rw [IndexerState.origin, hpages, IndexerState.origin]
  -- storing writes neither the checkpoint nor the indexer's state
  have hledgers :
      (s.store config libraries cycle page event rest none eid).ledgers = s.ledgers := by
    rcases store_cases config libraries s cycle page event rest none eid with
      ⟨_, _, _, heq⟩ | ⟨_, _, _, _, heq⟩ <;> rw [heq]
    unfold IndexerState.publish
    split <;> rfl
  obtain ⟨tx, htx⟩ := store_page config libraries s cycle page event rest none eid
  refine ⟨?_, ?_, ?_, ?_, ?_, ?_, ?_⟩
  · rw [htable, horigin]
    exact h.here
  · rw [htable, horigin, hcheckpoint]
    exact h.checkpoint
  · rw [htable, horigin, hledgers]
    exact h.ledgers
  · rw [horigin, hledgers]
    exact h.known
  · rw [horigin]
    exact h.configured
  · intro cycle' hpolling
    rw [htx] at hpolling
    cases hpolling
  · -- the page is under way with one event less
    intro cycle' page' hphase'
    obtain ⟨rfl, hnext⟩ := storing_store hserver hexact hphase hqueue hstoring eid hphase'
    exact ⟨hstart, hnext⟩

/-- What a page whose events are all stored brings the positions to: its own end. -/
theorem stored_page {cycle : Cycle} {page : Page}
    (hstoring : Storing config libraries server s cycle page)
    (hqueue : page.queue = []) (hstart : cycle.startLedger = current)
    (hcurrent : StoredBelow config libraries server s.table s.origin (server.before current))
    {position : ℕ} (hbegins : server.Begins cycle.startLedger cycle.cursor position)
    (hanswer : server.AnswersAt position page.result) :
    StoredBelow config libraries server (s.table ++ page.tx.rows) (s.origin.or (some current))
      (position + page.result.events.length) := by
  have hbelow := hcurrent.commit page.tx.rows (UInt64.le_refl current)
  intro o ho event hevent helig
  by_cases hledger : event.ledger < current
  · -- below the start of the cycle, where the rows had come before
    refine hbelow o ho event ?_ helig
    exact mem_take_before.mpr ⟨List.mem_of_mem_take hevent, hledger⟩
  rcases List.mem_append.mp (hanswer.take hevent) with hold | hnew
  · cases hcursor : cycle.cursor with
    | none =>
      rw [hcursor] at hbegins
      rw [show position = server.before cycle.startLedger from hbegins, mem_take_before,
        hstart] at hold
      exact absurd hold.2 hledger
    | some c =>
      rw [hcursor] at hbegins
      obtain ⟨hsome, position', htext, hstored⟩ := hstoring.cursor c hcursor
      obtain rfl : position = position' :=
        server.cursorText_injective ((show c = _ from hbegins).symm.trans htext)
      obtain ⟨o', horigin⟩ := Option.isSome_iff_exists.mp hsome
      rw [horigin] at ho hstored
      exact hstored.mono o ho event hold helig
  · have hcycle : eligible config libraries cycle.startLedger event = true := by
      rw [eligible_iff, hstart]
      exact ⟨UInt64.not_lt.mp hledger, (eligible_iff.mp helig).2⟩
    rcases hstoring.pending event hnew hcycle with hkey | hlater
    · exact hkey
    · rw [hqueue] at hlater
      cases hlater

/-- The next ledger of a call that has seen everything up to its latest ledger. -/
theorem stored_nextLedger {table : List EventRow} {origin : Option UInt64} {cycle : Cycle}
    {position : ℕ} (hend : StoredBelow config libraries server table origin position)
    (hlast : server.upTo cycle.latestLedger ≤ position)
    (hstart : StoredBelow config libraries server table origin (server.before cycle.startLedger)) :
    StoredBelow config libraries server table origin (server.before cycle.result.nextLedger) := by
  unfold Cycle.result
  dsimp only
  split
  · exact hend.of_le (before_succ_le.trans hlast)
  · exact hstart

/-- The state after a page that has landed. -/
structure Landed (config : Config) (libraries : Libraries) (server : EventServer)
    (s t : IndexerState) (cycle : Cycle) (page : Page) : Prop where
  table : t.table = s.table ++ page.tx.rows
  openRows : t.openRows = []
  origin : t.origin = s.origin.or (some cycle.startLedger)
  filters : t.filters = s.filters
  phase : t.phase = (cycle.next page.result true).1
  returned : t.returned = (cycle.next page.result true).2
  checkpoint : t.checkpoint = (page.result.pageCursor cycle).or s.checkpoint
  ledgers : t.ledgers = some (cycle.startLedger, cycle.latestLedger)

theorem landed_finish {cycle : Cycle} {page : Page} {ending : Ending}
    (hlands : page.lands cycle ending = true) (hcommitted : ending.committed = true) :
    Landed config libraries server s (s.finish cycle page ending) cycle page := by
  have hnext := next_page cycle page.result true
  rw [IndexerState.finish, if_pos hlands, hcommitted]
  refine ⟨rfl, ?_, ?_, rfl, rfl, rfl, rfl, rfl⟩
  · rw [IndexerState.openRows]
    dsimp only
    rw [hnext]
    rfl
  · rw [IndexerState.origin]
    exact getLast_committed _ _

theorem next_of_last (cycle : Cycle) {result : GetEventsResult} (h : result.rpcCursor = none) :
    cycle.next result true = (.idle, some (.ok cycle.result)) := by
  simp [Cycle.next, h]

theorem next_of_cursor (cycle : Cycle) {result : GetEventsResult} {cursor : String}
    (h : result.rpcCursor = some cursor) :
    cycle.next result true = (.polling { cycle with cursor := some cursor }, none) := by
  simp [Cycle.next, h]

theorem reached_landed {cycle : Cycle} {page : Page}
    (hlanded : Landed config libraries server s t cycle page)
    (h : Reached loop config libraries server current s) (hfloor : loop.startLedger ≤ current)
    (hpositive : 0 < current) (hphase : s.phase = .storing cycle page) (hqueue : page.queue = []) :
    Reached loop config libraries server current t ∧ Returned config libraries server t := by
  obtain ⟨hstart, hstoring⟩ := h.storing cycle page hphase
  obtain ⟨position, hbegins, hanswer⟩ := hstoring.answer
  have hend := stored_page hstoring hqueue hstart h.here hbegins hanswer
  have hcurrent := h.here.commit page.tx.rows (UInt64.le_refl current)
  rw [← hstart] at hend hcurrent
  -- the cursor the page's checkpoint names, where it names one
  have hown : CursorStored config libraries server (s.table ++ page.tx.rows)
      (s.origin.or (some cycle.startLedger)) page.result.rpcCursor := by
    intro c hc
    exact ⟨by simp, _, hanswer.next c hc, hend⟩
  have hcursor := hstoring.cursor.commit page.tx.rows cycle.startLedger
  have hcheckpoint := h.checkpoint.commit page.tx.rows cycle.startLedger
  refine ⟨⟨?_, ?_, ?_, ?_, ?_, ?_, ?_⟩, ?_⟩
  · rw [hlanded.table, hlanded.origin, ← hstart]
    exact hcurrent
  · rw [hlanded.table, hlanded.origin, hlanded.checkpoint, GetEventsResult.pageCursor]
    intro c hc
    cases hrpc : page.result.rpcCursor with
    | some _ => exact hown c (by rw [hrpc] at hc ⊢; exact hc)
    | none =>
      cases hcyc : cycle.cursor with
      | some _ => exact hcursor c (by rw [hrpc, hcyc] at hc; rw [hcyc]; exact hc)
      | none => exact hcheckpoint c (by rw [hrpc, hcyc] at hc; exact hc)
  · rw [hlanded.table, hlanded.origin, hlanded.ledgers]
    rintro _ ⟨⟩
    exact ⟨hstart ▸ hpositive, hcurrent⟩
  · rw [hlanded.ledgers]
    simp
  · rw [hlanded.origin]
    intro o ho
    cases horigin : s.origin with
    | some o' =>
      rw [horigin] at ho
      exact h.configured o (by rw [horigin]; exact ho)
    | none =>
      rw [horigin] at ho
      cases ho
      exact hstart ▸ hfloor
  · rw [hlanded.table, hlanded.origin, hlanded.phase]
    cases hrpc : page.result.rpcCursor with
    | none => simp [next_of_last cycle hrpc]
    | some c =>
      rw [next_of_cursor cycle hrpc]
      rintro _ ⟨⟩
      exact ⟨hstart, hrpc ▸ hown⟩
  · rw [hlanded.phase]
    exact fun _ _ hstoring' => absurd hstoring' (Phase.ne_storing (next_page _ _ _))
  · rw [Returned, hlanded.table, hlanded.origin, hlanded.phase, hlanded.returned]
    cases hrpc : page.result.rpcCursor with
    | some c => simp [next_of_cursor cycle hrpc]
    | none =>
      rw [next_of_last cycle hrpc]
      rintro _ _ ⟨⟩
      refine stored_nextLedger hend ?_ hcurrent
      rw [hstoring.latest]
      exact hanswer.last hrpc

theorem exact_landed {cycle : Cycle} {page : Page}
    (hlanded : Landed config libraries server s t cycle page)
    (h : Exact config libraries server s) (hphase : s.phase = .storing cycle page) :
    Exact config libraries server t := by
  obtain ⟨hrows, hnodup, hkeys⟩ := h
  rw [openRows_storing hphase] at hrows hnodup hkeys
  refine ⟨?_, ?_, ?_⟩ <;> rw [hlanded.openRows, hlanded.table, List.append_nil]
  · exact hrows
  · exact hnodup
  · rw [hlanded.filters]
    exact hkeys

/-- A rolled back page loses its rows, and no filter remembers them. -/
theorem exact_rollback (h : Exact config libraries server s) (hfilters : s.filters.keys = [])
    (htable : t.table = s.table) (hkept : t.filters = s.filters) (hopen : t.openRows = []) :
    Exact config libraries server t := by
  refine ⟨?_, ?_, ?_⟩ <;> rw [hopen, htable, List.append_nil]
  · exact fun row hrow => h.rows row (List.mem_append_left _ hrow)
  · have hnodup := h.nodup
    rw [keys_append] at hnodup
    exact hnodup.of_append_left
  · rw [hkept, hfilters]
    simp

theorem inv_finish (h : Reached loop config libraries server current s)
    (hexact : Exact config libraries server s) (hfloor : loop.startLedger ≤ current)
    (hpositive : 0 < current) {cycle : Cycle} {page : Page} {ending : Ending}
    (hphase : s.phase = .storing cycle page) (hqueue : page.queue = [])
    (hhonest : FetchHonest config server s (.finish ending)) :
    let t := s.finish cycle page ending
    Exact config libraries server t ∧ Reached loop config libraries server current t ∧
      Returned config libraries server t := by
  obtain ⟨hcheckpoint, hstate, hend⟩ := hhonest
  have hlive := (h.storing cycle page hphase).2.live
  cases hcommitted : ending.committed with
  | true =>
    have hlands : page.lands cycle ending = true := by
      simp [Page.lands, hlive, hcheckpoint, hstate, hcommitted]
    have hlanded : Landed config libraries server s (s.finish cycle page ending) cycle page :=
      landed_finish hlands hcommitted
    exact ⟨exact_landed hlanded hexact hphase,
      reached_landed hlanded h hfloor hpositive hphase hqueue⟩
  | false =>
    have hlands : ¬ page.lands cycle ending = true := by simp [Page.lands, hcommitted]
    have hnone : s.filters = ⟨none, none⟩ := by simpa [hcommitted] using hend
    dsimp only
    rw [IndexerState.finish, if_neg hlands, hcommitted]
    refine ⟨?_, reached_giveUp h cycle page.result _, by simp [Returned, Cycle.next]⟩
    exact exact_rollback hexact (by rw [hnone]; rfl) rfl rfl rfl

/-- One step of a call against an honest server. -/
theorem fetch_step (hserver : Storable config libraries server)
    (hexact : Exact config libraries server s)
    (h : Reached loop config libraries server current s) (hfloor : loop.startLedger ≤ current)
    (hpositive : 0 < current) {action : Action}
    (hnotcall : ∀ startLedger loaded, action ≠ .call startLedger loaded)
    (hhonest : FetchHonest config server s action)
    (hstep : s.step config libraries action = some t) :
    Exact config libraries server t ∧ Reached loop config libraries server current t ∧
      Returned config libraries server t := by
  cases action with
  | call startLedger loaded => exact absurd rfl (hnotcall startLedger loaded)
  | rpcError msg =>
    unfold IndexerState.step at hstep
    dsimp only at hstep
    split at hstep
    · next cycle hphase =>
      cases hstep
      refine ⟨?_, reached_rpcError h hphase msg, returned_rpcError s cycle msg⟩
      obtain ⟨phase, returned, hpage, heq⟩ := rpcError_eq s cycle msg
      rw [heq]
      -- an error leaves the position, and no page was open
      refine exact_of_no_page hexact (by rw [hphase]; rfl) rfl rfl ?_
      rw [IndexerState.openRows, hpage]
      rfl
    · cases hstep
  | receive result begins =>
    unfold IndexerState.step at hstep
    dsimp only at hstep
    split at hstep
    · next cycle hphase =>
      cases hstep
      refine ⟨?_, reached_receive h hphase hhonest, ?_⟩
      · refine exact_of_no_page hexact (by rw [hphase]; rfl) ?_ ?_ ?_ <;>
          cases begins <;> simp [IndexerState.receive, IndexerState.openRows, Transaction.begin]
      · cases begins <;> simp [IndexerState.receive, Returned]
    · cases hstep
  | store fault eid =>  -- an honest run has no failing insert
    obtain rfl : fault = none := hhonest
    unfold IndexerState.step at hstep
    dsimp only at hstep
    split at hstep
    · next cycle page hphase =>
      split at hstep
      · next event rest hqueue =>
        cases hstep
        have hstoring := (h.storing cycle page hphase).2
        obtain ⟨_, _, hanswer⟩ := hstoring.answer
        -- the queue holds what the server answered
        have hevent := hanswer.subset (hstoring.queue (by rw [hqueue]; exact List.mem_cons_self))
        obtain ⟨_, hphase'⟩ := store_page config libraries s cycle page event rest none eid
        refine ⟨exact_store hserver hexact hphase hstoring.live hevent eid,
          reached_store hserver hexact h eid hphase hqueue, ?_⟩
        simp [Returned, hphase']
      · cases hstep
    · cases hstep
  | finish ending =>
    unfold IndexerState.step at hstep
    dsimp only at hstep
    split at hstep
    · next cycle page hphase =>
      split at hstep
      · next hqueue =>
        cases hstep
        exact inv_finish h hexact hfloor hpositive hphase hqueue hhonest
      · cases hstep
    · cases hstep

end

end SorobanPulse.Ingest
