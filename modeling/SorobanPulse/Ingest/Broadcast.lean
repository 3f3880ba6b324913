import SorobanPulse.Ingest.Checkpoint

/-! Broadcast and the database: when what subscribers are shown is stored.

    An event goes into the ring buffer and on the channel in its turn of the loop, inside the open
    transaction. A page that then rolls back has announced rows that do not exist, and announces
    them again when they are inserted again. So a run is in order exactly if no page that inserted
    anything is rolled back while the channel is attached. -/

namespace SorobanPulse.Ingest
open Lib Sse

/-- Everything subscribers may be shown: what was sent, and what the ring buffer replays. -/
def IndexerState.published (s : IndexerState) : List SorobanEvent :=
  s.broadcast.map (·.event) ++ s.sseRingBuffer.elim [] (·.events)

/-- The event has its row. -/
def Stored (config : Config) (rows : List EventRow) (event : SorobanEvent) : Prop :=
  ∃ timestamp, rowOf config event timestamp ∈ rows

/-- Between transactions, whatever was published is stored; and no event is broadcast twice. -/
structure BroadcastDurable (config : Config) (s : IndexerState) : Prop where
  durable : s.phase.page = none → ∀ event ∈ s.published, Stored config s.table event
  once : (s.broadcast.map (·.event.key)).Nodup

/-- `BroadcastDurable` in every state of every run. -/
def BroadcastSafe (config : Config) (libraries : Libraries) : Prop :=
  ∀ (s : IndexerState) (actions : List Action) (t : IndexerState), s.Started →
    AnyRun (IndexerState.step config libraries) s actions t → BroadcastDurable config t

/-- With the channel attached, a transaction that inserted something is not rolled back. -/
def Lands (s : IndexerState) : Action → Prop
  | .finish ending => ∀ cycle page, s.phase = .storing cycle page → s.eventTx = true →
      page.tx.rows ≠ [] → page.lands cycle ending = true
  | _ => True

/-- What holds between steps: published events have their row in the table or in the transaction,
    and the rows of the transaction are new and, with the channel attached, broadcast. -/
structure Announced (config : Config) (s : IndexerState) : Prop where
  stored : ∀ event ∈ s.published, Stored config (s.table ++ s.openRows) event
  silent : s.eventTx = false → s.published = []
  once : (s.broadcast.map (·.event.key)).Nodup
  fresh : ∀ row ∈ s.openRows, row.key ∉ keys s.table
  sent : s.eventTx = true → ∀ row ∈ s.openRows, ∃ message ∈ s.broadcast, message.event.key = row.key

section
variable {config : Config} {libraries : Libraries} {s t : IndexerState}

/-! ### Publishing -/

@[simp] theorem broadcastEvent_key (event : SorobanEvent) :
    (broadcastEvent config event).key = event.key := by
  unfold broadcastEvent
  split <;> rfl

/-- The tenant of a row comes from the settings, not from the event. -/
@[simp] theorem rowOf_broadcastEvent (event : SorobanEvent) (timestamp : ℤ) :
    rowOf config (broadcastEvent config event) timestamp = rowOf config event timestamp := by
  unfold broadcastEvent
  split <;> rfl

theorem Stored.key_mem {rows : List EventRow} {event : SorobanEvent}
    (h : Stored config rows event) : event.key ∈ keys rows := by
  obtain ⟨timestamp, hrow⟩ := h
  exact List.mem_map_of_mem hrow

theorem Stored.mono {rows : List EventRow} {event : SorobanEvent} (h : Stored config rows event)
    (more : List EventRow) : Stored config (rows ++ more) event := by
  obtain ⟨timestamp, hrow⟩ := h
  exact ⟨timestamp, List.mem_append_left _ hrow⟩

theorem publish_silent (hsilent : s.eventTx = false) (event : SorobanEvent) (eid : Uuid) :
    s.publish config event eid = s := by
  rw [IndexerState.publish, hsilent]
  exact if_neg (by simp)

theorem publish_broadcast (htx : s.eventTx = true) (event : SorobanEvent) (eid : Uuid) :
    ∃ id, (s.publish config event eid).broadcast =
      s.broadcast ++ [{ id, event := broadcastEvent config event }] := by
  rw [IndexerState.publish, if_pos htx]
  exact ⟨_, rfl⟩

/-- Publishing shows subscribers one event more. -/
theorem mem_publish {event other : SorobanEvent} {eid : Uuid}
    (h : other ∈ (s.publish config event eid).published) :
    other = broadcastEvent config event ∨ other ∈ s.published := by
  unfold IndexerState.publish at h
  split at h
  · rcases List.mem_append.mp h with hsent | hring
    · rw [List.map_append, List.mem_append] at hsent
      rcases hsent with hold | hnew
      · exact .inr (List.mem_append_left _ hold)
      · exact .inl (List.mem_singleton.mp hnew)
    · cases hbuf : s.sseRingBuffer with
      | none =>
        rw [hbuf] at hring
        cases hring
      | some buf =>
        rw [hbuf] at hring
        refine (SseRingBuffer.mem_push hring).imp_right fun hold => List.mem_append_right _ ?_
        rw [hbuf]
        exact hold
  · exact .inr h

/-! ### Step by step -/

theorem Announced.durable (h : Announced config s) : BroadcastDurable config s := by
  refine ⟨?_, h.once⟩
  intro hpage event hevent
  have hstored := h.stored event hevent
  rw [IndexerState.openRows, hpage, Option.elim_none, List.append_nil] at hstored
  exact hstored

/-- Steps that publish nothing, and leave no open rows or those that were there. -/
theorem announced_quiet (h : Announced config s)
    (hstored : ∀ event ∈ s.published, Stored config (t.table ++ t.openRows) event)
    (hbroadcast : t.broadcast = s.broadcast) (hring : t.sseRingBuffer = s.sseRingBuffer)
    (htx : t.eventTx = s.eventTx)
    (hopen : t.openRows = [] ∨ (t.openRows = s.openRows ∧ t.table = s.table)) :
    Announced config t := by
  have hpublished : t.published = s.published := by
    rw [IndexerState.published, IndexerState.published, hbroadcast, hring]
  refine ⟨?_, ?_, ?_, ?_, ?_⟩
  · rw [hpublished]
    exact hstored
  · rw [hpublished, htx]
    exact h.silent
  · rw [hbroadcast]
    exact h.once
  · rcases hopen with hnone | ⟨hsame, htable⟩
    · simp [hnone]
    · rw [hsame, htable]
      exact h.fresh
  · rcases hopen with hnone | ⟨hsame, htable⟩
    · simp [hnone]
    · rw [hsame, htx, hbroadcast]
      exact h.sent

/-- Publishing an event that has its row and whose key has not been sent. -/
theorem announced_publish {event : SorobanEvent} (eid : Uuid)
    (hstored : ∀ other ∈ s.published, Stored config (s.table ++ s.openRows) other)
    (hsilent : s.eventTx = false → s.published = [])
    (honce : (s.broadcast.map (·.event.key)).Nodup)
    (hfresh : ∀ row ∈ s.openRows, row.key ∉ keys s.table)
    (hsent : s.eventTx = true → ∀ row ∈ s.openRows,
      row.key = event.key ∨ ∃ message ∈ s.broadcast, message.event.key = row.key)
    (hrow : Stored config (s.table ++ s.openRows) event)
    (hunsent : ∀ message ∈ s.broadcast, message.event.key ≠ event.key) :
    Announced config (s.publish config event eid) := by
  cases htx : s.eventTx with
  | false =>
    rw [publish_silent htx]
    exact ⟨hstored, hsilent, honce, hfresh, fun h => absurd (htx.symm.trans h) (by simp)⟩
  | true =>
    obtain ⟨id, hbroadcast⟩ := publish_broadcast htx event eid
    refine ⟨?_, ?_, ?_, ?_, ?_⟩  -- the event that goes out now has its row
    · intro other hother
      rw [IndexerState.openRows, publish_table, publish_phase]
      rcases mem_publish hother with rfl | hold
      · obtain ⟨timestamp, hmem⟩ := hrow
        exact ⟨timestamp, by rw [rowOf_broadcastEvent]; exact hmem⟩
      · exact hstored other hold
    · intro h
      rw [publish_eventTx] at h
      exact absurd (htx.symm.trans h) (by simp)
    · rw [hbroadcast, List.map_append, List.nodup_append]
      refine ⟨honce, by simp, ?_⟩
      rintro key hkey other hother rfl  -- its key is in no message yet
      obtain ⟨message, hmessage, rfl⟩ := List.mem_map.mp hkey
      refine hunsent message hmessage ?_
      simpa using hother
    · rw [IndexerState.openRows, publish_table, publish_phase]
      exact hfresh
    · -- each row of the page is this event's or was announced before
      intro _ row hmem
      rw [IndexerState.openRows, publish_phase] at hmem
      rw [hbroadcast]
      rcases hsent htx row hmem with hkey | ⟨message, hmessage, hkey⟩
      · exact ⟨_, List.mem_append_right _ List.mem_cons_self, by rw [hkey, broadcastEvent_key]⟩
      · exact ⟨message, List.mem_append_left _ hmessage, hkey⟩

theorem announced_store (h : Announced config s) {cycle : Cycle} {page : Page}
    {event : SorobanEvent} {rest : List SorobanEvent} (fault : Option Statement) (eid : Uuid)
    (hphase : s.phase = .storing cycle page) :
    Announced config (s.store config libraries cycle page event rest fault eid) := by
  have hopen := openRows_storing hphase
  rcases store_cases config libraries s cycle page event rest fault eid with
    ⟨filters, tx, htx, heq⟩ | ⟨filters, timestamp, _, hnew, heq⟩
  · have hrows : tx.rows = s.openRows := by
      rw [hopen]
      rcases htx with rfl | rfl <;> rfl
    rw [heq]
    refine announced_quiet h ?_ rfl rfl rfl (.inr ⟨hrows, rfl⟩)
    intro other hother
    have hstored := h.stored other hother
    rw [← hrows] at hstored
    exact hstored
  · rw [heq]
    rw [← hopen] at hnew
    -- whatever was broadcast has a row, so the key of the new event was not
    have hunsent : ∀ message ∈ s.broadcast, message.event.key ≠ event.key := by
      intro message hmessage hkey
      have hstored := h.stored message.event
        (List.mem_append_left _ (List.mem_map_of_mem hmessage))
      exact hnew (hkey ▸ hstored.key_mem)
    refine announced_publish eid ?_ h.silent h.once ?_ ?_ ⟨timestamp, ?_⟩ hunsent
    · intro other hother
      have hstored := (h.stored other hother).mono [rowOf config event timestamp]
      rw [hopen, List.append_assoc] at hstored
      exact hstored
    · intro row hrow
      rcases List.mem_append.mp hrow with hold | hlast
      · exact h.fresh row (hopen ▸ hold)
      · obtain rfl := List.mem_singleton.mp hlast
        rw [keys_append, List.mem_append, not_or] at hnew
        exact hnew.1
    · intro hsend row hrow
      rcases List.mem_append.mp hrow with hold | hlast
      · exact .inr (h.sent hsend row (hopen ▸ hold))
      · obtain rfl := List.mem_singleton.mp hlast
        exact .inl rfl
    · exact List.mem_append_right _ (List.mem_append_right _ List.mem_cons_self)

theorem announced_finish (h : Announced config s) {cycle : Cycle} {page : Page} {ending : Ending}
    (hphase : s.phase = .storing cycle page) (hlands : Lands s (.finish ending)) :
    Announced config (s.finish cycle page ending) := by
  have hopen := openRows_storing hphase
  have hclosed : (cycle.next page.result ending.committed).1.page.elim [] (·.tx.rows) = [] := by
    rw [next_page]
    rfl
  have hstored := h.stored
  rw [hopen] at hstored
  unfold IndexerState.finish
  split
  · refine announced_quiet h ?_ rfl rfl rfl (.inl hclosed)
    exact fun event hevent => (hstored event hevent).mono _
  · next hrollback =>
    refine announced_quiet h ?_ rfl rfl rfl (.inl hclosed)
    intro event hevent
    -- nothing was sent, or the transaction had inserted nothing
    cases htx : s.eventTx with
    | false =>
      rw [h.silent htx] at hevent
      cases hevent
    | true =>
      by_cases hrows : page.tx.rows = []
      · have hmem := hstored event hevent
        rw [hrows, List.append_nil] at hmem
        exact hmem.mono _
      · exact absurd (hlands cycle page hphase htx hrows) hrollback

theorem announced_step {action : Action} (hlands : Lands s action)
    (hstep : s.step config libraries action = some t) (h : Announced config s) :
    Announced config t := by
  cases step_cases hstep with
  | cycle phase returned hbefore hafter =>
    refine announced_quiet h ?_ rfl rfl rfl (.inl (by simp [IndexerState.openRows, hafter]))
    exact fun event hevent => (h.durable.durable hbefore event hevent).mono _
  | receive cycle result begins hphase =>
    have hbefore : s.phase.page = none := by rw [hphase]; rfl
    have hstored := h.durable.durable hbefore
    cases begins <;> refine announced_quiet h ?_ rfl rfl rfl (.inl rfl)
    · exact fun event hevent => (hstored event hevent).mono _
    · exact fun event hevent => (hstored event hevent).mono _
  | store cycle page event rest fault eid hphase _ => exact announced_store h fault eid hphase
  | finish cycle page ending hphase _ => exact announced_finish h hphase hlands

/-- A rollback after an insert shows: a broadcast event has no row. -/
theorem lands_of_durable {action : Action} (hstep : s.step config libraries action = some t)
    (h : Announced config s) (hgood : BroadcastDurable config t) : Lands s action := by
  cases step_cases hstep with
  | cycle phase returned hbefore _ =>
    cases action with
    | finish ending => exact fun _ _ hphase => absurd hphase (Phase.ne_storing hbefore)
    | _ => trivial
  | receive cycle result begins _ => trivial
  | store cycle page event rest fault eid _ _ => trivial
  | finish cycle page ending hphase _ =>
    intro _ _ hphase' htx hrows
    cases hphase.symm.trans hphase'
    by_contra hrollback
    obtain ⟨row, hrow⟩ := List.exists_mem_of_ne_nil _ hrows
    have hopen : row ∈ s.openRows := (openRows_storing hphase).symm ▸ hrow
    obtain ⟨message, hmessage, hkey⟩ := h.sent htx row hopen
    rw [IndexerState.finish, if_neg hrollback] at hgood
    have hstored := hgood.durable (next_page cycle page.result ending.committed) message.event
      (List.mem_append_left _ (List.mem_map_of_mem hmessage))
    exact h.fresh row hopen (hkey ▸ hstored.key_mem)

theorem IndexerState.Started.announced (h : s.Started) : Announced config s := by
  have hpublished : s.published = [] := by
    rw [IndexerState.published, h.broadcast]
    cases hbuf : s.sseRingBuffer with
    | none => rfl
    | some buf => simp [SseRingBuffer.events, h.ring buf (by rw [hbuf]; rfl)]
  have hopen : s.openRows = [] := by
    rw [IndexerState.openRows, h.idle]
    rfl
  refine ⟨?_, fun _ => hpublished, ?_, ?_, ?_⟩
  · simp [hpublished]
  · simp [h.broadcast]
  · simp [hopen]
  · simp [hopen]

/-- A run is durable in every state exactly if no step of it rolls back what it announced. -/
theorem throughout_durable_iff (config : Config) (libraries : Libraries) (s : IndexerState)
    (actions : List Action) (t : IndexerState) (hstart : s.Started)
    (hrun : AnyRun (IndexerState.step config libraries) s actions t) :
    Throughout (IndexerState.step config libraries) (BroadcastDurable config) s actions ↔
      Run (IndexerState.step config libraries) Lands s actions t :=
  hrun.throughout_iff (fun h => h.durable) (fun hlands hstep => announced_step hlands hstep)
    (fun hstep h hgood => lands_of_durable hstep h hgood) hstart.announced

end

/-! ### The failed commit, seen by a subscriber -/

/-- The event of the failed page has been sent, and the table is empty. -/
theorem not_broadcastSafe_fetchPage : ¬ BroadcastSafe {} sampleLibraries := by
  intro h
  have hdurable := h (sampleStart (some .new)) (fetchPage false)
    ((exec (IndexerState.step {} sampleLibraries) (sampleStart (some .new)) (fetchPage false)).get
      (by decide +kernel))
    (sampleStart_started _) (anyRun_iff_exec.mpr (Option.some_get _).symm)
  obtain ⟨timestamp, hrow⟩ := hdurable.durable rfl sampleEvent List.mem_cons_self
  cases hrow

/-- Without a session filter the page fetched again is sent again. -/
example : ((exec (IndexerState.step {} sampleLibraries) (sampleStart none) fetchPageAgain).map
    fun t => t.broadcast.map (·.event.key)) = some [sampleEvent.key, sampleEvent.key] := by
  decide +kernel

/-- A page that commits: durable throughout, and its one rollback candidate lands. -/
theorem throughout_durable_fetchPage :
    Throughout (IndexerState.step {} sampleLibraries) (BroadcastDurable {})
      (sampleStart (some .new)) (fetchPage true) := by
  refine (throughout_durable_iff {} sampleLibraries (sampleStart (some .new)) (fetchPage true) _
    (sampleStart_started _) (.cons trivial rfl (.cons trivial rfl (.cons trivial rfl
      (.cons trivial rfl (.nil _)))))).mpr ?_
  refine .cons trivial rfl (.cons trivial rfl (.cons trivial rfl (.cons ?_ rfl (.nil _))))
  rintro _ _ ⟨⟩ _ _
  rfl

end SorobanPulse.Ingest
