import SorobanPulse.Streaming.QueryStream

/-! What a streamed query delivers.

        rows after the starting cursor  =  yielded ++ buffered ++ rows after the cursor's key

    That holds from turn to turn, whatever the fetches do. The flag `exhausted` says why the stream
    ended: a batch came back short. All rows may have been yielded without that, when their number is
    a multiple of the batch size and no further batch was asked for. -/

namespace SorobanPulse.Streaming

variable {T κ : Type} [LinearOrder κ] (rs : ResultSet T κ) (config : StreamingQueryConfig)

/-! ### What a turn can do -/

/-- The branches of a turn, each with what it takes. -/
inductive Turned (await : Await) (s : State T κ) : Turn T → State T κ → Prop
  | finished : s.finished = true → Turned await s .stop s
  | row {row : T} {rest : List T} : s.finished = false → s.buffered = row :: rest →
      Turned await s (.item (.ok (.Row row))) { s with
        buffered := rest
        stats := { s.stats with rowsEmitted := s.stats.rowsEmitted + 1 } }
  | cancelled : s.buffered = [] → s.cancel = true →
      Turned await s .stop { s with stats := { s.stats with cancelled := true, completed := true } }
  | exhausted : s.buffered = [] → s.cursor.exhausted = true →
      Turned await s .stop { s with stats := { s.stats with exhausted := true, completed := true } }
  | full : s.buffered = [] → s.cursor.exhausted = false →
      Turned await s .stop { s with stats := { s.stats with completed := true } }
  | timeout : s.finished = false → s.buffered = [] → s.cursor.exhausted = false →
      Turned await s (.item (.ok .KeepAlive)) { s with
        inFlight := some (s.inFlight.getD s.cursor.key)
        stats := { s.stats with keepalivesSent := s.stats.keepalivesSent + 1 } }
  | rows : s.finished = false → s.buffered = [] → s.cursor.exhausted = false →
      Turned await s .again (received rs config
        (rs.fetch (s.inFlight.getD s.cursor.key) config.batchSize) { s with inFlight := none })
  | error (e : String) : s.buffered = [] → s.cursor.exhausted = false →
      Turned await s (.item (.error e)) (failed config { s with inFlight := none })

theorem turned (await : Await) (s : State T κ) :
    Turned rs config await s (turn rs config await s).1 (turn rs config await s).2 := by
  rw [turn]
  split
  · next hfin => exact .finished hfin
  next hfin =>
  rw [Bool.not_eq_true] at hfin
  split
  · next row rest hbuf => exact .row hfin hbuf
  next hbuf =>
  split
  · next hcancel => exact .cancelled hbuf hcancel
  split
  · next hex => exact .exhausted hbuf hex
  next hex =>
  rw [Bool.not_eq_true] at hex
  split
  · exact .full hbuf hex
  cases await with
  | timeout => exact .timeout hfin hbuf hex
  | rows => exact .rows hfin hbuf hex
  | error e => exact .error e hbuf hex

/-! ### What holds throughout -/

theorem rowsOf_concat_row (items : List (Except String (StreamItem T))) (row : T) :
    rowsOf (items ++ [.ok (.Row row)]) = rowsOf items ++ [row] := by
  simp [rowsOf, intoRows, Except.toOption]

theorem rowsOf_concat_keepAlive (items : List (Except String (StreamItem T))) :
    rowsOf (items ++ [.ok .KeepAlive]) = rowsOf items := by
  simp [rowsOf, intoRows]

theorem rowsOf_concat_error (items : List (Except String (StreamItem T))) (e : String) :
    rowsOf (items ++ [.error e]) = rowsOf items := by
  simp [rowsOf, intoRows, Except.toOption]

/-- Some batch came back short. -/
def CameShort (batches : List ℕ) : Prop := ∃ b ∈ batches, (b : ℤ) < config.batchSize

theorem cameShort_concat (batches : List ℕ) (b : ℕ) :
    CameShort config (batches ++ [b]) ↔ CameShort config batches ∨ (b : ℤ) < config.batchSize := by
  simp [CameShort, or_and_right, exists_or]

structure Sound (start : QueryCursor κ) (p : Play T κ) : Prop where
  rows : rowsOf p.items ++ p.state.buffered ++ rs.rowsAfter p.state.cursor.key =
    rs.rowsAfter start.key
  parked : p.state.inFlight.getD p.state.cursor.key = p.state.cursor.key
  short : p.state.cursor.exhausted = true ↔ start.exhausted = true ∨ CameShort config p.batches
  drained : CameShort config p.batches → rs.rowsAfter p.state.cursor.key = []
  gaveUp : p.state.finished = true →
    p.state.buffered = [] ∧ p.state.stats.completed = true ∧ p.state.cursor.exhausted = false
  running : p.ended = false → p.state.stats.exhausted = false ∧ p.state.stats.cancelled = false
  ended : p.ended = true → p.state.buffered = [] ∧ p.state.stats.completed = true ∧
    (p.state.stats.exhausted = true ↔
      p.state.cursor.exhausted = true ∧ p.state.stats.cancelled = false)

theorem sound_start (start : QueryCursor κ) :
    Sound rs config start ⟨.start start, [], [], false⟩ where
  rows := rfl
  parked := rfl
  short := by simp [State.start, CameShort]
  drained := by simp [CameShort]
  gaveUp h := by cases h
  running _ := ⟨rfl, rfl⟩
  ended h := by cases h

/-- The environment only sets the flag of the caller. -/
theorem Sound.cancel {start : QueryCursor κ} {p : Play T κ} (h : Sound rs config start p) (b : Bool) :
    Sound rs config start { p with state := { p.state with cancel := b } } :=
  ⟨h.rows, h.parked, h.short, h.drained, h.gaveUp, h.running, h.ended⟩

variable {rs config}

/-- The stream ends when nothing is buffered. -/
theorem Sound.stop {start : QueryCursor κ} {p : Play T κ} (h : Sound rs config start p)
    (hbuf : p.state.buffered = []) (stats : QueryStreamStats) (hdone : stats.completed = true)
    (hflag : stats.exhausted = true ↔
      p.state.cursor.exhausted = true ∧ stats.cancelled = false) :
    Sound rs config start { p with state := { p.state with stats }, ended := true } where
  rows := h.rows
  parked := h.parked
  short := h.short
  drained := h.drained
  gaveUp hfin := ⟨hbuf, hdone, (h.gaveUp hfin).2.2⟩
  running hrun := by cases hrun
  ended _ := ⟨hbuf, hdone, hflag⟩

/-- A batch comes: its rows go from behind the cursor into the buffer. -/
theorem Sound.batch (hbatch : 1 ≤ config.batchSize) {start : QueryCursor κ} {p : Play T κ}
    (h : Sound rs config start p) (hrun : p.ended = false) (hfin : p.state.finished = false)
    (hbuf : p.state.buffered = []) (hex : p.state.cursor.exhausted = false) :
    Sound rs config start { p with
      state := received rs config (rs.fetch p.state.cursor.key config.batchSize)
        { p.state with inFlight := none }
      batches := p.batches ++ [(rs.fetch p.state.cursor.key config.batchSize).length] } := by
  have hnot : ¬(start.exhausted = true ∨ CameShort config p.batches) := by
    rw [← h.short, hex]
    exact Bool.false_ne_true
  refine ⟨?_, rfl, ?_, fun hc => ?_, fun hgone => ?_, fun _ => h.running hrun, fun hend => ?_⟩
  · have hrows := h.rows
    rw [hbuf, List.append_nil] at hrows
    dsimp only [received, QueryCursor.advance]
    rw [rs.rowsAfter_fetch _ hbatch, List.append_assoc, ResultSet.fetch, List.take_append_drop]
    exact hrows
  · dsimp only [received, QueryCursor.advance]
    rw [hex, Bool.false_or, decide_eq_true_eq, cameShort_concat, ← or_assoc, or_iff_right hnot]
  · have hlen := ((cameShort_concat config _ _).1 hc).resolve_left fun hshort => hnot (.inr hshort)
    exact rs.rowsAfter_short _ hbatch hlen
  · exact absurd (hfin.symm.trans hgone) Bool.false_ne_true
  · exact absurd (hrun.symm.trans hend) Bool.false_ne_true

theorem sound_step (hbatch : 1 ≤ config.batchSize) {start : QueryCursor κ} {p : Play T κ}
    (h : Sound rs config start p) (env : Env) : Sound rs config start (p.step rs config env) := by
  rw [Play.step]
  split
  · exact h
  next hrun =>
  rw [Bool.not_eq_true] at hrun
  -- the cancel flag may be set at any time before the turn
  have h := h.cancel rs config (p.state.cancel || env.cancel)
  generalize { p.state with cancel := p.state.cancel || env.cancel } = s at h ⊢
  have hrunning : s.stats.exhausted = false ∧ s.stats.cancelled = false := h.running hrun
  have hturn := turned rs config env.await s
  generalize turn rs config env.await s = r at hturn ⊢
  obtain ⟨t, s'⟩ := r
  dsimp only at hturn ⊢
  cases hturn with
  | finished hfin =>  -- after an error the stream is finished
    obtain ⟨hbuf, hdone, hex⟩ := h.gaveUp hfin
    have hopen : s.cursor.exhausted = false := hex
    exact h.stop hbuf s.stats hdone (by simp [hrunning, hopen])
  | cancelled hbuf _ => exact h.stop hbuf _ rfl (by simp [hrunning])
  | exhausted hbuf hex => exact h.stop hbuf _ rfl (by simp [hrunning, hex])
  | full hbuf hex => exact h.stop hbuf _ rfl (by simp [hrunning, hex])
  | @row row rest hfin hbuf =>
    refine ⟨?_, h.parked, h.short, h.drained, fun hgone => ?_, fun _ => hrunning, fun hend => ?_⟩
    · -- the row leaves the buffer for the items
      dsimp only
      rw [rowsOf_concat_row, List.append_assoc (rowsOf p.items), List.singleton_append, ← hbuf]
      exact h.rows
    · exact absurd (hfin.symm.trans hgone) Bool.false_ne_true
    · exact absurd (hrun.symm.trans hend) Bool.false_ne_true
  | timeout hfin hbuf hex =>  -- a keep-alive is no row
    refine ⟨?_, h.parked, h.short, h.drained, h.gaveUp, fun _ => hrunning, fun hend => ?_⟩
    · dsimp only
      rw [rowsOf_concat_keepAlive]
      exact h.rows
    · exact absurd (hrun.symm.trans hend) Bool.false_ne_true
  | error e hbuf hex =>  -- the error is an item, too, and closes the stream
    refine ⟨?_, rfl, h.short, h.drained, fun hgone => ⟨hbuf, ?_, hex⟩, fun _ => hrunning,
      fun hend => ?_⟩
    · dsimp only
      rw [rowsOf_concat_error]
      exact h.rows
    · dsimp only [failed] at hgone ⊢
      rw [hgone, Bool.or_true]
    · exact absurd (hrun.symm.trans hend) Bool.false_ne_true
  | rows hfin hbuf hex =>  -- the query in flight is that of the cursor's key
    have hkey : s.inFlight.getD s.cursor.key = s.cursor.key := h.parked
    rw [hkey]
    exact h.batch hbatch hrun hfin hbuf hex

theorem sound_play (hbatch : 1 ≤ config.batchSize) (start : QueryCursor κ) (envs : ℕ → Env) (n : ℕ) :
    Sound rs config start (play rs config start envs n) := by
  induction n with
  | zero => exact sound_start rs config start
  | succ n ih => exact sound_step hbatch ih (envs n)

theorem Sound.isPrefix {start : QueryCursor κ} {p : Play T κ} (h : Sound rs config start p) :
    rowsOf p.items <+: rs.rowsAfter start.key := by
  rw [← h.rows, List.append_assoc]
  exact List.prefix_append _ _

/-! ### Why it ends -/

/-- A keep-alive or an error. -/
def Barren : Except String (StreamItem T) → Prop
  | .ok (.Row _) => False
  | _ => True

variable (rs) in
/-- What is still to be done: rows to fetch and hand out, rows to hand out, and the last batch. -/
def left (p : Play T κ) : ℕ :=
  2 * (rs.rowsAfter p.state.cursor.key).length + p.state.buffered.length +
    if p.state.cursor.exhausted then 0 else 1

/-- A turn that does not end the stream does something of it, or yields a keep-alive or an error. -/
theorem left_step (hbatch : 1 ≤ config.batchSize) {start : QueryCursor κ} {p : Play T κ}
    (h : Sound rs config start p) (env : Env) (hrun : (p.step rs config env).ended = false) :
    left rs (p.step rs config env) < left rs p ∨
      left rs (p.step rs config env) = left rs p ∧
        ∃ item, Barren item ∧ (p.step rs config env).items = p.items ++ [item] := by
  rw [Play.step] at hrun ⊢
  split at hrun
  · next hend => exact absurd (hend.symm.trans hrun) Bool.noConfusion
  next hend =>
  rw [if_neg hend]
  have hparked := h.parked
  have hleft : left rs p =
    left rs { p with state := { p.state with cancel := p.state.cancel || env.cancel } } := rfl
  rw [hleft]
  generalize hs : { p.state with cancel := p.state.cancel || env.cancel } = s at hrun ⊢
  have hkey : s.inFlight.getD s.cursor.key = s.cursor.key := by rw [← hs]; exact hparked
  have hturn := turned rs config env.await s
  generalize turn rs config env.await s = r at hturn hrun ⊢
  obtain ⟨t, s'⟩ := r
  dsimp only at hturn hrun ⊢
  cases hturn with
  | finished _ => cases hrun
  | cancelled _ _ => cases hrun
  | exhausted _ _ => cases hrun
  | full _ _ => cases hrun
  | @row row rest _ hbuf =>
    refine .inl ?_
    simp only [left, hbuf, List.length_cons]
    omega
  | timeout _ _ _ => exact .inr ⟨rfl, .ok .KeepAlive, trivial, rfl⟩
  | error e _ _ => exact .inr ⟨rfl, .error e, trivial, rfl⟩
  | rows _ hbuf hex =>
    refine .inl ?_
    rw [hkey]
    simp only [left, received, QueryCursor.advance, hbuf, hex]
    rw [rs.rowsAfter_fetch _ hbatch, ResultSet.fetch, List.length_take, List.length_drop]
    -- a full batch is taken off the rows to fetch; a short one is the last
    rw [if_neg Bool.false_ne_true, List.length_nil, Bool.false_or]
    split
    · omega
    · next hfull =>
      rw [decide_eq_true_eq] at hfull
      omega

theorem left_play (hbatch : 1 ≤ config.batchSize) (start : QueryCursor κ) (envs : ℕ → Env)
    (hrun : ∀ n, (play rs config start envs n).ended = false) (n : ℕ) :
    left rs (play rs config start envs (n + 1)) < left rs (play rs config start envs n) ∨
      left rs (play rs config start envs (n + 1)) = left rs (play rs config start envs n) ∧
        ∃ item, Barren item ∧ (play rs config start envs (n + 1)).items =
          (play rs config start envs n).items ++ [item] :=
  left_step hbatch (sound_play hbatch start envs n) (envs n) (hrun (n + 1))

/-- A stream that never ends yields, from some point on, keep-alives and errors only, one a turn. -/
theorem barren_of_endless (hbatch : 1 ≤ config.batchSize) (start : QueryCursor κ)
    (envs : ℕ → Env) (hrun : ∀ n, (play rs config start envs n).ended = false) :
    ∃ N, ∀ n ≥ N, ∃ item, Barren item ∧ (play rs config start envs (n + 1)).items =
      (play rs config start envs n).items ++ [item] := by
  have hstep := left_play hbatch start envs hrun
  have hanti : Antitone fun n => left rs (play rs config start envs n) :=
    antitone_nat_of_succ_le fun n => (hstep n).elim le_of_lt fun h => h.1.le
  obtain ⟨N, hN⟩ :=
    WellFoundedGT.monotone_chain_condition (⟨_, hanti.dual_right⟩ : ℕ →o ℕᵒᵈ)
  refine ⟨N, fun n hn => ?_⟩
  have hsame : left rs (play rs config start envs (n + 1)) = left rs (play rs config start envs n) :=
    (hN (n + 1) (by omega)).symm.trans (hN n hn)
  exact ((hstep n).resolve_left hsame.not_lt).2

/-! ### What its flags say -/

variable (rs config) in
/-- A stream that has ended: `exhausted` says that a batch came back short (or that the starting
    cursor was marked so, `honest` if no rows lie after it) and nobody cancelled, and then all rows
    were yielded; `is_partial` says anything else. -/
structure ToldRight (start : QueryCursor κ) (p : Play T κ) : Prop where
  completed : p.state.stats.completed = true
  exhausted_iff : p.state.stats.exhausted = true ↔
    (start.exhausted = true ∨ CameShort config p.batches) ∧ p.state.stats.cancelled = false
  all (honest : start.exhausted = true → rs.rowsAfter start.key = []) :
    p.state.stats.exhausted = true → rowsOf p.items = rs.rowsAfter start.key
  isPartial_iff : p.state.stats.isPartial = true ↔ p.state.stats.exhausted = false
  missing (honest : start.exhausted = true → rs.rowsAfter start.key = []) :
    rowsOf p.items ≠ rs.rowsAfter start.key → p.state.stats.isPartial = true

theorem Sound.toldRight {start : QueryCursor κ} {p : Play T κ} (h : Sound rs config start p)
    (hend : p.ended = true) : ToldRight rs config start p := by
  obtain ⟨hbuf, hdone, hex⟩ := h.ended hend
  have hmissing : p.state.stats.isPartial = true ↔ p.state.stats.exhausted = false := by
    rw [QueryStreamStats.isPartial, hdone, Bool.true_and, Bool.not_eq_true']
  have hall (honest : start.exhausted = true → rs.rowsAfter start.key = [])
      (hexhausted : p.state.stats.exhausted = true) :
      rowsOf p.items = rs.rowsAfter start.key := by
    rcases h.short.1 (hex.1 hexhausted).1 with hstart | hshort
    · have hbegins := h.isPrefix
      rw [honest hstart, List.prefix_nil] at hbegins
      rw [hbegins, honest hstart]
    · have hrows := h.rows
      rwa [hbuf, h.drained hshort, List.append_nil, List.append_nil] at hrows
  refine ⟨hdone, ?_, hall, hmissing, fun honest hne => ?_⟩
  · rw [hex, h.short]
  · rw [hmissing, ← Bool.not_eq_true]
    exact fun hexhausted => hne (hall honest hexhausted)

/-- A streamed query yields the rows after its starting cursor, in order, each once and none left out
    in between; it ends unless its fetches fail or stall for ever; and its flags tell why it ended. -/
theorem stream_delivers (hbatch : 1 ≤ config.batchSize) (start : QueryCursor κ) (envs : ℕ → Env) :
    (∀ n, rowsOf (play rs config start envs n).items <+: rs.rowsAfter start.key ∧
      (rowsOf (play rs config start envs n).items).Pairwise
        fun a b => rs.cursorKey a < rs.cursorKey b) ∧
    ((∀ n, (play rs config start envs n).ended = false) →
      ∃ N, ∀ n ≥ N, ∃ item, Barren item ∧ (play rs config start envs (n + 1)).items =
        (play rs config start envs n).items ++ [item]) ∧
    ∀ n, (play rs config start envs n).ended = true →
      ToldRight rs config start (play rs config start envs n) := by
  refine ⟨fun n => ?_, barren_of_endless hbatch start envs,
    fun n hend => (sound_play hbatch start envs n).toldRight hend⟩
  have hbegins : rowsOf (play rs config start envs n).items <+: rs.rowsAfter start.key :=
    (sound_play hbatch start envs n).isPrefix
  exact ⟨hbegins, (rs.sorted_rowsAfter start.key).sublist hbegins.sublist⟩

/-! ### A multiple of the batch size -/

def twoRows : ResultSet ℕ ℕ := ⟨[0, 1], id, by decide⟩

def oneBatchOfTwo : StreamingQueryConfig := ⟨2, some 1, .FailFast, 3⟩

def prompt : ℕ → Env := fun _ => ⟨false, .rows⟩

theorem stream_delivers_twoRows :
    (∀ n, rowsOf (play twoRows oneBatchOfTwo .new prompt n).items <+: twoRows.rowsAfter none ∧
      (rowsOf (play twoRows oneBatchOfTwo .new prompt n).items).Pairwise
        fun a b => twoRows.cursorKey a < twoRows.cursorKey b) ∧
    ((∀ n, (play twoRows oneBatchOfTwo .new prompt n).ended = false) →
      ∃ N, ∀ n ≥ N, ∃ item, Barren item ∧ (play twoRows oneBatchOfTwo .new prompt (n + 1)).items =
        (play twoRows oneBatchOfTwo .new prompt n).items ++ [item]) ∧
    ∀ n, (play twoRows oneBatchOfTwo .new prompt n).ended = true →
      ToldRight twoRows oneBatchOfTwo .new (play twoRows oneBatchOfTwo .new prompt n) :=
  stream_delivers (by decide) .new prompt

/-- One batch of two rows is all that is asked for, and all that there is. -/
theorem all_rows_not_exhausted :
    (play twoRows oneBatchOfTwo .new prompt 4).ended = true ∧
      rowsOf (play twoRows oneBatchOfTwo .new prompt 4).items = twoRows.rowsAfter none ∧
      (play twoRows oneBatchOfTwo .new prompt 4).state.stats.exhausted = false ∧
      (play twoRows oneBatchOfTwo .new prompt 4).state.stats.isPartial = true := by
  decide

end SorobanPulse.Streaming
