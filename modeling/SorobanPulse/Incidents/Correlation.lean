import Mathlib
import SorobanPulse.Lib.Run

/-! The incident correlation engine: signals within a window of each other become one incident.

        ingest ──▶ pending groups ──flush──▶ draining ──persist──▶ incidents
                                                         ├─error──▶ lost
                                                         └─no database──▶ counted only

    A signal joins the first pending group whose latest signal is within the window of it. A flush
    takes groups out under the lock and persists them after it, one INSERT each, so that other calls
    and other flushes run in between. Times are whole seconds. -/

namespace SorobanPulse.Incidents
open Lib

inductive SignalKind where
  | anomaly
  | rpcError
  | indexerLag
  deriving DecidableEq, Repr

def SignalKind.asStr : SignalKind → String
  | .anomaly => "anomaly"
  | .rpcError => "rpc_error"
  | .indexerLag => "indexer_lag"

inductive Severity where
  | low
  | medium
  | high
  | critical
  deriving DecidableEq, Repr

def Severity.asStr : Severity → String
  | .low => "low"
  | .medium => "medium"
  | .high => "high"
  | .critical => "critical"

structure Signal where
  kind : SignalKind
  summary : String
  detail : Option String
  observedAt : ℕ
  deriving DecidableEq, Repr

/-- A group of signals that has not been persisted. -/
structure PendingIncident where
  signals : List Signal
  firstSeen : ℕ
  lastSeen : ℕ
  deriving DecidableEq, Repr

def PendingIncident.new (signal : Signal) : PendingIncident where
  signals := [signal]
  firstSeen := signal.observedAt
  lastSeen := signal.observedAt

def PendingIncident.add (group : PendingIncident) (signal : Signal) : PendingIncident where
  signals := group.signals ++ [signal]
  firstSeen := min group.firstSeen signal.observedAt
  lastSeen := max group.lastSeen signal.observedAt

/-- `u64::abs_diff`. -/
def absDiff (a b : ℕ) : ℕ := max a b - min a b

def PendingIncident.withinWindow (group : PendingIncident) (ts windowSecs : ℕ) : Bool :=
  decide (absDiff ts group.lastSeen ≤ windowSecs)

/-- How many of the three kinds occur. -/
def PendingIncident.distinct (group : PendingIncident) : ℕ :=
  ([SignalKind.anomaly, .rpcError, .indexerLag].filter fun kind =>
    group.signals.any (·.kind == kind)).length

/-- The severity that goes with a number of kinds. -/
def severityOf : ℕ → Severity
  | 0 => .low
  | 1 => .medium
  | 2 => .high
  | _ => .critical

def PendingIncident.severity (group : PendingIncident) : Severity := severityOf group.distinct

def PendingIncident.summary (group : PendingIncident) : String :=
  let kinds := ((group.signals.map (·.kind.asStr)).mergeSort (· ≤ ·)).destutter (· ≠ ·)
  let list := ", ".intercalate kinds
  s!"Correlated incident ({group.signals.length} signals: {list})"

/-- A row of `incidents`. -/
structure IncidentRow where
  id : ℤ
  severity : String
  status : String
  summary : String
  startedAt : ℕ
  lastSeenAt : ℕ
  signalCount : ℕ
  timeline : List Signal
  deriving DecidableEq, Repr

structure CorrelationMetrics where
  incidentsCreated : ℕ
  incidentsResolved : ℕ
  openIncidents : ℕ
  correlationDurationSecs : List ℕ
  detectorErrors : ℕ
  deriving DecidableEq, Repr

def CorrelationMetrics.recordCreated (metrics : CorrelationMetrics) (durationSecs : ℕ) :
    CorrelationMetrics :=
  { metrics with
    incidentsCreated := metrics.incidentsCreated + 1
    openIncidents := metrics.openIncidents + 1
    correlationDurationSecs := metrics.correlationDurationSecs ++ [durationSecs] }

def CorrelationMetrics.recordResolved (metrics : CorrelationMetrics) : CorrelationMetrics :=
  { metrics with
    incidentsResolved := metrics.incidentsResolved + 1
    openIncidents := metrics.openIncidents - 1 }

def CorrelationMetrics.recordError (metrics : CorrelationMetrics) : CorrelationMetrics :=
  { metrics with detectorErrors := metrics.detectorErrors + 1 }

/-- The engine and its table, with a record of the signals ingested, of the groups taken out of
    memory in their order, of those whose INSERT failed, of those that no database took, and of the
    errors that detectors have reported. -/
structure Engine where
  windowSecs : ℕ
  /-- Is there a database? -/
  hasPool : Bool
  pending : List PendingIncident
  draining : List PendingIncident
  incidents : List IncidentRow
  metrics : CorrelationMetrics
  ingested : List Signal
  drained : List PendingIncident
  lost : List PendingIncident
  unstored : List PendingIncident
  reported : ℕ

def Engine.new (windowSecs : ℕ) (hasPool : Bool) : Engine where
  windowSecs := windowSecs
  hasPool := hasPool
  pending := []
  draining := []
  incidents := []
  metrics := ⟨0, 0, 0, [], 0⟩
  ingested := []
  drained := []
  lost := []
  unstored := []
  reported := 0

/-- Into the first group within the window, or else into a group of its own. -/
def correlate (windowSecs : ℕ) (signal : Signal) : List PendingIncident → List PendingIncident
  | [] => [.new signal]
  | group :: groups =>
    if group.withinWindow signal.observedAt windowSecs then group.add signal :: groups
    else group :: correlate windowSecs signal groups

/-- `correlate_batch`. -/
def correlateBatch (windowSecs : ℕ) (signals : List Signal) : ℕ :=
  (signals.foldl (fun groups signal => correlate windowSecs signal groups) []).length

inductive EngineAction where
  | ingest (signal : Signal)
  | flushExpired (now : ℕ)
  | flushAll
  /-- The INSERT of the `n`-th of the groups taken out, which may be of several flushes: its id, or
      an error. -/
  | persist (n : ℕ) (id : Option ℤ)
  | resolve (id : ℤ) (updated : Bool)
  | recordDetectorError

/-- Has the group's window elapsed? -/
def PendingIncident.expired (group : PendingIncident) (now windowSecs : ℕ) : Bool :=
  decide (windowSecs ≤ now - group.lastSeen)

def Engine.take (engine : Engine) (ready remaining : List PendingIncident) : Engine :=
  { engine with
    pending := remaining
    draining := engine.draining ++ ready
    drained := engine.drained ++ ready }

def PendingIncident.row (group : PendingIncident) (id : ℤ) : IncidentRow where
  id := id
  severity := group.severity.asStr
  status := "open"
  summary := group.summary
  startedAt := group.firstSeen
  lastSeenAt := group.lastSeen
  signalCount := group.signals.length
  timeline := group.signals

/-- Without a database nothing fails and nothing is kept, and the incident counts as created. -/
def Engine.persist (engine : Engine) (group : PendingIncident) (rest : List PendingIncident)
    (id : Option ℤ) : Engine :=
  let durationSecs := group.lastSeen - group.firstSeen
  if engine.hasPool then
    match id with
    | some id =>
      { engine with
        draining := rest
        incidents := engine.incidents ++ [group.row id]
        metrics := engine.metrics.recordCreated durationSecs }
    | none =>
      { engine with
        draining := rest
        lost := engine.lost ++ [group]
        metrics := engine.metrics.recordError }
  else
    { engine with
      draining := rest
      unstored := engine.unstored ++ [group]
      metrics := engine.metrics.recordCreated durationSecs }

/-- `UPDATE incidents SET status = 'resolved'`; an unknown id is no error. -/
def resolveRow (id : ℤ) (row : IncidentRow) : IncidentRow :=
  if row.id = id then { row with status := "resolved" } else row

def Engine.step (engine : Engine) : EngineAction → Option Engine
  | .ingest signal =>
    some { engine with
      pending := correlate engine.windowSecs signal engine.pending
      ingested := engine.ingested ++ [signal] }
  | .flushExpired now =>
    some (engine.take (engine.pending.filter (·.expired now engine.windowSecs))
      (engine.pending.filter (!·.expired now engine.windowSecs)))
  | .flushAll => some (engine.take engine.pending [])
  | .persist n id =>
    match engine.draining[n]? with
    | some group => some (engine.persist group (engine.draining.eraseIdx n) id)
    | none => none
  | .resolve id updated =>
    if updated || !engine.hasPool then
      some { engine with
        incidents := engine.incidents.map (resolveRow id)
        metrics := engine.metrics.recordResolved }
    else some engine
  | .recordDetectorError =>
    some { engine with
      metrics := engine.metrics.recordError
      reported := engine.reported + 1 }

/-! ### Every signal is accounted for -/

/-- The groups that are not incidents of the table. -/
def Engine.groups (engine : Engine) : List PendingIncident :=
  engine.pending ++ engine.draining ++ engine.lost ++ engine.unstored

/-- Every signal of the groups and of the table. -/
def Engine.held (engine : Engine) : List Signal :=
  engine.groups.flatMap (·.signals) ++ engine.incidents.flatMap (·.timeline)

/-- The bounds of a group are the times of its first and its last signal. -/
structure PendingIncident.WellFormed (group : PendingIncident) : Prop where
  within : ∀ signal ∈ group.signals,
    group.firstSeen ≤ signal.observedAt ∧ signal.observedAt ≤ group.lastSeen
  first : ∃ signal ∈ group.signals, signal.observedAt = group.firstSeen
  last : ∃ signal ∈ group.signals, signal.observedAt = group.lastSeen

/-- An incident says of its timeline what is true of it. -/
structure IncidentRow.Truthful (row : IncidentRow) : Prop where
  within : ∀ signal ∈ row.timeline,
    row.startedAt ≤ signal.observedAt ∧ signal.observedAt ≤ row.lastSeenAt
  first : ∃ signal ∈ row.timeline, signal.observedAt = row.startedAt
  last : ∃ signal ∈ row.timeline, signal.observedAt = row.lastSeenAt
  count : row.signalCount = row.timeline.length
  severity : row.severity = (severityOf (row.timeline.map (·.kind)).toFinset.card).asStr

/-- The invariant of every run. -/
structure Accounted (engine : Engine) : Prop where
  signals : engine.held.Perm engine.ingested
  groups : ∀ group ∈ engine.groups, group.WellFormed
  incidents : ∀ row ∈ engine.incidents, row.Truthful
  created : engine.metrics.incidentsCreated = engine.incidents.length + engine.unstored.length
  errors : engine.metrics.detectorErrors = engine.lost.length + engine.reported
  kept : engine.hasPool = true → engine.unstored = []

section
variable {engine next : Engine} {group : PendingIncident} {groups : List PendingIncident}
  {signal : Signal} {windowSecs : ℕ}

theorem wellFormed_new (signal : Signal) : (PendingIncident.new signal).WellFormed :=
  ⟨by simp [PendingIncident.new], by simp [PendingIncident.new], by simp [PendingIncident.new]⟩

theorem PendingIncident.WellFormed.add (h : group.WellFormed) (signal : Signal) :
    (group.add signal).WellFormed := by
  obtain ⟨hwithin, ⟨first, hfirst, hfirst'⟩, last, hlast, hlast'⟩ := h
  refine ⟨?_, ?_, ?_⟩
  · intro other hother
    rcases List.mem_append.mp hother with hold | hnew
    · have hbounds := hwithin other hold
      simp only [PendingIncident.add]
      omega
    · rw [List.mem_singleton.mp hnew]
      simp [PendingIncident.add]
  · rcases le_total group.firstSeen signal.observedAt with hle | hle
    · exact ⟨first, by simp [PendingIncident.add, hfirst],
        by simp [PendingIncident.add, hfirst', hle]⟩
    · exact ⟨signal, by simp [PendingIncident.add], by simp [PendingIncident.add, hle]⟩
  · rcases le_total group.lastSeen signal.observedAt with hle | hle
    · exact ⟨signal, by simp [PendingIncident.add], by simp [PendingIncident.add, hle]⟩
    · exact ⟨last, by simp [PendingIncident.add, hlast], by simp [PendingIncident.add, hlast', hle]⟩

theorem wellFormed_correlate (h : ∀ group ∈ groups, group.WellFormed) :
    ∀ group ∈ correlate windowSecs signal groups, group.WellFormed := by
  induction groups with
  | nil => simpa [correlate] using wellFormed_new signal
  | cons first rest ih =>
    have hfirst := h first List.mem_cons_self
    have hrest : ∀ group ∈ rest, group.WellFormed := fun group hgroup =>
      h group (List.mem_cons_of_mem _ hgroup)
    unfold correlate
    split
    · exact List.forall_mem_cons.mpr ⟨hfirst.add signal, hrest⟩
    · exact List.forall_mem_cons.mpr ⟨hfirst, ih hrest⟩

/-- The signal is added once, and nothing else moves. -/
theorem signals_correlate (windowSecs : ℕ) (signal : Signal) (groups : List PendingIncident) :
    ((correlate windowSecs signal groups).flatMap (·.signals)).Perm
      (groups.flatMap (·.signals) ++ [signal]) := by
  induction groups with
  | nil => simp [correlate, PendingIncident.new]
  | cons first rest ih =>
    unfold correlate
    split
    · simp only [List.flatMap_cons, PendingIncident.add, List.append_assoc]
      exact (List.perm_append_comm).append_left _
    · simp only [List.flatMap_cons, List.append_assoc]
      exact ih.append_left _

theorem distinct_eq_card (group : PendingIncident) :
    group.distinct = (group.signals.map (·.kind)).toFinset.card := by
  rw [PendingIncident.distinct, ← List.toFinset_card_of_nodup]
  · congr 1
    ext kind
    have hkind : kind ∈ [SignalKind.anomaly, .rpcError, .indexerLag] := by cases kind <;> decide
    simp only [List.mem_toFinset, List.mem_filter, hkind, true_and, List.any_eq_true,
      beq_iff_eq, List.mem_map]
  · exact List.Nodup.filter _ (by decide)

theorem truthful_row (h : group.WellFormed) (id : ℤ) : (group.row id).Truthful :=
  ⟨h.within, h.first, h.last, rfl, congrArg (fun n => (severityOf n).asStr)
    (distinct_eq_card group)⟩

theorem accounted_ingest (h : Accounted engine) (signal : Signal) :
    Accounted { engine with
      pending := correlate engine.windowSecs signal engine.pending
      ingested := engine.ingested ++ [signal] } := by
  refine ⟨?_, ?_, h.incidents, h.created, h.errors, h.kept⟩
  · have hsignals := h.signals
    rw [List.perm_iff_count] at hsignals ⊢
    intro other
    have hcount := hsignals other
    have hcorrelate :=
      (signals_correlate engine.windowSecs signal engine.pending).count_eq other
    simp only [Engine.held, Engine.groups, List.flatMap_append, List.count_append]
      at hcount hcorrelate ⊢
    omega
  · intro group hgroup
    have hgroups := h.groups
    simp only [Engine.groups, List.append_assoc] at hgroup hgroups
    rcases List.mem_append.mp hgroup with hpending | hrest
    · exact wellFormed_correlate (fun g hg => hgroups g (List.mem_append_left _ hg)) group hpending
    · exact hgroups group (List.mem_append_right _ hrest)

theorem accounted_take (h : Accounted engine) {ready remaining : List PendingIncident}
    (hsplit : (ready ++ remaining).Perm engine.pending) :
    Accounted (engine.take ready remaining) := by
  refine ⟨?_, ?_, h.incidents, h.created, h.errors, h.kept⟩
  · have hsignals := h.signals
    rw [List.perm_iff_count] at hsignals ⊢
    intro other
    have hcount := hsignals other
    have hparts := (hsplit.flatMap_right (·.signals)).count_eq other
    simp only [Engine.held, Engine.groups, Engine.take, List.flatMap_append, List.count_append]
      at hcount hparts ⊢
    omega
  · intro group hgroup
    have hmem := hsplit.mem_iff (a := group)
    refine h.groups group ?_
    simp only [Engine.groups, Engine.take, List.mem_append] at hgroup hmem ⊢
    tauto

/-- A group that leaves for another place of the groups. -/
theorem accounted_move (h : Accounted engine) {rest : List PendingIncident}
    (hdraining : (group :: rest).Perm engine.draining) :
    group.WellFormed ∧ ∀ other, other ∈ engine.pending ++ rest ++ engine.lost ++ engine.unstored ∨
      other = group → other.WellFormed := by
  have hall : ∀ other, other ∈ engine.pending ++ rest ++ engine.lost ++ engine.unstored ∨
      other = group → other ∈ engine.groups := by
    intro other hother
    have hmem := hdraining.mem_iff (a := other)
    simp only [Engine.groups, List.mem_append, List.mem_cons] at hother hmem ⊢
    tauto
  exact ⟨h.groups group (hall group (.inr rfl)), fun other hother =>
    h.groups other (hall other hother)⟩

theorem accounted_persist (h : Accounted engine) {rest : List PendingIncident}
    (hdraining : (group :: rest).Perm engine.draining) (id : Option ℤ) :
    Accounted (engine.persist group rest id) := by
  obtain ⟨hgroup, hkept⟩ := accounted_move h hdraining
  have hsignals := h.signals
  rw [List.perm_iff_count] at hsignals
  -- the permutations are counted signal by signal, so that omega can join them
  have hcounts : ∀ signal, group.signals.count signal + (rest.flatMap (·.signals)).count signal =
      (engine.draining.flatMap (·.signals)).count signal := by
    intro signal
    rw [← (hdraining.flatMap_right (·.signals)).count_eq signal, List.flatMap_cons,
      List.count_append]
  unfold Engine.persist
  dsimp only
  split
  · cases id with
    | some id =>  -- the row takes the group's signals with it
      refine ⟨?_, fun other hother => hkept other (.inl hother), ?_, ?_, h.errors, h.kept⟩
      · rw [List.perm_iff_count]
        intro other
        have hcount := hsignals other
        have hpart := hcounts other
        simp only [Engine.held, Engine.groups, PendingIncident.row, List.flatMap_append,
          List.flatMap_cons, List.flatMap_nil, List.append_nil, List.count_append] at hcount ⊢
        omega
      · intro row hrow
        rcases List.mem_append.mp hrow with hold | hnew
        · exact h.incidents row hold
        · rw [List.mem_singleton.mp hnew]
          exact truthful_row hgroup id
      · simp only [CorrelationMetrics.recordCreated, h.created, List.length_append,
          List.length_singleton]
        omega
    | none =>  -- the INSERT fails: the signals wait with the lost groups
      refine ⟨?_, ?_, h.incidents, h.created, ?_, h.kept⟩
      · rw [List.perm_iff_count]
        intro other
        have hcount := hsignals other
        have hpart := hcounts other
        simp only [Engine.held, Engine.groups, List.flatMap_append, List.flatMap_cons,
          List.flatMap_nil, List.append_nil, List.count_append] at hcount ⊢
        omega
      · intro other hother
        refine hkept other ?_
        simp only [Engine.groups, List.mem_append, List.mem_singleton] at hother ⊢
        tauto
      · simp only [CorrelationMetrics.recordError, h.errors, List.length_append,
          List.length_singleton]
        omega
  · next hpool =>  -- no pool: counted as created, and dropped
    refine ⟨?_, ?_, h.incidents, ?_, h.errors, fun h => absurd h hpool⟩
    · rw [List.perm_iff_count]
      intro other
      have hcount := hsignals other
      have hpart := hcounts other
      simp only [Engine.held, Engine.groups, List.flatMap_append, List.flatMap_cons,
        List.flatMap_nil, List.append_nil, List.count_append] at hcount ⊢
      omega
    · intro other hother
      refine hkept other ?_
      simp only [Engine.groups, List.mem_append, List.mem_singleton] at hother ⊢
      tauto
    · simp only [CorrelationMetrics.recordCreated, h.created, List.length_append,
        List.length_singleton]
      omega

/-- The memory, the record of what left it and the window stay as they are. -/
theorem persist_frame (engine : Engine) (group : PendingIncident) (rest : List PendingIncident)
    (id : Option ℤ) : ∃ draining incidents metrics lost unstored,
      engine.persist group rest id =
        { engine with draining, incidents, metrics, lost, unstored } := by
  unfold Engine.persist
  dsimp only
  split
  · cases id <;> exact ⟨_, _, _, _, _, rfl⟩
  · exact ⟨_, _, _, _, _, rfl⟩

theorem truthful_resolveRow {row : IncidentRow} (h : row.Truthful) (id : ℤ) :
    (resolveRow id row).Truthful := by
  unfold resolveRow
  split
  · exact ⟨h.within, h.first, h.last, h.count, h.severity⟩
  · exact h

theorem accounted_resolve (h : Accounted engine) (id : ℤ) :
    Accounted { engine with
      incidents := engine.incidents.map (resolveRow id)
      metrics := engine.metrics.recordResolved } := by
  have htimeline : ∀ row : IncidentRow, (resolveRow id row).timeline = row.timeline := by
    intro row
    unfold resolveRow
    split <;> rfl
  refine ⟨?_, h.groups, ?_, ?_, h.errors, h.kept⟩
  · have hsignals := h.signals
    simpa [Engine.held, Engine.groups, List.flatMap_map, htimeline] using hsignals
  · intro row hrow
    obtain ⟨old, hold, rfl⟩ := List.mem_map.mp hrow
    exact truthful_resolveRow (h.incidents old hold) id
  · simp [CorrelationMetrics.recordResolved, h.created]

theorem accounted_step {action : EngineAction} (hstep : engine.step action = some next)
    (h : Accounted engine) : Accounted next := by
  unfold Engine.step at hstep
  cases action with
  | ingest signal =>
    cases hstep
    exact accounted_ingest h signal
  | flushExpired now =>
    cases hstep
    exact accounted_take h (List.filter_append_perm _ _)
  | flushAll =>
    cases hstep
    exact accounted_take h (by simp)
  | persist n id =>
    dsimp only at hstep
    split at hstep
    · next group hgroup =>
      cases hstep
      obtain ⟨hn, rfl⟩ := List.getElem?_eq_some_iff.mp hgroup  -- any of the waiting groups
      exact accounted_persist h (List.getElem_cons_eraseIdx_perm hn) id
    · cases hstep
  | resolve id updated =>
    dsimp only at hstep
    split at hstep
    · cases hstep
      exact accounted_resolve h id
    · cases hstep
      exact h
  | recordDetectorError =>
    cases hstep
    refine ⟨h.signals, h.groups, h.incidents, h.created, ?_, h.kept⟩
    simp only [CorrelationMetrics.recordError, h.errors]
    omega

theorem accounted_new (windowSecs : ℕ) (hasPool : Bool) : Accounted (.new windowSecs hasPool) :=
  ⟨by simp [Engine.held, Engine.groups, Engine.new], by simp [Engine.groups, Engine.new],
    by simp [Engine.new], rfl, rfl, fun _ => rfl⟩

/-- In every run each signal is in exactly one place: a group in memory, a group on its way to the
    table, an incident, a group whose INSERT failed, or one that there was no database for. -/
theorem Engine.signals_accounted (windowSecs : ℕ) (hasPool : Bool) (actions : List EngineAction)
    (engine : Engine) (hrun : AnyRun Engine.step (.new windowSecs hasPool) actions engine) :
    Accounted engine :=
  hrun.invariant (fun _ hstep => accounted_step hstep) (accounted_new windowSecs hasPool)

/-- The dry run over a batch makes as many groups as the engine would. -/
theorem length_pending_correlateBatch (windowSecs : ℕ) (hasPool : Bool) (signals : List Signal)
    (hrun : AnyRun Engine.step (.new windowSecs hasPool) (signals.map .ingest) engine) :
    engine.pending.length = correlateBatch windowSecs signals := by
  have hpending : ∀ (signals : List Signal) (start : Engine),
      AnyRun Engine.step start (signals.map .ingest) engine →
        engine.pending = signals.foldl
          (fun groups signal => correlate start.windowSecs signal groups) start.pending := by
    intro signals
    induction signals with
    | nil =>
      rintro start (_ | _)
      rfl
    | cons signal signals ih =>
      rintro start (_ | ⟨-, hs, hrest⟩)
      cases hs
      exact ih _ hrest
  rw [hpending signals _ hrun]
  rfl

end

/-! ### Sessions

    When signals and flushes come in the order of time, the groups in the order in which they leave
    memory are the sessions of the signals: the runs without a gap longer than the window. -/

/-- Are two signals, one after the other, within the window? -/
def near (windowSecs : ℕ) (a b : Signal) : Bool :=
  decide (absDiff b.observedAt a.observedAt ≤ windowSecs)

/-- The engine and the time of the last call that reads a time. -/
structure Clocked where
  engine : Engine
  clock : ℕ

def EngineAction.time (clock : ℕ) : EngineAction → ℕ
  | .ingest signal => signal.observedAt
  | .flushExpired now => now
  | _ => clock

/-- A step whose time is not before the clock. -/
def Clocked.step (s : Clocked) (action : EngineAction) : Option Clocked :=
  if s.clock ≤ action.time s.clock then
    (s.engine.step action).map fun engine => { engine, clock := action.time s.clock }
  else none

/-- The groups are the sessions. -/
def Clocked.Sessions (s : Clocked) : Prop :=
  (s.engine.drained ++ s.engine.pending).map (·.signals) =
    s.engine.ingested.splitBy (near s.engine.windowSecs)

/-- A signal that finds no group in memory is not within the window of the last one taken out. -/
def Separate (s : Clocked) : EngineAction → Prop
  | .ingest signal => s.engine.pending = [] → ∀ group ∈ s.engine.drained.getLast?,
      group.withinWindow signal.observedAt s.engine.windowSecs = false
  | _ => True

/-- Two groups, one after the other, with a gap longer than the window between them. -/
def Apart (windowSecs : ℕ) (a b : PendingIncident) : Prop :=
  windowSecs < absDiff b.firstSeen a.lastSeen

/-- A group of signals in the order of time, without a gap longer than the window. -/
structure Session (windowSecs : ℕ) (group : PendingIncident) : Prop where
  ne_nil : group.signals ≠ []
  chain : group.signals.IsChain fun a b => near windowSecs a b = true
  first : (group.signals.head ne_nil).observedAt = group.firstSeen
  last : (group.signals.getLast ne_nil).observedAt = group.lastSeen
  le : group.firstSeen ≤ group.lastSeen

/-- What holds in every clocked run. -/
structure Ordered (s : Clocked) : Prop where
  signals : (s.engine.drained ++ s.engine.pending).flatMap (·.signals) = s.engine.ingested
  sessions : ∀ group ∈ s.engine.drained ++ s.engine.pending, Session s.engine.windowSecs group
  apart : s.engine.pending.Pairwise fun a b => a.lastSeen + s.engine.windowSecs < b.firstSeen
  past : ∀ group ∈ s.engine.drained ++ s.engine.pending, group.lastSeen ≤ s.clock

section
variable {s t : Clocked} {group : PendingIncident} {groups : List PendingIncident}
  {signal : Signal} {windowSecs clock : ℕ}

theorem session_new (signal : Signal) : Session windowSecs (.new signal) :=
  ⟨by simp [PendingIncident.new], by simp [PendingIncident.new], rfl, rfl, le_rfl⟩

/-- A signal that is not before the last one and within the window of it prolongs the session. -/
theorem Session.add (h : Session windowSecs group) (hafter : group.lastSeen ≤ signal.observedAt)
    (hnear : signal.observedAt ≤ group.lastSeen + windowSecs) :
    Session windowSecs (group.add signal) := by
  obtain ⟨hne, hchain, hfirst, hlast, hle⟩ := h
  have hmax : max group.lastSeen signal.observedAt = signal.observedAt := max_eq_right hafter
  have hmin : min group.firstSeen signal.observedAt = group.firstSeen :=
    min_eq_left (hle.trans hafter)
  refine ⟨by simp [PendingIncident.add], ?_, ?_, ?_, ?_⟩
  · refine List.isChain_append.mpr ⟨hchain, by simp, ?_⟩
    intro a ha b hb
    rw [List.getLast?_eq_getLast_of_ne_nil hne, Option.mem_def, Option.some.injEq] at ha
    simp only [List.head?_cons, Option.mem_def, Option.some.injEq] at hb
    subst ha hb
    refine decide_eq_true ?_
    rw [absDiff, hlast]
    omega
  · simp only [PendingIncident.add, List.head_append_of_ne_nil hne, hmin]
    exact hfirst
  · simp [PendingIncident.add, hmax]
  · simp only [PendingIncident.add, hmax, hmin]
    omega

/-- In order of time a signal meets at most the last group. -/
theorem correlate_eq (hapart : groups.Pairwise fun a b => a.lastSeen + windowSecs < b.firstSeen)
    (hbounds : ∀ group ∈ groups, group.firstSeen ≤ group.lastSeen ∧
      group.lastSeen ≤ signal.observedAt) :
    correlate windowSecs signal groups =
      match groups.getLast? with
      | some last =>
        if signal.observedAt ≤ last.lastSeen + windowSecs then
          groups.dropLast ++ [last.add signal]
        else groups ++ [.new signal]
      | none => [.new signal] := by
  induction groups with
  | nil => rfl
  | cons first rest ih =>
    obtain ⟨hfirst, hrest⟩ := List.pairwise_cons.mp hapart
    have hbound := hbounds first List.mem_cons_self
    have hih := ih hrest fun group hgroup => hbounds group (List.mem_cons_of_mem _ hgroup)
    rw [correlate, PendingIncident.withinWindow, absDiff]
    cases rest with
    | nil =>
      have hiff : max signal.observedAt first.lastSeen - min signal.observedAt first.lastSeen ≤
          windowSecs ↔ signal.observedAt ≤ first.lastSeen + windowSecs := by omega
      simp [hiff, correlate]
    | cons second others =>
      -- the first group is further back than the window
      have hgap := hfirst second List.mem_cons_self
      have hsecond := hbounds second (by simp)
      rw [if_neg (by simp only [decide_eq_true_eq]; omega), hih]
      rw [List.getLast?_cons_cons, List.dropLast_cons_cons]
      split
      · split <;> simp
      · next hnone => simp at hnone

theorem flatMap_correlate
    (hapart : groups.Pairwise fun a b => a.lastSeen + windowSecs < b.firstSeen)
    (hbounds : ∀ group ∈ groups, group.firstSeen ≤ group.lastSeen ∧
      group.lastSeen ≤ signal.observedAt) :
    (correlate windowSecs signal groups).flatMap (·.signals) =
      groups.flatMap (·.signals) ++ [signal] := by
  rw [correlate_eq hapart hbounds]
  cases hlast : groups.getLast? with
  | none =>
    rw [List.getLast?_eq_none_iff.mp hlast]
    rfl
  | some last =>
    obtain ⟨before, rfl⟩ := List.getLast?_eq_some_iff.mp hlast
    dsimp only
    split <;> simp [PendingIncident.add, PendingIncident.new]

theorem Ordered.bounds (h : Ordered s) (hclock : s.clock ≤ clock) :
    ∀ group ∈ s.engine.pending, group.firstSeen ≤ group.lastSeen ∧ group.lastSeen ≤ clock :=
  fun group hgroup => ⟨(h.sessions group (List.mem_append_right _ hgroup)).le,
    (h.past group (List.mem_append_right _ hgroup)).trans hclock⟩

theorem ordered_ingest (h : Ordered s) (hclock : s.clock ≤ signal.observedAt) :
    Ordered ⟨{ s.engine with
      pending := correlate s.engine.windowSecs signal s.engine.pending
      ingested := s.engine.ingested ++ [signal] }, signal.observedAt⟩ := by
  have hbounds := h.bounds hclock
  have heq := correlate_eq h.apart hbounds
  have hdrained : ∀ group ∈ s.engine.drained, Session s.engine.windowSecs group ∧
      group.lastSeen ≤ signal.observedAt := fun group hgroup =>
    ⟨h.sessions group (List.mem_append_left _ hgroup),
      (h.past group (List.mem_append_left _ hgroup)).trans hclock⟩
  -- each group of the new list is a session up to the new clock
  have hpending : (∀ group ∈ correlate s.engine.windowSecs signal s.engine.pending,
      Session s.engine.windowSecs group ∧ group.lastSeen ≤ signal.observedAt) ∧
      (correlate s.engine.windowSecs signal s.engine.pending).Pairwise
        fun a b => a.lastSeen + s.engine.windowSecs < b.firstSeen := by
    have hold : ∀ group ∈ s.engine.pending, Session s.engine.windowSecs group ∧
        group.lastSeen ≤ signal.observedAt := fun group hgroup =>
      ⟨h.sessions group (List.mem_append_right _ hgroup), (hbounds group hgroup).2⟩
    have hapart := h.apart
    rw [heq]
    cases hlast : s.engine.pending.getLast? with
    | none => exact ⟨by simpa using ⟨session_new signal, le_rfl⟩, by simp⟩
    | some last =>
      obtain ⟨before, hpending⟩ := List.getLast?_eq_some_iff.mp hlast
      rw [hpending] at hold hapart ⊢
      rw [List.pairwise_append] at hapart
      obtain ⟨hbefore, _, hgap⟩ := hapart
      obtain ⟨hsession, hle⟩ := hold last (by simp)
      dsimp only
      split
      · next hnear =>
        rw [List.dropLast_concat]
        refine ⟨?_, ?_⟩
        · intro group hgroup
          rcases List.mem_append.mp hgroup with hmem | hmem
          · exact hold group (List.mem_append_left _ hmem)
          · rw [List.mem_singleton.mp hmem]
            exact ⟨hsession.add hle hnear, by simp [PendingIncident.add, hle]⟩
        · refine List.pairwise_append.mpr ⟨hbefore, by simp, ?_⟩
          intro a ha b hb
          rw [List.mem_singleton.mp hb]
          have hab := hgap a ha last (by simp)
          have hfirst := hsession.le
          simp only [PendingIncident.add]
          omega
      · next hfar =>
        refine ⟨?_, ?_⟩
        · intro group hgroup
          rcases List.mem_append.mp hgroup with hmem | hmem
          · exact hold group hmem
          · rw [List.mem_singleton.mp hmem]
            exact ⟨session_new signal, le_rfl⟩
        · refine List.pairwise_append.mpr ⟨?_, by simp, ?_⟩
          · exact List.pairwise_append.mpr ⟨hbefore, by simp, hgap⟩
          · intro a ha b hb
            rw [List.mem_singleton.mp hb]
            simp only [PendingIncident.new]
            rcases List.mem_append.mp ha with ha | ha
            · have hab := hgap a ha last (by simp)
              have hfirst := hsession.le
              omega
            · rw [List.mem_singleton.mp ha]
              omega
  obtain ⟨hsessions, hapart⟩ := hpending
  refine ⟨?_, ?_, hapart, ?_⟩
  · have hsignals := h.signals
    rw [List.flatMap_append] at hsignals ⊢
    rw [flatMap_correlate h.apart hbounds, ← List.append_assoc, hsignals]
  · intro group hgroup
    rcases List.mem_append.mp hgroup with hmem | hmem
    · exact (hdrained group hmem).1
    · exact (hsessions group hmem).1
  · intro group hgroup
    rcases List.mem_append.mp hgroup with hmem | hmem
    · exact (hdrained group hmem).2
    · exact (hsessions group hmem).2

/-- Groups leave memory from the front. -/
theorem filter_expired (hapart : groups.Pairwise fun a b => a.lastSeen + windowSecs < b.firstSeen)
    (hle : ∀ group ∈ groups, group.firstSeen ≤ group.lastSeen) (now : ℕ) :
    groups.filter (·.expired now windowSecs) ++ groups.filter (!·.expired now windowSecs) =
      groups := by
  induction groups with
  | nil => rfl
  | cons first rest ih =>
    obtain ⟨hfirst, hrest⟩ := List.pairwise_cons.mp hapart
    cases hexpired : first.expired now windowSecs with
    | true => simpa [hexpired] using ih hrest fun group hgroup => hle group (by simp [hgroup])
    | false =>
      have hnone : ∀ group ∈ rest, group.expired now windowSecs = false := by
        intro group hgroup
        have hgap := hfirst group hgroup
        have hbound := hle group (by simp [hgroup])
        simp only [PendingIncident.expired, decide_eq_false_iff_not] at hexpired ⊢
        omega
      have hall : rest.filter (fun group => !group.expired now windowSecs) = rest :=
        List.filter_eq_self.mpr (by simpa using hnone)
      have hempty : rest.filter (fun group => group.expired now windowSecs) = [] :=
        List.filter_eq_nil_iff.mpr (by simpa using hnone)
      simp [hexpired, hall, hempty]

theorem ordered_take (h : Ordered s) {ready remaining : List PendingIncident}
    (hsplit : ready ++ remaining = s.engine.pending) (hclock : s.clock ≤ clock) :
    Ordered ⟨s.engine.take ready remaining, clock⟩ := by
  have hall : s.engine.drained ++ ready ++ remaining = s.engine.drained ++ s.engine.pending := by
    rw [List.append_assoc, hsplit]
  refine ⟨?_, ?_, ?_, ?_⟩
  · exact hall ▸ h.signals
  · exact hall ▸ h.sessions
  · have hapart := h.apart
    rw [← hsplit] at hapart
    exact (List.pairwise_append.mp hapart).2.1
  · intro group hgroup
    exact (h.past group (hall ▸ hgroup)).trans hclock

theorem ordered_step {action : EngineAction} (hstep : s.step action = some t) (h : Ordered s) :
    Ordered t := by
  unfold Clocked.step at hstep
  split at hstep
  · next hclock =>
    obtain ⟨engine, hengine, rfl⟩ := Option.map_eq_some_iff.mp hstep
    unfold Engine.step at hengine
    cases action with
    | ingest signal =>
      cases hengine
      exact ordered_ingest h hclock
    | flushExpired now =>
      cases hengine
      refine ordered_take h (filter_expired h.apart ?_ now) hclock
      exact fun group hgroup => (h.bounds hclock group hgroup).1
    | flushAll =>
      cases hengine
      exact ordered_take h (List.append_nil _) hclock
    | persist n id =>
      dsimp only at hengine
      split at hengine
      · next group _ =>
        obtain ⟨_, _, _, _, _, heq⟩ := persist_frame s.engine group (s.engine.draining.eraseIdx n) id
        rw [heq] at hengine
        cases hengine
        -- writing a group, resolving and counting leave the sessions alone
        exact ⟨h.signals, h.sessions, h.apart, h.past⟩
      · cases hengine
    | resolve id updated =>
      dsimp only at hengine
      split at hengine <;> cases hengine <;> exact ⟨h.signals, h.sessions, h.apart, h.past⟩
    | recordDetectorError =>
      cases hengine
      exact ⟨h.signals, h.sessions, h.apart, h.past⟩
  · cases hstep

theorem sessions_iff (h : Ordered s) :
    s.Sessions ↔ (s.engine.drained ++ s.engine.pending).IsChain (Apart s.engine.windowSecs) := by
  have hsignals : s.engine.ingested =
      ((s.engine.drained ++ s.engine.pending).map (·.signals)).flatten := by
    rw [← h.signals, List.flatMap_def]
  have hnil : [] ∉ (s.engine.drained ++ s.engine.pending).map (·.signals) := by
    intro hmem
    obtain ⟨group, hgroup, hempty⟩ := List.mem_map.mp hmem
    exact (h.sessions group hgroup).ne_nil hempty
  -- between the groups, the same gap from signal to signal as from bound to bound
  have hgap : ∀ a ∈ s.engine.drained ++ s.engine.pending,
      ∀ b ∈ s.engine.drained ++ s.engine.pending,
        (∃ (ha : a.signals ≠ []) (hb : b.signals ≠ []),
          near s.engine.windowSecs (a.signals.getLast ha) (b.signals.head hb) = false) ↔
            Apart s.engine.windowSecs a b := by
    intro a ha b hb
    obtain ⟨hane, _, _, halast, _⟩ := h.sessions a ha
    obtain ⟨hbne, _, hbfirst, _, _⟩ := h.sessions b hb
    simp only [near, halast, hbfirst, Apart, decide_eq_false_iff_not, not_le]
    exact ⟨fun ⟨_, _, hlt⟩ => hlt, fun hlt => ⟨hane, hbne, hlt⟩⟩
  have hchain : ((s.engine.drained ++ s.engine.pending).map (·.signals)).IsChain
      (fun a b => ∃ ha hb, near s.engine.windowSecs (a.getLast ha) (b.head hb) = false) ↔
        (s.engine.drained ++ s.engine.pending).IsChain (Apart s.engine.windowSecs) := by
    rw [List.isChain_map]
    constructor
    · intro hc
      exact hc.imp_of_mem_imp fun a b ha hb => (hgap a ha b hb).mp
    · intro hc
      exact hc.imp_of_mem_imp fun a b ha hb => (hgap a ha b hb).mpr
  rw [Clocked.Sessions, hsignals, ← hchain]
  constructor
  · intro heq
    rw [heq]
    exact List.isChain_getLast_head_splitBy _ _
  · intro hc
    refine (List.splitBy_flatten hnil ?_ hc).symm
    intro signals hmem
    obtain ⟨group, hgroup, rfl⟩ := List.mem_map.mp hmem
    exact (h.sessions group hgroup).chain

/-- Ingesting keeps the gaps, and adds one exactly if the signal is separate. -/
theorem isChain_ingest (h : Ordered s) (hclock : s.clock ≤ signal.observedAt) :
    (s.engine.drained ++ correlate s.engine.windowSecs signal s.engine.pending).IsChain
        (Apart s.engine.windowSecs) ↔
      (s.engine.drained ++ s.engine.pending).IsChain (Apart s.engine.windowSecs) ∧
        Separate s (.ingest signal) := by
  have hbounds := h.bounds hclock
  rw [correlate_eq h.apart hbounds]
  cases hlast : s.engine.pending.getLast? with
  | none =>
    have hempty := List.getLast?_eq_none_iff.mp hlast
    simp [hempty, Separate, List.isChain_append, Apart, PendingIncident.new,
      PendingIncident.withinWindow]
  | some last =>
    obtain ⟨before, hpending⟩ := List.getLast?_eq_some_iff.mp hlast
    obtain ⟨hle, hts⟩ := hbounds last (by simp [hpending])
    have hseparate : Separate s (.ingest signal) := by simp [Separate, hpending]
    dsimp only
    rw [hpending]
    split
    · have hfirst : (last.add signal).firstSeen = last.firstSeen :=
        min_eq_left (hle.trans hts)
      rw [List.dropLast_concat, ← List.append_assoc, ← List.append_assoc,
        @List.isChain_append _ _ _ [last.add signal], @List.isChain_append _ _ _ [last]]
      simp [hseparate, Apart, hfirst]
    · next hfar =>
      have hgap : s.engine.windowSecs < absDiff signal.observedAt last.lastSeen := by
        rw [absDiff]
        omega
      rw [← List.append_assoc, List.isChain_append]
      simp [hseparate, Apart, PendingIncident.new, hgap]

theorem sessions_step {action : EngineAction} (hstep : s.step action = some t) (h : Ordered s) :
    t.Sessions ↔ s.Sessions ∧ Separate s action := by
  rw [sessions_iff h, sessions_iff (ordered_step hstep h)]
  unfold Clocked.step at hstep
  split at hstep
  · next hclock =>
    obtain ⟨engine, hengine, rfl⟩ := Option.map_eq_some_iff.mp hstep
    unfold Engine.step at hengine
    cases action with
    | ingest signal =>
      cases hengine
      exact isChain_ingest h hclock  -- only a signal can break the order of the sessions
    | flushExpired now =>
      cases hengine
      -- the expired groups are those in front, so taking them keeps the order
      have hsplit := filter_expired h.apart (fun group hgroup =>
        (h.bounds hclock group hgroup).1) now
      simp only [Engine.take, List.append_assoc, hsplit, Separate, and_true]
    | flushAll =>
      cases hengine
      simp [Engine.take, Separate]
    | persist n id =>
      dsimp only at hengine
      split at hengine
      · next group _ =>
        obtain ⟨_, _, _, _, _, heq⟩ := persist_frame s.engine group (s.engine.draining.eraseIdx n) id
        rw [heq] at hengine
        cases hengine
        simp [Separate]
      · cases hengine
    | resolve id updated =>
      dsimp only at hengine
      split at hengine <;> cases hengine <;> simp [Separate]
    | recordDetectorError =>
      cases hengine
      simp [Separate]
  · cases hstep

theorem ordered_new (windowSecs : ℕ) (hasPool : Bool) : Ordered ⟨.new windowSecs hasPool, 0⟩ :=
  ⟨rfl, by simp [Engine.new], .nil, by simp [Engine.new]⟩

end

/-- In a run in the order of time, the groups are the sessions of the signals exactly if no signal
    comes to an empty memory within the window of the group that was last taken out of it. -/
theorem Clocked.sessions_iff_separate (windowSecs : ℕ) (hasPool : Bool)
    (actions : List EngineAction) (s : Clocked)
    (hrun : AnyRun Clocked.step ⟨.new windowSecs hasPool, 0⟩ actions s) :
    s.Sessions ↔ Run Clocked.step Separate ⟨.new windowSecs hasPool, 0⟩ actions s :=
  hrun.final_iff (fun hstep => ordered_step hstep) (fun hstep => sessions_step hstep)
    (ordered_new windowSecs hasPool) rfl

/-! ### At the edge of the window -/

def lagAt (observedAt : ℕ) : Signal := ⟨.indexerLag, "lag", none, observedAt⟩

/-- A flush on the second at which the window ends, and a signal within that second. -/
def flushAtEdge (later : ℕ) : List EngineAction :=
  [.ingest (lagAt 0), .flushExpired 300, .persist 0 (some 1), .ingest (lagAt later)]

def pastEdge : Clocked := (exec Clocked.step ⟨.new 300 true, 0⟩ (flushAtEdge 301)).get (by decide)

/-- A second later they are two sessions. -/
theorem sessions_pastEdge : pastEdge.Sessions := by
  refine (Clocked.sessions_iff_separate 300 true (flushAtEdge 301) pastEdge
    (anyRun_iff_exec.mpr (Option.some_get _).symm)).mpr ?_
  refine .cons ?_ rfl (.cons trivial rfl (.cons trivial rfl (.cons ?_ rfl (.nil _))))
  · rintro _ _ ⟨⟩
  · rintro _ _ ⟨⟩
    decide

/-- At the edge they are one, and the engine makes two incidents of it. -/
example : ¬ Clocked.Sessions ((exec Clocked.step ⟨.new 300 true, 0⟩ (flushAtEdge 300)).get
    (by decide)) := by
  unfold Clocked.Sessions
  decide

theorem signals_accounted_flushAtEdge :
    Accounted ((exec Engine.step (.new 300 true) (flushAtEdge 300)).get (by decide)) :=
  Engine.signals_accounted 300 true (flushAtEdge 300) _
    (anyRun_iff_exec.mpr (Option.some_get _).symm)

end SorobanPulse.Incidents
