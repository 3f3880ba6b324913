import Mathlib

/-! Streamed queries: the `unfold` of `QueryStream::into_stream`, one turn of its loop at a time.

        finished ──▶ end
        a buffered row ──▶ Row
        cancelled, exhausted, max_batches ──▶ end
        fetch (or resume a parked one):  batch ──▶ buffer, once more round
                                         interval over ──▶ KeepAlive, parked
                                         error ──▶ Err, and finished when it gives up

    The rows are those of one static result set in the order of their keys. What a wait for a batch
    comes to, and when the caller cancels, is up to the environment. -/

namespace SorobanPulse.Streaming

inductive StreamErrorPolicy where
  | FailFast | SkipBatch
  deriving DecidableEq

/-- Tunables for one streamed query; the keep-alive interval is the environment's. -/
structure StreamingQueryConfig where
  batchSize : ℤ
  maxBatches : Option UInt64
  errorPolicy : StreamErrorPolicy
  maxConsecutiveErrors : UInt32

/-- Position within a result set. -/
structure QueryCursor (κ : Type) where
  key : Option κ
  batchesFetched : UInt64
  rowsEmitted : UInt64
  exhausted : Bool

def QueryCursor.new {κ : Type} : QueryCursor κ := ⟨none, 0, 0, false⟩

def QueryCursor.advance {κ : Type} (c : QueryCursor κ) (lastKey : Option κ) (rows : UInt64) :
    QueryCursor κ :=
  { c with
    key := lastKey.or c.key
    batchesFetched := c.batchesFetched + 1
    rowsEmitted := c.rowsEmitted + rows }

inductive StreamItem (T : Type) where
  | Row (row : T)
  | KeepAlive

structure QueryStreamStats where
  batchesFetched : UInt64
  rowsEmitted : UInt64
  keepalivesSent : UInt64
  batchErrors : UInt64
  completed : Bool
  cancelled : Bool
  exhausted : Bool

def QueryStreamStats.isPartial (s : QueryStreamStats) : Bool := s.completed && !s.exhausted

/-! ### The result set -/

/-- Rows in the order of their keys, all different. -/
structure ResultSet (T κ : Type) [LinearOrder κ] where
  rows : List T
  cursorKey : T → κ
  sorted : rows.Pairwise fun a b => cursorKey a < cursorKey b

variable {T κ : Type} [LinearOrder κ] (rs : ResultSet T κ)

/-- The rows after a key; without one, all of them. -/
def ResultSet.rowsAfter : Option κ → List T
  | none => rs.rows
  | some k => rs.rows.filter fun row => k < rs.cursorKey row

def ResultSet.fetch (key : Option κ) (limit : ℤ) : List T := (rs.rowsAfter key).take limit.toNat

theorem ResultSet.sorted_rowsAfter (key : Option κ) :
    (rs.rowsAfter key).Pairwise fun a b => rs.cursorKey a < rs.cursorKey b := by
  cases key with
  | none => exact rs.sorted
  | some k => exact rs.sorted.filter _

/-- Rows after a later key are among those after an earlier one. -/
theorem ResultSet.rowsAfter_of_mem {key : Option κ} {row : T} (hrow : row ∈ rs.rowsAfter key) :
    rs.rowsAfter (some (rs.cursorKey row)) =
      (rs.rowsAfter key).filter fun r => rs.cursorKey row < rs.cursorKey r := by
  cases key with
  | none => rfl
  | some k =>
    have hk : k < rs.cursorKey row := by simpa using List.of_mem_filter hrow
    rw [rowsAfter, rowsAfter, List.filter_filter]
    refine List.filter_congr fun r _ => ?_
    by_cases hr : rs.cursorKey row < rs.cursorKey r
    · simp [hr, hk.trans hr]
    · simp [hr]

/-- Behind a batch lies what it left. -/
theorem ResultSet.rowsAfter_fetch (key : Option κ) {limit : ℤ} (hlimit : 1 ≤ limit) :
    rs.rowsAfter (((rs.fetch key limit).getLast?.map rs.cursorKey).or key) =
      (rs.rowsAfter key).drop limit.toNat := by
  have hsorted := rs.sorted_rowsAfter key
  rw [← List.take_append_drop limit.toNat (rs.rowsAfter key), ← fetch,
    List.pairwise_append] at hsorted
  cases hlast : (rs.fetch key limit).getLast? with
  | none =>
    rw [List.getLast?_eq_none_iff, fetch, List.take_eq_nil_iff] at hlast
    have hnil : rs.rowsAfter key = [] := hlast.resolve_left (by omega)
    simp [hnil]
  | some row =>
    have hmem : row ∈ rs.fetch key limit := List.mem_of_getLast? hlast
    obtain ⟨init, hinit⟩ := List.getLast?_eq_some_iff.1 hlast
    rw [Option.map_some, Option.some_or, rs.rowsAfter_of_mem (List.mem_of_mem_take hmem)]
    conv_lhs => rw [← List.take_append_drop limit.toNat (rs.rowsAfter key)]
    rw [List.filter_append, ← fetch]
    have hnone : (rs.fetch key limit).filter (fun r => rs.cursorKey row < rs.cursorKey r) = [] := by
      have hinner := hsorted.1
      rw [hinit, List.pairwise_append] at hinner
      rw [List.filter_eq_nil_iff, hinit]
      intro r hr
      rcases List.mem_append.1 hr with hr | hr
      · simpa using (hinner.2.2 r hr row (List.mem_singleton_self row)).le
      · simp [List.mem_singleton.1 hr]
    have hall : ((rs.rowsAfter key).drop limit.toNat).filter
        (fun r => rs.cursorKey row < rs.cursorKey r) = (rs.rowsAfter key).drop limit.toNat := by
      rw [List.filter_eq_self]
      intro r hr
      simpa using hsorted.2.2 row hmem r hr
    rw [hnone, hall, List.nil_append]

/-- A short batch leaves nothing. -/
theorem ResultSet.rowsAfter_short (key : Option κ) {limit : ℤ} (hlimit : 1 ≤ limit)
    (hshort : ((rs.fetch key limit).length : ℤ) < limit) :
    rs.rowsAfter (((rs.fetch key limit).getLast?.map rs.cursorKey).or key) = [] := by
  rw [rs.rowsAfter_fetch key hlimit, List.drop_eq_nil_iff]
  rw [fetch, List.length_take] at hshort
  omega

/-! ### The loop -/

/-- What a wait for a batch comes to within one keep-alive interval. -/
inductive Await where
  | timeout
  | rows
  | error (e : String)

/-- One turn's environment: whether the caller has cancelled since, and the wait, if it comes to
    one. -/
structure Env where
  cancel : Bool
  await : Await

structure State (T κ : Type) where
  cursor : QueryCursor κ
  stats : QueryStreamStats
  cancel : Bool
  buffered : List T
  /-- The key that a parked batch was asked for. -/
  inFlight : Option (Option κ)
  consecutiveErrors : UInt32
  finished : Bool

def State.start (cursor : QueryCursor κ) : State T κ :=
  ⟨cursor, ⟨0, 0, 0, 0, false, false, false⟩, false, [], none, 0, false⟩

/-- How a turn ends: the stream is over, it yields an item, or the loop goes round once more. -/
inductive Turn (T : Type) where
  | stop
  | item (i : Except String (StreamItem T))
  | again

/-- `max_batches` are fetched. -/
def atMax (config : StreamingQueryConfig) (s : State T κ) : Bool :=
  match config.maxBatches with
  | some max => s.cursor.batchesFetched ≥ max
  | none => false

def giveUp (config : StreamingQueryConfig) (consecutiveErrors : UInt32) : Bool :=
  match config.errorPolicy with
  | .FailFast => true
  | .SkipBatch => consecutiveErrors > config.maxConsecutiveErrors

/-- A batch has come. -/
def received (config : StreamingQueryConfig) (rows : List T) (s : State T κ) : State T κ :=
  let cursor := s.cursor.advance (rows.getLast?.map rs.cursorKey) (.ofNat rows.length)
  { s with
    consecutiveErrors := 0
    cursor := { cursor with exhausted := cursor.exhausted || (rows.length : ℤ) < config.batchSize }
    stats := { s.stats with batchesFetched := s.stats.batchesFetched + 1 }
    buffered := rows }

/-- A batch has failed. -/
def failed (config : StreamingQueryConfig) (s : State T κ) : State T κ :=
  let errors := s.consecutiveErrors + 1
  let gaveUp := giveUp config errors
  { s with
    consecutiveErrors := errors
    finished := gaveUp
    stats := { s.stats with
      batchErrors := s.stats.batchErrors + 1
      completed := s.stats.completed || gaveUp } }

def turn (config : StreamingQueryConfig) (await : Await) (s : State T κ) : Turn T × State T κ :=
  if s.finished then (.stop, s)
  else
    match s.buffered with
    | row :: rest =>
      (.item (.ok (.Row row)), { s with
        buffered := rest
        stats := { s.stats with rowsEmitted := s.stats.rowsEmitted + 1 } })
    | [] =>
      if s.cancel then
        (.stop, { s with stats := { s.stats with cancelled := true, completed := true } })
      else if s.cursor.exhausted then
        (.stop, { s with stats := { s.stats with exhausted := true, completed := true } })
      else if atMax config s then
        (.stop, { s with stats := { s.stats with completed := true } })
      else
        let key := s.inFlight.getD s.cursor.key
        let s := { s with inFlight := none }
        match await with
        | .timeout =>
          (.item (.ok .KeepAlive), { s with
            inFlight := some key
            stats := { s.stats with keepalivesSent := s.stats.keepalivesSent + 1 } })
        | .rows => (.again, received rs config (rs.fetch key config.batchSize) s)
        | .error e => (.item (.error e), failed config s)

/-- A stream being polled: its state, what it has yielded, the sizes of the batches that came, and
    whether it is over. -/
structure Play (T κ : Type) where
  state : State T κ
  items : List (Except String (StreamItem T))
  batches : List ℕ
  ended : Bool

def Play.step (config : StreamingQueryConfig) (env : Env) (p : Play T κ) : Play T κ :=
  if p.ended then p
  else
    match turn rs config env.await { p.state with cancel := p.state.cancel || env.cancel } with
    | (.stop, s) => { p with state := s, ended := true }
    | (.item i, s) => { p with state := s, items := p.items ++ [i] }
    | (.again, s) => { p with state := s, batches := p.batches ++ [s.buffered.length] }

/-- A stream after its first turns. -/
def play (config : StreamingQueryConfig) (cursor : QueryCursor κ) (envs : ℕ → Env) : ℕ → Play T κ
  | 0 => ⟨.start cursor, [], [], false⟩
  | n + 1 => (play config cursor envs n).step rs config (envs n)

/-- `into_rows`: the rows and the errors. -/
def intoRows (items : List (Except String (StreamItem T))) : List (Except String T) :=
  items.filterMap fun
    | .ok (.Row row) => some (.ok row)
    | .ok .KeepAlive => none
    | .error e => some (.error e)

/-- The rows that were yielded. -/
def rowsOf (items : List (Except String (StreamItem T))) : List T :=
  (intoRows items).filterMap Except.toOption

end SorobanPulse.Streaming
