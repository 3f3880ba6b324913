import Mathlib.Algebra.BigOperators.Group.Finset.Basic
import SorobanPulse.Reencrypt.LostWrites

/-! The progress of `run_reencrypt_job`.

        total = COUNT(*)
        turn 0         1              k
        rows b … 2b    …   OFFSET k·b, LIMIT b         until no rows come
             └─ offset += b, remaining = total - offset

    The table changes between the turns. The offset moves by whole batches, so the unsigned
    difference is out of range as soon as a last batch is not full: a build with overflow checks
    panics there and leaves the job marked as running. -/

namespace SorobanPulse.Reencrypt
open Ingest

/-! ### Machine integers -/

/-- `as i64` of a `usize`. -/
def castI64 (n : ℕ) : ℤ := if n < 2 ^ 63 then n else n - 2 ^ 64

section
variable (checks : Bool)

/-- `+ 1` on an `i32`; where checks are off it wraps. -/
def incrI32 (n : ℤ) : Option ℤ :=
  if n < 2 ^ 31 - 1 then some (n + 1) else if checks then none else some (-2 ^ 31)

def addUsize (a b : ℕ) : Option ℕ :=
  if a + b < 2 ^ 64 then some (a + b) else if checks then none else some (a + b - 2 ^ 64)

def subUsize (a b : ℕ) : Option ℕ :=
  if b ≤ a then some (a - b) else if checks then none else some (2 ^ 64 + a - b)

end

/-! ### The job -/

/-- The events by id. -/
abbrev EventTable := List (ℕ × Value)

/-- What the job meets on a turn: the table, unless the query fails, the nonces drawn and the updates
    that succeed. -/
structure Turn where
  events : Option EventTable
  nonce : ℕ → String
  updates : ℕ → Bool

structure EventJob where
  deployment : Deployment
  newKey : EncryptionKey
  oldKey : EncryptionKey
  batchSize : UInt64
  /-- Built with overflow checks. -/
  overflowChecks : Bool
  /-- The table as it is counted. -/
  counted : Option EventTable
  turns : ℕ → Turn

structure ReencryptState where
  isRunning : Bool
  rowsRemaining : ℕ

/-- Logged after a batch, with the rows fetched so far. -/
structure Report where
  visited : ℕ
  remaining : ℕ
  deriving DecidableEq, Repr

structure EventProgress where
  offset : ℕ := 0
  reencrypted : ℤ := 0
  visited : ℕ := 0
  reports : List Report := []
  state : ReencryptState

inductive Exit where
  | completed
  | failed
  | panicked
  deriving DecidableEq, Repr

inductive Started where
  | refused
  | ended (exit : Exit) (reports : List Report) (state : ReencryptState)

/-- `WHERE event_data->>'encrypted' = 'true' ORDER BY id` -/
def encryptedEvents (events : EventTable) : EventTable :=
  (events.filter fun e => markedEncrypted e.2).insertionSort fun a b => a.1 ≤ b.1

/-- Postgres refuses a negative LIMIT or OFFSET. -/
def selectBatch (limit offset : ℤ) (events : EventTable) : Option EventTable :=
  if limit < 0 ∨ offset < 0 then none
  else some (((encryptedEvents events).drop offset.toNat).take limit.toNat)

section
variable (job : EventJob)

/-- The count is a `bigint`. -/
def EventJob.count : Option ℕ :=
  job.counted.bind fun events =>
    if (encryptedEvents events).length < 2 ^ 63 then some (encryptedEvents events).length else none

/-- Decrypted with the new key or the old one, encrypted with the new one and stored. -/
def EventJob.reencrypts (turn : Turn) (row : ℕ × Value) : Bool :=
  ((decrypt job.deployment job.newKey (some job.oldKey) row.2).bind
    (encrypt job.deployment job.newKey (turn.nonce row.1))).isSome && turn.updates row.1

def EventJob.countRows (turn : Turn) : EventTable → ℤ → Option ℤ
  | [], n => some n
  | row :: rows, n =>
    if job.reencrypts turn row then (incrI32 job.overflowChecks n).bind (EventJob.countRows turn rows)
    else EventJob.countRows turn rows n

/-- A batch's rows, and what is reported after them; `none` for a panic. -/
def EventJob.advance (total : ℕ) (turn : Turn) (rows : EventTable) (p : EventProgress) :
    Option EventProgress :=
  (job.countRows turn rows p.reencrypted).bind fun reencrypted =>
    (addUsize job.overflowChecks p.offset job.batchSize.toNat).bind fun offset =>
      (subUsize job.overflowChecks total offset).map fun remaining =>
        { offset, reencrypted
          visited := p.visited + rows.length
          reports := p.reports ++ [⟨p.visited + rows.length, remaining⟩]
          state := { p.state with rowsRemaining := remaining } }

/-- One turn of the loop. -/
def EventJob.step (total : ℕ) (turn : Turn) (p : EventProgress) : Except Exit EventProgress :=
  match turn.events.bind (selectBatch (castI64 job.batchSize.toNat) (castI64 p.offset)) with
  | none => .error .failed
  | some [] => .error .completed
  | some rows =>
    match job.advance total turn rows p with
    | none => .error .panicked
    | some p' => .ok p'

def EventJob.loop (total : ℕ) : ℕ → ℕ → EventProgress → Option (Exit × EventProgress)
  | 0, _, _ => none
  | fuel + 1, k, p =>
    match job.step total (job.turns k) p with
    | .error exit => some (exit, p)
    | .ok p' => EventJob.loop total fuel (k + 1) p'

/-- `run_reencrypt_job` -/
def EventJob.run (fuel : ℕ) (state : ReencryptState) : Option (Exit × EventProgress) :=
  match job.count with
  | none => some (.failed, { state })
  | some total => job.loop total fuel 0 { state := { state with rowsRemaining := total } }

/-- `start_reencrypt_job`, with the task that it spawns. A panic ends the task before it stores the
    flag. -/
def EventJob.start (fuel : ℕ) (state : ReencryptState) : Option Started :=
  if state.isRunning then some .refused
  else
    (job.run fuel { state with isRunning := true }).map fun (exit, p) =>
      .ended exit p.reports
        (if exit = .panicked then p.state else { p.state with isRunning := false })

/-! ### What is asked of the job -/

/-- The job ends without a panic, each report is of the rows that were not visited, and the next job
    is not refused. -/
def EventJob.Completes (state : ReencryptState) : Prop :=
  ∃ fuel exit reports state', job.start fuel state = some (.ended exit reports state') ∧
    exit ≠ .panicked ∧
    (∀ total, job.count = some total → ∀ r ∈ reports, r.remaining = total - r.visited) ∧
    state'.isRunning = false

/-- The rows at the offset of turn `k`. -/
def EventJob.fetched (k : ℕ) : Option EventTable :=
  (job.turns k).events.bind
    (selectBatch (castI64 job.batchSize.toNat) (castI64 (k * job.batchSize.toNat)))

/-- Rows come on all turns before `k`. -/
def EventJob.Reaches (k : ℕ) : Prop := ∀ j < k, ∃ rows, job.fetched j = some rows ∧ rows ≠ []

def EventJob.reencryptedOn (k : ℕ) : ℕ :=
  ((job.fetched k).getD []).countP (job.reencrypts (job.turns k))

/-- Batch `k` is full and within the count, and an `i32` counts the rows up to it. -/
structure EventJob.FitsOn (total k : ℕ) (rows : EventTable) : Prop where
  full : rows.length = job.batchSize.toNat
  within : (k + 1) * job.batchSize.toNat ≤ total
  counts : job.overflowChecks = true → ∑ j ∈ Finset.range (k + 1), job.reencryptedOn j < 2 ^ 31

def EventJob.Fits (total : ℕ) : Prop :=
  ∀ k rows, job.Reaches k → job.fetched k = some rows → rows ≠ [] → job.FitsOn total k rows

end

/-! ### One turn -/

section
variable {job : EventJob} {total k : ℕ} {rows : EventTable} {p p' : EventProgress} {turn : Turn}

theorem castI64_nonneg {n : ℕ} (hn : n < 2 ^ 64) (h : 0 ≤ castI64 n) :
    n < 2 ^ 63 ∧ (castI64 n).toNat = n := by
  rw [castI64] at h ⊢
  split at h
  · next hsmall => exact ⟨hsmall, by rw [if_pos hsmall]; rfl⟩
  · omega

theorem selectBatch_some {limit offset : ℤ} {events : EventTable}
    (h : selectBatch limit offset events = some rows) :
    0 ≤ limit ∧ 0 ≤ offset ∧ rows.length ≤ limit.toNat := by
  rw [selectBatch] at h
  split at h
  · cases h
  · next hpos =>
    cases h
    exact ⟨by omega, by omega, List.length_take_le _ _⟩

/-- Rows come only while the offset fits an `i64`, and no more than a batch of them. -/
theorem fetched_some (hk : k * job.batchSize.toNat < 2 ^ 64) (h : job.fetched k = some rows) :
    k * job.batchSize.toNat < 2 ^ 63 ∧ job.batchSize.toNat < 2 ^ 63 ∧
      rows.length ≤ job.batchSize.toNat := by
  obtain ⟨events, _, hrows⟩ := Option.bind_eq_some_iff.mp h
  obtain ⟨hlimit, hoffset, hlen⟩ := selectBatch_some hrows
  obtain ⟨hsmall, heq⟩ := castI64_nonneg job.batchSize.toNat_lt hlimit
  exact ⟨(castI64_nonneg hk hoffset).1, hsmall, heq ▸ hlen⟩

theorem incrI32_spec {n m : ℤ} : incrI32 true n = some m ↔ n < 2 ^ 31 - 1 ∧ m = n + 1 := by
  rw [incrI32]
  split
  · next h => rw [Option.some.injEq, and_iff_right h, Eq.comm]
  · next h => exact ⟨fun heq => (by cases heq), fun heq => absurd heq.1 h⟩

/-- With checks the rows are counted, as far as an `i32` goes. -/
theorem countRows_spec (hchecks : job.overflowChecks = true) : ∀ {rows : EventTable} {n m : ℤ},
    n < 2 ^ 31 → (job.countRows turn rows n = some m ↔
      n + rows.countP (job.reencrypts turn) < 2 ^ 31 ∧ m = n + rows.countP (job.reencrypts turn))
  | [], n, m, hn => by
    rw [EventJob.countRows, List.countP_nil, Option.some.injEq]
    omega
  | row :: rows, n, m, hn => by
    rw [EventJob.countRows]
    split
    · next hrow =>
      rw [List.countP_cons_of_pos hrow, hchecks, Option.bind_eq_some_iff]
      constructor
      · rintro ⟨n', hn', h⟩
        obtain ⟨hlt, rfl⟩ := incrI32_spec.mp hn'
        have := (countRows_spec hchecks (by omega)).mp h
        omega
      · intro h
        refine ⟨n + 1, incrI32_spec.mpr ⟨by omega, rfl⟩, ?_⟩
        exact (countRows_spec hchecks (by omega)).mpr (by omega)
    · next hrow =>
      rw [List.countP_cons_of_neg hrow]
      exact countRows_spec hchecks hn

theorem isSome_incrI32 {n : ℤ} : (incrI32 false n).isSome := by
  rw [incrI32]
  split <;> rfl

/-- Without checks the count always goes on. -/
theorem isSome_countRows (hchecks : job.overflowChecks = false) : ∀ (rows : EventTable) (n : ℤ),
    (job.countRows turn rows n).isSome
  | [], n => rfl
  | row :: rows, n => by
    rw [EventJob.countRows]
    split
    · obtain ⟨n', hn'⟩ := Option.isSome_iff_exists.mp (isSome_incrI32 (n := n))
      rw [hchecks, hn', Option.bind_some]
      exact isSome_countRows hchecks rows n'
    · exact isSome_countRows hchecks rows n

/-- An unsigned difference is the truncated one of the rows visited only where it is in range. -/
theorem subUsize_visited {checks : Bool} {offset remaining : ℕ} (visited : ℕ)
    (hoffset : offset < 2 ^ 64) (htotal : total < 2 ^ 63) (hvisited : visited ≤ offset)
    (h : subUsize checks total offset = some remaining) :
    remaining = total - visited ↔ offset ≤ total ∧ visited = offset := by
  rw [subUsize] at h
  split at h
  · cases h
    omega
  · split at h
    · cases h
    · cases h
      omega

theorem advance_some (hoffset : p.offset + job.batchSize.toNat < 2 ^ 64)
    (h : job.advance total turn rows p = some p') :
    p'.offset = p.offset + job.batchSize.toNat ∧ p'.visited = p.visited + rows.length ∧
      job.countRows turn rows p.reencrypted = some p'.reencrypted ∧
      ∃ remaining, subUsize job.overflowChecks total p'.offset = some remaining ∧
        p'.reports = p.reports ++ [⟨p'.visited, remaining⟩] := by
  obtain ⟨reencrypted, hcount, h⟩ := Option.bind_eq_some_iff.mp h
  rw [addUsize, if_pos hoffset, Option.bind_some] at h
  obtain ⟨remaining, hremaining, h⟩ := Option.map_eq_some_iff.mp h
  cases h
  exact ⟨rfl, rfl, hcount, remaining, hremaining, rfl⟩

theorem isSome_advance (hwithin : p.offset + job.batchSize.toNat ≤ total) (htotal : total < 2 ^ 63)
    (hcount : (job.countRows turn rows p.reencrypted).isSome) :
    (job.advance total turn rows p).isSome := by
  obtain ⟨reencrypted, hcount⟩ := Option.isSome_iff_exists.mp hcount
  rw [EventJob.advance, hcount, Option.bind_some, addUsize, if_pos (by omega), Option.bind_some,
    subUsize, if_pos hwithin]
  rfl

/-- Before turn `k`, after full batches: the rows that were counted, unless the count has wrapped. -/
structure EventProgress.Tracks (p : EventProgress) (job : EventJob) (k : ℕ) : Prop where
  offset : p.offset = k * job.batchSize.toNat
  visited : p.visited = k * job.batchSize.toNat
  counts : job.overflowChecks = true →
    p.reencrypted = (∑ j ∈ Finset.range k, job.reencryptedOn j : ℕ) ∧ p.reencrypted < 2 ^ 31

def Report.Right (total : ℕ) (r : Report) : Prop := r.remaining = total - r.visited

theorem step_eq (hoffset : p.offset = k * job.batchSize.toNat) :
    job.step total (job.turns k) p = match job.fetched k with
      | none => .error .failed
      | some [] => .error .completed
      | some rows =>
        match job.advance total (job.turns k) rows p with
        | none => .error .panicked
        | some p' => .ok p' := by
  rw [EventJob.step, hoffset]
  rfl

theorem step_rows (hoffset : p.offset = k * job.batchSize.toNat) (hrows : job.fetched k = some rows)
    (hne : rows ≠ []) :
    job.step total (job.turns k) p = match job.advance total (job.turns k) rows p with
      | none => .error .panicked
      | some p' => .ok p' := by
  rw [step_eq hoffset, hrows]
  cases rows with
  | nil => exact absurd rfl hne
  | cons row rest => rfl

/-- Without rows the loop ends, with no panic. -/
theorem step_ends (total : ℕ) (hoffset : p.offset = k * job.batchSize.toNat)
    (hrows : ∀ rows, job.fetched k = some rows → rows = []) :
    ∃ exit, exit ≠ .panicked ∧ job.step total (job.turns k) p = .error exit := by
  rw [step_eq hoffset]
  cases hfetched : job.fetched k with
  | none => exact ⟨.failed, by decide, rfl⟩
  | some rows =>
    cases hrows rows hfetched
    exact ⟨.completed, by decide, rfl⟩

theorem sum_reencryptedOn_succ (hrows : job.fetched k = some rows) :
    ∑ j ∈ Finset.range (k + 1), job.reencryptedOn j =
      ∑ j ∈ Finset.range k, job.reencryptedOn j + rows.countP (job.reencrypts (job.turns k)) := by
  rw [Finset.sum_range_succ, EventJob.reencryptedOn, hrows, Option.getD_some]

/-- A batch that fits is reported right. -/
theorem step_fits (htracks : p.Tracks job k) (htotal : total < 2 ^ 63)
    (hrows : job.fetched k = some rows) (hne : rows ≠ []) (hfits : job.FitsOn total k rows)
    (hright : ∀ r ∈ p.reports, r.Right total) :
    ∃ p', job.step total (job.turns k) p = .ok p' ∧ p'.Tracks job (k + 1) ∧
      ∀ r ∈ p'.reports, r.Right total := by
  have hwithin := hfits.within
  rw [Nat.add_one_mul, ← htracks.offset] at hwithin
  -- with checks on, the sum that fits is below the counter's maximum
  have hcount : (job.countRows (job.turns k) rows p.reencrypted).isSome := by
    cases hchecks : job.overflowChecks with
    | false => exact isSome_countRows hchecks rows _
    | true =>
      obtain ⟨hsum, hlt⟩ := htracks.counts hchecks
      have hall := hfits.counts hchecks
      rw [sum_reencryptedOn_succ hrows] at hall
      rw [(countRows_spec hchecks hlt).mpr ⟨by omega, rfl⟩]
      rfl
  obtain ⟨p', hp'⟩ := Option.isSome_iff_exists.mp (isSome_advance hwithin htotal hcount)
  obtain ⟨hoffset', hvisited', hcount', remaining, hremaining, hreports⟩ :=
    advance_some (by omega) hp'
  -- full batches so far, so as many rows were visited as the offset says
  have hvisited : p'.visited = p'.offset := by
    rw [hvisited', hoffset', htracks.visited, htracks.offset, hfits.full]
  refine ⟨p', ?_, ⟨?_, ?_, ?_⟩, ?_⟩
  · rw [step_rows htracks.offset hrows hne, hp']
  · rw [hoffset', htracks.offset, Nat.add_one_mul]
  · rw [hvisited, hoffset', htracks.offset, Nat.add_one_mul]
  · intro hchecks
    obtain ⟨hsum, hlt⟩ := htracks.counts hchecks
    obtain ⟨hlt', hsum'⟩ := (countRows_spec hchecks hlt).mp hcount'
    rw [sum_reencryptedOn_succ hrows]
    omega
  · -- the new report is right, since offset and rows agree
    intro r hr
    rw [hreports] at hr
    rcases List.mem_append.mp hr with hr | hr
    · exact hright r hr
    · rw [List.mem_singleton.mp hr]
      exact (subUsize_visited p'.visited (by omega) htotal (by omega) hremaining).mpr
        ⟨by omega, hvisited⟩

/-- One that does not fit panics or is reported wrong. -/
theorem step_unfit (htracks : p.Tracks job k) (htotal : total < 2 ^ 63)
    (hrows : job.fetched k = some rows) (hne : rows ≠ []) (hunfit : ¬job.FitsOn total k rows)
    (hk : k * job.batchSize.toNat < 2 ^ 64) :
    job.step total (job.turns k) p = .error .panicked ∨
      ∃ p', job.step total (job.turns k) p = .ok p' ∧ ∃ r ∈ p'.reports, ¬r.Right total := by
  rw [step_rows htracks.offset hrows hne]
  cases hp' : job.advance total (job.turns k) rows p with
  | none => exact .inl rfl
  | some p' =>
    refine .inr ⟨p', rfl, ?_⟩
    obtain ⟨hsmall, hbatch, hlen⟩ := fetched_some hk hrows
    have hoffset := htracks.offset
    have hvisited := htracks.visited
    obtain ⟨hoffset', hvisited', hcount', remaining, hremaining, hreports⟩ :=
      advance_some (by omega) hp'
    refine ⟨⟨p'.visited, remaining⟩, ?_, fun hright => hunfit ?_⟩
    · rw [hreports]
      exact List.mem_concat_self
    obtain ⟨hwithin, heq⟩ :=
      (subUsize_visited p'.visited (by omega) htotal (by omega) hremaining).mp hright
    refine ⟨by omega, by rw [Nat.add_one_mul]; omega, fun hchecks => ?_⟩
    obtain ⟨hsum, hlt⟩ := htracks.counts hchecks
    obtain ⟨hlt', -⟩ := (countRows_spec hchecks hlt).mp hcount'
    rw [sum_reencryptedOn_succ hrows]
    omega

/-! ### The loop -/

theorem reaches_succ (hreaches : job.Reaches k) (hrows : job.fetched k = some rows)
    (hne : rows ≠ []) : job.Reaches (k + 1) := by
  intro j hj
  rcases Nat.lt_succ_iff_lt_or_eq.mp hj with hj | rfl
  · exact hreaches j hj
  · exact ⟨rows, hrows, hne⟩

/-- The offset of a turn that is reached is a `usize`. -/
theorem reaches_lt (hreaches : job.Reaches k) : k * job.batchSize.toNat < 2 ^ 64 := by
  induction k with
  | zero => omega
  | succ k ih =>
    obtain ⟨rows, hrows, -⟩ := hreaches k (Nat.lt_succ_self k)
    obtain ⟨hsmall, hbatch, -⟩ := fetched_some (ih fun j hj => hreaches j (by omega)) hrows
    rw [Nat.add_one_mul]
    omega

theorem reports_step (h : job.step total turn p = .ok p') : p.reports <+: p'.reports := by
  rw [EventJob.step] at h
  split at h
  · cases h
  · cases h
  · split at h
    · cases h
    · next hp' =>
      cases h
      obtain ⟨reencrypted, _, hp'⟩ := Option.bind_eq_some_iff.mp hp'
      obtain ⟨offset, _, hp'⟩ := Option.bind_eq_some_iff.mp hp'
      obtain ⟨remaining, _, hp'⟩ := Option.map_eq_some_iff.mp hp'
      cases hp'
      exact List.prefix_append _ _

theorem reports_loop {exit : Exit} : ∀ {fuel k : ℕ} {p q : EventProgress},
    job.loop total fuel k p = some (exit, q) → p.reports <+: q.reports
  | fuel + 1, k, p, q, h => by
    rw [EventJob.loop] at h
    split at h
    · cases h
      exact List.prefix_rfl
    · next hstep => exact (reports_step hstep).trans (reports_loop h)

/-- Where all batches fit, all is reported right. -/
theorem loop_fits (htotal : total < 2 ^ 63) (hfits : job.Fits total) {exit : Exit} :
    ∀ {fuel k : ℕ} {p q : EventProgress}, job.Reaches k → p.Tracks job k →
      (∀ r ∈ p.reports, r.Right total) → job.loop total fuel k p = some (exit, q) →
        exit ≠ .panicked ∧ ∀ r ∈ q.reports, r.Right total
  | fuel + 1, k, p, q, hreaches, htracks, hright, h => by
    rw [EventJob.loop] at h
    by_cases hrows : ∃ rows, job.fetched k = some rows ∧ rows ≠ []
    · obtain ⟨rows, hrows, hne⟩ := hrows
      obtain ⟨p', hstep, htracks', hright'⟩ := step_fits htracks htotal hrows hne
        (hfits k rows hreaches hrows hne) hright
      rw [hstep] at h
      exact loop_fits htotal hfits (reaches_succ hreaches hrows hne) htracks' hright' h
    · push Not at hrows
      obtain ⟨exit', hexit, hstep⟩ := step_ends total htracks.offset hrows
      rw [hstep] at h
      cases h
      exact ⟨hexit, hright⟩

/-- Only there. -/
theorem fits_of_loop (htotal : total < 2 ^ 63) {exit : Exit} (hexit : exit ≠ .panicked) :
    ∀ {fuel k : ℕ} {p q : EventProgress}, job.Reaches k → p.Tracks job k →
      job.loop total fuel k p = some (exit, q) → (∀ r ∈ p.reports, r.Right total) →
      (∀ r ∈ q.reports, r.Right total) → ∀ i rows, k ≤ i → job.Reaches i →
        job.fetched i = some rows → rows ≠ [] → job.FitsOn total i rows
  | fuel + 1, k, p, q, hreaches, htracks, h, hp, hright, i, rows, hi, hreaches', hrows, hne => by
    have hloop := h
    rw [EventJob.loop] at h
    have hrowsk : ∃ rowsk, job.fetched k = some rowsk ∧ rowsk ≠ [] := by
      rcases Nat.lt_or_eq_of_le hi with hlt | rfl
      · exact hreaches' k hlt
      · exact ⟨rows, hrows, hne⟩
    obtain ⟨rowsk, hrowsk, hnek⟩ := hrowsk
    by_cases hfitsk : job.FitsOn total k rowsk
    · obtain ⟨p', hstep, htracks', hright'⟩ := step_fits htracks htotal hrowsk hnek hfitsk hp
      rw [hstep] at h
      rcases Nat.lt_or_eq_of_le hi with hlt | rfl
      · exact fits_of_loop htotal hexit (reaches_succ hreaches hrowsk hnek) htracks' h hright' hright
          i rows hlt hreaches' hrows hne
      · rw [hrowsk] at hrows
        cases hrows
        exact hfitsk
    · exfalso
      rcases step_unfit htracks htotal hrowsk hnek hfitsk (reaches_lt hreaches) with
        hstep | ⟨p', hstep, r, hr, hwrong⟩
      · rw [hstep] at h
        cases h
        exact hexit rfl
      · rw [hstep] at h
        exact hwrong (hright r ((reports_loop h).subset hr))

/-- The offset outgrows the range of a `bigint`, so the loop ends. -/
theorem loop_terminates : ∀ {fuel k : ℕ} {p : EventProgress}, 0 < job.batchSize.toNat →
    p.offset = k * job.batchSize.toNat → job.Reaches k → 2 ^ 63 < fuel + k →
      ∃ r, job.loop total fuel k p = some r
  | 0, k, p, hbatch, hoffset, hreaches, hfuel => by
    obtain ⟨rows, hrows, hne⟩ := hreaches (k - 1) (by omega)
    obtain ⟨hsmall, -⟩ := fetched_some
      (reaches_lt fun j hj => hreaches j (by omega)) hrows
    have hle := Nat.le_mul_of_pos_right (k - 1) hbatch
    omega
  | fuel + 1, k, p, hbatch, hoffset, hreaches, hfuel => by
    by_cases hrows : ∃ rows, job.fetched k = some rows ∧ rows ≠ []
    · obtain ⟨rows, hrows, hne⟩ := hrows
      rw [EventJob.loop, step_rows hoffset hrows hne]
      cases hp' : job.advance total (job.turns k) rows p with
      | none => exact ⟨_, rfl⟩
      | some p' =>
        obtain ⟨hsmall, hsmall', -⟩ := fetched_some (reaches_lt hreaches) hrows
        obtain ⟨hoffset', -⟩ := advance_some (by omega) hp'
        exact loop_terminates hbatch (by rw [hoffset', hoffset, Nat.add_one_mul])
          (reaches_succ hreaches hrows hne) (by omega)
    · push Not at hrows
      obtain ⟨exit, -, hstep⟩ := step_ends total hoffset hrows
      rw [EventJob.loop, hstep]
      exact ⟨_, rfl⟩

end

section
variable {job : EventJob} {state : ReencryptState} {total : ℕ}

theorem count_lt (h : job.count = some total) : total < 2 ^ 63 := by
  obtain ⟨events, _, h⟩ := Option.bind_eq_some_iff.mp h
  split at h
  · next hlt =>
    cases h
    exact hlt
  · cases h

theorem reaches_zero : job.Reaches 0 := fun j hj => absurd hj (Nat.not_lt_zero j)

theorem tracks_zero (state : ReencryptState) : ({ state } : EventProgress).Tracks job 0 :=
  ⟨(Nat.zero_mul _).symm, (Nat.zero_mul _).symm, fun _ => ⟨rfl, by norm_num⟩⟩

theorem run_terminates (hbatch : 0 < job.batchSize.toNat) (state : ReencryptState) :
    ∃ fuel r, job.run fuel state = some r := by
  cases hcount : job.count with
  | none => exact ⟨0, (.failed, { state }), by rw [EventJob.run, hcount]⟩
  | some total =>
    have hloop : ∃ r, job.loop total (2 ^ 63 + 1) 0
        { state := { state with rowsRemaining := total } } = some r :=
      loop_terminates hbatch (Nat.zero_mul _).symm reaches_zero (by omega)
    obtain ⟨r, hr⟩ := hloop
    refine ⟨2 ^ 63 + 1, r, ?_⟩
    rw [EventJob.run, hcount]
    exact hr

theorem fits_of_completes (hidle : state.isRunning = false) (h : job.Completes state)
    (hcount : job.count = some total) : job.Fits total := by
  obtain ⟨fuel, exit, reports, state', hstart, hexit, hreports, -⟩ := h
  rw [EventJob.start, hidle, if_neg Bool.false_ne_true] at hstart
  obtain ⟨⟨exit', p⟩, hrun, heq⟩ := Option.map_eq_some_iff.mp hstart
  cases heq
  rw [EventJob.run, hcount] at hrun
  intro k rows
  exact fits_of_loop (count_lt hcount) hexit reaches_zero (tracks_zero _) hrun
    (fun r hr => absurd hr List.not_mem_nil) (hreports total hcount) k rows (Nat.zero_le k)

theorem completes_of_fits (hbatch : 0 < job.batchSize.toNat) (hidle : state.isRunning = false)
    (hfits : ∀ total, job.count = some total → job.Fits total) : job.Completes state := by
  obtain ⟨fuel, ⟨exit, p⟩, hrun⟩ := run_terminates hbatch { state with isRunning := true }
  have hgood : exit ≠ .panicked ∧
      ∀ total, job.count = some total → ∀ r ∈ p.reports, r.Right total := by
    cases hcount : job.count with
    | none =>
      rw [EventJob.run, hcount] at hrun
      cases hrun
      exact ⟨by decide, fun total htotal => by cases htotal⟩
    | some total =>
      rw [EventJob.run, hcount] at hrun
      obtain ⟨hexit, hright⟩ := loop_fits (count_lt hcount) (hfits total hcount) reaches_zero
        (tracks_zero _) (fun r hr => absurd hr List.not_mem_nil) hrun
      refine ⟨hexit, fun total' htotal' => ?_⟩
      cases htotal'
      exact hright
  refine ⟨fuel, exit, p.reports, { p.state with isRunning := false }, ?_, hgood.1, hgood.2, rfl⟩
  rw [EventJob.start, hidle, if_neg Bool.false_ne_true, hrun, Option.map_some]
  dsimp only
  rw [if_neg hgood.1]

/-- A job completes exactly when the batches that it fetches are full and within the count. -/
theorem completes_iff (hbatch : 0 < job.batchSize.toNat) (hidle : state.isRunning = false) :
    job.Completes state ↔ ∀ total, job.count = some total → job.Fits total :=
  ⟨fun h _ hcount => fits_of_completes hidle h hcount, completes_of_fits hbatch hidle⟩

/-! ### A table that does not change -/

theorem selectBatch_range {k : ℕ} {events : EventTable} (hbatch : job.batchSize.toNat < 2 ^ 63)
    (hk : k * job.batchSize.toNat < 2 ^ 63) :
    selectBatch (castI64 job.batchSize.toNat) (castI64 (k * job.batchSize.toNat)) events =
      some (((encryptedEvents events).drop (k * job.batchSize.toNat)).take job.batchSize.toNat) := by
  rw [castI64, if_pos hbatch, castI64, if_pos hk, selectBatch, if_neg (by omega)]
  rfl

theorem reencryptedOn_le {rows : EventTable} {k : ℕ} (hk : job.Reaches k)
    (hrows : job.fetched k = some rows) : job.reencryptedOn k ≤ job.batchSize.toNat := by
  rw [EventJob.reencryptedOn, hrows, Option.getD_some]
  exact List.countP_le_length.trans (fetched_some (reaches_lt hk) hrows).2.2

/-- There the batches fit exactly when the batch size divides the number of rows. -/
theorem fits_static {events : EventTable} (hstatic : ∀ k, (job.turns k).events = some events)
    (hbatch : 0 < job.batchSize.toNat) (hsmall : job.batchSize.toNat < 2 ^ 63)
    (hlen : (encryptedEvents events).length < 2 ^ 31) :
    job.Fits (encryptedEvents events).length ↔
      job.batchSize.toNat ∣ (encryptedEvents events).length := by
  set b := job.batchSize.toNat
  set total := (encryptedEvents events).length with htotal
  -- with the rows at rest, batch k is the k-th slice of them
  have hfetched : ∀ k, k * b < 2 ^ 63 →
      job.fetched k = some (((encryptedEvents events).drop (k * b)).take b) := by
    intro k hk
    rw [EventJob.fetched, hstatic, Option.bind_some, selectBatch_range hsmall hk]
  have hlength : ∀ k, (((encryptedEvents events).drop (k * b)).take b).length =
      min b (total - k * b) := fun k => by rw [List.length_take, List.length_drop]
  have hne : ∀ k, k * b < total → ((encryptedEvents events).drop (k * b)).take b ≠ [] := by
    intro k hk hnil
    have := hlength k
    rw [hnil, List.length_nil] at this
    omega
  constructor
  · intro hfits
    by_contra hdvd  -- otherwise the last batch is short, and it does not fit
    have hmod : 0 < total % b := Nat.pos_of_ne_zero fun h => hdvd (Nat.dvd_of_mod_eq_zero h)
    have hdiv : total / b * b + total % b = total := Nat.div_add_mod' total b
    have hlast := hfetched (total / b) (by omega)
    have hreaches : job.Reaches (total / b) := by
      intro j hj
      have hmul : j * b ≤ total / b * b := Nat.mul_le_mul_right b hj.le
      exact ⟨_, hfetched j (by omega), hne j (by omega)⟩
    have hwithin : (total / b + 1) * b ≤ total :=
      (hfits _ _ hreaches hlast (hne _ (by omega))).within
    have hlt := Nat.mod_lt total hbatch
    rw [Nat.add_one_mul] at hwithin
    omega
  · -- in a full m batches every one that is not empty lies within the rows
    rintro ⟨m, hm⟩ k rows hreaches hrows hne
    obtain ⟨hk, -, -⟩ := fetched_some (reaches_lt hreaches) hrows
    rw [hfetched k hk] at hrows
    cases hrows
    have hpos : 0 < min b (total - k * b) := by
      rw [← hlength k]
      exact List.length_pos_of_ne_nil hne
    have hkm : k < m := by
      refine Nat.lt_of_mul_lt_mul_left (a := b) ?_
      rw [← hm, Nat.mul_comm]
      omega
    have hwithin : (k + 1) * b ≤ total := by
      rw [hm, Nat.mul_comm b]
      exact Nat.mul_le_mul_right b hkm
    refine ⟨?_, hwithin, fun _ => ?_⟩
    · rw [hlength, Nat.min_eq_left]
      rw [Nat.add_one_mul] at hwithin
      omega
    · -- so far at most a batch's size has been done for each batch
      have hsum : ∑ j ∈ Finset.range (k + 1), job.reencryptedOn j ≤ (k + 1) * b := by
        refine (Finset.sum_le_card_nsmul _ _ b fun j hj => ?_).trans_eq ?_
        · have hj' : j < k + 1 := Finset.mem_range.mp hj
          have hmul : j * b ≤ k * b := Nat.mul_le_mul_right b (by omega)
          exact reencryptedOn_le (fun i hi => hreaches i (by omega)) (hfetched j (by omega))
        · rw [Finset.card_range, smul_eq_mul]
      omega

end

/-- One encrypted event in the table. -/
def oneEvent : EventTable := [(1, envelope "data" "n" 1)]

/-- Over a table that nobody else writes to. -/
def jobOver (table : EventTable) (batchSize : UInt64) : EventJob where
  deployment := symbolDeployment true
  newKey := 2
  oldKey := 1
  batchSize := batchSize
  overflowChecks := true
  counted := some table
  turns _ := { events := some table, nonce := fun _ => "n", updates := fun _ => true }

theorem length_oneEvent : (encryptedEvents oneEvent).length = 1 := by decide +kernel

theorem count_jobOver {table : EventTable} {batchSize : UInt64}
    (hfew : (encryptedEvents table).length < 2 ^ 63) :
    (jobOver table batchSize).count = some (encryptedEvents table).length := by
  rw [EventJob.count, jobOver, Option.bind_some, if_pos hfew]

/-- Four encrypted events and one in the clear. -/
def fiveEvents : EventTable :=
  [(1, envelope "data" "n" 1), (2, .string "data"), (3, envelope "data" "m" 1),
    (4, envelope "more" "n" 1), (5, envelope "more" "m" 1)]

theorem length_fiveEvents : (encryptedEvents fiveEvents).length = 4 := by decide +kernel

/-- In batches of two the job completes. -/
theorem completes_fiveEvents : (jobOver fiveEvents 2).Completes ⟨false, 0⟩ := by
  refine (completes_iff (by decide) rfl).mpr fun total hcount => ?_
  rw [count_jobOver (by rw [length_fiveEvents]; norm_num)] at hcount
  cases hcount
  refine (fits_static (fun _ => rfl) (by decide) (by decide) ?_).mpr ?_
  · rw [length_fiveEvents]
    norm_num
  · rw [length_fiveEvents]
    decide

/-- In batches of 1000, as the handler starts it, it does not. -/
theorem not_completes_oneEvent : ¬(jobOver oneEvent 1000).Completes ⟨false, 0⟩ := by
  intro h
  have hfits := fits_of_completes rfl h (count_jobOver (by rw [length_oneEvent]; norm_num))
  rw [fits_static (fun _ => rfl) (by decide) (by decide) (by rw [length_oneEvent]; norm_num),
    length_oneEvent] at hfits
  exact absurd hfits (by decide)

end SorobanPulse.Reencrypt
