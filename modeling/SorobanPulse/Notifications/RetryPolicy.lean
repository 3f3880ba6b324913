import Mathlib

/-! Retry policies: the delays of the strategies, and the two executors.

    Arithmetic wraps, as in a release build. The exponential strategy computes in floating point and
    the jitter is random, so both are parameters. -/

namespace SorobanPulse.Notifications

inductive RetryStrategy where
  | Exponential
  | Linear
  | Fixed
  deriving DecidableEq

/-- `initial_ms as f64 * multiplier.powi(attempt - 1)`, as a `u64`, for the policy's multiplier. -/
abbrev PowerBackoff := UInt32 → UInt64 → UInt64

def RetryStrategy.calculateBackoff (exponential : PowerBackoff) (strategy : RetryStrategy)
    (attempt : UInt32) (initialMs : UInt64) : UInt64 :=
  match strategy with
  | .Exponential => exponential attempt initialMs
  | .Linear => initialMs * attempt.toUInt64
  | .Fixed => initialMs

structure RetryPolicy where
  maxAttempts : UInt32
  initialBackoffMs : UInt64
  exponential : PowerBackoff
  maxBackoffMs : UInt64
  strategy : Option RetryStrategy
  useJitter : Bool

/-- The delay in milliseconds; `jitter` is what `apply_jitter` makes of it this time. -/
def RetryPolicy.calculateBackoff (policy : RetryPolicy) (jitter : UInt64 → UInt64)
    (attempt : UInt32) : UInt64 :=
  if attempt = 0 ∨ policy.initialBackoffMs = 0 then 0
  else
    let strategy := policy.strategy.getD .Exponential
    let backoffMs := strategy.calculateBackoff policy.exponential attempt policy.initialBackoffMs
    let cappedBackoff := min backoffMs policy.maxBackoffMs
    if policy.useJitter then jitter cappedBackoff else cappedBackoff

/-! ### The executors -/

section
variable {σ T E : Type*}

/-- An operation, called with the number of the attempt. What it returns may depend on all that
    happened before, which is its state. -/
abbrev Operation (σ T E : Type*) := UInt32 → σ → Except E T × σ

/-- The operation's state, the attempts it was called with and the delays slept in between. -/
structure Execution (σ : Type*) where
  state : σ
  attempts : List UInt32
  slept : List UInt64

def Execution.start (state : σ) : Execution σ := ⟨state, [], []⟩

def Execution.call (execution : Execution σ) (operation : Operation σ T E) (attempt : UInt32) :
    Except E T × Execution σ :=
  let (outcome, state) := operation attempt execution.state
  (outcome, { execution with state, attempts := execution.attempts ++ [attempt] })

def Execution.sleep (execution : Execution σ) (backoff : UInt64) : Execution σ :=
  { execution with slept := execution.slept ++ [backoff] }

theorem toNat_sub_lt {attempt maxAttempts : UInt32} (h : attempt < maxAttempts) :
    (attempt + 1).toNat = attempt.toNat + 1 ∧
      maxAttempts.toNat - (attempt + 1).toNat < maxAttempts.toNat - attempt.toNat := by
  rw [UInt32.lt_iff_toNat_lt] at h
  have hmax := maxAttempts.toNat_lt
  have hadd : (attempt + 1).toNat = attempt.toNat + 1 := by
    rw [UInt32.toNat_add]
    exact Nat.mod_eq_of_lt (by simp; omega)
  omega

variable (policy : RetryPolicy) (jitter : UInt32 → UInt64 → UInt64) (operation : Operation σ T E)

/-- The loop of `execute_with_retry`, from an attempt on. -/
def RetryPolicy.retryLoop (maxAttempts attempt : UInt32) (execution : Execution σ) :
    Except E T × Execution σ :=
  match execution.call operation attempt with
  | (.ok result, execution) => (.ok result, execution)
  | (.error error, execution) =>
    if attempt < maxAttempts then
      let backoff := policy.calculateBackoff (jitter attempt) attempt
      retryLoop maxAttempts (attempt + 1) (execution.sleep backoff)
    else (.error error, execution)
termination_by maxAttempts.toNat - attempt.toNat
decreasing_by exact (toNat_sub_lt ‹_›).2

def RetryPolicy.executeWithRetry (state : σ) : Except E T × Execution σ :=
  policy.retryLoop jitter operation (max policy.maxAttempts 1) 1 (.start state)

end

/-! ### The counters -/

structure PolicyCounters where
  attempts : UInt64
  successes : UInt64
  retries : UInt64
  exhausted : UInt64
  totalBackoffMs : UInt64
  deriving DecidableEq

def PolicyCounters.default : PolicyCounters := ⟨0, 0, 0, 0, 0⟩

/-- The counters of the policies seen so far. -/
abbrev RetryMetrics := String → Option PolicyCounters

def RetryMetrics.default : RetryMetrics := fun _ => none

def RetryMetrics.countersFor (metrics : RetryMetrics) (policyName : String) : PolicyCounters :=
  (metrics policyName).getD .default

def RetryMetrics.record (metrics : RetryMetrics) (policyName : String)
    (f : PolicyCounters → PolicyCounters) : RetryMetrics :=
  Function.update metrics policyName (some (f (metrics.countersFor policyName)))

def RetryMetrics.recordAttempt (metrics : RetryMetrics) (policyName : String) : RetryMetrics :=
  metrics.record policyName fun counters => { counters with attempts := counters.attempts + 1 }

def RetryMetrics.recordSuccess (metrics : RetryMetrics) (policyName : String) (_attempt : UInt32) :
    RetryMetrics :=
  metrics.record policyName fun counters => { counters with successes := counters.successes + 1 }

def RetryMetrics.recordRetry (metrics : RetryMetrics) (policyName : String) (backoff : UInt64) :
    RetryMetrics :=
  metrics.record policyName fun counters =>
    { counters with
      retries := counters.retries + 1
      totalBackoffMs := counters.totalBackoffMs + backoff }

def RetryMetrics.recordExhausted (metrics : RetryMetrics) (policyName : String) : RetryMetrics :=
  metrics.record policyName fun counters => { counters with exhausted := counters.exhausted + 1 }

section
variable {σ T E : Type*} (policy : RetryPolicy) (jitter : UInt32 → UInt64 → UInt64)
  (policyName : String) (operation : Operation σ T E)

/-- The loop of `execute_with_retry_metrics`, from an attempt on. -/
def RetryPolicy.retryLoopMetrics (metrics : RetryMetrics) (maxAttempts attempt : UInt32)
    (execution : Execution σ) : (Except E T × Execution σ) × RetryMetrics :=
  let metrics := metrics.recordAttempt policyName
  match execution.call operation attempt with
  | (.ok result, execution) => ((.ok result, execution), metrics.recordSuccess policyName attempt)
  | (.error error, execution) =>
    if attempt < maxAttempts then
      let backoff := policy.calculateBackoff (jitter attempt) attempt
      let metrics := metrics.recordRetry policyName backoff
      retryLoopMetrics metrics maxAttempts (attempt + 1) (execution.sleep backoff)
    else ((.error error, execution), metrics.recordExhausted policyName)
termination_by maxAttempts.toNat - attempt.toNat
decreasing_by exact (toNat_sub_lt ‹_›).2

def RetryPolicy.executeWithRetryMetrics (metrics : RetryMetrics) (state : σ) :
    (Except E T × Execution σ) × RetryMetrics :=
  policy.retryLoopMetrics jitter policyName operation metrics (max policy.maxAttempts 1) 1
    (.start state)

end

/-! ### What the executors do -/

section
variable {σ T E : Type*} (operation : Operation σ T E) (state : σ)

/-- The operation's state after calls with `1`, ..., `k`. -/
def stateAfter : ℕ → σ
  | 0 => state
  | k + 1 => (operation (UInt32.ofNat (k + 1)) (stateAfter k)).2

/-- What the `k`-th of these calls returns. -/
def outcome (k : ℕ) : Except E T :=
  (operation (UInt32.ofNat k) (stateAfter operation state (k - 1))).1

def Succeeds (k : ℕ) : Prop := ∃ result, outcome operation state k = .ok result

/-- `k` is the first success if that is at most `limit`, and `limit` otherwise. -/
def LastAttempt (limit k : ℕ) : Prop :=
  (1 ≤ k ∧ k ≤ limit ∧ Succeeds operation state k ∧
      ∀ i, 1 ≤ i → i < k → ¬Succeeds operation state i) ∨
    k = limit ∧ ∀ i, 1 ≤ i → i ≤ limit → ¬Succeeds operation state i

/-- The attempts `1`, ..., `k` were made, and no others. -/
structure Attempted (k : ℕ) (execution : Execution σ) : Prop where
  state_eq : execution.state = stateAfter operation state k
  attempts_eq : execution.attempts = (List.range' 1 k).map UInt32.ofNat

variable {operation state} {policy : RetryPolicy} {jitter : UInt32 → UInt64 → UInt64}

theorem Attempted.call {k : ℕ} {execution : Execution σ} {attempt : UInt32}
    (h : Attempted operation state k execution) (hattempt : attempt.toNat = k + 1) :
    (execution.call operation attempt).1 = outcome operation state (k + 1) ∧
      Attempted operation state (k + 1) (execution.call operation attempt).2 := by
  have hofNat : attempt = UInt32.ofNat (k + 1) := by rw [← hattempt, UInt32.ofNat_toNat]
  refine ⟨?_, ?_, ?_⟩
  · rw [Execution.call, h.state_eq, hofNat]
    rfl
  · rw [Execution.call, h.state_eq, hofNat]
    rfl
  · rw [Execution.call, List.range'_concat, List.map_append, ← h.attempts_eq, hofNat]
    simp [Nat.add_comm]

/-- From the state before an attempt on, with failures only so far, the loop ends at the last one. -/
theorem retryLoop_spec {maxAttempts attempt : UInt32} {execution : Execution σ} {k : ℕ}
    (hattempt : attempt.toNat = k + 1) (hle : k + 1 ≤ maxAttempts.toNat)
    (h : Attempted operation state k execution)
    (hfailed : ∀ i, 1 ≤ i → i ≤ k → ¬Succeeds operation state i) :
    ∃ n, LastAttempt operation state maxAttempts.toNat n ∧
      (policy.retryLoop jitter operation maxAttempts attempt execution).1 =
        outcome operation state n ∧
      Attempted operation state n
        (policy.retryLoop jitter operation maxAttempts attempt execution).2 := by
  -- on the attempts that are left
  induction hrest : maxAttempts.toNat - attempt.toNat using Nat.strong_induction_on
    generalizing attempt execution k with
  | _ rest ih =>
    obtain ⟨houtcome, hcalled⟩ := h.call hattempt
    rw [RetryPolicy.retryLoop]
    match hcall : execution.call operation attempt with
    | (.ok result, called) =>
      rw [hcall] at houtcome hcalled
      -- the first success, after failures only
      have hsuccess : Succeeds operation state (k + 1) := ⟨result, houtcome.symm⟩
      exact ⟨k + 1, .inl ⟨by omega, hle, hsuccess, fun i h1 hlt => hfailed i h1 (by omega)⟩,
        houtcome, hcalled⟩
    | (.error error, called) =>
      rw [hcall] at houtcome hcalled
      have hfailed' : ∀ i, 1 ≤ i → i ≤ k + 1 → ¬Succeeds operation state i := by
        intro i h1 hi
        obtain hlt | rfl := Nat.lt_or_eq_of_le hi
        · exact hfailed i h1 (by omega)
        · -- this attempt has failed
          rintro ⟨result, hok⟩
          cases houtcome.trans hok
      dsimp only
      split
      · next hmore =>
        obtain ⟨hnext, hdecr⟩ := toNat_sub_lt hmore
        have hslept : Attempted operation state (k + 1)
            (called.sleep (policy.calculateBackoff (jitter attempt) attempt)) :=
          ⟨hcalled.state_eq, hcalled.attempts_eq⟩
        have hlt := UInt32.lt_iff_toNat_lt.mp hmore
        exact ih _ (hrest ▸ hdecr) (by omega) (by omega) hslept hfailed' rfl
      · -- the last attempt; by now all of them have failed
        next hlast =>
        rw [UInt32.lt_iff_toNat_lt] at hlast
        have hk : k + 1 = maxAttempts.toNat := by omega
        exact ⟨k + 1, .inr ⟨hk, hk ▸ hfailed'⟩, houtcome, hcalled⟩

theorem toNat_max_one (maxAttempts : UInt32) :
    (max maxAttempts 1).toNat = max 1 maxAttempts.toNat := by
  have hmax : max maxAttempts 1 = if maxAttempts ≤ 1 then 1 else maxAttempts := rfl
  have hone : (1 : UInt32).toNat = 1 := rfl
  rw [hmax]
  split
  · next hle =>
    rw [UInt32.le_iff_toNat_le] at hle
    omega
  · next hgt =>
    rw [UInt32.le_iff_toNat_le] at hgt
    omega

variable (operation state policy jitter) in
theorem executeWithRetry_spec :
    ∃ n, LastAttempt operation state (max 1 policy.maxAttempts.toNat) n ∧
      (policy.executeWithRetry jitter operation state).1 = outcome operation state n ∧
      Attempted operation state n (policy.executeWithRetry jitter operation state).2 := by
  rw [← toNat_max_one]
  refine retryLoop_spec rfl ?_ ⟨rfl, rfl⟩ (by omega)
  rw [toNat_max_one]
  omega

/-- Recording does not change what is done. -/
theorem retryLoopMetrics_fst {policyName : String} {maxAttempts attempt : UInt32}
    {execution : Execution σ} {metrics : RetryMetrics} :
    (policy.retryLoopMetrics jitter policyName operation metrics maxAttempts attempt execution).1 =
      policy.retryLoop jitter operation maxAttempts attempt execution := by
  induction hrest : maxAttempts.toNat - attempt.toNat using Nat.strong_induction_on
    generalizing attempt execution metrics with
  | _ rest ih =>
    rw [RetryPolicy.retryLoop, RetryPolicy.retryLoopMetrics]
    match execution.call operation attempt with
    | (.ok result, called) => rfl
    | (.error error, called) =>
      dsimp only
      split
      · next hmore => exact ih _ (hrest ▸ (toNat_sub_lt hmore).2) rfl
      · rfl

/-! ### The balance of the counters -/

/-- Every attempt ended in one of three ways, and every run in one of two. -/
def PolicyCounters.Balanced (counters : PolicyCounters) (runs : UInt64) : Prop :=
  counters.attempts = counters.successes + counters.retries + counters.exhausted ∧
    counters.successes + counters.exhausted = runs

end

@[simp] theorem RetryMetrics.countersFor_record (metrics : RetryMetrics) (policyName : String)
    (f : PolicyCounters → PolicyCounters) :
    (metrics.record policyName f).countersFor policyName = f (metrics.countersFor policyName) := by
  simp [record, countersFor]

theorem RetryMetrics.countersFor_record_of_ne {metrics : RetryMetrics} {policyName other : String}
    {f : PolicyCounters → PolicyCounters} (h : other ≠ policyName) :
    (metrics.record policyName f).countersFor other = metrics.countersFor other := by
  simp [record, countersFor, Function.update_of_ne h]

section
variable {metrics : RetryMetrics} {policyName other : String} {runs : UInt64} {attempt : UInt32}
  {backoff : UInt64}

theorem balanced_retry (h : (metrics.countersFor policyName).Balanced runs) :
    (((metrics.recordAttempt policyName).recordRetry policyName backoff).countersFor
      policyName).Balanced runs := by
  obtain ⟨hattempts, hruns⟩ := h
  simp only [RetryMetrics.recordRetry, RetryMetrics.recordAttempt, RetryMetrics.countersFor_record]
  exact ⟨by grind, hruns⟩

theorem balanced_success (h : (metrics.countersFor policyName).Balanced runs) :
    (((metrics.recordAttempt policyName).recordSuccess policyName attempt).countersFor
      policyName).Balanced (runs + 1) := by
  obtain ⟨hattempts, hruns⟩ := h
  simp only [RetryMetrics.recordSuccess, RetryMetrics.recordAttempt, RetryMetrics.countersFor_record]
  exact ⟨by grind, by grind⟩

theorem balanced_exhausted (h : (metrics.countersFor policyName).Balanced runs) :
    (((metrics.recordAttempt policyName).recordExhausted policyName).countersFor
      policyName).Balanced (runs + 1) := by
  obtain ⟨hattempts, hruns⟩ := h
  simp only [RetryMetrics.recordExhausted, RetryMetrics.recordAttempt,
    RetryMetrics.countersFor_record]
  exact ⟨by grind, by grind⟩

theorem countersFor_of_ne (backoff : UInt64) (attempt : UInt32) (h : other ≠ policyName) :
    ((metrics.recordAttempt policyName).recordRetry policyName backoff).countersFor other =
        metrics.countersFor other ∧
      ((metrics.recordAttempt policyName).recordSuccess policyName attempt).countersFor other =
        metrics.countersFor other ∧
      ((metrics.recordAttempt policyName).recordExhausted policyName).countersFor other =
        metrics.countersFor other := by
  simp only [RetryMetrics.recordRetry, RetryMetrics.recordSuccess, RetryMetrics.recordExhausted,
    RetryMetrics.recordAttempt, RetryMetrics.countersFor_record_of_ne h, and_self]

variable {σ T E : Type*} {policy : RetryPolicy} {jitter : UInt32 → UInt64 → UInt64}
  {operation : Operation σ T E}

/-- A run adds one to the runs under its name, and nothing under another. -/
theorem retryLoopMetrics_spec {maxAttempts : UInt32} {execution : Execution σ} {after : RetryMetrics}
    (hafter : (policy.retryLoopMetrics jitter policyName operation metrics maxAttempts attempt
      execution).2 = after) :
    ((metrics.countersFor policyName).Balanced runs →
        (after.countersFor policyName).Balanced (runs + 1)) ∧
      ∀ other ≠ policyName, after.countersFor other = metrics.countersFor other := by
  induction hrest : maxAttempts.toNat - attempt.toNat using Nat.strong_induction_on
    generalizing attempt execution metrics with
  | _ rest ih =>
    rw [RetryPolicy.retryLoopMetrics] at hafter
    match hcall : execution.call operation attempt with
    | (.ok result, called) =>
      rw [hcall] at hafter
      have hafter : (metrics.recordAttempt policyName).recordSuccess policyName attempt = after :=
        hafter
      subst hafter
      exact ⟨balanced_success, fun other hother => (countersFor_of_ne 0 attempt hother).2.1⟩
    | (.error error, called) =>
      rw [hcall] at hafter
      dsimp only at hafter
      split at hafter
      · next hmore =>
        obtain ⟨hbalanced, hothers⟩ := ih _ (hrest ▸ (toNat_sub_lt hmore).2) hafter rfl
        refine ⟨fun h => hbalanced (balanced_retry h), fun other hother => ?_⟩
        exact (hothers other hother).trans (countersFor_of_ne _ attempt hother).1
      · have hafter : (metrics.recordAttempt policyName).recordExhausted policyName = after := hafter
        subst hafter
        exact ⟨balanced_exhausted, fun other hother => (countersFor_of_ne 0 attempt hother).2.2⟩

end

/-! ### Histories -/

/-- A completed run of `execute_with_retry_metrics`. -/
structure MetricRun where
  {σ : Type}
  {T : Type}
  {E : Type}
  policyName : String
  policy : RetryPolicy
  jitter : UInt32 → UInt64 → UInt64
  operation : Operation σ T E
  state : σ

def RetryMetrics.afterRun (metrics : RetryMetrics) (run : MetricRun) : RetryMetrics :=
  (run.policy.executeWithRetryMetrics run.jitter run.policyName run.operation metrics run.state).2

def RetryMetrics.afterRuns (runs : List MetricRun) : RetryMetrics :=
  runs.foldl RetryMetrics.afterRun .default

theorem afterRun_balanced {metrics : RetryMetrics} {run : MetricRun} {policyName : String} {n : ℕ}
    (h : (metrics.countersFor policyName).Balanced (UInt64.ofNat n)) :
    ((metrics.afterRun run).countersFor policyName).Balanced
      (UInt64.ofNat (n + if run.policyName = policyName then 1 else 0)) := by
  have hrun : ((metrics.countersFor run.policyName).Balanced (UInt64.ofNat n) →
        ((metrics.afterRun run).countersFor run.policyName).Balanced (UInt64.ofNat n + 1)) ∧
      ∀ other ≠ run.policyName,
        (metrics.afterRun run).countersFor other = metrics.countersFor other :=
    retryLoopMetrics_spec rfl
  obtain ⟨hbalanced, hothers⟩ := hrun
  split
  · next hname =>
    subst hname
    rw [UInt64.ofNat_add]
    exact hbalanced h
  · next hname =>
    rw [hothers _ fun heq => hname heq.symm]
    exact h

theorem afterRuns_balanced (runs : List MetricRun) (policyName : String) :
    ((RetryMetrics.afterRuns runs).countersFor policyName).Balanced
      (UInt64.ofNat (runs.countP fun run => run.policyName = policyName)) := by
  induction runs using List.reverseRecOn with
  | nil => exact ⟨rfl, rfl⟩
  | append_singleton runs run ih =>
    rw [RetryMetrics.afterRuns, List.foldl_append, List.countP_append, List.countP_singleton]
    simp only [decide_eq_true_eq]
    exact afterRun_balanced ih

/-- Both executors make the attempts `1`, ..., `k` up to the last one and return what it returned; and
    over any history the counters of a name add up. -/
theorem executors_agree {σ T E : Type} (policy : RetryPolicy) (jitter : UInt32 → UInt64 → UInt64)
    (policyName : String) (operation : Operation σ T E) (state : σ) (metrics : RetryMetrics)
    (runs : List MetricRun) :
    (∃ k, LastAttempt operation state (max 1 policy.maxAttempts.toNat) k ∧
      (policy.executeWithRetry jitter operation state).1 = outcome operation state k ∧
      (policy.executeWithRetry jitter operation state).2.attempts =
        (List.range' 1 k).map UInt32.ofNat) ∧
    (policy.executeWithRetryMetrics jitter policyName operation metrics state).1 =
      policy.executeWithRetry jitter operation state ∧
    let counters := (RetryMetrics.afterRuns runs).countersFor policyName
    counters.attempts = counters.successes + counters.retries + counters.exhausted ∧
      counters.successes + counters.exhausted =
        UInt64.ofNat (runs.countP fun run => run.policyName = policyName) := by
  obtain ⟨k, hlast, houtcome, hattempted⟩ := executeWithRetry_spec operation state policy jitter
  exact ⟨⟨k, hlast, houtcome, hattempted.attempts_eq⟩, retryLoopMetrics_fst,
    afterRuns_balanced runs policyName⟩

end SorobanPulse.Notifications
