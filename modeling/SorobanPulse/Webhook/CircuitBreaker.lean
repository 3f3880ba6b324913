import Mathlib
import SorobanPulse.Lib.Run

/-! The circuit breaker of a webhook endpoint.

                       failures, failure rate
              Closed ────────────────────────▶ Open ◀──────────────┐
                ▲                               │ open_duration    │ failure
                └───────────── HalfOpen ◀───────┘ has elapsed      │
                  successes        └───────────────────────────────┘

    Times are nanoseconds. Counters wrap, as in a release build: only the count of successes in
    `HalfOpen` is relied on, and that one cannot. -/

namespace SorobanPulse.Webhook
open Lib

inductive CircuitBreakerState where
  | Closed
  | Open
  | HalfOpen
  deriving DecidableEq

structure CircuitBreakerConfig where
  failureThreshold : UInt32
  openDurationSecs : UInt64
  successThresholdHalfOpen : UInt32
  /-- Is `failures as f64 / requests.max(1) as f64` above the `failure_rate_threshold`? -/
  failureRateExceeded : UInt64 → UInt64 → Bool

def NANOS_PER_SEC : ℤ := 1000000000

/-- `Duration::num_seconds`. -/
def numSeconds (duration : ℤ) : ℤ := duration.tdiv NANOS_PER_SEC

structure EndpointCircuitBreaker where
  state : CircuitBreakerState
  failureCount : UInt32
  successCount : UInt32
  totalRequests : UInt64
  totalFailures : UInt64
  openedAt : Option ℤ
  halfOpenAt : Option ℤ
  config : CircuitBreakerConfig
  recentFailures : List ℤ

def EndpointCircuitBreaker.new (config : CircuitBreakerConfig) : EndpointCircuitBreaker where
  state := .Closed
  failureCount := 0
  successCount := 0
  totalRequests := 0
  totalFailures := 0
  openedAt := none
  halfOpenAt := none
  config := config
  recentFailures := []

def EndpointCircuitBreaker.recordSuccess (b : EndpointCircuitBreaker) : EndpointCircuitBreaker :=
  let b := { b with totalRequests := b.totalRequests + 1 }
  match b.state with
  | .Closed => { b with failureCount := 0 }
  | .HalfOpen =>
    let b := { b with successCount := b.successCount + 1 }
    if b.config.successThresholdHalfOpen ≤ b.successCount then
      { b with
        state := .Closed, failureCount := 0, successCount := 0, openedAt := none, halfOpenAt := none }
    else b
  | .Open => { b with successCount := b.successCount + 1 }

def EndpointCircuitBreaker.recordFailure (b : EndpointCircuitBreaker) (now : ℤ) :
    EndpointCircuitBreaker :=
  let b := { b with
    totalRequests := b.totalRequests + 1
    totalFailures := b.totalFailures + 1
    failureCount := b.failureCount + 1
    recentFailures := (b.recentFailures ++ [now]).filter fun t => now - 3600 * NANOS_PER_SEC < t }
  match b.state with
  | .Closed =>
    if b.config.failureThreshold ≤ b.failureCount ∨
        b.config.failureRateExceeded b.totalFailures b.totalRequests = true then
      { b with state := .Open, openedAt := some now }
    else b
  | .HalfOpen => { b with state := .Open, openedAt := some now, successCount := 0 }
  | .Open => b

/-- `open_duration_secs as i64`. -/
def CircuitBreakerConfig.openDuration (config : CircuitBreakerConfig) : ℤ :=
  config.openDurationSecs.toInt64.toInt

def EndpointCircuitBreaker.allowRequest (b : EndpointCircuitBreaker) (now : ℤ) :
    Bool × EndpointCircuitBreaker :=
  match b.state with
  | .Closed => (true, b)
  | .Open =>
    match b.openedAt with
    | some openedAt =>
      if b.config.openDuration ≤ numSeconds (now - openedAt) then
        (true, { b with state := .HalfOpen, halfOpenAt := some now, successCount := 0 })
      else (false, b)
    | none => (false, b)
  | .HalfOpen => (true, b)

/-- What `CircuitBreakerManager::reset` does to the breaker of an endpoint. -/
def EndpointCircuitBreaker.reset (b : EndpointCircuitBreaker) : EndpointCircuitBreaker :=
  { b with
    state := .Closed, failureCount := 0, successCount := 0, openedAt := none, halfOpenAt := none }

/-! ### Sequences of calls -/

inductive Operation where
  | allowRequest
  | recordSuccess
  | recordFailure
  | reset
  deriving DecidableEq

structure Call where
  operation : Operation
  now : ℤ

def EndpointCircuitBreaker.after (b : EndpointCircuitBreaker) (call : Call) :
    EndpointCircuitBreaker :=
  match call.operation with
  | .allowRequest => (b.allowRequest call.now).2
  | .recordSuccess => b.recordSuccess
  | .recordFailure => b.recordFailure call.now
  | .reset => b.reset

/-- A breaker, and what an observer has counted since it last became half open. -/
structure Observed where
  clock : ℤ
  breaker : EndpointCircuitBreaker
  successes : ℕ
  failures : ℕ

def Observed.new (config : CircuitBreakerConfig) (start : ℤ) : Observed := ⟨start, .new config, 0, 0⟩

/-- A call that does not come before the ones before it. -/
def Observed.step (s : Observed) (call : Call) : Option Observed :=
  if s.clock ≤ call.now then
    let after := s.breaker.after call
    some <|
      if s.breaker.state = .Open ∧ after.state = .HalfOpen then ⟨call.now, after, 0, 0⟩
      else
        { clock := call.now
          breaker := after
          successes := s.successes + if call.operation = .recordSuccess then 1 else 0
          failures := s.failures + if call.operation = .recordFailure then 1 else 0 }
  else none

/-- How long a breaker is meant to stay open. -/
def CircuitBreakerConfig.openNanos (config : CircuitBreakerConfig) : ℤ :=
  config.openDurationSecs.toNat * NANOS_PER_SEC

/-- An open breaker lets a request through once its time is over; a half open one closes after enough
    successes without a failure, and opens again at a failure. -/
structure StepSafe (s : Observed) (call : Call) (t : Observed) : Prop where
  gate : call.operation = .allowRequest → s.breaker.state = .Open →
    ∀ openedAt, s.breaker.openedAt = some openedAt →
      ((s.breaker.allowRequest call.now).1 = true ↔
        openedAt + s.breaker.config.openNanos ≤ call.now)
  close : s.breaker.state = .HalfOpen → t.breaker.state = .Closed → call.operation ≠ .reset →
    max 1 s.breaker.config.successThresholdHalfOpen.toNat ≤ t.successes ∧ t.failures = 0
  reopen : s.breaker.state = .HalfOpen → call.operation = .recordFailure →
    t.breaker.state = .Open ∧ t.breaker.openedAt = some call.now

/-- Wherever a sequence of calls leads: a breaker has an opening time iff it is not closed, and
    whatever comes next is safe. -/
def Safe (config : CircuitBreakerConfig) : Prop :=
  ∀ start calls s, AnyRun Observed.step (.new config start) calls s →
    (s.breaker.openedAt.isSome = true ↔ s.breaker.state ≠ .Closed) ∧
      ∀ call t, s.step call = some t → StepSafe s call t

/-! ### What a call does -/

section
variable {b : EndpointCircuitBreaker} {now : ℤ}

theorem recordSuccess_closed (h : b.state = .Closed) :
    b.recordSuccess.state = .Closed ∧ b.recordSuccess.openedAt = b.openedAt := by
  simp [EndpointCircuitBreaker.recordSuccess, h]

theorem recordSuccess_open (h : b.state = .Open) :
    b.recordSuccess.state = .Open ∧ b.recordSuccess.openedAt = b.openedAt := by
  simp [EndpointCircuitBreaker.recordSuccess, h]

/-- The success that completes the threshold closes the breaker. -/
theorem recordSuccess_halfOpen (h : b.state = .HalfOpen) :
    b.config.successThresholdHalfOpen ≤ b.successCount + 1 ∧
        b.recordSuccess.state = .Closed ∧ b.recordSuccess.openedAt = none ∨
      ¬b.config.successThresholdHalfOpen ≤ b.successCount + 1 ∧
        b.recordSuccess.state = .HalfOpen ∧ b.recordSuccess.openedAt = b.openedAt ∧
        b.recordSuccess.successCount = b.successCount + 1 := by
  rw [EndpointCircuitBreaker.recordSuccess, h]
  dsimp only
  split
  · next hle => exact .inl ⟨hle, rfl, rfl⟩
  · next hle => exact .inr ⟨hle, rfl, rfl, rfl⟩

@[simp] theorem config_recordSuccess : b.recordSuccess.config = b.config := by
  rw [EndpointCircuitBreaker.recordSuccess]
  dsimp only
  split
  · rfl
  · split <;> rfl
  · rfl

theorem recordFailure_closed (now : ℤ) (h : b.state = .Closed) :
    (b.recordFailure now).state = .Closed ∧ (b.recordFailure now).openedAt = b.openedAt ∧
        (b.recordFailure now).failureCount = b.failureCount + 1 ∧
        ¬b.config.failureThreshold ≤ b.failureCount + 1 ∨
      (b.recordFailure now).state = .Open ∧ (b.recordFailure now).openedAt = some now := by
  rw [EndpointCircuitBreaker.recordFailure, h]
  dsimp only
  split
  · exact .inr ⟨rfl, rfl⟩
  · next hthreshold => exact .inl ⟨rfl, rfl, rfl, fun h => hthreshold (.inl h)⟩

theorem recordFailure_open (now : ℤ) (h : b.state = .Open) :
    (b.recordFailure now).state = .Open ∧ (b.recordFailure now).openedAt = b.openedAt := by
  simp [EndpointCircuitBreaker.recordFailure, h]

theorem recordFailure_halfOpen (h : b.state = .HalfOpen) :
    (b.recordFailure now).state = .Open ∧ (b.recordFailure now).openedAt = some now := by
  simp [EndpointCircuitBreaker.recordFailure, h]

@[simp] theorem config_recordFailure : (b.recordFailure now).config = b.config := by
  rw [EndpointCircuitBreaker.recordFailure]
  dsimp only
  split
  · split <;> rfl
  · rfl
  · rfl

/-- A request leaves the breaker alone, or makes an open one half open. -/
theorem allowRequest_cases (b : EndpointCircuitBreaker) (now : ℤ) : (b.allowRequest now).2 = b ∨
    b.state = .Open ∧ (b.allowRequest now).2 =
      { b with state := .HalfOpen, halfOpenAt := some now, successCount := 0 } := by
  rw [EndpointCircuitBreaker.allowRequest]
  split
  · exact .inl rfl
  · next hstate =>
    split
    · split
      · exact .inr ⟨hstate, rfl⟩
      · exact .inl rfl
    · exact .inl rfl
  · exact .inl rfl

theorem allowRequest_open {openedAt : ℤ} (hstate : b.state = .Open)
    (hopened : b.openedAt = some openedAt) :
    (b.allowRequest now).1 = true ↔ b.config.openDuration ≤ numSeconds (now - openedAt) := by
  rw [EndpointCircuitBreaker.allowRequest, hstate, hopened]
  dsimp only
  split
  · next h => simp [h]
  · next h => simp [h]

@[simp] theorem config_allowRequest : (b.allowRequest now).2.config = b.config := by
  obtain h | ⟨-, h⟩ := allowRequest_cases b now <;> rw [h]

variable {call : Call}

@[simp] theorem config_after : (b.after call).config = b.config := by
  rw [EndpointCircuitBreaker.after]
  split
  · exact config_allowRequest
  · exact config_recordSuccess
  · exact config_recordFailure
  · rfl

theorem after_closed (call : Call) (h : b.state = .Closed) :
    (b.after call).state = .Closed ∧
        ((b.after call).openedAt = b.openedAt ∨ (b.after call).openedAt = none) ∨
      (b.after call).state = .Open ∧ (b.after call).openedAt = some call.now := by
  rw [EndpointCircuitBreaker.after]
  split
  · have hsame : (b.allowRequest call.now).2 = b := by simp [EndpointCircuitBreaker.allowRequest, h]
    rw [hsame]
    exact .inl ⟨h, .inl rfl⟩
  · have hsuccess := recordSuccess_closed h
    exact .inl ⟨hsuccess.1, .inl hsuccess.2⟩
  · obtain ⟨hstate, hopened, -, -⟩ | hopen := recordFailure_closed call.now h
    · exact .inl ⟨hstate, .inl hopened⟩
    · exact .inr hopen
  · exact .inl ⟨rfl, .inr rfl⟩

theorem after_open (call : Call) (h : b.state = .Open) :
    (b.after call).state = .Open ∧ (b.after call).openedAt = b.openedAt ∨
      (b.after call).state = .HalfOpen ∧ (b.after call).openedAt = b.openedAt ∧
        (b.after call).successCount = 0 ∨
      (b.after call).state = .Closed ∧ (b.after call).openedAt = none := by
  rw [EndpointCircuitBreaker.after]
  split
  · obtain hsame | ⟨-, hhalf⟩ := allowRequest_cases b call.now
    · exact .inl (by rw [hsame]; exact ⟨h, rfl⟩)
    · exact .inr (.inl (by rw [hhalf]; exact ⟨rfl, rfl, rfl⟩))
  · exact .inl (recordSuccess_open h)
  · exact .inl (recordFailure_open call.now h)
  · exact .inr (.inr ⟨rfl, rfl⟩)

/-- A half open breaker stays so only under requests, and successes short of the threshold. -/
theorem after_halfOpen (call : Call) (h : b.state = .HalfOpen) :
    call.operation = .allowRequest ∧ b.after call = b ∨
      call.operation = .recordSuccess ∧ b.after call = b.recordSuccess ∨
      call.operation = .recordFailure ∧ (b.after call).state = .Open ∧
        (b.after call).openedAt = some call.now ∨
      call.operation = .reset ∧ (b.after call).state = .Closed ∧ (b.after call).openedAt = none := by
  rw [EndpointCircuitBreaker.after]
  split
  · next hop =>
    have hsame : (b.allowRequest call.now).2 = b := by simp [EndpointCircuitBreaker.allowRequest, h]
    exact .inl ⟨hop, hsame⟩
  · next hop => exact .inr (.inl ⟨hop, rfl⟩)
  · next hop => exact .inr (.inr (.inl ⟨hop, recordFailure_halfOpen h⟩))
  · next hop => exact .inr (.inr (.inr ⟨hop, rfl, rfl⟩))

end

/-! ### The invariant -/

section
variable {config : CircuitBreakerConfig} {s t : Observed} {call : Call}

/-- In `HalfOpen` the breaker's count is the observer's, and short of the threshold. -/
structure Guarded (config : CircuitBreakerConfig) (s : Observed) : Prop where
  sameConfig : s.breaker.config = config
  opened : s.breaker.openedAt.isSome = true ↔ s.breaker.state ≠ .Closed
  past : ∀ openedAt, s.breaker.openedAt = some openedAt → openedAt ≤ s.clock
  counted : s.breaker.state = .HalfOpen → s.breaker.successCount.toNat = s.successes ∧
    s.successes < max 1 config.successThresholdHalfOpen.toNat ∧ s.failures = 0

theorem guarded_new (config : CircuitBreakerConfig) (start : ℤ) :
    Guarded config (.new config start) where
  sameConfig := rfl
  opened := by simp [Observed.new, EndpointCircuitBreaker.new]
  past := nofun
  counted := nofun

theorem Observed.step_spec (h : s.step call = some t) :
    s.clock ≤ call.now ∧ t.clock = call.now ∧ t.breaker = s.breaker.after call ∧
      if s.breaker.state = .Open ∧ t.breaker.state = .HalfOpen then t.successes = 0 ∧ t.failures = 0
      else t.successes = (s.successes + if call.operation = .recordSuccess then 1 else 0) ∧
        t.failures = s.failures + if call.operation = .recordFailure then 1 else 0 := by
  rw [Observed.step] at h
  split at h
  · next hnow =>
    obtain rfl := Option.some.inj h
    refine ⟨hnow, ?_⟩
    split
    · exact ⟨rfl, rfl, rfl, rfl⟩
    · exact ⟨rfl, rfl, rfl, rfl⟩
  · cases h

/-- Opening times are those of calls that were made. -/
theorem Guarded.past_step (hguarded : Guarded config s) (h : s.step call = some t)
    (hopened : t.breaker.openedAt = s.breaker.openedAt ∨ t.breaker.openedAt = none ∨
      t.breaker.openedAt = some call.now) :
    ∀ openedAt, t.breaker.openedAt = some openedAt → openedAt ≤ t.clock := by
  obtain ⟨hnow, hclock, -, -⟩ := Observed.step_spec h
  intro openedAt hsome
  obtain hsame | hnone | hfresh := hopened
  · exact hclock ▸ (hguarded.past openedAt (hsame ▸ hsome)).trans hnow
  · rw [hnone] at hsome
    cases hsome
  · rw [hfresh] at hsome
    rw [← Option.some.inj hsome, hclock]

/-- A success short of the threshold adds one to a count that does not wrap. -/
theorem toNat_add_one_lt {count threshold : UInt32} (h : ¬threshold ≤ count + 1)
    (hlt : count.toNat < max 1 threshold.toNat) :
    (count + 1).toNat = count.toNat + 1 ∧ count.toNat + 1 < threshold.toNat := by
  rw [UInt32.le_iff_toNat_le] at h
  have hthreshold := threshold.toNat_lt
  rw [UInt32.toNat_add] at h ⊢
  have hone : (1 : UInt32).toNat = 1 := rfl
  rw [hone] at h ⊢
  omega

/-- The success that completes the threshold. -/
theorem le_add_one_of_threshold_le {count threshold : UInt32} (h : threshold ≤ count + 1) :
    max 1 threshold.toNat ≤ count.toNat + 1 := by
  rw [UInt32.le_iff_toNat_le, UInt32.toNat_add] at h
  have hone : (1 : UInt32).toNat = 1 := rfl
  have hmod := Nat.mod_le (count.toNat + 1) (2 ^ 32)
  rw [hone] at h
  omega

theorem guarded_step_closed (hguarded : Guarded config s) (h : s.step call = some t)
    (hclosed : s.breaker.state = .Closed) : Guarded config t := by
  obtain ⟨-, -, hbreaker, -⟩ := Observed.step_spec h
  have hnone : s.breaker.openedAt = none := by
    have hopened := hguarded.opened
    rw [hclosed] at hopened
    simpa using hopened
  have hconfig : t.breaker.config = config := by
    rw [hbreaker, config_after]
    exact hguarded.sameConfig
  obtain ⟨hstate, hopened⟩ | ⟨hstate, hopened⟩ := after_closed call hclosed
  · rw [hnone, or_self] at hopened
    rw [← hbreaker] at hstate hopened
    exact {
      sameConfig := hconfig
      opened := by simp [hstate, hopened]
      past := hguarded.past_step h (.inr (.inl hopened))
      counted := by simp [hstate] }
  · rw [← hbreaker] at hstate hopened
    exact {
      sameConfig := hconfig
      opened := by simp [hstate, hopened]
      past := hguarded.past_step h (.inr (.inr hopened))
      counted := by simp [hstate] }

theorem guarded_step_open (hguarded : Guarded config s) (h : s.step call = some t)
    (hopen : s.breaker.state = .Open) : Guarded config t := by
  obtain ⟨-, -, hbreaker, hcounts⟩ := Observed.step_spec h
  have hsome : s.breaker.openedAt.isSome = true := hguarded.opened.mpr (by simp [hopen])
  have hconfig : t.breaker.config = config := by
    rw [hbreaker, config_after]
    exact hguarded.sameConfig
  obtain ⟨hstate, hopened⟩ | ⟨hstate, hopened, hcount⟩ | ⟨hstate, hopened⟩ :=
    after_open call hopen
  · rw [← hbreaker] at hstate hopened
    exact {
      sameConfig := hconfig
      opened := by simp [hstate, hopened, hsome]
      past := hguarded.past_step h (.inl hopened)
      counted := by simp [hstate] }
  · rw [← hbreaker] at hstate hopened hcount
    rw [if_pos ⟨hopen, hstate⟩] at hcounts
    exact {
      sameConfig := hconfig
      opened := by simp [hstate, hopened, hsome]
      past := hguarded.past_step h (.inl hopened)
      counted := fun _ => ⟨by rw [hcount, hcounts.1]; rfl, by rw [hcounts.1]; omega, hcounts.2⟩ }
  · rw [← hbreaker] at hstate hopened
    exact {
      sameConfig := hconfig
      opened := by simp [hstate, hopened]
      past := hguarded.past_step h (.inr (.inl hopened))
      counted := by simp [hstate] }

theorem guarded_step_halfOpen (hguarded : Guarded config s) (h : s.step call = some t)
    (hhalf : s.breaker.state = .HalfOpen) : Guarded config t := by
  obtain ⟨-, -, hbreaker, hcounts⟩ := Observed.step_spec h
  have hsome : s.breaker.openedAt.isSome = true := hguarded.opened.mpr (by simp [hhalf])
  obtain ⟨hsame, hlt, hfailures⟩ := hguarded.counted hhalf
  rw [if_neg fun hopen => by simp [hhalf] at hopen] at hcounts
  have hconfig : t.breaker.config = config := by
    rw [hbreaker, config_after]
    exact hguarded.sameConfig
  obtain ⟨hop, hafter⟩ | ⟨hop, hafter⟩ | ⟨hop, hstate, hopened⟩ | ⟨hop, hstate, hopened⟩ :=
    after_halfOpen call hhalf
  · -- the request is let through, and the breaker stays as it is
    rw [← hbreaker] at hafter
    simp only [hop, reduceCtorEq, if_false, Nat.add_zero] at hcounts
    exact {
      sameConfig := hconfig
      opened := hafter ▸ hguarded.opened
      past := hguarded.past_step h (.inl (by rw [hafter]))
      counted := fun _ => by rw [hafter, hcounts.1, hcounts.2]; exact ⟨hsame, hlt, hfailures⟩ }
  · rw [hop] at hcounts
    obtain ⟨-, hstate, hopened⟩ | ⟨hshort, hstate, hopened, hcount⟩ :=
      recordSuccess_halfOpen hhalf
    · -- the last success that was missing closes it
      rw [← hafter, ← hbreaker] at hstate hopened
      exact {
        sameConfig := hconfig
        opened := by simp [hstate, hopened]
        past := hguarded.past_step h (.inr (.inl hopened))
        counted := by simp [hstate] }
    · -- one success more, and still short of the threshold
      rw [← hafter, ← hbreaker] at hstate hopened hcount
      rw [hguarded.sameConfig] at hshort
      obtain ⟨hadd, hadd_lt⟩ := toNat_add_one_lt hshort (hsame ▸ hlt)
      exact {
        sameConfig := hconfig
        opened := by simp [hstate, hopened, hsome]
        past := hguarded.past_step h (.inl hopened)
        counted := fun _ => by
          rw [hcount, hcounts.1, hcounts.2, hadd, hsame]
          exact ⟨rfl, by simp; omega, hfailures⟩ }
  · -- a failure opens it again
    rw [← hbreaker] at hstate hopened
    exact {
      sameConfig := hconfig
      opened := by simp [hstate, hopened]
      past := hguarded.past_step h (.inr (.inr hopened))
      counted := by simp [hstate] }
  · -- a reset closes it
    rw [← hbreaker] at hstate hopened
    exact {
      sameConfig := hconfig
      opened := by simp [hstate, hopened]
      past := hguarded.past_step h (.inr (.inl hopened))
      counted := by simp [hstate] }

theorem guarded_step (hguarded : Guarded config s) (h : s.step call = some t) : Guarded config t := by
  cases hstate : s.breaker.state with
  | Closed => exact guarded_step_closed hguarded h hstate
  | Open => exact guarded_step_open hguarded h hstate
  | HalfOpen => exact guarded_step_halfOpen hguarded h hstate

/-! ### Safety -/

theorem Guarded.close (hguarded : Guarded config s) (h : s.step call = some t)
    (hhalf : s.breaker.state = .HalfOpen) (hclosed : t.breaker.state = .Closed)
    (hop : call.operation ≠ .reset) :
    max 1 s.breaker.config.successThresholdHalfOpen.toNat ≤ t.successes ∧ t.failures = 0 := by
  obtain ⟨-, -, hbreaker, hcounts⟩ := Observed.step_spec h
  obtain ⟨hsame, -, hfailures⟩ := hguarded.counted hhalf
  rw [if_neg fun hopen => by simp [hhalf] at hopen] at hcounts
  obtain ⟨-, hafter⟩ | ⟨hsuccess, hafter⟩ | ⟨-, hstate, -⟩ | ⟨hreset, -, -⟩ :=
    after_halfOpen call hhalf
  · rw [hbreaker, hafter, hhalf] at hclosed
    cases hclosed
  · obtain ⟨hthreshold, -, -⟩ | ⟨-, hstate, -, -⟩ := recordSuccess_halfOpen hhalf
    · have hle := le_add_one_of_threshold_le hthreshold
      rw [hsuccess] at hcounts
      rw [hcounts.1, hcounts.2, ← hsame]
      exact ⟨hle, hfailures⟩
    · rw [hbreaker, hafter, hstate] at hclosed
      cases hclosed
  · rw [hbreaker, hstate] at hclosed
    cases hclosed
  · exact absurd hreset hop

theorem Guarded.reopen (h : s.step call = some t) (hhalf : s.breaker.state = .HalfOpen)
    (hop : call.operation = .recordFailure) :
    t.breaker.state = .Open ∧ t.breaker.openedAt = some call.now := by
  obtain ⟨-, -, hbreaker, -⟩ := Observed.step_spec h
  rw [hbreaker, EndpointCircuitBreaker.after, hop]
  exact recordFailure_halfOpen hhalf

/-- A duration below `2 ^ 63` seconds survives the cast. -/
theorem openDuration_eq (h : config.openDurationSecs.toNat < 2 ^ 63) :
    config.openDuration = config.openDurationSecs.toNat := by
  rw [CircuitBreakerConfig.openDuration, ← Int64.toInt_toBitVec, UInt64.toBitVec_toInt64,
    BitVec.toInt_eq_toNat_of_lt]
  · rfl
  · have hnat : config.openDurationSecs.toBitVec.toNat = config.openDurationSecs.toNat := rfl
    omega

/-- A longer one becomes negative. -/
theorem openDuration_neg (h : 2 ^ 63 ≤ config.openDurationSecs.toNat) :
    config.openDuration < 0 := by
  have hlt := config.openDurationSecs.toNat_lt
  have hnat : config.openDurationSecs.toBitVec.toNat = config.openDurationSecs.toNat := rfl
  rw [CircuitBreakerConfig.openDuration, ← Int64.toInt_toBitVec, UInt64.toBitVec_toInt64,
    BitVec.toInt_eq_toNat_cond]
  split <;> omega

/-- Whole seconds have passed exactly when their nanoseconds have. -/
theorem le_numSeconds_iff {seconds : ℕ} {elapsed : ℤ} (h : 0 ≤ elapsed) :
    (seconds : ℤ) ≤ numSeconds elapsed ↔ seconds * NANOS_PER_SEC ≤ elapsed := by
  rw [numSeconds, Int.tdiv_eq_ediv_of_nonneg h]
  exact Int.le_ediv_iff_mul_le (by decide)

theorem Guarded.gate (hguarded : Guarded config s) (hnow : s.clock ≤ call.now)
    (hduration : config.openDurationSecs.toNat < 2 ^ 63) (hopen : s.breaker.state = .Open)
    {openedAt : ℤ} (hopened : s.breaker.openedAt = some openedAt) :
    (s.breaker.allowRequest call.now).1 = true ↔
      openedAt + s.breaker.config.openNanos ≤ call.now := by
  have hpast := (hguarded.past openedAt hopened).trans hnow
  rw [allowRequest_open hopen hopened, hguarded.sameConfig, openDuration_eq hduration,
    le_numSeconds_iff (by omega), CircuitBreakerConfig.openNanos]
  omega

theorem Guarded.stepSafe (hguarded : Guarded config s)
    (hduration : config.openDurationSecs.toNat < 2 ^ 63) (h : s.step call = some t) :
    StepSafe s call t where
  gate := fun _ hopen _ hopened => hguarded.gate (Observed.step_spec h).1 hduration hopen hopened
  close := hguarded.close h
  reopen := Guarded.reopen h

theorem safe_of_lt (hduration : config.openDurationSecs.toNat < 2 ^ 63) : Safe config := by
  intro start calls s hrun
  have hguarded : Guarded config s :=
    hrun.invariant (fun _ h hguarded => guarded_step hguarded h) (guarded_new config start)
  exact ⟨hguarded.opened, fun call t h => hguarded.stepSafe hduration h⟩

/-! ### A duration that the cast makes negative -/

/-- `k` failures into the run that opens the breaker. -/
structure Failing (config : CircuitBreakerConfig) (k : ℕ) (s : Observed) : Prop where
  clock : s.clock = 0
  sameConfig : s.breaker.config = config
  shape : s.breaker.state = .Open ∧ s.breaker.openedAt = some 0 ∨
    s.breaker.state = .Closed ∧ s.breaker.failureCount.toNat = k ∧
      k < max 1 config.failureThreshold.toNat

theorem failing_step {k : ℕ} (hfailing : Failing config k s) :
    ∃ t, s.step ⟨.recordFailure, 0⟩ = some t ∧ Failing config (k + 1) t := by
  have hsome : (s.step ⟨.recordFailure, 0⟩).isSome = true := by
    simp [Observed.step, hfailing.clock]
  obtain ⟨t, ht⟩ := Option.isSome_iff_exists.mp hsome
  obtain ⟨-, hclock, hbreaker, -⟩ := Observed.step_spec ht
  have hbreaker : t.breaker = s.breaker.recordFailure 0 := hbreaker
  refine ⟨t, ht, hclock, ?_, ?_⟩
  · rw [hbreaker, config_recordFailure]
    exact hfailing.sameConfig
  · rw [hbreaker]
    obtain ⟨hopen, hopened⟩ | ⟨hclosed, hcount, hlt⟩ := hfailing.shape
    · have hstill := recordFailure_open 0 hopen
      exact .inl ⟨hstill.1, hstill.2.trans hopened⟩
    · obtain ⟨hstate, -, hadd, hshort⟩ | hopen := recordFailure_closed 0 hclosed
      · rw [hfailing.sameConfig] at hshort
        obtain ⟨hadd', hadd_lt⟩ := toNat_add_one_lt hshort (hcount ▸ hlt)
        exact .inr ⟨hstate, by rw [hadd, hadd', hcount], by omega⟩
      · exact .inl hopen

theorem failing_run (config : CircuitBreakerConfig) (k : ℕ) :
    ∃ s, AnyRun Observed.step (.new config 0) (List.replicate k ⟨.recordFailure, 0⟩) s ∧
      Failing config k s := by
  induction k with
  | zero => exact ⟨_, .nil _, rfl, rfl, .inr ⟨rfl, rfl, by omega⟩⟩
  | succ k ih =>
    obtain ⟨s, hrun, hfailing⟩ := ih
    obtain ⟨t, ht, hnext⟩ := failing_step hfailing
    refine ⟨t, ?_, hnext⟩
    rw [List.replicate_succ']
    exact hrun.append (.cons trivial ht (.nil t))

/-- Enough failures open any breaker. -/
theorem exists_open (config : CircuitBreakerConfig) :
    ∃ calls s, AnyRun Observed.step (.new config 0) calls s ∧ s.clock = 0 ∧
      s.breaker.config = config ∧ s.breaker.state = .Open ∧ s.breaker.openedAt = some 0 := by
  obtain ⟨s, hrun, hfailing⟩ := failing_run config (max 1 config.failureThreshold.toNat)
  obtain ⟨hopen, hopened⟩ | ⟨-, -, hlt⟩ := hfailing.shape
  · exact ⟨_, s, hrun, hfailing.clock, hfailing.sameConfig, hopen, hopened⟩
  · exact absurd hlt (lt_irrefl _)

theorem not_safe_of_le (hduration : 2 ^ 63 ≤ config.openDurationSecs.toNat) : ¬Safe config := by
  intro hsafe
  obtain ⟨calls, s, hrun, hclock, hconfig, hopen, hopened⟩ := exists_open config
  have hsome : (s.step ⟨.allowRequest, 0⟩).isSome = true := by simp [Observed.step, hclock]
  obtain ⟨t, ht⟩ := Option.isSome_iff_exists.mp hsome
  have hgate := ((hsafe 0 calls s hrun).2 _ t ht).gate rfl hopen 0 hopened
  have hlet : (s.breaker.allowRequest 0).1 = true := by
    rw [allowRequest_open hopen hopened, hconfig]
    have hneg := openDuration_neg hduration
    have hzero : numSeconds (0 - 0) = 0 := by decide
    omega
  have hearly : 0 + s.breaker.config.openNanos ≤ 0 := hgate.mp hlet
  rw [hconfig, CircuitBreakerConfig.openNanos, NANOS_PER_SEC] at hearly
  omega

end

/-- A breaker is safe exactly when its open duration survives the cast to `i64`. -/
theorem safe_iff (config : CircuitBreakerConfig) :
    Safe config ↔ config.openDurationSecs.toNat < 2 ^ 63 := by
  refine ⟨fun hsafe => ?_, safe_of_lt⟩
  by_contra hge
  exact not_safe_of_le (Nat.not_lt.mp hge) hsafe

/-- One failure opens the breaker for ever; the next request goes through. -/
theorem not_safe_max :
    ¬Safe { failureThreshold := 1, openDurationSecs := 18446744073709551615,
            successThresholdHalfOpen := 1, failureRateExceeded := fun _ _ => false } :=
  not_safe_of_le (by decide)

end SorobanPulse.Webhook
