import Mathlib
import SorobanPulse.Ingest.CursorExpiry
import SorobanPulse.Notifications.RetryPolicy

/-! Delays are capped after a product that may have wrapped.

    A cap turns every product into at most `max`. Whether it is the right one depends on the low 64
    bits only: past `2 ^ 64` the true product is over any cap, its low bits need not be. -/

namespace SorobanPulse.Notifications
open Ingest

/-- The backoff after `k` calls of `next_backoff`. -/
def backoffAfter (backoff : CursorExpiryBackoff) : ℕ → CursorExpiryBackoff
  | 0 => backoff
  | k + 1 => (backoffAfter backoff k).nextBackoff.2

/-- What the call after `k` calls returns. -/
def backoffAt (backoff : CursorExpiryBackoff) (k : ℕ) : UInt64 :=
  (backoffAfter backoff k).nextBackoff.1

/-- The delay after `k` calls doubles the initial one `k` times, up to the maximum. -/
def DoublesAt (initial max : UInt64) (maxRetries : UInt32) (k : ℕ) : Prop :=
  (backoffAt (.withConfig initial max maxRetries) k).toNat =
    min (initial.toNat * 2 ^ k) max.toNat

/-- The delay of a linear or fixed strategy before the cap, with nothing lost. -/
def RetryPolicy.exactBackoff (policy : RetryPolicy) (attempt : UInt32) : ℕ :=
  match policy.strategy with
  | some .Linear => policy.initialBackoffMs.toNat * attempt.toNat
  | _ => policy.initialBackoffMs.toNat

/-- Without jitter, linear and fixed delays are computed without overflow, capped, and do not shrink
    from one attempt to a later one. -/
def RetryPolicy.Total (policy : RetryPolicy) : Prop :=
  ∀ strategy, policy.strategy = some strategy → strategy ≠ .Exponential → policy.useJitter = false →
    ∀ jitter attempt,
      (strategy.calculateBackoff policy.exponential attempt policy.initialBackoffMs).toNat =
          policy.exactBackoff attempt ∧
        policy.calculateBackoff jitter attempt ≤ policy.maxBackoffMs ∧
        ∀ later, attempt ≤ later →
          policy.calculateBackoff jitter attempt ≤ policy.calculateBackoff jitter later

/-! ### Words -/

theorem toNat_two_pow (n : ℕ) : ((2 : UInt64) ^ n).toNat = 2 ^ n % 2 ^ 64 := by
  induction n with
  | zero => rfl
  | succ n ih =>
    have htwo : (2 : UInt64).toNat = 2 := rfl
    rw [pow_succ, UInt64.toNat_mul, ih, htwo, Nat.mod_mul_mod, ← Nat.pow_succ]

theorem toNat_mul_two_pow (initial : UInt64) (n : ℕ) :
    (initial * 2 ^ n).toNat = initial.toNat * 2 ^ n % 2 ^ 64 := by
  rw [UInt64.toNat_mul, toNat_two_pow, Nat.mul_mod_mod]

theorem toNat_min (a b : UInt64) : (min a b).toNat = min a.toNat b.toNat := by
  have hmin : min a b = if a ≤ b then a else b := rfl
  rw [hmin]
  split
  · next hle =>
    rw [UInt64.le_iff_toNat_le] at hle
    omega
  · next hgt =>
    rw [UInt64.le_iff_toNat_le] at hgt
    omega

/-! ### Cursor expiry -/

theorem backoffAfter_spec (backoff : CursorExpiryBackoff) (k : ℕ) :
    (backoffAfter backoff k).initialBackoffMs = backoff.initialBackoffMs ∧
      (backoffAfter backoff k).maxBackoffMs = backoff.maxBackoffMs ∧
      (backoffAfter backoff k).retryCount = backoff.retryCount + UInt32.ofNat k := by
  induction k with
  | zero => exact ⟨rfl, rfl, (UInt32.add_zero _).symm⟩
  | succ k ih =>
    obtain ⟨hinitial, hmax, hcount⟩ := ih
    refine ⟨hinitial, hmax, ?_⟩
    have hnext : (backoffAfter backoff (k + 1)).retryCount =
        (backoffAfter backoff k).retryCount + 1 := rfl
    rw [hnext, hcount, UInt32.ofNat_add, UInt32.add_assoc]
    rfl

section
variable (initial max : UInt64) (maxRetries : UInt32) (k : ℕ)

theorem toNat_backoffAt : (backoffAt (.withConfig initial max maxRetries) k).toNat =
    min (initial.toNat * 2 ^ ((k + 1) % 2 ^ 32 - 1) % 2 ^ 64) max.toNat := by
  obtain ⟨hinitial, hmax, hcount⟩ :=
    backoffAfter_spec (.withConfig initial max maxRetries) k
  have hretries : ((backoffAfter (.withConfig initial max maxRetries) k).retryCount + 1).toNat =
      (k + 1) % 2 ^ 32 := by
    have hone : (1 : UInt32) = UInt32.ofNat 1 := rfl
    rw [hcount, hone, UInt32.add_assoc, ← UInt32.ofNat_add]
    simp only [CursorExpiryBackoff.withConfig, UInt32.zero_add]
    exact UInt32.toNat_ofNat'
  rw [backoffAt, CursorExpiryBackoff.nextBackoff]
  simp only [hretries, hinitial, hmax, toNat_min, toNat_mul_two_pow]
  rfl

/-- Right unless the product overflows and its low bits are below the cap. -/
theorem doublesAt_iff : DoublesAt initial max maxRetries k ↔
    initial.toNat * 2 ^ k < 2 ^ 64 ∨
      max.toNat ≤ initial.toNat * 2 ^ ((k + 1) % 2 ^ 32 - 1) % 2 ^ 64 := by
  rw [DoublesAt, toNat_backoffAt]
  have hmax := max.toNat_lt
  by_cases hlt : initial.toNat * 2 ^ k < 2 ^ 64
  · have hsame : initial.toNat * 2 ^ ((k + 1) % 2 ^ 32 - 1) = initial.toNat * 2 ^ k := by
      obtain hzero | hpos := Nat.eq_zero_or_pos initial.toNat
      · rw [hzero, Nat.zero_mul, Nat.zero_mul]
      · have hpow : 2 ^ k < 2 ^ 64 := lt_of_le_of_lt (Nat.le_mul_of_pos_left _ hpos) hlt
        have hsmall := (Nat.pow_lt_pow_iff_right (by decide : 1 < 2)).mp hpow
        rw [Nat.mod_eq_of_lt (by omega), Nat.add_sub_cancel]
    rw [hsame, Nat.mod_eq_of_lt hlt]
    exact iff_of_true rfl (.inl hlt)
  · have hcap : min (initial.toNat * 2 ^ k) max.toNat = max.toNat := by omega
    rw [hcap, min_eq_right_iff]
    exact ⟨.inr, fun h => h.resolve_left hlt⟩

/-- The 65th delay is 0 whatever the configuration. -/
theorem forall_doublesAt_iff :
    (∀ k, DoublesAt initial max maxRetries k) ↔ initial = 0 ∨ max = 0 := by
  constructor
  · intro h
    have hzero : initial.toNat * 2 ^ ((64 + 1) % 2 ^ 32 - 1) % 2 ^ 64 = 0 := Nat.mul_mod_left _ _
    obtain hlt | hle := (doublesAt_iff initial max maxRetries 64).mp (h 64)
    · have hinitial : initial.toNat = 0 := by omega
      exact .inl (UInt64.toNat_inj.mp hinitial)
    · have hmax : max.toNat = 0 := by omega
      exact .inr (UInt64.toNat_inj.mp hmax)
  · rintro (rfl | rfl) k
    · exact (doublesAt_iff _ _ _ k).mpr (.inl (by simp))
    · exact (doublesAt_iff _ _ _ k).mpr (.inr (Nat.zero_le _))

end

/-! ### Retry policies -/

section
variable {policy : RetryPolicy} {jitter : UInt64 → UInt64} {attempt later : UInt32}

theorem calculateBackoff_eq {strategy : RetryStrategy} (hjitter : policy.useJitter = false)
    (hstrategy : policy.strategy = some strategy) :
    policy.calculateBackoff jitter attempt =
      if attempt = 0 ∨ policy.initialBackoffMs = 0 then 0
      else min (strategy.calculateBackoff policy.exponential attempt policy.initialBackoffMs)
        policy.maxBackoffMs := by
  simp [RetryPolicy.calculateBackoff, hjitter, hstrategy]

/-- Without overflow the capped delay is that of the integers. -/
theorem toNat_calculateBackoff {strategy : RetryStrategy} (hjitter : policy.useJitter = false)
    (hstrategy : policy.strategy = some strategy)
    (hexact : (strategy.calculateBackoff policy.exponential attempt policy.initialBackoffMs).toNat =
      policy.exactBackoff attempt) :
    (policy.calculateBackoff jitter attempt).toNat =
      if attempt = 0 then 0 else min (policy.exactBackoff attempt) policy.maxBackoffMs.toNat := by
  rw [calculateBackoff_eq hjitter hstrategy]
  by_cases hattempt : attempt = 0
  · simp [hattempt]
  · rw [if_neg hattempt]
    by_cases hinitial : policy.initialBackoffMs = 0
    · have hzero : policy.exactBackoff attempt = 0 := by
        rw [RetryPolicy.exactBackoff, hinitial]
        split <;> simp
      simp [hinitial, hzero]
    · rw [if_neg (by simp [hattempt, hinitial]), toNat_min, hexact]

theorem exactBackoff_mono (h : attempt ≤ later) :
    policy.exactBackoff attempt ≤ policy.exactBackoff later := by
  rw [UInt32.le_iff_toNat_le] at h
  simp only [RetryPolicy.exactBackoff]
  split
  · exact Nat.mul_le_mul_left _ h
  · exact le_rfl

theorem calculateBackoff_le {strategy : RetryStrategy} (hjitter : policy.useJitter = false)
    (hstrategy : policy.strategy = some strategy) :
    policy.calculateBackoff jitter attempt ≤ policy.maxBackoffMs := by
  rw [calculateBackoff_eq hjitter hstrategy]
  split
  · exact UInt64.le_iff_toNat_le.mpr (Nat.zero_le _)
  · rw [UInt64.le_iff_toNat_le, toNat_min]
    exact min_le_right _ _

/-- Delays computed without overflow do not shrink. -/
theorem calculateBackoff_mono {strategy : RetryStrategy} (hjitter : policy.useJitter = false)
    (hstrategy : policy.strategy = some strategy)
    (hexact : ∀ attempt,
      (strategy.calculateBackoff policy.exponential attempt policy.initialBackoffMs).toNat =
        policy.exactBackoff attempt) (hle : attempt ≤ later) :
    policy.calculateBackoff jitter attempt ≤ policy.calculateBackoff jitter later := by
  have hmono : policy.exactBackoff attempt ≤ policy.exactBackoff later := exactBackoff_mono hle
  rw [UInt64.le_iff_toNat_le, toNat_calculateBackoff hjitter hstrategy (hexact attempt),
    toNat_calculateBackoff hjitter hstrategy (hexact later)]
  split
  · exact Nat.zero_le _
  · next hattempt =>
    have hlater : later ≠ 0 := by
      rintro rfl
      exact hattempt (UInt32.toNat_inj.mp (Nat.le_zero.mp (UInt32.le_iff_toNat_le.mp hle)))
    rw [if_neg hlater]
    omega

theorem toNat_linear (exponential : PowerBackoff) (attempt : UInt32) (initialMs : UInt64) :
    (RetryStrategy.Linear.calculateBackoff exponential attempt initialMs).toNat =
      initialMs.toNat * attempt.toNat % 2 ^ 64 := by
  rw [RetryStrategy.calculateBackoff, UInt64.toNat_mul, UInt32.toNat_toUInt64]

/-- `2 ^ 32 + 1` times the last attempt is `2 ^ 64 - 1`. -/
theorem linear_exact_iff (initialMs : UInt64) :
    (∀ attempt : UInt32, initialMs.toNat * attempt.toNat % 2 ^ 64 = initialMs.toNat * attempt.toNat) ↔
      initialMs.toNat ≤ 4294967297 := by
  constructor
  · intro h
    have hlast := Nat.mod_eq_iff_lt (by decide) |>.mp (h 4294967295)
    have hword : (4294967295 : UInt32).toNat = 4294967295 := rfl
    rw [hword] at hlast
    omega
  · intro hle attempt
    have hlt := attempt.toNat_lt
    have hprod : initialMs.toNat * attempt.toNat ≤ 4294967297 * 4294967295 :=
      Nat.mul_le_mul hle (by omega)
    exact Nat.mod_eq_of_lt (by omega)

theorem total_iff (policy : RetryPolicy) : policy.Total ↔
    ¬(policy.strategy = some .Linear ∧ policy.useJitter = false ∧
      4294967297 < policy.initialBackoffMs.toNat) := by
  constructor
  · rintro htotal ⟨hlinear, hjitter, hlarge⟩
    have hexact : ∀ attempt : UInt32, policy.initialBackoffMs.toNat * attempt.toNat % 2 ^ 64 =
        policy.initialBackoffMs.toNat * attempt.toNat := by
      intro attempt
      have h := (htotal .Linear hlinear nofun hjitter id attempt).1
      rwa [toNat_linear, RetryPolicy.exactBackoff, hlinear] at h
    have hle := (linear_exact_iff policy.initialBackoffMs).mp hexact
    omega
  · intro hsmall strategy hstrategy hexponential hjitter
    have hexact : ∀ attempt,
        (strategy.calculateBackoff policy.exponential attempt policy.initialBackoffMs).toNat =
          policy.exactBackoff attempt := by
      intro attempt
      rw [RetryPolicy.exactBackoff, hstrategy]
      cases strategy with
      | Exponential => exact absurd rfl hexponential
      | Linear =>
        have hle : policy.initialBackoffMs.toNat ≤ 4294967297 := by
          by_contra hgt
          exact hsmall ⟨hstrategy, hjitter, Nat.not_le.mp hgt⟩
        rw [toNat_linear]
        exact (linear_exact_iff policy.initialBackoffMs).mpr hle attempt
      | Fixed => rfl
    intro jitter attempt
    exact ⟨hexact attempt, calculateBackoff_le hjitter hstrategy,
      fun later hle => calculateBackoff_mono hjitter hstrategy hexact hle⟩

end

/-- Exactly when delays are those of the integers: each delay after a cursor expiry, all of them, and
    the delays of a retry policy. -/
theorem backoffs_exact_iff (initial max : UInt64) (maxRetries : UInt32) (policy : RetryPolicy) :
    (∀ k, DoublesAt initial max maxRetries k ↔
      initial.toNat * 2 ^ k < 2 ^ 64 ∨
        max.toNat ≤ initial.toNat * 2 ^ ((k + 1) % 2 ^ 32 - 1) % 2 ^ 64) ∧
    ((∀ k, DoublesAt initial max maxRetries k) ↔ initial = 0 ∨ max = 0) ∧
    (policy.Total ↔ ¬(policy.strategy = some .Linear ∧ policy.useJitter = false ∧
      4294967297 < policy.initialBackoffMs.toNat)) :=
  ⟨doublesAt_iff initial max maxRetries, forall_doublesAt_iff initial max maxRetries,
    total_iff policy⟩

/-- The 63rd delay of the default configuration is 0, and so is a linear one whose product is
    `2 ^ 64`. -/
theorem not_backoffs_exact :
    backoffAt (.withConfig 100 30000 5) 62 = 0 ∧ ¬DoublesAt 100 30000 5 62 ∧
      let policy : RetryPolicy :=
        { maxAttempts := 4294967295, initialBackoffMs := 8589934592, exponential := fun _ ms => ms
          maxBackoffMs := 60000, strategy := some .Linear, useJitter := false }
      policy.calculateBackoff id 1 = 60000 ∧ policy.calculateBackoff id 2147483648 = 0 ∧
        ¬policy.Total := by
  have hinitial : (100 : UInt64).toNat = 100 := rfl
  have hmax : (30000 : UInt64).toNat = 30000 := rfl
  have hzero : (backoffAt (.withConfig 100 30000 5) 62).toNat = 0 := by
    rw [toNat_backoffAt, hinitial]
    norm_num
  refine ⟨UInt64.toNat_inj.mp hzero, ?_, by decide, by decide, ?_⟩
  · rw [DoublesAt, hzero, hinitial, hmax]
    norm_num
  · rw [total_iff]
    decide

end SorobanPulse.Notifications
