import Mathlib

/-! Cursor expiry: which RPC errors count as one, and the backoff before falling back.

    Arithmetic wraps, as in a release build. -/

namespace SorobanPulse.Ingest

def cursorExpiryIndicators : List String :=
  ["cursor", "expired", "invalid cursor", "cursor is no longer valid", "pagination cursor expired"]

/-- Does the message, in lower case, contain one of the indicators? -/
def isCursorExpiryError (errorMsg : String) : Bool :=
  cursorExpiryIndicators.any fun indicator =>
    decide (indicator.toList <:+: errorMsg.toList.map Char.toLower)

structure CursorExpiryBackoff where
  initialBackoffMs : UInt64
  maxBackoffMs : UInt64
  currentBackoffMs : UInt64
  retryCount : UInt32
  maxRetries : UInt32
  deriving DecidableEq, Repr

def CursorExpiryBackoff.withConfig (initialBackoffMs maxBackoffMs : UInt64) (maxRetries : UInt32) :
    CursorExpiryBackoff where
  initialBackoffMs := initialBackoffMs
  maxBackoffMs := maxBackoffMs
  currentBackoffMs := initialBackoffMs
  retryCount := 0
  maxRetries := maxRetries

def CursorExpiryBackoff.new : CursorExpiryBackoff := .withConfig 100 30000 5

/-- The next delay in milliseconds, and the backoff after it. -/
def CursorExpiryBackoff.nextBackoff (backoff : CursorExpiryBackoff) :
    UInt64 × CursorExpiryBackoff :=
  let retryCount := backoff.retryCount + 1
  let exponential := backoff.initialBackoffMs * 2 ^ (retryCount.toNat - 1)
  let delay := min exponential backoff.maxBackoffMs
  (delay, { backoff with retryCount, currentBackoffMs := delay })

def CursorExpiryBackoff.shouldFallback (backoff : CursorExpiryBackoff) : Bool :=
  decide (backoff.maxRetries ≤ backoff.retryCount)

def CursorExpiryBackoff.reset (backoff : CursorExpiryBackoff) : CursorExpiryBackoff :=
  { backoff with retryCount := 0, currentBackoffMs := backoff.initialBackoffMs }

/-- A backoff that still retries brings the fallback one call closer. -/
theorem CursorExpiryBackoff.nextBackoff_retryCount {backoff : CursorExpiryBackoff}
    (h : backoff.shouldFallback = false) :
    backoff.nextBackoff.2.retryCount.toNat = backoff.retryCount.toNat + 1 := by
  have hlt : backoff.retryCount.toNat < backoff.maxRetries.toNat := by
    simpa [shouldFallback, UInt32.lt_iff_toNat_lt] using h
  have hmax := backoff.maxRetries.toNat_lt
  simp only [nextBackoff, UInt32.toNat_add]
  exact Nat.mod_eq_of_lt (by simp; omega)

end SorobanPulse.Ingest
