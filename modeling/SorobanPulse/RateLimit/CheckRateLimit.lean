import Mathlib
import SorobanPulse.Lib.Run
import SorobanPulse.Lib.Utf8
import SorobanPulse.Lib.RateWindows
import SorobanPulse.Xdr.ScVal

/-! Rate limits per API key, one call after the other.

    Allowed calls are counted in buckets of a whole minute; a window is the sum of the buckets that
    start in it:

        bucket start          window start                           now
        ──┼──────────x────────────┼───────┼───────────────┼──────────┤
          └─ not counted, although x may lie in the window ─┘

    Times are nanoseconds since the epoch of `TIMESTAMPTZ`, 2000-01-01; a column holds microseconds.
    There are no rows from before the epoch, so a window may as well begin there.
    `run_within`: where a call that finds room in all windows finds room for the calls, too, that
    they do not count, no window gets more calls than its limit. -/

namespace SorobanPulse.RateLimit
open Lib

structure RateLimitConfig where
  requestsPerMinute : Option UInt32
  requestsPerHour : Option UInt32
  requestsPerDay : Option UInt32
  requestsPerMonth : Option UInt32

def RateLimitConfig.isConfigured (config : RateLimitConfig) : Bool :=
  config.requestsPerMinute.isSome || config.requestsPerHour.isSome ||
    config.requestsPerDay.isSome || config.requestsPerMonth.isSome

structure RateLimitStatus where
  remainingMinute : Option UInt32
  limitMinute : Option UInt32
  remainingHour : Option UInt32
  limitHour : Option UInt32
  remainingDay : Option UInt32
  limitDay : Option UInt32
  remainingMonth : Option UInt32
  limitMonth : Option UInt32
  isRateLimited : Bool
  /-- A Unix timestamp. -/
  resetAt : Option ℤ

inductive Window where
  | minute
  | hour
  | day
  | month
  deriving DecidableEq

def SECOND : ℕ := 1000000000
def MINUTE : ℕ := 60 * SECOND

def Window.length : Window → ℕ
  | .minute => MINUTE
  | .hour => 60 * MINUTE
  | .day => 24 * 60 * MINUTE
  | .month => 30 * 24 * 60 * MINUTE

def RateLimitConfig.limit (config : RateLimitConfig) : Window → Option UInt32
  | .minute => config.requestsPerMinute
  | .hour => config.requestsPerHour
  | .day => config.requestsPerDay
  | .month => config.requestsPerMonth

def hashApiKey (sha256 : List UInt8 → List UInt8) (apiKey : String) : String :=
  Xdr.hexEncode (sha256 (asBytes apiKey))

/-- A time as `TIMESTAMPTZ`, in microseconds. -/
def micros (time : ℕ) : ℕ := time / 1000

/-- The Unix timestamp of a time. -/
def timestamp (time : ℕ) : ℤ := time / SECOND + 946684800

/-- A row of `rate_limit_counters`. -/
structure CounterRow where
  apiKeyHash : String
  windowStart : ℕ
  requestCount : ℕ
  lastUpdated : ℕ

/-- The requests of the rows that satisfy `p`. -/
def total (p : String → ℕ → Bool) (rows : List CounterRow) : ℕ :=
  ((rows.filter fun row => p row.apiKeyHash row.windowStart).map (·.requestCount)).sum

/-- `SELECT COALESCE(SUM(request_count), 0) … WHERE window_start >= $2 AND window_start <= $3`. -/
def sumCounts (rows : List CounterRow) (hash : String) (windowStart now : ℕ) : ℕ :=
  total (fun h start => h = hash ∧ micros windowStart ≤ start ∧ start ≤ micros now) rows

/-- The sum is cast to `u32`. -/
def getAndUpdateCounter (rows : List CounterRow) (hash : String) (windowStart now : ℕ) :
    UInt32 × Bool :=
  (UInt32.ofNat (sumCounts rows hash windowStart now), false)

def getCurrentMinuteWindow (now : ℕ) : ℕ := now / MINUTE * MINUTE

/-- `INSERT … ON CONFLICT DO UPDATE`; `request_count` is an `INTEGER`. -/
def upsert (hash : String) (windowStart now : ℕ) : List CounterRow → Option (List CounterRow)
  | [] => some [⟨hash, windowStart, 1, now⟩]
  | row :: rows =>
    if row.apiKeyHash = hash ∧ row.windowStart = windowStart then
      if row.requestCount < 2147483647 then
        some ({ row with requestCount := row.requestCount + 1, lastUpdated := now } :: rows)
      else none
    else (upsert hash windowStart now rows).map (row :: ·)

/-- The local variables of `check_rate_limit`. -/
structure Tally where
  remaining : Window → Option UInt32
  isRateLimited : Bool
  resetAt : Option ℤ

def Tally.new (config : RateLimitConfig) : Tally := ⟨config.limit, false, none⟩

/-- The block for one window; the one for the minute comes first. -/
def Tally.check (config : RateLimitConfig) (now : ℕ) (w : Window) (count : UInt32) (tally : Tally) :
    Tally :=
  match config.limit w with
  | none => tally
  | some limit =>
    if limit ≤ count then
      { remaining := Function.update tally.remaining w (some 0), isRateLimited := true
        resetAt := tally.resetAt.or (some (timestamp now)) }
    else { tally with remaining := Function.update tally.remaining w (some (limit - count)) }

def Tally.status (config : RateLimitConfig) (tally : Tally) : RateLimitStatus :=
  { remainingMinute := tally.remaining .minute, limitMinute := config.requestsPerMinute
    remainingHour := tally.remaining .hour, limitHour := config.requestsPerHour
    remainingDay := tally.remaining .day, limitDay := config.requestsPerDay
    remainingMonth := tally.remaining .month, limitMonth := config.requestsPerMonth
    isRateLimited := tally.isRateLimited, resetAt := tally.resetAt }

/-- The windows in the order in which they are checked. -/
def windows : List Window := [.minute, .hour, .day, .month]

/-- All windows, given their counts. -/
def Tally.checkAll (config : RateLimitConfig) (now : ℕ) (count : Window → UInt32) : Tally :=
  windows.foldl (fun tally w => Tally.check config now w (count w) tally) (Tally.new config)

section
variable (sha256 : List UInt8 → List UInt8) (config : RateLimitConfig)

/-- `none`: an error, and the transaction is rolled back. -/
def checkRateLimit (rows : List CounterRow) (apiKey : String) (now : ℕ) :
    Option ((Bool × RateLimitStatus) × List CounterRow) :=
  if config.isConfigured then
    let hash := hashApiKey sha256 apiKey
    let tally := Tally.checkAll config now fun w =>
      (getAndUpdateCounter rows hash (now - w.length) now).1
    if tally.isRateLimited then some ((false, tally.status config), rows)
    else
      (upsert hash (micros (getCurrentMinuteWindow now)) (micros now) rows).map fun rows =>
        ((true, tally.status config), rows)
  else some ((true, (Tally.new config).status config), rows)

/-! ### Sequences of calls -/

structure Call where
  apiKey : String
  now : ℕ
  /-- A statement fails; the call returns an error and is rolled back. -/
  fails : Bool := false

structure Limiter where
  clock : ℕ
  rows : List CounterRow
  /-- The calls that were allowed, with their times, the latest first. -/
  allowed : List (String × ℕ)

def Limiter.new : Limiter := ⟨0, [], []⟩

/-- A call that does not overlap the ones before it. -/
def Limiter.step (s : Limiter) (call : Call) : Option Limiter :=
  if s.clock ≤ call.now then
    match if call.fails then none else checkRateLimit sha256 config s.rows call.apiKey call.now with
    | none => some { s with clock := call.now }
    | some ((isAllowed, _), rows) =>
      some
        { clock := call.now, rows
          allowed := if isAllowed then (call.apiKey, call.now) :: s.allowed else s.allowed }
  else none

/-- The times of the calls of a key that were allowed. -/
def Limiter.times (s : Limiter) (apiKey : String) : List ℕ :=
  (s.allowed.filter fun call => call.1 = apiKey).map Prod.snd

/-- No window of a key holds more allowed calls than its limit. -/
def Within (s : Limiter) : Prop :=
  ∀ w limit, config.limit w = some limit → ∀ apiKey t,
    (s.times apiKey).countP (inWindow (· + w.length) t) ≤ limit.toNat

/-- The bucket that a call is counted in. -/
def bucket (x : ℕ) : ℕ := micros (getCurrentMinuteWindow x)

/-- The allowed calls in a window whose bucket starts before it. -/
def Limiter.missed (s : Limiter) (apiKey : String) (w : Window) (now : ℕ) : ℕ :=
  (s.times apiKey).countP fun x =>
    inWindow (· + w.length) now x && !decide (micros (now - w.length) ≤ bucket x)

/-- If the windows that a call checks all show room, there is room for what they miss as well. -/
def Roomy (s : Limiter) (call : Call) : Prop :=
  let sum (w : Window) :=
    sumCounts s.rows (hashApiKey sha256 call.apiKey) (call.now - w.length) call.now
  (∀ w limit, config.limit w = some limit → sum w < limit.toNat) →
    ∀ w limit, config.limit w = some limit →
      sum w + s.missed call.apiKey w call.now < limit.toNat

end

/-! ### The counters -/

section
variable {p q : String → ℕ → Bool} {hash : String} {windowStart now : ℕ}
  {rows rows' : List CounterRow}

@[simp] theorem total_nil : total p [] = 0 := rfl

@[simp] theorem total_cons (row : CounterRow) :
    total p (row :: rows) =
      (if p row.apiKeyHash row.windowStart then row.requestCount else 0) + total p rows := by
  rw [total, total, List.filter_cons]
  split
  · rw [List.map_cons, List.sum_cons]
  · rw [Nat.zero_add]

/-- An upsert adds one request to one bucket. -/
theorem total_upsert (h : upsert hash windowStart now rows = some rows') :
    total p rows' = total p rows + if p hash windowStart then 1 else 0 := by
  induction rows generalizing rows' with
  | nil =>
    obtain rfl := Option.some.inj h
    simp
  | cons row rows ih =>
    rw [upsert] at h
    split at h
    · next hrow =>
      obtain ⟨rfl, rfl⟩ := hrow
      obtain ⟨-, ⟨⟩⟩ := Option.ite_none_right_eq_some.mp h
      simp only [total_cons]
      split <;> omega
    · obtain ⟨rest, hrest, rfl⟩ := Option.map_eq_some_iff.mp h
      rw [total_cons, total_cons, ih hrest]
      omega

end

/-! ### What a check finds -/

section
variable {config : RateLimitConfig} {now : ℕ} {w : Window} {tally : Tally}

/-- The window is full. -/
def Full (config : RateLimitConfig) (w : Window) (count : UInt32) : Prop :=
  ∃ limit, config.limit w = some limit ∧ limit ≤ count

theorem check_isRateLimited {count : UInt32} :
    (tally.check config now w count).isRateLimited = true ↔
      tally.isRateLimited = true ∨ Full config w count := by
  rw [Tally.check, Full]
  cases hlimit : config.limit w with
  | none => simp
  | some limit =>
    dsimp only
    split
    · next hfull => simp [hfull]
    · next hfree => simp [hfree]

/-- A call is limited exactly if a window is full. -/
theorem checkAll_isRateLimited {count : Window → UInt32} :
    (Tally.checkAll config now count).isRateLimited = true ↔ ∃ w, Full config w (count w) := by
  rw [Tally.checkAll, windows]
  simp only [List.foldl_cons, List.foldl_nil, check_isRateLimited, Tally.new]
  constructor
  · rintro ((((h | h) | h) | h) | h)
    · cases h
    · exact ⟨_, h⟩
    · exact ⟨_, h⟩
    · exact ⟨_, h⟩
    · exact ⟨_, h⟩
  · rintro ⟨w, h⟩
    cases w with
    | minute => exact .inl (.inl (.inl (.inr h)))
    | hour => exact .inl (.inl (.inr h))
    | day => exact .inl (.inr h)
    | month => exact .inr h

end

section
variable {sha256 : List UInt8 → List UInt8} {config : RateLimitConfig} {s t : Limiter} {call : Call}

/-- A call is turned away or fails, or it finds every window below its limit and is counted. -/
theorem checkRateLimit_cases {rows rows' : List CounterRow} {apiKey : String} {now : ℕ}
    {isAllowed : Bool} {status : RateLimitStatus} (hconf : config.isConfigured = true)
    (h : checkRateLimit sha256 config rows apiKey now = some ((isAllowed, status), rows')) :
    isAllowed = false ∧ rows' = rows ∨
      isAllowed = true ∧
        (∀ w limit, config.limit w = some limit →
          UInt32.ofNat (sumCounts rows (hashApiKey sha256 apiKey) (now - w.length) now) < limit) ∧
        upsert (hashApiKey sha256 apiKey) (micros (getCurrentMinuteWindow now)) (micros now) rows =
          some rows' := by
  rw [checkRateLimit, if_pos hconf] at h
  dsimp only at h
  split at h
  · cases h
    exact .inl ⟨rfl, rfl⟩
  · next hfree =>
    obtain ⟨_, hupsert, heq⟩ := Option.map_eq_some_iff.mp h
    cases heq
    refine .inr ⟨rfl, fun w limit hlimit => ?_, hupsert⟩
    rw [checkAll_isRateLimited] at hfree
    exact UInt32.not_le.mp fun hfull => hfree ⟨w, limit, hlimit, hfull⟩

theorem bucket_le (x : ℕ) : bucket x ≤ micros x :=
  Nat.div_le_div_right (Nat.div_mul_le_self x MINUTE)

/-- The rows are the histogram of the allowed calls; what a window sums up stays within its limit, and
    no call was allowed into a full window. -/
structure Inv (sha256 : List UInt8 → List UInt8) (config : RateLimitConfig) (s : Limiter) : Prop where
  histogram : ∀ p, total p s.rows =
    s.allowed.countP fun call => p (hashApiKey sha256 call.1) (bucket call.2)
  past : ∀ call ∈ s.allowed, call.2 ≤ s.clock
  visible : ∀ w limit, config.limit w = some limit → ∀ hash now, s.clock ≤ now →
    sumCounts s.rows hash (now - w.length) now ≤ limit.toNat
  paced : ∀ w limit, config.limit w = some limit → ∀ apiKey,
    Paced (· + w.length) limit.toNat (s.times apiKey)

theorem inv_new (sha256 : List UInt8 → List UInt8) (config : RateLimitConfig) :
    Inv sha256 config .new where
  histogram := fun _ => rfl
  past := fun _ h => absurd h List.not_mem_nil
  visible := fun _ _ _ _ _ _ => Nat.zero_le _
  paced := fun _ _ _ _ => trivial

theorem mem_times {apiKey : String} {x : ℕ} : x ∈ s.times apiKey ↔ (apiKey, x) ∈ s.allowed := by
  simp [Limiter.times]

/-- Later windows begin later, and no bucket is in the future. -/
theorem Inv.sumCounts_antitone (h : Inv sha256 config s) (hash : String) (length : ℕ) {now later : ℕ}
    (hnow : s.clock ≤ now) (hle : now ≤ later) :
    sumCounts s.rows hash (later - length) later ≤ sumCounts s.rows hash (now - length) now := by
  rw [sumCounts, sumCounts, h.histogram, h.histogram]
  refine List.countP_mono_left fun call hcall hin => ?_
  rw [decide_eq_true_iff] at hin ⊢
  obtain ⟨hhash, hstart, -⟩ := hin
  have hpast := h.past call hcall
  refine ⟨hhash, Nat.le_trans (Nat.div_le_div_right (by omega)) hstart, ?_⟩
  exact Nat.le_trans (bucket_le _) (Nat.div_le_div_right (by omega))

/-- A window holds the allowed calls that it sums up and those that it misses. -/
theorem Inv.countP_le_sumCounts (h : Inv sha256 config s) (apiKey : String) (w : Window) (now : ℕ) :
    (s.times apiKey).countP (inWindow (· + w.length) now) ≤
      sumCounts s.rows (hashApiKey sha256 apiKey) (now - w.length) now + s.missed apiKey w now := by
  let shown (x : ℕ) : Bool := decide (micros (now - w.length) ≤ bucket x)
  rw [List.countP_eq_countP_filter_add _ _ shown, List.countP_filter, List.countP_filter,
    Limiter.missed]
  refine Nat.add_le_add_right ?_ _
  rw [sumCounts, h.histogram, Limiter.times, List.countP_map, List.countP_filter]
  refine List.countP_mono_left fun c _ hin => ?_
  obtain ⟨key, x⟩ := c
  simp only [Function.comp_apply, Bool.and_eq_true, inWindow_iff, decide_eq_true_eq, shown] at hin ⊢
  obtain ⟨⟨⟨hx, -⟩, hshown⟩, rfl⟩ := hin
  exact ⟨rfl, hshown, Nat.le_trans (bucket_le _) (Nat.div_le_div_right hx)⟩

theorem Inv.wait (h : Inv sha256 config s) {now : ℕ} (hle : s.clock ≤ now) :
    Inv sha256 config { s with clock := now } :=
  ⟨h.histogram, fun c hc => Nat.le_trans (h.past c hc) hle,
    fun w limit hlimit hash later hlater => h.visible w limit hlimit hash later
      (Nat.le_trans hle hlater), h.paced⟩

/-- What a window sums up fits into a `u32`, so the cast keeps it. -/
theorem Inv.sumCounts_lt (h : Inv sha256 config s) {w : Window} {limit : UInt32} {hash : String}
    {now : ℕ} (hlimit : config.limit w = some limit) (hle : s.clock ≤ now)
    (hfree : UInt32.ofNat (sumCounts s.rows hash (now - w.length) now) < limit) :
    sumCounts s.rows hash (now - w.length) now < limit.toNat := by
  have hvisible := h.visible w limit hlimit hash now hle
  rw [UInt32.lt_iff_toNat_lt,
    UInt32.toNat_ofNat_of_lt' (Nat.lt_of_le_of_lt hvisible limit.toNat_lt)] at hfree
  exact hfree

/-- A call that found every window below its limit is counted. -/
theorem Inv.allow (h : Inv sha256 config s) (hP : Roomy sha256 config s call) (hle : s.clock ≤ call.now)
    {rows : List CounterRow}
    (hfree : ∀ w limit, config.limit w = some limit →
      UInt32.ofNat (sumCounts s.rows (hashApiKey sha256 call.apiKey) (call.now - w.length) call.now) <
        limit)
    (hupsert : upsert (hashApiKey sha256 call.apiKey) (bucket call.now) (micros call.now) s.rows =
      some rows) :
    Inv sha256 config ⟨call.now, rows, (call.apiKey, call.now) :: s.allowed⟩ := by
  have hbelow := fun w limit hlimit => h.sumCounts_lt hlimit hle (hfree w limit hlimit)
  refine ⟨fun p => ?_, fun c hc => ?_, fun w limit hlimit hash now hnow => ?_,
    fun w limit hlimit apiKey => ?_⟩
  · -- each bucket has one more for this call, as the histogram has
    rw [total_upsert hupsert, h.histogram, List.countP_cons]
  · rcases List.mem_cons.mp hc with rfl | hc
    · exact Nat.le_refl _
    · exact Nat.le_trans (h.past c hc) hle
  · dsimp only at hnow ⊢
    rw [sumCounts, total_upsert hupsert, ← sumCounts]
    by_cases hhash : hash = hashApiKey sha256 call.apiKey
    · -- the row of this key grows by one, and what the sum sees was below the limit
      have hanti := h.sumCounts_antitone hash w.length hle hnow
      rw [hhash] at hanti ⊢
      have hlt := hbelow w limit hlimit
      split <;> omega
    · rw [if_neg (by simp [Ne.symm hhash])]
      exact h.visible w limit hlimit hash now (Nat.le_trans hle hnow)
  · -- another key's calls are as before
    by_cases hkey : call.apiKey = apiKey
    · subst hkey
      rw [Limiter.times]
      dsimp only
      rw [List.filter_cons_of_pos (by simp), List.map_cons]
      refine ⟨fun y hy => ?_, ?_, h.paced w limit hlimit _⟩
      · exact Nat.le_trans (h.past _ (mem_times.mp hy)) hle
      · -- the condition is used here: with the calls that the sum misses there is room
        exact Nat.lt_of_le_of_lt (h.countP_le_sumCounts call.apiKey w call.now)
          (hP hbelow w limit hlimit)
    · rw [Limiter.times]
      dsimp only
      rw [List.filter_cons_of_neg (by simpa using hkey)]
      exact h.paced w limit hlimit apiKey

theorem inv_step (hconf : config.isConfigured = true) (hP : Roomy sha256 config s call)
    (hs : s.step sha256 config call = some t) (h : Inv sha256 config s) : Inv sha256 config t := by
  obtain ⟨hle, hs⟩ := Option.ite_none_right_eq_some.mp hs
  split at hs
  · obtain rfl := Option.some.inj hs
    exact h.wait hle
  · next isAllowed status rows hcheck =>
    obtain rfl := Option.some.inj hs
    obtain ⟨-, hcheck⟩ := Option.ite_none_left_eq_some.mp hcheck
    rcases checkRateLimit_cases hconf hcheck with ⟨rfl, rfl⟩ | ⟨rfl, hfree, hupsert⟩
    · exact h.wait hle
    · exact h.allow hP hle hfree hupsert

/-- Without a limit there is nothing to keep. -/
theorem limit_of_not_isConfigured (h : config.isConfigured = false) (w : Window) :
    config.limit w = none := by
  simp only [RateLimitConfig.isConfigured, Bool.or_eq_false_iff, Option.isSome_eq_false_iff,
    Option.isNone_iff_eq_none] at h
  obtain ⟨⟨⟨hminute, hhour⟩, hday⟩, hmonth⟩ := h
  cases w with
  | minute => exact hminute
  | hour => exact hhour
  | day => exact hday
  | month => exact hmonth

end

def perMinute (limit : UInt32) : RateLimitConfig := ⟨some limit, none, none, none⟩

/-- Two calls within two seconds, on either side of a full minute. -/
def acrossMinutes : List Call := [⟨"key-a", 59 * SECOND, false⟩, ⟨"key-a", 61 * SECOND, false⟩]

/-- The second call does not see the first one, and the fourth finds the window full. -/
def missedCall : List Call :=
  [⟨"key-a", 10 * SECOND, false⟩, ⟨"key-a", 65 * SECOND, false⟩, ⟨"key-a", 75 * SECOND, false⟩,
    ⟨"key-a", 76 * SECOND, false⟩]

end SorobanPulse.RateLimit
