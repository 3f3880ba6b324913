import SorobanPulse.RateLimit.CheckRateLimit

/-! What the rate-limit headers say, beside what is so.

        check_rate_limit         remaining = limit - (requests before this one)     reset_at = now
        get_rate_limit_status    remaining = limit - (requests)                     reset_at = now

    A window starts a whole length before now, so that its start and its length add up to now again
    and not to the time at which a bucket leaves it. -/

namespace SorobanPulse.RateLimit
open Lib

/-- `SELECT COALESCE(SUM(request_count), 0) … WHERE window_start >= $2`, with no upper end. -/
def sumSince (rows : List CounterRow) (hash : String) (windowStart : ℕ) : ℕ :=
  total (fun h start => h = hash ∧ micros windowStart ≤ start) rows

def RateLimitStatus.remaining (status : RateLimitStatus) : Window → Option UInt32
  | .minute => status.remainingMinute
  | .hour => status.remainingHour
  | .day => status.remainingDay
  | .month => status.remainingMonth

section
variable (sha256 : List UInt8 → List UInt8) (config : RateLimitConfig)

/-- What `check_rate_limit` counts in a window. -/
def checkedCount (rows : List CounterRow) (apiKey : String) (now : ℕ) (w : Window) : UInt32 :=
  (getAndUpdateCounter rows (hashApiKey sha256 apiKey) (now - w.length) now).1

/-- What `get_rate_limit_status` counts in a window. -/
def shownCount (rows : List CounterRow) (apiKey : String) (now : ℕ) (w : Window) : UInt32 :=
  UInt32.ofNat (sumSince rows (hashApiKey sha256 apiKey) (now - w.length))

def getRateLimitStatus (rows : List CounterRow) (apiKey : String) (now : ℕ) : RateLimitStatus :=
  if config.isConfigured then
    (Tally.checkAll config now (shownCount sha256 rows apiKey now)).status config
  else (Tally.new config).status config

/-! ### What the headers should say -/

/-- The instant of a Unix timestamp, in nanoseconds of the epoch of the times. -/
def instant (r : ℤ) : ℤ := (r - 946684800) * SECOND

/-- From the instant `r` on a function finds nothing limited, and by then each window that it finds
    full has admitted a request. -/
structure ResetTrue (limited : ℕ → Bool) (count : ℕ → Window → UInt32) (now : ℕ) (r : ℤ) : Prop where
  free : ∀ t : ℕ, now ≤ t → instant r ≤ t → limited t = false
  admits : ∀ w, Full config w (count now w) →
    ∃ t : ℕ, now ≤ t ∧ t ≤ instant r ∧ ¬Full config w (count t w)

/-- What an allowed call says remains is what the status says right after it, and a time of reset is
    one. -/
structure HeadersTrue (rows : List CounterRow) (apiKey : String) (now : ℕ) : Prop where
  remaining : ∀ status rows',
    checkRateLimit sha256 config rows apiKey now = some ((true, status), rows') →
      ∀ w, status.remaining w = (getRateLimitStatus sha256 config rows' apiKey now).remaining w
  checked : ∀ isAllowed status rows',
    checkRateLimit sha256 config rows apiKey now = some ((isAllowed, status), rows') →
      status.isRateLimited = true → ∀ r, status.resetAt = some r →
        ResetTrue config
          (fun t => (checkRateLimit sha256 config rows' apiKey t).any (·.1.2.isRateLimited))
          (checkedCount sha256 rows' apiKey) now r
  shown : (getRateLimitStatus sha256 config rows apiKey now).isRateLimited = true →
    ∀ r, (getRateLimitStatus sha256 config rows apiKey now).resetAt = some r →
      ResetTrue config (fun t => (getRateLimitStatus sha256 config rows apiKey t).isRateLimited)
        (shownCount sha256 rows apiKey) now r

end

/-- The row that a call is counted in has reached the end of its `INTEGER`. -/
def RowFull (rows : List CounterRow) (hash : String) (now : ℕ) : Prop :=
  ∃ row, rows.find? (fun row => row.apiKeyHash = hash ∧ row.windowStart = bucket now) = some row ∧
    2147483647 ≤ row.requestCount

/-- The requests of the key in buckets that start after now. -/
def later (rows : List CounterRow) (hash : String) (now : ℕ) : ℕ :=
  total (fun h start => h = hash ∧ micros now < start) rows

/-! ### Counts -/

section
variable {p q : String → ℕ → Bool} {hash : String} {windowStart now : ℕ}
  {rows rows' : List CounterRow}

theorem upsert_eq_none :
    upsert hash (bucket now) (micros now) rows = none ↔ RowFull rows hash now := by
  induction rows with
  | nil => simp [upsert, RowFull]
  | cons row rows ih =>
    rw [upsert, RowFull, List.find?_cons]
    by_cases hrow : row.apiKeyHash = hash ∧ row.windowStart = bucket now
    · rw [if_pos hrow, decide_eq_true hrow]
      simp
    · rw [if_neg hrow, decide_eq_false hrow, Option.map_eq_none_iff, ih, RowFull]

/-- A window with no upper end also counts what is later. -/
theorem sumSince_eq (hle : windowStart ≤ now) :
    sumSince rows hash windowStart = sumCounts rows hash windowStart now + later rows hash now := by
  have hmicros : micros windowStart ≤ micros now := Nat.div_le_div_right hle
  induction rows with
  | nil => rfl
  | cons row rows ih =>
    rw [sumSince, sumCounts, later] at ih ⊢
    rw [total_cons, total_cons, total_cons, ih]
    by_cases hhash : row.apiKeyHash = hash
    · by_cases hstart : micros windowStart ≤ row.windowStart
      · by_cases hnow : row.windowStart ≤ micros now
        · simp [hhash, hstart, hnow, Nat.not_lt.mpr hnow]
          omega
        · simp [hhash, hstart, hnow, Nat.not_le.mp hnow]
          omega
      · have hnot : ¬micros now < row.windowStart := by omega
        simp [hhash, hstart, hnot]
    · simp [hhash]

theorem minute_le_length (w : Window) : MINUTE ≤ w.length := by
  cases w <;> simp [Window.length, MINUTE, SECOND]

/-- A call is counted in every window that ends with it. -/
theorem sumSince_upsert (w : Window)
    (h : upsert hash (bucket now) (micros now) rows = some rows') :
    sumSince rows' hash (now - w.length) = sumSince rows hash (now - w.length) + 1 := by
  have hstart : now - w.length ≤ getCurrentMinuteWindow now := by
    have hminute := minute_le_length w
    have hmod := Nat.mod_lt now (show 0 < MINUTE by decide)
    have hdiv := Nat.div_add_mod' now MINUTE
    rw [getCurrentMinuteWindow]
    omega
  have hbucket : micros (now - w.length) ≤ bucket now := Nat.div_le_div_right hstart
  rw [sumSince, total_upsert h, ← sumSince]
  simp [hbucket]

end

/-! ### What a check reports -/

section
variable {config : RateLimitConfig} {now : ℕ} {w : Window} {tally : Tally} {count : Window → UInt32}

/-- What a window has left. -/
def left (config : RateLimitConfig) (w : Window) (count : UInt32) : Option UInt32 :=
  (config.limit w).map fun limit => if limit ≤ count then 0 else limit - count

theorem check_remaining_self {count : UInt32} (h : tally.remaining w = config.limit w) :
    (tally.check config now w count).remaining w = left config w count := by
  rw [Tally.check, left]
  cases hlimit : config.limit w with
  | none => rw [h, hlimit]; rfl
  | some limit =>
    dsimp only
    split
    · next hfull => simp [hfull]
    · next hfree => simp [hfree]

theorem check_remaining_ne {count : UInt32} {w' : Window} (h : w' ≠ w) :
    (tally.check config now w count).remaining w' = tally.remaining w' := by
  rw [Tally.check]
  split
  · rfl
  · split <;> exact Function.update_of_ne h ..

theorem checkAll_remaining (w : Window) :
    (Tally.checkAll config now count).remaining w = left config w (count w) := by
  rw [Tally.checkAll, windows]
  simp only [List.foldl_cons, List.foldl_nil]
  cases w with
  | minute =>
    rw [check_remaining_ne (by decide), check_remaining_ne (by decide),
      check_remaining_ne (by decide), check_remaining_self rfl]
  | hour =>
    rw [check_remaining_ne (by decide), check_remaining_ne (by decide), check_remaining_self]
    rw [check_remaining_ne (by decide)]
    rfl
  | day =>
    rw [check_remaining_ne (by decide), check_remaining_self]
    rw [check_remaining_ne (by decide), check_remaining_ne (by decide)]
    rfl
  | month =>
    rw [check_remaining_self]
    rw [check_remaining_ne (by decide), check_remaining_ne (by decide),
      check_remaining_ne (by decide)]
    rfl

@[simp] theorem remaining_status (w : Window) :
    (tally.status config).remaining w = tally.remaining w := by
  cases w <;> rfl

/-- A key is told to wait until now. -/
def ResetNow (now : ℕ) (tally : Tally) : Prop :=
  tally.resetAt = if tally.isRateLimited then some (timestamp now) else none

theorem check_resetNow {count : UInt32} (h : ResetNow now tally) :
    ResetNow now (tally.check config now w count) := by
  rw [ResetNow] at h ⊢
  rw [Tally.check]
  split
  · exact h
  · split
    · rw [h]
      cases tally.isRateLimited <;> rfl
    · exact h

theorem checkAll_resetAt : (Tally.checkAll config now count).resetAt =
    if (Tally.checkAll config now count).isRateLimited then some (timestamp now) else none := by
  have hnew : ResetNow now (Tally.new config) := rfl
  exact check_resetNow (check_resetNow (check_resetNow (check_resetNow hnew)))

theorem instant_timestamp_le (now : ℕ) : instant (timestamp now) ≤ now := by
  rw [instant, timestamp, Int.add_sub_cancel, ← Int.natCast_ediv]
  exact_mod_cast Nat.div_mul_le_self now SECOND

/-- Whoever is limited now is not told the truth about it. -/
theorem not_resetTrue {limited : ℕ → Bool} {count : ℕ → Window → UInt32} (h : limited now = true) :
    ¬ResetTrue config limited count now (timestamp now) := by
  intro hreset
  rw [hreset.free now (Nat.le_refl now) (instant_timestamp_le now)] at h
  cases h

end

/-! ### When the headers are true -/

section
variable {sha256 : List UInt8 → List UInt8} {config : RateLimitConfig} {rows rows' : List CounterRow}
  {apiKey : String} {now : ℕ} {w : Window}

/-- No window is full, for either function. -/
def BelowLimits (sha256 : List UInt8 → List UInt8) (config : RateLimitConfig) (rows : List CounterRow)
    (apiKey : String) (now : ℕ) : Prop :=
  ∀ w, ¬Full config w (checkedCount sha256 rows apiKey now w) ∧
    ¬Full config w (shownCount sha256 rows apiKey now w)

theorem getRateLimitStatus_eq (hconf : config.isConfigured = true) :
    getRateLimitStatus sha256 config rows apiKey now =
      (Tally.checkAll config now (shownCount sha256 rows apiKey now)).status config :=
  if_pos hconf

theorem checkRateLimit_eq (hconf : config.isConfigured = true) :
    checkRateLimit sha256 config rows apiKey now =
      let tally := Tally.checkAll config now (checkedCount sha256 rows apiKey now)
      if tally.isRateLimited then some ((false, tally.status config), rows)
      else
        (upsert (hashApiKey sha256 apiKey) (bucket now) (micros now) rows).map fun rows =>
          ((true, tally.status config), rows) :=
  if_pos hconf

theorem isConfigured_iff : config.isConfigured = true ↔ ∃ w limit, config.limit w = some limit := by
  constructor
  · intro h
    by_contra hnone
    have hlimit (w : Window) : config.limit w = none := by
      cases hw : config.limit w with
      | none => rfl
      | some limit => exact absurd ⟨w, limit, hw⟩ hnone
    have hminute : config.requestsPerMinute = none := hlimit .minute
    have hhour : config.requestsPerHour = none := hlimit .hour
    have hday : config.requestsPerDay = none := hlimit .day
    have hmonth : config.requestsPerMonth = none := hlimit .month
    rw [RateLimitConfig.isConfigured, hminute, hhour, hday, hmonth] at h
    cases h
  · rintro ⟨w, limit, hw⟩
    by_contra h
    rw [limit_of_not_isConfigured (Bool.eq_false_iff.mpr h)] at hw
    cases hw

/-- Subtracting from one limit is injective below it. -/
theorem left_eq_iff {a b limit : UInt32} (hlimit : config.limit w = some limit) (ha : a < limit) :
    left config w a = left config w b ↔ a = b := by
  rw [left, left, hlimit, Option.map_some, Option.map_some, Option.some_inj,
    if_neg (UInt32.not_le.mpr ha)]
  constructor
  · intro h
    split at h
    · next hb =>
      have hsub := congrArg UInt32.toNat h
      rw [UInt32.toNat_sub_of_le _ _ (UInt32.le_of_lt ha)] at hsub
      rw [UInt32.lt_iff_toNat_lt] at ha
      simp at hsub
      omega
    · next hb =>
      have hsub := congrArg UInt32.toNat h
      rw [UInt32.toNat_sub_of_le _ _ (UInt32.le_of_lt ha),
        UInt32.toNat_sub_of_le _ _ (UInt32.le_of_lt (UInt32.not_le.mp hb))] at hsub
      rw [UInt32.not_le, UInt32.lt_iff_toNat_lt] at hb
      rw [UInt32.lt_iff_toNat_lt] at ha
      exact UInt32.toNat_inj.mp (by omega)
  · rintro rfl
    rw [if_neg (UInt32.not_le.mpr ha)]

/-- After the call the status counts the call itself, and what is later. -/
theorem checkedCount_eq_shownCount_iff
    (h : upsert (hashApiKey sha256 apiKey) (bucket now) (micros now) rows = some rows') :
    checkedCount sha256 rows apiKey now w = shownCount sha256 rows' apiKey now w ↔
      2 ^ 32 ∣ later rows (hashApiKey sha256 apiKey) now + 1 := by
  rw [checkedCount, getAndUpdateCounter, shownCount, sumSince_upsert w h,
    sumSince_eq (Nat.sub_le now w.length), ← UInt32.toNat_inj]
  dsimp only
  rw [UInt32.toNat_ofNat', UInt32.toNat_ofNat']
  omega

theorem remaining_iff (hconf : config.isConfigured = true)
    (hfree : BelowLimits sha256 config rows apiKey now)
    (h : upsert (hashApiKey sha256 apiKey) (bucket now) (micros now) rows = some rows') :
    (∀ w, left config w (checkedCount sha256 rows apiKey now w) =
        left config w (shownCount sha256 rows' apiKey now w)) ↔
      2 ^ 32 ∣ later rows (hashApiKey sha256 apiKey) now + 1 := by
  constructor
  · intro hall
    obtain ⟨w, limit, hlimit⟩ := isConfigured_iff.mp hconf
    have hlt : checkedCount sha256 rows apiKey now w < limit :=
      UInt32.not_le.mp fun hle => (hfree w).1 ⟨limit, hlimit, hle⟩
    exact (checkedCount_eq_shownCount_iff h).mp ((left_eq_iff hlimit hlt).mp (hall w))
  · intro hdvd w
    rw [(checkedCount_eq_shownCount_iff h).mpr hdvd]

/-- Without a limit nothing is said. -/
theorem headersTrue_of_not_isConfigured (hconf : config.isConfigured = false) :
    HeadersTrue sha256 config rows apiKey now := by
  have hcheck : checkRateLimit sha256 config rows apiKey now =
      some ((true, (Tally.new config).status config), rows) := if_neg (by rw [hconf]; decide)
  have hshow (rows : List CounterRow) : getRateLimitStatus sha256 config rows apiKey now =
      (Tally.new config).status config := if_neg (by rw [hconf]; decide)
  refine ⟨fun status rows' h w => ?_, fun isAllowed status rows' h hlimited => ?_, fun hlimited => ?_⟩
  · rw [hcheck] at h
    cases h
    rw [hshow]
  · rw [hcheck] at h
    cases h
    cases hlimited
  · rw [hshow] at hlimited
    cases hlimited

theorem checkRateLimit_full (hconf : config.isConfigured = true)
    (h : Full config w (checkedCount sha256 rows apiKey now w)) :
    ∃ status, checkRateLimit sha256 config rows apiKey now = some ((false, status), rows) ∧
      status.isRateLimited = true ∧ status.resetAt = some (timestamp now) := by
  set tally := Tally.checkAll config now (checkedCount sha256 rows apiKey now) with htally
  have hlimited : tally.isRateLimited = true := checkAll_isRateLimited.mpr ⟨w, h⟩
  refine ⟨tally.status config, ?_, hlimited, ?_⟩
  · rw [checkRateLimit_eq hconf]
    exact if_pos hlimited
  · exact checkAll_resetAt.trans (if_pos hlimited)

theorem not_checked_full (hconf : config.isConfigured = true)
    (h : Full config w (checkedCount sha256 rows apiKey now w)) :
    ¬HeadersTrue sha256 config rows apiKey now := by
  intro htrue
  obtain ⟨status, hcheck, hlimited, hreset⟩ := checkRateLimit_full hconf h
  refine not_resetTrue ?_ (htrue.checked _ _ _ hcheck hlimited _ hreset)
  rw [hcheck]
  exact hlimited

theorem not_shown_full (hconf : config.isConfigured = true)
    (h : Full config w (shownCount sha256 rows apiKey now w)) :
    ¬HeadersTrue sha256 config rows apiKey now := by
  intro htrue
  have hlimited : (getRateLimitStatus sha256 config rows apiKey now).isRateLimited = true := by
    rw [getRateLimitStatus_eq hconf]
    exact checkAll_isRateLimited.mpr ⟨w, h⟩
  refine not_resetTrue hlimited (htrue.shown hlimited _ ?_)
  rw [getRateLimitStatus_eq hconf] at hlimited ⊢
  exact checkAll_resetAt.trans (if_pos hlimited)

/-- With no window full a call is allowed, if it can be counted. -/
theorem checkRateLimit_free (hconf : config.isConfigured = true)
    (hfree : BelowLimits sha256 config rows apiKey now) :
    checkRateLimit sha256 config rows apiKey now =
      (upsert (hashApiKey sha256 apiKey) (bucket now) (micros now) rows).map fun rows' =>
        ((true, (Tally.checkAll config now (checkedCount sha256 rows apiKey now)).status config),
          rows') := by
  rw [checkRateLimit_eq hconf]
  refine if_neg fun hlimited => ?_
  obtain ⟨w, hw⟩ := checkAll_isRateLimited.mp hlimited
  exact (hfree w).1 hw

theorem counted_of_headersTrue (hconf : config.isConfigured = true)
    (h : HeadersTrue sha256 config rows apiKey now) :
    BelowLimits sha256 config rows apiKey now ∧
      (RowFull rows (hashApiKey sha256 apiKey) now ∨
        2 ^ 32 ∣ later rows (hashApiKey sha256 apiKey) now + 1) := by
  have hfree : BelowLimits sha256 config rows apiKey now := fun w =>
    ⟨fun hw => not_checked_full hconf hw h, fun hw => not_shown_full hconf hw h⟩
  refine ⟨hfree, ?_⟩
  cases hupsert : upsert (hashApiKey sha256 apiKey) (bucket now) (micros now) rows with
  | none => exact .inl (upsert_eq_none.mp hupsert)
  | some rows' =>
    refine .inr ((remaining_iff hconf hfree hupsert).mp fun w => ?_)
    have hremaining :=
      h.remaining _ rows' (by rw [checkRateLimit_free hconf hfree, hupsert]; rfl) w
    rwa [getRateLimitStatus_eq hconf, remaining_status, remaining_status, checkAll_remaining,
      checkAll_remaining] at hremaining

theorem headersTrue_of_counted (hconf : config.isConfigured = true)
    (hfree : BelowLimits sha256 config rows apiKey now)
    (hcounted : RowFull rows (hashApiKey sha256 apiKey) now ∨
      2 ^ 32 ∣ later rows (hashApiKey sha256 apiKey) now + 1) :
    HeadersTrue sha256 config rows apiKey now := by
  rw [← upsert_eq_none] at hcounted
  refine ⟨fun status rows' hcheck w => ?_, fun isAllowed status rows' hcheck hlimited => ?_,
    fun hlimited => ?_⟩
  · rw [checkRateLimit_free hconf hfree] at hcheck
    obtain ⟨_, hupsert, heq⟩ := Option.map_eq_some_iff.mp hcheck
    cases heq
    rw [hupsert, or_iff_right (Option.some_ne_none _)] at hcounted
    rw [getRateLimitStatus_eq hconf, remaining_status, remaining_status, checkAll_remaining,
      checkAll_remaining]
    exact (remaining_iff hconf hfree hupsert).mpr hcounted w
  · rw [checkRateLimit_free hconf hfree] at hcheck
    obtain ⟨_, -, heq⟩ := Option.map_eq_some_iff.mp hcheck
    cases heq
    obtain ⟨w, hw⟩ := checkAll_isRateLimited.mp hlimited
    exact absurd hw (hfree w).1
  · rw [getRateLimitStatus_eq hconf] at hlimited
    obtain ⟨w, hw⟩ := checkAll_isRateLimited.mp hlimited
    exact absurd hw (hfree w).2

end

/-- The bucket of the first minute, with one request of the key. -/
def oneRequest : List CounterRow := [⟨hashApiKey id "key-a", 0, 1, 10000000⟩]

end SorobanPulse.RateLimit
