import SorobanPulse.RateLimit.CheckRateLimit

/-! Concurrent transactions of `check_rate_limit`, for one key and within one minute.

    At READ COMMITTED each statement sees what was committed before it. The reads take no lock; an
    upsert locks the row of the bucket until its transaction ends:

        idle ──begin──▶ checking ──read──▶ … ──read──▶ checking ──upsert──▶ upserted ──commit──▶ done
                                                          └──commit, if limited────────────────▶ done

    Two transactions may both read the counters before either commits, and both take the last slot.
    `run_admitted`: as long as each transaction that finds room in a window finds it for those, too,
    that have found room there and are not yet at their end, no limit is exceeded. -/

namespace SorobanPulse.RateLimit
open Lib

inductive Transaction where
  | idle
  /-- The windows that are still to be read. -/
  | checking (now : ℕ) (rest : List Window) (tally : Tally)
  /-- The rows as they are to be committed. -/
  | upserted (tally : Tally) (rows : List CounterRow)
  /-- What the call returns; `none` for an error. -/
  | done (result : Option (Bool × RateLimitStatus))

/-- The windows for which there is a statement. -/
def RateLimitConfig.windows (config : RateLimitConfig) : List Window :=
  RateLimit.windows.filter fun w => (config.limit w).isSome

/-- It has read the window and not yet come to its end, and so far it is not limited. -/
def Transaction.Claims (w : Window) : Transaction → Prop
  | .checking _ rest tally => w ∉ rest ∧ tally.isRateLimited = false
  | .upserted .. => True
  | _ => False

structure Database where
  /-- The committed rows. -/
  rows : List CounterRow
  /-- Who holds the lock of the bucket's row. -/
  lock : Option ℕ
  phase : ℕ → Transaction
  /-- How many calls have returned `is_allowed = true`. -/
  allowed : ℕ

def Database.new (rows : List CounterRow) : Database := ⟨rows, none, fun _ => .idle, 0⟩

def Database.set (s : Database) (c : ℕ) (p : Transaction) : Database :=
  { s with phase := Function.update s.phase c p }

inductive Label where
  | begin (c now : ℕ)
  | read (c : ℕ)
  | upsert (c : ℕ)
  | commit (c : ℕ)
  /-- A statement fails or the connection is lost: the transaction is rolled back. -/
  | fail (c : ℕ)

section
variable (config : RateLimitConfig) (hash : String) (minute : ℕ)

def Database.step (s : Database) : Label → Option Database
  | .begin c now =>
    match s.phase c with
    | .idle =>
      if now / MINUTE = minute then
        if config.isConfigured then some (s.set c (.checking now config.windows (.new config)))
        else
          some
            { s.set c (.done (some (true, (Tally.new config).status config))) with
              allowed := s.allowed + 1 }
      else none
    | _ => none
  | .read c =>
    match s.phase c with
    | .checking now (w :: rest) tally =>
      some (s.set c (.checking now rest
        (tally.check config now w (getAndUpdateCounter s.rows hash (now - w.length) now).1)))
    | _ => none
  | .upsert c =>
    match s.phase c, s.lock with
    | .checking now [] tally, none =>
      if tally.isRateLimited then none
      else
        match RateLimit.upsert hash (bucket now) (micros now) s.rows with
        | some rows => some { s.set c (.upserted tally rows) with lock := some c }
        | none => some (s.set c (.done none))
    | _, _ => none
  | .commit c =>
    match s.phase c with
    | .checking _ [] tally =>
      if tally.isRateLimited then some (s.set c (.done (some (false, tally.status config))))
      else none
    | .upserted tally rows =>
      some
        { s.set c (.done (some (true, tally.status config))) with
          rows, lock := none, allowed := s.allowed + 1 }
    | _ => none
  | .fail c =>
    match s.phase c with
    | .checking .. => some (s.set c (.done none))
    | .upserted .. => some { s.set c (.done none) with lock := none }
    | _ => none

/-- No limit is exceeded. -/
def Admitted (s : Database) : Prop :=
  ∀ w limit, config.limit w = some limit → s.allowed ≤ limit.toNat

/-- A transaction that finds room in a window, and has in those before it, finds it for the others,
    too, that claim a slot there. -/
def RoomForClaims (s : Database) : Label → Prop
  | .read c => ∀ now w rest tally limit, s.phase c = .checking now (w :: rest) tally →
      config.limit w = some limit → tally.isRateLimited = false →
        UInt32.ofNat (sumCounts s.rows hash (now - w.length) now) < limit →
          ∀ others : Finset ℕ, (∀ d ∈ others, d ≠ c ∧ (s.phase d).Claims w) →
            sumCounts s.rows hash (now - w.length) now + others.card < limit.toNat
  | _ => True

end

section
variable {config : RateLimitConfig} {hash : String} {minute : ℕ} {s t : Database}

/-! ### A transaction on its own -/

@[simp] theorem set_rows (c : ℕ) (p : Transaction) : (s.set c p).rows = s.rows := rfl

@[simp] theorem set_lock (c : ℕ) (p : Transaction) : (s.set c p).lock = s.lock := rfl

@[simp] theorem set_phase (c : ℕ) (p : Transaction) : (s.set c p).phase c = p :=
  Function.update_self ..

theorem set_phase_ne {c d : ℕ} (p : Transaction) (hd : d ≠ c) : (s.set c p).phase d = s.phase d :=
  Function.update_of_ne hd ..

@[simp] theorem set_set (c : ℕ) (p q : Transaction) : (s.set c p).set c q = s.set c q := by
  rw [Database.set, Database.set, Database.set, Function.update_idem]

/-- The reads of a transaction, with nothing in between. -/
theorem exec_reads {c now : ℕ} {rest : List Window} {tally : Tally}
    (hc : s.phase c = .checking now rest tally) :
    exec (Database.step config hash minute) s (rest.map fun _ => .read c) =
      some (s.set c (.checking now [] (rest.foldl (fun tally w =>
        tally.check config now w (getAndUpdateCounter s.rows hash (now - w.length) now).1) tally))) := by
  induction rest generalizing s tally with
  | nil => rw [List.map_nil, List.foldl_nil, exec, ← hc, Database.set, Function.update_eq_self]
  | cons w rest ih =>
    rw [List.map_cons, exec, Database.step, hc]
    dsimp only
    rw [Option.bind_some, ih (set_phase ..), set_rows, set_set, List.foldl_cons]

/-- Windows without a limit change nothing. -/
theorem foldl_windows (now : ℕ) (count : Window → UInt32) :
    config.windows.foldl (fun tally w => Tally.check config now w (count w) tally) (.new config) =
      Tally.checkAll config now count := by
  rw [RateLimitConfig.windows, List.foldl_filter, Tally.checkAll]
  congr 1
  funext tally w
  cases hlimit : config.limit w with
  | none => simp [Tally.check, hlimit]
  | some limit => simp

/-- The statements of a call after its reads. -/
def finish (c : ℕ) (isAllowed : Bool) : List Label :=
  if isAllowed then [.upsert c, .commit c] else [.commit c]

/-- A transaction that runs alone does what the call does in a sequence. -/
theorem exec_call {sha256 : List UInt8 → List UInt8} {apiKey : String} {c now : ℕ}
    {isAllowed : Bool} {status : RateLimitStatus} {rows : List CounterRow}
    (hconf : config.isConfigured = true) (hc : s.phase c = .idle) (hlock : s.lock = none)
    (hnow : now / MINUTE = minute)
    (h : checkRateLimit sha256 config s.rows apiKey now = some ((isAllowed, status), rows)) :
    exec (Database.step config (hashApiKey sha256 apiKey) minute) s
        (.begin c now :: (config.windows.map fun _ => .read c) ++ finish c isAllowed) =
      some
        { s.set c (.done (some (isAllowed, status))) with
          rows, allowed := if isAllowed then s.allowed + 1 else s.allowed } := by
  rw [checkRateLimit, if_pos hconf] at h
  dsimp only at h
  rw [List.cons_append, exec, Database.step, hc]
  dsimp only
  rw [if_pos hnow, if_pos hconf, Option.bind_some, exec_append, exec_reads (set_phase ..), set_rows,
    set_set, foldl_windows, Option.bind_some]
  split at h
  · next hlimited =>
    cases h
    simp only [finish, exec, Database.step, set_phase, hlimited, if_true, Option.bind_some, set_set,
      Bool.false_eq_true, if_false]
    rfl
  · next hfree =>
    obtain ⟨_, hupsert, heq⟩ := Option.map_eq_some_iff.mp h
    cases heq
    simp only [finish, exec, Database.step, set_phase, set_lock, set_rows, hlock, hfree, bucket,
      hupsert, if_true, if_false, Option.bind_some, Bool.false_eq_true]
    simp only [Database.set, Function.update_idem]

/-! ### The bucket of the minute -/

theorem total_mono {p q : String → ℕ → Bool} (h : ∀ h start, p h start = true → q h start = true)
    (rows : List CounterRow) : total p rows ≤ total q rows := by
  induction rows with
  | nil => exact Nat.le_refl _
  | cons row rows ih =>
    rw [total_cons, total_cons]
    refine Nat.add_le_add ?_ ih
    split
    · next hp => rw [if_pos (h _ _ hp)]
    · exact Nat.zero_le _

/-- The rows of the key in the bucket of the minute. -/
def inBucket (hash : String) (minute : ℕ) (h : String) (start : ℕ) : Bool :=
  h = hash ∧ start = micros (minute * MINUTE)

/-- Every window is at least a minute long, so a transaction of the minute sums up its bucket. -/
theorem inBucket_le_sumCounts {now : ℕ} (hnow : now / MINUTE = minute) (w : Window)
    (rows : List CounterRow) :
    total (inBucket hash minute) rows ≤ sumCounts rows hash (now - w.length) now := by
  refine total_mono (fun h start hin => ?_) rows
  obtain ⟨rfl, rfl⟩ := of_decide_eq_true hin
  have hlength : MINUTE ≤ w.length := by cases w <;> decide
  have hstart : minute * MINUTE ≤ now := hnow ▸ Nat.div_mul_le_self now MINUTE
  have hend : now < minute * MINUTE + MINUTE := by
    rw [← hnow]
    exact Nat.lt_div_mul_add (by decide)
  rw [decide_eq_true_iff]
  exact ⟨rfl, Nat.div_le_div_right (by omega), Nat.div_le_div_right hstart⟩

theorem mem_windows {w : Window} {limit : UInt32} (h : config.limit w = some limit) :
    w ∈ config.windows := by
  refine List.mem_filter.mpr ⟨?_, by rw [h]; rfl⟩
  cases w <;> simp [windows]

/-! ### The invariant -/

/-- A call of the minute; an upserted one holds the lock, so the rows are those it has read. -/
def Holds (hash : String) (minute : ℕ) (s : Database) (c : ℕ) : Transaction → Prop
  | .checking now _ _ => now / MINUTE = minute
  | .upserted _ rows => s.lock = some c ∧
      ∃ now, now / MINUTE = minute ∧ upsert hash (bucket now) (micros now) s.rows = some rows
  | _ => True

/-- The allowed calls are in the committed bucket, and with the transactions that claim a slot of a
    window they are within its limit. -/
structure Slots (config : RateLimitConfig) (hash : String) (minute : ℕ) (s : Database) : Prop where
  counted : s.allowed ≤ total (inBucket hash minute) s.rows
  holds : ∀ c, Holds hash minute s c (s.phase c)
  claimed : ∀ w limit, config.limit w = some limit → ∀ claims : Finset ℕ,
    (∀ c ∈ claims, (s.phase c).Claims w) → s.allowed + claims.card ≤ limit.toNat

theorem slots_new (config : RateLimitConfig) (hash : String) (minute : ℕ) (rows : List CounterRow) :
    Slots config hash minute (.new rows) := by
  refine ⟨Nat.zero_le _, fun _ => trivial, fun w limit _ claims hclaims => ?_⟩
  obtain rfl := Finset.eq_empty_of_forall_notMem fun c hc => hclaims c hc
  exact Nat.zero_le _

theorem Slots.admitted (h : Slots config hash minute s) : Admitted config s :=
  fun w limit hlimit => h.claimed w limit hlimit ∅ fun _ hc => absurd hc (Finset.notMem_empty _)

/-- Without an upsert a transaction asks nothing of the rows and the lock. -/
theorem Holds.anywhere {c : ℕ} {p : Transaction} (h : Holds hash minute s c p)
    (hp : ∀ tally rows, p ≠ .upserted tally rows) (t : Database) : Holds hash minute t c p := by
  cases p with
  | idle | done result => trivial
  | checking now rest tally => exact h
  | upserted tally rows => exact absurd rfl (hp tally rows)

/-- Whoever has an upsert has the lock. -/
theorem Slots.locked (h : Slots config hash minute s) {c : ℕ} {tally : Tally}
    {rows : List CounterRow} (hc : s.phase c = .upserted tally rows) : s.lock = some c := by
  have hheld := h.holds c
  rw [hc] at hheld
  exact hheld.1

/-- One transaction moves and claims no slot that it has not claimed before. -/
theorem Slots.claimed_set (h : Slots config hash minute s) {c : ℕ} {p : Transaction}
    (hclaims : ∀ w limit, config.limit w = some limit → p.Claims w → (s.phase c).Claims w)
    {w : Window} {limit : UInt32} (hlimit : config.limit w = some limit) {claims : Finset ℕ}
    (hall : ∀ d ∈ claims, ((s.set c p).phase d).Claims w) :
    s.allowed + claims.card ≤ limit.toNat := by
  refine h.claimed w limit hlimit claims fun d hd => ?_
  have hclaim := hall d hd
  by_cases hdc : d = c
  · subst hdc
    rw [set_phase] at hclaim
    exact hclaims w limit hlimit hclaim
  · rwa [set_phase_ne p hdc] at hclaim

theorem Slots.set (h : Slots config hash minute s) {c : ℕ} {p : Transaction}
    (hp : Holds hash minute s c p)
    (hclaims : ∀ w limit, config.limit w = some limit → p.Claims w → (s.phase c).Claims w) :
    Slots config hash minute (s.set c p) where
  counted := h.counted
  holds := (Function.forall_update_iff s.phase fun d q => Holds hash minute s d q).mpr
    ⟨hp, fun d _ => h.holds d⟩
  claimed := fun _ _ hlimit _ hall => h.claimed_set hclaims hlimit hall

/-- Nothing has been read before every window. -/
theorem Slots.begin (h : Slots config hash minute s) (c : ℕ) {now : ℕ}
    (hnow : now / MINUTE = minute) :
    Slots config hash minute (s.set c (.checking now config.windows (.new config))) :=
  h.set hnow fun _ _ hlimit hclaim => absurd (mem_windows hlimit) hclaim.1

/-- An end without an allowed call. -/
theorem Slots.finish (h : Slots config hash minute s) (c : ℕ)
    (result : Option (Bool × RateLimitStatus)) : Slots config hash minute (s.set c (.done result)) :=
  h.set trivial fun _ _ _ => False.elim

/-- A transaction that reads a window claims a slot of it, if it finds room. -/
theorem Slots.read (h : Slots config hash minute s) {c now : ℕ} {w : Window} {rest : List Window}
    {tally : Tally} (hP : RoomForClaims config hash s (.read c))
    (hc : s.phase c = .checking now (w :: rest) tally) :
    Slots config hash minute (s.set c (.checking now rest
      (tally.check config now w (getAndUpdateCounter s.rows hash (now - w.length) now).1))) := by
  have hnow := h.holds c
  rw [hc] at hnow
  refine ⟨h.counted, ?_, fun v limit hlimit claims hall => ?_⟩
  · exact (Function.forall_update_iff s.phase fun d q => Holds hash minute s d q).mpr
      ⟨hnow, fun d _ => h.holds d⟩
  have hothers : ∀ d ∈ claims.erase c, d ≠ c ∧ (s.phase d).Claims v := by
    intro d hd
    obtain ⟨hdc, hd⟩ := Finset.mem_erase.mp hd
    have hclaim := hall d hd
    rw [set_phase_ne _ hdc] at hclaim
    exact ⟨hdc, hclaim⟩
  change s.allowed + claims.card ≤ limit.toNat
  by_cases hmem : c ∈ claims
  · have hclaim := hall c hmem
    rw [set_phase] at hclaim
    obtain ⟨hread, hfree⟩ := hclaim
    rw [Bool.eq_false_iff, Ne, check_isRateLimited, not_or, Bool.not_eq_true] at hfree
    obtain ⟨htally, hroom⟩ := hfree
    by_cases hv : v = w
    · subst hv
      have hlt := UInt32.not_le.mp fun hfull => hroom ⟨limit, hlimit, hfull⟩
      have hsum := hP now v rest tally limit hc hlimit htally hlt _ hothers
      have hbucket := @inBucket_le_sumCounts hash minute now hnow v s.rows
      have hcounted := h.counted
      have hcard := Finset.card_erase_add_one hmem
      omega
    · -- its slot in this window was claimed when it was read
      refine h.claimed v limit hlimit claims fun d hd => ?_
      by_cases hdc : d = c
      · rw [hdc, hc]
        exact ⟨fun hin => (List.mem_cons.mp hin).elim hv hread, htally⟩
      · exact (hothers d (Finset.mem_erase.mpr ⟨hdc, hd⟩)).2
  · rw [Finset.erase_eq_of_notMem hmem] at hothers
    exact h.claimed v limit hlimit claims fun d hd => (hothers d hd).2

theorem Slots.upsert (h : Slots config hash minute s) {c now : ℕ} {tally : Tally}
    {rows : List CounterRow} (hlock : s.lock = none) (hc : s.phase c = .checking now [] tally)
    (hfree : tally.isRateLimited = false)
    (hrows : RateLimit.upsert hash (bucket now) (micros now) s.rows = some rows) :
    Slots config hash minute { s.set c (.upserted tally rows) with lock := some c } := by
  have hnow := h.holds c
  rw [hc] at hnow
  refine ⟨h.counted, fun d => ?_, fun w limit hlimit claims hall => ?_⟩
  · by_cases hdc : d = c
    · subst hdc
      exact (set_phase d (.upserted tally rows) (s := s)).symm ▸ ⟨rfl, now, hnow, hrows⟩
    · change Holds hash minute _ d ((s.set c (.upserted tally rows)).phase d)
      rw [set_phase_ne _ hdc]
      refine (h.holds d).anywhere (fun tally' rows' hphase => ?_) _
      cases hlock.symm.trans (h.locked hphase)
  · refine h.claimed_set (fun _ _ _ _ => ?_) hlimit hall
    rw [hc]
    exact ⟨List.not_mem_nil, hfree⟩

/-- Once the transaction with the lock has ended, nobody has an upsert. -/
theorem Slots.holds_end (h : Slots config hash minute s) {c : ℕ} {tally : Tally}
    {rows : List CounterRow} (hc : s.phase c = .upserted tally rows)
    (result : Option (Bool × RateLimitStatus)) (t : Database) (d : ℕ) :
    Holds hash minute t d ((s.set c (.done result)).phase d) := by
  by_cases hdc : d = c
  · subst hdc
    rw [set_phase]
    trivial
  · rw [set_phase_ne _ hdc]
    refine (h.holds d).anywhere (fun tally' rows' hphase => hdc ?_) t
    exact Option.some.inj ((h.locked hphase).symm.trans (h.locked hc))

theorem Slots.rollback (h : Slots config hash minute s) {c : ℕ} {tally : Tally}
    {rows : List CounterRow} (hc : s.phase c = .upserted tally rows) :
    Slots config hash minute { s.set c (.done none) with lock := none } :=
  ⟨h.counted, h.holds_end hc none _, (h.finish c none).claimed⟩

/-- The commit of an allowed call turns its claims into slots, and adds one to the bucket. -/
theorem Slots.commit (h : Slots config hash minute s) {c : ℕ} {tally : Tally}
    {rows : List CounterRow} (hc : s.phase c = .upserted tally rows)
    (result : Option (Bool × RateLimitStatus)) :
    Slots config hash minute
      { s.set c (.done result) with rows, lock := none, allowed := s.allowed + 1 } := by
  have hheld := h.holds c
  rw [hc] at hheld
  obtain ⟨-, now, hnow, hrows⟩ := hheld
  refine ⟨?_, h.holds_end hc result _, fun w limit hlimit claims hall => ?_⟩
  · have hcounted := h.counted
    dsimp only
    rw [total_upsert hrows, if_pos]
    · omega
    · rw [inBucket, bucket, getCurrentMinuteWindow, hnow]
      simp
  · have hnot : c ∉ claims := by
      intro hmem
      have hclaim := hall c hmem
      rw [set_phase] at hclaim
      exact hclaim
    have hclaimed := h.claimed w limit hlimit (insert c claims) fun d hd => by
      rcases Finset.mem_insert.mp hd with rfl | hd
      · rw [hc]
        trivial
      · have hclaim := hall d hd
        have hdc : d ≠ c := fun heq => hnot (heq ▸ hd)
        rwa [set_phase_ne _ hdc] at hclaim
    rw [Finset.card_insert_of_notMem hnot] at hclaimed
    dsimp only
    omega

theorem slots_step {l : Label} (hconf : config.isConfigured = true) (hP : RoomForClaims config hash s l)
    (hs : s.step config hash minute l = some t) (h : Slots config hash minute s) :
    Slots config hash minute t := by
  cases l with
  | begin c now =>
    simp only [Database.step] at hs
    split at hs
    · obtain ⟨hnow, hs⟩ := Option.ite_none_right_eq_some.mp hs
      rw [if_pos hconf] at hs
      obtain rfl := Option.some.inj hs
      exact h.begin c hnow  -- without a configured limit there would be no transaction
    · cases hs
  | read c =>
    simp only [Database.step] at hs
    split at hs
    · next now w rest tally hc =>
      obtain rfl := Option.some.inj hs
      -- the only step that needs the condition: a claim is laid while there is room for it
      exact h.read hP hc
    · cases hs
  | upsert c =>
    simp only [Database.step] at hs
    split at hs
    · next now tally hc hlock =>
      obtain ⟨hfree, hs⟩ := Option.ite_none_left_eq_some.mp hs
      split at hs
      · next rows hrows =>
        obtain rfl := Option.some.inj hs
        exact h.upsert hlock hc (Bool.eq_false_iff.mpr hfree) hrows  -- the row lock is free
      · obtain rfl := Option.some.inj hs
        exact h.finish c none  -- the count is at the INTEGER maximum and the statement fails
    · cases hs
  | commit c =>
    simp only [Database.step] at hs
    split at hs
    · obtain ⟨-, hs⟩ := Option.ite_none_right_eq_some.mp hs
      obtain rfl := Option.some.inj hs
      exact h.finish c _
    · next tally rows hc =>
      obtain rfl := Option.some.inj hs
      exact h.commit hc _
    · cases hs
  | fail c =>
    simp only [Database.step] at hs
    split at hs
    · obtain rfl := Option.some.inj hs
      exact h.finish c none
    · next tally rows hc =>
      obtain rfl := Option.some.inj hs
      exact h.rollback hc
    · cases hs

end

/-- Two transactions read the counters before either commits. -/
def lastSlotTwice : List Label :=
  [.begin 0 (10 * SECOND), .begin 1 (10 * SECOND), .read 0, .read 1, .upsert 0, .commit 0, .upsert 1,
    .commit 1]

/-- Two at a time, as long as there are two slots left; the third finds the window full. -/
def twoAtATime : List Label :=
  [.begin 0 (10 * SECOND), .begin 1 (10 * SECOND), .begin 2 (10 * SECOND), .read 0, .read 1,
    .upsert 0, .commit 0, .upsert 1, .commit 1, .read 2, .commit 2]

/-- Only these can claim a slot of the minute, and there is room for all of them. -/
theorem roomForClaims_of_subset {s : Database} {c : ℕ} (claiming : Finset ℕ)
    (hclaiming : ∀ d ≠ c, (s.phase d).Claims .minute → d ∈ claiming)
    (hroom : ∀ now rest tally, s.phase c = .checking now (.minute :: rest) tally →
      UInt32.ofNat (sumCounts s.rows "hash" (now - MINUTE) now) < 2 →
        sumCounts s.rows "hash" (now - MINUTE) now + claiming.card < 2) :
    RoomForClaims (perMinute 2) "hash" s (.read c) := by
  intro now w rest tally limit hc hlimit _ hlt others hothers
  cases w with
  | minute =>
    cases hlimit
    have hcard : others.card ≤ claiming.card :=
      Finset.card_le_card fun d hd => hclaiming d (hothers d hd).1 (hothers d hd).2
    exact Nat.lt_of_le_of_lt (Nat.add_le_add_left hcard _) (hroom now rest tally hc hlt)
  | hour | day | month => cases hlimit

end SorobanPulse.RateLimit
