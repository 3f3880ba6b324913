import SorobanPulse.Ingest.Checkpoint

/-! Does the polling loop give up, when from some point on every `getEvents` call fails?

    An expired cursor is retried with backoff, then the call falls back to the ledger. The fallback
    resets the retry count as a response does, so that the next expired cursor is retried again:

        retry 1 ──▶ … ──▶ retry 5 ──▶ fallback
           ▲                             │
           └─────────── expiry ──────────┘

    Only another error leaves this circle. -/

namespace SorobanPulse.Ingest
open Lib

/-- Is an error with this text an expired cursor, answered by the fallback? -/
def Cycle.fallsBack (cycle : Cycle) (msg : String) : Bool :=
  isCursorExpiryError msg && cycle.cursorExpiryBackoff.shouldFallback

/-- Is it one answered by the backoff? -/
def Cycle.backsOff (cycle : Cycle) (msg : String) : Bool :=
  isCursorExpiryError msg && !cycle.cursorExpiryBackoff.shouldFallback

def Phase.cycle : Phase → Option Cycle
  | .idle => none
  | .polling cycle => some cycle
  | .storing cycle _ => some cycle

/-- The indexer, and whether the running call has fallen back to the ledger. -/
structure Watched where
  indexer : IndexerState
  fellBack : Bool

/-- Would this error send the call through the backoff? -/
def Watched.backsOff (w : Watched) (msg : String) : Bool :=
  match w.indexer.phase with
  | .polling cycle => cycle.backsOff msg
  | _ => false

def Watched.fellBackAfter (w : Watched) : Action → Bool
  | .call _ _ => false
  | .rpcError msg =>
    match w.indexer.phase with
    | .polling cycle => w.fellBack || cycle.fallsBack msg
    | _ => w.fellBack
  | _ => w.fellBack

/-- A step of the indexer, watched. -/
def Watched.step (config : Config) (libraries : Libraries) (w : Watched) (action : Action) :
    Option Watched :=
  (w.indexer.step config libraries action).map fun indexer =>
    { indexer, fellBack := w.fellBackAfter action }

/-- The first `n` calls of an RPC that fails with these messages. -/
def failures (msgs : ℕ → String) (n : ℕ) : List Action :=
  (List.range n).map fun i => .rpcError (msgs i)

/-- From `w` on all `getEvents` calls fail: the function returns an error after finitely many, and
    none of them sends it through the backoff once it has fallen back. -/
structure CannotSpin (config : Config) (libraries : Libraries) (w : Watched)
    (msgs : ℕ → String) : Prop where
  returns : ∃ n t, exec (Watched.step config libraries) w (failures msgs n) = some t ∧
    t.indexer.phase = .idle ∧ ∃ e, t.indexer.returned = some (.error e)
  noBackoff : ∀ n t, exec (Watched.step config libraries) w (failures msgs n) = some t →
    t.fellBack = true → t.backsOff (msgs n) = false

/-- Wherever the calls of a process begin to fail, and whatever they say. -/
def NeverSpins (config : Config) (libraries : Libraries) : Prop :=
  ∀ (s : IndexerState) (actions : List Action) (w : Watched) (cycle : Cycle) (msgs : ℕ → String),
    s.Started → AnyRun (Watched.step config libraries) ⟨s, false⟩ actions w →
    w.indexer.phase = .polling cycle → CannotSpin config libraries w msgs

/-- How many calls may fail before one of them must fail with another error: those that are still
    retried, the one that falls back and the one after it. -/
def Cycle.patience (cycle : Cycle) (fellBack : Bool) : ℕ :=
  if fellBack && !cycle.cursorExpiryBackoff.shouldFallback then 1
  else cycle.cursorExpiryBackoff.maxRetries.toNat - cycle.cursorExpiryBackoff.retryCount.toNat + 2

theorem CursorExpiryBackoff.shouldFallback_eq (backoff : CursorExpiryBackoff) :
    backoff.shouldFallback = decide (backoff.maxRetries.toNat ≤ backoff.retryCount.toNat) := by
  simp [shouldFallback, UInt32.le_iff_toNat_le]

theorem failures_succ (msgs : ℕ → String) (n : ℕ) :
    failures msgs (n + 1) = .rpcError (msgs 0) :: failures (fun i => msgs (i + 1)) n := by
  simp [failures, List.range_succ_eq_map, Function.comp_def]

section
variable {config : Config} {libraries : Libraries}

/-! ### One failing call -/

section
variable {w : Watched} {cycle : Cycle}

theorem Watched.step_rpcError (config : Config) (libraries : Libraries)
    (hphase : w.indexer.phase = .polling cycle) (msg : String) :
    w.step config libraries (.rpcError msg) =
      some ⟨w.indexer.rpcError cycle msg, w.fellBack || cycle.fallsBack msg⟩ := by
  simp [Watched.step, Watched.fellBackAfter, IndexerState.step, hphase]

theorem Watched.backsOff_polling (hphase : w.indexer.phase = .polling cycle) (msg : String) :
    w.backsOff msg = cycle.backsOff msg := by
  simp [Watched.backsOff, hphase]

theorem exec_failures_succ (hphase : w.indexer.phase = .polling cycle) (msgs : ℕ → String)
    (n : ℕ) :
    exec (Watched.step config libraries) w (failures msgs (n + 1)) =
      exec (Watched.step config libraries)
        ⟨w.indexer.rpcError cycle (msgs 0), w.fellBack || cycle.fallsBack (msgs 0)⟩
        (failures (fun i => msgs (i + 1)) n) := by
  rw [failures_succ, exec, Watched.step_rpcError _ _ hphase, Option.bind_some]

/-- A call that has returned makes no further ones. -/
theorem exec_failures_idle (hphase : w.indexer.phase = .idle) {msgs : ℕ → String} {n : ℕ}
    {t : Watched} (h : exec (Watched.step config libraries) w (failures msgs n) = some t) :
    t = w := by
  cases n with
  | zero => exact (Option.some.inj h).symm
  | succ n =>
    rw [failures_succ, exec] at h
    simp [Watched.step, IndexerState.step, hphase] at h

theorem rpcError_other {s : IndexerState} {msg : String} (h : isCursorExpiryError msg = false) :
    s.rpcError cycle msg = { s with phase := .idle, returned := some (.error (.rpc msg)) } := by
  simp [IndexerState.rpcError, h]

/-- Another error ends the call. -/
theorem cannotSpin_of_other (hphase : w.indexer.phase = .polling cycle) {msgs : ℕ → String}
    (hother : isCursorExpiryError (msgs 0) = false) : CannotSpin config libraries w msgs where
  returns := by
    refine ⟨1, _, exec_failures_succ hphase msgs 0, ?_, .rpc (msgs 0), ?_⟩
    · rw [rpcError_other hother]
    · rw [rpcError_other hother]
  noBackoff := by
    intro n t hexec _
    cases n with
    | zero =>
      obtain rfl := Option.some.inj hexec
      rw [Watched.backsOff_polling hphase, Cycle.backsOff, hother, Bool.false_and]
    | succ n =>
      rw [exec_failures_succ hphase, rpcError_other hother] at hexec
      rw [exec_failures_idle rfl hexec]
      rfl

/-- An expired cursor leaves the rest of the calls to the state after it. -/
theorem cannotSpin_iff_tail (hphase : w.indexer.phase = .polling cycle) {msgs : ℕ → String}
    {after : Watched}
    (hstep : w.step config libraries (.rpcError (msgs 0)) = some after) :
    CannotSpin config libraries w msgs ↔
      (w.fellBack = true → cycle.backsOff (msgs 0) = false) ∧
        CannotSpin config libraries after fun i => msgs (i + 1) := by
  -- the failures of a call are its first one and those of the call after it
  have hsucc : ∀ n, exec (Watched.step config libraries) w (failures msgs (n + 1)) =
      exec (Watched.step config libraries) after (failures (fun i => msgs (i + 1)) n) := by
    intro n
    rw [failures_succ, exec, hstep, Option.bind_some]
  constructor
  · intro h
    refine ⟨?_, ?_, ?_⟩
    · -- the step at hand
      intro hfell
      rw [← Watched.backsOff_polling hphase]
      exact h.noBackoff 0 w rfl hfell
    · -- a polling call has not returned yet
      obtain ⟨n, t, hexec, hidle, herror⟩ := h.returns
      cases n with
      | zero =>
        obtain rfl := Option.some.inj hexec
        rw [hphase] at hidle
        cases hidle
      | succ n => exact ⟨n, t, (hsucc n).symm.trans hexec, hidle, herror⟩
    · intro n t hexec hfell
      exact h.noBackoff (n + 1) t ((hsucc n).trans hexec) hfell
  · rintro ⟨hfirst, h⟩
    constructor
    · obtain ⟨n, t, hexec, hreturned⟩ := h.returns
      exact ⟨n + 1, t, (hsucc n).trans hexec, hreturned⟩
    · intro n t hexec hfell
      cases n with
      | zero =>
        obtain rfl := Option.some.inj hexec
        rw [Watched.backsOff_polling hphase]
        exact hfirst hfell
      | succ n => exact h.noBackoff n t ((hsucc n).symm.trans hexec) hfell

/-- The phase an expired cursor leads to. -/
theorem rpcError_expired (s : IndexerState) (cycle : Cycle) {msg : String}
    (h : isCursorExpiryError msg = true) :
    (cycle.cursorExpiryBackoff.shouldFallback = true ∧
      (s.rpcError cycle msg).phase = .polling { cycle with
        cursor := none
        cursorExpiryBackoff := cycle.cursorExpiryBackoff.reset }) ∨
    (cycle.cursorExpiryBackoff.shouldFallback = false ∧
      (s.rpcError cycle msg).phase = .polling { cycle with
        cursorExpiryBackoff := cycle.cursorExpiryBackoff.nextBackoff.2 }) := by
  unfold IndexerState.rpcError
  rw [if_pos h]
  split
  · next hfallback => exact .inl ⟨hfallback, rfl⟩
  · next hretry => exact .inr ⟨Bool.eq_false_of_not_eq_true hretry, rfl⟩

theorem patience_pos (cycle : Cycle) (fellBack : Bool) : 0 < cycle.patience fellBack := by
  unfold Cycle.patience
  split <;> omega

/-- Each expired cursor takes one from the patience, unless the call backs off after a fallback. -/
theorem patience_rpcError {w after : Watched} {msg : String}
    (hphase : w.indexer.phase = .polling cycle)
    (hlimit : 0 < cycle.cursorExpiryBackoff.maxRetries.toNat)
    (hexpired : isCursorExpiryError msg = true)
    (hfirst : w.fellBack = true → cycle.backsOff msg = false)
    (hstep : w.step config libraries (.rpcError msg) = some after) :
    ∃ next, after.indexer.phase = .polling next ∧
      next.cursorExpiryBackoff.maxRetries = cycle.cursorExpiryBackoff.maxRetries ∧
      next.patience after.fellBack + 1 = cycle.patience w.fellBack := by
  rw [Watched.step_rpcError _ _ hphase] at hstep
  obtain rfl := Option.some.inj hstep
  rcases rpcError_expired w.indexer cycle hexpired with
    ⟨hfallback, hnext⟩ | ⟨hretry, hnext⟩
  · -- the attempts are used up: the fallback resets them and takes one from the patience
    refine ⟨_, hnext, rfl, ?_⟩
    have hreset : cycle.cursorExpiryBackoff.reset.shouldFallback = false := by
      rw [CursorExpiryBackoff.shouldFallback_eq, decide_eq_false_iff_not]
      exact not_le.mpr hlimit
    have hspent := hfallback
    rw [CursorExpiryBackoff.shouldFallback_eq, decide_eq_true_eq] at hspent
    simp [Cycle.patience, Cycle.fallsBack, hexpired, hfallback, hreset]
    omega
  · -- a delay, and one attempt less
    refine ⟨_, hnext, rfl, ?_⟩
    have hfell : w.fellBack = false := by
      by_contra hfell
      have hbacks := hfirst (Bool.eq_true_of_not_eq_false hfell)
      simp [Cycle.backsOff, hexpired, hretry] at hbacks
    have hcount := CursorExpiryBackoff.nextBackoff_retryCount hretry
    have hleft := hretry
    rw [CursorExpiryBackoff.shouldFallback_eq, decide_eq_false_iff_not] at hleft
    have hmax : cycle.cursorExpiryBackoff.nextBackoff.2.maxRetries =
        cycle.cursorExpiryBackoff.maxRetries := rfl
    simp [Cycle.patience, Cycle.fallsBack, hretry, hfell, hcount, hmax]
    omega

/-- With retries to spend, the call gives up exactly if another error comes within its patience. -/
theorem cannotSpin_iff_of_limit {w : Watched} {msgs : ℕ → String}
    (hphase : w.indexer.phase = .polling cycle)
    (hlimit : 0 < cycle.cursorExpiryBackoff.maxRetries.toNat) :
    CannotSpin config libraries w msgs ↔
      ∃ n < cycle.patience w.fellBack, isCursorExpiryError (msgs n) = false := by
  -- the induction is on the patience
  induction hpatience : cycle.patience w.fellBack generalizing w cycle msgs with
  | zero => exact absurd hpatience (patience_pos cycle w.fellBack).ne'
  | succ k ih =>
    rw [Nat.exists_lt_succ_left]
    cases hexpired : isCursorExpiryError (msgs 0) with
    | false => exact ⟨fun _ => .inl rfl, fun _ => cannotSpin_of_other hphase hexpired⟩
    | true =>
      have hstep := Watched.step_rpcError config libraries hphase (msgs 0)
      rw [cannotSpin_iff_tail hphase hstep]
      by_cases hfirst : w.fellBack = true → cycle.backsOff (msgs 0) = false
      · obtain ⟨next, hnext, hmax, hless⟩ :=
          patience_rpcError hphase hlimit hexpired hfirst hstep
        rw [ih hnext (by rw [hmax]; exact hlimit) (by omega), and_iff_right hfirst]
        simp only [reduceCtorEq, false_or]
      · obtain ⟨hfell, hbacks⟩ := Classical.not_imp.mp hfirst
        have hlast : cycle.patience w.fellBack = 1 := by
          simp only [Cycle.backsOff, hexpired, Bool.true_and, Bool.not_eq_false] at hbacks
          rw [Cycle.patience, hfell, hbacks, Bool.true_and, if_pos rfl]
        have hk : k = 0 := by omega
        simp [hfirst, hk]

/-- Expired cursors alone keep the call going round. -/
theorem polling_of_expired {w t : Watched} {msgs : ℕ → String} {n : ℕ}
    (hphase : w.indexer.phase = .polling cycle) (hexpired : ∀ i, isCursorExpiryError (msgs i) = true)
    (h : exec (Watched.step config libraries) w (failures msgs n) = some t) :
    ∃ cycle, t.indexer.phase = .polling cycle := by
  induction n generalizing w cycle msgs with
  | zero =>
    obtain rfl := Option.some.inj h
    exact ⟨cycle, hphase⟩
  | succ n ih =>
    rw [exec_failures_succ hphase] at h
    rcases rpcError_expired w.indexer cycle (hexpired 0) with ⟨_, hnext⟩ | ⟨_, hnext⟩
    · exact ih hnext (fun i => hexpired (i + 1)) h
    · exact ih hnext (fun i => hexpired (i + 1)) h
end

/-! ### The limit of a running call -/

theorem finish_phase (s : IndexerState) (cycle : Cycle) (page : Page) (ending : Ending) :
    (s.finish cycle page ending).phase = (cycle.next page.result ending.committed).1 := by
  unfold IndexerState.finish
  split <;> rfl

/-- The limit of a running call is that of a new backoff, or the one it had before the step. -/
theorem maxRetries_step {s t : IndexerState} {action : Action} {cycle : Cycle}
    (hstep : s.step config libraries action = some t) (hmem : cycle ∈ t.phase.cycle) :
    cycle.cursorExpiryBackoff.maxRetries = 5 ∨ ∃ old ∈ s.phase.cycle,
      cycle.cursorExpiryBackoff.maxRetries = old.cursorExpiryBackoff.maxRetries := by
  cases action with
  | call startLedger loaded =>
    simp only [IndexerState.step] at hstep
    split at hstep
    · cases hstep
      cases hmem
      exact .inl rfl  -- a new call starts with a new backoff of five
    · cases hstep
  | rpcError msg =>
    simp only [IndexerState.step] at hstep
    split at hstep
    · next old hphase =>
      cases hstep
      cases hexpired : isCursorExpiryError msg with
      | false =>
        rw [rpcError_other hexpired] at hmem
        cases hmem
      | true =>
        rcases rpcError_expired s old hexpired with ⟨_, hnext⟩ | ⟨_, hnext⟩
        · rw [hnext] at hmem
          cases hmem
          exact .inr ⟨old, by rw [hphase]; rfl, rfl⟩  -- one more attempt of the same backoff
        · rw [hnext] at hmem
          cases hmem
          -- the attempts are used up, and the backoff is reset with its limit as it was
          exact .inr ⟨old, by rw [hphase]; rfl, rfl⟩
    · cases hstep
  | receive result begins =>
    simp only [IndexerState.step] at hstep
    split at hstep
    · next old hphase =>
      cases hstep
      unfold IndexerState.receive at hmem
      split at hmem
      · cases hmem
        exact .inr ⟨old, by rw [hphase]; rfl, rfl⟩
      · cases hmem
    · cases hstep
  | store fault eid =>
    simp only [IndexerState.step] at hstep
    split at hstep
    · next old page hphase =>
      split at hstep
      · next event rest _ =>
        cases hstep
        obtain ⟨tx, hnext⟩ := store_page config libraries s old page event rest fault eid
        rw [hnext] at hmem  -- storing changes the page only
        cases hmem
        exact .inr ⟨cycle, by rw [hphase]; rfl, rfl⟩
      · cases hstep
    · cases hstep
  | finish ending =>
    simp only [IndexerState.step] at hstep
    split at hstep
    · next old page hphase =>
      split at hstep
      · cases hstep
        rw [finish_phase] at hmem
        unfold Cycle.next at hmem
        split at hmem
        · cases hmem
        · -- a call that ends keeps no backoff
          cases hmem
        · cases hmem
          exact .inr ⟨old, by rw [hphase]; rfl, rfl⟩
      · cases hstep
    · cases hstep

/-- A running call retries five times. -/
def FiveRetries (w : Watched) : Prop :=
  ∀ cycle ∈ w.indexer.phase.cycle, cycle.cursorExpiryBackoff.maxRetries = 5

theorem fiveRetries_step {w t : Watched} {action : Action}
    (hstep : w.step config libraries action = some t) (h : FiveRetries w) : FiveRetries t := by
  obtain ⟨indexer, hindexer, rfl⟩ := Option.map_eq_some_iff.mp hstep
  intro cycle hmem
  rcases maxRetries_step hindexer hmem with hfive | ⟨old, hold, heq⟩
  · exact hfive
  · rw [heq, h old hold]

theorem fiveRetries_run {s : IndexerState} {actions : List Action} {w : Watched} (hstart : s.Started)
    (hrun : AnyRun (Watched.step config libraries) ⟨s, false⟩ actions w) : FiveRetries w := by
  refine hrun.invariant (fun _ hstep h => fiveRetries_step hstep h) ?_
  rw [FiveRetries, hstart.idle]
  rintro _ ⟨⟩

end

/-- Wherever the calls begin to fail: the loop gives up, and has not gone back to the backoff after
    falling back, exactly if an error that is no expired cursor comes before its patience ends. -/
theorem cannotSpin_iff (config : Config) (libraries : Libraries) (s : IndexerState)
    (actions : List Action) (w : Watched) (cycle : Cycle) (msgs : ℕ → String) (hstart : s.Started)
    (hrun : AnyRun (Watched.step config libraries) ⟨s, false⟩ actions w)
    (hphase : w.indexer.phase = .polling cycle) :
    CannotSpin config libraries w msgs ↔
      ∃ n < cycle.patience w.fellBack, isCursorExpiryError (msgs n) = false := by
  have hfive := fiveRetries_run hstart hrun cycle (by rw [hphase]; rfl)
  exact cannotSpin_iff_of_limit hphase (by rw [hfive]; decide)

/-! ### The first call of a process -/

def firstCall : Watched where
  indexer := (sampleStart none).call {} 100 true
  fellBack := false

theorem firstCall_run :
    AnyRun (Watched.step {} sampleLibraries) ⟨sampleStart none, false⟩ [.call 100 true] firstCall :=
  .cons trivial rfl (.nil _)

/-- It gives up exactly if one of its first seven errors is another one. -/
theorem cannotSpin_firstCall :
    (sampleStart none).Started ∧ ∀ msgs : ℕ → String,
      CannotSpin {} sampleLibraries firstCall msgs ↔
        ∃ n < 7, isCursorExpiryError (msgs n) = false :=
  ⟨sampleStart_started none, fun msgs =>
    cannotSpin_iff {} sampleLibraries _ _ firstCall ⟨100, some "100-0", 100, .new⟩ msgs
      (sampleStart_started none) firstCall_run rfl⟩

/-- A cursor that stays expired is asked for again and again. -/
theorem not_neverSpins : ¬ NeverSpins {} sampleLibraries := by
  intro h
  obtain ⟨n, t, hexec, hidle, _⟩ := (h _ _ firstCall _ (fun _ => "cursor expired")
    (sampleStart_started none) firstCall_run rfl).returns
  obtain ⟨cycle, hpolling⟩ := polling_of_expired rfl (fun _ => by decide +kernel) hexec
  rw [hpolling] at hidle
  cases hidle

end SorobanPulse.Ingest
