import Mathlib
import SorobanPulse.Lib.Run

/-! Postgres advisory lock wrapper with fencing tokens (`src/advisory_lock.rs`).

    An `AdvisoryLock` drives one Postgres session. The session's hold count for `lockId` lives on the
    server: session-level locks are reentrant, every granted `pg_try_advisory_lock` adds one hold and
    every `pg_advisory_unlock` takes one away. The instance only sees the replies that arrive before
    the client-side timeout. `Balanced` is the promise of the module's comments — a release that
    returned `Ok` leaves nothing held, and every guard releases exactly once — and
    `balanced_of_meets` proves it for the runs that keep the session at one hold.

        acquire:  attempt 1, 2, …, max_retries
                  granted ──▶ held := true, epoch += 1, guard(epoch)
                  refused / error / timeout ──▶ next attempt   (a timeout may still be granted)
        release:  guard.epoch = epoch ──▶ unlock once, held := false -/

namespace SorobanPulse.Locking
open Lib

/-- The timeouts are the environment's: each attempt says what it meets. -/
structure AdvisoryLockConfig where
  maxRetries : Nat := 3

inductive AdvisoryLockError where
  | connectionError (e : String)
  | lockAcquisitionTimeout
  | lockAcquisitionFailed (e : String)
  | lockReleaseError (e : String)
  | validationError (e : String)
  | concurrentAcquisitionInProgress
  | staleFencingToken
  deriving DecidableEq

/-- Proof of acquisition; `Copy` in the source, so a value can be passed to `release` repeatedly. -/
structure LockGuard where
  lockId : ℤ
  fencingToken : ℕ
  deriving DecidableEq

structure AdvisoryLock where
  lockId : ℤ
  config : AdvisoryLockConfig
  acquiring : Bool
  held : Bool
  epoch : ℕ

def AdvisoryLock.withConfig (lockId : ℤ) (config : AdvisoryLockConfig) : AdvisoryLock :=
  { lockId, config, acquiring := false, held := false, epoch := 0 }

/-- `epoch.fetch_add(1) + 1` on an `AtomicU64`. -/
def AdvisoryLock.nextEpoch (l : AdvisoryLock) : ℕ := (l.epoch + 1) % 2 ^ 64

/-- What one `pg_try_advisory_lock` attempt meets; a timed-out attempt may be granted anyway. -/
inductive Attempt where
  | granted
  | refused
  | error (e : String)
  | timeout (grantedOnServer : Bool)
  deriving DecidableEq

/-- The instance together with its session's hold count for `lockId`. -/
structure Held where
  lock : AdvisoryLock
  count : ℕ

/-- The loop `for attempt in 1..=max_retries`, `left` iterations before its end. -/
def acquireLoop (attempts : ℕ → Attempt) :
    ℕ → ℕ → Held → Except AdvisoryLockError LockGuard × Held
  | 0, _, s => (.error (.lockAcquisitionFailed "Max retries exceeded"), s)
  | left + 1, attempt, s =>
    match attempts attempt with
    | .granted =>
      (.ok { lockId := s.lock.lockId, fencingToken := s.lock.nextEpoch },
        { lock := { s.lock with held := true, epoch := s.lock.nextEpoch }, count := s.count + 1 })
    | .refused => acquireLoop attempts left (attempt + 1) s
    | .error e =>
      if attempt = s.lock.config.maxRetries then (.error (.lockAcquisitionFailed e), s)
      else acquireLoop attempts left (attempt + 1) s
    | .timeout grantedOnServer =>
      let s' := { s with count := if grantedOnServer then s.count + 1 else s.count }
      if attempt = s.lock.config.maxRetries then (.error .lockAcquisitionTimeout, s')
      else acquireLoop attempts left (attempt + 1) s'

/-- `connError` is the error of `SELECT 1`, if it fails. -/
def acquireInner (s : Held) (connError : Option String) (attempts : ℕ → Attempt) :
    Except AdvisoryLockError LockGuard × Held :=
  match connError with
  | some e => (.error (.connectionError e), s)
  | none => acquireLoop attempts s.lock.config.maxRetries 1 s

def acquire (s : Held) (connError : Option String) (attempts : ℕ → Attempt) :
    Except AdvisoryLockError LockGuard × Held :=
  if s.lock.acquiring then (.error .concurrentAcquisitionInProgress, s)
  else
    let r := acquireInner { s with lock := { s.lock with acquiring := true } } connError attempts
    (r.1, { r.2 with lock := { r.2.lock with acquiring := false } })

/-- `unlockError` is the error of `pg_advisory_unlock`, if it fails; unlocking a lock that is not
    held succeeds as a statement, with a warning. -/
def release (s : Held) (guard : LockGuard) (unlockError : Option String) :
    Except AdvisoryLockError Unit × Held :=
  if guard.lockId ≠ s.lock.lockId then
    (.error (.validationError "LockGuard does not match this AdvisoryLock instance"), s)
  else if s.lock.epoch ≠ guard.fencingToken then (.error .staleFencingToken, s)
  else
    match unlockError with
    | some e => (.error (.lockReleaseError e), s)
    | none => (.ok (), { lock := { s.lock with held := false }, count := s.count - 1 })

/-! ### Sequences of calls -/

inductive Call where
  | acquire (connError : Option String) (attempts : ℕ → Attempt)
  | release (guard : LockGuard) (unlockError : Option String)

/-- What a call returned to its caller. -/
inductive Reply where
  | acquired (guard : LockGuard)
  | acquireFailed (e : AdvisoryLockError)
  | released (guard : LockGuard)
  | releaseFailed (guard : LockGuard) (unlockError : Option String) (e : AdvisoryLockError)
  deriving DecidableEq

/-- The instance, its session and the replies so far, newest first. -/
structure State extends Held where
  log : List Reply

def init (lockId : ℤ) (config : AdvisoryLockConfig) : State :=
  { lock := .withConfig lockId config, count := 0, log := [] }

def Reply.ofAcquire : Except AdvisoryLockError LockGuard → Reply
  | .ok g => .acquired g
  | .error e => .acquireFailed e

def Reply.ofRelease (g : LockGuard) (unlockError : Option String) :
    Except AdvisoryLockError Unit → Reply
  | .ok _ => .released g
  | .error e => .releaseFailed g unlockError e

def step (s : State) : Call → Option State
  | .acquire c a =>
    let r := Locking.acquire s.toHeld c a
    some { r.2 with log := .ofAcquire r.1 :: s.log }
  | .release g u =>
    let r := Locking.release s.toHeld g u
    some { r.2 with log := .ofRelease g u r.1 :: s.log }

/-- Lock balance: an `Ok` release leaves no hold, and a guard releases with `Ok` the first time its
    unlock statement runs and never again. -/
structure Balanced (s : State) : Prop where
  count : ∀ g earlier, s.log = .released g :: earlier → s.lock.held = false → s.count = 0
  once : ∀ later g earlier, s.log = later ++ .released g :: earlier →
    .acquired g ∈ earlier → .released g ∉ earlier
  canRelease : ∀ later g e earlier, s.log = later ++ .releaseFailed g none e :: earlier →
    .acquired g ∈ earlier → .released g ∈ earlier

/-- The calls that keep the session at one hold: no attempt is granted behind a client timeout or to
    a session that already holds the lock, the current guard is released only while the lock is
    held, and the epoch does not wrap. -/
def Meets (s : State) : Call → Prop
  | .acquire _ a =>
    s.lock.epoch + 1 < 2 ^ 64 ∧
      ∀ i, 1 ≤ i → i ≤ s.lock.config.maxRetries →
        a i ≠ .timeout true ∧ (0 < s.count → a i ≠ .granted)
  | .release g u =>
    u = none → g = { lockId := s.lock.lockId, fencingToken := s.lock.epoch } → s.lock.held = true


/-! ### One call -/

variable {s t : State}

/-- When no timed-out attempt is granted, the loop either fails and changes nothing or takes exactly
    one hold. -/
theorem acquireLoop_cases {attempts : ℕ → Attempt} {s : Held}
    (hto : ∀ i, 1 ≤ i → i ≤ s.lock.config.maxRetries → attempts i ≠ .timeout true) :
    ∀ left attempt, 1 ≤ attempt → attempt + left = s.lock.config.maxRetries + 1 →
      (∃ e, acquireLoop attempts left attempt s = (.error e, s)) ∨
      (∃ i, 1 ≤ i ∧ i ≤ s.lock.config.maxRetries ∧ attempts i = .granted) ∧
        acquireLoop attempts left attempt s =
          (.ok { lockId := s.lock.lockId, fencingToken := s.lock.nextEpoch },
            { lock := { s.lock with held := true, epoch := s.lock.nextEpoch },
              count := s.count + 1 })
  | 0, _, _, _ => .inl ⟨_, rfl⟩
  | left + 1, attempt, h1, hsum => by
    have ih := acquireLoop_cases hto left (attempt + 1) (by omega) (by omega)
    rw [acquireLoop]
    cases ha : attempts attempt with
    | granted => exact .inr ⟨⟨attempt, h1, by omega, ha⟩, rfl⟩
    | refused => exact ih
    | error e =>
      by_cases hlast : attempt = s.lock.config.maxRetries
      · exact .inl ⟨.lockAcquisitionFailed e, by simp [hlast]⟩
      · simpa [hlast] using ih
    | timeout g =>
      cases g with
      | true => exact absurd ha (hto attempt h1 (by omega))
      | false =>
        by_cases hlast : attempt = s.lock.config.maxRetries
        · exact .inl ⟨.lockAcquisitionTimeout, by simp [hlast]⟩
        · simpa [hlast] using ih

/-- An `acquire` that meets the condition fails without effect, or takes the first hold. -/
theorem step_acquire_cases {c : Option String} {a : ℕ → Attempt} (hacq : s.lock.acquiring = false)
    (hm : Meets s (.acquire c a)) (hs : step s (.acquire c a) = some t) :
    (∃ e, t = { s with log := .acquireFailed e :: s.log }) ∨
    s.count = 0 ∧
      t = {
        lock := { s.lock with held := true, epoch := s.lock.epoch + 1 }
        count := 1
        log := .acquired { lockId := s.lock.lockId, fencingToken := s.lock.epoch + 1 } :: s.log } := by
  obtain ⟨hepoch, hatt⟩ := hm
  have hlock : { s.lock with acquiring := false } = s.lock := by
    rw [← hacq]
  have hnext : s.lock.nextEpoch = s.lock.epoch + 1 := Nat.mod_eq_of_lt hepoch
  simp only [step, Option.some.injEq] at hs
  subst hs
  cases c with
  | some e =>
    exact .inl ⟨.connectionError e, by simp [acquire, acquireInner, hacq, Reply.ofAcquire, hlock]⟩
  | none =>
    have hloop := @acquireLoop_cases a { s.toHeld with lock := { s.lock with acquiring := true } }
      (fun i h1 hi => (hatt i h1 hi).1) s.lock.config.maxRetries 1 (Nat.le_refl 1)
      (by simp [Nat.add_comm])
    rcases hloop with ⟨e, he⟩ | ⟨⟨i, h1, hi, hg⟩, hok⟩
    · exact .inl ⟨e, by simp [acquire, acquireInner, hacq, he, Reply.ofAcquire, hlock]⟩
    · have hzero : s.count = 0 := by
        by_contra hne
        exact (hatt i h1 hi).2 (Nat.pos_of_ne_zero hne) hg
      refine .inr ⟨hzero, ?_⟩
      have hn : AdvisoryLock.nextEpoch { s.lock with acquiring := true } = s.lock.epoch + 1 := hnext
      simpa [acquire, acquireInner, hacq, hok, Reply.ofAcquire, hn] using hzero

/-- `release` succeeds exactly on the current token with a working connection. -/
theorem step_release_cases {g : LockGuard} {u : Option String}
    (hs : step s (.release g u) = some t) :
    (g = { lockId := s.lock.lockId, fencingToken := s.lock.epoch } ∧ u = none ∧
      t = { lock := { s.lock with held := false }, count := s.count - 1,
            log := .released g :: s.log }) ∨
    ((g = { lockId := s.lock.lockId, fencingToken := s.lock.epoch } → u ≠ none) ∧
      ∃ e, t = { s with log := .releaseFailed g u e :: s.log }) := by
  obtain ⟨id, tok⟩ := g
  simp only [step, Option.some.injEq] at hs
  subst hs
  by_cases hid : id = s.lock.lockId
  · by_cases htok : s.lock.epoch = tok
    · cases u with
      | none => exact .inl ⟨by rw [hid, htok], rfl, by simp [release, hid, htok, Reply.ofRelease]⟩
      | some e =>
        exact .inr ⟨by simp, .lockReleaseError e, by simp [release, hid, htok, Reply.ofRelease]⟩
    · refine .inr ⟨fun h => absurd (LockGuard.mk.inj h).2.symm htok, .staleFencingToken, ?_⟩
      simp [release, hid, htok, Reply.ofRelease]
  · refine .inr ⟨fun h => absurd (LockGuard.mk.inj h).1 hid,
      .validationError "LockGuard does not match this AdvisoryLock instance", ?_⟩
    simp [release, hid, Reply.ofRelease]

/-! ### Runs -/

/-- One hold at most, and every guard issued earlier is released or the one currently held. -/
structure Inv (s : State) : Prop where
  acquiring : s.lock.acquiring = false
  held_count : s.count = if s.lock.held then 1 else 0
  issued_le : ∀ g, .acquired g ∈ s.log → g.lockId = s.lock.lockId ∧ g.fencingToken ≤ s.lock.epoch
  issued : ∀ g, .acquired g ∈ s.log →
    .released g ∈ s.log ∨ s.lock.held = true ∧ g.fencingToken = s.lock.epoch
  released_le : ∀ g, .released g ∈ s.log → g.fencingToken ≤ s.lock.epoch
  current : s.lock.held = true → ∀ g, .released g ∈ s.log → g.fencingToken < s.lock.epoch
  balanced : Balanced s

theorem inv_init (lockId : ℤ) (config : AdvisoryLockConfig) : Inv (init lockId config) where
  acquiring := rfl
  held_count := rfl
  issued_le := by simp [init]
  issued := by simp [init]
  released_le := by simp [init]
  current := by simp [init]
  balanced := ⟨by simp [init], by simp [init], by simp [init]⟩

/-- What a new reply must meet to keep the promise. -/
theorem Balanced.cons {s t : State} {r : Reply} (hs : Balanced s) (hlog : t.log = r :: s.log)
    (hcount : ∀ g, r = .released g → t.lock.held = false → t.count = 0)
    (honce : ∀ g, r = .released g → .released g ∉ s.log)
    (hcan : ∀ g e, r = .releaseFailed g none e → .acquired g ∈ s.log → .released g ∈ s.log) :
    Balanced t where
  count g earlier h := hcount g (List.cons.inj (hlog.symm.trans h)).1
  once later g earlier h hi := by
    rw [hlog] at h
    cases later with
    | nil =>
      obtain ⟨hr, rfl⟩ := List.cons.inj h
      exact honce g hr
    | cons x later => exact hs.once later g earlier (List.cons.inj h).2 hi
  canRelease later g e earlier h hi := by
    rw [hlog] at h
    cases later with
    | nil =>
      obtain ⟨hr, rfl⟩ := List.cons.inj h
      exact hcan g e hr hi
    | cons x later => exact hs.canRelease later g e earlier (List.cons.inj h).2 hi

theorem inv_acquire {c : Option String} {a : ℕ → Attempt} (hm : Meets s (.acquire c a))
    (hs : step s (.acquire c a) = some t) (hi : Inv s) : Inv t := by
  rcases step_acquire_cases hi.acquiring hm hs with ⟨e, rfl⟩ | ⟨hzero, rfl⟩
  · exact
      { acquiring := hi.acquiring
        held_count := hi.held_count
        issued_le := by simpa using hi.issued_le
        issued := by simpa using hi.issued
        released_le := by simpa using hi.released_le
        current := by simpa using hi.current
        balanced := hi.balanced.cons rfl (by simp) (by simp) (by simp) }
  · -- the session held nothing, so every earlier guard has been released
    have hheld : s.lock.held = false := by
      have := hi.held_count
      cases hh : s.lock.held <;> simp_all
    refine
      { acquiring := hi.acquiring
        held_count := rfl
        issued_le := ?_
        issued := ?_
        released_le := ?_
        current := ?_
        balanced := hi.balanced.cons rfl (by simp) (by simp) (by simp) }
    · intro g hg
      rcases List.mem_cons.mp hg with h | h
      · cases h; exact ⟨rfl, Nat.le_refl _⟩
      · exact ⟨(hi.issued_le g h).1, Nat.le_succ_of_le (hi.issued_le g h).2⟩
    · intro g hg
      rcases List.mem_cons.mp hg with h | h
      · cases h; exact .inr ⟨rfl, rfl⟩
      · rcases hi.issued g h with hr | ⟨hh, _⟩
        · exact .inl (List.mem_cons_of_mem _ hr)
        · simp [hheld] at hh
    · intro g hg
      have hr : .released g ∈ s.log := by simpa using hg
      exact Nat.le_succ_of_le (hi.released_le g hr)
    · intro _ g hg
      have hr : .released g ∈ s.log := by simpa using hg
      exact Nat.lt_succ_of_le (hi.released_le g hr)

theorem inv_release {g : LockGuard} {u : Option String} (hm : Meets s (.release g u))
    (hs : step s (.release g u) = some t) (hi : Inv s) : Inv t := by
  rcases step_release_cases hs with ⟨hg, rfl, rfl⟩ | ⟨hne, e, rfl⟩
  · -- the current guard is released: by `Meets` the lock is held, so once
    have htok : g.fencingToken = s.lock.epoch := by rw [hg]
    have hheld : s.lock.held = true := hm rfl hg
    have hcount : s.count = 1 := by rw [hi.held_count, hheld]; rfl
    have hfresh : .released g ∉ s.log := fun h => absurd (hi.current hheld g h) (by omega)
    refine
      { acquiring := hi.acquiring
        held_count := by simp [hcount]
        issued_le := by simpa using hi.issued_le
        issued := ?_
        released_le := ?_
        current := by simp
        balanced := ?_ }
    · intro g' hg'
      have hmem : .acquired g' ∈ s.log := by simpa using hg'
      rcases hi.issued g' hmem with hr | ⟨_, htok'⟩
      · exact .inl (List.mem_cons_of_mem _ hr)
      · have : g' = g := by
          rw [hg]
          exact congrArg₂ LockGuard.mk (hi.issued_le g' hmem).1 htok'
        exact .inl (this ▸ List.mem_cons_self ..)
    · intro g' hg'
      rcases List.mem_cons.mp hg' with h | h
      · cases h; exact Nat.le_of_eq htok
      · exact hi.released_le g' h
    · refine hi.balanced.cons rfl (fun _ _ _ => by simp [hcount]) ?_ (by simp)
      rintro _ ⟨⟩
      exact hfresh
  · refine
      { acquiring := hi.acquiring
        held_count := hi.held_count
        issued_le := by simpa using hi.issued_le
        issued := by simpa using hi.issued
        released_le := by simpa using hi.released_le
        current := by simpa using hi.current
        balanced := hi.balanced.cons rfl (by simp) (by simp) ?_ }
    -- the unlock statement ran and was refused: the token is not the current one
    rintro _ _ ⟨⟩ hacq
    rcases hi.issued g hacq with hr | ⟨_, htok⟩
    · exact hr
    · have : g = { lockId := s.lock.lockId, fencingToken := s.lock.epoch } :=
        congrArg₂ LockGuard.mk (hi.issued_le g hacq).1 htok
      exact absurd rfl (hne this)

theorem inv_step {c : Call} (hm : Meets s c) (hs : step s c = some t) (hi : Inv s) : Inv t := by
  cases c with
  | acquire c a => exact inv_acquire hm hs hi
  | release g u => exact inv_release hm hs hi

/-- Lock balance holds after every sequence of calls that meets the condition. -/
theorem balanced_of_meets (lockId : ℤ) (config : AdvisoryLockConfig) (calls : List Call) (s : State)
    (hrun : Run step Meets (init lockId config) calls s) : Balanced s :=
  (hrun.invariant inv_step (inv_init lockId config)).balanced

/-- A first attempt that is lost to the network but not to the server, then a granted retry. -/
def lateGrant : List Call :=
  [.acquire none fun i => if i = 1 then .timeout true else .granted,
    .release { lockId := 7, fencingToken := 1 } none]

/-- Without the condition the promise fails: `release` returns `Ok` and one hold stays behind. -/
theorem not_balanced_lateGrant :
    ¬ ∀ (lockId : ℤ) (config : AdvisoryLockConfig) (calls : List Call) (s : State),
      AnyRun step (init lockId config) calls s → Balanced s := by
  intro h
  have hrun := h 7 {} lateGrant _ (anyRun_iff_exec.mpr rfl)
  exact absurd (hrun.count { lockId := 7, fencingToken := 1 } _ rfl rfl) (by decide)

/-- One granted acquisition and its release. -/
theorem balanced_acquire_release :
    Balanced
      { lock := { lockId := 7, config := {}, acquiring := false, held := false, epoch := 1 },
        count := 0,
        log := [.released { lockId := 7, fencingToken := 1 },
          .acquired { lockId := 7, fencingToken := 1 }] } :=
  balanced_of_meets 7 {} [.acquire none fun _ => .granted, .release ⟨7, 1⟩ none] _
    (.cons ⟨by decide, fun _ _ _ => ⟨by simp, fun h => absurd h (by decide)⟩⟩ rfl
      (.cons (fun _ _ => rfl) rfl (.nil _)))

end SorobanPulse.Locking
