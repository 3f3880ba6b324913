import SorobanPulse.Lib.Run
import SorobanPulse.Lib.Exclusion

/-! Leader election of the indexer replicas (`Indexer::run` in `src/indexer.rs`).

    Each replica checks one connection out of its pool (`lock_conn`) and then takes, and later gives
    back, the session-level advisory lock with statements executed on the pool itself: any session of
    the pool that is not checked out may run them. The pool opens and closes sessions on its own.

        idle ──run──▶ waiting ──tryLock granted──▶ leading ──exitLoop──▶ stopping ──unlock──▶ returned
                        │  ↺ refused / error                                                     ▲
                        └──shutdown──────────────────────────────────────────────────────────────┘ -/

namespace SorobanPulse.Locking
open Lib

/-- `0x536f726f62616e50`, "SorobanP". -/
def indexerLockKey : Int64 := 0x536f726f62616e50

/-- Per-network lock key: FNV-1a over the chain id, folded into an `i64`. -/
def lockKeyForChain (chainId : String) : Int64 :=
  if chainId = "mainnet" then indexerLockKey
  else
    (chainId.toUTF8.data.toList.foldl
      (fun (hash : UInt64) byte => (hash ^^^ byte.toUInt64) * 0x100000001b3)
      0xcbf29ce484222325).toInt64 ^^^ indexerLockKey

/-- Where a replica is in `run`; `lockConn` is the connection it keeps checked out. -/
inductive Phase (S : Type) where
  | idle
  | waiting (lockConn : S)
  | leading (lockConn : S)
  | stopping (lockConn : S)
  | returned

/-- The replicas, the live session of each pool, and the server's lock table. -/
structure Cluster (R S : Type) where
  phase : R → Phase S
  pool : S → Option R
  locks : LockTable Int64 S

def Cluster.init (R S : Type) : Cluster R S :=
  { phase := fun _ => .idle, pool := fun _ => none, locks := .empty }

inductive Act (R S : Type) where
  /-- The pool of `r` opens the session `s`. -/
  | connect (r : R) (s : S)
  /-- The session ends: idle timeout, maximum lifetime, or a broken connection. -/
  | close (s : S)
  /-- `pool.acquire()` checks out `s` as `lock_conn`. -/
  | run (r : R) (s : S)
  | runError (r : R)
  /-- The shutdown signal arrives before the lock is acquired. -/
  | shutdown (r : R)
  /-- `SELECT pg_try_advisory_lock($1)` on the pool, executed by its session `s`. -/
  | tryLock (r : R) (s : S)
  /-- The query fails; `unwrap_or(false)`. -/
  | tryLockError (r : R)
  /-- `run_loop` returns. -/
  | exitLoop (r : R)
  /-- `SELECT pg_advisory_unlock($1)` on the pool, executed by its session `s`. -/
  | unlock (r : R) (s : S)
  /-- The unlock statement fails; its result is discarded. -/
  | unlockError (r : R)

section
variable {R S : Type} [DecidableEq R] [DecidableEq S] (key : Int64)

/-- A statement on the pool of `r` may run on its session `s`: live and not checked out. -/
def Cluster.Idle (c : Cluster R S) (r : R) (lockConn s : S) : Prop :=
  c.pool s = some r ∧ s ≠ lockConn

instance (c : Cluster R S) (r : R) (lockConn s : S) : Decidable (c.Idle r lockConn s) :=
  inferInstanceAs (Decidable (_ ∧ _))

def Cluster.setPhase (c : Cluster R S) (r : R) (p : Phase S) : Cluster R S :=
  { c with phase := Function.update c.phase r p }

def Cluster.step (c : Cluster R S) : Act R S → Option (Cluster R S)
  | .connect r s =>
    if c.pool s = none then some { c with pool := Function.update c.pool s (some r) } else none
  | .close s =>
    some { c with pool := Function.update c.pool s none, locks := c.locks.endSession s }
  | .run r s =>
    match c.phase r with
    | .idle => if c.pool s = some r then some (c.setPhase r (.waiting s)) else none
    | _ => none
  | .runError r =>
    match c.phase r with
    | .idle => some (c.setPhase r .returned)
    | _ => none
  | .shutdown r =>
    match c.phase r with
    | .waiting _ => some (c.setPhase r .returned)
    | _ => none
  | .tryLock r s =>
    match c.phase r with
    | .waiting conn =>
      if c.Idle r conn s then
        let acquired := c.locks.tryLock key s
        let c' := { c with locks := acquired.2 }
        some (if acquired.1 then c'.setPhase r (.leading conn) else c')
      else none
    | _ => none
  | .tryLockError r =>
    match c.phase r with
    | .waiting _ => some c
    | _ => none
  | .exitLoop r =>
    match c.phase r with
    | .leading conn => some (c.setPhase r (.stopping conn))
    | _ => none
  | .unlock r s =>
    match c.phase r with
    | .stopping conn =>
      if c.Idle r conn s then
        some ({ c with locks := c.locks.unlock key s }.setPhase r .returned)
      else none
    | _ => none
  | .unlockError r =>
    match c.phase r with
    | .stopping _ => some (c.setPhase r .returned)
    | _ => none

/-- `r` is inside `run_loop`. -/
def Cluster.Leading (c : Cluster R S) (r : R) : Prop := ∃ conn, c.phase r = .leading conn

/-- Single active indexer: at most one replica inside `run_loop`, and no session of a returned
    replica holds the lock. -/
structure Cluster.SingleActive (c : Cluster R S) : Prop where
  exclusive : ∀ r r', c.Leading r → c.Leading r' → r = r'
  released : ∀ r s, c.phase r = .returned → c.pool s = some r → c.locks.owner key ≠ some s

/-- The steps that keep the lock tied to the leader: the session that owns it is not closed while its
    replica is inside `run_loop`, and the unlock statement reaches that session. -/
def Cluster.Meets (c : Cluster R S) : Act R S → Prop
  | .close s => ∀ r, c.pool s = some r → c.locks.owner key = some s → ¬ c.Leading r
  | .unlock r s => ∀ s', c.locks.owner key = some s' → c.pool s' = some r → s' = s
  | .unlockError r => ∀ s', c.locks.owner key = some s' → c.pool s' ≠ some r
  | _ => True

end

/-! ### One step -/

variable {R S : Type} {key : Int64} {c d : Cluster R S} {r : R}

/-- The lock is held once, by a session of a replica that has not returned, and every leader's
    pool owns it. -/
structure Cluster.Inv (key : Int64) (c : Cluster R S) : Prop where
  owned : ∀ s n, c.locks key = some (s, n) →
    n = 1 ∧ ∃ r conn, c.pool s = some r ∧ (c.phase r = .leading conn ∨ c.phase r = .stopping conn)
  leader : ∀ r, c.Leading r → ∃ s, c.locks.owner key = some s ∧ c.pool s = some r

theorem Cluster.inv_init : (Cluster.init R S).Inv key where
  owned _ _ h := by cases h
  leader _ h := by obtain ⟨_, h⟩ := h; cases h

theorem Cluster.Inv.singleActive (hi : c.Inv key) : c.SingleActive key where
  exclusive r r' hr hr' := by
    obtain ⟨s, hs, hpool⟩ := hi.leader r hr
    obtain ⟨s', hs', hpool'⟩ := hi.leader r' hr'
    cases hs.symm.trans hs'
    exact Option.some.inj (hpool.symm.trans hpool')
  released r s hr hpool howner := by
    obtain ⟨n, hn⟩ := LockTable.owner_eq_some.mp howner
    obtain ⟨_, r', conn, hpool', hphase⟩ := hi.owned s n hn
    cases Option.some.inj (hpool.symm.trans hpool')
    rcases hphase with h | h <;> rw [hr] at h <;> cases h

/-- A replica outside `leading` and `stopping` owns nothing. -/
theorem Cluster.Inv.owner_pool_ne (hi : c.Inv key) (hl : ∀ conn, c.phase r ≠ .leading conn)
    (hs : ∀ conn, c.phase r ≠ .stopping conn) {s : S} (ho : c.locks.owner key = some s) :
    c.pool s ≠ some r := by
  intro hpool
  obtain ⟨n, hn⟩ := LockTable.owner_eq_some.mp ho
  obtain ⟨_, r', conn, hpool', hphase⟩ := hi.owned s n hn
  cases Option.some.inj (hpool.symm.trans hpool')
  exact hphase.elim (hl conn) (hs conn)

section
variable [DecidableEq S]

theorem Cluster.Inv.connect (hi : c.Inv key) {s : S} (hs : c.pool s = none) :
    Cluster.Inv key { c with pool := Function.update c.pool s (some r) } where
  owned s' n h := by
    obtain ⟨hn, r', conn, hpool, hphase⟩ := hi.owned s' n h
    have hne : s' ≠ s := by
      rintro rfl
      rw [hs] at hpool; cases hpool
    exact ⟨hn, r', conn, (Function.update_of_ne hne ..).trans hpool, hphase⟩
  leader r' h := by
    obtain ⟨s', ho, hpool⟩ := hi.leader r' h
    have hne : s' ≠ s := by
      rintro rfl
      rw [hs] at hpool; cases hpool
    exact ⟨s', ho, (Function.update_of_ne hne ..).trans hpool⟩

theorem Cluster.Inv.close (hi : c.Inv key) {s : S} (hm : c.Meets key (.close s)) :
    Cluster.Inv key
      { c with pool := Function.update c.pool s none, locks := c.locks.endSession s } where
  owned s' n h := by
    obtain ⟨h, hne⟩ := LockTable.endSession_eq_some.mp h
    obtain ⟨hn, r', conn, hpool, hphase⟩ := hi.owned s' n h
    exact ⟨hn, r', conn, (Function.update_of_ne hne ..).trans hpool, hphase⟩
  leader r' h := by
    obtain ⟨s', ho, hpool⟩ := hi.leader r' h
    -- the leader's session is not the one that ends
    have hne : s' ≠ s := by
      rintro rfl
      exact hm r' hpool ho h
    obtain ⟨n, hn⟩ := LockTable.owner_eq_some.mp ho
    exact ⟨s', LockTable.owner_eq_some.mpr ⟨n, LockTable.endSession_eq_some.mpr ⟨hn, hne⟩⟩,
      (Function.update_of_ne hne ..).trans hpool⟩

end

section
variable [DecidableEq R]

@[simp] theorem Cluster.setPhase_self (r : R) (p : Phase S) : (c.setPhase r p).phase r = p :=
  Function.update_self ..

theorem Cluster.setPhase_of_ne {r' : R} (h : r' ≠ r) (p : Phase S) :
    (c.setPhase r p).phase r' = c.phase r' :=
  Function.update_of_ne h ..

theorem Cluster.setPhase_leading {r' : R} {p : Phase S} (hp : ∀ conn, p ≠ .leading conn)
    (h : (c.setPhase r p).Leading r') : r' ≠ r ∧ c.Leading r' := by
  obtain ⟨conn, hconn⟩ := h
  rcases eq_or_ne r' r with rfl | hr
  · rw [setPhase_self] at hconn
    exact absurd hconn (hp conn)
  · rw [setPhase_of_ne hr] at hconn
    exact ⟨hr, conn, hconn⟩

/-- A replica that owns nothing may move to any phase outside `run_loop`. -/
theorem Cluster.Inv.setPhase (hi : c.Inv key) {p : Phase S} (hp : ∀ conn, p ≠ .leading conn)
    (hfree : ∀ s, c.locks.owner key = some s → c.pool s ≠ some r) : (c.setPhase r p).Inv key where
  owned s n h := by
    obtain ⟨hn, r', conn, hpool, hphase⟩ := hi.owned s n h
    refine ⟨hn, r', conn, hpool, ?_⟩
    have hr : r' ≠ r := by
      rintro rfl
      exact hfree s (LockTable.owner_eq_some.mpr ⟨n, h⟩) hpool
    rw [Cluster.setPhase_of_ne hr]
    exact hphase
  leader r' h := hi.leader r' (Cluster.setPhase_leading hp h).2

theorem Cluster.Inv.exitLoop (hi : c.Inv key) {conn : S} : (c.setPhase r (.stopping conn)).Inv key where
  owned s n h := by
    obtain ⟨hn, r', conn', hpool, hphase⟩ := hi.owned s n h
    rcases eq_or_ne r' r with rfl | hr
    · exact ⟨hn, r', conn, hpool, .inr (by rw [Cluster.setPhase_self])⟩
    · exact ⟨hn, r', conn', hpool, by rw [Cluster.setPhase_of_ne hr]; exact hphase⟩
  leader r' h := hi.leader r' (Cluster.setPhase_leading (by simp) h).2

variable [DecidableEq S]

/-- The lock is only granted to a waiting replica when nobody owns it. -/
theorem Cluster.Inv.tryLock_granted (hi : c.Inv key) {conn s : S} (hr : c.phase r = .waiting conn)
    (hpool : c.pool s = some r) (hg : (c.locks.tryLock key s).1 = true) :
    Cluster.Inv key
      (Cluster.setPhase { c with locks := (c.locks.tryLock key s).2 } r (.leading conn)) := by
  rcases LockTable.tryLock_granted hg with ⟨hfree, hlocks⟩ | ⟨n, hown, _⟩
  · refine ⟨fun s' n h => ?_, fun r' h => ?_⟩
    · have hs : s' = s ∧ n = 1 := by
        simpa [Cluster.setPhase, hlocks, eq_comm] using h
      exact ⟨hs.2, r, conn, by rw [hs.1]; exact hpool,
        .inl (by rw [Cluster.setPhase_self])⟩
    · rcases eq_or_ne r' r with rfl | hne
      · exact ⟨s, by simp [Cluster.setPhase, hlocks], hpool⟩
      · obtain ⟨conn', hconn⟩ := h
        rw [Cluster.setPhase_of_ne hne] at hconn
        obtain ⟨s', ho, _⟩ := hi.leader r' ⟨conn', hconn⟩
        obtain ⟨n, hn⟩ := LockTable.owner_eq_some.mp ho
        rw [hfree] at hn; cases hn
  · refine absurd hpool (hi.owner_pool_ne ?_ ?_ (LockTable.owner_eq_some.mpr ⟨n, hown⟩)) <;>
      simp [hr]

/-- Unlocking on the owning session frees the lock, and there is no leader then. -/
theorem Cluster.Inv.unlock (hi : c.Inv key) {s : S}
    (hpool : c.pool s = some r) (hm : c.Meets key (.unlock r s)) :
    Cluster.Inv key (Cluster.setPhase { c with locks := c.locks.unlock key s } r .returned) := by
  by_cases ho : c.locks.owner key = some s
  · obtain ⟨n, hn⟩ := LockTable.owner_eq_some.mp ho
    obtain rfl := (hi.owned s n hn).1
    have hfree : (c.locks.unlock key s) key = none := by
      rw [LockTable.unlock_single hn, Function.update_self]
    refine ⟨fun s' n h => ?_, fun r' h => ?_⟩
    · cases hfree.symm.trans h
    · obtain ⟨hne, hl⟩ := Cluster.setPhase_leading (by simp) h
      obtain ⟨s', ho', hpool'⟩ := hi.leader r' hl
      cases ho.symm.trans ho'
      exact absurd (Option.some.inj (hpool'.symm.trans hpool)) hne
  · rw [LockTable.unlock_other ho]
    exact hi.setPhase (by simp) fun s' ho' hpool' => ho (by rw [ho', hm s' ho' hpool'])

theorem Cluster.inv_step {a : Act R S} (hm : c.Meets key a) (hs : c.step key a = some d)
    (hi : c.Inv key) : d.Inv key := by
  cases a with
  | connect r s =>
    simp only [step, Option.ite_none_right_eq_some, Option.some.injEq] at hs
    obtain ⟨hfree, rfl⟩ := hs
    exact hi.connect hfree
  | close s =>
    cases hs
    -- closing a session releases its locks, so the condition keeps the owner's own session open
    exact hi.close hm
  | run r s =>
    simp only [step] at hs
    split at hs
    · next hr =>
      obtain ⟨_, hd⟩ := Option.ite_none_right_eq_some.mp hs
      cases hd
      -- only a leader runs, and its session is not one that the pool may reuse
      exact hi.setPhase (by simp) fun _ => hi.owner_pool_ne (by simp [hr]) (by simp [hr])
    · cases hs
  | runError r =>
    simp only [step] at hs
    split at hs
    · next hr =>
      cases hs
      exact hi.setPhase (by simp) fun _ => hi.owner_pool_ne (by simp [hr]) (by simp [hr])
    · cases hs
  | shutdown r =>
    simp only [step] at hs
    split at hs
    · next hr =>
      cases hs
      exact hi.setPhase (by simp) fun _ => hi.owner_pool_ne (by simp [hr]) (by simp [hr])
    · cases hs
  | tryLock r s =>
    simp only [step] at hs
    split at hs
    · next conn hr =>
      obtain ⟨hidle, hd⟩ := Option.ite_none_right_eq_some.mp hs
      cases hg : (c.locks.tryLock key s).1 with
      | true =>
        rw [hg, if_pos rfl] at hd
        cases hd
        exact hi.tryLock_granted hr hidle.1 hg
      | false =>  -- a refusal leaves the table as it was
        rw [hg, LockTable.tryLock_refused hg] at hd
        cases hd
        exact hi
    · cases hs
  | tryLockError r =>
    simp only [step] at hs
    split at hs <;> cases hs
    exact hi
  | exitLoop r =>
    simp only [step] at hs
    split at hs <;> cases hs
    exact hi.exitLoop
  | unlock r s =>
    simp only [step] at hs
    split at hs
    · obtain ⟨hidle, hd⟩ := Option.ite_none_right_eq_some.mp hs
      cases hd
      -- the condition sends the statement to the session that holds the lock
      exact hi.unlock hidle.1 hm
    · cases hs
  | unlockError r =>
    simp only [step] at hs
    split at hs <;> cases hs
    exact hi.setPhase (by simp) hm

/-! ### Runs -/

/-- Leadership is safe in every interleaving whose steps keep the lock with its leader. -/
theorem singleActive_of_meets (chainId : String) (acts : List (Act R S)) (c : Cluster R S)
    (hrun : Run (Cluster.step (lockKeyForChain chainId)) (Cluster.Meets (lockKeyForChain chainId))
      (.init R S) acts c) :
    c.SingleActive (lockKeyForChain chainId) :=
  (hrun.invariant Cluster.inv_step Cluster.inv_init).singleActive

end

/-- A replica leads on session `1` and gives the lock back on it. -/
def tenure : List (Act Bool ℕ) :=
  [.connect false 0, .connect false 1, .run false 0, .tryLock false 1, .exitLoop false,
    .unlock false 1]

theorem singleActive_tenure :
    ((exec (Cluster.step (lockKeyForChain "mainnet")) (.init Bool ℕ) tenure).get rfl).SingleActive
      (lockKeyForChain "mainnet") :=
  singleActive_of_meets "mainnet" tenure _
    (.cons trivial rfl (.cons trivial rfl (.cons trivial rfl (.cons trivial rfl (.cons trivial rfl
      (.cons (fun _ ho _ => (Option.some.inj ho).symm) rfl (.nil _)))))))

/-- The pool of replica `false` closes the idle session that took the lock (idle timeout); replica
    `true` is granted the lock while `false` is still inside `run_loop`. -/
def idleTimeout : List (Act Bool ℕ) :=
  [.connect false 0, .connect false 1, .connect true 2, .connect true 3, .run false 0,
    .tryLock false 1, .close 1, .run true 2, .tryLock true 3]

/-- Without the condition two replicas index at once. -/
theorem not_singleActive_idleTimeout :
    ¬ ∀ (R S : Type) [DecidableEq R] [DecidableEq S] (chainId : String) (acts : List (Act R S))
      (c : Cluster R S), AnyRun (Cluster.step (lockKeyForChain chainId)) (.init R S) acts c →
        c.SingleActive (lockKeyForChain chainId) := by
  intro h
  have hactive := h Bool ℕ "mainnet" idleTimeout _ (anyRun_iff_exec.mpr rfl)
  exact absurd (hactive.exclusive false true ⟨0, rfl⟩ ⟨2, rfl⟩) (by decide)

end SorobanPulse.Locking
