import Mathlib.Logic.Function.Basic
import Mathlib.Data.Nat.Notation

/-! At most one party at a time in a critical section.

    Each of the parties `ι` is in a phase of type `ρ`; `inside` tells the phases of the critical
    section. A step moves one party:

        outside ──enter, if no one else is inside──▶ inside ──move──▶ inside ──move──▶ outside -/

namespace SorobanPulse.Lib

variable {ι ρ : Type*} {inside : ρ → Prop} {phase : ι → ρ} {i : ι} {p : ρ}

/-- No two parties are inside. -/
def AtMostOne (inside : ρ → Prop) (phase : ι → ρ) : Prop :=
  ∀ i j, inside (phase i) → inside (phase j) → i = j

namespace AtMostOne
variable [DecidableEq ι]

/-- Anyone may enter while no one else is inside. -/
theorem enter (h : ∀ j, j ≠ i → ¬ inside (phase j)) :
    AtMostOne inside (Function.update phase i p) := by
  have honly : ∀ j, inside (Function.update phase i p j) → j = i := by
    intro j hj
    by_contra hne
    rw [Function.update_of_ne hne] at hj
    exact h j hne hj
  intro j k hj hk
  rw [honly j hj, honly k hk]

/-- A party that is not inside may move outside, and one that is inside may move anywhere. -/
theorem move (h : AtMostOne inside phase) (hp : inside p → inside (phase i)) :
    AtMostOne inside (Function.update phase i p) := by
  have hback : ∀ j, inside (Function.update phase i p j) → inside (phase j) := by
    intro j hj
    by_cases hji : j = i
    · subst hji
      rw [Function.update_self] at hj
      exact hp hj
    · rwa [Function.update_of_ne hji] at hj
  exact fun j k hj hk => h j k (hback j hj) (hback k hk)

end AtMostOne

/-- After a step of `i`, a phase is the new one of `i` or the old one of another party. -/
theorem update_phase [DecidableEq ι] {j : ι} {q : ρ} (h : Function.update phase i p j = q) :
    j = i ∧ p = q ∨ j ≠ i ∧ phase j = q := by
  by_cases hj : j = i
  · rw [hj, Function.update_self] at h
    exact .inl ⟨hj, h⟩
  · rw [Function.update_of_ne hj] at h
    exact .inr ⟨hj, h⟩

end SorobanPulse.Lib

/-! Session-level advisory locks.

    A lock table maps each key to the session that owns it and its hold count. Locks are reentrant for
    their owner, refused to everyone else, and gone when the owner's session ends. The keys `κ` and the
    sessions `σ` are arbitrary; a transaction-scoped lock is the same table with the transaction as its
    session, ended by the commit. -/

namespace SorobanPulse.Lib

/-- Owner and hold count of every advisory lock. -/
abbrev LockTable (κ σ : Type*) := κ → Option (σ × ℕ)

namespace LockTable

variable {κ σ : Type*} {t : LockTable κ σ} {k : κ} {s o : σ} {n : ℕ}

def empty : LockTable κ σ := fun _ => none

/-- The session that owns `k`. -/
def owner (t : LockTable κ σ) (k : κ) : Option σ := (t k).map Prod.fst

@[simp] theorem owner_eq_some : t.owner k = some o ↔ ∃ n, t k = some (o, n) := by
  simp [owner]

variable [DecidableEq σ]

/-- The end of a session releases everything it owns. -/
def endSession (t : LockTable κ σ) (s : σ) : LockTable κ σ :=
  fun k => (t k).filter fun p => p.1 ≠ s

theorem endSession_eq_some : t.endSession s k = some (o, n) ↔ t k = some (o, n) ∧ o ≠ s := by
  simp [endSession, Option.filter_eq_some_iff]

variable [DecidableEq κ]

/-- `pg_try_advisory_lock`: take a free lock or one more hold on an owned one. -/
def tryLock (t : LockTable κ σ) (k : κ) (s : σ) : Bool × LockTable κ σ :=
  match t k with
  | none => (true, Function.update t k (some (s, 1)))
  | some (o, n) => if o = s then (true, Function.update t k (some (s, n + 1))) else (false, t)

/-- `pg_advisory_unlock`: drop one hold; not owning the lock changes nothing. -/
def unlock (t : LockTable κ σ) (k : κ) (s : σ) : LockTable κ σ :=
  match t k with
  | none => t
  | some (o, n) =>
    if o = s then Function.update t k (if n ≤ 1 then none else some (s, n - 1)) else t

/-- A granted lock was free, or owned by the session already. -/
theorem tryLock_granted (h : (t.tryLock k s).1 = true) :
    t k = none ∧ (t.tryLock k s).2 = Function.update t k (some (s, 1)) ∨
    ∃ n, t k = some (s, n) ∧ (t.tryLock k s).2 = Function.update t k (some (s, n + 1)) := by
  unfold tryLock at h ⊢
  split at h
  · next hk => exact .inl ⟨hk, rfl⟩
  · next o n hk =>
    by_cases ho : o = s
    · subst ho; exact .inr ⟨n, hk, by simp⟩
    · simp [ho] at h

/-- A refused lock leaves the table alone. -/
theorem tryLock_refused (h : (t.tryLock k s).1 = false) : (t.tryLock k s).2 = t := by
  unfold tryLock at h ⊢
  split at h
  · simp at h
  · next o n hk =>
    by_cases ho : o = s
    · simp [ho] at h
    · simp [ho]

/-- Dropping the only hold frees the lock. -/
theorem unlock_single (h : t k = some (s, 1)) : t.unlock k s = Function.update t k none := by
  simp [unlock, h]

theorem unlock_other (h : t.owner k ≠ some s) : t.unlock k s = t := by
  unfold unlock
  split
  · rfl
  · next o n hk => exact if_neg fun ho => h (by simp [hk, ho])

end LockTable

end SorobanPulse.Lib
