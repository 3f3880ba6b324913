import Mathlib

/-! Computations that may fail, one after the other: the whole succeeds if each part does. -/

namespace SorobanPulse.Lib

section
variable {ε α β : Type} {x : Except ε α} {f : α → Except ε β} {a : α} {b : β}

@[simp] theorem ok_bind (a : α) (f : α → Except ε β) : ((.ok a : Except ε α) >>= f) = f a := rfl

@[simp] theorem error_bind (e : ε) (f : α → Except ε β) :
    ((.error e : Except ε α) >>= f) = .error e := rfl

/-- A computation that succeeds has succeeded in its first part. -/
theorem bind_eq_ok (h : (x >>= f) = .ok b) : ∃ a, x = .ok a ∧ f a = .ok b := by
  cases x with
  | error e => cases h
  | ok a => exact ⟨a, rfl, h⟩

theorem bind_eq_ok_iff : (x >>= f) = .ok b ↔ ∃ a, x = .ok a ∧ f a = .ok b := by
  constructor
  · exact bind_eq_ok
  · rintro ⟨a, rfl, h⟩
    exact h

/-- A check that passes. -/
theorem ite_error_eq_ok {p : Prop} [Decidable p] {e : ε} :
    (if p then .error e else x) = .ok a ↔ ¬p ∧ x = .ok a := by
  by_cases hp : p
  · simp [hp]
  · simp [hp]

end

/-! ### Unsigned machine words with overflow checks: `none` is the panic -/

/-- A result that has to fit into a word of so many bits. -/
def fit (bits n : ℕ) : Option ℕ := if n < 2 ^ bits then some n else none

theorem fit_of_lt {bits n : ℕ} (h : n < 2 ^ bits) : fit bits n = some n := if_pos h

theorem fit_eq_some {bits n m : ℕ} : fit bits n = some m ↔ n < 2 ^ bits ∧ n = m := by
  rw [fit]
  split
  · next h => simp [h]
  · next h => simp [h]

/-! ### Steps tracked by an abstraction

        s ──step i──▶ s'        i is accepted:  the square closes
        │             │         i is refused:   the step fails, whatever the state
       Rel           Rel
        │             │
        a ──track i─▶ a'

    Whether the program runs through depends on its steps alone, and where it leads is known in the
    abstract. -/

section
variable {σ α ι ε : Type*}

structure Tracks (step : σ → ι → Except ε σ) (Accepted : ι → Prop) (track : α → ι → α)
    (Rel : σ → α → Prop) : Prop where
  accepted : ∀ {s a i}, Accepted i → Rel s a → ∃ s', step s i = .ok s' ∧ Rel s' (track a i)
  refused : ∀ {s i}, ¬ Accepted i → ∃ e, step s i = .error e

variable {step : σ → ι → Except ε σ} {Accepted : ι → Prop} {track : α → ι → α}
  {Rel : σ → α → Prop}

theorem Tracks.foldlM_ok (h : Tracks step Accepted track Rel) {is : List ι}
    (hall : ∀ i ∈ is, Accepted i) {s : σ} {a : α} (hrel : Rel s a) :
    ∃ s', is.foldlM step s = .ok s' ∧ Rel s' (is.foldl track a) := by
  induction is generalizing s a with
  | nil => exact ⟨s, rfl, hrel⟩
  | cons i is ih =>
    obtain ⟨s', hstep, hrel'⟩ := h.accepted (hall i List.mem_cons_self) hrel
    obtain ⟨t, hfold, ht⟩ := ih (fun j hj => hall j (List.mem_cons_of_mem _ hj)) hrel'
    refine ⟨t, ?_, ht⟩
    rw [List.foldlM_cons, hstep]
    exact hfold

theorem Tracks.foldlM_error (h : Tracks step Accepted track Rel) {is : List ι}
    (hsome : ¬ ∀ i ∈ is, Accepted i) (s : σ) : ∃ e, is.foldlM step s = .error e := by
  induction is generalizing s with
  | nil => simp at hsome
  | cons i is ih =>
    rw [List.foldlM_cons]
    cases hstep : step s i with
    | error e => exact ⟨e, rfl⟩
    | ok s' =>
      -- the refused step is a later one
      refine ih (fun hall => hsome ?_) s'
      intro j hj
      rcases List.mem_cons.mp hj with rfl | hj
      · by_contra hrefused
        obtain ⟨e, he⟩ := h.refused (s := s) hrefused
        rw [hstep] at he
        cases he
      · exact hall j hj

end

end SorobanPulse.Lib
