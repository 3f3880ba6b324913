import Mathlib

/-! What a relation reaches in a bounded number of steps, and the search for it level by level.

        s = seen ⊇ frontier ──▶ next = successors of the frontier, unless seen ──▶ seen ∪ next

    The search asks for the successors of its frontier only. It misses none, because those of
    everything else it saw were seen already: `Frontier`. -/

namespace SorobanPulse.Lib.Reach

variable {α : Type*} {R R' : α → α → Prop} {s seen frontier : Set α} {d : ℕ} {a b : α}

/-- Reached from `s` by at most so many steps. -/
inductive Within (R : α → α → Prop) (s : Set α) : ℕ → α → Prop
  | start {a : α} (d : ℕ) : a ∈ s → Within R s d a
  | step {d : ℕ} {a b : α} : Within R s d a → R a b → Within R s (d + 1) b

/-- The set and what one step reaches from it. -/
def grow (R : α → α → Prop) (s : Set α) : Set α := {b | b ∈ s ∨ ∃ a ∈ s, R a b}

/-- The successors of the frontier that were not seen. -/
def next (R : α → α → Prop) (seen frontier : Set α) : Set α :=
  {b | b ∉ seen ∧ ∃ a ∈ frontier, R a b}

/-- Whatever is seen and not on the frontier has its successors among the seen. -/
structure Frontier (R : α → α → Prop) (seen frontier : Set α) : Prop where
  subset : frontier ⊆ seen
  closed : ∀ a ∈ seen, a ∉ frontier → ∀ b, R a b → b ∈ seen

@[simp] theorem within_zero : Within R s 0 a ↔ a ∈ s := by
  constructor
  · intro h
    cases h with
    | start _ ha => exact ha
  · exact .start 0

/-- The first step may be taken by the set as a whole. -/
theorem within_succ : Within R s (d + 1) b ↔ Within R (grow R s) d b := by
  constructor
  · intro h
    induction d generalizing b with
    | zero =>
      cases h with
      | start _ hb => exact .start 0 (.inl hb)
      | step ha hr => exact .start 0 (.inr ⟨_, within_zero.mp ha, hr⟩)
    | succ d ih =>
      cases h with
      | start _ hb => exact .start _ (.inl hb)
      | step ha hr => exact .step (ih ha) hr
  · intro h
    induction h with
    | start d ha =>
      rcases ha with ha | ⟨a, ha, hr⟩
      · exact .start _ ha
      · exact .step (.start d ha) hr
    | step _ hr ih => exact .step ih hr

theorem Within.mono {d' : ℕ} (h : Within R s d a) (hd : d ≤ d') : Within R s d' a := by
  induction h generalizing d' with
  | start _ ha => exact .start _ ha
  | step _ hr ih =>
    obtain ⟨e, rfl⟩ := Nat.exists_eq_add_of_le' (Nat.one_le_of_lt (Nat.lt_of_succ_le hd))
    exact .step (ih (Nat.le_of_succ_le_succ hd)) hr

/-- Steps of one relation that the other one has as well, wherever they are taken. -/
theorem Within.of_imp (hr : ∀ a b, Within R s d a → R a b → R' a b) {n : ℕ} (hn : n ≤ d)
    (h : Within R s n a) : Within R' s n a := by
  induction h with
  | start n ha => exact .start n ha
  | @step n a b ha hab ih =>
    have hle : n ≤ d := Nat.le_of_succ_le hn
    exact .step (ih hle) (hr a b (ha.mono hle) hab)

/-! ### Level by level -/

theorem Frontier.start (R : α → α → Prop) (s : Set α) : Frontier R s s where
  subset := Set.Subset.refl s
  closed _ ha hnot := absurd ha hnot

theorem Frontier.grow_eq (h : Frontier R seen frontier) :
    grow R seen = seen ∪ next R seen frontier := by
  ext b
  constructor
  · rintro (hb | ⟨a, ha, hr⟩)
    · exact .inl hb
    · by_cases hb : b ∈ seen
      · exact .inl hb
      · refine .inr ⟨hb, a, ?_, hr⟩
        by_contra hnot
        exact hb (h.closed a ha hnot b hr)
  · rintro (hb | ⟨-, a, ha, hr⟩)
    · exact .inl hb
    · exact .inr ⟨a, h.subset ha, hr⟩

theorem Frontier.next (h : Frontier R seen frontier) :
    Frontier R (seen ∪ next R seen frontier) (next R seen frontier) where
  subset := Set.subset_union_right
  closed a ha hnot b hr := by
    rw [← h.grow_eq]
    rcases ha with ha | ha
    · exact .inr ⟨a, ha, hr⟩
    · exact absurd ha hnot

/-- An empty frontier ends the search. -/
theorem Frontier.within_empty (h : Frontier R seen ∅) : Within R seen d b ↔ b ∈ seen := by
  constructor
  · intro hb
    induction hb with
    | start _ hb => exact hb
    | step _ hr ih => exact h.closed _ ih (Set.notMem_empty _) _ hr
  · exact .start d

/-- One level more. -/
theorem Frontier.within_succ (h : Frontier R seen frontier) :
    Within R seen (d + 1) b ↔ Within R (seen ∪ Reach.next R seen frontier) d b := by
  rw [Reach.within_succ, h.grow_eq]

end SorobanPulse.Lib.Reach
