import Mathlib.Data.List.Basic
import Mathlib.Data.List.Forall2
import Mathlib.Data.List.Infix
import Mathlib.Data.List.Nodup

/-! What comes after a marked element of a list.

        l = before ++ a :: after p l          a the first element with p

    A list that grows at its end keeps what came after the mark, and adds to it. -/

namespace SorobanPulse.Lib

section
variable {α β : Type*} {p : α → Bool} {l m : List α} {a : α}

def after (p : α → Bool) : List α → List α
  | [] => []
  | a :: l => if p a then l else after p l

/-- Elements before the mark do not count. -/
theorem after_append_of_not (h : ∀ a ∈ l, p a = false) (m : List α) :
    after p (l ++ m) = after p m := by
  induction l with
  | nil => rfl
  | cons a l ih =>
    rw [List.cons_append, after, if_neg (by simp [h a List.mem_cons_self])]
    exact ih fun b hb => h b (List.mem_cons_of_mem _ hb)

theorem after_append_of_mem (ha : a ∈ l) (hp : p a = true) (m : List α) :
    after p (l ++ m) = after p l ++ m := by
  induction l with
  | nil => cases ha
  | cons b l ih =>
    rw [List.cons_append, after, after]
    by_cases hb : p b = true
    · rw [if_pos hb, if_pos hb]
    · rw [if_neg hb, if_neg hb]
      rcases List.mem_cons.mp ha with rfl | ha
      · exact absurd hp hb
      · exact ih ha

/-- What comes after the mark only grows. -/
theorem after_inits (ha : a ∈ l) (hp : p a = true) (h : l <+: m) : after p l <+: after p m := by
  obtain ⟨more, rfl⟩ := h
  rw [after_append_of_mem ha hp]
  exact List.prefix_append _ _

theorem after_map (f : β → α) (l : List β) : after p (l.map f) = (after (p ∘ f) l).map f := by
  induction l with
  | nil => rfl
  | cons b l ih =>
    rw [List.map_cons, after, after, ih]
    exact (apply_ite (List.map f) _ _ _).symm

theorem after_congr {q : α → Bool} (h : ∀ a ∈ l, p a = q a) : after p l = after q l := by
  induction l with
  | nil => rfl
  | cons a l ih =>
    rw [after, after, h a List.mem_cons_self, ih fun b hb => h b (List.mem_cons_of_mem _ hb)]

/-- Dropping up to and with the first marked element. -/
theorem drop_findIdx {n : ℕ} (h : l.findIdx? p = some n) : l.drop (n + 1) = after p l := by
  induction l generalizing n with
  | nil => cases h
  | cons a l ih =>
    rw [List.findIdx?_cons] at h
    rw [List.drop_succ_cons, after]
    by_cases ha : p a = true
    · rw [if_pos ha, Option.some.injEq] at h
      rw [if_pos ha, ← h, List.drop_zero]
    · rw [if_neg ha] at h
      obtain ⟨k, hk, rfl⟩ := Option.map_eq_some_iff.mp h
      rw [if_neg ha, ih hk]

/-- Two beginnings of one list are equal when they are equally long. -/
theorem eq_of_prefixes {l₁ l₂ : List α} (h₁ : l₁ <+: l) (h₂ : l₂ <+: l) (h : l₁.length = l₂.length) :
    l₁ = l₂ :=
  (List.prefix_of_prefix_length_le h₁ h₂ h.le).eq_of_length h

end

/-! ### Up to the first that succeeds

        ✗ ✗ ✓ ✗ ✓   ──upTo──▶   ✗ ✗ ✓ -/

section
variable {α : Type*} (p : α → Bool)

def upTo : List α → List α
  | [] => []
  | a :: l => if p a then [a] else a :: upTo l

variable {p} {l : List α}

theorem upTo_ne_nil (h : l ≠ []) : upTo p l ≠ [] := by
  cases l with
  | nil => exact absurd rfl h
  | cons a l =>
    rw [upTo]
    split
    · exact List.cons_ne_nil _ _
    · exact List.cons_ne_nil _ _

theorem isPrefix_upTo (p : α → Bool) (l : List α) : upTo p l <+: l := by
  induction l with
  | nil => exact List.prefix_rfl
  | cons a l ih =>
    rw [upTo]
    split
    · exact ⟨l, rfl⟩
    · exact (List.prefix_cons_inj a).mpr ih

/-- Whatever is tried before the last one has failed. -/
theorem not_of_mem_dropLast_upTo {a : α} (h : a ∈ (upTo p l).dropLast) : p a = false := by
  induction l with
  | nil => cases h
  | cons b l ih =>
    rw [upTo] at h
    split at h
    · cases h
    · next hb =>
      cases l with
      | nil => cases h
      | cons c l =>
        rw [List.dropLast_cons_of_ne_nil (upTo_ne_nil (List.cons_ne_nil c l))] at h
        rcases List.mem_cons.mp h with rfl | h
        · simpa using hb
        · exact ih h

end

end SorobanPulse.Lib
