import Mathlib.Algebra.Order.Ring.Int
import Mathlib.Data.List.Basic

/-! The oldest items beyond a quota.

        k₀ < k₁ < … < kₙ₋₁      the first n - m go, the last m stay -/

namespace SorobanPulse.Lib

variable {α : Type*} {key : α → ℤ} {l : List α} {a : α}

/-- Of items in strict order, one is among the first `length - m` exactly when more than `m` items
    are not before it. -/
theorem mem_take_sub_iff (h : l.Pairwise fun x y => key x < key y) (ha : a ∈ l) (m : ℕ) :
    a ∈ l.take (l.length - m) ↔ m < l.countP fun x => key a ≤ key x := by
  induction l with
  | nil => cases ha
  | cons b l ih =>
    obtain ⟨hb, hl⟩ := List.pairwise_cons.mp h
    rcases List.mem_cons.mp ha with rfl | hmem
    · -- all items count
      have hall : (a :: l).countP (fun x => key a ≤ key x) = (a :: l).length := by
        rw [List.countP_eq_length]
        intro x hx
        rcases List.mem_cons.mp hx with rfl | hx
        · exact decide_eq_true (Int.le_refl _)
        · exact decide_eq_true (Int.le_of_lt (hb x hx))
      rw [hall]
      constructor
      · intro h
        by_contra hle
        rw [Nat.sub_eq_zero_of_le (by omega), List.take_zero] at h
        cases h
      · intro hlt
        obtain ⟨k, hk⟩ : ∃ k, (a :: l).length - m = k + 1 := ⟨(a :: l).length - m - 1, by omega⟩
        rw [hk, List.take_succ_cons]
        exact List.mem_cons_self
    · have hlt := hb a hmem
      have hne : a ≠ b := by
        rintro rfl
        exact Int.lt_irrefl _ hlt
      rw [List.countP_cons_of_neg (by rw [decide_eq_true_iff]; omega), ← ih hl hmem, List.length_cons]
      rcases Nat.lt_or_ge l.length m with hm | hm
      · rw [Nat.sub_eq_zero_of_le (by omega), Nat.sub_eq_zero_of_le (by omega), List.take_zero,
          List.take_zero]
      · rw [Nat.succ_sub hm, List.take_succ_cons, List.mem_cons, or_iff_right hne]

end SorobanPulse.Lib
