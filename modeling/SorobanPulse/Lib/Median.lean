import Mathlib.Data.List.Count
import Mathlib.Data.List.Sort
import Mathlib.Order.Basic

/-! Medians: half of the samples are at most the median, and half are at least the median.

    An even number of samples may have several; whatever lies between the two in the middle is one. -/

namespace SorobanPulse.Lib

variable {α : Type*}

/-- The elements of a part all count. -/
theorem length_le_countP {p : α → Bool} {part l : List α} (hsub : part.Sublist l)
    (hall : ∀ x ∈ part, p x = true) : part.length ≤ l.countP p := by
  rw [← List.countP_eq_length.mpr hall]
  exact hsub.countP_le

variable [LinearOrder α]

structure IsMedian (samples : List α) (m : α) : Prop where
  atMost : samples.length ≤ 2 * samples.countP fun x => decide (x ≤ m)
  atLeast : samples.length ≤ 2 * samples.countP fun x => decide (m ≤ x)

variable {l l' : List α} {m : α}

theorem IsMedian.perm (h : IsMedian l m) (hperm : l.Perm l') : IsMedian l' m where
  atMost := by
    rw [← hperm.length_eq, ← hperm.countP_eq]
    exact h.atMost
  atLeast := by
    rw [← hperm.length_eq, ← hperm.countP_eq]
    exact h.atLeast

/-- In a sorted list, nothing up to an index is greater than its element, and nothing from it on is
    smaller. -/
theorem le_of_mem_take {i : ℕ} (hsorted : l.Pairwise (· ≤ ·)) (hi : i < l.length) {x : α}
    (hx : x ∈ l.take (i + 1)) : x ≤ l[i] := by
  obtain ⟨j, hj, rfl⟩ := List.mem_take_iff_getElem.mp hx
  exact hsorted.sortedLE.getElem_le_getElem_of_le (by omega)

theorem le_of_mem_drop {i : ℕ} (hsorted : l.Pairwise (· ≤ ·)) (hi : i < l.length) {x : α}
    (hx : x ∈ l.drop i) : l[i] ≤ x := by
  obtain ⟨j, hj, rfl⟩ := List.mem_drop_iff_getElem.mp hx
  exact hsorted.sortedLE.getElem_le_getElem_of_le (by omega)

/-- What lies between two elements of a sorted list, of which the first ends its first half and the
    second begins its second half, is a median. -/
theorem isMedian_of_between {i j : ℕ} (hsorted : l.Pairwise (· ≤ ·)) (hi : i < l.length)
    (hj : j < l.length) (hfirst : l.length ≤ 2 * (i + 1)) (hsecond : 2 * j ≤ l.length)
    (hlow : l[i] ≤ m) (hhigh : m ≤ l[j]) : IsMedian l m where
  atMost := by
    have hcount := length_le_countP (p := fun x => decide (x ≤ m)) (List.take_sublist (i + 1) l)
      fun x hx => decide_eq_true ((le_of_mem_take hsorted hi hx).trans hlow)
    rw [List.length_take] at hcount
    omega
  atLeast := by
    have hcount := length_le_countP (p := fun x => decide (m ≤ x)) (List.drop_sublist j l)
      fun x hx => decide_eq_true (hhigh.trans (le_of_mem_drop hsorted hj hx))
    rw [List.length_drop] at hcount
    omega

end SorobanPulse.Lib
