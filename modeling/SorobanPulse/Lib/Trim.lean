import Mathlib.Data.List.DropRight
import Mathlib.Data.List.TakeWhile

/-! Trimming: what satisfies a predicate goes from both ends of a list. -/

namespace SorobanPulse.Lib

variable {α : Type*} {p : α → Bool} {q : α} {xs : List α}

/-- `s.trim_matches(p)` -/
def trimMatches (p : α → Bool) (s : List α) : List α := (s.dropWhile p).rdropWhile p

theorem length_dropWhile_le (p : α → Bool) (l : List α) :
    (l.dropWhile p).length ≤ l.length := (List.dropWhile_sublist p).length_le

theorem length_trimMatches_le (p : α → Bool) (xs : List α) :
    (trimMatches p xs).length ≤ xs.length :=
  ((List.rdropWhile_prefix p _).length_le).trans (length_dropWhile_le p xs)

theorem dropWhile_eq_self_iff : xs.dropWhile p = xs ↔ ∀ c ∈ xs.head?, p c = false := by
  rw [List.dropWhile_eq_self_iff]
  cases xs <;> simp

theorem rdropWhile_eq_self_iff : xs.rdropWhile p = xs ↔ ∀ c ∈ xs.getLast?, p c = false := by
  rw [List.rdropWhile, List.reverse_eq_iff, dropWhile_eq_self_iff, List.head?_reverse]

/-- Nothing is trimmed exactly if both ends stay. -/
theorem trimMatches_eq_self_iff : trimMatches p xs = xs ↔
    (∀ c ∈ xs.head?, p c = false) ∧ ∀ c ∈ xs.getLast?, p c = false := by
  rw [← dropWhile_eq_self_iff, ← rdropWhile_eq_self_iff, trimMatches]
  constructor
  · intro h
    have hdrop : xs.dropWhile p = xs := by
      refine (List.dropWhile_suffix p).eq_of_length (le_antisymm (length_dropWhile_le p xs) ?_)
      conv_lhs => rw [← h]
      exact (List.rdropWhile_prefix p _).length_le
    rw [hdrop] at h
    exact ⟨hdrop, h⟩
  · rintro ⟨hdrop, hrdrop⟩
    rw [hdrop, hrdrop]

/-- A character around the text goes. -/
theorem trimMatches_around (hq : p q = true) :
    trimMatches p (q :: (xs ++ [q])) = trimMatches p xs := by
  rw [trimMatches, trimMatches, List.dropWhile_cons, if_pos hq, List.dropWhile_append]
  split
  · next hempty =>
    rw [List.isEmpty_iff.mp hempty, List.dropWhile_cons, if_pos hq, List.dropWhile_nil]
  · exact List.rdropWhile_concat_pos p _ q hq

/-- In front of one that stays nothing goes. -/
theorem trimMatches_cons_of_neg (hq : p q = false) (xs : List α) :
    trimMatches p (q :: xs) = q :: xs.rdropWhile p := by
  rw [trimMatches, List.dropWhile_cons, hq, if_neg Bool.false_ne_true, List.rdropWhile,
    List.reverse_cons, List.dropWhile_append]
  split
  · next hempty =>
    rw [List.rdropWhile, List.isEmpty_iff.mp hempty, List.dropWhile_cons, hq]
    rfl
  · rw [List.reverse_append]
    rfl

end SorobanPulse.Lib
