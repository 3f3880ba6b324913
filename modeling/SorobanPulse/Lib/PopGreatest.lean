import Mathlib.Data.List.Perm.Basic

/-! Taking a greatest element out of a list.

    Of several greatest elements it is the first: over a list in order of arrival, with an order that
    looks at the priority only, this is a stable priority queue. Where no two elements are equal, a
    permutation of the list gives the same element. -/

namespace SorobanPulse.Lib

variable {α : Type*}

/-- The first of the greatest elements, and the others. -/
def popGreatest (lt : α → α → Bool) : List α → Option (α × List α)
  | [] => none
  | x :: xs =>
    match popGreatest lt xs with
    | none => some (x, [])
    | some (y, ys) => if lt x y then some (y, x :: ys) else some (x, xs)

/-- `lt` orders classes of equal elements. -/
structure WeakOrder (lt : α → α → Bool) : Prop where
  irrefl : ∀ x, lt x x = false
  trans : ∀ {x y z}, lt x y = true → lt y z = true → lt x z = true
  negTrans : ∀ {x y z}, lt x y = false → lt y z = false → lt x z = false

variable {lt : α → α → Bool} {l m rest : List α} {x : α}

theorem popGreatest_eq_none_iff : popGreatest lt l = none ↔ l = [] := by
  cases l with
  | nil => exact iff_of_true rfl rfl
  | cons x xs =>
    refine iff_of_false ?_ (List.cons_ne_nil x xs)
    rw [popGreatest]
    split
    · nofun
    · split <;> nofun

/-- What comes before it is smaller, what comes after it is not greater. -/
theorem popGreatest_eq_some (hlt : WeakOrder lt) (h : popGreatest lt l = some (x, rest)) :
    ∃ before after, l = before ++ x :: after ∧ rest = before ++ after ∧
      (∀ y ∈ before, lt y x = true) ∧ ∀ y ∈ after, lt x y = false := by
  induction l generalizing x rest with
  | nil => cases h
  | cons a l ih =>
    rw [popGreatest] at h
    cases htail : popGreatest lt l with
    | none =>
      rw [htail] at h
      obtain ⟨rfl, rfl⟩ := Prod.mk.inj (Option.some.inj h)
      rw [popGreatest_eq_none_iff.mp htail]  -- the tail is empty
      exact ⟨[], [], rfl, rfl, nofun, nofun⟩
    | some popped =>
      obtain ⟨y, ys⟩ := popped
      rw [htail] at h
      obtain ⟨before, after, hl, hys, hbefore, hafter⟩ := ih htail
      dsimp only at h
      split at h
      · -- the one popped from the tail is greater, and the head stays before it
        next hless =>
        obtain ⟨rfl, rfl⟩ := Prod.mk.inj (Option.some.inj h)
        refine ⟨a :: before, after, by rw [hl]; rfl, by rw [hys]; rfl, ?_, hafter⟩
        intro z hz
        obtain rfl | hz := List.mem_cons.mp hz
        · exact hless
        · exact hbefore z hz
      · next hless =>
        obtain ⟨rfl, rfl⟩ := Prod.mk.inj (Option.some.inj h)
        rw [Bool.not_eq_true] at hless  -- the head is popped, and nothing behind it is greater
        refine ⟨[], l, rfl, rfl, nofun, fun z hz => ?_⟩
        rw [hl] at hz
        obtain hz | hz := List.mem_append.mp hz
        · by_contra hgreater
          rw [Bool.not_eq_false] at hgreater
          have hless' := hlt.trans hgreater (hbefore z hz)
          rw [hless] at hless'
          cases hless'
        · obtain rfl | hz := List.mem_cons.mp hz
          · exact hless
          · exact hlt.negTrans hless (hafter z hz)

theorem popGreatest_perm (hlt : WeakOrder lt) (h : popGreatest lt l = some (x, rest)) :
    l.Perm (x :: rest) := by
  obtain ⟨before, after, rfl, rfl, -, -⟩ := popGreatest_eq_some hlt h
  exact List.perm_middle

/-- An element above all others of a permutation is the one taken out. -/
theorem popGreatest_of_perm (hlt : WeakOrder lt) (hperm : m.Perm (x :: rest))
    (habove : ∀ y ∈ rest, lt y x = true) :
    ∃ others, popGreatest lt m = some (x, others) ∧ others.Perm rest := by
  cases hpop : popGreatest lt m with
  | none =>
    rw [popGreatest_eq_none_iff.mp hpop] at hperm
    cases List.nil_perm.mp hperm
  | some popped =>
    obtain ⟨z, others⟩ := popped
    have hmz := popGreatest_perm hlt hpop
    obtain ⟨before, after, hm, rfl, hbefore, hafter⟩ := popGreatest_eq_some hlt hpop
    have hzx : z = x := by
      by_contra hne
      have hz : z ∈ x :: rest := (hmz.symm.trans hperm).subset List.mem_cons_self
      have hless := habove z (List.mem_of_ne_of_mem hne hz)
      have hx : x ∈ z :: (before ++ after) := (hperm.symm.trans hmz).subset List.mem_cons_self
      obtain hx | hx := List.mem_append.mp (List.mem_of_ne_of_mem (Ne.symm hne) hx)
      · have hcycle := hlt.trans hless (hbefore x hx)
        rw [hlt.irrefl] at hcycle
        cases hcycle
      · rw [hafter x hx] at hless
        cases hless
    subst hzx
    exact ⟨_, rfl, (hmz.symm.trans hperm).cons_inv⟩

end SorobanPulse.Lib
