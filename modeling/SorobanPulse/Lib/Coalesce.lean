import Mathlib.Data.List.Basic

/-! Columns merged by `COALESCE` over a sequence of upserts.

    Each upsert offers `f a : Option β` and the column keeps either the newest offer
    (`COALESCE(new, old)`) or the oldest one (`COALESCE(old, new)`). Either way the column ends up with
    an offer of the sequence, or empty when there was none; the two orders differ in which offer. -/

namespace SorobanPulse.Lib

variable {α β : Type*} {f : α → Option β} {as bs : List α} {a : α} {v w : Option β}

/-- `v` is an offer of the sequence, or empty because there is none. -/
def Picks (f : α → Option β) (as : List α) (v : Option β) : Prop :=
  (∃ a ∈ as, (f a).isSome ∧ v = f a) ∨ v = none ∧ ∀ a ∈ as, f a = none

/-- All offers of the sequence are equal. -/
def Agree (f : α → Option β) (as : List α) : Prop :=
  ∀ a ∈ as, ∀ b ∈ as, (f a).isSome → (f b).isSome → f a = f b

theorem Picks.nil : Picks f [] none := .inr ⟨rfl, fun _ h => absurd h List.not_mem_nil⟩

theorem Picks.congr (hmem : ∀ a, a ∈ as ↔ a ∈ bs) (h : Picks f as v) : Picks f bs v := by
  rcases h with ⟨a, ha, hsome, rfl⟩ | ⟨rfl, hnone⟩
  · exact .inl ⟨a, (hmem a).mp ha, hsome, rfl⟩
  · exact .inr ⟨rfl, fun a ha => hnone a ((hmem a).mpr ha)⟩

/-- `COALESCE(new, old)`. -/
theorem Picks.newest (h : Picks f as v) (a : α) : Picks f (as ++ [a]) ((f a).or v) := by
  cases hfa : f a with
  | some b =>
    refine .inl ⟨a, List.mem_append_right _ (List.mem_singleton.mpr rfl), ?_, ?_⟩
    · rw [hfa]; rfl
    · rw [hfa]; rfl
  | none =>
    rw [Option.none_or]
    rcases h with ⟨b, hb, hsome, rfl⟩ | ⟨rfl, hnone⟩
    · exact .inl ⟨b, List.mem_append_left _ hb, hsome, rfl⟩
    · refine .inr ⟨rfl, fun b hb => ?_⟩
      rcases List.mem_append.mp hb with hb | hb
      · exact hnone b hb
      · rw [List.mem_singleton.mp hb]; exact hfa

/-- `COALESCE(old, new)`. -/
theorem Picks.oldest (h : Picks f as v) (a : α) : Picks f (as ++ [a]) (v.or (f a)) := by
  rcases h with ⟨b, hb, hsome, rfl⟩ | ⟨rfl, hnone⟩
  · refine .inl ⟨b, List.mem_append_left _ hb, hsome, ?_⟩
    obtain ⟨c, hc⟩ := Option.isSome_iff_exists.mp hsome
    rw [hc]; rfl
  · have hempty : Picks f as none := .inr ⟨rfl, hnone⟩
    rw [Option.none_or]
    have hnew := hempty.newest a
    rwa [Option.or_none] at hnew

/-- Where the offers agree, the column does not depend on which offer was kept. -/
theorem Picks.unique (hagree : Agree f as) (hv : Picks f as v) (hw : Picks f as w) : v = w := by
  rcases hv with ⟨a, ha, hsa, rfl⟩ | ⟨rfl, hnone⟩ <;> rcases hw with ⟨b, hb, hsb, rfl⟩ | ⟨rfl, hnone'⟩
  · exact hagree a ha b hb hsa hsb
  · exact hnone' a ha
  · exact (hnone b hb).symm
  · rfl

end SorobanPulse.Lib
