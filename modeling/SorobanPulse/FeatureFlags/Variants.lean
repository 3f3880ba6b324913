import SorobanPulse.Lib.Consecutive

/-! `assign_variant`: the hash of a context, taken modulo the total weight, falls into the interval of
    one variant.

        total : u32 = Σ weight        bucket = hash % total
        for each variant              bucket < weight ─▶ this one     else bucket -= weight

    The total is summed up in 32 bits. -/

namespace SorobanPulse.FeatureFlags
open Lib

structure FeatureFlagContext where
  contractId : Option String
  userId : Option String
  ipAddress : Option String
  region : Option String

structure FlagVariant where
  name : String
  weight : UInt32

/-! ### Words of 32 bits -/

section
variable (checks : Bool)

/-- `+` on `u32`: built with overflow checks it panics, without them it wraps. -/
def addU32 (a b : ℕ) : Option ℕ :=
  if a + b < 2 ^ 32 then some (a + b) else if checks then none else some (a + b - 2 ^ 32)

def subU32 (a b : ℕ) : Option ℕ :=
  if b ≤ a then some (a - b) else if checks then none else some (2 ^ 32 + a - b)

/-! ### Assignment -/

/-- What is returned, and where; a reference is its index. -/
inductive Assigned where
  | none
  | matched (i : ℕ)
  /-- `variants.last()` behind the loop. -/
  | last (i : ℕ)
  deriving DecidableEq

def assignLoop (bucket : ℕ) (i : ℕ) : List FlagVariant → Option Assigned
  | [] => some (.last (i - 1))
  | variant :: rest =>
    if bucket < variant.weight.toNat then some (.matched i)
    else do
      let bucket ← subU32 checks bucket variant.weight.toNat
      assignLoop bucket (i + 1) rest

/-- `compute_rollout_hash`: the name of the flag, and the first of the identifiers that is there. -/
def computeRolloutHash (hasher : List String → UInt64) (flagName : String)
    (context : FeatureFlagContext) : UInt64 :=
  match context.contractId, context.userId, context.ipAddress with
  | some contractId, _, _ => hasher [flagName, contractId]
  | none, some userId, _ => hasher [flagName, userId]
  | none, none, some ip => hasher [flagName, ip]
  | none, none, none => hasher [flagName]

/-- The outer `none` is a panic. -/
def assignVariant (hasher : List String → UInt64) (flagName : String) (context : FeatureFlagContext)
    (variants : List FlagVariant) : Option Assigned :=
  if variants.isEmpty then some .none
  else do
    let totalWeight ← (variants.map (·.weight.toNat)).foldlM (addU32 checks) 0
    if totalWeight = 0 then return .none
    let hash := computeRolloutHash hasher flagName context
    assignLoop checks (hash.toNat % totalWeight) 0 variants

end

/-! ### What assignment is to do -/

/-- The weights of the variants, as numbers without bound. -/
def weights (variants : List FlagVariant) : List ℕ := variants.map (·.weight.toNat)

/-- With and without overflow checks, the loop returns the one variant with the hash in its interval,
    and this one has a weight. -/
def AssignsExactly (hasher : List String → UInt64) (flagName : String) (context : FeatureFlagContext)
    (variants : List FlagVariant) : Prop :=
  ∀ checks, ∃ i, assignVariant checks hasher flagName context variants = some (.matched i) ∧
    (∃ variant, variants[i]? = some variant ∧ variant.weight ≠ 0) ∧
    ∀ j, InInterval (weights variants)
      ((computeRolloutHash hasher flagName context).toNat % (weights variants).sum) j ↔ j = i

section
variable {checks : Bool} {variants : List FlagVariant} {bucket i : ℕ}

/-- The sum of the weights, as long as it fits. -/
theorem foldlM_addU32 {ws : List ℕ} {a : ℕ} (h : a + ws.sum < 2 ^ 32) :
    ws.foldlM (addU32 checks) a = some (a + ws.sum) := by
  induction ws generalizing a with
  | nil => rfl
  | cons w ws ih =>
    rw [List.sum_cons] at h
    have hadd : addU32 checks a w = some (a + w) := if_pos (by omega)
    rw [List.foldlM_cons, hadd, List.sum_cons, ← Nat.add_assoc]
    exact ih (by omega)

theorem foldlM_addU32_overflow {ws : List ℕ} {a : ℕ} (ha : a < 2 ^ 32) (h : 2 ^ 32 ≤ a + ws.sum) :
    ws.foldlM (addU32 true) a = none := by
  induction ws generalizing a with
  | nil =>
    rw [List.sum_nil] at h
    omega
  | cons w ws ih =>
    rw [List.sum_cons] at h
    rw [List.foldlM_cons, addU32]
    split
    · next hfits => exact ih hfits (by omega)
    · rfl

/-- A bucket below the sum is found in the loop. -/
theorem assignLoop_spec (checks : Bool) (i : ℕ) (h : bucket < (weights variants).sum) :
    ∃ j, assignLoop checks bucket i variants = some (.matched (i + j)) ∧
      InInterval (weights variants) bucket j := by
  induction variants generalizing bucket i with
  | nil => exact absurd h (Nat.not_lt_zero _)
  | cons variant rest ih =>
    rw [weights, List.map_cons, List.sum_cons] at h
    by_cases hlt : bucket < variant.weight.toNat
    · exact ⟨0, if_pos hlt, .zero hlt⟩
    · have hle := Nat.le_of_not_lt hlt
      have hsub : subU32 checks bucket variant.weight.toNat =
          some (bucket - variant.weight.toNat) := if_pos hle
      have hrest : bucket - variant.weight.toNat < (weights rest).sum := by
        rw [weights]
        omega
      obtain ⟨j, hloop, hj⟩ := ih (i + 1) hrest
      refine ⟨j + 1, ?_, hj.succ hle⟩
      rw [assignLoop, if_neg hlt, hsub]
      rw [show i + (j + 1) = i + 1 + j by omega]
      exact hloop

end

section
variable (hasher : List String → UInt64) (flagName : String) (context : FeatureFlagContext)
  (variants : List FlagVariant)

/-- Assignment is exact for those weights whose sum fits into 32 bits. -/
theorem assignsExactly_iff (hpos : ∃ variant ∈ variants, 0 < variant.weight) :
    AssignsExactly hasher flagName context variants ↔ (weights variants).sum < 2 ^ 32 := by
  obtain ⟨variant, hmem, hweight⟩ := hpos
  have hne : variants.isEmpty = false := by
    rw [List.isEmpty_eq_false_iff_exists_mem]
    exact ⟨variant, hmem⟩
  constructor
  · intro h
    by_contra hover
    -- with overflow checks the sum panics, and nothing is assigned
    obtain ⟨i, hassign, -⟩ := h true
    have hpanic : (weights variants).foldlM (addU32 true) 0 = none :=
      foldlM_addU32_overflow (by decide) (by omega)
    rw [weights] at hpanic
    rw [assignVariant, if_neg (by simp [hne]), hpanic] at hassign
    cases hassign
  · intro hfits checks
    -- some weight is positive, so the hash falls into the sum
    have htotal : 0 < (weights variants).sum := by
      refine List.sum_pos_iff_exists_pos_nat.mpr ⟨variant.weight.toNat, ?_, ?_⟩
      · exact List.mem_map_of_mem hmem
      · exact UInt32.lt_iff_toNat_lt.mp hweight
    have hsum : (weights variants).foldlM (addU32 checks) 0 = some (weights variants).sum := by
      rw [foldlM_addU32 (by omega), Nat.zero_add]
    obtain ⟨i, hloop, hi⟩ := assignLoop_spec checks 0
      (Nat.mod_lt (computeRolloutHash hasher flagName context).toNat htotal)
    refine ⟨i, ?_, ?_, fun j => ⟨fun hj => hj.unique hi, fun hj => hj ▸ hi⟩⟩
    · rw [weights] at hsum htotal hloop
      rw [assignVariant, if_neg (by simp [hne]), hsum]
      simp only [Option.bind_eq_bind, Option.bind_some]
      rw [if_neg htotal.ne', hloop, Nat.zero_add]
    · obtain ⟨w, hw, hwpos⟩ := hi.weight
      rw [weights, List.getElem?_map] at hw
      obtain ⟨variant', hvariant, rfl⟩ := Option.map_eq_some_iff.mp hw
      -- a variant of weight 0 has no room for the hash
      refine ⟨variant', hvariant, fun hzero => ?_⟩
      rw [hzero] at hwpos
      exact absurd hwpos (Nat.lt_irrefl 0)

end

/-! ### Two variants of equal weight -/

def anyone : FeatureFlagContext := ⟨none, none, none, none⟩

def evenVariants (weight : UInt32) : List FlagVariant := [⟨"a", weight⟩, ⟨"b", weight⟩]

theorem assignsExactly_even :
    AssignsExactly (fun _ => 7) "ab-flag" anyone (evenVariants 50) ↔ 100 < 2 ^ 32 :=
  assignsExactly_iff (fun _ => 7) "ab-flag" anyone (evenVariants 50)
    ⟨⟨"a", 50⟩, List.mem_cons_self, by decide⟩

/-- The total wraps around to 0. -/
theorem not_assignsExactly_half :
    assignVariant false (fun _ => 7) "ab-flag" anyone (evenVariants 2147483648) = some .none ∧
    ¬AssignsExactly (fun _ => 7) "ab-flag" anyone (evenVariants 2147483648) := by
  have hwraps : assignVariant false (fun _ => 7) "ab-flag" anyone (evenVariants 2147483648) =
      some .none := by decide
  refine ⟨hwraps, fun h => ?_⟩
  obtain ⟨i, hassign, -⟩ := h false
  rw [hwraps] at hassign
  cases hassign

end SorobanPulse.FeatureFlags
