import Mathlib

/-! Weights side by side: each takes an interval of its own length, and the intervals tile the
    numbers below the sum.

        0      w₀            w₀ + w₁      …            sum
        ├──────┼──────────────┼─────── … ───────────────┤ -/

namespace SorobanPulse.Lib

def prefixSum (ws : List ℕ) (k : ℕ) : ℕ := (ws.take k).sum

/-- The number is in the interval of the weight at `i`. -/
def InInterval (ws : List ℕ) (b i : ℕ) : Prop := prefixSum ws i ≤ b ∧ b < prefixSum ws (i + 1)

section
variable {ws : List ℕ} {w b i j : ℕ}

theorem prefixSum_cons (w : ℕ) (ws : List ℕ) (k : ℕ) :
    prefixSum (w :: ws) (k + 1) = w + prefixSum ws k := by
  rw [prefixSum, List.take_succ_cons, List.sum_cons, prefixSum]

theorem prefixSum_succ (ws : List ℕ) (k : ℕ) :
    prefixSum ws (k + 1) = prefixSum ws k + ws[k]?.getD 0 := by
  rw [prefixSum, prefixSum, List.take_add_one, List.sum_append]
  cases ws[k]? <;> rfl

theorem prefixSum_mono (ws : List ℕ) (h : i ≤ j) : prefixSum ws i ≤ prefixSum ws j := by
  induction h with
  | refl => exact Nat.le_refl _
  | step _ ih =>
    rw [prefixSum_succ]
    exact Nat.le_add_right_of_le ih

/-- No two intervals meet. -/
theorem InInterval.unique (hi : InInterval ws b i) (hj : InInterval ws b j) : i = j := by
  rcases Nat.lt_trichotomy i j with hlt | heq | hgt
  · exact absurd (prefixSum_mono ws hlt) (Nat.not_le_of_lt (hj.1.trans_lt hi.2))
  · exact heq
  · exact absurd (prefixSum_mono ws hgt) (Nat.not_le_of_lt (hi.1.trans_lt hj.2))

/-- A weight with a number in its interval is there, and is not 0. -/
theorem InInterval.weight (h : InInterval ws b i) : ∃ w, ws[i]? = some w ∧ 0 < w := by
  have hlt := h.1.trans_lt h.2
  rw [prefixSum_succ] at hlt
  cases hw : ws[i]? with
  | none =>
    rw [hw] at hlt
    exact absurd hlt (Nat.lt_irrefl _)
  | some w =>
    rw [hw] at hlt
    exact ⟨w, rfl, Nat.pos_of_lt_add_right hlt⟩

theorem InInterval.zero (h : b < w) : InInterval (w :: ws) b 0 :=
  ⟨Nat.zero_le b, by rwa [prefixSum_cons, prefixSum, List.take_zero, List.sum_nil, Nat.add_zero]⟩

/-- Past the first weight. -/
theorem InInterval.succ (hw : w ≤ b) (h : InInterval ws (b - w) i) :
    InInterval (w :: ws) b (i + 1) := by
  obtain ⟨hlow, hhigh⟩ := h
  rw [InInterval, prefixSum_cons, prefixSum_cons]
  omega

end

end SorobanPulse.Lib

/-! Closed intervals of numbers, one right after the other.

        lo                                        hi
        [ a₁ … b₁ ][ a₂ … b₂ ][ a₃ … b₃ ]  …      |

    No number from `lo` up to `hi` is left out, and none is in two of them. -/

namespace SorobanPulse.Lib

/-- The intervals begin at `lo`, none is empty, each begins where the one before ended, and `hi` is
    the first number after them. -/
def Consecutive : ℕ → List (ℕ × ℕ) → ℕ → Prop
  | lo, [], hi => lo = hi
  | lo, c :: rest, hi => c.1 = lo ∧ lo ≤ c.2 ∧ Consecutive (c.2 + 1) rest hi

variable {lo hi n : ℕ} {l : List (ℕ × ℕ)} {c : ℕ × ℕ}

theorem Consecutive.le (h : Consecutive lo l hi) : lo ≤ hi := by
  induction l generalizing lo with
  | nil => exact Nat.le_of_eq h
  | cons c rest ih =>
    have hrest := ih h.2.2
    have hc := h.2.1
    omega

theorem Consecutive.eq_nil_iff (h : Consecutive lo l hi) : l = [] ↔ lo = hi := by
  cases l with
  | nil => exact ⟨fun _ => h, fun _ => rfl⟩
  | cons c rest =>
    have hrest := h.2.2.le
    have hc := h.2.1
    exact ⟨fun hnil => absurd hnil (List.cons_ne_nil _ _), fun heq => by omega⟩

/-- Every interval is in range. -/
theorem Consecutive.bounds (h : Consecutive lo l hi) (hc : c ∈ l) :
    lo ≤ c.1 ∧ c.1 ≤ c.2 ∧ c.2 < hi := by
  induction l generalizing lo with
  | nil => cases hc
  | cons d rest ih =>
    obtain ⟨rfl, hd, hrest⟩ := h
    rcases List.mem_cons.mp hc with rfl | hc
    · exact ⟨Nat.le_refl _, hd, hrest.le⟩
    · obtain ⟨hlo, hne, hhi⟩ := ih hrest hc
      exact ⟨by omega, hne, hhi⟩

/-- The intervals cover what is between their ends. -/
theorem Consecutive.exists_mem (h : Consecutive lo l hi) (hlo : lo ≤ n) (hhi : n < hi) :
    ∃ c ∈ l, c.1 ≤ n ∧ n ≤ c.2 := by
  induction l generalizing lo with
  | nil =>
    have heq : lo = hi := h
    omega
  | cons d rest ih =>
    obtain ⟨rfl, -, hrest⟩ := h
    rcases Nat.lt_or_ge d.2 n with hn | hn
    · obtain ⟨c, hc, hcn⟩ := ih hrest hn
      exact ⟨c, List.mem_cons_of_mem _ hc, hcn⟩
    · exact ⟨d, List.mem_cons_self, hlo, hn⟩

theorem Consecutive.covers_iff (h : Consecutive lo l hi) :
    (∃ c ∈ l, c.1 ≤ n ∧ n ≤ c.2) ↔ lo ≤ n ∧ n < hi := by
  constructor
  · rintro ⟨c, hc, hcn⟩
    obtain ⟨hlo, -, hhi⟩ := h.bounds hc
    omega
  · rintro ⟨hlo, hhi⟩
    exact h.exists_mem hlo hhi

/-- They ascend and do not overlap. -/
theorem Consecutive.pairwise (h : Consecutive lo l hi) : l.Pairwise fun c d => c.2 < d.1 := by
  induction l generalizing lo with
  | nil => exact .nil
  | cons c rest ih => exact .cons (fun d hd => (h.2.2.bounds hd).1) (ih h.2.2)

/-- No gap is left. -/
theorem Consecutive.isChain (h : Consecutive lo l hi) : l.IsChain fun c d => d.1 = c.2 + 1 := by
  induction l generalizing lo with
  | nil => exact .nil
  | cons c rest ih =>
    cases rest with
    | nil => exact .singleton _
    | cons d rest => exact .cons_cons h.2.2.1 (ih h.2.2)

/-- The intervals between the values of a sequence that grows. -/
theorem consecutive_map_range {g : ℕ → ℕ} {m : ℕ} (h : ∀ k < m, g k < g (k + 1)) :
    Consecutive (g 0) ((List.range m).map fun k => (g k, g (k + 1) - 1)) (g m) := by
  induction m generalizing g with
  | zero => rfl
  | succ m ih =>
    have hrest := ih (g := fun k => g (k + 1)) fun k hk => h (k + 1) (by omega)
    have hfirst := h 0 m.succ_pos
    rw [List.range_succ_eq_map, List.map_cons, List.map_map]
    refine ⟨rfl, by dsimp only; omega, ?_⟩
    dsimp only
    rw [Nat.sub_add_cancel (by omega)]
    exact hrest

end SorobanPulse.Lib
