import Mathlib

/-! Sliding windows over a log of times, the latest first.

    The window that ends at `t` holds the times from which `t` is not too far: those up to `t` that
    expire after it, for any notion `expires` of expiry.

                 ├─────────── window ───────────┤
        ──x──────x'──────x''────────────────────t──────▶
            t = expires x, so x is just out

    It is enough to look at the windows that end where a time is added: `Paced.countP_le`. -/

namespace SorobanPulse.Lib

variable {α : Type*} [LinearOrder α] {expires : α → α} {limit : ℕ} {x t : α} {xs : List α}

/-- `x` lies in the window that ends at `t`. -/
def inWindow (expires : α → α) (t x : α) : Bool := x ≤ t ∧ t < expires x

@[simp] theorem inWindow_iff : inWindow expires t x = true ↔ x ≤ t ∧ t < expires x :=
  decide_eq_true_iff

/-- Each time comes after the ones before it, and fewer than `limit` of those are in its window. -/
def Paced (expires : α → α) (limit : ℕ) : List α → Prop
  | [] => True
  | x :: xs => (∀ y ∈ xs, y ≤ x) ∧ xs.countP (inWindow expires x) < limit ∧ Paced expires limit xs

/-- A window that holds `x` holds, of the times before `x`, only such as are in the window of `x`. -/
theorem countP_inWindow_mono (expires : α → α) (hpast : ∀ y ∈ xs, y ≤ x) (hx : x ≤ t) :
    xs.countP (inWindow expires t) ≤ xs.countP (inWindow expires x) := by
  refine List.countP_mono_left fun y hy hin => ?_
  rw [inWindow_iff] at hin ⊢
  exact ⟨hpast y hy, lt_of_le_of_lt hx hin.2⟩

/-- No window of a paced log holds more than `limit` times. -/
theorem Paced.countP_le (h : Paced expires limit xs) (t : α) :
    xs.countP (inWindow expires t) ≤ limit := by
  induction xs with
  | nil => exact Nat.zero_le _
  | cons x xs ih =>
    obtain ⟨hpast, hfew, hrest⟩ := h
    by_cases hin : inWindow expires t x = true
    · rw [List.countP_cons_of_pos hin]
      have hmono := countP_inWindow_mono expires hpast (inWindow_iff.mp hin).1
      omega
    · rw [List.countP_cons_of_neg hin]
      exact ih hrest

end SorobanPulse.Lib

/-! The generic cell rate algorithm: a token bucket that stores one time.

    The stored time is when the bucket will be full again. Each token taken moves it one interval
    further, and while it has passed the bucket holds all its tokens.

        now                     full again
        |---|---|---|---|---|---|                 6 of `burst` tokens are missing -/

namespace SorobanPulse.Lib.Gcra

/-- `burst` tokens at most, one more after each interval. -/
structure Quota where
  burst : ℕ
  interval : ℕ
  burst_pos : 0 < burst
  interval_pos : 0 < interval

variable (q : Quota) {full now : ℕ}

/-- The tokens in a bucket that will be full at `full`. -/
def tokens (full now : ℕ) : ℕ := (now + q.burst * q.interval - max full now) / q.interval

/-- A bucket has a token as long as at most `burst - 1` are missing. -/
def holds (full now : ℕ) : Prop := full ≤ now + (q.burst - 1) * q.interval

instance (full now : ℕ) : Decidable (holds q full now) := inferInstanceAs (Decidable (_ ≤ _))

/-- Take a token; without one the bucket stays as it is. -/
def check (full now : ℕ) : ℕ × Bool :=
  if holds q full now then (max full now + q.interval, true) else (full, false)

theorem holds_iff_tokens : holds q full now ↔ 0 < tokens q full now := by
  have hburst : q.burst * q.interval = (q.burst - 1) * q.interval + q.interval := by
    conv_lhs => rw [← Nat.sub_add_cancel q.burst_pos, Nat.succ_mul]
  rw [holds, tokens, Nat.div_pos_iff, hburst]
  have hpos := q.interval_pos
  omega

/-- A bucket not used yet has a token. -/
theorem holds_zero (now : ℕ) : holds q 0 now := Nat.zero_le _

theorem check_eq_true : (check q full now).2 = true ↔ holds q full now := by
  rw [check]
  split
  · next h => simp [h]
  · next h => simp [h]

theorem check_of_not_holds (h : ¬holds q full now) : check q full now = (full, false) := if_neg h

/-- Whoever takes a token changes the bucket. -/
theorem check_ne_self (h : holds q full now) : (check q full now).1 ≠ full := by
  have hpos := q.interval_pos
  rw [check, if_pos h]
  dsimp only
  omega

end SorobanPulse.Lib.Gcra

/-! Fixed windows: each logged time lies in the window that it was counted in, and different windows
    start more than their length apart.

        ├─── window ───┤      ├─── window ───┤
             ──────────├─── span ───┤──────────▶

    Each window is within the limit; a span as long as a window is within twice the limit. -/

namespace SorobanPulse.Lib.FixedWindows

variable {α : Type*} {window time : α → ℤ} {span : ℤ} {limit : ℕ} {log : List α}

theorem countP_le_add {p q r : α → Bool} (h : ∀ x ∈ log, p x → q x ∨ r x) :
    log.countP p ≤ log.countP q + log.countP r := by
  induction log with
  | nil => exact Nat.zero_le _
  | cons x log ih =>
    have hrest := ih fun y hy => h y (List.mem_cons_of_mem _ hy)
    have hx := h x List.mem_cons_self
    rw [List.countP_cons, List.countP_cons, List.countP_cons]
    by_cases hp : p x
    · rcases hx hp with hq | hr
      · simp [hp, hq]
        omega
      · simp [hp, hr]
        omega
    · simp [hp]
      omega

/-- A time span as long as a window meets two windows at most. -/
theorem countP_le_two_mul (window time : α → ℤ)
    (hin : ∀ x ∈ log, window x ≤ time x ∧ time x ≤ window x + span)
    (hspaced : ∀ x ∈ log, ∀ y ∈ log,
      window x = window y ∨ window x + span < window y ∨ window y + span < window x)
    (hlimit : ∀ w, log.countP (window · = w) ≤ limit) (a : ℤ) :
    log.countP (fun x => a ≤ time x ∧ time x ≤ a + span) ≤ 2 * limit := by
  by_cases hnear : ∃ x ∈ log, a ≤ time x ∧ time x ≤ a + span
  · obtain ⟨x, hx, hxa⟩ := hnear
    by_cases hother : ∃ y ∈ log, (a ≤ time y ∧ time y ≤ a + span) ∧ window y ≠ window x
    · -- windows of three different starts would reach over two spans
      obtain ⟨y, hy, hya, hne⟩ := hother
      have hle := countP_le_add (p := fun x => a ≤ time x ∧ time x ≤ a + span)
        (q := (window · = window x)) (r := (window · = window y)) (by
          intro z hz hza
          simp only [decide_eq_true_eq] at hza ⊢
          have hxin := hin x hx
          have hyin := hin y hy
          have hzin := hin z hz
          rcases hspaced x hx y hy with hxy | hxy | hxy <;>
            rcases hspaced x hx z hz with hxz | hxz | hxz <;>
            rcases hspaced y hy z hz with hyz | hyz | hyz <;> omega)
      have hfirst := hlimit (window x)
      have hsecond := hlimit (window y)
      omega
    · -- all of them in one window
      have hle := List.countP_mono_left (l := log)
        (p := fun x => decide (a ≤ time x ∧ time x ≤ a + span)) (q := (window · = window x)) (by
          intro z hz hza
          simp only [decide_eq_true_eq] at hza ⊢
          by_contra hne
          exact hother ⟨z, hz, hza, hne⟩)
      have hfirst := hlimit (window x)
      omega
  · -- none at all
    have hzero : log.countP (fun x => a ≤ time x ∧ time x ≤ a + span) = 0 := by
      rw [List.countP_eq_zero]
      intro x hx
      simpa using fun hle hle' => hnear ⟨x, hx, hle, hle'⟩
    omega

end SorobanPulse.Lib.FixedWindows
