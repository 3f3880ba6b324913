import Mathlib.Algebra.Order.Floor.Ring
import Mathlib.Data.Int.Log
import Mathlib.Data.Rat.Floor
import Mathlib.Tactic.FieldSimp
import Mathlib.Tactic.Linarith
import Mathlib.Tactic.NormNum

/-! Rounding to `f64`: 53 significant bits, to the nearest, ties to even.

    Rationals of moderate size only: nothing here overflows or is subnormal. -/

namespace SorobanPulse.Lib

/-- The nearest integer, of two the even one. -/
def roundTiesEven (x : ℚ) : ℤ :=
  if Int.fract x < 1 / 2 ∨ Int.fract x = 1 / 2 ∧ ⌊x⌋ % 2 = 0 then ⌊x⌋ else ⌊x⌋ + 1

/-- The unit in the last place of the `f64`s about `x`, which is not 0. -/
def ulp (x : ℚ) : ℚ := 2 ^ (Int.log 2 |x| - 52)

/-- The `f64` that `x` is rounded to. -/
def toF64 (x : ℚ) : ℚ := if x = 0 then 0 else roundTiesEven (x / ulp x) * ulp x

@[simp] theorem toF64_zero : toF64 0 = 0 := if_pos rfl

theorem floor_le_roundTiesEven (x : ℚ) : ⌊x⌋ ≤ roundTiesEven x := by
  rw [roundTiesEven]
  split
  · exact le_rfl
  · omega

theorem roundTiesEven_intCast (n : ℤ) : roundTiesEven n = n := by
  rw [roundTiesEven, if_pos (.inl (by rw [Int.fract_intCast]; norm_num)), Int.floor_intCast]

theorem ulp_pos (x : ℚ) : 0 < ulp x := zpow_pos (by norm_num) _

/-- A positive number has 53 bits in units of its last place. -/
theorem le_div_ulp {x : ℚ} (h : 0 < x) : 2 ^ 52 ≤ x / ulp x := by
  rw [le_div_iff₀ (ulp_pos x), ulp, zpow_sub₀ (by norm_num), abs_of_pos h]
  have hlog := Int.zpow_log_le_self (b := 2) (by norm_num) h
  have hcast : ((2 : ℕ) : ℚ) = 2 := by norm_num
  rw [hcast] at hlog
  have hpow : (2 : ℚ) ^ (52 : ℤ) = 2 ^ 52 := by norm_num
  rw [hpow, mul_div_cancel₀ _ (by norm_num)]
  exact hlog

theorem le_roundTiesEven_div_ulp {x : ℚ} (h : 0 < x) : 2 ^ 52 ≤ roundTiesEven (x / ulp x) := by
  have hfloor : (2 : ℤ) ^ 52 ≤ ⌊x / ulp x⌋ := Int.le_floor.mpr (by exact_mod_cast le_div_ulp h)
  exact hfloor.trans (floor_le_roundTiesEven _)

theorem toF64_pos {x : ℚ} (h : 0 < x) : 0 < toF64 x := by
  rw [toF64, if_neg h.ne']
  have hround : (0 : ℤ) < roundTiesEven (x / ulp x) :=
    (by norm_num : (0 : ℤ) < 2 ^ 52).trans_le (le_roundTiesEven_div_ulp h)
  exact mul_pos (by exact_mod_cast hround) (ulp_pos x)

theorem toF64_nonneg {x : ℚ} (h : 0 ≤ x) : 0 ≤ toF64 x := by
  rcases h.eq_or_lt with rfl | hpos
  · rw [toF64_zero]
  · exact (toF64_pos hpos).le

/-! ### Rounding keeps the order -/

theorem roundTiesEven_le_floor_add_one (x : ℚ) : roundTiesEven x ≤ ⌊x⌋ + 1 := by
  rw [roundTiesEven]
  split
  · omega
  · exact le_rfl

theorem roundTiesEven_mono {x y : ℚ} (h : x ≤ y) : roundTiesEven x ≤ roundTiesEven y := by
  rcases (Int.floor_mono h).lt_or_eq with hlt | heq
  · calc roundTiesEven x ≤ ⌊x⌋ + 1 := roundTiesEven_le_floor_add_one x
      _ ≤ ⌊y⌋ := hlt
      _ ≤ roundTiesEven y := floor_le_roundTiesEven y
  · -- between the same two integers, the greater number is rounded up if the smaller one is
    have hfract : Int.fract x ≤ Int.fract y := by
      rw [Int.fract, Int.fract, heq]
      exact sub_le_sub_right h _
    unfold roundTiesEven
    rw [heq]
    split
    · split <;> omega
    · next hup =>
      rw [if_neg]
      rintro (hlow | ⟨htie, heven⟩)
      · exact hup (.inl (hfract.trans_lt hlow))
      · rcases (hfract.trans_eq htie).lt_or_eq with hlow | htie'
        · exact hup (.inl hlow)
        · exact hup (.inr ⟨htie', heven⟩)

theorem div_ulp_lt {x : ℚ} (h : 0 < x) : x / ulp x < 2 ^ 53 := by
  have hlog := Int.lt_zpow_succ_log_self (b := 2) (by norm_num) x
  rw [div_lt_iff₀ (ulp_pos x), ulp, abs_of_pos h, ← zpow_natCast, ← zpow_add₀ (by norm_num)]
  refine hlog.trans_eq ?_
  congr 1
  push_cast
  ring

theorem roundTiesEven_div_ulp_le {x : ℚ} (h : 0 < x) : roundTiesEven (x / ulp x) ≤ 2 ^ 53 := by
  have hfloor : ⌊x / ulp x⌋ < (2 : ℤ) ^ 53 := Int.floor_lt.mpr (by exact_mod_cast div_ulp_lt h)
  exact (roundTiesEven_le_floor_add_one _).trans hfloor

theorem toF64_mono {x y : ℚ} (hx : 0 ≤ x) (h : x ≤ y) : toF64 x ≤ toF64 y := by
  rcases hx.eq_or_lt with rfl | hx
  · rw [toF64_zero]
    exact toF64_nonneg h
  have hy := hx.trans_le h
  rw [toF64, toF64, if_neg hx.ne', if_neg hy.ne']
  rcases (Int.log_mono_right (b := 2) hx h).lt_or_eq with hlog | hlog
  · -- a power of two lies between them
    have hulp : 2 * ulp x ≤ ulp y := by
      rw [ulp, ulp, abs_of_pos hx, abs_of_pos hy, ← zpow_one_add₀ (by norm_num)]
      exact zpow_le_zpow_right₀ (by norm_num) (by omega)
    calc roundTiesEven (x / ulp x) * ulp x ≤ 2 ^ 53 * ulp x := by
          gcongr
          · exact (ulp_pos x).le
          · exact_mod_cast roundTiesEven_div_ulp_le hx
      _ = 2 ^ 52 * (2 * ulp x) := by ring
      _ ≤ 2 ^ 52 * ulp y := by gcongr
      _ ≤ roundTiesEven (y / ulp y) * ulp y := by
          gcongr
          · exact (ulp_pos y).le
          · exact_mod_cast le_roundTiesEven_div_ulp hy
  · have hulp : ulp y = ulp x := by rw [ulp, ulp, abs_of_pos hx, abs_of_pos hy, hlog]
    rw [hulp]
    gcongr
    · exact (ulp_pos x).le
    · exact_mod_cast roundTiesEven_mono (div_le_div_of_nonneg_right h (ulp_pos x).le)

/-! ### Numbers below zero -/

theorem roundTiesEven_neg (x : ℚ) : roundTiesEven (-x) = -roundTiesEven x := by
  rcases (Int.fract_nonneg x).eq_or_lt with hint | hpos
  · -- an integer is its own rounding
    have hx : x = (⌊x⌋ : ℤ) := by
      conv_lhs => rw [← Int.floor_add_fract x, ← hint, add_zero]
    rw [hx, ← Int.cast_neg, roundTiesEven_intCast, roundTiesEven_intCast]
  · have hne : Int.fract x ≠ 0 := hpos.ne'
    -- otherwise the floor of -x is one below that of x with the sign turned
    have hfloor : ⌊-x⌋ = -⌊x⌋ - 1 := by
      have hlt := Int.fract_lt_one x
      rw [Int.fract] at hpos hlt
      rw [Int.floor_eq_iff]
      push_cast
      constructor <;> linarith
    have hfract : Int.fract (-x) = 1 - Int.fract x := Int.fract_neg hne
    rw [roundTiesEven, roundTiesEven, hfract, hfloor]
    rcases lt_trichotomy (Int.fract x) (1 / 2) with hlt | htie | hgt
    · -- less than half up
      rw [if_neg, if_pos (.inl hlt)]
      · ring
      · rintro (h | ⟨h, -⟩) <;> linarith
    · rw [htie]
      by_cases heven : ⌊x⌋ % 2 = 0  -- a tie goes to the even one, on either side
      · rw [if_neg, if_pos (.inr ⟨rfl, heven⟩)]
        · ring
        · rintro (h | ⟨-, h⟩)
          · linarith
          · omega
      · rw [if_pos, if_neg]
        · ring
        · rintro (h | ⟨-, h⟩)
          · linarith
          · exact heven h
        · exact .inr ⟨by norm_num, by omega⟩
    · -- more than half up
      rw [if_pos (.inl (by linarith)), if_neg]
      · ring
      · rintro (h | ⟨h, -⟩) <;> linarith

theorem toF64_neg (x : ℚ) : toF64 (-x) = -toF64 x := by
  have hulp : ulp (-x) = ulp x := by rw [ulp, ulp, abs_neg]
  rw [toF64, toF64, hulp]
  simp only [neg_eq_zero]
  split
  · exact neg_zero.symm
  · rw [neg_div, roundTiesEven_neg, Int.cast_neg, neg_mul]

theorem monotone_toF64 : Monotone toF64 := by
  intro x y h
  rcases le_total 0 x with hx | hx
  · exact toF64_mono hx h
  · rcases le_total 0 y with hy | hy
    · have hneg := toF64_nonneg (neg_nonneg.mpr hx)
      rw [toF64_neg] at hneg
      exact (neg_nonneg.mp hneg).trans (toF64_nonneg hy)
    · have hneg := toF64_mono (neg_nonneg.mpr hy) (neg_le_neg h)
      rwa [toF64_neg, toF64_neg, neg_le_neg_iff] at hneg

/-! ### The numbers that are not rounded -/

theorem log_two_mul {x : ℚ} (h : 0 < x) : Int.log 2 (2 * x) = Int.log 2 x + 1 := by
  have h2 : 0 < 2 * x := by linarith
  apply le_antisymm
  · rw [← Int.lt_add_one_iff, ← Int.lt_zpow_iff_log_lt (by norm_num) h2]
    have hlog := Int.lt_zpow_succ_log_self (b := 2) (by norm_num) x
    push_cast at hlog ⊢
    rw [zpow_add_one₀ (by norm_num)]
    linarith
  · rw [← Int.zpow_le_iff_le_log (by norm_num) h2]
    have hlog := Int.zpow_log_le_self (b := 2) (by norm_num) h
    push_cast at hlog ⊢
    rw [zpow_add_one₀ (by norm_num)]
    linarith

theorem ulp_two_mul {x : ℚ} (h : 0 < x) : ulp (2 * x) = 2 * ulp x := by
  have h2 : 0 < 2 * x := by linarith
  rw [ulp, ulp, abs_of_pos h, abs_of_pos h2, log_two_mul h, ← zpow_one_add₀ (by norm_num)]
  congr 1
  ring

/-- Doubling is exact. -/
theorem toF64_two_mul {x : ℚ} (h : 0 ≤ x) : toF64 (2 * x) = 2 * toF64 x := by
  rcases h.eq_or_lt with rfl | hpos
  · simp
  · rw [toF64, toF64, if_neg (by linarith), if_neg hpos.ne', ulp_two_mul hpos,
      mul_div_mul_left _ _ (by norm_num)]
    ring

theorem ulp_mul_zpow {n k : ℤ} (hlow : 2 ^ 52 ≤ n) (hhigh : n < 2 ^ 53) :
    ulp (n * 2 ^ k) = 2 ^ k := by
  have hpos : (0 : ℚ) < 2 ^ k := zpow_pos (by norm_num) _
  have hn : (0 : ℚ) < n := by exact_mod_cast (by norm_num : (0 : ℤ) < 2 ^ 52).trans_le hlow
  have hx : (0 : ℚ) < n * 2 ^ k := mul_pos hn hpos
  have hlog : Int.log 2 ((n : ℚ) * 2 ^ k) = 52 + k := by
    apply le_antisymm
    · rw [← Int.lt_add_one_iff, ← Int.lt_zpow_iff_log_lt (by norm_num) hx]
      calc (n : ℚ) * 2 ^ k < 2 ^ 53 * 2 ^ k := by
            gcongr
            exact_mod_cast hhigh
        _ = ((2 : ℕ) : ℚ) ^ (52 + k + 1) := by
            rw [← zpow_natCast, ← zpow_add₀ (by norm_num)]
            push_cast
            congr 1
            ring
    · rw [← Int.zpow_le_iff_le_log (by norm_num) hx]
      calc ((2 : ℕ) : ℚ) ^ (52 + k) = 2 ^ 52 * 2 ^ k := by
            rw [← zpow_natCast, ← zpow_add₀ (by norm_num)]
            norm_num
        _ ≤ (n : ℚ) * 2 ^ k := by
            gcongr
            exact_mod_cast hlow
  rw [ulp, abs_of_pos hx, hlog]
  congr 1
  ring

/-- 53 bits are not rounded. -/
theorem toF64_mul_zpow {n k : ℤ} (hlow : 2 ^ 52 ≤ n) (hhigh : n < 2 ^ 53) :
    toF64 (n * 2 ^ k) = n * 2 ^ k := by
  rw [toF64, ulp_mul_zpow hlow hhigh, mul_div_cancel_right₀ _ (zpow_ne_zero _ (by norm_num)),
    roundTiesEven_intCast]
  split
  · next hzero => exact hzero.symm
  · rfl

/-- Rounding once is enough. -/
theorem toF64_toF64 {x : ℚ} (h : 0 ≤ x) : toF64 (toF64 x) = toF64 x := by
  rcases h.eq_or_lt with rfl | hpos
  · simp
  have hlow := le_roundTiesEven_div_ulp hpos
  have heq : toF64 x = roundTiesEven (x / ulp x) * ulp x := by rw [toF64, if_neg hpos.ne']
  rw [heq, ulp]
  rcases (roundTiesEven_div_ulp_le hpos).lt_or_eq with hhigh | hcarry
  · exact toF64_mul_zpow hlow hhigh
  · -- the carry makes it a power of two
    rw [ulp] at hcarry
    have hpower : ((2 ^ 53 : ℤ) : ℚ) * 2 ^ (Int.log 2 |x| - 52) =
        ((2 ^ 52 : ℤ) : ℚ) * 2 ^ (Int.log 2 |x| - 52 + 1) := by
      rw [zpow_add_one₀ (by norm_num)]
      push_cast
      ring
    rw [hcarry, hpower]
    exact toF64_mul_zpow le_rfl (by norm_num)

theorem toF64_one : toF64 1 = 1 := by
  have hulp : ulp 1 = 1 / 2 ^ 52 := by
    rw [ulp, abs_one, Int.log_one_right]
    norm_num
  have hunits : (1 : ℚ) / ulp 1 = ((2 ^ 52 : ℤ) : ℚ) := by
    rw [hulp]
    norm_num
  rw [toF64, if_neg one_ne_zero, hunits, roundTiesEven_intCast, hulp]
  norm_num

end SorobanPulse.Lib
