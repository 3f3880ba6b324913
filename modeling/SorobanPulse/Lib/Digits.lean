import Mathlib.Algebra.Order.Ring.Int
import Mathlib.Data.BitVec
import Mathlib.Data.Nat.Bitwise
import Mathlib.Data.Nat.Digits.Lemmas
import Mathlib.Data.UInt
import Mathlib.Tactic.Ring

/-! Numbers as digits: to any base, the highest digit first; in LEB128; and as two words of 64 bits.

    A list of digits is its leading zeros and the digits of its value. -/

namespace SorobanPulse.Lib

/-- The number that digits stand for, the first one the highest. -/
def bigEndian (b : ℕ) (ds : List ℕ) : ℕ := ds.foldl (fun n d => b * n + d) 0

def leadingZeros (ds : List ℕ) : ℕ := (ds.takeWhile (· = 0)).length

section
variable {b d : ℕ} {ds ds' : List ℕ}

theorem bigEndian_concat (b : ℕ) (ds : List ℕ) (d : ℕ) :
    bigEndian b (ds ++ [d]) = b * bigEndian b ds + d := by
  rw [bigEndian, List.foldl_concat]
  rfl

theorem bigEndian_eq_ofDigits (b : ℕ) (ds : List ℕ) :
    bigEndian b ds = Nat.ofDigits b ds.reverse := by
  induction ds using List.reverseRecOn with
  | nil => rfl
  | append_singleton ds d ih =>
    rw [bigEndian_concat, ih, List.reverse_append, List.reverse_singleton, List.singleton_append,
      Nat.ofDigits_cons]
    exact Nat.add_comm _ _

/-- Nothing but the leading zeros is lost in the value. -/
theorem replicate_append_digits (hb : 1 < b) (h : ∀ d ∈ ds, d < b) :
    List.replicate (leadingZeros ds) 0 ++ (Nat.digits b (bigEndian b ds)).reverse = ds := by
  induction ds with
  | nil => simp [leadingZeros, bigEndian]
  | cons d ds ih =>
    by_cases hd : d = 0
    · have hvalue : bigEndian b (d :: ds) = bigEndian b ds := by simp [bigEndian, hd]
      have hzeros : leadingZeros (d :: ds) = leadingZeros ds + 1 := by simp [leadingZeros, hd]
      rw [hvalue, hzeros, List.replicate_succ, List.cons_append,
        ih fun e he => h e (List.mem_cons_of_mem _ he), hd]
    · have hzeros : leadingZeros (d :: ds) = 0 := by simp [leadingZeros, hd]
      have hdigits : Nat.digits b (bigEndian b (d :: ds)) = (d :: ds).reverse := by
        rw [bigEndian_eq_ofDigits]
        refine Nat.digits_ofDigits b hb _ (fun e he => h e (List.mem_reverse.mp he)) fun _ => ?_
        rwa [List.getLast_reverse]
      rw [hzeros, hdigits, List.reverse_reverse]
      rfl

theorem eq_of_bigEndian_eq (hb : 1 < b) (h : ∀ d ∈ ds, d < b) (h' : ∀ d ∈ ds', d < b)
    (hzeros : leadingZeros ds = leadingZeros ds') (hvalue : bigEndian b ds = bigEndian b ds') :
    ds = ds' := by
  rw [← replicate_append_digits hb h, ← replicate_append_digits hb h', hzeros, hvalue]

/-- The digits of a number do not begin with a zero. -/
theorem head?_reverse_digits_ne_zero (b n : ℕ) : (Nat.digits b n).reverse.head? ≠ some 0 := by
  intro h
  rw [List.head?_reverse] at h
  have hne : Nat.digits b n ≠ [] := by
    intro hnil
    rw [hnil] at h
    cases h
  rw [List.getLast?_eq_some_getLast hne] at h
  exact Nat.getLast_digit_ne_zero b (Nat.digits_ne_nil_iff_ne_zero.mp hne) (Option.some.inj h)

theorem bigEndian_digits (b n : ℕ) : bigEndian b (Nat.digits b n).reverse = n := by
  rw [bigEndian_eq_ofDigits, List.reverse_reverse, Nat.ofDigits_digits]

theorem bigEndian_replicate (b z : ℕ) (ds : List ℕ) :
    bigEndian b (List.replicate z 0 ++ ds) = bigEndian b ds := by
  induction z with
  | zero => rfl
  | succ z ih => rw [List.replicate_succ, List.cons_append, ← ih, bigEndian, List.foldl_cons]; rfl

theorem leadingZeros_replicate (z : ℕ) (h : ds.head? ≠ some 0) :
    leadingZeros (List.replicate z 0 ++ ds) = z := by
  have hds : ds.takeWhile (· = 0) = [] := by
    cases ds with
    | nil => rfl
    | cons d ds =>
      have hd : d ≠ 0 := by simpa using h
      rw [List.takeWhile_cons_of_neg (by simpa using hd)]
  rw [leadingZeros, List.takeWhile_append_of_pos (by simp), hds, List.append_nil,
    List.length_replicate]

end

/-! ### Unsigned LEB128

    Seven bits a byte, the lowest first, and a high bit on all bytes but the last. Padding is allowed:
    a number has an encoding of every length from its shortest one on. -/

/-- The bytes encode the number. -/
inductive Leb128 : ℕ → List UInt8 → Prop
  | last {byte : UInt8} : byte.toNat < 128 → Leb128 byte.toNat [byte]
  | more {byte : UInt8} {n : ℕ} {bytes : List UInt8} : 128 ≤ byte.toNat → Leb128 n bytes →
      Leb128 (byte.toNat - 128 + 128 * n) (byte :: bytes)

section
variable {byte : UInt8}

theorem Leb128.length_pos {n : ℕ} {bytes : List UInt8} (h : Leb128 n bytes) : 0 < bytes.length := by
  cases h <;> exact Nat.succ_pos _

/-- `byte & 0x7f` -/
theorem toNat_and_low (byte : UInt8) : (byte &&& 0x7f).toNat = byte.toNat % 128 := by
  rw [UInt8.toNat_and]
  exact Nat.and_two_pow_sub_one_eq_mod byte.toNat 7

/-- `byte & 0x80 == 0` -/
theorem and_high_eq_zero_iff (byte : UInt8) : byte &&& 0x80 = 0 ↔ byte.toNat < 128 := by
  have hand : (byte &&& 0x80).toNat = (byte.toNat.testBit 7).toNat * 128 := by
    rw [UInt8.toNat_and]
    exact Nat.and_two_pow byte.toNat 7
  have hbit : byte.toNat.testBit 7 = decide (byte.toNat / 128 % 2 = 1) :=
    Nat.testBit_eq_decide_div_mod_eq
  have hlt := byte.toNat_lt
  rw [← UInt8.toNat_inj, hand, hbit]
  by_cases h : byte.toNat < 128
  · have hdiv : byte.toNat / 128 = 0 := Nat.div_eq_of_lt h
    simp [h, hdiv]
  · have hdiv : byte.toNat / 128 = 1 := by omega
    simp [h, hdiv]

/-- The next seven bits are put above those that are there. -/
theorem or_shiftLeft {r x shift : ℕ} (h : r < 2 ^ shift) : r ||| x <<< shift = r + 2 ^ shift * x := by
  rw [Nat.or_comm, ← Nat.shiftLeft_add_eq_or_of_lt h, Nat.shiftLeft_eq, Nat.add_comm, Nat.mul_comm]

end

/-! ### Two words: `(hi << 64) | lo` -/

/-- Shifting keeps the lower 64 bits of the high word. -/
theorem words_eq_ofInt (hi : ℤ) (lo : ℕ) (hlo : lo < 2 ^ 64) :
    (BitVec.ofInt 128 hi <<< 64) ||| BitVec.ofNat 128 lo = BitVec.ofInt 128 (hi * 2 ^ 64 + lo) := by
  apply BitVec.eq_of_toNat_eq
  have hshift : (BitVec.ofInt 128 hi <<< 64).toNat = (hi % 2 ^ 64).toNat * 2 ^ 64 := by
    rw [BitVec.toNat_shiftLeft, BitVec.toNat_ofInt, Nat.shiftLeft_eq]
    omega
  rw [BitVec.toNat_or, hshift, BitVec.toNat_ofNat, Nat.mod_eq_of_lt (by omega), ← Nat.shiftLeft_eq,
    ← Nat.shiftLeft_add_eq_or_of_lt hlo, BitVec.toNat_ofInt, Nat.shiftLeft_eq]
  omega

theorem toInt_words {hi : ℤ} {lo : ℕ} (hmin : -2 ^ 63 ≤ hi) (hmax : hi < 2 ^ 63) (hlo : lo < 2 ^ 64) :
    ((BitVec.ofInt 128 hi <<< 64) ||| BitVec.ofNat 128 lo).toInt = hi * 2 ^ 64 + lo := by
  rw [words_eq_ofInt hi lo hlo, BitVec.toInt_ofInt]
  exact Int.bmod_eq_of_le (by omega) (by omega)

theorem toNat_words {hi lo : ℕ} (hhi : hi < 2 ^ 64) (hlo : lo < 2 ^ 64) :
    ((BitVec.ofNat 128 hi <<< 64) ||| BitVec.ofNat 128 lo).toNat = hi * 2 ^ 64 + lo := by
  rw [← BitVec.ofInt_natCast, words_eq_ofInt hi lo hlo, BitVec.toNat_ofInt]
  omega

end SorobanPulse.Lib
