import SorobanPulse.Lib.Binary64
import SorobanPulse.Lib.Decimal

/-! `f64` as a comparison sees it, and the texts that are parsed to one.

        1.5e3    .5    -7    +INF    nan

    A finite `f64` is the rational it stands for, so the two zeros are one. Texts are read exactly
    and then rounded once. -/

namespace SorobanPulse.Lib

inductive F64 where
  | nan
  | infinite (negative : Bool)
  | finite (value : ℚ)
  deriving DecidableEq

namespace F64

/-- The nearest `f64`: evenly spaced below the normal numbers, infinite above them. -/
def ofRat (x : ℚ) : F64 :=
  if |x| < 1 / 2 ^ 1022 then .finite (roundTiesEven (x * 2 ^ 1074) / 2 ^ 1074)
  else if 2 ^ 1024 ≤ |toF64 x| then .infinite (x < 0)
  else .finite (toF64 x)

/-- The `f64` of these bits: a sign, 11 bits of exponent and 52 of significand. -/
def ofBits (bits : UInt64) : F64 :=
  let negative : Bool := 2 ^ 63 ≤ bits.toNat
  let exponent : ℕ := bits.toNat / 2 ^ 52 % 2 ^ 11
  let significand : ℕ := bits.toNat % 2 ^ 52
  if exponent = 2047 then
    if significand = 0 then .infinite negative else .nan
  else
    let magnitude : ℚ :=
      if exponent = 0 then (significand : ℚ) / 2 ^ 1074
      else (2 ^ 52 + (significand : ℚ)) * 2 ^ exponent / 2 ^ 1075
    .finite (if negative then -magnitude else magnitude)

def neg : F64 → F64
  | nan => nan
  | infinite negative => infinite !negative
  | finite x => finite (-x)

/-- Where a number stands: below, among or above the finite ones. -/
def place : F64 → Option (ℤ × ℚ)
  | nan => none
  | infinite true => some (-1, 0)
  | finite x => some (0, x)
  | infinite false => some (1, 0)

/-- `partial_cmp` -/
def partialCmp (a b : F64) : Option Ordering :=
  match a.place, b.place with
  | some p, some q => some ((compare p.1 q.1).then (compare p.2 q.2))
  | _, _ => none

/-- `==` -/
def eq (a b : F64) : Bool := a.partialCmp b = some .eq

/-! ### Order -/

theorem place_eq_none {a : F64} : a.place = none ↔ a = nan := by
  cases a with
  | nan => exact iff_of_true rfl rfl
  | infinite negative => cases negative <;> exact iff_of_false nofun nofun
  | finite x => exact iff_of_false nofun nofun

theorem partialCmp_eq_none {a b : F64} : a.partialCmp b = none ↔ a = nan ∨ b = nan := by
  rw [partialCmp, ← place_eq_none, ← place_eq_none]
  cases a.place with
  | none => exact iff_of_true rfl (.inl rfl)
  | some p =>
    cases b.place with
    | none => exact iff_of_true rfl (.inr rfl)
    | some q => exact iff_of_false nofun (by rintro (h | h) <;> cases h)

theorem partialCmp_finite (x y : ℚ) : (finite x).partialCmp (finite y) = some (compare x y) := rfl

/-! ### Integers -/

theorem toF64_two_pow_128 : toF64 (2 ^ 128) = 2 ^ 128 := by
  have h := toF64_mul_zpow (n := 2 ^ 52) (k := 76) le_rfl (by norm_num)
  norm_num at h ⊢
  exact h

/-- Integers of moderate size are only rounded. -/
theorem ofRat_intCast {n : ℤ} (h : |n| ≤ 2 ^ 128) : ofRat n = finite (toF64 n) := by
  have habs : |(n : ℚ)| ≤ 2 ^ 128 := by exact_mod_cast h
  rw [ofRat]
  split
  · next hsmall =>
    have hlt : |(n : ℚ)| < 1 :=
      hsmall.trans ((div_lt_one (by positivity)).mpr (one_lt_pow₀ (by norm_num) (by decide)))
    obtain rfl : n = 0 := Int.abs_lt_one_iff.mp (by exact_mod_cast hlt)
    have hround : roundTiesEven ((0 : ℤ) * 2 ^ 1074) = 0 := by
      rw [Int.cast_zero, zero_mul]
      exact_mod_cast roundTiesEven_intCast 0
    rw [hround, Int.cast_zero, zero_div, toF64_zero]
  · obtain ⟨hlow, hhigh⟩ := abs_le.mp habs
    have htop := monotone_toF64 hhigh
    have hbottom := monotone_toF64 hlow
    rw [toF64_neg, toF64_two_pow_128] at hbottom
    rw [toF64_two_pow_128] at htop
    have hbound : |toF64 n| ≤ 2 ^ 128 := abs_le.mpr ⟨hbottom, htop⟩
    rw [if_neg]
    exact not_le.mpr (hbound.trans_lt (pow_lt_pow_right₀ (by norm_num) (by decide)))

end F64

/-! ### Texts -/

/-- Digits around a point, one digit at least. -/
def parseMantissa (cs : List Char) : Option ℚ :=
  let whole := cs.takeWhile (· ≠ '.')
  let fraction := (cs.dropWhile (· ≠ '.')).tail
  (digits? (whole ++ fraction)).map fun n => n / 10 ^ fraction.length

/-- `Digit+`, its sign optional. -/
def parseExponent : List Char → Option ℤ
  | '-' :: ds => (digits? ds).map fun n => -(n : ℤ)
  | '+' :: ds | ds => (digits? ds).map Int.ofNat

/-- A number without a sign. -/
def parseMagnitude (cs : List Char) : Option ℚ :=
  let isExponent : Char → Bool := fun c => c = 'e' || c = 'E'
  (parseMantissa (cs.takeWhile fun c => !isExponent c)).bind fun m =>
    match cs.dropWhile fun c => !isExponent c with
    | [] => some m
    | _ :: e => (parseExponent e).map fun e => m * 10 ^ e

def parseUnsignedF64 (cs : List Char) : Option F64 :=
  let word := String.ofList (cs.map Char.toLower)
  if word = "inf" ∨ word = "infinity" then some (.infinite false)
  else if word = "nan" then some .nan
  else (parseMagnitude cs).map F64.ofRat

/-- `s.parse::<f64>().ok()` -/
def parseF64 : List Char → Option F64
  | '-' :: cs => (parseUnsignedF64 cs).map F64.neg
  | '+' :: cs | cs => parseUnsignedF64 cs

section
variable {cs : List Char}

theorem isDigit_of_digits? {n : ℕ} (h : digits? cs = some n) : ∀ c ∈ cs, c.isDigit = true := by
  rw [digits?] at h
  split at h
  · next hdigits => exact List.all_eq_true.mp hdigits.2
  · cases h

theorem mem_of_parseSigned {bound : ℕ} {n : ℤ} {c : Char} (h : parseSigned bound cs = some n)
    (hc : c ∈ cs) : c.isDigit = true ∨ c = '+' ∨ c = '-' := by
  unfold parseSigned at h
  split at h
  · next ds =>
    simp only [Option.map_eq_some_iff, Option.bind_eq_bind, Option.bind_eq_some_iff,
      Option.filter_eq_some_iff] at h
    obtain ⟨_, ⟨m, ⟨hm, -⟩, -⟩, -⟩ := h
    rcases List.mem_cons.mp hc with rfl | hc
    · exact .inr (.inr rfl)
    · exact .inl (isDigit_of_digits? hm c hc)
  · obtain ⟨m, hm, -⟩ := Option.map_eq_some_iff.mp h
    unfold parseUnsigned at hm
    split at hm
    · next ds =>
      rcases List.mem_cons.mp hc with rfl | hc
      · exact .inr (.inl rfl)
      · exact .inl (isDigit_of_digits? (Option.filter_eq_some_iff.mp hm).1 c hc)
    · exact .inl (isDigit_of_digits? (Option.filter_eq_some_iff.mp hm).1 c hc)

theorem toLower_of_isDigit {c : Char} (h : c.isDigit = true) : c.toLower = c := by
  refine Char.toLower_eq_of_not_isUpper fun hupper => ?_
  rw [Char.isUpper, decide_eq_true_eq] at hupper
  have hle : c.toNat ≤ 57 := (Char.isDigit_iff_toNat.mp h).2
  have hge : 65 ≤ c.toNat := hupper.1
  omega

theorem ne_of_digits {w : String} {c : Char} (hdigit : ∀ c ∈ cs, c.isDigit = true)
    (hc : c ∈ w.toList) (hnot : c.isDigit = false) :
    String.ofList (cs.map Char.toLower) ≠ w := by
  intro h
  have hmap : cs.map Char.toLower = cs :=
    (List.map_congr_left fun c hc => toLower_of_isDigit (hdigit c hc)).trans (List.map_id cs)
  rw [hmap] at h
  rw [← h, String.toList_ofList] at hc
  rw [hdigit c hc] at hnot
  cases hnot

theorem parseMagnitude_of_digits? {n : ℕ} (h : digits? cs = some n) :
    parseMagnitude cs = some (n : ℚ) := by
  have hdigit := isDigit_of_digits? h
  have htake : ∀ {p : Char → Bool}, (∀ c, c.isDigit = true → p c = true) →
      cs.takeWhile p = cs ∧ cs.dropWhile p = [] := fun hp =>
    ⟨List.takeWhile_eq_self_iff.mpr fun c hc => hp c (hdigit c hc),
      List.dropWhile_eq_nil_iff.mpr fun c hc => hp c (hdigit c hc)⟩
  have hpoint := htake (p := (· ≠ '.')) fun c hc => by
    rw [decide_eq_true_eq]
    rintro rfl
    cases hc
  have hexponent := htake (p := fun c => !(c = 'e' || c = 'E')) fun c hc => by
    rw [Bool.not_eq_true', Bool.or_eq_false_iff, decide_eq_false_iff_not, decide_eq_false_iff_not]
    constructor <;> (rintro rfl; cases hc)
  have hmantissa : parseMantissa cs = some (n : ℚ) := by
    rw [parseMantissa, hpoint.1, hpoint.2, List.tail_nil, List.append_nil, h]
    simp
  rw [parseMagnitude]
  dsimp only
  rw [hexponent.1, hexponent.2, hmantissa]
  rfl

/-- A natural number is read and rounded. -/
theorem parseUnsignedF64_of_digits? {n : ℕ} (h : digits? cs = some n) :
    parseUnsignedF64 cs = some (.ofRat n) := by
  have hdigit := isDigit_of_digits? h
  have hinf : ∀ {w : String}, 'n' ∈ w.toList → String.ofList (cs.map Char.toLower) ≠ w :=
    fun hw => ne_of_digits hdigit hw rfl
  rw [parseUnsignedF64, if_neg, if_neg (hinf (by decide)), parseMagnitude_of_digits? h]
  · rfl
  · rintro (hw | hw)
    · exact hinf (by decide) hw
    · exact hinf (by decide) hw

theorem neg_ofRat_intCast {n : ℤ} (h : |n| ≤ 2 ^ 128) : (F64.ofRat n).neg = .ofRat (-n : ℤ) := by
  rw [F64.ofRat_intCast h, F64.ofRat_intCast (by rwa [abs_neg]), Int.cast_neg, toF64_neg]
  rfl

/-- So is an integer. -/
theorem parseF64_of_parseSigned {bound : ℕ} {n : ℤ} (hbound : bound ≤ 2 ^ 128)
    (h : parseSigned bound cs = some n) : parseF64 cs = some (.ofRat n) ∧ |n| ≤ 2 ^ 128 := by
  unfold parseSigned at h
  split at h
  · next ds =>
    simp only [Option.map_eq_some_iff, Option.bind_eq_bind, Option.bind_eq_some_iff,
      Option.filter_eq_some_iff, decide_eq_true_eq] at h
    obtain ⟨_, ⟨m, ⟨hm, hle⟩, heq⟩, rfl⟩ := h
    obtain rfl := Option.some.inj heq
    have hsize : |(m : ℤ)| ≤ 2 ^ 128 := by
      rw [Nat.abs_cast]
      exact_mod_cast hle.trans hbound
    refine ⟨?_, by rwa [abs_neg]⟩
    change (parseUnsignedF64 ds).map F64.neg = _
    rw [parseUnsignedF64_of_digits? hm, ← neg_ofRat_intCast hsize]
    simp
  · next hminus =>
    obtain ⟨m, hm, rfl⟩ := Option.map_eq_some_iff.mp h
    have hsize : |(m : ℤ)| ≤ 2 ^ 128 := by
      have hlt := parseUnsigned_lt hm
      rw [Nat.abs_cast]
      exact_mod_cast hlt.le.trans hbound
    refine ⟨?_, hsize⟩
    unfold parseUnsigned at hm
    split at hm
    · next ds => exact parseUnsignedF64_of_digits? (Option.filter_eq_some_iff.mp hm).1
    · next hplus =>
      unfold parseF64
      split
      · next ds => exact absurd rfl (hminus ds)
      · next ds => exact absurd rfl (hplus ds)
      · exact parseUnsignedF64_of_digits? (Option.filter_eq_some_iff.mp hm).1

end

end SorobanPulse.Lib
