import SorobanPulse.Notifications.PathRenderings

/-! What a content filter decides when it compares.

    Two numbers are compared after both were rounded to `f64`, so integers further apart than their
    rounding are compared exactly, and the others count as equal. The six operators agree with one
    order unless one of the numbers is a NaN, which is below, above and equal to nothing. -/

namespace SorobanPulse.Notifications
open Lib
open Events (isWhitespace)

/-- A JSON integer, or a text that holds one in the i128 range. -/
def integer : Value → Option ℤ
  | .number (.int n) => if I64_MIN ≤ n ∧ n ≤ U64_MAX then some n else none
  | .string s => parseSigned (2 ^ 127) s.toList
  | _ => none

/-- The operators answer as for the integers themselves. -/
structure ComparesIntegers (answer : FilterOp → Bool) (a b : ℤ) : Prop where
  gt : answer .Gt = decide (a > b)
  lt : answer .Lt = decide (a < b)
  gte : answer .Gte = decide (a ≥ b)
  lte : answer .Lte = decide (a ≤ b)
  eq : answer .Eq = decide (a = b)
  ne : answer .Ne = decide (a ≠ b)

/-- The operators agree on one order. -/
structure Orders (answer : FilterOp → Bool) : Prop where
  exactlyOne : (answer .Lt).toNat + (answer .Eq).toNat + (answer .Gt).toNat = 1
  gte : answer .Gte = (answer .Gt || answer .Eq)
  lte : answer .Lte = (answer .Lt || answer .Eq)
  ne : answer .Ne = !answer .Eq

/-! ### One ordering behind all six operators -/

/-- What the operator asks of the ordering. -/
def FilterOp.admits : FilterOp → Ordering → Bool
  | .Eq, ord => ord.isEq
  | .Ne, ord => ord.isNe
  | .Gt, ord => ord.isGT
  | .Lt, ord => ord.isLT
  | .Gte, ord => ord.isGE
  | .Lte, ord => ord.isLE
  | .Contains, _ => false
  | .Matches, _ => false

/-- The operators that compare. -/
def FilterOp.IsComparison (op : FilterOp) : Prop := op ≠ .Contains ∧ op ≠ .Matches

instance (op : FilterOp) : Decidable op.IsComparison := inferInstanceAs (Decidable (_ ∧ _))

section
variable {double : UInt64 → String} {regexNew : RegexNew} {target data : Value}
  {path value : String} {op : FilterOp} {ord : Ordering}

/-- Booleans are equal to the texts they are written as. -/
theorem beq_bool_text {b eb : Bool} {expected : String} (h : parseBool expected = some eb) :
    (b == eb) = (scalarToString double (.bool b) == expected) := by
  rw [parseBool] at h
  split at h
  · next htrue =>
    subst htrue
    cases h
    cases b <;> rfl
  · split at h
    · next hfalse =>
      subst hfalse
      cases h
      cases b <;> rfl
    · cases h

theorem valuesEqual_eq (double : UInt64 → String) (target : Value) (expected : String) :
    valuesEqual double target expected = decide (ordering double target expected = some .eq) := by
  unfold valuesEqual ordering
  split
  · rfl
  · have htext : (scalarToString double target == expected) =
        decide (some (compare (scalarToString double target) expected) = some .eq) := by
      rw [Bool.eq_iff_iff, beq_iff_eq, decide_eq_true_eq, Option.some.injEq, compare_eq_iff_eq]
    rw [← htext]
    split
    · exact beq_bool_text (by assumption)
    · rfl

theorem compare_of_some (hop : op.IsComparison) (h : ordering double target value = some ord) :
    ContentFilter.compare double regexNew target op value = op.admits ord := by
  cases op with
  | Contains => exact absurd rfl hop.1
  | Matches => exact absurd rfl hop.2
  | Eq =>
    rw [ContentFilter.compare, valuesEqual_eq, h]
    cases ord <;> rfl
  | Ne =>
    rw [ContentFilter.compare, valuesEqual_eq, h]
    cases ord <;> rfl
  | _ => rw [ContentFilter.compare, orderedCompare, h]; rfl

theorem compare_of_none (regexNew : RegexNew) (h : ordering double target value = none) :
    ContentFilter.compare double regexNew target .Lt value = false ∧
      ContentFilter.compare double regexNew target .Eq value = false ∧
      ContentFilter.compare double regexNew target .Gt value = false := by
  refine ⟨?_, ?_, ?_⟩
  · rw [ContentFilter.compare, orderedCompare, h]
  · rw [ContentFilter.compare, valuesEqual_eq, h]
    rfl
  · rw [ContentFilter.compare, orderedCompare, h]

theorem evaluate_of_resolves (h : (parsePath path).bind (resolve data) = some target) :
    ContentFilter.evaluate double regexNew ⟨path, op, value⟩ data =
      ContentFilter.compare double regexNew target op value := by
  obtain ⟨segments, hparse, hresolve⟩ := Option.bind_eq_some_iff.mp h
  rw [ContentFilter.evaluate, hparse]
  dsimp only
  rw [hresolve]

/-- There is no ordering exactly if both sides are numbers and one of them is none. -/
theorem ordering_eq_none : ordering double target value = none ↔
    ∃ x y, asNumber target = some x ∧ parseNumber value = some y ∧ (x = .nan ∨ y = .nan) := by
  unfold ordering
  split
  · next x y hx hy =>
    rw [F64.partialCmp_eq_none, hx, hy]
    simp
  · next hnumbers =>
    refine iff_of_false nofun ?_
    rintro ⟨x, y, hx, hy, -⟩
    exact hnumbers x y hx hy

end

section
variable {double : UInt64 → String} {regexNew : RegexNew} {target : Value} {value : String}

/-- An ordering is one order, and there is no other way to have one. -/
theorem orders_iff : Orders (fun op => ContentFilter.compare double regexNew target op value) ↔
    ordering double target value ≠ none := by
  constructor
  · intro h hnone
    obtain ⟨hlt, heq, hgt⟩ := compare_of_none regexNew hnone
    have hone := h.exactlyOne
    rw [hlt, heq, hgt] at hone
    cases hone
  · intro h
    obtain ⟨ord, hord⟩ := Option.ne_none_iff_exists'.mp h
    have hanswer : ∀ op : FilterOp, op.IsComparison →
        ContentFilter.compare double regexNew target op value = op.admits ord :=
      fun op hop => compare_of_some hop hord
    have hlt := hanswer .Lt (by decide)
    have heq := hanswer .Eq (by decide)
    have hgt := hanswer .Gt (by decide)
    constructor
    · rw [hlt, heq, hgt]
      cases ord <;> rfl
    · rw [hanswer .Gte (by decide), heq, hgt]
      cases ord <;> rfl
    · rw [hanswer .Lte (by decide), heq, hlt]
      cases ord <;> rfl
    · rw [hanswer .Ne (by decide), heq]
      cases ord <;> rfl

/-! ### Integers -/

theorem parseNumber_of_parseSigned {n : ℤ} (h : parseSigned (2 ^ 127) value.toList = some n) :
    parseNumber value = some (.ofRat n) ∧ |n| ≤ 2 ^ 128 := by
  have hspace : ∀ c ∈ value.toList, isWhitespace c = false := by
    intro c hc
    rcases mem_of_parseSigned h hc with hdigit | rfl | rfl
    · exact not_isWhitespace_of_isDigit hdigit
    · decide
    · decide
  have htrim : trimMatches isWhitespace value.toList = value.toList :=
    trimMatches_eq_self_iff.mpr ⟨fun c hc => hspace c (List.mem_of_mem_head? hc),
      fun c hc => hspace c (List.mem_of_mem_getLast? hc)⟩
  rw [parseNumber, htrim]
  exact parseF64_of_parseSigned (by norm_num) h

theorem asNumber_of_integer {n : ℤ} (h : integer target = some n) :
    asNumber target = some (.ofRat n) ∧ |n| ≤ 2 ^ 128 := by
  unfold integer at h
  split at h
  · next m =>
    split at h
    · next hrange =>
      obtain rfl := Option.some.inj h
      rw [I64_MIN, U64_MAX] at hrange
      exact ⟨rfl, abs_le.mpr (by omega)⟩
    · cases h
  · exact parseNumber_of_parseSigned h
  · cases h

theorem ordering_of_integers {a b : ℤ} (ha : integer target = some a)
    (hb : parseSigned (2 ^ 127) value.toList = some b) :
    ordering double target value = some (compare (toF64 a) (toF64 b)) := by
  obtain ⟨ha, hasize⟩ := asNumber_of_integer ha
  obtain ⟨hb, hbsize⟩ := parseNumber_of_parseSigned hb
  rw [ordering, ha, hb, F64.ofRat_intCast hasize, F64.ofRat_intCast hbsize]
  exact F64.partialCmp_finite _ _

/-- Rounding keeps the order of integers that it keeps apart. -/
theorem compare_toF64 {a b : ℤ} (h : toF64 a = toF64 b → a = b) :
    compare (toF64 a) (toF64 b) = compare a b := by
  have hmono : ∀ {a b : ℤ}, a ≤ b → toF64 a ≤ toF64 b := fun hle =>
    monotone_toF64 (Int.cast_le.mpr hle)
  rcases lt_trichotomy a b with hlt | rfl | hgt
  · rw [compare_lt_iff_lt.mpr hlt, compare_lt_iff_lt]
    exact lt_of_le_of_ne (hmono hlt.le) fun heq => hlt.ne (h heq)
  · rw [compare_eq_iff_eq.mpr rfl, compare_eq_iff_eq.mpr rfl]
  · rw [compare_gt_iff_gt.mpr hgt, compare_gt_iff_gt]
    exact lt_of_le_of_ne (hmono hgt.le) fun heq => hgt.ne' (h heq.symm)

theorem comparesIntegers_admits (a b : ℤ) :
    ComparesIntegers (fun op => op.admits (compare a b)) a b := by
  rcases lt_trichotomy a b with hlt | rfl | hgt
  · rw [compare_lt_iff_lt.mpr hlt]
    constructor <;> simp [FilterOp.admits] <;> omega
  · rw [compare_eq_iff_eq.mpr rfl]
    constructor <;> simp [FilterOp.admits]
  · rw [compare_gt_iff_gt.mpr hgt]
    constructor <;> simp [FilterOp.admits] <;> omega

/-- Two integers are compared exactly unless they are different and rounded to one number. -/
theorem comparesIntegers_iff {a b : ℤ} (ha : integer target = some a)
    (hb : parseSigned (2 ^ 127) value.toList = some b) :
    ComparesIntegers (fun op => ContentFilter.compare double regexNew target op value) a b ↔
      (toF64 a = toF64 b → a = b) := by
  have hord : ordering double target value = some (compare (toF64 a) (toF64 b)) :=
    ordering_of_integers ha hb
  constructor
  · intro h heq
    have heq' := h.eq
    rw [ContentFilter.compare, valuesEqual_eq, hord, compare_eq_iff_eq.mpr heq] at heq'
    exact of_decide_eq_true heq'.symm
  · intro h
    rw [compare_toF64 h] at hord
    have hanswer : ∀ op : FilterOp, op.IsComparison →
        ContentFilter.compare double regexNew target op value = op.admits (compare a b) :=
      fun op hop => compare_of_some hop hord
    have hadmits := comparesIntegers_admits a b
    exact {
      gt := (hanswer .Gt (by decide)).trans hadmits.gt
      lt := (hanswer .Lt (by decide)).trans hadmits.lt
      gte := (hanswer .Gte (by decide)).trans hadmits.gte
      lte := (hanswer .Lte (by decide)).trans hadmits.lte
      eq := (hanswer .Eq (by decide)).trans hadmits.eq
      ne := (hanswer .Ne (by decide)).trans hadmits.ne }

end

variable (double : UInt64 → String) (regexNew : RegexNew)

/-- The answers of the filter on a document whose value at the path is `target`. -/
structure ComparesExactly (path value : String) (data target : Value) : Prop where
  integers : ∀ a b, integer target = some a → parseSigned (2 ^ 127) value.toList = some b →
    ComparesIntegers (fun op => ContentFilter.evaluate double regexNew ⟨path, op, value⟩ data) a b
  orders : Orders fun op => ContentFilter.evaluate double regexNew ⟨path, op, value⟩ data

/-- Filters compare exactly unless two different integers are rounded to one number, or both sides
    are numbers and one of them is a NaN. -/
theorem comparesExactly_iff (path value : String) (data target : Value)
    (h : (parsePath path).bind (resolve data) = some target) :
    ComparesExactly double regexNew path value data target ↔
      (∀ a b, integer target = some a → parseSigned (2 ^ 127) value.toList = some b →
        toF64 a = toF64 b → a = b) ∧
      ∀ x y, asNumber target = some x → parseNumber value = some y → x ≠ .nan ∧ y ≠ .nan := by
  have hanswer : (fun op => ContentFilter.evaluate double regexNew ⟨path, op, value⟩ data) =
      fun op => ContentFilter.compare double regexNew target op value :=
    funext fun op => evaluate_of_resolves h
  have hnan : (∀ x y, asNumber target = some x → parseNumber value = some y →
      x ≠ .nan ∧ y ≠ .nan) ↔ ordering double target value ≠ none := by
    rw [Ne, ordering_eq_none]
    push Not
    rfl
  have horders : Orders (fun op => ContentFilter.compare double regexNew target op value) ↔
      ordering double target value ≠ none := orders_iff
  rw [hnan, ← horders]
  constructor
  · rintro ⟨hintegers, horders⟩
    rw [hanswer] at hintegers horders
    exact ⟨fun a b ha hb => (comparesIntegers_iff ha hb).mp (hintegers a b ha hb), horders⟩
  · rintro ⟨hintegers, horders⟩
    rw [← hanswer] at horders
    refine ⟨fun a b ha hb => ?_, horders⟩
    rw [hanswer]
    exact (comparesIntegers_iff ha hb).mpr (hintegers a b ha hb)

/-! ### Amounts beyond 53 bits -/

theorem parsePath_n : parsePath "$.n" = some [.member "n"] := by
  have hkey : ['n'] ≠ [] := by decide
  have hplain : ∀ c ∈ ['n'], c ≠ '.' ∧ c ≠ '[' := by simp
  have hend : StepsFollow [] := by
    intro c hc
    cases hc
  have hread := parseSegments_dot hkey hplain hend
  rw [parseSegments] at hread
  exact hread

theorem toF64_odd : toF64 9007199254740993 = 9007199254740992 := by
  decide +kernel

theorem toF64_even : toF64 9007199254740992 = 9007199254740992 := by
  decide +kernel

def noDigits (_ : UInt64) : String := ""

def noRegex : RegexNew := fun _ => .error ""

def amountZero : Value := .object [("n", .string "0")]

theorem comparesExactly_zero :
    ComparesExactly noDigits noRegex "$.n" "1" amountZero (.string "0") := by
  have htarget : (parsePath "$.n").bind (resolve amountZero) = some (.string "0") := by
    rw [parsePath_n]
    rfl
  have hzero : integer (.string "0") = some 0 := by decide
  have hone : parseSigned (2 ^ 127) "1".toList = some 1 := by decide
  refine (comparesExactly_iff noDigits noRegex "$.n" "1" amountZero (.string "0") htarget).mpr
    ⟨fun a b ha hb heq => ?_, fun x y hx hy => ?_⟩
  · obtain rfl := Option.some.inj (hzero.symm.trans ha)
    obtain rfl := Option.some.inj (hone.symm.trans hb)
    rw [Int.cast_zero, Int.cast_one, toF64_zero, toF64_one] at heq
    exact absurd heq zero_ne_one
  · obtain ⟨hx', hsize⟩ := asNumber_of_integer hzero
    obtain ⟨hy', hsize'⟩ := parseNumber_of_parseSigned hone
    obtain rfl := Option.some.inj (hx'.symm.trans hx)
    obtain rfl := Option.some.inj (hy'.symm.trans hy)
    rw [F64.ofRat_intCast hsize, F64.ofRat_intCast hsize']
    exact ⟨nofun, nofun⟩

def amountOdd : Value := .object [("n", .number (.int 9007199254740993))]

/-- An amount that is one more counts as equal. -/
theorem not_comparesExactly_odd :
    ContentFilter.evaluate noDigits noRegex ⟨"$.n", .Eq, "9007199254740992"⟩ amountOdd = true ∧
      ¬ComparesExactly noDigits noRegex "$.n" "9007199254740992" amountOdd
        (.number (.int 9007199254740993)) := by
  have htarget : (parsePath "$.n").bind (resolve amountOdd) =
      some (.number (.int 9007199254740993)) := by
    rw [parsePath_n]
    rfl
  have hodd : integer (.number (.int 9007199254740993)) = some 9007199254740993 := by decide
  have heven : parseSigned (2 ^ 127) "9007199254740992".toList = some 9007199254740992 := by
    decide +kernel
  have heq : ContentFilter.evaluate noDigits noRegex ⟨"$.n", .Eq, "9007199254740992"⟩ amountOdd =
      true := by
    rw [evaluate_of_resolves htarget, ContentFilter.compare, valuesEqual_eq,
      ordering_of_integers hodd heven]
    push_cast
    rw [toF64_odd, toF64_even]
    rfl
  refine ⟨heq, fun h => ?_⟩
  have hexact := (h.integers _ _ hodd heven).eq
  rw [heq] at hexact
  revert hexact
  decide

end SorobanPulse.Notifications
