import SorobanPulse.Lib.Utf8

/-! Decimal numbers as text: fixed-width printing, parsing of machine integers, and their order.

    A number is printed with zeros on the left up to a width. Below `10 ^ width` the width is exact,
    so texts of one width compare, character by character, the way their numbers do. -/

namespace SorobanPulse.Lib

/-! ### Texts of digits -/

/-- `n` in decimal, padded with zeros to `width` digits. -/
def decimal (width n : ℕ) : List Char := (Nat.toDigits 10 n).leftpad width '0'

/-- The value of a nonempty text of digits. -/
def digits? (cs : List Char) : Option ℕ :=
  if cs ≠ [] ∧ cs.all Char.isDigit then some (Nat.ofDigitChars 10 cs 0) else none

/-- A number below `bound`, its `+` sign optional. -/
def parseUnsigned (bound : ℕ) : List Char → Option ℕ
  | '+' :: ds | ds => (digits? ds).filter (· < bound)

/-- An integer of `[-bound, bound)`, its sign optional. -/
def parseSigned (bound : ℕ) : List Char → Option ℤ
  | '-' :: ds => ((digits? ds).filter (· ≤ bound)).map fun n => -(n : ℤ)
  | ds => (parseUnsigned bound ds).map Int.ofNat

section
variable {width n : ℕ}

theorem isDigit_of_mem_decimal {c : Char} (h : c ∈ decimal width n) : c.isDigit = true := by
  rcases List.mem_append.mp h with h | h
  · rw [(List.mem_replicate.mp h).2]; rfl
  · exact Nat.isDigit_of_mem_toDigits (by omega) (by omega) h

theorem decimal_ne_nil (width n : ℕ) : decimal width n ≠ [] :=
  List.append_ne_nil_of_right_ne_nil _ Nat.toDigits_ne_nil

@[simp] theorem ofDigitChars_decimal (width n : ℕ) :
    Nat.ofDigitChars 10 (decimal width n) 0 = n := by
  rw [decimal, List.leftpad, Nat.ofDigitChars_append, Nat.ofDigitChars_replicate_zero, Nat.mul_zero,
    Nat.ofDigitChars_ten_toDigits]

theorem decimal_zero (n : ℕ) : decimal 0 n = Nat.toDigits 10 n := by
  rw [decimal, List.leftpad, Nat.zero_sub, List.replicate_zero, List.nil_append]

theorem toList_toString_nat (n : ℕ) : (toString n).toList = Nat.toDigits 10 n := Nat.toList_repr

theorem toList_toString_negSucc (n : ℕ) :
    (toString (Int.negSucc n)).toList = '-' :: Nat.toDigits 10 (n + 1) := by
  rw [show toString (Int.negSucc n) = "-" ++ toString (n + 1) from rfl, String.toList_append,
    toList_toString_nat]
  rfl

theorem decimal_injective (width : ℕ) : Function.Injective (decimal width) := by
  intro m n h
  rw [← ofDigitChars_decimal width m, h, ofDigitChars_decimal]

theorem length_decimal (hw : 0 < width) (h : n < 10 ^ width) : (decimal width n).length = width := by
  rw [decimal, List.length_leftpad,
    Nat.max_eq_left ((Nat.length_toDigits_le_iff (by omega) hw).mpr h)]

@[simp] theorem digits?_decimal (width n : ℕ) : digits? (decimal width n) = some n := by
  have hall : (decimal width n).all Char.isDigit = true :=
    List.all_eq_true.mpr fun _ => isDigit_of_mem_decimal
  rw [digits?, if_pos ⟨decimal_ne_nil width n, hall⟩, ofDigitChars_decimal]

/-- A text of digits starts with no sign. -/
theorem decimal_ne_cons {c : Char} (hc : c.isDigit = false) (cs : List Char) :
    decimal width n ≠ c :: cs := by
  intro h
  have hmem : c ∈ decimal width n := h ▸ List.mem_cons_self
  exact absurd (isDigit_of_mem_decimal hmem) (by rw [hc]; exact Bool.noConfusion)

/-- A text with another character than digits and the sign is no number. -/
theorem parseUnsigned_eq_none {bound : ℕ} {cs : List Char} {c : Char} (hmem : c ∈ cs)
    (hplus : c ≠ '+') (hdigit : c.isDigit = false) : parseUnsigned bound cs = none := by
  have hnone : ∀ ds : List Char, c ∈ ds → digits? ds = none := by
    intro ds hds
    rw [digits?, if_neg]
    rintro ⟨_, hall⟩
    rw [List.all_eq_true.mp hall c hds] at hdigit
    cases hdigit
  unfold parseUnsigned
  split
  · next ds =>
    rcases List.mem_cons.mp hmem with rfl | hds
    · exact absurd rfl hplus
    · rw [hnone ds hds]
      rfl
  · rw [hnone cs hmem]
    rfl

theorem parseUnsigned_lt {bound n : ℕ} {cs : List Char} (h : parseUnsigned bound cs = some n) :
    n < bound := by
  unfold parseUnsigned at h
  split at h <;> exact of_decide_eq_true (Option.filter_eq_some_iff.mp h).2

theorem parseUnsigned_decimal {bound : ℕ} (h : n < bound) :
    parseUnsigned bound (decimal width n) = some n := by
  unfold parseUnsigned
  split
  · next ds hds => exact absurd hds (decimal_ne_cons rfl ds)
  · rw [digits?_decimal, Option.filter_some, if_pos (decide_eq_true h)]

theorem parseUnsigned_decimal_of_le {bound : ℕ} (h : bound ≤ n) :
    parseUnsigned bound (decimal width n) = none := by
  unfold parseUnsigned
  split
  · next ds hds => exact absurd hds (decimal_ne_cons rfl ds)
  · rw [digits?_decimal, Option.filter_some, if_neg (by rw [decide_eq_true_eq]; omega)]

theorem parseSigned_decimal {bound : ℕ} (h : n < bound) :
    parseSigned bound (decimal width n) = some (n : ℤ) := by
  unfold parseSigned
  split
  · next ds hds => exact absurd hds (decimal_ne_cons rfl ds)
  · rw [parseUnsigned_decimal h]; rfl

/-! ### Texts around a separator -/

/-- What stands before the first separator is fixed by the text. -/
theorem eq_of_append_separator {α : Type*} {c : α} {xs ys us vs : List α} (hx : c ∉ xs)
    (hy : c ∉ ys) (h : xs ++ c :: us = ys ++ c :: vs) : xs = ys ∧ us = vs := by
  induction xs generalizing ys with
  | nil =>
    cases ys with
    | nil => exact ⟨rfl, List.tail_eq_of_cons_eq h⟩
    | cons y ys =>
      rw [List.nil_append, List.cons_append] at h
      exact absurd (List.mem_cons.mpr (.inl (List.head_eq_of_cons_eq h))) hy
  | cons x xs ih =>
    cases ys with
    | nil =>
      rw [List.nil_append, List.cons_append] at h
      exact absurd (List.mem_cons.mpr (.inl (List.head_eq_of_cons_eq h).symm)) hx
    | cons y ys =>
      rw [List.cons_append, List.cons_append] at h
      obtain ⟨hxs, hus⟩ := ih (List.not_mem_of_not_mem_cons hx) (List.not_mem_of_not_mem_cons hy)
        (List.tail_eq_of_cons_eq h)
      rw [List.head_eq_of_cons_eq h, hxs]
      exact ⟨rfl, hus⟩

/-- And what stands behind the last one. -/
theorem eq_of_append_last_separator {α : Type*} {c : α} {xs ys us vs : List α} (hu : c ∉ us)
    (hv : c ∉ vs) (h : xs ++ c :: us = ys ++ c :: vs) : xs = ys ∧ us = vs := by
  have hrev := congrArg List.reverse h
  simp only [List.reverse_append, List.reverse_cons, List.append_assoc, List.singleton_append] at hrev
  obtain ⟨hus, hxs⟩ := eq_of_append_separator (mt List.mem_reverse.mp hu) (mt List.mem_reverse.mp hv)
    hrev
  exact ⟨List.reverse_injective hxs, List.reverse_injective hus⟩

theorem not_mem_toDigits {c : Char} (hc : c.isDigit = false) (n : ℕ) : c ∉ Nat.toDigits 10 n := by
  intro h
  rw [Nat.isDigit_of_mem_toDigits (by omega) (by omega) h] at hc
  cases hc

theorem not_mem_decimal {c : Char} (hc : c.isDigit = false) (width n : ℕ) : c ∉ decimal width n := by
  intro h
  rw [isDigit_of_mem_decimal h] at hc
  cases hc

theorem toDigits_injective : Function.Injective (Nat.toDigits 10) := by
  intro m n h
  rw [← Nat.ofDigitChars_ten_toDigits (n := m), h, Nat.ofDigitChars_ten_toDigits]

theorem decimal_append_inj {c : Char} (hc : c.isDigit = false) {m m' : ℕ} {xs ys : List Char}
    (h : decimal width m ++ c :: xs = decimal width m' ++ c :: ys) : m = m' ∧ xs = ys := by
  obtain ⟨hnum, hrest⟩ :=
    eq_of_append_separator (not_mem_decimal hc width m) (not_mem_decimal hc width m') h
  exact ⟨decimal_injective width hnum, hrest⟩

/-! ### Order -/

theorem compare_append {α : Type*} [Ord α] {xs ys : List α} (h : xs.length = ys.length)
    (xs' ys' : List α) :
    compare (xs ++ xs') (ys ++ ys') = (compare xs ys).then (compare xs' ys') := by
  rw [List.compare_eq_compareLex]
  induction xs generalizing ys with
  | nil => rw [List.length_eq_zero_iff.mp h.symm]; rfl
  | cons x xs ih =>
    obtain ⟨y, ys, rfl⟩ := List.exists_cons_of_length_eq_add_one h.symm
    rw [List.cons_append, List.cons_append, List.compareLex_cons_cons, List.compareLex_cons_cons,
      ih (Nat.succ.inj h), Ordering.then_assoc]

/-- Two maps that order the elements the same way order the lists the same way. -/
theorem compare_map_congr {α β γ : Type*} [Ord β] [Ord γ] {f : α → β} {g : α → γ} {xs ys : List α}
    (h : ∀ x ∈ xs, ∀ y ∈ ys, compare (f x) (f y) = compare (g x) (g y)) :
    compare (xs.map f) (ys.map f) = compare (xs.map g) (ys.map g) := by
  induction xs generalizing ys with
  | nil => cases ys <;> rfl
  | cons x xs ih =>
    cases ys with
    | nil => rfl
    | cons y ys =>
      simp only [List.map_cons, List.compare_cons_cons]
      rw [h x List.mem_cons_self y List.mem_cons_self,
        ih fun a ha b hb => h a (List.mem_cons_of_mem _ ha) b (List.mem_cons_of_mem _ hb)]

/-- A number of two digits in base `b` compares by its high digit first. -/
theorem compare_mul_add {b r s : ℕ} (hr : r < b) (hs : s < b) (m n : ℕ) :
    compare (b * m + r) (b * n + s) = (compare m n).then (compare r s) := by
  rcases Nat.lt_trichotomy m n with h | rfl | h
  · have hle := Nat.mul_le_mul_left b (Nat.succ_le_of_lt h)
    rw [Nat.mul_succ] at hle
    rw [Nat.compare_eq_lt.mpr h, Nat.compare_eq_lt.mpr (by omega)]
    rfl
  · rw [Nat.compare_eq_eq.mpr rfl]
    simp only [Nat.compare_eq_ite_lt, Nat.add_lt_add_iff_left, Ordering.eq_then]
  · have hle := Nat.mul_le_mul_left b (Nat.succ_le_of_lt h)
    rw [Nat.mul_succ] at hle
    rw [Nat.compare_eq_gt.mpr h, Nat.compare_eq_gt.mpr (by omega)]
    rfl

/-- The digit that a character stands for. -/
theorem toNat_sub_lt_of_isDigit {c : Char} (h : c.isDigit = true) : c.toNat - '0'.toNat < 10 := by
  have hle : c.toNat ≤ 57 := (Char.isDigit_iff_toNat.mp h).2
  exact Nat.lt_succ_of_le (Nat.sub_le_sub_right hle 48)

theorem ofDigitChars_cons (d : Char) (ds : List Char) :
    Nat.ofDigitChars 10 (d :: ds) 0 =
      10 ^ ds.length * (d.toNat - '0'.toNat) + Nat.ofDigitChars 10 ds 0 := by
  rw [Nat.ofDigitChars_cons, Nat.ofDigitChars_eq_ofDigitChars_zero, Nat.mul_zero, Nat.zero_add]

theorem ofDigitChars_lt {ds : List Char} (h : ∀ c ∈ ds, c.isDigit = true) :
    Nat.ofDigitChars 10 ds 0 < 10 ^ ds.length := by
  induction ds with
  | nil => exact Nat.one_pos
  | cons d ds ih =>
    have hd := toNat_sub_lt_of_isDigit (h d List.mem_cons_self)
    have hds := ih fun c hc => h c (List.mem_cons_of_mem _ hc)
    have hle := Nat.mul_le_mul_left (10 ^ ds.length) (Nat.le_of_lt_succ hd)
    rw [ofDigitChars_cons, List.length_cons, Nat.pow_succ]
    omega

/-- A number printed with a leading zero is zero. -/
theorem length_toDigits_of_head? {n : ℕ} (h : (Nat.toDigits 10 n).head? = some '0') :
    (Nat.toDigits 10 n).length = 1 := by
  cases hds : Nat.toDigits 10 n with
  | nil => exact absurd hds Nat.toDigits_ne_nil
  | cons d ds =>
    rw [hds] at h
    obtain rfl := Option.some.inj h
    have hdigits : ∀ c ∈ ds, c.isDigit = true := fun c hc =>
      Nat.isDigit_of_mem_toDigits (by omega) (by omega) (hds ▸ List.mem_cons_of_mem _ hc)
    have hvalue : n = Nat.ofDigitChars 10 ds 0 := by
      conv_lhs => rw [← Nat.ofDigitChars_ten_toDigits (n := n), hds, ofDigitChars_cons]
      simp
    have hlt : n < 10 ^ ds.length := hvalue.trans_lt (ofDigitChars_lt hdigits)
    by_contra hlen
    rw [List.length_cons] at hlen
    have hle := (Nat.length_toDigits_le_iff (by omega) (by omega)).mpr hlt
    rw [hds, List.length_cons] at hle
    omega

theorem digitChar_sub {d : Char} (h : d.isDigit = true) :
    Nat.digitChar (d.toNat - '0'.toNat) = d := by
  have hlt := toNat_sub_lt_of_isDigit h
  have hle : '0'.toNat ≤ d.toNat := (Char.isDigit_iff_toNat.mp h).1
  apply Char.toNat_inj.mp
  rw [Nat.toNat_digitChar_of_lt_ten hlt]
  have h48 : '0'.toNat = 48 := rfl
  omega

/-- A number is printed as it was written, unless with zeros in front. -/
theorem toDigits_ofDigitChars {ds : List Char} (hne : ds ≠ []) (hall : ∀ c ∈ ds, c.isDigit = true)
    (hhead : ds.head? ≠ some '0') :
    0 < Nat.ofDigitChars 10 ds 0 ∧ Nat.toDigits 10 (Nat.ofDigitChars 10 ds 0) = ds := by
  induction ds using List.reverseRecOn with
  | nil => exact absurd rfl hne
  | append_singleton ds d ih =>
    have hd := hall d (List.mem_append_right _ (List.mem_singleton_self d))
    have hlt := toNat_sub_lt_of_isDigit hd
    rw [Nat.ofDigitChars_append, Nat.ofDigitChars_cons, Nat.ofDigitChars_nil]
    cases ds with
    | nil =>
      have hpos : d.toNat - '0'.toNat ≠ 0 := by
        intro h
        have hzero := digitChar_sub hd
        rw [h] at hzero
        exact hhead (congrArg some hzero.symm)
      rw [Nat.ofDigitChars_nil, Nat.mul_zero, Nat.zero_add, Nat.toDigits_of_lt_base hlt,
        digitChar_sub hd]
      exact ⟨Nat.pos_of_ne_zero hpos, rfl⟩
    | cons e ds =>
      obtain ⟨hpos, hprint⟩ := ih (List.cons_ne_nil _ _)
        (fun c hc => hall c (List.mem_append_left _ hc)) hhead
      refine ⟨by omega, ?_⟩
      rw [Nat.toDigits_of_base_le (by decide) (by omega), Nat.mul_add_div (by decide),
        Nat.div_eq_of_lt hlt, Nat.add_zero, hprint, Nat.mul_add_mod, Nat.mod_eq_of_lt hlt,
        digitChar_sub hd]

/-- A number is padded in front of its digits, so its last digit stays the last. -/
theorem leftpad_toDigits {b : ℕ} (hb : 1 < b) (hw : 0 < width) (n : ℕ) :
    (Nat.toDigits b n).leftpad (width + 1) '0' =
      (Nat.toDigits b (n / b)).leftpad width '0' ++ [Nat.digitChar (n % b)] := by
  rcases Nat.lt_or_ge n b with h | h
  · obtain ⟨width, rfl⟩ := Nat.exists_eq_succ_of_ne_zero (Nat.pos_iff_ne_zero.mp hw)
    rw [Nat.toDigits_of_lt_base h, Nat.div_eq_of_lt h, Nat.mod_eq_of_lt h, Nat.toDigits_zero]
    simp [List.leftpad, List.replicate_succ']
  · rw [Nat.toDigits_of_base_le hb h, List.leftpad, List.leftpad, List.length_append,
      List.append_assoc]
    simp

/-- Numbers of a fixed width compare like their values, in any base and with digits written in any
    way that keeps their order. -/
theorem compare_leftpad {b : ℕ} (hb : 1 < b) {f : Char → ℕ}
    (hf : ∀ d < b, ∀ e < b, compare (f (Nat.digitChar d)) (f (Nat.digitChar e)) = compare d e)
    (hw : 0 < width) {m n : ℕ} (hm : m < b ^ width) (hn : n < b ^ width) :
    compare (((Nat.toDigits b m).leftpad width '0').map f)
      (((Nat.toDigits b n).leftpad width '0').map f) = compare m n := by
  induction width, hw using Nat.le_induction generalizing m n with
  | base =>
    rw [Nat.succ_eq_add_one, Nat.zero_add, Nat.pow_one] at hm hn
    rw [Nat.toDigits_of_lt_base hm, Nat.toDigits_of_lt_base hn, ← hf m hm n hn]
    change compare [f m.digitChar] [f n.digitChar] = _
    rw [List.compare_cons_cons, List.compare_nil_nil, Ordering.then_eq]
  | succ width hw ih =>
    have hpos := Nat.lt_of_succ_lt hb
    have hdiv : ∀ k, k < b ^ (width + 1) → k / b < b ^ width := fun k hk =>
      Nat.div_lt_of_lt_mul (Nat.pow_succ' ▸ hk)
    have hlen : ∀ k, k < b ^ width → ((Nat.toDigits b k).leftpad width '0').length = width := by
      intro k hk
      rw [List.length_leftpad, Nat.max_eq_left ((Nat.length_toDigits_le_iff hb hw).mpr hk)]
    have hlens : (((Nat.toDigits b (m / b)).leftpad width '0').map f).length =
        (((Nat.toDigits b (n / b)).leftpad width '0').map f).length := by
      rw [List.length_map, List.length_map, hlen _ (hdiv m hm), hlen _ (hdiv n hn)]
    have hlast := hf _ (Nat.mod_lt m hpos) _ (Nat.mod_lt n hpos)
    rw [leftpad_toDigits hb hw, leftpad_toDigits hb hw, List.map_append, List.map_append,
      compare_append hlens, ih (hdiv m hm) (hdiv n hn), List.map_singleton, List.map_singleton,
      List.compare_cons_cons, List.compare_nil_nil, Ordering.then_eq, hlast,
      ← compare_mul_add (Nat.mod_lt m hpos) (Nat.mod_lt n hpos), Nat.div_add_mod, Nat.div_add_mod]

theorem compare_decimal (hw : 0 < width) {m n : ℕ} (hm : m < 10 ^ width) (hn : n < 10 ^ width) :
    compare ((decimal width m).map Char.toNat) ((decimal width n).map Char.toNat) =
      compare m n :=
  compare_leftpad (by decide) (by decide) hw hm hn

/-! ### The bytes of an ASCII text -/

def Ascii (cs : List Char) : Prop := ∀ c ∈ cs, c.toNat < 128

theorem Ascii.append {xs ys : List Char} (hx : Ascii xs) (hy : Ascii ys) : Ascii (xs ++ ys) := by
  intro c hc
  exact (List.mem_append.mp hc).elim (hx c) (hy c)

theorem utf8Bytes_of_ascii {cs : List Char} (h : Ascii cs) :
    utf8Bytes cs = cs.map fun c => c.val.toUInt8 := by
  rw [utf8Bytes, List.map_eq_flatMap]
  refine List.flatMap_congr fun c hc => ?_
  have hsize : c.utf8Size = 1 := Char.utf8Size_eq_one_iff.mpr
    (UInt32.le_iff_toNat_le.mpr (Nat.le_of_lt_succ (h c hc)))
  exact String.utf8EncodeChar_eq_singleton hsize

/-- One byte for each character. -/
theorem utf8ByteSize_of_ascii {cs : List Char} (h : Ascii cs) :
    (String.ofList cs).utf8ByteSize = cs.length := by
  rw [← String.size_toByteArray, String.toByteArray_ofList, List.utf8Encode,
    List.size_toByteArray]
  change (utf8Bytes cs).length = cs.length
  rw [utf8Bytes_of_ascii h, List.length_map]

/-- Byte order is code point order on ASCII texts. -/
theorem compare_utf8Bytes {xs ys : List Char} (hx : Ascii xs) (hy : Ascii ys) :
    compare (utf8Bytes xs) (utf8Bytes ys) = compare (xs.map Char.toNat) (ys.map Char.toNat) := by
  rw [utf8Bytes_of_ascii hx, utf8Bytes_of_ascii hy]
  refine compare_map_congr fun x hxm y hym => ?_
  have hbyte : ∀ c : Char, c.toNat < 128 → c.val.toUInt8.toNat = c.toNat := by
    intro c hc
    rw [UInt32.toNat_toUInt8]
    exact Nat.mod_eq_of_lt (Nat.lt_trans hc (by omega))
  have hcmp : ∀ a b : UInt8, compare a b = compare a.toNat b.toNat := by
    intro a b
    simp only [compare, compareOfLessAndEq, UInt8.lt_iff_toNat_lt, UInt8.toNat_inj]
  rw [hcmp, hbyte x (hx x hxm), hbyte y (hy y hym)]

theorem ascii_toString (n : ℕ) : Ascii (toString n).toList := by
  intro c hc
  rw [toList_toString_nat] at hc
  have hdigit := Nat.isDigit_of_mem_toDigits (by decide) (by decide) hc
  exact Nat.lt_of_le_of_lt (Char.isDigit_iff_toNat.mp hdigit).2 (by decide)

theorem ascii_decimal (width n : ℕ) : Ascii (decimal width n) := by
  intro c hc
  have hle : c.toNat ≤ 57 := (Char.isDigit_iff_toNat.mp (isDigit_of_mem_decimal hc)).2
  exact Nat.lt_of_le_of_lt hle (by omega)

end

end SorobanPulse.Lib
