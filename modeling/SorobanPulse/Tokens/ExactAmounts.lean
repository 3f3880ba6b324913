import SorobanPulse.Lib.Digits
import SorobanPulse.Tokens.Sep41Backfill

/-! What the amount of a token event denotes.

        "5", 5                      themselves
        {i128: x}, {amount: x}      what x denotes
        {hi, lo}                    hi * 2 ^ 64 + lo, for a signed high and an unsigned low word

    The code takes a high word of 128 bits and shifts it, which loses its upper half. -/

namespace SorobanPulse.Tokens
open Lib

/-- What a string or an integer denotes. -/
def numeral : Value → Option ℤ
  | .string s => parseI128 s
  | .number (.int n) => some n
  | _ => none

/-- The member that an object is read through. -/
def wrapped (map : List (String × Value)) : Option Value :=
  (map.lookup "i128").or (map.lookup "amount")

/-- Objects that are not of these shapes, or whose words are out of range, denote nothing. -/
inductive Denotes : Value → ℤ → Prop
  | self {v : Value} {n : ℤ} : numeral v = some n → Denotes v n
  | wrapped {map : List (String × Value)} {x : Value} {n : ℤ} :
      wrapped map = some x → Denotes x n → Denotes (.object map) n
  | words {map : List (String × Value)} {hi lo : Value} {h l : ℤ} :
      Tokens.wrapped map = none → map.lookup "hi" = some hi → map.lookup "lo" = some lo →
      numeral hi = some h → numeral lo = some l →
      -2 ^ 63 ≤ h → h < 2 ^ 63 → 0 ≤ l → l < 2 ^ 64 → Denotes (.object map) (h * 2 ^ 64 + l)

/-- Whatever is read from a value is the i128 that the value denotes. -/
def Exact (v : Value) : Prop :=
  ∀ s, amountStr v = some s → ∃ n, parseI128 s = some n ∧ Denotes v n

/-- The text that the code parses as the low word. -/
def loText (lo : Value) : Option String := lo.asStr.or (lo.asU64.map toString)

/-- The value is read by words, its high one a string of more than 64 bits. -/
inductive HighOverflows : Value → Prop
  | wrapped {map : List (String × Value)} {x : Value} :
      wrapped map = some x → HighOverflows x → HighOverflows (.object map)
  | words {map : List (String × Value)} {hi t : String} {lo : Value} {h : ℤ} {l : ℕ} :
      Tokens.wrapped map = none → map.lookup "hi" = some (.string hi) → map.lookup "lo" = some lo →
      parseI128 hi = some h → (h < -2 ^ 63 ∨ 2 ^ 63 ≤ h) →
      loText lo = some t → parseUnsigned (2 ^ 64) t.toList = some l → HighOverflows (.object map)

/-! ### Numerals -/

theorem digits?_eq_none {c : Char} (hc : c.isDigit = false) (cs : List Char) :
    digits? (c :: cs) = none := by
  rw [digits?, if_neg]
  rw [List.all_cons, hc]
  exact fun h => Bool.noConfusion h.2

theorem parseUnsigned_mono {bound bound' n : ℕ} {cs : List Char} (hle : bound ≤ bound')
    (h : parseUnsigned bound cs = some n) : parseUnsigned bound' cs = some n := by
  have hlt := (parseUnsigned_lt h).trans_le hle
  unfold parseUnsigned at h ⊢
  split at h
  · exact Option.filter_eq_some_iff.mpr ⟨(Option.filter_eq_some_iff.mp h).1, decide_eq_true hlt⟩
  · exact Option.filter_eq_some_iff.mpr ⟨(Option.filter_eq_some_iff.mp h).1, decide_eq_true hlt⟩

/-- A text read as an unsigned word is the same number as a signed one. -/
theorem parseSigned_of_parseUnsigned {bound bound' n : ℕ} {cs : List Char} (hle : bound ≤ bound')
    (h : parseUnsigned bound cs = some n) : parseSigned bound' cs = some (n : ℤ) := by
  unfold parseSigned
  split
  · next ds =>
    have hdigits : (digits? ('-' :: ds)).filter (· < bound) = some n := h
    rw [digits?_eq_none rfl] at hdigits
    cases hdigits
  · rw [parseUnsigned_mono hle h]
    rfl

/-! ### The words of an object -/

section
variable {map : List (String × Value)} {v : Value} {s t : String}

theorem asI64_eq_some {n : ℤ} (h : v.asI64 = some n) :
    v = .number (.int n) ∧ -2 ^ 63 ≤ n ∧ n < 2 ^ 63 := by
  unfold Value.asI64 at h
  split at h
  · split at h
    · next hrange =>
      rw [I64_MIN, I64_MAX] at hrange
      obtain rfl := Option.some.inj h
      exact ⟨rfl, by omega⟩
    · cases h
  · cases h

theorem asU64_eq_some {n : ℤ} (h : v.asU64 = some n) :
    v = .number (.int n) ∧ 0 ≤ n ∧ n < 2 ^ 64 := by
  unfold Value.asU64 at h
  split at h
  · split at h
    · next hrange =>
      rw [U64_MAX] at hrange
      obtain rfl := Option.some.inj h
      exact ⟨rfl, by omega⟩
    · cases h
  · cases h

/-- A text taken from a string or from an integer of 128 bits is what the value denotes. -/
theorem numeral_of_text {read : Option ℤ} {h : ℤ}
    (hread : ∀ n, read = some n → v = .number (.int n) ∧ -2 ^ 127 ≤ n ∧ n < 2 ^ 127)
    (ht : v.asStr.or (read.map toString) = some t) (hparse : parseI128 t = some h) :
    numeral v = some h ∧ (v = .string t ∨ read = some h) := by
  rcases Option.or_eq_some_iff.mp ht with hstring | ⟨-, hinteger⟩
  · cases v with
    | string u =>
      obtain rfl := Option.some.inj hstring
      exact ⟨hparse, .inl rfl⟩
    | _ => cases hstring
  · obtain ⟨n, hn, rfl⟩ := Option.map_eq_some_iff.mp hinteger
    obtain ⟨rfl, hmin, hmax⟩ := hread n hn
    rw [Sep41.parseI128_toString (by omega) (by omega)] at hparse
    obtain rfl := Option.some.inj hparse
    exact ⟨rfl, .inr hn⟩

theorem numeral_of_hiText {h : ℤ} (ht : v.asStr.or (v.asI64.map toString) = some t)
    (hparse : parseI128 t = some h) :
    numeral v = some h ∧ (v = .string t ∨ -2 ^ 63 ≤ h ∧ h < 2 ^ 63) := by
  obtain ⟨hnumeral, hstring | hi⟩ := numeral_of_text
    (fun n hn => ⟨(asI64_eq_some hn).1, by have := (asI64_eq_some hn).2; omega⟩) ht hparse
  · exact ⟨hnumeral, .inl hstring⟩
  · exact ⟨hnumeral, .inr (asI64_eq_some hi).2⟩

theorem numeral_of_loText {l : ℕ} (ht : loText v = some t)
    (hparse : parseUnsigned (2 ^ 64) t.toList = some l) : numeral v = some (l : ℤ) := by
  have hsigned : parseI128 t = some (l : ℤ) := parseSigned_of_parseUnsigned (by decide) hparse
  exact (numeral_of_text
    (fun n hn => ⟨(asU64_eq_some hn).1, by have := (asU64_eq_some hn).2; omega⟩) ht hsigned).1

/-- What is read by words: both parse, and the words are joined. -/
theorem hiLo_eq_some (h : hiLo map = some s) : ∃ hi lo hiText t, ∃ (h : ℤ) (l : ℕ),
    map.lookup "hi" = some hi ∧ map.lookup "lo" = some lo ∧
      hi.asStr.or (hi.asI64.map toString) = some hiText ∧ loText lo = some t ∧
      parseI128 hiText = some h ∧ parseUnsigned (2 ^ 64) t.toList = some l ∧
      s = toString ((BitVec.ofInt 128 h <<< 64) ||| BitVec.ofNat 128 l).toInt := by
  obtain ⟨hiText, hhiText, h⟩ := Option.bind_eq_some_iff.mp h
  obtain ⟨t, ht, h⟩ := Option.bind_eq_some_iff.mp h
  obtain ⟨hiValue, hparse, h⟩ := Option.bind_eq_some_iff.mp h
  obtain ⟨l, hlo, h⟩ := Option.bind_eq_some_iff.mp h
  obtain ⟨hi, hhi, hhiText⟩ := Option.bind_eq_some_iff.mp hhiText
  obtain ⟨lo, hlookup, ht⟩ := Option.bind_eq_some_iff.mp ht
  exact ⟨hi, lo, hiText, t, hiValue, l, hhi, hlookup, hhiText, ht, hparse, hlo,
    (Option.some.inj h).symm⟩

theorem hiLo_of_strings {hi : String} {lo : Value} {h : ℤ} {l : ℕ}
    (hhi : map.lookup "hi" = some (.string hi)) (hlo : map.lookup "lo" = some lo)
    (hparse : parseI128 hi = some h) (ht : loText lo = some t)
    (hparseLo : parseUnsigned (2 ^ 64) t.toList = some l) :
    hiLo map = some (toString ((BitVec.ofInt 128 h <<< 64) ||| BitVec.ofNat 128 l).toInt) := by
  have hhiText : (Value.string hi).asStr = some hi := rfl
  rw [loText] at ht
  rw [hiLo, hhi, hlo]
  simp only [Option.bind_eq_bind, Option.bind_some, hhiText, Option.some_or, hparse, ht, hparseLo]

/-- By words, with a high word in range. -/
theorem denotes_of_hiLo (hwrapped : wrapped map = none) (hs : hiLo map = some s)
    (hfits : ¬HighOverflows (.object map)) :
    ∃ n, parseI128 s = some n ∧ Denotes (.object map) n := by
  obtain ⟨hi, lo, hiText, t, h, l, hhi, hlo, hhiText, ht, hparse, hparseLo, rfl⟩ := hiLo_eq_some hs
  obtain ⟨hnumeral, hrange⟩ := numeral_of_hiText hhiText hparse
  have hrange : -2 ^ 63 ≤ h ∧ h < 2 ^ 63 := by
    obtain rfl | hrange := hrange
    · by_contra hout
      exact hfits (.words hwrapped hhi hlo hparse (by omega) ht hparseLo)
    · exact hrange
  have hl := parseUnsigned_lt hparseLo
  have hnumeralLo := numeral_of_loText ht hparseLo
  refine ⟨h * 2 ^ 64 + l, ?_, .words hwrapped hhi hlo hnumeral hnumeralLo hrange.1 hrange.2
    (by omega) (by omega)⟩
  rw [toInt_words hrange.1 hrange.2 hl]
  exact Sep41.parseI128_toString (by omega) (by omega)

end

/-! ### Exactness -/

theorem sizeOf_wrapped {map : List (String × Value)} {x : Value} (h : wrapped map = some x) :
    sizeOf x < 1 + sizeOf map := by
  have hmem : ∃ key, (key, x) ∈ map := by
    rcases Option.or_eq_some_iff.mp h with h | ⟨-, h⟩
    · obtain ⟨before, after, rfl, -⟩ := List.lookup_eq_some_iff.mp h
      exact ⟨_, List.mem_append_right _ List.mem_cons_self⟩
    · obtain ⟨before, after, rfl, -⟩ := List.lookup_eq_some_iff.mp h
      exact ⟨_, List.mem_append_right _ List.mem_cons_self⟩
  obtain ⟨key, hmem⟩ := hmem
  have hlt := List.sizeOf_lt_of_mem hmem
  rw [Prod.mk.sizeOf_spec] at hlt
  omega

theorem amountStr_of_wrapped {map : List (String × Value)} {x : Value} (h : wrapped map = some x) :
    amountStr (.object map) = amountStr x := by
  rw [amountStr_object, ← wrapped, h]
  rfl

theorem amountStr_of_words {map : List (String × Value)} (h : wrapped map = none) :
    amountStr (.object map) = hiLo map := by
  rw [amountStr_object, ← wrapped, h]
  rfl

theorem exact_of_fits (v : Value) (hfits : ¬HighOverflows v) : Exact v := by
  -- by the size of the value, which unwrapping makes smaller
  induction hsize : sizeOf v using Nat.strong_induction_on generalizing v with | _ size ih
  intro s h
  cases v with
  | string t =>
    rw [amountStr] at h
    split at h
    · next hparse =>
      obtain rfl := Option.some.inj h
      obtain ⟨n, hn⟩ := Option.isSome_iff_exists.mp hparse
      exact ⟨n, hn, .self hn⟩
    · cases h
  | number n =>
    cases n with
    | int n =>
      rw [amountStr, I64_MIN, U64_MAX] at h
      split at h
      · next hrange =>
        obtain rfl := Option.some.inj h
        -- in the range of i64 and u64 a JSON integer is its own text
        exact ⟨n, Sep41.parseI128_toString (by omega) (by omega), .self rfl⟩
      · cases h
    | float _ => cases h
  | object map =>
    cases hwrapped : wrapped map with
    | some x =>
      have hsmaller : sizeOf x < size := by
        rw [← hsize, Value.object.sizeOf_spec]
        exact sizeOf_wrapped hwrapped
      rw [amountStr_of_wrapped hwrapped] at h
      obtain ⟨n, hparse, hdenotes⟩ :=
        ih _ hsmaller x (fun hx => hfits (.wrapped hwrapped hx)) rfl s h
      exact ⟨n, hparse, .wrapped hwrapped hdenotes⟩
    | none =>
      rw [amountStr_of_words hwrapped] at h
      -- two halves, which fit as the high one does not overflow
      exact denotes_of_hiLo hwrapped h hfits
  | null => cases h
  | bool _ => cases h
  | array _ => cases h

/-- Something is read, and nothing denoted. -/
theorem not_exact_of_overflows {v : Value} (h : HighOverflows v) :
    ∃ s, amountStr v = some s ∧ ∀ n, ¬Denotes v n := by
  induction h with
  | wrapped hwrapped _ ih =>
    obtain ⟨s, hs, hnone⟩ := ih
    refine ⟨s, by rw [amountStr_of_wrapped hwrapped, hs], fun n hdenotes => ?_⟩
    cases hdenotes with
    | self hself => cases hself
    | wrapped hwrapped' hx =>
      obtain rfl := Option.some.inj (hwrapped.symm.trans hwrapped')
      exact hnone n hx
    | words hwrapped' => cases hwrapped.symm.trans hwrapped'
  | words hwrapped hhi hlo hparse hout ht hparseLo =>
    have hs := hiLo_of_strings hhi hlo hparse ht hparseLo
    rw [← amountStr_of_words hwrapped] at hs
    refine ⟨_, hs, fun n hdenotes => ?_⟩
    cases hdenotes with
    | self hself => cases hself
    | wrapped hwrapped' => cases hwrapped.symm.trans hwrapped'
    | words _ hhi' _ hnumeral _ hmin hmax =>
      obtain rfl := Option.some.inj (hhi.symm.trans hhi')
      obtain rfl := Option.some.inj (hparse.symm.trans hnumeral)
      omega

/-- Amounts are exact except for high words of more than 64 bits. -/
theorem exact_iff (v : Value) : Exact v ↔ ¬HighOverflows v := by
  refine ⟨fun hexact hover => ?_, exact_of_fits v⟩
  obtain ⟨s, hs, hnone⟩ := not_exact_of_overflows hover
  obtain ⟨n, -, hdenotes⟩ := hexact s hs
  exact hnone n hdenotes

/-- `2 ^ 63` as a high word comes out as the least i128. -/
theorem not_exact_minimum :
    amountStr (.object [("hi", .string "9223372036854775808"), ("lo", .string "0")]) =
        some "-170141183460469231731687303715884105728" ∧
      ¬Exact (.object [("hi", .string "9223372036854775808"), ("lo", .string "0")]) := by
  have hparse : parseI128 "9223372036854775808" = some (2 ^ 63) := by decide
  have hparseLo : parseUnsigned (2 ^ 64) "0".toList = some 0 := by decide
  have hwords : hiLo [("hi", .string "9223372036854775808"), ("lo", .string "0")] = _ :=
    hiLo_of_strings rfl rfl hparse rfl hparseLo
  have hover : HighOverflows (.object [("hi", .string "9223372036854775808"), ("lo", .string "0")]) :=
    .words rfl rfl rfl hparse (by decide) rfl hparseLo
  refine ⟨?_, fun hexact => ?_⟩
  · rw [amountStr_of_words rfl, hwords]
    decide
  · obtain ⟨s, hs, hnone⟩ := not_exact_of_overflows hover
    obtain ⟨n, -, hdenotes⟩ := hexact s hs
    exact hnone n hdenotes

end SorobanPulse.Tokens
