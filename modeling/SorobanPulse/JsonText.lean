import SorobanPulse.Json
import SorobanPulse.Lib.Decimal
import SorobanPulse.Lib.Nesting

/-! The text of a JSON value: `Value::to_string`, serde_json's writer without white space.

    A double is written in the fewest digits that read back as it, by an algorithm of its own. -/

namespace SorobanPulse
open Lib

/-- A character in a JSON string. -/
def escapedChar (c : Char) : List Char :=
  match c with
  | '"' => ['\\', '"']
  | '\\' => ['\\', '\\']
  | '\n' => ['\\', 'n']
  | '\r' => ['\\', 'r']
  | '\t' => ['\\', 't']
  | c =>
    if c = Char.ofNat 8 then ['\\', 'b']
    else if c = Char.ofNat 12 then ['\\', 'f']
    else if c.toNat < 32 then
      ['\\', 'u', '0', '0', Nat.digitChar (c.toNat / 16), Nat.digitChar (c.toNat % 16)]
    else [c]

def quoted (s : String) : List Char := '"' :: s.toList.flatMap escapedChar ++ ['"']

section
variable (double : UInt64 → String)

mutual
def jsonChars : Value → List Char
  | .null => ['n', 'u', 'l', 'l']
  | .bool true => ['t', 'r', 'u', 'e']
  | .bool false => ['f', 'a', 'l', 's', 'e']
  | .number (.int n) => (toString n).toList
  | .number (.float bits) => (double bits).toList
  | .string s => quoted s
  | .array items => '[' :: [','].intercalate (itemChars items) ++ [']']
  | .object map => '{' :: [','].intercalate (memberChars map) ++ ['}']

def itemChars : List Value → List (List Char)
  | [] => []
  | v :: rest => jsonChars v :: itemChars rest

def memberChars : List (String × Value) → List (List Char)
  | [] => []
  | (name, v) :: rest => (quoted name ++ ':' :: jsonChars v) :: memberChars rest
end

/-- `value.to_string()` -/
def jsonText (v : Value) : String := String.ofList (jsonChars double v)

theorem itemChars_eq_map (items : List Value) :
    itemChars double items = items.map (jsonChars double) := by
  induction items with
  | nil => rfl
  | cons v rest ih => rw [itemChars, ih, List.map_cons]

end

/-- Items without a comma are recovered from what they are joined to. -/
theorem intercalate_comma_injective {a b : List (List Char)} (ha : a ≠ []) (hb : b ≠ [])
    (hcommaA : ∀ item ∈ a, ',' ∉ item) (hcommaB : ∀ item ∈ b, ',' ∉ item)
    (h : [','].intercalate a = [','].intercalate b) : a = b := by
  have hsplit : (([','].intercalate a).splitOn ',') = (([','].intercalate b).splitOn ',') := by
    rw [h]
  rwa [List.splitOn_intercalate ',' hcommaA ha, List.splitOn_intercalate ',' hcommaB hb] at hsplit

/-! ### Nesting

    The text of a JSON value is level: its brackets match, and those in its strings do not count. So
    the text of an array is closed, and only its last bracket closes it. -/

/-- A double is written in digits, a sign, a point and an exponent. -/
def PlainDoubles (double : UInt64 → String) : Prop := ∀ bits, ∀ c ∈ (double bits).toList, Plain c

theorem plain_of_isDigit {c : Char} (h : c.isDigit = true) : Plain c := by
  refine ⟨?_, ?_, ?_, ?_, ?_⟩
  all_goals
    rintro rfl
    exact absurd h (by decide)

/-- An integer is a sign and digits. -/
theorem integral_toString {n : ℤ} : ∀ c ∈ (toString n).toList, c.isDigit = true ∨ c = '-' := by
  have hdigit (n : ℕ) : ∀ c ∈ Nat.toDigits 10 n, c.isDigit = true := fun c hc =>
    Nat.isDigit_of_mem_toDigits (by decide) (by decide) hc
  intro c hc
  cases n with
  | ofNat n => exact .inl (hdigit n c (toList_toString_nat n ▸ hc))
  | negSucc n =>
    rw [toList_toString_negSucc] at hc
    rcases List.mem_cons.mp hc with rfl | hc
    · exact .inr rfl
    · exact .inl (hdigit _ c hc)

theorem plain_int (n : ℤ) : ∀ c ∈ (toString n).toList, Plain c := by
  intro c hc
  rcases integral_toString c hc with hdigit | rfl
  · exact plain_of_isDigit hdigit
  · decide

theorem digitChar_inside : ∀ d < 16, Nat.digitChar d ≠ '"' ∧ Nat.digitChar d ≠ '\\' := by decide

theorem inside_escapedChar (c : Char) : Inside (escapedChar c) := by
  rw [escapedChar.eq_def]
  split
  · exact inside_covered '"'
  · exact inside_covered '\\'
  · exact inside_covered 'n'
  · exact inside_covered 'r'
  · exact inside_covered 't'
  next hquote hback _ _ _ =>
  split
  · exact inside_covered 'b'
  split
  · exact inside_covered 'f'
  split
  · next hcontrol =>
    have hhigh := digitChar_inside (c.toNat / 16) (by omega)
    have hlow := digitChar_inside (c.toNat % 16) (by omega)
    have hzero : Inside ['0'] := inside_singleton (by decide) (by decide)
    exact (inside_covered 'u').append (hzero.append (hzero.append
      ((inside_singleton hhigh.1 hhigh.2).append (inside_singleton hlow.1 hlow.2))))
  · exact inside_singleton hquote hback

theorem level_quoted (s : String) : Level (quoted s) :=
  (Inside.flatMap inside_escapedChar s.toList).level

section
variable {double : UInt64 → String}

mutual
theorem level_jsonChars (hdouble : PlainDoubles double) :
    ∀ v : Value, Level (jsonChars double v)
  | .null => level_of_plain (by simp [jsonChars, Plain])
  | .bool true => level_of_plain (by simp [jsonChars, Plain])
  | .bool false => level_of_plain (by simp [jsonChars, Plain])
  | .number (.int n) => level_of_plain (plain_int n)
  | .number (.float bits) => level_of_plain (hdouble bits)
  | .string s => level_quoted s
  | .array items => (Level.intercalate (level_itemChars hdouble items)).bracket (.inl rfl) (.inl rfl)
  | .object map => (Level.intercalate (level_memberChars hdouble map)).bracket (.inr rfl) (.inr rfl)

theorem level_itemChars (hdouble : PlainDoubles double) :
    ∀ items : List Value, ∀ text ∈ itemChars double items, Level text
  | [] => by simp [itemChars]
  | v :: rest => by
    rw [itemChars, List.forall_mem_cons]
    exact ⟨level_jsonChars hdouble v, level_itemChars hdouble rest⟩

theorem level_memberChars (hdouble : PlainDoubles double) :
    ∀ map : List (String × Value), ∀ text ∈ memberChars double map, Level text
  | [] => by simp [memberChars]
  | (name, v) :: rest => by
    rw [memberChars, List.forall_mem_cons]
    have hcolon : Level [':'] := level_of_plain (by simp [Plain])
    have hvalue := hcolon.append (level_jsonChars hdouble v)
    exact ⟨(level_quoted name).append hvalue, level_memberChars hdouble rest⟩
end

end

end SorobanPulse
