import SorobanPulse.JsonText
import SorobanPulse.Lib.Joined
import SorobanPulse.Lib.JsonTokens

/-! The text of a JSON value determines the value.

        null   true   -7   2.5e3   "a\n"   [1,2]   {"k":1}
        n      t      -    2       "       [       {            the kind of a value

    A text is told from another by its first character first, and then read off to its end: numbers
    up to a comma or a bracket, all else up to a bracket or quote of its own. -/

namespace SorobanPulse
open Lib

/-! ### Strings -/

theorem hexValue?_digitChar : ∀ n < 16, hexValue? (Nat.digitChar n) = some n := by
  decide +kernel

/-- The character of a string that a text begins with. -/
def readChar : List Char → Option (Char × List Char)
  | '\\' :: 'u' :: '0' :: '0' :: high :: low :: rest =>
    (hexValue? high).bind fun high =>
      (hexValue? low).map fun low => (Char.ofNat (high * 16 + low), rest)
  | '\\' :: c :: rest => (JsonToken.escaped c).map fun c => (c, rest)
  | c :: rest => some (c, rest)
  | [] => none

theorem readChar_escapedChar (c : Char) (rest : List Char) :
    readChar (escapedChar c ++ rest) = some (c, rest) := by
  rw [escapedChar.eq_def]
  split
  · rfl
  · rfl
  · rfl
  · rfl
  · rfl
  -- neither quote, backslash nor one of the short escapes
  next hquote hback _ _ _ =>
  split
  · next hc =>
    rw [hc]
    rfl
  split
  · next hc =>
    rw [hc]
    rfl
  split
  · -- a control character as four hexadecimal digits
    next hcontrol =>
    have hhigh := hexValue?_digitChar (c.toNat / 16) (by omega)
    have hlow := hexValue?_digitChar (c.toNat % 16) (Nat.mod_lt _ (by omega))
    simp only [List.cons_append, List.nil_append, readChar, hhigh, hlow, Option.bind_some,
      Option.map_some]
    rw [Nat.div_add_mod', Char.ofNat_toNat]
  · -- any other character stands for itself
    rw [List.singleton_append, readChar.eq_def]
    split
    · next heq => exact absurd (List.cons.inj heq).1 hback
    · next heq => exact absurd (List.cons.inj heq).1 hback
    · next heq =>
      cases heq
      rfl
    · next heq => cases heq

theorem escapedChar_ne_quote (c : Char) (rest rest' : List Char) :
    escapedChar c ++ rest ≠ '"' :: rest' := by
  intro h
  have hread := readChar_escapedChar c rest
  rw [h] at hread
  obtain ⟨rfl, rfl⟩ : '"' = c ∧ rest' = rest := by
    cases hread
    exact ⟨rfl, rfl⟩
  exact absurd (List.cons.inj h).1 (by decide)

theorem escapedChar_inj (a b : Char) (rest rest' : List Char)
    (h : escapedChar a ++ rest = escapedChar b ++ rest') : a = b ∧ rest = rest' := by
  have hread := readChar_escapedChar a rest
  rw [h, readChar_escapedChar] at hread
  cases hread
  exact ⟨rfl, rfl⟩

theorem quoted_inj {s t : String} {rest rest' : List Char}
    (h : quoted s ++ rest = quoted t ++ rest') : s = t ∧ rest = rest' := by
  have hbody : s.toList.flatMap escapedChar ++ '"' :: rest =
      t.toList.flatMap escapedChar ++ '"' :: rest' := by
    simpa [quoted] using h
  obtain ⟨hchars, hrest⟩ := flatMap_inj escapedChar_inj escapedChar_ne_quote hbody
  exact ⟨String.toList_inj.mp hchars, hrest⟩

/-! ### Numbers -/

/-- A digit, a sign, a point or the exponent's `e`. -/
def isNumeric (c : Char) : Bool := c.isDigit || c == '-' || c == '+' || c == '.' || c == 'e'

/-- What the text of a double is: its own, a number's, and never an integer's. -/
structure DoubleText (double : UInt64 → String) : Prop where
  injective : Function.Injective double
  numeric : ∀ bits, ∀ c ∈ (double bits).toList, isNumeric c = true
  pointed : ∀ bits, '.' ∈ (double bits).toList ∨ 'e' ∈ (double bits).toList

def numberChars (double : UInt64 → String) : Number → List Char
  | .int n => (toString n).toList
  | .float bits => (double bits).toList

theorem toString_int_injective : Function.Injective (toString : ℤ → String) := by
  intro m n h
  have htext := congrArg String.toList h
  have hminus (m n : ℕ) : Nat.toDigits 10 m ≠ '-' :: Nat.toDigits 10 n := by
    intro heq
    have hmem : '-' ∈ Nat.toDigits 10 m := heq ▸ List.mem_cons_self
    exact absurd (Nat.isDigit_of_mem_toDigits (by decide) (by decide) hmem) (by decide)
  cases m with
  | ofNat m =>
    cases n with
    | ofNat n =>
      have hdigits : Nat.toDigits 10 m = Nat.toDigits 10 n :=
        ((toList_toString_nat m).symm.trans htext).trans (toList_toString_nat n)
      rw [← decimal_zero, ← decimal_zero] at hdigits
      exact congrArg Int.ofNat (decimal_injective 0 hdigits)
    | negSucc n =>
      rw [toList_toString_negSucc] at htext
      exact absurd ((toList_toString_nat m).symm.trans htext) (hminus m (n + 1))
  | negSucc m =>
    rw [toList_toString_negSucc] at htext
    cases n with
    | ofNat n => exact absurd ((toList_toString_nat n).symm.trans htext.symm) (hminus n (m + 1))
    | negSucc n =>
      rw [toList_toString_negSucc] at htext
      have hdigits := (List.cons.inj htext).2
      rw [← decimal_zero, ← decimal_zero] at hdigits
      exact congrArg Int.negSucc (Nat.add_right_cancel (decimal_injective 0 hdigits))

section
variable {double : UInt64 → String}

theorem isNumeric_numberChars (hdouble : DoubleText double) (n : Number) :
    ∀ c ∈ numberChars double n, isNumeric c = true := by
  cases n with
  | float bits => exact hdouble.numeric bits
  | int n =>
    intro c hc
    rcases integral_toString c hc with hdigit | rfl
    · simp [isNumeric, hdigit]
    · decide

theorem numberChars_ne_nil (hdouble : DoubleText double) (n : Number) :
    numberChars double n ≠ [] := by
  cases n with
  | float bits =>
    rcases hdouble.pointed bits with h | h
    · exact List.ne_nil_of_mem h
    · exact List.ne_nil_of_mem h
  | int n =>
    cases n with
    | ofNat n =>
      rw [numberChars, show (toString (Int.ofNat n)).toList = _ from toList_toString_nat n]
      exact Nat.toDigits_ne_nil
    | negSucc n =>
      rw [numberChars, toList_toString_negSucc]
      exact List.cons_ne_nil _ _

/-- The text of an integer is no double's. -/
theorem int_ne_float (hdouble : DoubleText double) (n : ℤ) (bits : UInt64) :
    (toString n).toList ≠ (double bits).toList := by
  intro h
  rcases hdouble.pointed bits with hmem | hmem
  · rcases integral_toString _ (h ▸ hmem) with hdigit | heq
    · exact absurd hdigit (by decide)
    · exact absurd heq (by decide)
  · rcases integral_toString _ (h ▸ hmem) with hdigit | heq
    · exact absurd hdigit (by decide)
    · exact absurd heq (by decide)

theorem numberChars_injective (hdouble : DoubleText double) :
    Function.Injective (numberChars double) := by
  intro m n h
  cases m with
  | int m =>
    cases n with
    | int n => rw [toString_int_injective (String.toList_inj.mp h)]
    | float bits => exact absurd h (int_ne_float hdouble m bits)
  | float bits =>
    cases n with
    | int n => exact absurd h.symm (int_ne_float hdouble n bits)
    | float bits' => rw [hdouble.injective (String.toList_inj.mp h)]

/-- Numbers with a point that are told apart, as plainly as can be. -/
def bitsText (bits : UInt64) : String := toString bits.toNat ++ ".0"

theorem doubleText_bitsText : DoubleText bitsText := by
  have htext (bits : UInt64) : (bitsText bits).toList = Nat.toDigits 10 bits.toNat ++ ['.', '0'] := by
    rw [bitsText, String.toList_append, toList_toString_nat]
    rfl
  refine ⟨fun a b h => ?_, fun bits c hc => ?_, fun bits => .inl ?_⟩
  · have hdigits := (htext a).symm.trans ((congrArg String.toList h).trans (htext b))
    rw [← decimal_zero, ← decimal_zero] at hdigits
    exact UInt64.toNat_inj.mp (decimal_injective 0 (List.append_cancel_right hdigits))
  · rw [htext] at hc
    rcases List.mem_append.mp hc with hdigit | htail
    · simp [isNumeric, Nat.isDigit_of_mem_toDigits (by decide) (by decide) hdigit]
    · rcases List.mem_pair.mp htail with rfl | rfl
      · decide
      · decide
  · rw [htext]
    simp

/-! ### Values -/

inductive ValueKind where
  | null
  | bool (b : Bool)
  | number
  | string
  | array
  | object
  deriving DecidableEq

def Value.kind : Value → ValueKind
  | .null => .null
  | .bool b => .bool b
  | .number _ => .number
  | .string _ => .string
  | .array _ => .array
  | .object _ => .object

/-- The kind of the values whose text begins so. -/
def headKind (c : Char) : ValueKind :=
  match c with
  | 'n' => .null
  | 't' => .bool true
  | 'f' => .bool false
  | '"' => .string
  | '[' => .array
  | '{' => .object
  | _ => .number

/-- What a value in an array or an object is followed by. -/
def Ends (c : Char) : Prop := c = ',' ∨ c = ']' ∨ c = '}'

theorem ends_comma : Ends ',' := .inl rfl

theorem headKind_of_isNumeric {c : Char} (h : isNumeric c = true) : headKind c = .number := by
  rw [headKind.eq_def]
  split
  · exact absurd h (by decide)
  · exact absurd h (by decide)
  · exact absurd h (by decide)
  · exact absurd h (by decide)
  · exact absurd h (by decide)
  · exact absurd h (by decide)
  · rfl

theorem not_isNumeric_of_ends {c : Char} (h : Ends c) : isNumeric c = false := by
  rcases h with rfl | rfl | rfl
  · decide
  · decide
  · decide

theorem jsonChars_number (n : Number) : jsonChars double (.number n) = numberChars double n := by
  cases n with
  | int n => rfl
  | float bits => rfl

/-- A text begins with a character of its kind. -/
theorem exists_jsonChars_eq (hdouble : DoubleText double) (v : Value) :
    ∃ c cs, jsonChars double v = c :: cs ∧ headKind c = v.kind ∧ ¬Ends c := by
  have hends {c : Char} (h : isNumeric c = true) : ¬Ends c := fun hc =>
    Bool.noConfusion (h.symm.trans (not_isNumeric_of_ends hc))
  cases v with
  | null => exact ⟨'n', _, rfl, rfl, by simp [Ends]⟩
  | bool b =>
    cases b with
    | true => exact ⟨'t', _, rfl, rfl, by simp [Ends]⟩
    | false => exact ⟨'f', _, rfl, rfl, by simp [Ends]⟩
  | string s => exact ⟨'"', _, rfl, rfl, by simp [Ends]⟩
  | array items => exact ⟨'[', _, rfl, rfl, by simp [Ends]⟩
  | object map => exact ⟨'{', _, rfl, rfl, by simp [Ends]⟩
  | number n =>
    rw [jsonChars_number]
    obtain ⟨c, cs, htext⟩ := List.exists_cons_of_ne_nil (numberChars_ne_nil hdouble n)
    have hnumeric := isNumeric_numberChars hdouble n c (htext ▸ List.mem_cons_self)
    exact ⟨c, cs, htext, headKind_of_isNumeric hnumeric, hends hnumeric⟩

theorem kind_eq_of_append_eq (hdouble : DoubleText double) {v w : Value} {rest rest' : List Char}
    (h : jsonChars double v ++ rest = jsonChars double w ++ rest') : v.kind = w.kind := by
  obtain ⟨c, cs, hv, hkind, -⟩ := exists_jsonChars_eq hdouble v
  obtain ⟨d, ds, hw, hkind', -⟩ := exists_jsonChars_eq hdouble w
  rw [hv, hw] at h
  rw [← hkind, ← hkind', (List.cons.inj h).1]

/-- Any two are told apart by their kind, except two of a kind. -/
theorem reads_of_kind (hdouble : DoubleText double) {v : Value}
    (h : ∀ w rest rest', v.kind = w.kind → StopsAt Ends rest → StopsAt Ends rest' →
      jsonChars double v ++ rest = jsonChars double w ++ rest' → v = w ∧ rest = rest') :
    Reads Ends (jsonChars double) v := fun w rest rest' hrest hrest' heq =>
  h w rest rest' (kind_eq_of_append_eq hdouble heq) hrest hrest' heq

theorem reads_number (hdouble : DoubleText double) (n : Number) :
    Reads Ends (jsonChars double) (.number n) := by
  refine reads_of_kind hdouble fun w rest rest' hkind hrest hrest' h => ?_
  cases w with
  | number m =>
    rw [jsonChars_number, jsonChars_number] at h
    obtain ⟨htext, heq⟩ := append_inj_of_forall (isNumeric_numberChars hdouble n)
      (isNumeric_numberChars hdouble m) (fun c hc => not_isNumeric_of_ends (hrest c hc))
      (fun c hc => not_isNumeric_of_ends (hrest' c hc)) h
    exact ⟨congrArg _ (numberChars_injective hdouble htext), heq⟩
  | _ => cases hkind

theorem reads_string (hdouble : DoubleText double) (s : String) :
    Reads Ends (jsonChars double) (.string s) := by
  refine reads_of_kind hdouble fun w rest rest' hkind _ _ h => ?_
  cases w with
  | string t =>
    obtain ⟨rfl, heq⟩ := quoted_inj h
    exact ⟨rfl, heq⟩
  | _ => cases hkind

def memberText (double : UInt64 → String) (m : String × Value) : List Char :=
  quoted m.1 ++ ':' :: jsonChars double m.2

theorem memberChars_eq_map (map : List (String × Value)) :
    memberChars double map = map.map (memberText double) := by
  induction map with
  | nil => rfl
  | cons m rest ih =>
    obtain ⟨name, v⟩ := m
    rw [memberChars, ih, List.map_cons]
    rfl

theorem reads_memberText {m : String × Value} (h : Reads Ends (jsonChars double) m.2) :
    Reads Ends (memberText double) m := by
  intro n rest rest' hrest hrest' heq
  rw [memberText, memberText, List.append_assoc, List.append_assoc] at heq
  obtain ⟨hname, hvalue⟩ := quoted_inj heq
  obtain ⟨hv, heq⟩ := h n.2 rest rest' hrest hrest' (List.cons.inj hvalue).2
  exact ⟨Prod.ext hname hv, heq⟩

theorem reads_array (hdouble : DoubleText double) {items : List Value}
    (h : ∀ v ∈ items, Reads Ends (jsonChars double) v) :
    Reads Ends (jsonChars double) (.array items) := by
  refine reads_of_kind hdouble fun w rest rest' hkind _ _ heq => ?_
  cases w with
  | array items' =>
    have hbody : [','].intercalate (items.map (jsonChars double)) ++ ']' :: rest =
        [','].intercalate (items'.map (jsonChars double)) ++ ']' :: rest' := by
      simpa [jsonChars, itemChars_eq_map] using heq
    have hstart (v : Value) : ∃ c cs, jsonChars double v = c :: cs ∧ c ≠ ']' := by
      obtain ⟨c, cs, htext, -, hends⟩ := exists_jsonChars_eq hdouble v
      exact ⟨c, cs, htext, fun hc => hends (.inr (.inl hc))⟩
    obtain ⟨rfl, hrest⟩ :=
      joined_inj ends_comma (.inr (.inl rfl)) (by decide) hstart h hbody
    exact ⟨rfl, hrest⟩
  | _ => cases hkind

theorem reads_object (hdouble : DoubleText double) {map : List (String × Value)}
    (h : ∀ m ∈ map, Reads Ends (jsonChars double) m.2) :
    Reads Ends (jsonChars double) (.object map) := by
  refine reads_of_kind hdouble fun w rest rest' hkind _ _ heq => ?_
  cases w with
  | object map' =>
    have hbody : [','].intercalate (map.map (memberText double)) ++ '}' :: rest =
        [','].intercalate (map'.map (memberText double)) ++ '}' :: rest' := by
      simpa [jsonChars, memberChars_eq_map] using heq
    have hstart (m : String × Value) : ∃ c cs, memberText double m = c :: cs ∧ c ≠ '}' :=
      ⟨'"', _, rfl, by decide⟩
    obtain ⟨rfl, hrest⟩ := joined_inj ends_comma (.inr (.inr rfl)) (by decide) hstart
      (fun m hm => reads_memberText (h m hm)) hbody
    exact ⟨rfl, hrest⟩
  | _ => cases hkind

mutual
theorem reads_jsonChars (hdouble : DoubleText double) :
    ∀ v : Value, Reads Ends (jsonChars double) v
  | .null => reads_of_kind hdouble fun w rest rest' hkind _ _ h => by
    cases w with
    | null => exact ⟨rfl, List.append_cancel_left h⟩
    | _ => cases hkind
  | .bool b => reads_of_kind hdouble fun w rest rest' hkind _ _ h => by
    cases w with
    | bool b' =>
      cases hkind
      exact ⟨rfl, List.append_cancel_left h⟩
    | _ => cases hkind
  | .number n => reads_number hdouble n
  | .string s => reads_string hdouble s
  | .array items => reads_array hdouble (reads_items hdouble items)
  | .object map => reads_object hdouble (reads_members hdouble map)

theorem reads_items (hdouble : DoubleText double) :
    ∀ items : List Value, ∀ v ∈ items, Reads Ends (jsonChars double) v
  | [] => by simp
  | v :: rest => by
    rw [List.forall_mem_cons]
    exact ⟨reads_jsonChars hdouble v, reads_items hdouble rest⟩

theorem reads_members (hdouble : DoubleText double) :
    ∀ map : List (String × Value), ∀ m ∈ map, Reads Ends (jsonChars double) m.2
  | [] => by simp
  | (_, v) :: rest => by
    rw [List.forall_mem_cons]
    exact ⟨reads_jsonChars hdouble v, reads_members hdouble rest⟩
end

theorem jsonText_injective (hdouble : DoubleText double) : Function.Injective (jsonText double) := by
  intro v w h
  have htext : jsonChars double v ++ [] = jsonChars double w ++ [] := by
    rw [List.append_nil, List.append_nil, ← String.toList_ofList (l := jsonChars double v),
      ← String.toList_ofList (l := jsonChars double w)]
    exact congrArg String.toList h
  have hend : StopsAt Ends ([] : List Char) := by simp [StopsAt]
  exact (reads_jsonChars hdouble v w [] [] hend hend htext).1

end

end SorobanPulse
