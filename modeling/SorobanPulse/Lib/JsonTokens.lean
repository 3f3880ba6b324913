import SorobanPulse.Lib.TextCodecs

/-! The characters of a JSON text, those of its string literals told from the others.

        {"k": "a\n"}    outside: { " " :   " " }     inside: k a newline

    One character is read at a time. Within a literal an escape is one character, a control
    character is an error, and so is a surrogate without its other half. -/

namespace SorobanPulse.Lib

/-- A character of the text outside of its literals, their quotes included, or one of what a literal
    stands for. -/
inductive JsonToken where
  | outside (c : Char)
  | inside (c : Char)
  deriving DecidableEq

namespace JsonToken

def isOutside : JsonToken → Bool
  | outside _ => true
  | inside _ => false

/-- How far the text has been read. -/
inductive Mode where
  | outside
  | inside
  /-- Behind a backslash. -/
  | escape
  /-- Within `\uXXXX`: the surrogate before it, and the digits so far. -/
  | hex (high : Option ℕ) (count value : ℕ)
  /-- Behind a leading surrogate. -/
  | surrogate (high : ℕ)
  /-- And behind the backslash that follows it. -/
  | surrogateEscape (high : ℕ)
  deriving DecidableEq

/-- `\"`, `\n` and the like. -/
def escaped (c : Char) : Option Char :=
  match c with
  | '"' | '\\' | '/' => some c
  | 'b' => some (Char.ofNat 8)
  | 'f' => some (Char.ofNat 12)
  | 'n' => some '\n'
  | 'r' => some '\r'
  | 't' => some '\t'
  | _ => none

/-- The character of a `\uXXXX`, or of two. -/
def unicode (high : Option ℕ) (code : ℕ) : Option (Mode × List JsonToken) :=
  match high with
  | none =>
    if 0xDC00 ≤ code ∧ code ≤ 0xDFFF then none
    else if 0xD800 ≤ code ∧ code ≤ 0xDBFF then some (.surrogate code, [])
    else some (.inside, [.inside (Char.ofNat code)])
  | some high =>
    if 0xDC00 ≤ code ∧ code ≤ 0xDFFF then
      some (.inside, [.inside (Char.ofNat (0x10000 + (high - 0xD800) * 0x400 + (code - 0xDC00)))])
    else none

/-- A character is read. -/
def step (mode : Mode) (c : Char) : Option (Mode × List JsonToken) :=
  match mode with
  | .outside => some (if c = '"' then .inside else .outside, [.outside c])
  | .inside =>
    if c = '"' then some (.outside, [.outside c])
    else if c = '\\' then some (.escape, [])
    else if c.toNat < 32 then none
    else some (.inside, [.inside c])
  | .escape =>
    if c = 'u' then some (.hex none 0 0, [])
    else (escaped c).map fun c => (.inside, [.inside c])
  | .hex high count value =>
    (hexValue? c).bind fun digit =>
      if count = 3 then unicode high (value * 16 + digit)
      else some (.hex high (count + 1) (value * 16 + digit), [])
  | .surrogate high => if c = '\\' then some (.surrogateEscape high, []) else none
  | .surrogateEscape high => if c = 'u' then some (.hex (some high) 0 0, []) else none

def run (mode : Mode) : List Char → Option (Mode × List JsonToken)
  | [] => some (mode, [])
  | c :: text =>
    (step mode c).bind fun read => (run read.1 text).map fun rest => (rest.1, read.2 ++ rest.2)

/-- A whole text, its last literal closed. -/
def ofText (text : List Char) : Option (List JsonToken) :=
  (run .outside text).bind fun read => if read.1 = .outside then some read.2 else none

example : ofText ['"', 'a', '\\', 'n', '"'] =
    some [.outside '"', .inside 'a', .inside '\n', .outside '"'] := by decide

/-- What a literal holds as it is. -/
def Plain (c : Char) : Prop := c ≠ '"' ∧ c ≠ '\\' ∧ 32 ≤ c.toNat

instance (c : Char) : Decidable (Plain c) := inferInstanceAs (Decidable (_ ∧ _))

theorem step_plain {c : Char} (h : Plain c) : step .inside c = some (.inside, [.inside c]) := by
  obtain ⟨hquote, hbackslash, hcontrol⟩ := h
  rw [step, if_neg hquote, if_neg hbackslash, if_neg (Nat.not_lt.mpr hcontrol)]

section
variable {mode mode' : Mode} {tokens : List JsonToken} {c : Char}

theorem length_unicode_le {high : Option ℕ} {code : ℕ}
    (h : unicode high code = some (mode', tokens)) : tokens.length ≤ 1 := by
  unfold unicode at h
  repeat' split at h
  all_goals cases h
  · exact Nat.zero_le 1
  · exact le_rfl
  · exact le_rfl

/-- A character is one token at most. -/
theorem length_step_le (h : step mode c = some (mode', tokens)) : tokens.length ≤ 1 := by
  cases mode with
  | outside =>
    cases h
    exact le_rfl
  | inside =>
    rw [step] at h
    repeat' split at h
    all_goals cases h
    · -- a quote ends the string, a backslash opens an escape, any other character is one of its own
      exact le_rfl
    · exact Nat.zero_le 1
    · exact le_rfl
  | escape =>
    rw [step] at h
    split at h
    · cases h
      exact Nat.zero_le 1
    · obtain ⟨d, -, heq⟩ := Option.map_eq_some_iff.mp h
      cases heq
      exact le_rfl
  | hex high count value =>
    obtain ⟨digit, -, h⟩ := Option.bind_eq_some_iff.mp h
    split at h
    · exact length_unicode_le h
    · cases h
      exact Nat.zero_le 1
  | surrogate high =>
    rw [step] at h
    split at h
    · cases h
      exact Nat.zero_le 1
    · cases h
  | surrogateEscape high =>
    rw [step] at h
    split at h
    · cases h
      exact Nat.zero_le 1
    · cases h

end

end JsonToken

end SorobanPulse.Lib
