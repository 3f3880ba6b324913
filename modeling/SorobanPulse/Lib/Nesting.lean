import Mathlib.Data.List.Infix

/-! The nesting of a JSON text, read from left to right.

        [ 1 , { " a ] " : 2 } ]
        1 1 1 2 2 2 2 2 2 2 1 0      depth after each character

    Brackets within a string do not count, and in a string a backslash covers what follows it. A text
    is level when it ends at the depth where it began and never falls below it; an array is closed
    only by its last character. -/

namespace SorobanPulse.Lib

/-- How deep a reader is, whether it is in a string, and whether the next character is covered. -/
structure Scan where
  depth : ℕ
  quoted : Bool
  covered : Bool
  deriving DecidableEq

def Scan.char (s : Scan) (c : Char) : Scan :=
  if s.covered then { s with covered := false }
  else if s.quoted then
    if c = '\\' then { s with covered := true }
    else if c = '"' then { s with quoted := false }
    else s
  else if c = '"' then { s with quoted := true }
  else if c = '[' ∨ c = '{' then { s with depth := s.depth + 1 }
  else if c = ']' ∨ c = '}' then { s with depth := s.depth - 1 }
  else s

def scan (s : Scan) (text : List Char) : Scan := text.foldl Scan.char s

/-- The reader is never less deep than `d`. -/
def Above (d : ℕ) : Scan → List Char → Prop
  | _, [] => True
  | s, c :: text => d ≤ (s.char c).depth ∧ Above d (s.char c) text

/-- The text leaves a reader as it found it, and never above where it was. -/
def Level (text : List Char) : Prop :=
  ∀ d, scan ⟨d, false, false⟩ text = ⟨d, false, false⟩ ∧ Above d ⟨d, false, false⟩ text

variable {d : ℕ} {s : Scan} {a b text : List Char}

theorem scan_append (s : Scan) (a b : List Char) : scan s (a ++ b) = scan (scan s a) b :=
  List.foldl_append

theorem above_append : Above d s (a ++ b) ↔ Above d s a ∧ Above d (scan s a) b := by
  induction a generalizing s with
  | nil => simp [Above, scan]
  | cons c a ih =>
    rw [List.cons_append, Above, Above, ih, and_assoc]
    rfl

theorem Above.mono {e : ℕ} (h : Above d s text) (hed : e ≤ d) : Above e s text := by
  induction text generalizing s with
  | nil => trivial
  | cons c text ih => exact ⟨hed.trans h.1, ih h.2⟩

/-- Wherever a text is left off, the reader is no less deep. -/
theorem Above.le_depth (h : Above d s text) (hs : d ≤ s.depth) (hbegins : a <+: text) :
    d ≤ (scan s a).depth := by
  induction a generalizing s text with
  | nil => exact hs
  | cons c a ih =>
    obtain ⟨rest, rfl⟩ := hbegins
    exact ih h.2 h.1 (List.prefix_append a rest)

/-! ### Level texts -/

theorem level_nil : Level [] := fun _ => ⟨rfl, trivial⟩

theorem Level.append (ha : Level a) (hb : Level b) : Level (a ++ b) := by
  intro d
  rw [scan_append, above_append, (ha d).1]
  exact ⟨(hb d).1, (ha d).2, (hb d).2⟩

/-- Characters that open, close or quote nothing. -/
def Plain (c : Char) : Prop := c ≠ '"' ∧ c ≠ '[' ∧ c ≠ '{' ∧ c ≠ ']' ∧ c ≠ '}'

instance (c : Char) : Decidable (Plain c) := inferInstanceAs (Decidable (_ ∧ _))

theorem level_of_plain (h : ∀ c ∈ text, Plain c) : Level text := by
  induction text with
  | nil => exact level_nil
  | cons c text ih =>
    obtain ⟨hquote, hsquare, hcurly, hsquare', hcurly'⟩ := h c List.mem_cons_self
    intro d
    have hc : Scan.char ⟨d, false, false⟩ c = ⟨d, false, false⟩ := by
      simp [Scan.char, hquote, hsquare, hcurly, hsquare', hcurly']
    have htext := ih (fun c hc => h c (List.mem_cons_of_mem _ hc)) d
    refine ⟨?_, ?_, ?_⟩
    · rw [scan, List.foldl_cons, hc]
      exact htext.1
    · rw [hc]
    · rw [hc]
      exact htext.2

/-- What is level stays so in brackets. -/
theorem Level.bracket {left right : Char} (hleft : left = '[' ∨ left = '{')
    (hright : right = ']' ∨ right = '}') (h : Level text) : Level (left :: text ++ [right]) := by
  intro d
  have hopen : Scan.char ⟨d, false, false⟩ left = ⟨d + 1, false, false⟩ := by
    rcases hleft with rfl | rfl <;> rfl
  have hclose : Scan.char ⟨d + 1, false, false⟩ right = ⟨d, false, false⟩ := by
    rcases hright with rfl | rfl <;> rfl
  have hscan : scan ⟨d, false, false⟩ (left :: text) = ⟨d + 1, false, false⟩ := by
    rw [scan, List.foldl_cons, hopen]
    exact (h (d + 1)).1
  rw [scan_append, above_append, hscan]
  refine ⟨hclose, ⟨?_, ?_⟩, ?_, trivial⟩
  · rw [hopen]
    exact d.le_succ
  · rw [hopen]
    exact (h (d + 1)).2.mono d.le_succ
  · rw [hclose]

theorem Level.intercalate {texts : List (List Char)} (h : ∀ text ∈ texts, Level text) :
    Level ([','].intercalate texts) := by
  have hcomma : Level [','] := level_of_plain (by simp [Plain])
  induction texts with
  | nil => exact level_nil
  | cons text rest ih =>
    have hrest := ih fun t ht => h t (List.mem_cons_of_mem _ ht)
    have htext := h text List.mem_cons_self
    cases rest with
    | nil =>
      rw [List.intercalate_singleton]
      exact htext
    | cons next rest =>
      rw [List.intercalate_cons_cons]
      exact (htext.append hcomma).append hrest

/-- Characters in a string that neither end it nor leave anything covered. -/
def Inside (text : List Char) : Prop :=
  ∀ d, scan ⟨d, true, false⟩ text = ⟨d, true, false⟩ ∧ Above d ⟨d, true, false⟩ text

theorem inside_nil : Inside [] := fun _ => ⟨rfl, trivial⟩

theorem Inside.append (ha : Inside a) (hb : Inside b) : Inside (a ++ b) := by
  intro d
  rw [scan_append, above_append, (ha d).1]
  exact ⟨(hb d).1, (ha d).2, (hb d).2⟩

theorem Inside.flatMap {f : Char → List Char} (h : ∀ c, Inside (f c)) (text : List Char) :
    Inside (text.flatMap f) := by
  induction text with
  | nil => exact inside_nil
  | cons c text ih =>
    rw [List.flatMap_cons]
    exact (h c).append ih

theorem inside_singleton {c : Char} (hquote : c ≠ '"') (hcover : c ≠ '\\') : Inside [c] := by
  intro d
  have hc : Scan.char ⟨d, true, false⟩ c = ⟨d, true, false⟩ := by simp [Scan.char, hquote, hcover]
  refine ⟨hc, ?_, trivial⟩
  rw [hc]

theorem inside_covered (c : Char) : Inside ['\\', c] := fun _ => ⟨rfl, le_rfl, le_rfl, trivial⟩

/-- What is inside of a string is level in its quotes. -/
theorem Inside.level (h : Inside text) : Level ('"' :: text ++ ['"']) := by
  intro d
  have hscan : scan ⟨d, false, false⟩ ('"' :: text) = ⟨d, true, false⟩ := (h d).1
  rw [scan_append, above_append, hscan]
  exact ⟨rfl, ⟨le_rfl, (h d).2⟩, le_rfl, trivial⟩

/-! ### Arrays -/

/-- The text opens an array, and ends with all closed that it opened. -/
def ClosedArray (text : List Char) : Prop :=
  text.head? = some '[' ∧ scan ⟨0, false, false⟩ text = ⟨0, false, false⟩

instance (text : List Char) : Decidable (ClosedArray text) := inferInstanceAs (Decidable (_ ∧ _))

/-- An array that is left off before its end is not closed. -/
theorem eq_of_closedArray (h : Level text) (hbegins : a <+: '[' :: text ++ [']'])
    (hclosed : ClosedArray a) : a = '[' :: text ++ [']'] := by
  rcases List.prefix_concat_iff.1 hbegins with heq | hshort
  · exact heq
  · exfalso
    obtain ⟨hhead, hscan⟩ := hclosed
    cases a with
    | nil => cases hhead
    | cons c a =>
      obtain ⟨rfl, ha⟩ := List.cons_prefix_cons.1 hshort
      have hdepth := (h 1).2.le_depth le_rfl ha
      have hzero : scan ⟨1, false, false⟩ a = ⟨0, false, false⟩ := hscan
      rw [hzero] at hdepth
      exact absurd hdepth (by decide)

end SorobanPulse.Lib
