import Mathlib
import SorobanPulse.Lib.Decimal

/-! Cron expressions of six or seven fields, seconds first.

        field       items, separated by commas             0,30
        item        a specifier, or every n-th of it       */5   10/15   9-17/2
        specifier   *   ?   a number   a name   a range    5   MON   1-5   MON-FRI

    A field names values of its unit. A field that is none of this, or leaves the bounds of its unit,
    makes the expression name no instant at all. -/

namespace SorobanPulse.Lib.Cron

/-- The values of a unit of time, and how they may be written. -/
structure TimeUnit where
  inclusiveMin : ℕ
  inclusiveMax : ℕ
  /-- The names of the values, from the least on. -/
  names : List (List String) := []
  /-- Is `?` another `*`? -/
  any : Bool := false

def seconds : TimeUnit := { inclusiveMin := 0, inclusiveMax := 59 }

def minutes : TimeUnit := { inclusiveMin := 0, inclusiveMax := 59 }

def hours : TimeUnit := { inclusiveMin := 0, inclusiveMax := 23 }

def daysOfMonth : TimeUnit := { inclusiveMin := 1, inclusiveMax := 31, any := true }

def months : TimeUnit where
  inclusiveMin := 1
  inclusiveMax := 12
  names := [["jan", "january"], ["feb", "february"], ["mar", "march"], ["apr", "april"], ["may"],
    ["jun", "june"], ["jul", "july"], ["aug", "august"], ["sep", "september"], ["oct", "october"],
    ["nov", "november"], ["dec", "december"]]

/-- From Sunday on. -/
def daysOfWeek : TimeUnit where
  inclusiveMin := 1
  inclusiveMax := 7
  names := [["sun", "sunday"], ["mon", "monday"], ["tue", "tues", "tuesday"], ["wed", "wednesday"],
    ["thu", "thurs", "thursday"], ["fri", "friday"], ["sat", "saturday"]]
  any := true

def years : TimeUnit := { inclusiveMin := 1970, inclusiveMax := 2100 }

def units : List TimeUnit := [seconds, minutes, hours, daysOfMonth, months, daysOfWeek, years]

/-! ### What a field names -/

/-- A number in digits. -/
def ordinal (text : List Char) : Option ℕ := (digits? text).filter (· < 2 ^ 32)

/-- The values of a range. -/
def values (first last : ℕ) : List ℕ := List.range' first (last + 1 - first)

/-- Every `step`-th value, the first one included. -/
def stepBy (step : ℕ) (base : List ℕ) : List ℕ :=
  (base.zipIdx.filter fun e => e.2 % step == 0).map (·.1)

section
variable (u : TimeUnit)

def TimeUnit.fromName (text : List Char) : Option ℕ :=
  (u.names.findIdx? (·.contains (String.ofList (text.map Char.toLower)))).map (u.inclusiveMin + ·)

def TimeUnit.point (text : List Char) : Option ℕ :=
  match ordinal text with
  | some n => if u.inclusiveMin ≤ n ∧ n ≤ u.inclusiveMax then some n else none
  | none => u.fromName text

def TimeUnit.specifier (text : List Char) : Option (List ℕ) :=
  if text = ['*'] ∨ u.any = true ∧ text = ['?'] then some (values u.inclusiveMin u.inclusiveMax)
  else
    match text.splitOn '-' with
    | [text] => (u.point text).map fun n => [n]
    | [a, b] => do
      let first ← u.point a
      let last ← u.point b
      -- a range of numbers or one of names
      if (ordinal a).isSome = (ordinal b).isSome ∧ first ≤ last then some (values first last)
      else none
    | _ => none

/-- A number with a step starts there, and goes on to the end of the unit. -/
def TimeUnit.rootSpecifier (text : List Char) : Option (List ℕ) :=
  match text.splitOn '/' with
  | [text] => u.specifier text
  | [start, step] => do
    let base ←
      if (ordinal start).isSome then (u.point start).map fun n => values n u.inclusiveMax
      else u.specifier start
    let step ← ordinal step
    if step = 0 then none else some (stepBy step base)
  | _ => none

def TimeUnit.field (text : List Char) : Option (List ℕ) :=
  ((text.splitOn ',').mapM u.rootSpecifier).map List.flatten

end

/-- Do these fields name the instant with these values? The year may be left out. -/
def names (texts : List (List Char)) (actual : List ℕ) : Bool :=
  (texts.length == 6 || texts.length == 7) &&
    (units.zip (texts.zip actual)).all fun e => (e.1.field e.2.1).any (·.contains e.2.2)

/-- Thursday, 30 July 2026, 09:45:00. -/
example : names (["0", "*/15", "9-17", "?", "jan,JUL", "MON-FRI"].map String.toList)
    [0, 45, 9, 30, 7, 5, 2026] = true := by decide

/-! ### Plain fields -/

/-- A number or `*`. -/
def IsPlain (text : List Char) : Prop := text = ['*'] ∨ (ordinal text).isSome

section
variable {u : TimeUnit} {text : List Char} {n v : ℕ}

theorem mem_values {first last : ℕ} : v ∈ values first last ↔ first ≤ v ∧ v ≤ last := by
  rw [values, List.mem_range'_1]
  omega

theorem field_star (u : TimeUnit) :
    u.field ['*'] = some (values u.inclusiveMin u.inclusiveMax) := by
  have hitem : u.rootSpecifier ['*'] = some (values u.inclusiveMin u.inclusiveMax) := by
    change u.specifier ['*'] = _
    rw [TimeUnit.specifier, if_pos (.inl rfl)]
  change (do
    let item ← u.rootSpecifier ['*']
    return [item]).map List.flatten = _
  rw [hitem]
  simp

/-- A number has no separators. -/
theorem not_mem_of_ordinal (h : ordinal text = some n) {c : Char} (hc : c.isDigit = false) :
    c ∉ text := by
  intro hmem
  rw [ordinal, digits?] at h
  split at h
  · next hdigits =>
    have hdigit := List.all_eq_true.mp hdigits.2 c hmem
    rw [hc] at hdigit
    cases hdigit
  · cases h

theorem field_ordinal (u : TimeUnit) (h : ordinal text = some n) :
    u.field text = if u.inclusiveMin ≤ n ∧ n ≤ u.inclusiveMax then some [n] else none := by
  have hstar : text ≠ ['*'] := by
    rintro rfl
    exact not_mem_of_ordinal h (c := '*') rfl List.mem_cons_self
  have hany : text ≠ ['?'] := by
    rintro rfl
    exact not_mem_of_ordinal h (c := '?') rfl List.mem_cons_self
  have hspecifier : u.specifier text =
      if u.inclusiveMin ≤ n ∧ n ≤ u.inclusiveMax then some [n] else none := by
    rw [TimeUnit.specifier, if_neg (by simp [hstar, hany]),
      List.splitOn_eq_singleton (not_mem_of_ordinal h rfl)]
    dsimp only
    rw [TimeUnit.point, h]
    dsimp only
    split <;> rfl
  have hitem : u.rootSpecifier text = u.specifier text := by
    rw [TimeUnit.rootSpecifier, List.splitOn_eq_singleton (not_mem_of_ordinal h rfl)]
  rw [TimeUnit.field, List.splitOn_eq_singleton (not_mem_of_ordinal h rfl), List.mapM_cons,
    List.mapM_nil, hitem, hspecifier]
  split <;> simp

/-- Of the values of its unit, a number names itself. -/
theorem field_ordinal_contains (h : ordinal text = some n)
    (hv : u.inclusiveMin ≤ v ∧ v ≤ u.inclusiveMax) :
    (u.field text).any (·.contains v) = decide (n = v) := by
  rw [field_ordinal u h]
  split
  · simp [eq_comm]
  · next hn =>
    have hne : n ≠ v := by
      rintro rfl
      exact hn hv
    simp [hne]

theorem field_star_contains (hv : u.inclusiveMin ≤ v ∧ v ≤ u.inclusiveMax) :
    (u.field ['*']).any (·.contains v) = true := by
  rw [field_star]
  simpa using mem_values.mpr hv

end

end SorobanPulse.Lib.Cron
