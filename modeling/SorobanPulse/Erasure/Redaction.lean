import SorobanPulse.Json
import Mathlib.Data.List.Basic

/-! Redaction rules: which strings of an event hold personal data, and what replaces them.

    A rule is a regex, a name and a replacement. The scan lists every match of a rule; redaction
    runs a string through the rules one after the other and lists those that changed something.
    Where the scan finds nothing, redaction changes nothing; where it lists no rule, too. -/

namespace SorobanPulse.Erasure

structure AnonymizationRule where
  name : String
  pattern : String
  replacement : String
  enabled : Bool

/-- The regex crate. -/
structure RegexCrate (Regex : Type) where
  new : String → Option Regex
  isMatch : Regex → String → Bool
  replaceAll : Regex → String → String → String

structure PiiDetection where
  fieldPath : String
  ruleName : String

section
variable {Regex : Type} (crate : RegexCrate Regex)

/-- Enabled rules; those whose pattern is no regex are skipped. -/
def compileRules (rules : List AnonymizationRule) : List (String × Regex × String) :=
  (rules.filter (·.enabled)).filterMap fun r =>
    (crate.new r.pattern).map fun re => (r.name, re, r.replacement)

def compileDetectionRules (rules : List AnonymizationRule) : List (String × Regex) :=
  (rules.filter (·.enabled)).filterMap fun r => (crate.new r.pattern).map fun re => (r.name, re)

/-! ### Scan -/

def childPath (path key : String) : String := if path.isEmpty then key else path ++ "." ++ key

mutual
/-- What `scan_recursive` pushes. -/
def scanRecursive (rules : List (String × Regex)) (path : String) : Value → List PiiDetection
  | .string s => (rules.filter fun r => crate.isMatch r.2 s).map fun r => ⟨path, r.1⟩
  | .object map => scanMap rules path map
  | .array items => scanItems rules path 0 items
  | _ => []

def scanMap (rules : List (String × Regex)) (path : String) :
    List (String × Value) → List PiiDetection
  | [] => []
  | (k, v) :: map => scanRecursive rules (childPath path k) v ++ scanMap rules path map

def scanItems (rules : List (String × Regex)) (path : String) (i : ℕ) :
    List Value → List PiiDetection
  | [] => []
  | v :: items =>
    scanRecursive rules (path ++ "[" ++ toString i ++ "]") v ++ scanItems rules path (i + 1) items
end

def scanForPii (rules : List (String × Regex)) (value : Value) : List PiiDetection :=
  scanRecursive crate rules "" value

/-! ### Redaction -/

/-- One rule on one string, with the names of the rules applied so far. -/
def applyRule (state : String × List String) (rule : String × Regex × String) :
    String × List String :=
  let (current, applied) := state
  let (name, re, replacement) := rule
  if crate.isMatch re current then
    let replaced := crate.replaceAll re current replacement
    if replaced ≠ current then
      (replaced, if applied.contains name then applied else applied ++ [name])
    else state
  else state

mutual
def anonymizeRecursive (rules : List (String × Regex × String)) (applied : List String) :
    Value → Value × List String
  | .string s =>
    let (current, applied) := rules.foldl (applyRule crate) (s, applied)
    (.string current, applied)
  | .object map =>
    let (map, applied) := anonymizeMap rules applied map
    (.object map, applied)
  | .array items =>
    let (items, applied) := anonymizeItems rules applied items
    (.array items, applied)
  | other => (other, applied)

def anonymizeMap (rules : List (String × Regex × String)) (applied : List String) :
    List (String × Value) → List (String × Value) × List String
  | [] => ([], applied)
  | (k, v) :: map =>
    let (v, applied) := anonymizeRecursive rules applied v
    let (map, applied) := anonymizeMap rules applied map
    ((k, v) :: map, applied)

def anonymizeItems (rules : List (String × Regex × String)) (applied : List String) :
    List Value → List Value × List String
  | [] => ([], applied)
  | v :: items =>
    let (v, applied) := anonymizeRecursive rules applied v
    let (items, applied) := anonymizeItems rules applied items
    (v :: items, applied)
end

def anonymizeValue (rules : List (String × Regex × String)) (value : Value) :
    Value × List String :=
  anonymizeRecursive crate rules [] value

end

section
variable {Regex : Type} {crate : RegexCrate Regex} {rules : List (String × Regex × String)}

theorem compileDetectionRules_eq (rules : List AnonymizationRule) :
    compileDetectionRules crate rules = (compileRules crate rules).map fun r => (r.1, r.2.1) := by
  rw [compileDetectionRules, compileRules, List.map_filterMap]
  congr 1
  funext r
  rw [Option.map_map]
  rfl

/-! ### No rule applied, nothing changed -/

theorem applyRule_nil {state : String × List String} {rule : String × Regex × String}
    (h : (applyRule crate state rule).2 = []) : applyRule crate state rule = state := by
  obtain ⟨current, applied⟩ := state
  obtain ⟨name, re, replacement⟩ := rule
  simp only [applyRule] at h ⊢
  split
  · next hmatch =>
    split
    · next hne =>
      rw [if_pos hmatch, if_pos hne] at h
      simp only at h
      split at h
      · next hmem =>
        rw [h] at hmem
        cases hmem
      · exact absurd h (List.append_ne_nil_of_right_ne_nil _ (List.cons_ne_nil _ _))
    · rfl
  · rfl

theorem foldl_applyRule_nil {state : String × List String}
    (h : (rules.foldl (applyRule crate) state).2 = []) :
    rules.foldl (applyRule crate) state = state := by
  induction rules generalizing state with
  | nil => rfl
  | cons rule rules ih =>
    rw [List.foldl_cons] at h ⊢
    have hrest := ih h
    rw [hrest] at h ⊢
    exact applyRule_nil h

mutual
theorem anonymizeRecursive_nil {applied : List String} :
    ∀ v : Value, (anonymizeRecursive crate rules applied v).2 = [] →
      anonymizeRecursive crate rules applied v = (v, applied)
  | .string s, h => by
    rw [anonymizeRecursive] at h ⊢
    simp only at h ⊢
    rw [foldl_applyRule_nil h]
  | .object map, h => by
    rw [anonymizeRecursive] at h ⊢
    simp only at h ⊢
    rw [anonymizeMap_nil map h]
  | .array items, h => by
    rw [anonymizeRecursive] at h ⊢
    simp only at h ⊢
    rw [anonymizeItems_nil items h]
  | .null, _ => by rw [anonymizeRecursive] <;> simp
  | .bool _, _ => by rw [anonymizeRecursive] <;> simp
  | .number _, _ => by rw [anonymizeRecursive] <;> simp

theorem anonymizeMap_nil {applied : List String} :
    ∀ map : List (String × Value), (anonymizeMap crate rules applied map).2 = [] →
      anonymizeMap crate rules applied map = (map, applied)
  | [], _ => by rw [anonymizeMap]
  | (k, v) :: map, h => by
    rw [anonymizeMap] at h ⊢
    simp only at h ⊢
    have hrest := anonymizeMap_nil map h
    rw [hrest] at h ⊢
    rw [anonymizeRecursive_nil v h]

theorem anonymizeItems_nil {applied : List String} :
    ∀ items : List Value, (anonymizeItems crate rules applied items).2 = [] →
      anonymizeItems crate rules applied items = (items, applied)
  | [], _ => by rw [anonymizeItems]
  | v :: items, h => by
    rw [anonymizeItems] at h ⊢
    simp only at h ⊢
    have hrest := anonymizeItems_nil items h
    rw [hrest] at h ⊢
    rw [anonymizeRecursive_nil v h]
end

/-- A value that redaction alters has a rule that applied. -/
theorem anonymizeValue_nil {v : Value} (h : (anonymizeValue crate rules v).2 = []) :
    (anonymizeValue crate rules v).1 = v := by
  unfold anonymizeValue at h ⊢
  rw [anonymizeRecursive_nil v h]

/-! ### Nothing detected, nothing applied -/

theorem foldl_applyRule_of_not_match {s : String} {applied : List String}
    (h : ∀ r ∈ rules, crate.isMatch r.2.1 s = false) :
    rules.foldl (applyRule crate) (s, applied) = (s, applied) := by
  induction rules with
  | nil => rfl
  | cons rule rules ih =>
    have hrule : applyRule crate (s, applied) rule = (s, applied) := by
      simp [applyRule, h rule List.mem_cons_self]
    rw [List.foldl_cons, hrule]
    exact ih fun r hr => h r (List.mem_cons_of_mem _ hr)

mutual
theorem anonymizeRecursive_of_scan {applied : List String} {path : String} :
    ∀ v : Value, scanRecursive crate (rules.map fun r => (r.1, r.2.1)) path v = [] →
      anonymizeRecursive crate rules applied v = (v, applied)
  | .string s, h => by
    rw [scanRecursive, List.map_eq_nil_iff, List.filter_eq_nil_iff] at h
    rw [anonymizeRecursive]
    simp only
    rw [foldl_applyRule_of_not_match]
    intro r hr
    have hr' := h (r.1, r.2.1) (List.mem_map_of_mem hr)
    exact Bool.eq_false_iff.mpr hr'
  | .object map, h => by
    rw [scanRecursive] at h
    rw [anonymizeRecursive]
    simp only
    rw [anonymizeMap_of_scan map h]
  | .array items, h => by
    rw [scanRecursive] at h
    rw [anonymizeRecursive]
    simp only
    rw [anonymizeItems_of_scan items h]
  | .null, _ => by rw [anonymizeRecursive] <;> simp
  | .bool _, _ => by rw [anonymizeRecursive] <;> simp
  | .number _, _ => by rw [anonymizeRecursive] <;> simp

theorem anonymizeMap_of_scan {applied : List String} {path : String} :
    ∀ map : List (String × Value), scanMap crate (rules.map fun r => (r.1, r.2.1)) path map = [] →
      anonymizeMap crate rules applied map = (map, applied)
  | [], _ => by rw [anonymizeMap]
  | (k, v) :: map, h => by
    rw [scanMap, List.append_eq_nil_iff] at h
    rw [anonymizeMap]
    simp only
    rw [anonymizeRecursive_of_scan v h.1, anonymizeMap_of_scan map h.2]

theorem anonymizeItems_of_scan {applied : List String} {path : String} {i : ℕ} :
    ∀ items : List Value, scanItems crate (rules.map fun r => (r.1, r.2.1)) path i items = [] →
      anonymizeItems crate rules applied items = (items, applied)
  | [], _ => by rw [anonymizeItems]
  | v :: items, h => by
    rw [scanItems, List.append_eq_nil_iff] at h
    rw [anonymizeItems]
    simp only
    rw [anonymizeRecursive_of_scan v h.1, anonymizeItems_of_scan items h.2]
end

mutual
theorem scanRecursive_nil {path : String} : ∀ v : Value, scanRecursive crate [] path v = []
  | .string s => by rw [scanRecursive]; rfl
  | .object map => by rw [scanRecursive, scanMap_nil map]
  | .array items => by rw [scanRecursive, scanItems_nil items]
  | .null => by rw [scanRecursive] <;> simp
  | .bool _ => by rw [scanRecursive] <;> simp
  | .number _ => by rw [scanRecursive] <;> simp

theorem scanMap_nil {path : String} :
    ∀ map : List (String × Value), scanMap crate [] path map = []
  | [] => by rw [scanMap]
  | (k, v) :: map => by rw [scanMap, scanRecursive_nil v, scanMap_nil map]; rfl

theorem scanItems_nil {path : String} {i : ℕ} :
    ∀ items : List Value, scanItems crate [] path i items = []
  | [] => by rw [scanItems]
  | v :: items => by rw [scanItems, scanRecursive_nil v, scanItems_nil items]; rfl
end

/-- The scan misses nothing that redaction would change. -/
theorem anonymizeValue_of_scan {v : Value}
    (h : scanForPii crate (rules.map fun r => (r.1, r.2.1)) v = []) :
    anonymizeValue crate rules v = (v, []) :=
  anonymizeRecursive_of_scan v h

end

end SorobanPulse.Erasure
