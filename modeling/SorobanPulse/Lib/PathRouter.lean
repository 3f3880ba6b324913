import Mathlib

/-! Routing a path to the entry of a table whose pattern it matches.

        pattern  literal "a" · param · literal "b"        path  "a" · "x" · "b"

    One segment at a time: the entries that name the segment are tried first, then those with a
    parameter in its place. A parameter stands for any segment that is not empty. -/

namespace PathRouter

inductive Segment where
  | literal (s : String)
  | param
  deriving DecidableEq, Repr

def Segment.accepts : Segment → String → Prop
  | .literal s, t => s = t
  | .param, t => t ≠ ""

/-- So a pattern is written `["users", .param, "posts"]`. -/
instance : Coe String Segment := ⟨.literal⟩

abbrev Pattern := List Segment

def Pattern.Matches (pattern : Pattern) (path : List String) : Prop :=
  List.Forall₂ Segment.accepts pattern path

/-- The path without its separators. -/
def split (path : String) : List String := (path.toList.splitOn '/').map String.ofList

variable {α : Type*}

/-- The entries that go on after this segment. -/
def after (seg : Segment) (table : List (Pattern × α)) : List (Pattern × α) :=
  table.filterMap fun e =>
    match e.1 with
    | [] => none
    | s :: rest => if s = seg then some (rest, e.2) else none

def lookup : List (Pattern × α) → List String → Option α
  | table, [] => (table.find? fun e => e.1.isEmpty).map (·.2)
  | table, s :: path =>
    (lookup (after (.literal s) table) path).or
      (if s = "" then none else lookup (after .param table) path)

theorem mem_after {seg : Segment} {table : List (Pattern × α)} {rest : Pattern} {a : α} :
    (rest, a) ∈ after seg table ↔ (seg :: rest, a) ∈ table := by
  rw [after, List.mem_filterMap]
  constructor
  · rintro ⟨⟨pattern, b⟩, hmem, heq⟩
    cases pattern with
    | nil => cases heq
    | cons s tail =>
      dsimp only at heq
      split at heq
      · next hs =>
        obtain ⟨rfl, rfl⟩ := Prod.mk.inj (Option.some.inj heq)
        rw [← hs]
        exact hmem
      · cases heq
  · intro hmem
    exact ⟨(seg :: rest, a), hmem, if_pos rfl⟩

/-- What is found is an entry of the table whose pattern the path matches. -/
theorem lookup_sound {table : List (Pattern × α)} {path : List String} {a : α}
    (h : lookup table path = some a) :
    ∃ pattern : Pattern, (pattern, a) ∈ table ∧ pattern.Matches path := by
  induction path generalizing table with
  | nil =>
    rw [lookup, Option.map_eq_some_iff] at h
    rcases h with ⟨⟨pattern, b⟩, hfind, rfl⟩
    have hempty : pattern = [] := by simpa using List.find?_some hfind
    rw [hempty] at hfind
    exact ⟨[], List.mem_of_find?_eq_some hfind, .nil⟩
  | cons s path ih =>
    rw [lookup, Option.or_eq_some_iff] at h
    rcases h with hliteral | ⟨-, hparam⟩
    · rcases ih hliteral with ⟨pattern, hmem, hmatches⟩
      exact ⟨.literal s :: pattern, mem_after.mp hmem, .cons rfl hmatches⟩
    · split at hparam
      · cases hparam
      · next hs =>
        rcases ih hparam with ⟨pattern, hmem, hmatches⟩
        exact ⟨.param :: pattern, mem_after.mp hmem, .cons hs hmatches⟩

end PathRouter
