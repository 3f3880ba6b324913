import Mathlib.Data.List.Infix
import Mathlib.Logic.Function.Basic

/-! `str::replace`: every match of a pattern is replaced, from left to right, and the matches do not
    overlap. What stands in for a match is not searched again.

    Where a text is put together from pieces and the pattern occurs as one kind of piece only,
    replacing it fills in these pieces: `replaceAll_render`. -/

namespace SorobanPulse.Lib

section
variable {α : Type*} [DecidableEq α]

/-- `skip` elements belong to the match before them. -/
def replaceFrom (pattern new : List α) : ℕ → List α → List α
  | _, [] => []
  | skip + 1, _ :: text => replaceFrom pattern new skip text
  | 0, c :: text =>
    if pattern <+: c :: text then new ++ replaceFrom pattern new (pattern.length - 1) text
    else c :: replaceFrom pattern new 0 text

/-- `text.replace(pattern, new)`, for a pattern that is not empty. -/
def replaceAll (pattern new text : List α) : List α := replaceFrom pattern new 0 text

example : replaceAll ['a', 'a'] ['b'] ['a', 'a', 'a', 'c'] = ['b', 'a', 'c'] := by decide

variable {pattern new text xs : List α} {c : α}

theorem replaceFrom_eq_drop (pattern new : List α) (skip : ℕ) (text : List α) :
    replaceFrom pattern new skip text = replaceAll pattern new (text.drop skip) := by
  induction text generalizing skip with
  | nil => cases skip <;> rfl
  | cons c text ih =>
    cases skip with
    | zero => rfl
    | succ skip => exact ih skip

theorem replaceAll_cons_of_no_match (h : ¬pattern <+: c :: text) :
    replaceAll pattern new (c :: text) = c :: replaceAll pattern new text := if_neg h

/-- A match at the front is replaced. -/
theorem replaceAll_append_pattern (hpattern : pattern ≠ []) (text : List α) :
    replaceAll pattern new (pattern ++ text) = new ++ replaceAll pattern new text := by
  cases pattern with
  | nil => exact absurd rfl hpattern
  | cons c pattern =>
    have hmatch : c :: pattern <+: c :: (pattern ++ text) := List.prefix_append (c :: pattern) text
    have hdrop : (pattern ++ text).drop pattern.length = text := List.drop_left
    refine (if_pos hmatch).trans ?_
    rw [replaceFrom_eq_drop]
    exact congrArg (fun text => new ++ replaceAll (c :: pattern) new text) hdrop

/-- Where no match starts nothing changes. -/
theorem replaceAll_append_of_no_match
    (h : ∀ pre suf, xs = pre ++ suf → suf ≠ [] → ¬pattern <+: suf ++ text) :
    replaceAll pattern new (xs ++ text) = xs ++ replaceAll pattern new text := by
  induction xs with
  | nil => rfl
  | cons c xs ih =>
    have hfirst : ¬pattern <+: c :: (xs ++ text) := h [] (c :: xs) rfl (List.cons_ne_nil c xs)
    have hrest := ih fun pre suf heq hne => h (c :: pre) suf (congrArg (c :: ·) heq) hne
    rw [List.cons_append, replaceAll_cons_of_no_match hfirst, hrest]
    rfl

/-- One element is replaced wherever it stands. -/
theorem replaceAll_singleton (c : α) (new text : List α) :
    replaceAll [c] new text = text.flatMap fun d => if d = c then new else [d] := by
  induction text with
  | nil => rfl
  | cons d text ih =>
    by_cases hd : d = c
    · subst hd
      have hmatch : replaceAll [d] new ([d] ++ text) = new ++ replaceAll [d] new text :=
        replaceAll_append_pattern (List.cons_ne_nil d []) text
      rw [List.singleton_append] at hmatch
      simp [hmatch, ih]
    · rw [replaceAll_cons_of_no_match (by simpa [List.cons_prefix_cons] using Ne.symm hd), ih]
      simp [hd]

theorem replaceAll_self (hpattern : pattern ≠ []) (text : List α) :
    replaceAll pattern pattern text = text := by
  induction hn : text.length using Nat.strong_induction_on generalizing text with
  | _ n ih =>
    cases text with
    | nil => rfl
    | cons c text =>
      by_cases hmatch : pattern <+: c :: text
      · obtain ⟨rest, hrest⟩ := hmatch
        have hpos := List.length_pos_iff.mpr hpattern
        have hlen : rest.length < n := by
          rw [← hn, ← hrest, List.length_append]
          omega
        rw [← hrest, replaceAll_append_pattern hpattern, ih _ hlen rest rfl]
      · rw [List.length_cons] at hn
        rw [replaceAll_cons_of_no_match hmatch, ih text.length (by omega) text rfl]

end

/-! ### Texts put together from pieces -/

/-- An element that stands for itself, or a hole for a text. -/
inductive Piece (α κ : Type*) where
  | char (c : α)
  | hole (key : κ)
  deriving DecidableEq

section
variable {α κ : Type*}

/-- The text with the holes filled. -/
def render (σ : κ → List α) : List (Piece α κ) → List α
  | [] => []
  | .char c :: ps => c :: render σ ps
  | .hole key :: ps => σ key ++ render σ ps

/-- The keys of the holes. -/
def holes : List (Piece α κ) → List κ
  | [] => []
  | .char _ :: ps => holes ps
  | .hole key :: ps => key :: holes ps

variable {σ τ : κ → List α} {key : κ} {ps : List (Piece α κ)} {pattern new : List α}

theorem render_append (σ : κ → List α) (ps qs : List (Piece α κ)) :
    render σ (ps ++ qs) = render σ ps ++ render σ qs := by
  induction ps with
  | nil => rfl
  | cons p ps ih =>
    cases p with
    | char c => exact congrArg (c :: ·) ih
    | hole key =>
      rw [List.cons_append, render, render, ih, List.append_assoc]

theorem render_congr (h : ∀ key ∈ holes ps, σ key = τ key) : render σ ps = render τ ps := by
  induction ps with
  | nil => rfl
  | cons p ps ih =>
    cases p with
    | char c => rw [render, render, ih h]
    | hole key =>
      have hrest := fun k hk => h k (List.mem_cons_of_mem key hk)
      rw [render, render, h key List.mem_cons_self, ih hrest]

/-- Every hole becomes some pieces. -/
def bindHoles (f : κ → List (Piece α κ)) : List (Piece α κ) → List (Piece α κ)
  | [] => []
  | .char c :: ps => .char c :: bindHoles f ps
  | .hole key :: ps => f key ++ bindHoles f ps

theorem render_bindHoles (σ : κ → List α) (f : κ → List (Piece α κ)) (ps : List (Piece α κ)) :
    render σ (bindHoles f ps) = render (fun key => render σ (f key)) ps := by
  induction ps with
  | nil => rfl
  | cons p ps ih =>
    cases p with
    | char c => rw [bindHoles, render, render, ih]
    | hole key => rw [bindHoles, render_append, render, ih]

theorem holes_append (ps qs : List (Piece α κ)) : holes (ps ++ qs) = holes ps ++ holes qs := by
  induction ps with
  | nil => rfl
  | cons p ps ih =>
    cases p with
    | char c => exact ih
    | hole key => exact congrArg (key :: ·) ih

theorem holes_bindHoles (f : κ → List (Piece α κ)) (ps : List (Piece α κ)) :
    holes (bindHoles f ps) = (holes ps).flatMap fun key => holes (f key) := by
  induction ps with
  | nil => rfl
  | cons p ps ih =>
    cases p with
    | char c => exact ih
    | hole key => rw [bindHoles, holes_append, holes, List.flatMap_cons, ih]

/-- The pattern occurs nowhere but as a hole of this key. -/
def OnlyHoles (σ : κ → List α) (pattern : List α) (key : κ) (ps : List (Piece α κ)) : Prop :=
  ∀ pre post, render σ ps = pre ++ (pattern ++ post) →
    σ key = pattern ∧ ∃ before after, ps = before ++ .hole key :: after ∧ render σ before = pre

/-- Behind the first piece too. -/
theorem OnlyHoles.tail {p : Piece α κ} (hpattern : pattern ≠ [])
    (h : OnlyHoles σ pattern key (p :: ps)) : OnlyHoles σ pattern key ps := by
  intro pre post heq
  have hwhole : render σ (p :: ps) = render σ [p] ++ pre ++ (pattern ++ post) := by
    rw [← List.singleton_append, render_append, heq, List.append_assoc]
  obtain ⟨hkey, before, after, hsplit, hpre⟩ := h _ _ hwhole
  refine ⟨hkey, ?_⟩
  cases before with
  | nil =>
    -- the first piece is the hole, and no text is left for it
    obtain ⟨rfl, -⟩ := List.cons.inj hsplit
    rw [render, render, render, List.append_nil, hkey] at hpre
    have hnil := (List.append_eq_nil_iff.mp hpre.symm).1
    exact absurd hnil hpattern
  | cons q before =>
    obtain ⟨rfl, rfl⟩ := List.cons.inj hsplit
    rw [← List.singleton_append, render_append] at hpre
    exact ⟨before, after, rfl, List.append_cancel_left hpre⟩

variable [DecidableEq α] [DecidableEq κ]

/-- Replacing the pattern fills in its holes. -/
theorem replaceAll_render (hpattern : pattern ≠ []) (h : OnlyHoles σ pattern key ps)
    (hkey : σ key = pattern ∨ σ key = new) :
    replaceAll pattern new (render σ ps) = render (Function.update σ key new) ps := by
  induction ps with
  | nil => rfl
  | cons p ps ih =>
    have hrest := ih (h.tail hpattern)
    cases p with
    | char c =>
      have hfirst : ¬pattern <+: c :: render σ ps := by
        rintro ⟨post, hpost⟩
        obtain ⟨-, before, after, hsplit, hpre⟩ := h [] post hpost.symm
        cases before with
        | nil => cases hsplit
        | cons q before =>
          obtain ⟨rfl, -⟩ := List.cons.inj hsplit
          cases hpre
      rw [render, render, replaceAll_cons_of_no_match hfirst, hrest]
    | hole k =>
      rw [render, render]
      by_cases hk : k = key ∧ σ key = pattern
      · obtain ⟨rfl, hσ⟩ := hk
        rw [hσ, replaceAll_append_pattern hpattern, hrest, Function.update_self]
      · have hstay : Function.update σ key new k = σ k := by
          by_cases heq : k = key
          · subst heq
            rw [Function.update_self]
            exact (hkey.resolve_left fun hσ => hk ⟨rfl, hσ⟩).symm
          · exact Function.update_of_ne heq _ _
        rw [hstay, ← hrest]
        refine replaceAll_append_of_no_match fun pre suf heq hne hmatch => ?_
        obtain ⟨post, hpost⟩ := hmatch
        have hwhole : render σ (.hole k :: ps) = pre ++ (pattern ++ post) := by
          rw [render, heq, List.append_assoc, hpost]
        obtain ⟨hσ, before, after, hsplit, hpre⟩ := h _ _ hwhole
        cases before with
        | nil =>
          obtain ⟨hfirst, -⟩ := List.cons.inj hsplit
          exact hk ⟨Piece.hole.inj hfirst, hσ⟩
        | cons q before =>
          -- a hole that starts within the text of the first piece starts behind all of it
          obtain ⟨rfl, -⟩ := List.cons.inj hsplit
          have hlen := congrArg List.length hpre
          have hpos := List.length_pos_iff.mpr hne
          rw [render, heq, List.length_append, List.length_append] at hlen
          omega

end

end SorobanPulse.Lib
