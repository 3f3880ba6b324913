import Mathlib

/-! Texts that are joined by a separator and closed by a bracket.

        [ text , text , text ]

    What the texts stand for can be read off when each can be read off in front of a separator or a
    bracket, `Reads`: so lists of things that read are things that read. -/

namespace SorobanPulse.Lib

variable {α : Type*} {stop : Char → Prop} {text : α → List Char} {rest rest' : List Char}

/-- The end, or a character at which a text ends. -/
def StopsAt (stop : Char → Prop) (rest : List Char) : Prop := ∀ c ∈ rest.head?, stop c

theorem stopsAt_cons {c : Char} : StopsAt stop (c :: rest) ↔ stop c := by
  simp [StopsAt]

/-- What `text a` stands for, and where it ends. -/
def Reads (stop : Char → Prop) (text : α → List Char) (a : α) : Prop :=
  ∀ b rest rest', StopsAt stop rest → StopsAt stop rest' → text a ++ rest = text b ++ rest' →
    a = b ∧ rest = rest'

/-- What follows the first of the texts. -/
def continued (sep : Char) (l : List (List Char)) : List Char :=
  match l with
  | [] => []
  | l => sep :: [sep].intercalate l

theorem intercalate_cons_eq (sep : Char) (a : List Char) (l : List (List Char)) :
    [sep].intercalate (a :: l) = a ++ continued sep l := by
  cases l with
  | nil => simp [continued]
  | cons b l =>
    rw [continued, List.intercalate_cons_cons, List.append_assoc]
    · rfl
    · exact List.cons_ne_nil b l

theorem stopsAt_continued {sep close : Char} (hsep : stop sep) (hclose : stop close)
    (l : List (List Char)) (rest : List Char) : StopsAt stop (continued sep l ++ close :: rest) := by
  cases l with
  | nil => exact stopsAt_cons.mpr hclose
  | cons b l => exact stopsAt_cons.mpr hsep

/-- A list of things that read is read off the texts joined, up to the bracket. -/
theorem joined_inj {sep close : Char} (hsep : stop sep) (hclose : stop close) (hne : sep ≠ close)
    (hstart : ∀ b, ∃ c cs, text b = c :: cs ∧ c ≠ close) {l l' : List α}
    (hl : ∀ a ∈ l, Reads stop text a)
    (h : [sep].intercalate (l.map text) ++ close :: rest =
      [sep].intercalate (l'.map text) ++ close :: rest') : l = l' ∧ rest = rest' := by
  -- no element begins with the bracket, so the ends of the lists cannot be taken for elements
  have hbracket (b : α) (l rest rest' : List Char) : close :: rest ≠ text b ++ l ++ rest' := by
    obtain ⟨c, cs, htext, hc⟩ := hstart b
    rw [htext]
    intro heq
    exact hc (List.cons.inj heq).1.symm
  induction l generalizing l' with
  | nil =>
    cases l' with
    | nil => exact ⟨rfl, (List.cons.inj h).2⟩
    | cons b l' =>
      rw [List.map_cons, intercalate_cons_eq] at h
      exact absurd h (hbracket b _ _ _)
  | cons a l ih =>
    cases l' with
    | nil =>
      rw [List.map_cons, intercalate_cons_eq] at h
      exact absurd h.symm (hbracket a _ _ _)
    | cons b l' =>
      rw [List.map_cons, List.map_cons, intercalate_cons_eq, intercalate_cons_eq, List.append_assoc,
        List.append_assoc] at h
      -- both first elements stop at the separator or the bracket, and so they are one
      obtain ⟨rfl, hnext⟩ := hl a List.mem_cons_self b _ _ (stopsAt_continued hsep hclose _ _)
        (stopsAt_continued hsep hclose _ _) h
      cases l with  -- what follows tells whether the list goes on
      | nil =>
        cases l' with
        | nil => exact ⟨rfl, (List.cons.inj hnext).2⟩
        | cons b l' => exact absurd (List.cons.inj hnext).1.symm hne
      | cons c l =>
        cases l' with
        | nil => exact absurd (List.cons.inj hnext).1 hne
        | cons b l' =>
          have htail : ∀ a ∈ c :: l, Reads stop text a := fun a ha => hl a (List.mem_cons_of_mem _ ha)
          obtain ⟨hrest, hclosed⟩ := ih htail (List.cons.inj hnext).2
          exact ⟨congrArg _ hrest, hclosed⟩

/-- Codes that are told apart, one after another, up to a character that begins none. -/
theorem flatMap_inj {code : α → List Char} {close : Char}
    (hcode : ∀ a b rest rest', code a ++ rest = code b ++ rest' → a = b ∧ rest = rest')
    (hclose : ∀ a rest rest', code a ++ rest ≠ close :: rest') {l l' : List α}
    (h : l.flatMap code ++ close :: rest = l'.flatMap code ++ close :: rest') :
    l = l' ∧ rest = rest' := by
  induction l generalizing l' with
  | nil =>
    cases l' with
    | nil => exact ⟨rfl, (List.cons.inj h).2⟩
    | cons b l' =>
      rw [List.flatMap_cons, List.append_assoc] at h
      exact absurd h.symm (hclose b _ _)
  | cons a l ih =>
    rw [List.flatMap_cons, List.append_assoc] at h
    cases l' with
    | nil => exact absurd h (hclose a _ _)
    | cons b l' =>
      rw [List.flatMap_cons, List.append_assoc] at h
      obtain ⟨hab, hnext⟩ := hcode a b _ _ h
      obtain ⟨htail, hrest⟩ := ih hnext
      exact ⟨by rw [hab, htail], hrest⟩

/-- Texts of some characters, in front of others. -/
theorem append_inj_of_forall {p : Char → Bool} {xs ys : List Char} (hxs : ∀ c ∈ xs, p c = true)
    (hys : ∀ c ∈ ys, p c = true) (hrest : StopsAt (p · = false) rest)
    (hrest' : StopsAt (p · = false) rest') (h : xs ++ rest = ys ++ rest') :
    xs = ys ∧ rest = rest' := by
  have hnone {rest : List Char} (hrest : StopsAt (p · = false) rest) : rest.takeWhile p = [] := by
    cases rest with
    | nil => rfl
    | cons c rest => rw [List.takeWhile_cons, stopsAt_cons.mp hrest, if_neg Bool.false_ne_true]
  have hread := congrArg (List.takeWhile p) h
  rw [List.takeWhile_append_of_pos hxs, List.takeWhile_append_of_pos hys, hnone hrest, hnone hrest',
    List.append_nil, List.append_nil] at hread
  rw [hread] at h
  exact ⟨hread, List.append_cancel_left h⟩

end SorobanPulse.Lib
