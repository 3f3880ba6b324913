import Mathlib.Data.List.Basic

/-! Runs of a partial step function.

    A system is a state type, a label type and `step : σ → α → Option σ` (`none`: the label is not
    enabled). `Run step P s as u` is a finite run from `s` to `u` along `as` in which every step
    satisfies `P` at the state it leaves; `P := fun _ _ => True` gives all runs. Safety is proved once,
    by `Run.invariant`: what every step preserves holds wherever a run arrives. Two runs are compared
    by `Run.purge`, which leaves out the steps that the other one does not take. -/

namespace SorobanPulse.Lib

variable {σ α : Type*} {step : σ → α → Option σ} {P : σ → α → Prop}

/-- Finite runs whose every step is enabled and satisfies `P`. -/
inductive Run (step : σ → α → Option σ) (P : σ → α → Prop) : σ → List α → σ → Prop
  | nil (s : σ) : Run step P s [] s
  | cons {s t u : σ} {a : α} {as : List α} :
      P s a → step s a = some t → Run step P t as u → Run step P s (a :: as) u

/-- All runs, without a condition on their steps. -/
abbrev AnyRun (step : σ → α → Option σ) : σ → List α → σ → Prop := Run step fun _ _ => True

/-- Executing a list of labels; `none` as soon as one of them is not enabled. -/
def exec (step : σ → α → Option σ) : σ → List α → Option σ
  | s, [] => some s
  | s, a :: as => (step s a).bind fun t => exec step t as

/-- What every step preserves holds at the end of a run. -/
theorem Run.invariant {Inv : σ → Prop}
    (hstep : ∀ {s a t}, P s a → step s a = some t → Inv s → Inv t)
    {s u : σ} {as : List α} (hrun : Run step P s as u) (h0 : Inv s) : Inv u := by
  induction hrun with
  | nil _ => exact h0
  | cons hP hs _ ih => exact ih (hstep hP hs h0)

/-- An invariant with a counter, which goes up with the labels of one kind. -/
theorem Run.countP_invariant {Inv : ℕ → σ → Prop} (p : α → Bool)
    (hstep : ∀ {n s a t}, P s a → step s a = some t → Inv n s → Inv (n + if p a then 1 else 0) t)
    {n : ℕ} {s u : σ} {as : List α} (hrun : Run step P s as u) (h0 : Inv n s) :
    Inv (n + as.countP p) u := by
  induction hrun generalizing n with
  | nil _ => exact h0
  | @cons _ _ _ a as hP hs _ ih =>
    have htail := ih (hstep hP hs h0)
    rwa [Nat.add_assoc, Nat.add_comm (ite _ _ _), ← List.countP_cons] at htail

theorem Run.append {s t u : σ} {as bs : List α} (h₁ : Run step P s as t) (h₂ : Run step P t bs u) :
    Run step P s (as ++ bs) u := by
  induction h₁ with
  | nil _ => exact h₂
  | cons hP hs _ ih => exact .cons hP hs (ih h₂)

/-- A condition on the labels alone. -/
theorem AnyRun.of_forall {s u : σ} {as : List α} (hP : ∀ a ∈ as, ∀ s, P s a)
    (hrun : AnyRun step s as u) : Run step P s as u := by
  induction hrun with
  | nil s => exact .nil s
  | cons _ hs _ ih =>
    have htail := ih fun a ha => hP a (List.mem_cons_of_mem _ ha)
    exact .cons (hP _ List.mem_cons_self _) hs htail

/-- Every state that a list of labels passes through satisfies `G`. -/
def Throughout (step : σ → α → Option σ) (G : σ → Prop) : σ → List α → Prop
  | s, [] => G s
  | s, a :: as => G s ∧ ∀ t, step s a = some t → Throughout step G t as

theorem Throughout.head {G : σ → Prop} {s : σ} {as : List α} (h : Throughout step G s as) :
    G s := by
  cases as with
  | nil => exact h
  | cons a as => exact h.1

/-- When a step taken from `Inv` ends in `G` only if it satisfies `P`, and `P` keeps `Inv`, a run is
    in `G` throughout exactly if each of its steps satisfies `P`. -/
theorem Run.throughout_iff {Inv G : σ → Prop} (hgood : ∀ {s}, Inv s → G s)
    (hstep : ∀ {s a t}, P s a → step s a = some t → Inv s → Inv t)
    (hback : ∀ {s a t}, step s a = some t → Inv s → G t → P s a)
    {s u : σ} {as : List α} (hrun : AnyRun step s as u) (h0 : Inv s) :
    Throughout step G s as ↔ Run step P s as u := by
  constructor
  · intro hall
    induction hrun with
    | nil s => exact .nil s
    | cons _ hs _ ih =>
      have ht := hall.2 _ hs
      have hP := hback hs h0 ht.head
      exact .cons hP hs (ih (hstep hP hs h0) ht)
  · intro hP
    clear hrun
    induction hP with
    | nil s => exact hgood h0
    | cons hP hs _ ih =>
      refine ⟨hgood h0, ?_⟩
      intro t ht
      cases hs.symm.trans ht
      exact ih (hstep hP hs h0)

/-- When, of the states before and after a step, the latter is in `G` exactly if the former is and
    the step satisfies `P`, a run from `G` ends in `G` exactly if each of its steps satisfies `P`. -/
theorem Run.final_iff {Inv G : σ → Prop}
    (hinv : ∀ {s a t}, step s a = some t → Inv s → Inv t)
    (hstep : ∀ {s a t}, step s a = some t → Inv s → (G t ↔ G s ∧ P s a))
    {s u : σ} {as : List α} (hrun : AnyRun step s as u) (h0 : Inv s) (hG : G s) :
    G u ↔ Run step P s as u := by
  have hback : ∀ {s u as}, AnyRun step s as u → Inv s → G u → G s ∧ Run step P s as u := by
    intro s u as hrun h0 hu
    induction hrun with
    | nil s => exact ⟨hu, .nil s⟩
    | cons _ hs _ ih =>
      obtain ⟨ht, htail⟩ := ih (hinv hs h0) hu
      obtain ⟨hgood, hP⟩ := (hstep hs h0).mp ht
      exact ⟨hgood, .cons hP hs htail⟩
  constructor
  · exact fun hu => (hback hrun h0 hu).2
  · intro hgood
    clear hrun
    induction hgood with
    | nil _ => exact hG
    | cons hP hs _ ih => exact ih (hinv hs h0) ((hstep hs h0).mpr ⟨hG, hP⟩)

/-- Two conditions on steps that mean the same where an invariant of all runs holds. -/
theorem Run.congr {Inv : σ → Prop} {Q : σ → α → Prop}
    (hstep : ∀ {s a t}, step s a = some t → Inv s → Inv t)
    (hiff : ∀ {s a t}, step s a = some t → Inv s → (P s a ↔ Q s a))
    {s u : σ} {as : List α} (h0 : Inv s) : Run step P s as u ↔ Run step Q s as u := by
  constructor
  · intro hrun
    induction hrun with
    | nil s => exact .nil s
    | cons hP hs _ ih => exact .cons ((hiff hs h0).mp hP) hs (ih (hstep hs h0))
  · intro hrun
    induction hrun with
    | nil s => exact .nil s
    | cons hQ hs _ ih => exact .cons ((hiff hs h0).mpr hQ) hs (ih (hstep hs h0))

/-- Leaving out steps. When a hidden step keeps the state related to the one of the other run, and a
    step that is not hidden can be taken by both and relates the states again, then the run without
    the hidden steps ends in a related state. -/
theorem Run.purge {R : σ → σ → Prop} (hidden : α → Bool)
    (hhidden : ∀ {s a t s'}, P s a → hidden a = true → step s a = some t → R s s' → R t s')
    (hshown : ∀ {s a t s'}, P s a → hidden a = false → step s a = some t → R s s' →
      ∃ t', step s' a = some t' ∧ R t t')
    {s u s' : σ} {as : List α} (hrun : Run step P s as u) (hR : R s s') :
    ∃ u', AnyRun step s' (as.filter fun a => !hidden a) u' ∧ R u u' := by
  induction hrun generalizing s' with
  | nil s => exact ⟨s', .nil s', hR⟩
  | @cons s t u a as hP hs _ ih =>
    cases ha : hidden a with
    | true =>
      obtain ⟨u', hrun', hu⟩ := ih (hhidden hP ha hs hR)
      refine ⟨u', ?_, hu⟩
      rwa [List.filter_cons_of_neg (by simp [ha])]
    | false =>
      obtain ⟨t', hs', ht⟩ := hshown hP ha hs hR
      obtain ⟨u', hrun', hu⟩ := ih ht
      refine ⟨u', ?_, hu⟩
      rw [List.filter_cons_of_pos (by simp [ha])]
      exact .cons trivial hs' hrun'

/-- `exec` computes exactly the unconditional runs. -/
theorem anyRun_iff_exec {s u : σ} {as : List α} : AnyRun step s as u ↔ exec step s as = some u := by
  constructor
  · intro h
    induction h with
    | nil s => rfl
    | cons _ hs _ ih => rw [exec, hs]; exact ih
  · induction as generalizing s with
    | nil => rintro ⟨⟩; exact .nil _
    | cons a as ih =>
      intro h
      obtain ⟨t, ht, hu⟩ := Option.bind_eq_some_iff.mp h
      exact .cons trivial ht (ih hu)

theorem exec_append (s : σ) (as bs : List α) :
    exec step s (as ++ bs) = (exec step s as).bind fun t => exec step t bs := by
  induction as generalizing s with
  | nil => rfl
  | cons a as ih =>
    rw [List.cons_append, exec, exec, Option.bind_assoc]
    exact congrArg _ (funext ih)

/-- A list of labels leads to one state. -/
theorem AnyRun.unique {s u v : σ} {as : List α} (hu : AnyRun step s as u)
    (hv : AnyRun step s as v) : u = v := by
  rw [anyRun_iff_exec] at hu hv
  exact Option.some.inj (hu.symm.trans hv)

end SorobanPulse.Lib
