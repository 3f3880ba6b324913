import SorobanPulse.Filter.Compilation

/-! The optimiser brings an expression into normal form.

        and [and [a, b], or [c], not (not (and [d]))]   ──▶   and [a, b, c, d]

    A rewritten child may be anything: an `and` that its parent splices, a node unwrapped from a
    single child, an expression freed of two negations. What is known of it is that it is in normal
    form itself, and that is all a parent needs. -/

namespace SorobanPulse.Filter

/-- The expression occurs in another, at any depth. -/
inductive Within (e : DslExpr) : DslExpr → Prop
  | self : Within e e
  | and {f : DslExpr} {filters : List DslExpr} : f ∈ filters → Within e f → Within e (.and filters)
  | or {f : DslExpr} {filters : List DslExpr} : f ∈ filters → Within e f → Within e (.or filters)
  | not {filter : DslExpr} : Within e filter → Within e (.not filter)

/-- The optimiser has nothing to do at the root. -/
def Settled : DslExpr → Prop
  | .and filters => filters.length ≠ 1 ∧ ∀ f ∈ filters, ∀ inner, f ≠ .and inner
  | .or filters => filters.length ≠ 1 ∧ ∀ f ∈ filters, ∀ inner, f ≠ .or inner
  | .not filter => ∀ inner, filter ≠ .not inner
  | _ => True

/-- Nor anywhere else. -/
def NormalForm (e : DslExpr) : Prop := ∀ f, Within f e → Settled f

mutual
/-- The comparisons of an expression, from left to right. -/
def DslExpr.leaves : DslExpr → List DslExpr
  | .and filters | .or filters => leavesList filters
  | .not filter => filter.leaves
  | leaf => [leaf]

def leavesList : List DslExpr → List DslExpr
  | [] => []
  | f :: rest => f.leaves ++ leavesList rest
end

theorem leavesList_eq_flatMap (filters : List DslExpr) :
    leavesList filters = filters.flatMap DslExpr.leaves := by
  induction filters with
  | nil => rfl
  | cons f rest ih => rw [leavesList, ih, List.flatMap_cons]

/-! ### Normal form, node by node -/

theorem NormalForm.settled {e : DslExpr} (h : NormalForm e) : Settled e := h e .self

theorem normalForm_and {filters : List DslExpr} :
    NormalForm (.and filters) ↔ Settled (.and filters) ∧ ∀ f ∈ filters, NormalForm f := by
  constructor
  · intro h
    exact ⟨h.settled, fun f hf g hg => h g (.and hf hg)⟩
  · rintro ⟨hroot, hfilters⟩ g hg
    cases hg with
    | self => exact hroot
    | and hf hg => exact hfilters _ hf g hg

theorem normalForm_or {filters : List DslExpr} :
    NormalForm (.or filters) ↔ Settled (.or filters) ∧ ∀ f ∈ filters, NormalForm f := by
  constructor
  · intro h
    exact ⟨h.settled, fun f hf g hg => h g (.or hf hg)⟩
  · rintro ⟨hroot, hfilters⟩ g hg
    cases hg with
    | self => exact hroot
    | or hf hg => exact hfilters _ hf g hg

theorem normalForm_not {filter : DslExpr} :
    NormalForm (.not filter) ↔ Settled (.not filter) ∧ NormalForm filter := by
  constructor
  · intro h
    exact ⟨h.settled, fun g hg => h g (.not hg)⟩
  · rintro ⟨hroot, hfilter⟩ g hg
    cases hg with
    | self => exact hroot
    | not hg => exact hfilter g hg

/-! ### What is spliced -/

/-- An `and` in normal form has no `and` below it, so neither has what is spliced from it. -/
theorem normalForm_of_mem_spliceAnd {f g : DslExpr} (h : NormalForm f) (hg : g ∈ spliceAnd f) :
    NormalForm g ∧ ∀ inner, g ≠ .and inner := by
  cases f with
  | and inner =>
    obtain ⟨hroot, hinner⟩ := normalForm_and.mp h
    exact ⟨hinner g hg, hroot.2 g hg⟩
  | _ =>
    obtain rfl := List.mem_singleton.mp hg
    exact ⟨h, fun _ => DslExpr.noConfusion⟩

theorem normalForm_of_mem_spliceOr {f g : DslExpr} (h : NormalForm f) (hg : g ∈ spliceOr f) :
    NormalForm g ∧ ∀ inner, g ≠ .or inner := by
  cases f with
  | or inner =>
    obtain ⟨hroot, hinner⟩ := normalForm_or.mp h
    exact ⟨hinner g hg, hroot.2 g hg⟩
  | _ =>
    obtain rfl := List.mem_singleton.mp hg
    exact ⟨h, fun _ => DslExpr.noConfusion⟩

theorem leaves_spliceAnd (f : DslExpr) : leavesList (spliceAnd f) = f.leaves := by
  cases f with
  | and inner => rfl
  | _ => exact List.append_nil _

theorem leaves_spliceOr (f : DslExpr) : leavesList (spliceOr f) = f.leaves := by
  cases f with
  | or inner => rfl
  | _ => exact List.append_nil _

section
variable {splice : DslExpr → List DslExpr} {filters : List DslExpr}

/-- What holds of all that is spliced from an optimised child holds of the children of the node. -/
theorem forall_mem_flatMap_optimizeChildren {P : DslExpr → Prop}
    (hsplice : ∀ f g, NormalForm f → g ∈ splice f → P g)
    (h : ∀ f ∈ filters, NormalForm (optimizeDsl f)) :
    ∀ g ∈ (optimizeChildren filters).flatMap splice, P g := by
  intro g hg
  rw [optimizeChildren_eq_map] at hg
  obtain ⟨f', hf', hg⟩ := List.mem_flatMap.mp hg
  obtain ⟨f, hf, rfl⟩ := List.mem_map.mp hf'
  exact hsplice _ g (h f hf) hg

/-- Neither optimising nor splicing the children touches a leaf. -/
theorem leaves_flatMap_optimizeChildren (hsplice : ∀ f, leavesList (splice f) = f.leaves)
    (h : ∀ f ∈ filters, (optimizeDsl f).leaves = f.leaves) :
    leavesList ((optimizeChildren filters).flatMap splice) = leavesList filters := by
  induction filters with
  | nil => rfl
  | cons f rest ih =>
    have hrest := ih fun g hg => h g (List.mem_cons_of_mem _ hg)
    rw [leavesList_eq_flatMap] at hrest
    rw [optimizeChildren, List.flatMap_cons, leavesList_eq_flatMap, List.flatMap_append, hrest,
      ← leavesList_eq_flatMap, hsplice, h f List.mem_cons_self, leavesList]

/-- Children in normal form, of another kind than their parent, are left as they are. -/
theorem flatMap_optimizeChildren_eq_self (hsplice : ∀ f ∈ filters, splice f = [f])
    (h : ∀ f ∈ filters, optimizeDsl f = f) : (optimizeChildren filters).flatMap splice = filters := by
  induction filters with
  | nil => rfl
  | cons f rest ih =>
    have hrest := ih (fun g hg => hsplice g (List.mem_cons_of_mem _ hg))
      fun g hg => h g (List.mem_cons_of_mem _ hg)
    rw [optimizeChildren, List.flatMap_cons, h f List.mem_cons_self,
      hsplice f List.mem_cons_self, hrest, List.singleton_append]

end

theorem spliceAnd_eq_self {f : DslExpr} (h : ∀ inner, f ≠ .and inner) : spliceAnd f = [f] := by
  cases f with
  | and inner => exact absurd rfl (h inner)
  | _ => rfl

theorem spliceOr_eq_self {f : DslExpr} (h : ∀ inner, f ≠ .or inner) : spliceOr f = [f] := by
  cases f with
  | or inner => exact absurd rfl (h inner)
  | _ => rfl

/-! ### The optimiser -/

theorem normalForm_optimizeDsl (e : DslExpr) : NormalForm (optimizeDsl e) := by
  induction e using DslExpr.induct with
  | and filters ih =>
    have hflat := forall_mem_flatMap_optimizeChildren
      (fun _ _ => normalForm_of_mem_spliceAnd) ih
    rw [optimizeDsl]
    split
    · -- one filter is left, and it takes the place of the group
      next f hf => exact (hflat f (hf ▸ List.mem_singleton_self f)).1
    · -- two or more, or none
      next hlen =>
      refine normalForm_and.mpr ⟨⟨?_, fun f hf => (hflat f hf).2⟩, fun f hf => (hflat f hf).1⟩
      intro hone
      obtain ⟨f, hf⟩ := List.length_eq_one_iff.mp hone
      exact hlen f hf
  | or filters ih =>
    have hflat := forall_mem_flatMap_optimizeChildren
      (fun _ _ => normalForm_of_mem_spliceOr) ih
    rw [optimizeDsl]
    split
    · next f hf => exact (hflat f (hf ▸ List.mem_singleton_self f)).1
    · next hlen =>
      refine normalForm_or.mpr ⟨⟨?_, fun f hf => (hflat f hf).2⟩, fun f hf => (hflat f hf).1⟩
      intro hone
      obtain ⟨f, hf⟩ := List.length_eq_one_iff.mp hone
      exact hlen f hf
  | not filter ih =>
    rw [optimizeDsl]
    split
    · -- a double negation
      next inner hinner =>
      rw [hinner] at ih
      exact (normalForm_not.mp ih).2
    · next hnot => exact normalForm_not.mpr ⟨hnot, ih⟩
  | _ =>
    intro f hf
    cases hf
    trivial

theorem optimizeDsl_of_normalForm (e : DslExpr) : NormalForm e → optimizeDsl e = e := by
  induction e using DslExpr.induct with
  | and filters ih =>
    intro h
    obtain ⟨⟨hlen, hkind⟩, hfilters⟩ := normalForm_and.mp h
    rw [optimizeDsl, flatMap_optimizeChildren_eq_self
      (fun f hf => spliceAnd_eq_self (hkind f hf)) fun f hf => ih f hf (hfilters f hf)]
    split
    · exact absurd rfl hlen
    · rfl
  | or filters ih =>
    intro h
    obtain ⟨⟨hlen, hkind⟩, hfilters⟩ := normalForm_or.mp h
    rw [optimizeDsl, flatMap_optimizeChildren_eq_self
      (fun f hf => spliceOr_eq_self (hkind f hf)) fun f hf => ih f hf (hfilters f hf)]
    split
    · exact absurd rfl hlen
    · rfl
  | not filter ih =>
    intro h
    obtain ⟨hroot, hfilter⟩ := normalForm_not.mp h
    rw [optimizeDsl, ih hfilter]
    split
    · next inner => exact absurd rfl (hroot inner)
    · rfl
  | _ => exact fun _ => rfl

theorem leaves_optimizeDsl (e : DslExpr) : (optimizeDsl e).leaves = e.leaves := by
  induction e using DslExpr.induct with
  | and filters ih =>
    have hflat := leaves_flatMap_optimizeChildren leaves_spliceAnd ih
    rw [optimizeDsl, DslExpr.leaves, ← hflat]
    split
    · next f hf => rw [hf, leavesList, leavesList, List.append_nil]
    · rfl
  | or filters ih =>
    have hflat := leaves_flatMap_optimizeChildren leaves_spliceOr ih
    rw [optimizeDsl, DslExpr.leaves, ← hflat]
    split
    · next f hf => rw [hf, leavesList, leavesList, List.append_nil]
    · rfl
  | not filter ih =>
    rw [optimizeDsl, DslExpr.leaves, ← ih]
    split
    · next inner hinner => rw [hinner, DslExpr.leaves]
    · rfl
  | _ => rfl

/-- A normal form, reached in one go, no higher than the expression and with the same leaves. -/
theorem optimizeDsl_normalises (e : DslExpr) :
    NormalForm (optimizeDsl e) ∧ optimizeDsl (optimizeDsl e) = optimizeDsl e ∧
      (optimizeDsl e).height ≤ e.height ∧
      ((optimizeDsl e).leaves : Multiset DslExpr) = (e.leaves : Multiset DslExpr) :=
  ⟨normalForm_optimizeDsl e, optimizeDsl_of_normalForm _ (normalForm_optimizeDsl e),
    height_optimizeDsl e, congrArg _ (leaves_optimizeDsl e)⟩

end SorobanPulse.Filter
