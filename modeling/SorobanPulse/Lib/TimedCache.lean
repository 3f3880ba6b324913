import Mathlib.Algebra.Order.Ring.Int
import Mathlib.Logic.Function.Basic
import SorobanPulse.Lib.Run

/-! A cache whose entries last for a while, over a store that changes, with many requests at once.

        request ─┬─ an entry that lasts ───────────────────────────────▶ answer
                 ├─ none ──▶ under way ──compute──▶ computed ──insert──▶ answer
                 │              │ fails                │ dropped
                 └─ refused     └──────────▶ over ◀────┘

    A computation reads the store as it is then; the entry and the answer come later. Every answer
    is what a request of its key computed, from a store there was, and was put into the cache less
    than `ttl` before the request: `answered`. -/

namespace SorobanPulse.Lib.TimedCache

/-- Requests `π` of keys `κ` and results `ρ`, computed from a store `σ` and a moment `ε`. -/
structure Spec (π κ σ ε ρ : Type*) where
  key : π → κ
  accepts : π → Bool
  compute : σ → ε → π → Option ρ
  ttl : ℤ
  ttl_pos : 0 < ttl

inductive Stage (ρ : Type*) where
  | underWay
  | computed (result : ρ)
  | over

/-- A request that computes, and from what. -/
structure Fill (π σ ε : Type*) where
  request : π
  store : σ
  moment : ε

structure Answer (π ρ : Type*) where
  request : π
  result : ρ
  now : ℤ

/-- `stores`, `computations` and `inserts` are what there was. -/
structure State (π κ σ ε ρ : Type*) where
  store : σ
  cache : κ → Option (ρ × ℤ) := fun _ => none
  flights : List (π × Stage ρ) := []
  answers : List (Answer π ρ) := []
  stores : List σ
  computations : List (Fill π σ ε × ρ) := []
  inserts : List (κ × ρ × ℤ) := []

inductive Action (π σ ε : Type*) where
  | write (store : σ)
  | request (p : π) (now : ℤ)
  | compute (flight : ℕ) (moment : ε)
  | insert (flight : ℕ) (now : ℤ)
  | drop (flight : ℕ)

section
variable {π κ σ ε ρ : Type*} (spec : Spec π κ σ ε ρ)

/-- The entry, if it lasts. -/
def State.lookup (s : State π κ σ ε ρ) (p : π) (now : ℤ) : Option ρ :=
  (s.cache (spec.key p)).bind fun entry => if now < entry.2 then some entry.1 else none

def State.start (store : σ) : State π κ σ ε ρ := { store, stores := [store] }

def step [DecidableEq κ] (s : State π κ σ ε ρ) : Action π σ ε → Option (State π κ σ ε ρ)
  | .write store => some { s with store, stores := store :: s.stores }
  | .request p now =>
    if spec.accepts p then
      match s.lookup spec p now with
      | some result => some { s with answers := ⟨p, result, now⟩ :: s.answers }
      | none => some { s with flights := s.flights ++ [(p, .underWay)] }
    else some s
  | .compute flight moment =>
    match s.flights[flight]? with
    | some (p, .underWay) =>
      match spec.compute s.store moment p with
      | some result => some { s with
          flights := s.flights.set flight (p, .computed result)
          computations := (⟨p, s.store, moment⟩, result) :: s.computations }
      | none => some { s with flights := s.flights.set flight (p, .over) }
    | _ => none
  | .insert flight now =>
    match s.flights[flight]? with
    | some (p, .computed result) => some { s with
        cache := Function.update s.cache (spec.key p) (some (result, now + spec.ttl))
        flights := s.flights.set flight (p, .over)
        answers := ⟨p, result, now⟩ :: s.answers
        inserts := (spec.key p, result, now) :: s.inserts }
    | _ => none
  | .drop flight =>
    match s.flights[flight]? with
    | some (p, _) => some { s with flights := s.flights.set flight (p, .over) }
    | none => none

/-- A request of the key computed the result, from a store there was. -/
def State.Computed (s : State π κ σ ε ρ) (k : κ) (result : ρ) : Prop :=
  ∃ fill, (fill, result) ∈ s.computations ∧ spec.key fill.request = k ∧ fill.store ∈ s.stores ∧
    spec.compute fill.store fill.moment fill.request = some result

/-- The answer is an insertion of the key of an accepted request, and still lasts. -/
def State.Answered (s : State π κ σ ε ρ) (a : Answer π ρ) : Prop :=
  spec.accepts a.request = true ∧ ∃ insertedAt, (spec.key a.request, a.result, insertedAt) ∈ s.inserts ∧
    a.now < insertedAt + spec.ttl

structure Inv (s : State π κ σ ε ρ) : Prop where
  current : s.store ∈ s.stores
  accepted : ∀ flight ∈ s.flights, spec.accepts flight.1 = true
  flights : ∀ p result, (p, Stage.computed result) ∈ s.flights → s.Computed spec (spec.key p) result
  inserts : ∀ k result now, (k, result, now) ∈ s.inserts → s.Computed spec k result
  cache : ∀ k result expiresAt, s.cache k = some (result, expiresAt) →
    ∃ insertedAt, (k, result, insertedAt) ∈ s.inserts ∧ expiresAt = insertedAt + spec.ttl
  answers : ∀ a ∈ s.answers, s.Answered spec a

end

section
variable {π κ σ ε ρ : Type*} {spec : Spec π κ σ ε ρ} {s t : State π κ σ ε ρ}

theorem inv_start (store : σ) : Inv spec (.start store) := by
  refine ⟨List.mem_singleton_self store, ?_, ?_, ?_, ?_, ?_⟩ <;> simp [State.start]

/-- What was computed stays so. -/
theorem State.Computed.mono {k : κ} {result : ρ} (h : s.Computed spec k result)
    (hcomputations : s.computations ⊆ t.computations) (hstores : s.stores ⊆ t.stores) :
    t.Computed spec k result := by
  obtain ⟨fill, hmem, hkey, hstore, hcompute⟩ := h
  exact ⟨fill, hcomputations hmem, hkey, hstores hstore, hcompute⟩

theorem Inv.accepted_set (h : Inv spec s) {flight : ℕ} {p : π} {before after : Stage ρ}
    (hflight : s.flights[flight]? = some (p, before)) :
    ∀ f ∈ s.flights.set flight (p, after), spec.accepts f.1 = true := by
  intro f hmem
  rcases List.mem_or_eq_of_mem_set hmem with hold | rfl
  · exact h.accepted f hold
  · exact h.accepted (p, before) (List.mem_of_getElem? hflight)

/-- A flight that ends. -/
theorem computed_of_mem_set {flight : ℕ} {p q : π} {result : ρ} {stage : Stage ρ}
    (hstage : ∀ result, stage ≠ .computed result)
    (hmem : (q, Stage.computed result) ∈ s.flights.set flight (p, stage)) :
    (q, Stage.computed result) ∈ s.flights := by
  rcases List.mem_or_eq_of_mem_set hmem with hold | heq
  · exact hold
  · exact absurd (Prod.mk.inj heq).2.symm (hstage result)

variable [DecidableEq κ] {action : Action π σ ε} {actions : List (Action π σ ε)}

theorem Inv.step (h : Inv spec s) (hstep : step spec s action = some t) : Inv spec t := by
  cases action with
  | write store =>
    cases hstep
    -- what was computed from an earlier store stays computed
    have hmono : ∀ k result, s.Computed spec k result → State.Computed spec
        { s with store, stores := store :: s.stores } k result := fun k result hcomputed =>
      hcomputed.mono (List.Subset.refl _) (List.subset_cons_self _ _)
    exact ⟨List.mem_cons_self, h.accepted,
      fun p result hmem => hmono _ _ (h.flights p result hmem),
      fun k result now hmem => hmono _ _ (h.inserts k result now hmem), h.cache, h.answers⟩
  | request p now =>
    rw [TimedCache.step] at hstep
    split at hstep
    · next haccepts =>
      split at hstep <;> cases hstep
      · next result hlookup =>
        obtain ⟨⟨cached, expiresAt⟩, hcache, hlasts⟩ := Option.bind_eq_some_iff.mp hlookup
        rw [Option.ite_none_right_eq_some] at hlasts
        obtain ⟨hnow, hresult⟩ := hlasts
        cases hresult
        -- a hit is as old as its insertion, and no older
        obtain ⟨insertedAt, hinserted, hexpires⟩ := h.cache _ _ _ hcache
        refine ⟨h.current, h.accepted, h.flights, h.inserts, h.cache, ?_⟩
        rw [List.forall_mem_cons]
        exact ⟨⟨haccepts, insertedAt, hinserted, hexpires ▸ hnow⟩, h.answers⟩
      · -- a miss opens a flight that has computed nothing yet
        refine ⟨h.current, ?_, ?_, h.inserts, h.cache, h.answers⟩
        · rw [List.forall_mem_append, List.forall_mem_singleton]
          exact ⟨h.accepted, haccepts⟩
        · intro q result hmem
          rcases List.mem_append.mp hmem with hold | hnew
          · exact h.flights q result hold
          · cases List.mem_singleton.mp hnew
    · cases hstep
      exact h
  | compute flight moment =>
    rw [TimedCache.step] at hstep
    split at hstep
    · next p hflight =>
      split at hstep <;> cases hstep
      · next result hcompute =>
        have hmono : ∀ k other, s.Computed spec k other → State.Computed spec
            { s with
              flights := s.flights.set flight (p, .computed result)
              computations := (⟨p, s.store, moment⟩, result) :: s.computations } k other :=
          fun k other hcomputed =>
            hcomputed.mono (List.subset_cons_self _ _) (List.Subset.refl _)
        -- the flight's result is that of the present store
        refine ⟨h.current, h.accepted_set hflight, ?_,
          fun k other now hmem => hmono _ _ (h.inserts k other now hmem), h.cache, h.answers⟩
        intro q other hmem
        rcases List.mem_or_eq_of_mem_set hmem with hold | heq
        · exact hmono _ _ (h.flights q other hold)
        · cases heq
          exact ⟨⟨p, s.store, moment⟩, List.mem_cons_self, rfl, h.current, hcompute⟩
      · refine ⟨h.current, h.accepted_set hflight, ?_, h.inserts, h.cache, h.answers⟩
        intro q result hmem
        exact h.flights q result (computed_of_mem_set (by simp) hmem)
    · cases hstep
  | insert flight now =>
    rw [TimedCache.step] at hstep
    split at hstep <;> cases hstep
    next p result hflight =>
    have hmem := List.mem_of_getElem? hflight
    have hcomputed := h.flights p result hmem
    refine ⟨h.current, h.accepted_set hflight, ?_, ?_, ?_, ?_⟩
    · intro q other hmem
      exact h.flights q other (computed_of_mem_set (by simp) hmem)
    · intro k other now' hmem
      rcases List.mem_cons.mp hmem with heq | hold
      · cases heq
        exact hcomputed
      · exact h.inserts k other now' hold
    · intro k other expiresAt hcache
      dsimp only at hcache  -- the one overwritten entry expires a ttl after now
      rw [Function.update_apply] at hcache
      split at hcache
      · next heq =>
        cases hcache
        exact ⟨now, heq ▸ List.mem_cons_self, rfl⟩
      · obtain ⟨insertedAt, hinserted, hexpires⟩ := h.cache k other expiresAt hcache
        exact ⟨insertedAt, List.mem_cons_of_mem _ hinserted, hexpires⟩
    · rw [List.forall_mem_cons]
      -- the flight answers with what it has just inserted
      refine ⟨⟨h.accepted _ hmem, now, List.mem_cons_self, by simpa using spec.ttl_pos⟩, ?_⟩
      intro a ha
      obtain ⟨haccepts, insertedAt, hinserted, hlasts⟩ := h.answers a ha
      exact ⟨haccepts, insertedAt, List.mem_cons_of_mem _ hinserted, hlasts⟩
  | drop flight =>
    rw [TimedCache.step] at hstep
    split at hstep <;> cases hstep
    next p stage hflight =>
    refine ⟨h.current, h.accepted_set hflight, ?_, h.inserts, h.cache, h.answers⟩
    intro q result hmem
    exact h.flights q result (computed_of_mem_set (by simp) hmem)

/-- Every answer was computed by a request of its key, from a store there was, and inserted less
    than `ttl` before. -/
theorem answered {store : σ} (hrun : AnyRun (step spec) (.start store) actions s) :
    ∀ a ∈ s.answers, s.Computed spec (spec.key a.request) a.result ∧ s.Answered spec a := by
  have hinv := hrun.invariant (fun _ hstep h => h.step hstep) (inv_start store)
  intro a ha
  obtain ⟨haccepts, insertedAt, hinserted, hlasts⟩ := hinv.answers a ha
  exact ⟨hinv.inserts _ _ _ hinserted, haccepts, insertedAt, hinserted, hlasts⟩

end

end SorobanPulse.Lib.TimedCache
