import Mathlib

/-! A read-through cache over something that does not change.

        request ──▶ key ─┬─ none             compute
                         ├─ some k, cached   the entry
                         └─ some k, absent   compute, and keep the result if it may be kept

    An entry may go at any time. The answers are those that computing would give exactly when requests
    of one key have one result, as far as it is kept: `answersFresh_iff`. -/

namespace SorobanPulse.Lib.ReadThrough

variable {π κ ρ : Type*} [DecidableEq κ] {key : π → Option κ} {compute : π → ρ} {keep : ρ → Bool}

abbrev Cache (κ ρ : Type*) := κ → Option ρ

/-- One request: its answer, and the cache then. -/
def serve (key : π → Option κ) (compute : π → ρ) (keep : ρ → Bool) (cache : Cache κ ρ) (p : π) :
    ρ × Cache κ ρ :=
  match key p with
  | none => (compute p, cache)
  | some k =>
    match cache k with
    | some r => (r, cache)
    | none =>
      (compute p, if keep (compute p) then Function.update cache k (some (compute p)) else cache)

/-- Answers to the requests of a history; between two of them an entry may go. -/
inductive Serves (key : π → Option κ) (compute : π → ρ) (keep : ρ → Bool) :
    Cache κ ρ → List π → List ρ → Prop
  | nil (cache : Cache κ ρ) : Serves key compute keep cache [] []
  | evict {cache : Cache κ ρ} {ps : List π} {rs : List ρ} (k : κ) :
    Serves key compute keep (Function.update cache k none) ps rs → Serves key compute keep cache ps rs
  | request {cache : Cache κ ρ} {p : π} {ps : List π} {rs : List ρ} :
    Serves key compute keep (serve key compute keep cache p).2 ps rs →
      Serves key compute keep cache (p :: ps) ((serve key compute keep cache p).1 :: rs)

def empty : Cache κ ρ := fun _ => none

/-- Whatever goes, the answers are the computed ones. -/
def AnswersFresh (key : π → Option κ) (compute : π → ρ) (keep : ρ → Bool) (ps : List π) : Prop :=
  ∀ rs, Serves key compute keep empty ps rs → rs = ps.map compute

/-- What is kept for the one is right for the other. -/
def Agree (key : π → Option κ) (compute : π → ρ) (keep : ρ → Bool) (p q : π) : Prop :=
  ∀ k, key p = some k → key q = some k → keep (compute p) = true → compute q = compute p

/-- The entries are right for the requests to come. -/
def Right (key : π → Option κ) (compute : π → ρ) (cache : Cache κ ρ) (ps : List π) : Prop :=
  ∀ k r, cache k = some r → ∀ p ∈ ps, key p = some k → compute p = r

section
variable {cache : Cache κ ρ} {p q : π} {ps : List π} {rs : List ρ} {k : κ} {r : ρ}

/-! ### One request -/

theorem right_evict (h : Right key compute cache ps) :
    Right key compute (Function.update cache k none) ps := by
  intro k' r hr
  rw [Function.update_apply] at hr
  split at hr
  · cases hr
  · exact h k' r hr

/-- With a right cache the answer is the computed one. -/
theorem serve_fst (h : Right key compute cache (p :: ps)) :
    (serve key compute keep cache p).1 = compute p := by
  rw [serve]
  split
  · rfl
  · next k hk =>
    split
    · next r hr => exact (h k r hr p List.mem_cons_self hk).symm
    · rfl

/-- A request leaves the cache right, if those to come agree with it. -/
theorem right_serve (h : Right key compute cache (p :: ps))
    (hagree : ∀ q ∈ ps, Agree key compute keep p q) :
    Right key compute (serve key compute keep cache p).2 ps := by
  have htail : Right key compute cache ps := fun k r hr q hq => h k r hr q (List.mem_cons_of_mem _ hq)
  rw [serve]
  split
  · exact htail
  · next k hk =>
    split
    · exact htail
    · split
      · next hkeep =>
        intro k' r hr q hq hkey
        dsimp only at hr
        rw [Function.update_apply] at hr
        split at hr
        · next heq =>
          subst heq
          rw [← Option.some.inj hr]
          exact hagree q hq k' hk hkey hkeep
        · exact htail k' r hr q hq hkey
      · exact htail

/-- An entry stays. -/
theorem serve_snd_of_some (h : cache k = some r) : (serve key compute keep cache p).2 k = some r := by
  rw [serve]
  split
  · exact h
  · next k' hk' =>
    split
    · exact h
    · next hnone =>
      split
      · dsimp only
        rw [Function.update_of_ne, h]
        rintro rfl
        rw [h] at hnone
        cases hnone
      · exact h

/-- What may be kept is there after the request. -/
theorem serve_snd_self (hkey : key p = some k) (hkeep : keep (compute p) = true) :
    (serve key compute keep empty p).2 k = some (compute p) := by
  simp [serve, hkey, hkeep, empty]

theorem evict_serve_empty (hkey : key p = some k) :
    Function.update (serve key compute keep empty p).2 k none = empty := by
  rw [serve, hkey]
  simp only [empty]
  split
  · rw [Function.update_idem]
    exact Function.update_eq_self k _
  · exact Function.update_eq_self k _

/-! ### Histories -/

theorem Serves.fresh (hserves : Serves key compute keep cache ps rs)
    (hright : Right key compute cache ps) (hps : ps.Pairwise (Agree key compute keep)) :
    rs = ps.map compute := by
  induction hserves with
  | nil => rfl
  | evict k _ ih => exact ih (right_evict hright) hps
  | request _ ih =>
    rw [List.pairwise_cons] at hps
    rw [serve_fst hright, ih (right_serve hright hps.1) hps.2, List.map_cons]

/-- The answers when no entry goes. -/
def answers (key : π → Option κ) (compute : π → ρ) (keep : ρ → Bool) :
    Cache κ ρ → List π → List ρ
  | _, [] => []
  | cache, p :: ps =>
    let served := serve key compute keep cache p
    served.1 :: answers key compute keep served.2 ps

theorem serves_answers (cache : Cache κ ρ) (ps : List π) :
    Serves key compute keep cache ps (answers key compute keep cache ps) := by
  induction ps generalizing cache with
  | nil => exact .nil cache
  | cons p ps ih => exact .request (ih _)

/-- An entry that stays is the answer to all requests of its key. -/
theorem eq_of_answers (hk : cache k = some r)
    (h : answers key compute keep cache ps = ps.map compute) (hq : q ∈ ps) (hkey : key q = some k) :
    compute q = r := by
  induction ps generalizing cache with
  | nil => cases hq
  | cons p ps ih =>
    rw [answers, List.map_cons, List.cons.injEq] at h
    rcases List.mem_cons.mp hq with rfl | hq
    · rw [← h.1, serve, hkey]
      simp [hk]
    · exact ih (serve_snd_of_some hk) h.2 hq

/-- The answers are the computed ones, whatever goes, exactly when earlier requests agree with later
    ones. -/
theorem answersFresh_iff :
    AnswersFresh key compute keep ps ↔ ps.Pairwise (Agree key compute keep) := by
  constructor
  · intro h
    induction ps with
    | nil => exact .nil
    | cons p ps ih =>
      refine List.pairwise_cons.mpr ⟨fun q hq k hp hkey hkeep => ?_, ih fun rs hrs => ?_⟩
      · have hall := h _ (.request (serves_answers _ ps))
        exact eq_of_answers (serve_snd_self hp hkeep) (List.cons.inj hall).2 hq hkey
      · have hall (hserves : Serves key compute keep (serve key compute keep empty p).2 ps rs) :
            rs = ps.map compute :=
          (List.cons.inj (h _ (.request hserves))).2
        cases hp : key p with
        | none =>
          refine hall ?_
          rw [serve, hp]
          exact hrs
        | some k =>
          refine hall (.evict k ?_)
          rw [evict_serve_empty hp]
          exact hrs
  · intro h rs hrs
    exact hrs.fresh (fun _ _ hr => (by cases hr)) h

end

end SorobanPulse.Lib.ReadThrough
