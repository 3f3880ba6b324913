import SorobanPulse.Idempotency.Middleware
import SorobanPulse.Lib.Exclusion

/-! Concurrent POSTs with one path, key and body.

    Between the lookup and the put of a call lies the whole run of its handler:

        waiting ──lookup, miss──▶ handling ──handle──▶ storing ──store──▶ done
           └──────lookup, hit───────────────────────────────────────────▶ done

    The lookup reserves nothing, so two calls may be past it together, and then both run the handler.
    `run_onceWithinTtl`: as long as no call looks up while another is past its lookup, the handler
    runs at most once within the ttl. -/

namespace SorobanPulse.Idempotency
open Lib

inductive Phase where
  | waiting
  /-- The lookup missed. -/
  | handling
  /-- The handler has run and its answer is not stored. -/
  | storing (response : Response)
  | done (response : Response)

/-- Past the lookup and not yet done. -/
def Phase.inFlight : Phase → Prop
  | .handling | .storing _ => True
  | _ => False

structure Retries where
  clock : ℕ
  store : InMemoryStore
  phase : ℕ → Phase
  /-- When the handler's side effect was executed, the latest first. -/
  executions : List ℕ

def Retries.new : Retries := ⟨0, .new, fun _ => .waiting, []⟩

def keyedPost (path rawKey : String) (body : List UInt8) : Request :=
  { method := "POST", path, idempotencyKey := some rawKey, body }

inductive Act where
  | lookup (c now : ℕ)
  | handle (c now : ℕ) (response : Response)
  | store (c now : ℕ)
  | removeExpired (now : ℕ)

def tooLarge : Response := { status := BAD_REQUEST, body := asBytes "request body too large" }

/-- Where a lookup leads; a keyed POST is never passed through. -/
def afterLookup : Lookup → Option Phase
  | .passThrough => none
  | .tooLarge => some (.done tooLarge)
  | .hit cached => some (.done (replay cached))
  | .miss _ => some .handling

section
variable (ttl : ℕ) (path rawKey : String) (body : List UInt8)

/-- One step of one call, or of the sweeper; every handler run succeeds. -/
def Retries.step (s : Retries) : Act → Option Retries
  | .lookup c now =>
    match s.phase c, afterLookup (lookup s.store now (keyedPost path rawKey body)) with
    | .waiting, some p =>
      if s.clock ≤ now then some { s with clock := now, phase := Function.update s.phase c p }
      else none
    | _, _ => none
  | .handle c now response =>
    match s.phase c with
    | .handling =>
      if s.clock ≤ now ∧ response.status.isSuccess then
        some
          { s with
            clock := now, phase := Function.update s.phase c (.storing response)
            executions := now :: s.executions }
      else none
    | _ => none
  | .store c now =>
    match s.phase c with
    | .storing response =>
      if s.clock ≤ now then
        some
          { s with
            clock := now, store := remember ttl s.store (scopedKey path rawKey) now response
            phase := Function.update s.phase c
              (.done { response with body := respBytes response }) }
      else none
    | _ => none
  | .removeExpired now =>
    if s.clock ≤ now then some { s with clock := now, store := s.store.removeExpired now } else none

/-- Any two executions are more than the ttl apart. -/
def OnceWithinTtl (s : Retries) : Prop :=
  s.executions.Pairwise fun later earlier => earlier + ttl < later

/-- No call looks up while another is past its lookup and not yet done. -/
def Alone (s : Retries) : Act → Prop
  | .lookup _ _ => ∀ d, ¬ (s.phase d).inFlight
  | _ => True

end

section
variable {ttl : ℕ} {path rawKey : String} {body : List UInt8} {s t : Retries}

/-! ### A call on its own -/

/-- The handler's run stands between two steps, as in the sequential middleware. -/
theorem exec_call {c arrived handled finished : ℕ} {response : Response} {key : String}
    (hc : s.phase c = .waiting) (h₁ : s.clock ≤ arrived) (h₂ : arrived ≤ handled)
    (h₃ : handled ≤ finished) (hok : response.status.isSuccess = true)
    (hmiss : lookup s.store arrived (keyedPost path rawKey body) = .miss key) :
    let served := idempotencyMiddleware ttl s.store
      ⟨keyedPost path rawKey body, arrived, response, finished⟩
    exec (Retries.step ttl path rawKey body) s
        [.lookup c arrived, .handle c handled response, .store c finished] =
      some
        { clock := finished, store := served.2
          phase := Function.update s.phase c (.done served.1.2)
          executions := handled :: s.executions } := by
  obtain ⟨_, hkey, rfl, -⟩ := lookup_eq_miss hmiss
  obtain rfl := Option.some.inj hkey
  dsimp only
  rw [idempotencyMiddleware]
  dsimp only
  rw [hmiss]
  simp only [exec, Retries.step, hc, hmiss, afterLookup, h₁, h₂, h₃, hok, Option.bind_some,
    Function.update_self, Function.update_idem, if_true, and_self]
  rfl

/-- A call is in flight after its lookup only if that has missed. -/
theorem afterLookup_inFlight {store : InMemoryStore} {now : ℕ} {p : Phase}
    (h : afterLookup (lookup store now (keyedPost path rawKey body)) = some p) (hp : p.inFlight) :
    store.get now (scopedKey path rawKey) = none ∧ p = .handling := by
  cases hlook : lookup store now (keyedPost path rawKey body) with
  | passThrough => rw [hlook] at h; cases h
  | tooLarge | hit cached => rw [hlook] at h; cases h; exact hp.elim
  | miss key =>
    rw [hlook] at h
    obtain ⟨_, hkey, rfl, hget⟩ := lookup_eq_miss hlook
    obtain rfl := Option.some.inj hkey
    exact ⟨hget, (Option.some.inj h).symm⟩

/-! ### At most once -/

/-- An execution at `e` is older than the ttl, or a record that is not older is stored. -/
def Settled (ttl : ℕ) (store : InMemoryStore) (key : String) (now e : ℕ) : Prop :=
  e + ttl < now ∨ ∃ r, store.records key = some r ∧ r.ttl = ttl ∧ e ≤ r.createdAt

/-- At most one call is in flight. Before its handler runs, all executions are older than the ttl;
    after that, it has an answer to store. -/
structure Guarded (ttl : ℕ) (key : String) (s : Retries) : Prop where
  alone : AtMostOne Phase.inFlight s.phase
  past : ∀ e ∈ s.executions, e ≤ s.clock
  handling : ∀ c, s.phase c = .handling → ∀ e ∈ s.executions, e + ttl < s.clock
  storing : ∀ c response, s.phase c = .storing response → response.status.isSuccess = true
  idle : (∀ c, ¬ (s.phase c).inFlight) → ∀ e ∈ s.executions, Settled ttl s.store key s.clock e
  once : OnceWithinTtl ttl s

section
variable {store : InMemoryStore} {key : String} {now later e : ℕ}

theorem Settled.mono (h : Settled ttl store key now e) (hle : now ≤ later) :
    Settled ttl store key later e :=
  h.imp_left fun hold => Nat.lt_of_lt_of_le hold hle

/-- A lookup that misses comes after the ttl. -/
theorem Settled.of_miss (h : Settled ttl store key now e) (hget : store.get now key = none) :
    e + ttl < now := by
  rcases h with hold | ⟨r, hrec, rfl, hle⟩
  · exact hold
  · cases hexp : r.isExpired now with
    | false =>
      rw [InMemoryStore.get, hrec, visible_of_live hexp] at hget
      cases hget
    | true =>
      rw [isExpired_iff] at hexp
      omega

/-- The sweeper only removes records that are older than the ttl. -/
theorem Settled.removeExpired (h : Settled ttl store key now e) :
    Settled ttl (store.removeExpired now) key now e := by
  rcases h with hold | ⟨r, hrec, httl, hle⟩
  · exact .inl hold
  · cases hexp : r.isExpired now with
    | false =>
      refine .inr ⟨r, ?_, httl, hle⟩
      rw [InMemoryStore.removeExpired]
      simp [hrec, hexp]
    | true =>
      rw [isExpired_iff, httl] at hexp
      exact .inl (by omega)

end

theorem guarded_new (ttl : ℕ) (key : String) : Guarded ttl key .new where
  alone := fun _ _ h => h.elim
  past := fun _ h => absurd h List.not_mem_nil
  handling := fun _ h => by cases h
  storing := fun _ _ h => by cases h
  idle := fun _ _ h => absurd h List.not_mem_nil
  once := .nil

section
variable {key : String} {c now : ℕ}

/-- A lookup while no one is in flight: if it misses, the last execution is long past. -/
theorem Guarded.lookup (h : Guarded ttl key s) (hle : s.clock ≤ now)
    (hfree : ∀ d, ¬ (s.phase d).inFlight) {p : Phase}
    (hp : p.inFlight → s.store.get now key = none ∧ p = .handling) :
    Guarded ttl key { s with clock := now, phase := Function.update s.phase c p } := by
  have hsettled := h.idle hfree
  refine ⟨.enter fun d _ => hfree d, fun e he => Nat.le_trans (h.past e he) hle, ?_, ?_, ?_, h.once⟩
  · intro d hd e he
    rcases update_phase hd with ⟨-, rfl⟩ | ⟨-, hd⟩
    · exact ((hsettled e he).mono hle).of_miss (hp trivial).1
    · exact absurd (hd ▸ trivial) (hfree d)
  · intro d response hd
    rcases update_phase hd with ⟨-, rfl⟩ | ⟨-, hd⟩
    · cases (hp trivial).2
    · exact h.storing d response hd
  · exact fun _ e he => (hsettled e he).mono hle

/-- The handler runs. -/
theorem Guarded.handle (h : Guarded ttl key s) (hle : s.clock ≤ now) (hc : s.phase c = .handling)
    {response : Response} (hok : response.status.isSuccess = true) :
    Guarded ttl key
      { s with
        clock := now, phase := Function.update s.phase c (.storing response)
        executions := now :: s.executions } := by
  have hin : (s.phase c).inFlight := hc ▸ trivial
  have hold := h.handling c hc
  refine ⟨h.alone.move fun _ => hin, ?_, ?_, ?_, ?_, ?_⟩
  · intro e he
    rcases List.mem_cons.mp he with rfl | he
    · exact Nat.le_refl _
    · exact Nat.le_trans (h.past e he) hle
  · intro d hd
    rcases update_phase hd with ⟨-, hd⟩ | ⟨hne, hd⟩
    · cases hd
    · exact absurd (h.alone d c (hd ▸ trivial) hin) hne
  · intro d response' hd
    rcases update_phase hd with ⟨-, hd⟩ | ⟨-, hd⟩
    · cases hd
      exact hok
    · exact h.storing d response' hd
  · intro hfree
    have hc' : ¬ (Function.update s.phase c (.storing response) c).inFlight := hfree c
    rw [Function.update_self] at hc'
    exact absurd trivial hc'
  · exact .cons (fun e he => Nat.lt_of_lt_of_le (hold e he) hle) h.once

/-- The record is stamped with the time of the put, after every execution. -/
theorem Guarded.store (h : Guarded ttl key s) (hle : s.clock ≤ now) {response : Response}
    (hc : s.phase c = .storing response) (answer : Response) :
    Guarded ttl key
      { s with
        clock := now, store := remember ttl s.store key now response
        phase := Function.update s.phase c (.done answer) } := by
  refine ⟨h.alone.move fun hp => hp.elim, fun e he => Nat.le_trans (h.past e he) hle, ?_, ?_, ?_,
    h.once⟩
  · intro d hd e he
    rcases update_phase hd with ⟨-, hd⟩ | ⟨-, hd⟩
    · cases hd
    · exact Nat.lt_of_lt_of_le (h.handling d hd e he) hle
  · intro d response' hd
    rcases update_phase hd with ⟨-, hd⟩ | ⟨-, hd⟩
    · cases hd
    · exact h.storing d response' hd
  · intro _ e he
    refine .inr ⟨newRecord ttl now response, ?_, rfl, Nat.le_trans (h.past e he) hle⟩
    dsimp only
    rw [remember, if_pos (h.storing c response hc), records_put, if_pos rfl]

theorem Guarded.removeExpired (h : Guarded ttl key s) (hle : s.clock ≤ now) :
    Guarded ttl key { s with clock := now, store := s.store.removeExpired now } :=
  ⟨h.alone, fun e he => Nat.le_trans (h.past e he) hle,
    fun d hd e he => Nat.lt_of_lt_of_le (h.handling d hd e he) hle, h.storing,
    fun hfree e he => ((h.idle hfree e he).mono hle).removeExpired, h.once⟩

end

theorem guarded_step {a : Act} (hP : Alone s a)
    (hs : s.step ttl path rawKey body a = some t) (h : Guarded ttl (scopedKey path rawKey) s) :
    Guarded ttl (scopedKey path rawKey) t := by
  cases a with
  | lookup c now =>
    simp only [Retries.step] at hs
    split at hs
    · next p hc hp =>
      obtain ⟨hle, ⟨⟩⟩ := Option.ite_none_right_eq_some.mp hs
      exact h.lookup hle hP (afterLookup_inFlight hp)
    · cases hs
  | handle c now response =>
    simp only [Retries.step] at hs
    split at hs
    · next hc =>
      obtain ⟨⟨hle, hok⟩, ⟨⟩⟩ := Option.ite_none_right_eq_some.mp hs
      exact h.handle hle hc hok
    · cases hs
  | store c now =>
    simp only [Retries.step] at hs
    split at hs
    · next response hc =>
      obtain ⟨hle, ⟨⟩⟩ := Option.ite_none_right_eq_some.mp hs
      exact h.store hle hc _
    · cases hs
  | removeExpired now =>
    obtain ⟨hle, ⟨⟩⟩ := Option.ite_none_right_eq_some.mp hs
    exact h.removeExpired hle

/-- As long as no call looks up while another is in flight, the side effect is executed at most once
    within the ttl. -/
theorem run_onceWithinTtl {acts : List Act}
    (hrun : Run (Retries.step ttl path rawKey body) Alone .new acts t) : OnceWithinTtl ttl t :=
  (hrun.invariant (fun hP hs h => guarded_step hP hs h) (guarded_new ttl _)).once

end

/-- The call is retried while its handler still runs. -/
def overlapping : List Act :=
  [.lookup 0 1000000000, .lookup 1 2000000000, .handle 0 3000000000 (answer "first"),
    .handle 1 4000000000 (answer "second"), .store 0 5000000000, .store 1 6000000000]

/-- Both calls run the handler. -/
theorem not_onceWithinTtl_overlapping :
    ¬ ∀ (ttl : ℕ) (path rawKey : String) (body : List UInt8) (acts : List Act) (u : Retries),
      AnyRun (Retries.step ttl path rawKey body) .new acts u → OnceWithinTtl ttl u := by
  intro h
  have honce : [4000000000, 3000000000].Pairwise
      fun later earlier => earlier + DEFAULT_TTL < later :=
    h DEFAULT_TTL "/v1/webhooks" "k" [] overlapping _
      (.cons trivial rfl (.cons trivial rfl (.cons trivial rfl (.cons trivial rfl
        (.cons trivial rfl (.cons trivial rfl (.nil _)))))))
  exact absurd honce (by decide)

/-- The call is retried after its answer is stored. -/
theorem onceWithinTtl_retried :
    ∃ u, Run (Retries.step DEFAULT_TTL "/v1/webhooks" "k" []) Alone .new
        [.lookup 0 1000000000, .handle 0 2000000000 (answer "first"), .store 0 3000000000,
          .lookup 1 4000000000] u ∧ OnceWithinTtl DEFAULT_TTL u := by
  obtain ⟨u, hrun⟩ : ∃ u, Run (Retries.step DEFAULT_TTL "/v1/webhooks" "k" []) Alone .new
      [.lookup 0 1000000000, .handle 0 2000000000 (answer "first"), .store 0 3000000000,
        .lookup 1 4000000000] u := by
    refine ⟨_, .cons (fun d => id) rfl (.cons trivial rfl (.cons trivial rfl (.cons ?_ rfl
      (.nil _))))⟩
    intro d hd
    by_cases hd0 : d = 0
    · subst hd0
      exact hd
    · simp [Function.update_of_ne hd0, Retries.new, Phase.inFlight] at hd
  exact ⟨u, hrun, run_onceWithinTtl hrun⟩

end SorobanPulse.Idempotency
