import SorobanPulse.Idempotency.Middleware

/-! What one caller can tell of another.

    Handlers are tenant-isolated: each reads and writes the state of its own caller. All callers share
    the idempotency store, and its keys name the path and the client's key, but no caller:

        a: POST /v1/webhooks  Idempotency-Key: k      ──▶ stored under "/v1/webhooks:k"
        b: POST /v1/webhooks  Idempotency-Key: k      ──▶ answered with a's response

    `answersTo_congr`: as long as no one finds a record of `a`, the answers to the others do not
    depend on what `a` does. -/

namespace SorobanPulse.Idempotency
open Lib

variable {κ τ : Type}

inductive Event (κ : Type) where
  | request (caller : κ) (request : Request) (arrived finished : ℕ)
  | removeExpired (now : ℕ)

/-- The events of `a`. -/
def Event.isBy [DecidableEq κ] (a : κ) : Event κ → Bool
  | .request caller .. => caller = a
  | .removeExpired _ => false

structure Shared (κ τ : Type) where
  clock : ℕ
  store : InMemoryStore
  /-- What the handlers keep for each caller. -/
  tenant : κ → τ
  /-- Whose answer was stored last under a key. -/
  owner : String → Option κ
  /-- The latest first. -/
  answers : List (κ × Response)

def Shared.new (tenant : κ → τ) : Shared κ τ := ⟨0, .new, tenant, fun _ => none, []⟩

/-- The key under which the handler's answer is stored, if it is. -/
def storedUnder : Lookup → Response → Option String
  | .miss key, response => if response.status.isSuccess then some key else none
  | _, _ => none

section
variable [DecidableEq κ] (ttl : ℕ) (handle : τ → Request → ℕ → τ × Response)

/-- Serve a request: the handler sees its own caller's state only. -/
def Shared.serve (s : Shared κ τ) (caller : κ) (request : Request) (arrived finished : ℕ) :
    Shared κ τ :=
  let (tenant, handler) := handle (s.tenant caller) request arrived
  let served := idempotencyMiddleware ttl s.store { request, arrived, handler, finished }
  { clock := finished, store := served.2
    tenant := if served.1.1 = .handler then Function.update s.tenant caller tenant else s.tenant
    owner :=
      match storedUnder (lookup s.store arrived request) handler with
      | some key => Function.update s.owner key (some caller)
      | none => s.owner
    answers := (caller, served.1.2) :: s.answers }

def Shared.step (s : Shared κ τ) : Event κ → Option (Shared κ τ)
  | .request caller request arrived finished =>
    if s.clock ≤ arrived ∧ arrived ≤ finished then
      some (s.serve ttl handle caller request arrived finished)
    else none
  | .removeExpired now =>
    if s.clock ≤ now then some { s with clock := now, store := s.store.removeExpired now } else none

/-- No other caller's keyed POST finds an unexpired record of `a`. -/
def Unshared (a : κ) (s : Shared κ τ) : Event κ → Prop
  | .request caller request arrived _ =>
    caller ≠ a → ∀ rawKey, request.method = "POST" → request.idempotencyKey = some rawKey →
      request.body.length ≤ BODY_LIMIT → s.owner (scopedKey request.path rawKey) = some a →
      s.store.get arrived (scopedKey request.path rawKey) = none
  | .removeExpired _ => True

def Shared.answersTo (s : Shared κ τ) (b : κ) : List Response :=
  (s.answers.filter fun p => p.1 = b).map Prod.snd

end

/-! ### The middleware, seen through its lookup -/

section
variable {ttl : ℕ} {store store' : InMemoryStore} {call : Call} {now later : ℕ} {key : String}

/-- The store is asked only by the lookup. -/
theorem middleware_congr
    (h : lookup store call.arrived call.request = lookup store' call.arrived call.request) :
    (idempotencyMiddleware ttl store call).1 = (idempotencyMiddleware ttl store' call).1 := by
  rw [idempotencyMiddleware, idempotencyMiddleware, h]
  cases lookup store' call.arrived call.request <;> rfl

theorem middleware_store :
    (idempotencyMiddleware ttl store call).2 =
      match storedUnder (lookup store call.arrived call.request) call.handler with
      | some key => store.put key (newRecord ttl call.finished call.handler)
      | none => store := by
  rw [idempotencyMiddleware]
  cases lookup store call.arrived call.request with
  | passThrough | tooLarge | hit cached => rfl
  | miss key =>
    dsimp only
    rw [remember, storedUnder]
    split <;> rfl

/-- An answer is stored where nothing can be read. -/
theorem get_of_storedUnder {response : Response} {req : Request}
    (h : storedUnder (lookup store now req) response = some key) : store.get now key = none := by
  cases hlook : lookup store now req with
  | passThrough | tooLarge | hit cached => rw [hlook] at h; cases h
  | miss key' =>
    rw [hlook] at h
    obtain ⟨-, ⟨⟩⟩ := Option.ite_none_right_eq_some.mp h
    obtain ⟨_, -, -, hget⟩ := lookup_eq_miss hlook
    exact hget

/-- What cannot be read is not read later. -/
theorem get_eq_none_mono (h : store.get now key = none) (hle : now ≤ later) :
    store.get later key = none := by
  rw [InMemoryStore.get] at h ⊢
  cases hrec : store.records key with
  | none => rfl
  | some r =>
    rw [hrec] at h
    cases hexp : r.isExpired now with
    | false => rw [visible_of_live hexp] at h; cases h
    | true => exact visible_of_expired (isExpired_mono hexp hle)

end

/-! ### Leaving out a caller -/

/-- `s'` is `s` without the events of `a`: it differs in what is `a`'s own, and lacks its records. -/
structure Without [DecidableEq κ] (a : κ) (s s' : Shared κ τ) : Prop where
  clock : s'.clock ≤ s.clock
  tenant : ∀ c, c ≠ a → s.tenant c = s'.tenant c
  records : ∀ key, s.store.records key = s'.store.records key ∨
    s.owner key = some a ∧ s'.store.get s.clock key = none
  answers : ∀ b, b ≠ a → s.answersTo b = s'.answersTo b

section
variable [DecidableEq κ] {ttl : ℕ} {handle : τ → Request → ℕ → τ × Response} {a : κ}
  {s s' t : Shared κ τ} {e : Event κ}

/-- Other callers' lookups find the same in both. -/
theorem Without.lookup_eq (h : Without a s s') {caller : κ} {req : Request} {arrived finished : ℕ}
    (hP : Unshared a s (.request caller req arrived finished)) (hcaller : caller ≠ a)
    (hle : s.clock ≤ arrived) : lookup s.store arrived req = lookup s'.store arrived req := by
  by_cases hkeyed : req.method = "POST" → req.idempotencyKey = none
  · rw [lookup_unkeyed hkeyed, lookup_unkeyed hkeyed]
  · obtain ⟨hpost, hsome⟩ := Classical.not_imp.mp hkeyed
    obtain ⟨rawKey, hkey⟩ := Option.ne_none_iff_exists'.mp hsome
    by_cases hbody : req.body.length ≤ BODY_LIMIT
    · have hget : s.store.get arrived (scopedKey req.path rawKey) =
          s'.store.get arrived (scopedKey req.path rawKey) := by
        rcases h.records (scopedKey req.path rawKey) with heq | ⟨howner, hnone⟩
        · rw [InMemoryStore.get, InMemoryStore.get, heq]
        · rw [hP hcaller rawKey hpost hkey hbody howner, get_eq_none_mono hnone hle]
      rw [lookup_keyed hpost hkey hbody, lookup_keyed hpost hkey hbody, hget]
    · rw [lookup_tooLarge hpost hkey hbody, lookup_tooLarge hpost hkey hbody]

/-! ### What serving a request does -/

section
variable {caller : κ} {req : Request} {arrived finished : ℕ}

/-- The key that a request's answer is stored under. -/
theorem serve_stored {key : String}
    (h : storedUnder (lookup s.store arrived req) (handle (s.tenant caller) req arrived).2 =
      some key) :
    let served := s.serve ttl handle caller req arrived finished
    served.store.records key =
        some (newRecord ttl finished (handle (s.tenant caller) req arrived).2) ∧
      served.owner key = some caller := by
  dsimp only
  rw [Shared.serve]
  dsimp only
  rw [middleware_store]
  dsimp only
  rw [h]
  exact ⟨Function.update_self .., Function.update_self ..⟩

/-- Every other key. -/
theorem serve_not_stored {key : String}
    (h : storedUnder (lookup s.store arrived req) (handle (s.tenant caller) req arrived).2 ≠
      some key) :
    let served := s.serve ttl handle caller req arrived finished
    served.store.records key = s.store.records key ∧ served.owner key = s.owner key := by
  dsimp only
  rw [Shared.serve]
  dsimp only
  rw [middleware_store]
  dsimp only
  cases hput : storedUnder (lookup s.store arrived req)
      (handle (s.tenant caller) req arrived).2 with
  | none => exact ⟨rfl, rfl⟩
  | some stored =>
    have hne : key ≠ stored := by
      rintro rfl
      exact h hput
    exact ⟨Function.update_of_ne hne .., Function.update_of_ne hne ..⟩

theorem serve_tenant_of_ne {c : κ} (hc : c ≠ caller) :
    (s.serve ttl handle caller req arrived finished).tenant c = s.tenant c := by
  rw [Shared.serve]
  dsimp only
  split
  · exact Function.update_of_ne hc ..
  · rfl

theorem serve_tenant_self :
    (s.serve ttl handle caller req arrived finished).tenant caller =
      if (idempotencyMiddleware ttl s.store
          ⟨req, arrived, (handle (s.tenant caller) req arrived).2, finished⟩).1.1 = .handler
      then (handle (s.tenant caller) req arrived).1
      else s.tenant caller := by
  rw [Shared.serve]
  dsimp only
  split
  · exact Function.update_self ..
  · rfl

theorem serve_answersTo_self :
    (s.serve ttl handle caller req arrived finished).answersTo caller =
      (idempotencyMiddleware ttl s.store
          ⟨req, arrived, (handle (s.tenant caller) req arrived).2, finished⟩).1.2 ::
        s.answersTo caller := by
  rw [Shared.answersTo, Shared.answersTo, Shared.serve]
  dsimp only
  rw [List.filter_cons_of_pos (by simp), List.map_cons]

theorem serve_answersTo_of_ne {b : κ} (hb : b ≠ caller) :
    (s.serve ttl handle caller req arrived finished).answersTo b = s.answersTo b := by
  rw [Shared.answersTo, Shared.answersTo, Shared.serve]
  dsimp only
  rw [List.filter_cons_of_neg (by simpa using hb.symm)]

end

section
variable {req : Request} {arrived finished : ℕ}

/-- Serving `a` leaves the state without `a` as it was. -/
theorem Without.serve_hidden (h : Without a s s') (harr : s.clock ≤ arrived)
    (hfin : arrived ≤ finished) : Without a (s.serve ttl handle a req arrived finished) s' := by
  have hle := Nat.le_trans harr hfin
  refine ⟨Nat.le_trans h.clock hle, fun c hc => ?_, fun key => ?_, fun b hb => ?_⟩
  · rw [serve_tenant_of_ne hc]
    exact h.tenant c hc
  · by_cases hput : storedUnder (lookup s.store arrived req)
        (handle (s.tenant a) req arrived).2 = some key
    · -- nothing could be read there, and without `a` that is still so
      refine .inr ⟨(serve_stored hput).2, ?_⟩
      rcases h.records key with heq | ⟨-, hnone⟩
      · have hget := get_of_storedUnder hput
        rw [InMemoryStore.get, heq] at hget
        exact get_eq_none_mono hget hfin
      · exact get_eq_none_mono hnone hle
    · obtain ⟨hrec, howner⟩ := serve_not_stored hput
      rw [hrec, howner]
      exact (h.records key).imp_right fun hown => hown.imp_right fun hnone =>
        get_eq_none_mono hnone hle
  · rw [serve_answersTo_of_ne hb]
    exact h.answers b hb

/-- Another caller is served the same in both. -/
theorem Without.serve_shown (h : Without a s s') {caller : κ} (hcaller : caller ≠ a)
    (hlook : lookup s.store arrived req = lookup s'.store arrived req) (harr : s.clock ≤ arrived)
    (hfin : arrived ≤ finished) :
    Without a (s.serve ttl handle caller req arrived finished)
      (s'.serve ttl handle caller req arrived finished) := by
  have htenant := h.tenant caller hcaller
  -- the record that is found is the same in both, so the answer is, too
  have hserved : ∀ handler,
      (idempotencyMiddleware ttl s.store ⟨req, arrived, handler, finished⟩).1 =
        (idempotencyMiddleware ttl s'.store ⟨req, arrived, handler, finished⟩).1 :=
    fun _ => middleware_congr hlook
  refine ⟨Nat.le_refl _, fun c hc => ?_, fun key => ?_, fun b hb => ?_⟩
  · by_cases hcc : c = caller
    · subst hcc
      rw [serve_tenant_self, serve_tenant_self, hserved, htenant]
    · rw [serve_tenant_of_ne hcc, serve_tenant_of_ne hcc]
      exact h.tenant c hc
  · -- a stored answer is stored in both
    by_cases hput : storedUnder (lookup s.store arrived req)
        (handle (s.tenant caller) req arrived).2 = some key
    · have hput' := hput
      rw [hlook, htenant] at hput'
      rw [(serve_stored hput).1, (serve_stored hput').1, htenant]
      exact .inl rfl
    · have hput' := hput
      rw [hlook, htenant] at hput'
      have hkeep : (s.serve ttl handle caller req arrived finished).store.records key =
          s.store.records key ∧ _ := serve_not_stored hput
      have hkeep' : (s'.serve ttl handle caller req arrived finished).store.records key =
          s'.store.records key ∧ _ := serve_not_stored hput'
      rw [hkeep.1, hkeep.2, hkeep'.1]
      rcases h.records key with heq | ⟨howner, hnone⟩
      · exact .inl heq
      · -- a record of the other caller's that had expired stays expired
        refine .inr ⟨howner, ?_⟩
        rw [InMemoryStore.get, hkeep'.1]
        exact get_eq_none_mono hnone (Nat.le_trans harr hfin)
  · by_cases hbb : b = caller
    · subst hbb
      rw [serve_answersTo_self, serve_answersTo_self, hserved, htenant, h.answers b hb]
    · rw [serve_answersTo_of_ne hbb, serve_answersTo_of_ne hbb]
      exact h.answers b hb

end

/-- The sweeper takes only what cannot be read. -/
theorem Without.removeExpired (h : Without a s s') {now : ℕ} (hle : s.clock ≤ now) :
    Without a { s with clock := now, store := s.store.removeExpired now }
      { s' with clock := now, store := s'.store.removeExpired now } := by
  refine ⟨Nat.le_refl _, h.tenant, fun key => ?_, h.answers⟩
  rcases h.records key with heq | ⟨howner, hnone⟩
  · refine .inl ?_
    dsimp only [InMemoryStore.removeExpired]
    rw [heq]
  · refine .inr ⟨howner, ?_⟩
    dsimp only
    rw [memory_get_removeExpired _ (Nat.le_refl _)]
    exact get_eq_none_mono hnone hle

theorem Without.hidden (hhid : e.isBy a = true) (hs : s.step ttl handle e = some t)
    (h : Without a s s') : Without a t s' := by
  cases e with
  | removeExpired now => cases hhid
  | request caller req arrived finished =>
    obtain rfl : caller = a := of_decide_eq_true hhid
    obtain ⟨⟨harr, hfin⟩, hs⟩ := Option.ite_none_right_eq_some.mp hs
    obtain rfl := Option.some.inj hs
    exact h.serve_hidden harr hfin

theorem Without.shown (hP : Unshared a s e) (hshow : e.isBy a = false)
    (hs : s.step ttl handle e = some t) (h : Without a s s') :
    ∃ t', s'.step ttl handle e = some t' ∧ Without a t t' := by
  cases e with
  | removeExpired now =>
    obtain ⟨hle, hs⟩ := Option.ite_none_right_eq_some.mp hs
    obtain rfl := Option.some.inj hs
    exact ⟨_, if_pos (Nat.le_trans h.clock hle), h.removeExpired hle⟩
  | request caller req arrived finished =>
    have hcaller : caller ≠ a := of_decide_eq_false hshow
    obtain ⟨⟨harr, hfin⟩, hs⟩ := Option.ite_none_right_eq_some.mp hs
    obtain rfl := Option.some.inj hs
    exact ⟨_, if_pos ⟨Nat.le_trans h.clock harr, hfin⟩,
      h.serve_shown hcaller (h.lookup_eq hP hcaller harr) harr hfin⟩

/-! ### Two histories -/

theorem without_new (a : κ) (tenant : κ → τ) : Without a (.new tenant) (.new tenant) :=
  ⟨Nat.le_refl _, fun _ _ => rfl, fun _ => .inl rfl, fun _ _ => rfl⟩

/-- Two histories that differ only in the requests of `a`: as long as in both no one finds a record of
    `a`, everyone else is answered the same. -/
theorem answersTo_congr {tenant : κ → τ} {es₁ es₂ : List (Event κ)} {u₁ u₂ : Shared κ τ} {b : κ}
    (hsame : es₁.filter (fun e => !e.isBy a) = es₂.filter fun e => !e.isBy a)
    (hrun₁ : Run (Shared.step ttl handle) (Unshared a) (.new tenant) es₁ u₁)
    (hrun₂ : Run (Shared.step ttl handle) (Unshared a) (.new tenant) es₂ u₂) (hb : b ≠ a) :
    u₁.answersTo b = u₂.answersTo b := by
  have hpurge : ∀ {es u}, Run (Shared.step ttl handle) (Unshared a) (.new tenant) es u →
      ∃ u', AnyRun (Shared.step ttl handle) (.new tenant) (es.filter fun e => !e.isBy a) u' ∧
        Without a u u' :=
    fun hrun => hrun.purge (fun e => e.isBy a) (fun _ hhid hs h => h.hidden hhid hs)
      (fun hP hshow hs h => h.shown hP hshow hs) (without_new a tenant)
  obtain ⟨u₁', hrun₁', h₁⟩ := hpurge hrun₁
  obtain ⟨u₂', hrun₂', h₂⟩ := hpurge hrun₂
  rw [hsame] at hrun₁'
  rw [h₁.answers b hb, h₂.answers b hb, AnyRun.unique hrun₁' hrun₂']

end

/-- A handler that answers with the request's body. -/
def echo (_ : Unit) (request : Request) (_ : ℕ) : Unit × Response :=
  ((), { status := OK, body := request.body })

/-- Both callers use one path and key, each with a body of its own. -/
def sameKey : List (Event String) :=
  [.request "key-a" (post "/v1/webhooks" "k" "a") 1000000000 1000000000,
    .request "key-b" (post "/v1/webhooks" "k" "b") 2000000000 2000000000]

/-- The second caller is answered with the first one's response. And the scoped key tells neither
    callers apart nor where the route ends. -/
theorem not_answersTo_congr_sameKey :
    (¬ ∀ (ttl : ℕ) (handle : Unit → Request → ℕ → Unit × Response) (tenant : String → Unit)
        (es₁ es₂ : List (Event String)) (u₁ u₂ : Shared String Unit) (a b : String),
        es₁.filter (fun e => !e.isBy a) = es₂.filter (fun e => !e.isBy a) →
        AnyRun (Shared.step ttl handle) (.new tenant) es₁ u₁ →
        AnyRun (Shared.step ttl handle) (.new tenant) es₂ u₂ → b ≠ a →
          u₁.answersTo b = u₂.answersTo b) ∧
      (¬ Function.Injective fun p : String × String × String => scopedKey p.2.1 p.2.2) ∧
      ¬ Function.Injective fun p : String × String => scopedKey p.1 p.2 := by
  refine ⟨fun h => ?_, fun h => ?_, fun h => ?_⟩
  · have heq := h DEFAULT_TTL echo (fun _ => ()) sameKey sameKey.tail _ _ "key-a" "key-b" rfl
      (.cons trivial rfl (.cons trivial rfl (.nil _))) (.cons trivial rfl (.nil _)) (by decide)
    have hbody := congrArg (List.map Response.body) heq
    exact absurd hbody (by decide)
  · exact absurd (@h ("key-a", "/v1/webhooks", "k") ("key-b", "/v1/webhooks", "k") rfl) (by decide)
  · exact absurd (@h ("/v1/webhooks", "k:1") ("/v1/webhooks:k", "1") rfl) (by decide)

/-- Each caller uses a key of its own. -/
def ownKeys : List (Event String) :=
  [.request "key-a" (post "/v1/webhooks" "k" "a") 1000000000 1000000000,
    .request "key-b" (post "/v1/webhooks" "l" "b") 2000000000 2000000000]

theorem answersTo_congr_ownKeys :
    ∃ u₁ u₂ : Shared String Unit,
      AnyRun (Shared.step DEFAULT_TTL echo) (.new fun _ => ()) ownKeys u₁ ∧
        AnyRun (Shared.step DEFAULT_TTL echo) (.new fun _ => ()) ownKeys.tail u₂ ∧
          u₁.answersTo "key-b" = u₂.answersTo "key-b" := by
  have hnot : ∀ {s : Shared String Unit}, s.owner (scopedKey "/v1/webhooks" "l") = none →
      Unshared "key-a" s
        (.request "key-b" (post "/v1/webhooks" "l" "b") 2000000000 2000000000) := by
    intro s hnone _ rawKey _ hkey _ howner
    obtain rfl := Option.some.inj hkey
    exact absurd (hnone.symm.trans howner) (by simp)
  have hsame : ownKeys.filter (fun e => !e.isBy "key-a") =
      ownKeys.tail.filter fun e => !e.isBy "key-a" := rfl
  refine ⟨_, _, .cons trivial rfl (.cons trivial rfl (.nil _)), .cons trivial rfl (.nil _), ?_⟩
  exact answersTo_congr hsame
    (.cons (fun hne => absurd rfl hne) rfl (.cons (hnot rfl) rfl (.nil _)))
    (.cons (hnot rfl) rfl (.nil _)) (by decide)

end SorobanPulse.Idempotency
