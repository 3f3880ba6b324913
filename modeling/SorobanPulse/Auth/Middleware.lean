import SorobanPulse.Auth.ApiKeys

/-! The layers that authenticate a request.

        public path ─────────────────────────────▶ through
        sp_ key found ──▶ scope held? ──▶ tenant ─▶ through, with the key
        otherwise ──────▶ env-var key?  ──▶ tenant ─▶ through
                          (all, where authentication is off)

    The admin layers run behind it, on the routes that carry one. -/

namespace SorobanPulse.Auth
open PathRouter

/-- A request, as far as the layers look at it; header values that are no text count as missing. -/
structure Request where
  method : Method
  path : String
  authorization : Option String := none
  xApiKey : Option String := none

/-- The answer of a layer that lets nothing through. -/
structure Refusal where
  status : ℕ
  error : String
  requiredScope : Option String := none
  deriving DecidableEq, Repr

/-- What `auth_middleware` leaves with the request. -/
structure Extensions where
  principal : Option String := none
  tenantId : Option String := none
  scopedApiKey : Option ScopedApiKey := none

structure AuthState where
  apiKeys : List String
  adminApiKeys : List String
  /-- SHA-256(key) to tenant. -/
  tenantMap : List (String × String)
  multiTenant : Bool
  /-- `none` disables keys of the database. -/
  pool : Option ApiKeyTable
  requireAuth : Bool
  /-- `hash_api_key` -/
  hashApiKey : String → String

def AuthState.authEnabled (state : AuthState) : Bool := state.requireAuth || !state.apiKeys.isEmpty

/-! ### Helpers -/

def keyMatchesAny (key : String) (candidates : List String) : Bool := candidates.any (· == key)

def extractApiKey (req : Request) : Option String :=
  (req.authorization.bind fun s => stripPrefix s "Bearer ").or req.xApiKey

def MOUNT_PATH : String := "/ui"

def isDashboardPath (path : String) : Bool := path == MOUNT_PATH || startsWith path "/ui/"

def isPublicPath (path : String) : Bool :=
  path == "/health" || startsWith path "/healthz/" || path == "/unsubscribe" || path == "/v1/meta" ||
    isDashboardPath path

/-- `none` as well where the lookup failed: the caller falls back to the env-var keys. -/
def lookupScopedKey (state : AuthState) (providedKey : Option String) : Option ScopedApiKey := do
  let table ← state.pool
  let key ← providedKey.filter fun k => startsWith k KEY_PREFIX
  (lookupActiveKey state.hashApiKey table key).getD none

/-- The active key of the database that the request presents, looked up or not. -/
def presentedKey (state : AuthState) (req : Request) : Option ScopedApiKey := do
  let table ← state.pool
  let key ← (extractApiKey req).filter fun k => startsWith k KEY_PREFIX
  activeKey state.hashApiKey table.rows key

def Principal.ANONYMOUS : String := "anonymous"

def Principal.fromApiKey (state : AuthState) (key : String) : String :=
  "key:" ++ String.ofList ((state.hashApiKey key).toList.take 16)

/-! ### The global layer -/

/-- In multi-tenant mode a key goes with a tenant; admin keys are global. -/
def resolveTenant (state : AuthState) (isAdmin : Bool) (tenant : Option String) :
    Except Refusal (Option String) :=
  if state.multiTenant && !isAdmin then
    match tenant with
    | some tid => .ok (some tid)
    | none => .error ⟨403, "api key is not associated with a tenant", none⟩
  else .ok none

/-- A request whose key the database resolved. -/
def authScoped (state : AuthState) (req : Request) (key : ScopedApiKey) : Except Refusal Extensions :=
  if !key.hasScope (requiredScope req.method req.path) then
    .error ⟨403, "insufficient scope", some (requiredScope req.method req.path).asStr⟩
  else
    (resolveTenant state (key.hasScope .admin)
      (key.tenantId.or (state.tenantMap.lookup (state.hashApiKey ((extractApiKey req).getD ""))))).map
      fun tid => ⟨some (Principal.fromApiKey state ((extractApiKey req).getD "")), tid, some key⟩

def presentsAny (req : Request) (candidates : List String) : Bool :=
  (extractApiKey req).any fun k => keyMatchesAny k candidates

/-- A request that must present one of the keys of the environment. -/
def authEnvVar (state : AuthState) (req : Request) : Except Refusal Extensions :=
  if !(presentsAny req state.adminApiKeys || presentsAny req state.apiKeys) then
    .error ⟨401, "unauthorized", none⟩
  else
    (resolveTenant state (presentsAny req state.adminApiKeys)
      (state.tenantMap.lookup (state.hashApiKey ((extractApiKey req).getD "")))).map
      fun tid => ⟨some (Principal.fromApiKey state ((extractApiKey req).getD "")), tid, none⟩

/-- What goes through, and with what. -/
def authMiddleware (state : AuthState) (req : Request) : Except Refusal Extensions :=
  if isPublicPath req.path then .ok {}
  else
    match lookupScopedKey state (extractApiKey req) with
    | some key => authScoped state req key
    | none =>
      if state.authEnabled then authEnvVar state req
      else .ok { principal := some Principal.ANONYMOUS }

/-! ### The admin layers -/

def hasAdminScopedKey (ext : Extensions) : Bool := ext.scopedApiKey.any fun k => k.hasScope .admin

def requireAdminMiddleware (adminApiKeys : List String) (ext : Extensions) (req : Request) :
    Except Refusal Unit :=
  if hasAdminScopedKey ext then .ok ()
  else
    match extractApiKey req with
    | none => .error ⟨401, "admin authentication required", none⟩
    | some key =>
      if keyMatchesAny key adminApiKeys then .ok ()
      else .error ⟨403, "admin privileges required", none⟩

/-- Without admin keys the layer is a no-op. -/
def adminAuthMiddleware (adminApiKeys : List String) (ext : Extensions) (req : Request) :
    Except Refusal Unit :=
  if adminApiKeys.isEmpty then .ok () else requireAdminMiddleware adminApiKeys ext req

/-! ### What the layers let through -/

variable {state : AuthState} {req : Request} {ext : Extensions}

@[simp] theorem keyMatchesAny_iff {key : String} {candidates : List String} :
    keyMatchesAny key candidates = true ↔ key ∈ candidates := by
  simp [keyMatchesAny]

/-- The key of the request is one of these. -/
def Request.Presents (req : Request) (candidates : List String) : Prop :=
  ∃ key, extractApiKey req = some key ∧ key ∈ candidates

theorem presentsAny_iff {candidates : List String} :
    presentsAny req candidates = true ↔ req.Presents candidates := by
  unfold presentsAny Request.Presents
  cases extractApiKey req with
  | none => simp
  | some key => simp

theorem requireAdmin_ok {adminApiKeys : List String}
    (h : requireAdminMiddleware adminApiKeys ext req = .ok ()) :
    hasAdminScopedKey ext = true ∨ req.Presents adminApiKeys := by
  unfold requireAdminMiddleware at h
  split at h
  · next hscoped => exact .inl hscoped
  · split at h
    · cases h
    · next key hkey =>
      split at h
      · next hmatches => exact .inr ⟨key, hkey, keyMatchesAny_iff.mp hmatches⟩
      · cases h

/-- The key that the global layer resolves; on a public path it looks none up. -/
def resolvedKey (state : AuthState) (req : Request) : Option ScopedApiKey :=
  if isPublicPath req.path then none else lookupScopedKey state (extractApiKey req)

theorem resolvedKey_eq_lookup (hpublic : isPublicPath req.path = false) :
    resolvedKey state req = lookupScopedKey state (extractApiKey req) := by
  rw [resolvedKey, hpublic, if_neg Bool.false_ne_true]

/-- A lookup finds the key that is presented, or fails. -/
theorem presentedKey_of_lookup {key : ScopedApiKey}
    (h : lookupScopedKey state (extractApiKey req) = some key) : presentedKey state req = some key := by
  unfold lookupScopedKey at h
  unfold presentedKey
  simp only [Option.bind_eq_bind, Option.bind_eq_some_iff] at h ⊢
  rcases h with ⟨table, htable, rawKey, hrawKey, h⟩
  refine ⟨table, htable, rawKey, hrawKey, ?_⟩
  have hfound : lookupActiveKey state.hashApiKey table rawKey = some (some key) := by
    cases hlookup : lookupActiveKey state.hashApiKey table rawKey with
    | none => rw [hlookup] at h; cases h
    | some found => rw [hlookup] at h; rw [show found = some key from h]
  exact (activeKey_of_lookup hfound).2

theorem map_eq_ok {α β : Type} {f : α → β} {x : Except Refusal α} {b : β} (h : x.map f = .ok b) :
    ∃ a, x = .ok a ∧ f a = b := by
  cases x with
  | error e => cases h
  | ok a => exact ⟨a, rfl, Except.ok.inj h⟩

theorem exists_map_ok {α β : Type} {f : α → β} {x : Except Refusal α} :
    (∃ b, x.map f = .ok b) ↔ ∃ a, x = .ok a := by
  cases x with
  | error e => simp [Except.map]
  | ok a => simp [Except.map]

theorem resolveTenant_ok_iff {isAdmin : Bool} {tenant : Option String} :
    (∃ tid, resolveTenant state isAdmin tenant = .ok tid) ↔
      (state.multiTenant = true → isAdmin = false → tenant.isSome = true) := by
  unfold resolveTenant
  cases state.multiTenant <;> cases isAdmin <;> cases tenant <;> simp

/-- A resolved key goes through with the scope that its request needs. -/
theorem authScoped_ok {key : ScopedApiKey} (h : authScoped state req key = .ok ext) :
    key.hasScope (requiredScope req.method req.path) = true ∧ ext.scopedApiKey = some key := by
  unfold authScoped at h
  split at h
  · cases h
  · next hscope =>
    rw [Bool.not_eq_true, Bool.not_eq_false'] at hscope
    rcases map_eq_ok h with ⟨tid, -, rfl⟩
    exact ⟨hscope, rfl⟩

/-- What an env-var key needs: to be an admin key, or a key that has a tenant where there are
    tenants. -/
theorem authEnvVar_ok_iff :
    (∃ ext, authEnvVar state req = .ok ext) ↔
      req.Presents state.adminApiKeys ∨ req.Presents state.apiKeys ∧ (state.multiTenant = true →
        (state.tenantMap.lookup (state.hashApiKey ((extractApiKey req).getD ""))).isSome = true) := by
  rw [← presentsAny_iff, ← presentsAny_iff]
  unfold authEnvVar
  cases hadmin : presentsAny req state.adminApiKeys with
  | true =>
    rw [Bool.true_or, Bool.not_true, if_neg Bool.false_ne_true, exists_map_ok, resolveTenant_ok_iff]
    simp
  | false =>
    cases hkey : presentsAny req state.apiKeys with
    | true =>
      rw [Bool.or_true, Bool.not_true, if_neg Bool.false_ne_true, exists_map_ok,
        resolveTenant_ok_iff]
      simp
    | false => simp

theorem scopedApiKey_authEnvVar (h : authEnvVar state req = .ok ext) : ext.scopedApiKey = none := by
  unfold authEnvVar at h
  split at h
  · cases h
  · rcases map_eq_ok h with ⟨tid, -, rfl⟩
    rfl

/-- The key that goes on with the request is the one that was resolved. -/
theorem scopedApiKey_eq (h : authMiddleware state req = .ok ext) :
    ext.scopedApiKey = resolvedKey state req := by
  unfold authMiddleware at h
  unfold resolvedKey
  split at h
  · next hpublic =>
    rw [if_pos hpublic, ← Except.ok.inj h]
  · next hpublic =>
    rw [if_neg hpublic]
    split at h
    · next key hkey =>
      rw [hkey]
      exact (authScoped_ok h).2
    · next hkey =>
      rw [hkey]
      split at h
      · exact scopedApiKey_authEnvVar h
      · rw [← Except.ok.inj h]

/-- A resolved key goes through only with the scope that the request needs. -/
theorem hasScope_of_resolved {key : ScopedApiKey} (h : authMiddleware state req = .ok ext)
    (hkey : resolvedKey state req = some key) :
    key.hasScope (requiredScope req.method req.path) = true := by
  unfold resolvedKey at hkey
  split at hkey
  · cases hkey
  · next hpublic =>
    rw [authMiddleware, if_neg hpublic, hkey] at h
    exact (authScoped_ok h).1

/-- Where no key was resolved, the keys of the environment decide, if there are any. -/
theorem authMiddleware_ok_iff (hpublic : isPublicPath req.path = false)
    (hkey : resolvedKey state req = none) :
    (∃ ext, authMiddleware state req = .ok ext) ↔ (state.authEnabled = true →
      req.Presents state.adminApiKeys ∨ req.Presents state.apiKeys ∧ (state.multiTenant = true →
        (state.tenantMap.lookup (state.hashApiKey ((extractApiKey req).getD ""))).isSome = true)) := by
  rw [resolvedKey_eq_lookup hpublic] at hkey
  rw [authMiddleware, hpublic, if_neg Bool.false_ne_true, hkey]
  cases henabled : state.authEnabled with
  | true => simpa using authEnvVar_ok_iff
  | false => simp

/-! ### Tenants -/

end SorobanPulse.Auth
