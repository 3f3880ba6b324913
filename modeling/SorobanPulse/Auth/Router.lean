import SorobanPulse.Auth.Middleware

/-! The router of `create_router_with_tx_and_tenant_map`, and who reaches its handlers.

        auth_middleware ──▶ IP access, rate limit ──▶ route ──▶ layer of the route ──▶ handler

    `admin_routes` is built with its layer, but only `v1` and `api_key_routes` are nested under
    `/v1`: the admin routes that are served are the copies in `v1`. -/

namespace SorobanPulse.Auth
open PathRouter

inductive RouteLayer where
  | adminAuth
  | requireAdmin
  deriving DecidableEq, Repr

/-- The methods of a route and the admin layer on it, if any. -/
structure Endpoint where
  methods : List Method
  layer : Option RouteLayer
  deriving DecidableEq, Repr

/-! ### The routes: path, with `.param` for a parameter, and methods -/

/-- `.route(path, …)` -/
def route (path : Pattern) (methods : List Method) : Pattern × List Method := (path, methods)

/-- `v1`, without a layer of its own that could refuse. -/
def v1Routes : List (Pattern × List Method) :=
  [route ["events"] [.get], route ["events", "feed.rss"] [.get], route ["events", "stats"] [.get],
    route ["contracts", .param, "stats", "history"] [.get],
    route ["contracts", .param, "stats"] [.get], route ["events", "diff"] [.get],
    route ["events", "export"] [.get], route ["events", "timeseries"] [.get],
    route ["events", "temporal"] [.get], route ["events", "recent"] [.get],
    route ["events", "stream"] [.get], route ["events", "stream", "multi"] [.get],
    route ["events", "ws"] [.get], route ["events", "contract", .param] [.get],
    route ["events", "contract", .param, "stream"] [.get], route ["events", "tx", "batch"] [.post],
    route ["admin", "events", "bulk"] [.post], route ["events", "tx", .param, "related"] [.get],
    route ["events", "tx", .param] [.get], route ["events", "ledger-hash", .param] [.get],
    route ["contracts"] [.get], route ["contracts", "search"] [.get],
    route ["contracts", "exists"] [.get], route ["config"] [.get],
    route ["rate-limit", "status"] [.get], route ["admin", "config", "reload"] [.post],
    route ["config", "anonymization"] [.get], route ["config", "anonymization", "rules"] [.post],
    route ["config", "anonymization", "rules", .param] [.delete],
    route ["config", "anonymization", "scan"] [.post],
    route ["cross-chain", "trace", .param] [.get], route ["cross-chain", "causality"] [.get],
    route ["contracts", .param, "metadata"] [.get], route ["contracts", .param, "summary"] [.get],
    route ["contracts", .param, "event-counts"] [.get], route ["admin", "replay"] [.post],
    route ["replay", "with-transform"] [.post], route ["admin", "reencrypt"] [.post],
    route ["admin", "mask-events"] [.post], route ["admin", "mask-events", .param] [.get],
    route ["admin", "notifications", "channels"] [.post],
    route ["admin", "contracts", .param, "abi"] [.post, .get],
    route ["admin", "contracts", .param, "metadata"] [.post, .delete],
    route ["admin", "contracts", "metadata", "import"] [.post],
    route ["admin", "events", .param, "anonymize"] [.post],
    route ["admin", "events", "contract", .param] [.delete],
    route ["admin", "indexer", "pause"] [.post], route ["admin", "indexer", "resume"] [.post],
    route ["admin", "contracts", .param, "schema"] [.post, .get, .delete],
    route ["admin", "contracts", .param, "validate"] [.post], route ["admin", "schemas"] [.get],
    route ["notifications", "email", "bounce"] [.post], route ["subscriptions"] [.post],
    route ["subscriptions", .param] [.get, .delete],
    route ["subscriptions", .param, "ack"] [.post],
    route ["subscriptions", .param, "email"] [.get, .put],
    route ["subscriptions", .param, "push"] [.get, .put],
    route ["subscriptions", .param, "push", "preferences"] [.get, .put],
    route ["subscriptions", .param, "batch"] [.get, .put, .post],
    route ["subscriptions", .param, "pause"] [.post],
    route ["subscriptions", .param, "resume"] [.post],
    route ["subscriptions", .param, "pause-status"] [.get],
    route ["admin", "subscriptions", .param, "anomaly-config"] [.post],
    route ["admin", "subscriptions", .param, "anomaly-alerts"] [.get],
    route ["admin", "subscriptions", .param, "anomaly-alerts", .param, "acknowledge"] [.post],
    route ["subscriptions", .param, "integrations", "github"] [.post, .get, .delete],
    route ["subscriptions", .param, "integrations", "discord"] [.post, .get, .delete],
    route ["subscriptions", .param, "integrations", "slack"] [.post, .get, .delete],
    route ["subscriptions", .param, "integrations", "telegram"] [.post, .get, .delete],
    route ["subscriptions", .param, "integrations", "pagerduty"] [.post, .get, .delete],
    route ["subscriptions", .param, "integrations", "pagerduty", "incidents"] [.get],
    route ["subscriptions", .param, "integrations", "pagerduty", "incidents", "acknowledge"] [.post],
    route ["subscriptions", .param, "integrations", "pagerduty", "incidents", "resolve"] [.post],
    route ["notifications", "email", "track", .param] [.get],
    route ["admin", "notifications", "email", "stats"] [.get],
    route ["notifications", "email", "click", .param] [.get],
    route ["admin", "notifications", "email", "ab-test", "results"] [.get],
    route ["admin", "notifications", "suppress"] [.post],
    route ["admin", "notifications", "suppress", .param] [.delete],
    route ["admin", "replication", "status"] [.get], route ["admin", "feature-flags"] [.get],
    route ["admin", "feature-flags", "audit"] [.get],
    route ["admin", "indexes", "fragmentation"] [.get],
    route ["admin", "indexes", .param, "reindex"] [.post], route ["networks"] [.get],
    route ["ledgers", .param, "hash"] [.get], route ["ledgers", "verify-chain"] [.get],
    route ["admin", "compression", "stats"] [.get],
    route ["admin", "compression", "migrate"] [.post],
    route ["tokens", .param, "transfers"] [.get], route ["accounts", .param, "events"] [.get],
    route ["events", "sep41"] [.get], route ["contracts", .param, "versions"] [.get],
    route ["contracts", .param] [.get], route ["contracts", .param, "spec"] [.get],
    route ["contracts", .param, "abi", "cached"] [.get], route ["features"] [.get],
    route ["admin", "audit-logs"] [.get], route ["analytics", "trending"] [.get],
    route ["analytics", "correlations"] [.get], route ["export", "csv"] [.get],
    route ["export", "json"] [.get], route ["export", "parquet"] [.get],
    route ["export", "schedule"] [.post], route ["export", "jobs", .param] [.get],
    route ["export", "history"] [.get], route ["push", .param, "schema"] [.get],
    route ["push", .param, "abi"] [.get], route ["events", "batch", "retrieve"] [.post],
    route ["events", "batch", "delete"] [.post], route ["events", "batch", "tag"] [.post],
    route ["events", "batch", "subscriptions"] [.post],
    route ["events", "batch", "transform"] [.post],
    route ["events", "batch", "progress", .param] [.get], route ["stats", "stream"] [.get],
    route ["stats", "stream", "throughput"] [.get], route ["stats", "stream", .param] [.get],
    route ["events", "filter"] [.post], route ["admin", "dsl", "compile"] [.post],
    route ["admin", "dsl", "filters"] [.post, .get]]

/-- `api_key_routes`, under the layer `require_admin_middleware`. -/
def apiKeyRoutes : List (Pattern × List Method) :=
  [route ["admin", "api-keys"] [.post, .get], route ["admin", "api-keys", .param] [.delete]]

def deprecatedRoutes : List (Pattern × List Method) :=
  [route ["events"] [.get], route ["events", "stream"] [.get],
    route ["events", "contract", .param] [.get],
    route ["events", "contract", .param, "stream"] [.get], route ["events", "tx", .param] [.get],
    route ["contracts"] [.get]]

def healthRoutes : List (Pattern × List Method) :=
  [route ["health"] [.get], route ["healthz", "live"] [.get], route ["healthz", "ready"] [.get],
    route ["healthz", "postgres"] [.get], route ["healthz", "rpc"] [.get],
    route ["healthz", "external", .param] [.get], route ["unsubscribe"] [.get],
    route ["metrics"] [.get], route ["v1", "meta"] [.get]]

/-- The routes beside the API; GraphQL has none in this build. -/
def plainRoutes : List (Pattern × List Method) :=
  [route ["status"] [.get], route ["openapi.json"] [.get], route ["docs"] [.get]]

/-- `/v1` -/
def underV1 : Pattern := ["", "v1"]

/-- The routes of a router, mounted under a path. -/
def mount (base : Pattern) (layer : Option RouteLayer) (routes : List (Pattern × List Method)) :
    List (Pattern × Endpoint) :=
  routes.map fun r => (base ++ r.1, ⟨r.2, layer⟩)

/-- What the assembled router serves. -/
def router : List (Pattern × Endpoint) :=
  mount [""] none healthRoutes ++ mount [""] none plainRoutes ++ mount underV1 none v1Routes ++
    mount underV1 (some .requireAdmin) apiKeyRoutes ++ mount [""] none deprecatedRoutes

def endpointOf (path : String) : Option Endpoint := lookup router (split path)

/-! ### Serving a request -/

structure App where
  auth : AuthState
  /-- IP access control and rate limits let the request through. -/
  innerLayers : Request → Bool
  /-- Set, in a build with the `dashboard` feature. -/
  serveDashboard : Bool

def RouteLayer.admit (layer : RouteLayer) (adminApiKeys : List String) (ext : Extensions)
    (req : Request) : Except Refusal Unit :=
  match layer with
  | .adminAuth => adminAuthMiddleware adminApiKeys ext req
  | .requireAdmin => requireAdminMiddleware adminApiKeys ext req

inductive Answer where
  | refused (refusal : Refusal)
  /-- By IP access control or a rate limit. -/
  | blocked
  | notFound
  | methodNotAllowed
  /-- The handler runs. -/
  | handled (ext : Extensions)

/-- `head_middleware` -/
def Request.routedMethod (req : Request) : Method := if req.method = .head then .get else req.method

/-- The routes behind the global layers. -/
def dispatch (app : App) (req : Request) (ext : Extensions) : Answer :=
  if app.serveDashboard && isDashboardPath req.path then .handled ext
  else
    match endpointOf req.path with
    | none => .notFound
    | some endpoint =>
      if req.routedMethod ∉ endpoint.methods then .methodNotAllowed
      else
        match endpoint.layer with
        | none => .handled ext
        | some layer =>
          match layer.admit app.auth.adminApiKeys ext req with
          | .error refusal => .refused refusal
          | .ok () => .handled ext

def serve (app : App) (req : Request) : Answer :=
  match authMiddleware app.auth req with
  | .error refusal => .refused refusal
  | .ok ext => if !app.innerLayers req then .blocked else dispatch app req ext

/-- A handler runs for the request. -/
def App.Runs (app : App) (req : Request) : Prop := ∃ ext, serve app req = .handled ext

/-! ### The admin gate -/

/-- An admin key of the environment, or an active key of the database with the admin scope. -/
def App.Admin (app : App) (req : Request) : Prop :=
  req.Presents app.auth.adminApiKeys ∨
    ∃ key, presentedKey app.auth req = some key ∧ key.hasScope .admin = true

/-- Under `/v1/admin/` handlers run for admins only, and a key that is resolved has the scope. -/
structure App.Gated (app : App) (req : Request) : Prop where
  admin : startsWith req.path "/v1/admin/" = true → app.Runs req → app.Admin req
  scope : ∀ key, resolvedKey app.auth req = some key → app.Runs req →
    key.hasScope (requiredScope req.method req.path) = true

/-- On an admin route without a layer, a request that is no admin's and for which no key of the
    database is found, with all that the global layers ask for. -/
structure App.Exposed (app : App) (req : Request) : Prop where
  path : startsWith req.path "/v1/admin/" = true
  route : ∃ endpoint, endpointOf req.path = some endpoint ∧ endpoint.layer = none ∧
    req.routedMethod ∈ endpoint.methods
  key : lookupScopedKey app.auth (extractApiKey req) = none
  notAdmin : ¬app.Admin req
  valid : app.auth.authEnabled = true → req.Presents app.auth.apiKeys ∧
    (app.auth.multiTenant = true →
      (app.auth.tenantMap.lookup (app.auth.hashApiKey ((extractApiKey req).getD ""))).isSome = true)
  inner : app.innerLayers req = true

/-! ### Paths -/

theorem prefix_of_startsWith {s start : String} (h : startsWith s start = true) :
    start.toList <+: s.toList := List.isPrefixOf_iff_prefix.mp h

/-- Texts that start with one that differs from another within its length do not start with both. -/
theorem startsWith_false {s start other : String} (h : startsWith s start = true) (n : ℕ)
    (hn : n ≤ start.toList.length) (hother : n ≤ other.toList.length)
    (hne : start.toList.take n ≠ other.toList.take n) : startsWith s other = false := by
  rw [← Bool.not_eq_true]
  intro hstarts
  rcases prefix_of_startsWith h with ⟨tail, htail⟩
  rcases prefix_of_startsWith hstarts with ⟨tail', htail'⟩
  apply hne
  calc start.toList.take n = s.toList.take n := by rw [← htail, List.take_append_of_le_length hn]
    _ = other.toList.take n := by rw [← htail', List.take_append_of_le_length hother]

theorem not_public_of_admin {path : String} (h : startsWith path "/v1/admin/" = true) :
    isPublicPath path = false ∧ isDashboardPath path = false := by
  have hne : ∀ other : String, startsWith other "/v1/admin/" = false → path ≠ other := by
    rintro other hother rfl
    rw [h] at hother
    cases hother
  have hhealth : path ≠ "/health" := hne _ (by decide)
  have hunsubscribe : path ≠ "/unsubscribe" := hne _ (by decide)
  have hmeta : path ≠ "/v1/meta" := hne _ (by decide)
  have hui : path ≠ "/ui" := hne _ (by decide)
  have hhealthz : startsWith path "/healthz/" = false :=
    startsWith_false h 2 (by decide) (by decide) (by decide)
  have huiSlash : startsWith path "/ui/" = false :=
    startsWith_false h 2 (by decide) (by decide) (by decide)
  have hdashboard : isDashboardPath path = false := by
    simp [isDashboardPath, MOUNT_PATH, hui, huiSlash]
  refine ⟨?_, hdashboard⟩
  simp [isPublicPath, hhealth, hunsubscribe, hmeta, hhealthz, hdashboard]

/-! ### Who reaches a handler -/

/-- Nothing that is served carries the layer of `admin_routes`. -/
theorem layer_of_mem_router {p : Pattern} {endpoint : Endpoint} (h : (p, endpoint) ∈ router) :
    endpoint.layer = none ∨ endpoint.layer = some .requireAdmin ∧ ∃ r ∈ apiKeyRoutes,
      p = underV1 ++ r.1 := by
  have hlayer : ∀ (base : Pattern) (layer : Option RouteLayer) (routes : List (Pattern × List Method)),
      (p, endpoint) ∈ mount base layer routes →
        endpoint.layer = layer ∧ ∃ r ∈ routes, p = base ++ r.1 := by
    intro base layer routes hmem
    rcases List.mem_map.mp hmem with ⟨r, hr, heq⟩
    obtain ⟨rfl, rfl⟩ := Prod.mk.inj heq
    exact ⟨rfl, r, hr, rfl⟩
  unfold router at h
  simp only [List.mem_append] at h
  rcases h with (((h | h) | h) | h) | h
  · exact .inl (hlayer _ _ _ h).1
  · exact .inl (hlayer _ _ _ h).1
  · exact .inl (hlayer _ _ _ h).1
  · exact .inr (hlayer _ _ _ h)
  · exact .inl (hlayer _ _ _ h).1

/-- Only the routes of the API keys carry a layer. -/
theorem layer_of_endpointOf {path : String} {endpoint : Endpoint}
    (h : endpointOf path = some endpoint) (hlayer : endpoint.layer ≠ none) :
    endpoint.layer = some .requireAdmin ∧
      ∃ r ∈ apiKeyRoutes, Pattern.Matches (underV1 ++ r.1) (split path) := by
  rcases lookup_sound h with ⟨p, hmem, hmatches⟩
  rcases layer_of_mem_router hmem with hnone | ⟨hrequire, r, hr, rfl⟩
  · exact absurd hnone hlayer
  · exact ⟨hrequire, r, hr, hmatches⟩

variable {app : App} {req : Request}

theorem runs_iff : app.Runs req ↔ ∃ ext, authMiddleware app.auth req = .ok ext ∧
    app.innerLayers req = true ∧ ∃ ext', dispatch app req ext = .handled ext' := by
  unfold App.Runs serve
  cases authMiddleware app.auth req with
  | error refusal => simp
  | ok ext => cases app.innerLayers req <;> simp

theorem dispatch_handled_iff {ext : Extensions} (hdashboard : isDashboardPath req.path = false) :
    (∃ ext', dispatch app req ext = .handled ext') ↔ ∃ endpoint, endpointOf req.path = some endpoint ∧
      req.routedMethod ∈ endpoint.methods ∧ ∀ layer, endpoint.layer = some layer →
        layer.admit app.auth.adminApiKeys ext req = .ok () := by
  rw [dispatch, hdashboard, Bool.and_false, if_neg Bool.false_ne_true]
  cases endpointOf req.path with
  | none => simp
  | some endpoint =>
    by_cases hmethod : req.routedMethod ∈ endpoint.methods
    · cases hlayer : endpoint.layer with
      | none => simp [hmethod, hlayer]
      | some layer =>
        cases hcheck : layer.admit app.auth.adminApiKeys ext req with
        | error refusal => simp [hmethod, hlayer, hcheck]
        | ok => simp [hmethod, hlayer, hcheck]
    · simp [hmethod]

/-- An exposed request reaches the handler of its route. -/
theorem runs_of_exposed (h : app.Exposed req) : app.Runs req := by
  rcases not_public_of_admin h.path with ⟨hpublic, hdashboard⟩
  have hkey : resolvedKey app.auth req = none := by
    rw [resolvedKey_eq_lookup hpublic, h.key]
  rcases (authMiddleware_ok_iff hpublic hkey).mpr fun henabled => .inr (h.valid henabled) with ⟨ext, hext⟩
  rcases h.route with ⟨endpoint, hendpoint, hlayer, hmethod⟩
  refine runs_iff.mpr ⟨ext, hext, h.inner, ?_⟩
  refine (dispatch_handled_iff hdashboard).mpr ⟨endpoint, hendpoint, hmethod, ?_⟩
  intro layer hsome
  rw [hlayer] at hsome
  cases hsome

/-- And who reaches a handler under `/v1/admin/` without being an admin is exposed. -/
theorem exposed_of_runs (hpath : startsWith req.path "/v1/admin/" = true) (hruns : app.Runs req)
    (hadmin : ¬app.Admin req) : app.Exposed req := by
  rcases not_public_of_admin hpath with ⟨hpublic, hdashboard⟩
  rcases runs_iff.mp hruns with ⟨ext, hext, hinner, hdispatch⟩
  have hlookup : lookupScopedKey app.auth (extractApiKey req) = resolvedKey app.auth req :=
    (resolvedKey_eq_lookup hpublic).symm
  have hkey : resolvedKey app.auth req = none := by
    cases hresolved : resolvedKey app.auth req with
    | none => rfl
    | some key =>
      have hscope := hasScope_of_resolved hext hresolved
      rw [requiredScope_admin hpath] at hscope
      exact absurd (.inr ⟨key, presentedKey_of_lookup (hlookup.trans hresolved), hscope⟩) hadmin
  rcases (dispatch_handled_iff hdashboard).mp hdispatch with ⟨endpoint, hendpoint, hmethod, hcheck⟩
  have hlayer : endpoint.layer = none := by
    by_contra hsome
    have hrequire := (layer_of_endpointOf hendpoint hsome).1
    rcases requireAdmin_ok (hcheck _ hrequire) with hscoped | hpresents
    · rw [hasAdminScopedKey, scopedApiKey_eq hext, hkey] at hscoped
      cases hscoped
    · exact hadmin (.inl hpresents)
  refine ⟨hpath, ⟨endpoint, hendpoint, hlayer, hmethod⟩, hlookup.trans hkey, hadmin, ?_, hinner⟩
  intro henabled
  rcases (authMiddleware_ok_iff hpublic hkey).mp ⟨ext, hext⟩ henabled with hpresents | hvalid
  · exact absurd (.inl hpresents) hadmin
  · exact hvalid

/-- The gate holds for exactly the requests that are not exposed. -/
theorem gated_iff (app : App) (req : Request) : app.Gated req ↔ ¬app.Exposed req := by
  constructor
  · intro hgated hexposed
    exact hexposed.notAdmin (hgated.admin hexposed.path (runs_of_exposed hexposed))
  · intro hexposed
    refine ⟨?_, ?_⟩
    · intro hpath hruns
      by_contra hadmin
      exact hexposed (exposed_of_runs hpath hruns hadmin)
    · intro key hkey hruns
      rcases runs_iff.mp hruns with ⟨ext, hext, -⟩
      exact hasScope_of_resolved hext hkey

/-! ### A regular key on an admin route -/

/-- One key of each kind, one tenant. -/
def smallApp : App where
  auth :=
    { apiKeys := ["regular"]
      adminApiKeys := ["root"]
      tenantMap := []
      multiTenant := false
      pool := some ⟨[], false⟩
      requireAuth := false
      hashApiKey := fun key => key }
  innerLayers _ := true
  serveDashboard := false

def pauseIndexer : Request where
  method := .post
  path := "/v1/admin/indexer/pause"
  xApiKey := some "regular"

theorem endpointOf_pause : endpointOf "/v1/admin/indexer/pause" = some ⟨[.post], none⟩ := by
  decide

/-- The indexer is paused with a regular key. -/
theorem not_gated_pauseIndexer : ¬∀ (app : App) (req : Request), app.auth.adminApiKeys ≠ [] →
    app.Gated req := by
  intro h
  have hadmin : ¬smallApp.Admin pauseIndexer := by
    rintro (⟨key, hkey, hmem⟩ | ⟨key, hkey, -⟩)
    · cases hkey
      exact absurd hmem (by decide)
    · cases hkey
  have hexposed : smallApp.Exposed pauseIndexer := by
    refine ⟨by decide, ⟨_, endpointOf_pause, rfl, by decide⟩, rfl, hadmin, ?_, rfl⟩
    intro _
    exact ⟨⟨"regular", rfl, by decide⟩, fun hmulti => by cases hmulti⟩
  exact hadmin ((h smallApp pauseIndexer (by decide)).admin hexposed.path (runs_of_exposed hexposed))

end SorobanPulse.Auth
