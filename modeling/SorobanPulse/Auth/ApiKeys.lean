import SorobanPulse.Lib.PathRouter

/-! API keys kept in the database, with the scopes they grant.

    Only the hash of a key is stored. `admin` implies every scope; the scope that a request needs is
    read off its method and path. -/

namespace SorobanPulse.Auth
open PathRouter

inductive Method where
  | get
  | head
  | options
  | post
  | put
  | delete
  | patch
  | other (name : String)
  deriving DecidableEq, Repr

/-- `s.starts_with(start)` -/
def startsWith (s start : String) : Bool := start.toList.isPrefixOf s.toList

/-- `s.strip_prefix(start)` -/
def stripPrefix (s start : String) : Option String :=
  if startsWith s start then some (String.ofList (s.toList.drop start.toList.length)) else none

/-! ### Scopes -/

inductive ApiKeyScope where
  | readEvents
  | writeSubscriptions
  | admin
  deriving DecidableEq, Repr

def ApiKeyScope.ALL : List ApiKeyScope := [.readEvents, .writeSubscriptions, .admin]

def ApiKeyScope.asStr : ApiKeyScope → String
  | .readEvents => "read:events"
  | .writeSubscriptions => "write:subscriptions"
  | .admin => "admin"

def ApiKeyScope.parse (s : String) : Option ApiKeyScope := ALL.find? fun scope => scope.asStr = s

def READ_ONLY_POST_PATHS : List String := ["/v1/events/tx/batch", "/graphql"]

def isAdminPath (path : String) : Bool :=
  decide (path = "/v1/admin") || startsWith path "/v1/admin/" || decide (path = "/admin") ||
    startsWith path "/admin/"

def requiredScope (method : Method) (path : String) : ApiKeyScope :=
  if isAdminPath path then .admin
  else if method = .get ∨ method = .head ∨ method = .options ∨
      (method = .post ∧ path ∈ READ_ONLY_POST_PATHS) then .readEvents
  else if "subscriptions" ∈ split path then .writeSubscriptions
  else .admin

theorem requiredScope_admin {path : String} (h : startsWith path "/v1/admin/" = true)
    (method : Method) : requiredScope method path = .admin := by
  rw [requiredScope, if_pos]
  rw [isAdminPath, h, Bool.or_true, Bool.true_or, Bool.true_or]

/-! ### Lookup -/

def KEY_PREFIX : String := "sp_"

structure ScopedApiKey where
  id : BitVec 128
  name : String
  scopes : List ApiKeyScope
  tenantId : Option String

def ScopedApiKey.hasScope (k : ScopedApiKey) (scope : ApiKeyScope) : Bool :=
  k.scopes.contains .admin || k.scopes.contains scope

/-- A row of `api_keys`. -/
structure ApiKeyRow where
  id : BitVec 128
  name : String
  keyHash : String
  scopes : List String
  tenantId : Option String
  /-- `revoked_at IS NOT NULL` -/
  revoked : Bool

/-- The table, and whether the query for a key fails. -/
structure ApiKeyTable where
  rows : List ApiKeyRow
  queryFails : Bool

/-- The active key of this value; scopes it does not know are dropped. -/
def activeKey (hashApiKey : String → String) (rows : List ApiKeyRow) (rawKey : String) :
    Option ScopedApiKey :=
  (rows.find? fun r => r.keyHash = hashApiKey rawKey ∧ r.revoked = false).map fun r =>
    { id := r.id
      name := r.name
      scopes := r.scopes.filterMap ApiKeyScope.parse
      tenantId := r.tenantId }

/-- `none` is a failed query. -/
def lookupActiveKey (hashApiKey : String → String) (table : ApiKeyTable) (rawKey : String) :
    Option (Option ScopedApiKey) :=
  if !startsWith rawKey KEY_PREFIX then some none
  else if table.queryFails then none
  else some (activeKey hashApiKey table.rows rawKey)

theorem activeKey_of_lookup {hashApiKey : String → String} {table : ApiKeyTable} {rawKey : String}
    {key : ScopedApiKey} (h : lookupActiveKey hashApiKey table rawKey = some (some key)) :
    startsWith rawKey KEY_PREFIX = true ∧ activeKey hashApiKey table.rows rawKey = some key := by
  unfold lookupActiveKey at h
  split at h
  · cases h
  · next hstart =>
    rw [Bool.not_eq_true, Bool.not_eq_false'] at hstart
    split at h
    · cases h
    · exact ⟨hstart, Option.some.inj h⟩

end SorobanPulse.Auth
