import SorobanPulse.Idempotency.Store
import SorobanPulse.Lib.Utf8
import SorobanPulse.Xdr.ScVal

/-! The idempotency middleware, serving one request after the other.

    A POST with a key is looked up under `"{path}:{key}"`; the body hash is computed and not used:

        unexpired record ──▶ replay its status and text
        none             ──▶ run the handler, store a success, answer with at most 1 MiB of body

    `Right` is the contract of the doc comment: replay only for the same path, key and body hash, and
    otherwise the handler's very answer. `right_iff_intact`: it is kept exactly when every keyed POST
    is `Intact`. -/

namespace SorobanPulse.Idempotency
open Lib

structure Request where
  method : String
  path : String
  /-- The `Idempotency-Key` header, if it is readable. -/
  idempotencyKey : Option String
  body : List UInt8

structure StatusCode where
  code : ℕ
  valid : 100 ≤ code ∧ code ≤ 999

def StatusCode.isSuccess (status : StatusCode) : Bool := 200 ≤ status.code && status.code ≤ 299

def StatusCode.asU16 (status : StatusCode) : UInt16 := UInt16.ofNat status.code

def StatusCode.fromU16 (n : UInt16) : Option StatusCode :=
  if h : 100 ≤ n.toNat ∧ n.toNat ≤ 999 then some ⟨n.toNat, h⟩ else none

def OK : StatusCode := ⟨200, by omega⟩
def BAD_REQUEST : StatusCode := ⟨400, by omega⟩

structure Response where
  status : StatusCode
  body : List UInt8
  /-- The header `idempotent-replayed: true`. -/
  replayed : Bool := false

/-- The limit of `to_bytes`, 1 MiB. -/
def BODY_LIMIT : ℕ := 1024 * 1024

def toBytes (body : List UInt8) : Option (List UInt8) :=
  if body.length ≤ BODY_LIMIT then some body else none

/-- SHA-256 in hex; the middleware computes it of the request and drops it. -/
def hashBody (sha256 : List UInt8 → List UInt8) (body : List UInt8) : String :=
  Xdr.hexEncode (sha256 body)

def scopedKey (route idempotencyKey : String) : String := route ++ ":" ++ idempotencyKey

/-- How a request is taken up. -/
inductive Lookup where
  | passThrough
  | tooLarge
  | hit (cached : IdempotencyRecord)
  | miss (key : String)

def lookup (store : InMemoryStore) (now : ℕ) (req : Request) : Lookup :=
  if req.method ≠ "POST" then .passThrough
  else
    match req.idempotencyKey with
    | none => .passThrough
    | some rawKey =>
      match toBytes req.body with
      | none => .tooLarge
      | some _ =>
        match store.get now (scopedKey req.path rawKey) with
        | some cached => .hit cached
        | none => .miss (scopedKey req.path rawKey)

def replay (cached : IdempotencyRecord) : Response :=
  { status := (StatusCode.fromU16 cached.statusCode).getD OK, body := asBytes cached.body
    replayed := true }

/-- The body that is cached and sent: empty when it is too large. -/
def respBytes (response : Response) : List UInt8 := (toBytes response.body).getD []

/-- The record of a handler's answer. -/
def newRecord (ttl now : ℕ) (response : Response) : IdempotencyRecord :=
  { statusCode := response.status.asU16, body := fromUtf8Lossy (respBytes response)
    createdAt := now, ttl }

/-- Only a success is stored. -/
def remember (ttl : ℕ) (store : InMemoryStore) (key : String) (now : ℕ) (response : Response) :
    InMemoryStore :=
  if response.status.isSuccess then store.put key (newRecord ttl now response) else store

/-- A request, and what its handler answers if it is run. -/
structure Call where
  request : Request
  /-- When the store is asked. -/
  arrived : ℕ
  handler : Response
  /-- When the handler's answer is stored. -/
  finished : ℕ

inductive Source where
  | handler
  | cache
  | refused
  deriving DecidableEq

def idempotencyMiddleware (ttl : ℕ) (store : InMemoryStore) (call : Call) :
    (Source × Response) × InMemoryStore :=
  match lookup store call.arrived call.request with
  | .passThrough => ((.handler, call.handler), store)
  | .tooLarge =>
    ((.refused, { status := BAD_REQUEST, body := asBytes "request body too large" }), store)
  | .hit cached => ((.cache, replay cached), store)
  | .miss key =>
    ((.handler, { call.handler with body := respBytes call.handler }),
      remember ttl store key call.finished call.handler)

/-! ### Histories -/

/-- A keyed POST whose handler succeeded. -/
structure Entry where
  path : String
  key : String
  body : List UInt8
  response : Response
  stored : ℕ

def Entry.scopedKey (e : Entry) : String := Idempotency.scopedKey e.path e.key

def Entry.record (ttl : ℕ) (e : Entry) : IdempotencyRecord := newRecord ttl e.stored e.response

structure Served where
  clock : ℕ
  store : InMemoryStore
  /-- The keyed POSTs that succeeded. -/
  past : List Entry
  /-- The one whose answer is stored under a key. -/
  origin : String → Option Entry

def Served.new : Served := ⟨0, .new, [], fun _ => none⟩

def Call.entry (call : Call) (rawKey : String) : Entry :=
  { path := call.request.path, key := rawKey, body := call.request.body, response := call.handler
    stored := call.finished }

section
variable (ttl : ℕ)

/-- Serve a call that does not overlap the ones before it. -/
def Served.step (s : Served) (call : Call) : Option Served :=
  if s.clock ≤ call.arrived ∧ call.arrived ≤ call.finished then
    let store := (idempotencyMiddleware ttl s.store call).2
    match lookup s.store call.arrived call.request, call.request.idempotencyKey with
    | .miss key, some rawKey =>
      if call.handler.status.isSuccess then
        some
          { clock := call.finished, store, past := call.entry rawKey :: s.past
            origin := Function.update s.origin key (some (call.entry rawKey)) }
      else some { s with clock := call.finished, store }
    | _, _ => some { s with clock := call.finished, store }
  else none

variable (sha256 : List UInt8 → List UInt8)

/-- `e` is a success that may be replayed to the request. -/
structure Replayable (e : Entry) (req : Request) (now : ℕ) : Prop where
  path : e.path = req.path
  key : req.idempotencyKey = some e.key
  hash : hashBody sha256 e.body = hashBody sha256 req.body
  unexpired : now - e.stored ≤ ttl

/-- The call is answered from the cache only with such a success, and else by its handler. -/
def Right (s : Served) (call : Call) : Prop :=
  let (source, response) := (idempotencyMiddleware ttl s.store call).1
  match source with
  | .cache =>
    ∃ e ∈ s.past, Replayable ttl sha256 e call.request call.arrived ∧
      response.status = e.response.status ∧ response.body = e.response.body
  | .handler => response.status = call.handler.status ∧ response.body = call.handler.body
  | .refused => False

/-- A body that is cached and sent as it is. -/
def Whole (body : List UInt8) : Prop := body.length ≤ BODY_LIMIT ∧ ValidUtf8 body

/-- A keyed POST whose body is not too large. If an unexpired record is stored under its scoped key,
    it is that of the same path, key and body hash and of a whole answer; else the handler's answer
    is not too large. -/
def Intact (s : Served) (call : Call) : Prop :=
  ∀ rawKey, call.request.method = "POST" → call.request.idempotencyKey = some rawKey →
    call.request.body.length ≤ BODY_LIMIT ∧
      match s.store.get call.arrived (scopedKey call.request.path rawKey),
        s.origin (scopedKey call.request.path rawKey) with
      | some _, some e =>
        e.path = call.request.path ∧ e.key = rawKey ∧
          hashBody sha256 e.body = hashBody sha256 call.request.body ∧ Whole e.response.body
      | _, _ => call.handler.body.length ≤ BODY_LIMIT

end

/-! ### Lookups -/

section
variable {store : InMemoryStore} {now : ℕ} {req : Request} {rawKey : String}

theorem lookup_unkeyed (h : req.method = "POST" → req.idempotencyKey = none) :
    lookup store now req = .passThrough := by
  rw [lookup]
  split
  · rfl
  · next hpost => rw [h (not_not.mp hpost)]

theorem lookup_keyed (hpost : req.method = "POST") (hkey : req.idempotencyKey = some rawKey)
    (hbody : req.body.length ≤ BODY_LIMIT) :
    lookup store now req =
      match store.get now (scopedKey req.path rawKey) with
      | some cached => .hit cached
      | none => .miss (scopedKey req.path rawKey) := by
  rw [lookup, if_neg (not_not.mpr hpost), hkey]
  dsimp only
  rw [toBytes, if_pos hbody]

theorem lookup_tooLarge (hpost : req.method = "POST") (hkey : req.idempotencyKey = some rawKey)
    (hbody : ¬ req.body.length ≤ BODY_LIMIT) : lookup store now req = .tooLarge := by
  rw [lookup, if_neg (not_not.mpr hpost), hkey]
  dsimp only
  rw [toBytes, if_neg hbody]

/-- A miss is that of a keyed POST with nothing to replay. -/
theorem lookup_eq_miss {key : String} (h : lookup store now req = .miss key) :
    ∃ rawKey, req.idempotencyKey = some rawKey ∧ key = scopedKey req.path rawKey ∧
      store.get now key = none := by
  unfold lookup at h
  split at h
  · cases h
  · split at h
    · cases h
    · next rawKey hkey =>
      split at h
      · cases h
      · split at h
        · cases h
        · next hget =>
          obtain ⟨⟩ := h
          exact ⟨rawKey, hkey, rfl, hget⟩

end

/-! ### What is stored -/

theorem fromU16_asU16 (status : StatusCode) : StatusCode.fromU16 status.asU16 = some status := by
  obtain ⟨code, hvalid⟩ := status
  have hcode : (UInt16.ofNat code).toNat = code := UInt16.toNat_ofNat_of_lt' (by
    rw [UInt16.size]; omega)
  rw [StatusCode.asU16, StatusCode.fromU16]
  simp only [hcode, hvalid, and_self, dite_true]

theorem respBytes_eq_iff {response : Response} :
    respBytes response = response.body ↔ response.body.length ≤ BODY_LIMIT := by
  rw [respBytes, toBytes]
  split
  · next h => exact iff_of_true rfl h
  · next h =>
    refine iff_of_false (fun heq => h ?_) h
    rw [← heq]
    exact Nat.zero_le _

/-- A replayed answer has the status of the stored one, and its body exactly if that is whole. -/
theorem replay_record (ttl : ℕ) (e : Entry) :
    (replay (e.record ttl)).status = e.response.status ∧
      ((replay (e.record ttl)).body = e.response.body ↔ Whole e.response.body) := by
  refine ⟨?_, ?_⟩
  · rw [replay, Entry.record, newRecord, fromU16_asU16]
    rfl
  · rw [replay, Entry.record, newRecord, Whole, ← respBytes_eq_iff]
    dsimp only
    constructor
    · intro h
      by_cases hlen : respBytes e.response = e.response.body
      · rw [hlen] at h
        exact ⟨hlen, asBytes_fromUtf8Lossy_iff.mp h⟩
      · -- a body that is too large is replayed empty
        rw [respBytes_eq_iff] at hlen
        rw [respBytes, toBytes, if_neg hlen] at h
        exact absurd (h ▸ Nat.zero_le _ : e.response.body.length ≤ BODY_LIMIT) hlen
    · rintro ⟨hlen, hvalid⟩
      rw [hlen]
      exact asBytes_fromUtf8Lossy_iff.mpr hvalid

/-- Every record is that of a past success, and the successes that have not expired are stored. -/
structure Inv (ttl : ℕ) (s : Served) : Prop where
  stored : ∀ key r, s.store.records key = some r → ∃ e ∈ s.past, s.origin key = some e ∧
    e.scopedKey = key ∧ r = e.record ttl
  latest : ∀ e ∈ s.past, s.clock - e.stored ≤ ttl → s.origin e.scopedKey = some e ∧
    s.store.records e.scopedKey = some (e.record ttl)

section
variable {ttl : ℕ} {sha256 : List UInt8 → List UInt8} {s t : Served} {call : Call}

theorem inv_new (ttl : ℕ) : Inv ttl .new :=
  ⟨fun _ _ h => absurd h (Option.some_ne_none _).symm, fun _ h => absurd h List.not_mem_nil⟩

/-- What serving a call does: time passes, and a success of a keyed POST may be stored. -/
theorem step_cases (h : s.step ttl call = some t) :
    s.clock ≤ call.arrived ∧ call.arrived ≤ call.finished ∧
      (t = { s with clock := call.finished } ∨
        ∃ e : Entry, e.stored = call.finished ∧ s.store.get call.arrived e.scopedKey = none ∧
          t = { clock := call.finished, store := s.store.put e.scopedKey (e.record ttl)
                past := e :: s.past, origin := Function.update s.origin e.scopedKey (some e) }) := by
  obtain ⟨⟨harr, hfin⟩, h⟩ := Option.ite_none_right_eq_some.mp h
  refine ⟨harr, hfin, ?_⟩
  rw [idempotencyMiddleware] at h
  cases hlook : lookup s.store call.arrived call.request with
  | passThrough | tooLarge | hit cached =>
    rw [hlook] at h
    exact .inl (Option.some.inj h).symm
  | miss key =>
    obtain ⟨rawKey, hkey, rfl, hget⟩ := lookup_eq_miss hlook
    rw [hlook, hkey] at h
    dsimp only at h
    rw [remember] at h
    split at h
    · exact .inr ⟨call.entry rawKey, rfl, hget, (Option.some.inj h).symm⟩
    · exact .inl (Option.some.inj h).symm

theorem inv_step (hs : s.step ttl call = some t) (h : Inv ttl s) : Inv ttl t := by
  obtain ⟨harr, hfin, rfl | ⟨e, hstored, hmiss, rfl⟩⟩ := step_cases hs
  · refine ⟨h.stored, fun e he hlive => h.latest e he ?_⟩
    dsimp only at hlive
    omega
  · refine ⟨?_, ?_⟩
    · intro key r hr
      have hput : (s.store.put e.scopedKey (e.record ttl)).records key = some r := hr
      rw [records_put] at hput
      split at hput
      · next hk =>
        subst hk
        exact ⟨e, List.mem_cons_self, Function.update_self .., rfl, (Option.some.inj hput).symm⟩
      · next hk =>
        obtain ⟨e', he', horigin, hkey, hrec⟩ := h.stored key r hput
        exact ⟨e', List.mem_cons_of_mem _ he', (Function.update_of_ne hk ..).trans horigin, hkey,
          hrec⟩
    · intro e' he' hlive
      dsimp only at hlive
      rcases List.mem_cons.mp he' with rfl | he'
      · exact ⟨Function.update_self .., (records_put ..).trans (if_pos rfl)⟩
      · obtain ⟨horigin, hrec⟩ := h.latest e' he' (by omega)
        have hne : e'.scopedKey ≠ e.scopedKey := by
          -- what has not expired would have been found
          intro heq
          rw [← heq, InMemoryStore.get, hrec, visible_of_live] at hmiss
          · cases hmiss
          · rw [Bool.eq_false_iff, Ne, isExpired_iff]
            dsimp only [Entry.record, newRecord]
            omega
        exact ⟨(Function.update_of_ne hne ..).trans horigin,
          (records_put ..).trans ((if_neg hne).trans hrec)⟩

/-! ### Right answers -/

/-- What a lookup finds was stored for a success that has not expired. -/
theorem Inv.origin_of_get (h : Inv ttl s) {now : ℕ} {key : String} {cached : IdempotencyRecord}
    (hget : s.store.get now key = some cached) :
    ∃ e ∈ s.past, s.origin key = some e ∧ cached = e.record ttl ∧ now - e.stored ≤ ttl := by
  obtain ⟨hrec, hlive⟩ := Option.filter_eq_some_iff.mp hget
  obtain ⟨e, he, horigin, -, rfl⟩ := h.stored key cached hrec
  refine ⟨e, he, horigin, rfl, ?_⟩
  rw [Bool.not_eq_true', Bool.eq_false_iff, Ne, isExpired_iff, Nat.not_lt] at hlive
  exact hlive

/-- A record is replayed rightly exactly when it is that of the request and of a whole answer: no
    other success of the request can be unexpired. -/
theorem replay_right_iff (h : Inv ttl s) (harr : s.clock ≤ call.arrived) {rawKey : String}
    {e : Entry} (hkey : call.request.idempotencyKey = some rawKey) (he : e ∈ s.past)
    (horigin : s.origin (scopedKey call.request.path rawKey) = some e)
    (hlive : call.arrived - e.stored ≤ ttl) :
    (∃ e' ∈ s.past, Replayable ttl sha256 e' call.request call.arrived ∧
        (replay (e.record ttl)).status = e'.response.status ∧
        (replay (e.record ttl)).body = e'.response.body) ↔
      e.path = call.request.path ∧ e.key = rawKey ∧
        hashBody sha256 e.body = hashBody sha256 call.request.body ∧ Whole e.response.body := by
  constructor
  · rintro ⟨e', he', hrep, -, hbody⟩
    have hkey' : e'.key = rawKey := Option.some.inj (hrep.key.symm.trans hkey)
    have hlive' := hrep.unexpired
    obtain ⟨horigin', -⟩ := h.latest e' he' (by omega)
    rw [Entry.scopedKey, hrep.path, hkey', horigin] at horigin'
    obtain rfl := Option.some.inj horigin'
    exact ⟨hrep.path, hkey', hrep.hash, (replay_record ttl e).2.mp hbody⟩
  · rintro ⟨hpath, rfl, hhash, hwhole⟩
    exact ⟨e, he, ⟨hpath, hkey, hhash, hlive⟩, (replay_record ttl e).1,
      (replay_record ttl e).2.mpr hwhole⟩

theorem right_iff_intact (hs : s.step ttl call = some t) (h : Inv ttl s) :
    Right ttl sha256 s call ↔ Intact sha256 s call := by
  obtain ⟨harr, -, -⟩ := step_cases hs
  rw [Right, idempotencyMiddleware]
  by_cases hkeyed : call.request.method = "POST" → call.request.idempotencyKey = none
  · rw [lookup_unkeyed hkeyed]
    refine iff_of_true ⟨rfl, rfl⟩ fun rawKey hpost hkey => ?_
    rw [hkeyed hpost] at hkey
    cases hkey
  · obtain ⟨hpost, hsome⟩ := Classical.not_imp.mp hkeyed
    obtain ⟨rawKey, hkey⟩ := Option.ne_none_iff_exists'.mp hsome
    have hintact : Intact sha256 s call ↔ call.request.body.length ≤ BODY_LIMIT ∧
        match s.store.get call.arrived (scopedKey call.request.path rawKey),
          s.origin (scopedKey call.request.path rawKey) with
        | some _, some e =>
          e.path = call.request.path ∧ e.key = rawKey ∧
            hashBody sha256 e.body = hashBody sha256 call.request.body ∧ Whole e.response.body
        | _, _ => call.handler.body.length ≤ BODY_LIMIT := by
      refine ⟨fun hall => hall rawKey hpost hkey, fun hone rawKey' _ hkey' => ?_⟩
      obtain rfl := Option.some.inj (hkey.symm.trans hkey')
      exact hone
    rw [hintact]
    by_cases hbody : call.request.body.length ≤ BODY_LIMIT
    · rw [lookup_keyed hpost hkey hbody, and_iff_right hbody]
      cases hget : s.store.get call.arrived (scopedKey call.request.path rawKey) with
      | none => exact (and_iff_right rfl).trans respBytes_eq_iff
      | some cached =>
        obtain ⟨e, he, horigin, rfl, hlive⟩ := h.origin_of_get hget
        rw [horigin]
        exact replay_right_iff h harr hkey he horigin hlive
    · rw [lookup_tooLarge hpost hkey hbody]
      exact iff_of_false id fun hand => hbody hand.1

end

/-- A sequence of calls that do not overlap is answered rightly throughout exactly when all of its
    calls are intact. -/
theorem run_right_iff_intact (ttl : ℕ) (sha256 : List UInt8 → List UInt8) (calls : List Call)
    (u : Served) :
    Run (Served.step ttl) (Right ttl sha256) .new calls u ↔
      Run (Served.step ttl) (Intact sha256) .new calls u :=
  Run.congr (P := Right ttl sha256) (Q := Intact sha256) (fun hs h => inv_step hs h)
    (fun hs h => right_iff_intact hs h) (inv_new ttl)

def post (path key : String) (body : String) : Request :=
  { method := "POST", path, idempotencyKey := some key, body := asBytes body }

def answer (body : String) : Response := { status := OK, body := asBytes body }

/-- The key is used again, a second later and for another body. -/
def otherBody : List Call :=
  [⟨post "/v1/webhooks" "k" "a", 1000000000, answer "a", 1000000000⟩,
    ⟨post "/v1/webhooks" "k" "b", 2000000000, answer "b", 2000000000⟩]

/-- The second request is answered with the first one's response. -/
theorem not_right_otherBody :
    ¬ ∀ (ttl : ℕ) (sha256 : List UInt8 → List UInt8) (calls : List Call) (u : Served),
      AnyRun (Served.step ttl) .new calls u →
        Run (Served.step ttl) (Right ttl sha256) .new calls u := by
  intro h
  have hrun := h DEFAULT_TTL id otherBody _ (.cons trivial rfl (.cons trivial rfl (.nil _)))
  obtain - | ⟨-, hs, - | ⟨hright, -, -⟩⟩ := hrun
  obtain rfl := Option.some.inj hs
  obtain ⟨e, he, hrep, -⟩ := hright
  obtain rfl := List.mem_singleton.mp he
  exact absurd hrep.hash (by decide)

end SorobanPulse.Idempotency
