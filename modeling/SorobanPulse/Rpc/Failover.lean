import SorobanPulse.Lib.After
import SorobanPulse.Rpc.Endpoints

/-! `call_with_failover`: one JSON-RPC request, sent to each endpoint in turn until one of them
    returns a result.

    Another task may record what it sees of the endpoints while the call waits for an answer. -/

namespace SorobanPulse.Rpc
open Lib

structure RpcError where
  message : String

structure RpcResponse (T : Type) where
  result : Option T
  error : Option RpcError

structure SorobanRpcClient where
  endpoints : RpcEndpoints
  activeIdx : ℕ

/-- What a call leaves, the URLs it contacted, in order, and what it returns. -/
structure Call (T : Type) where
  client : SorobanRpcClient
  contacted : List String
  answer : Except String T

def Call.after {T : Type} (url : String) (call : Call T) : Call T :=
  { call with contacted := url :: call.contacted }

section
variable {T : Type} (postOnce : String → Except String (RpcResponse T))
  (others : String → List Record)

/-- The loop of `call_with_failover` over the remaining candidates; `others url` is what other
    tasks record while `url` is contacted. -/
def failover : List ℕ → Option String → String → SorobanRpcClient → Call T
  | [], rpcErr, transportErr, client =>
    { client, contacted := [], answer := .error (rpcErr.getD transportErr) }
  | idx :: rest, rpcErr, transportErr, client =>
    let url := client.endpoints.url idx
    let endpoints := client.endpoints.recordAll (others url)
    match postOnce url with
    | .ok { result := some r, .. } =>
      { client := { endpoints := endpoints.recordSuccess idx, activeIdx := idx }
        contacted := [url]
        answer := .ok r }
    | .ok { result := none, error } =>
      -- a JSON-RPC error does not count against the endpoint; the first of them is kept
      let message := error.elim "RPC returned no result" RpcError.message
      (failover rest (rpcErr.or (some message)) transportErr { client with endpoints }).after url
    | .error e =>
      let endpoints := (endpoints.recordFailure idx).1
      (failover rest rpcErr e { client with endpoints }).after url

def callWithFailover (client : SorobanRpcClient) : Call T :=
  failover postOnce others client.endpoints.candidates none "no RPC endpoint reachable" client

/-- Does the endpoint answer with a result? -/
def answers (url : String) : Bool :=
  match postOnce url with
  | .ok { result := some _, .. } => true
  | _ => false

/-- The message of an endpoint that is reachable but returns no result. -/
def rpcMessage (url : String) : Option String :=
  match postOnce url with
  | .ok { result := none, error } =>
    some (error.elim "RPC returned no result" RpcError.message)
  | _ => none

def transportMessage (url : String) : Option String :=
  match postOnce url with
  | .ok _ => none
  | .error e => some e

/-- A call from `client` reaches an endpoint that answers, if there is one, and stops there. -/
structure CoversEndpoints (client : SorobanRpcClient) : Prop where
  /-- It returns `Ok` exactly if some endpoint answers with a result. -/
  ok_iff : (∃ r, (callWithFailover postOnce others client).answer = .ok r) ↔
    ∃ url ∈ client.endpoints.urls, answers postOnce url = true
  /-- That result is the one of the last endpoint it contacted. -/
  result : ∀ r, (callWithFailover postOnce others client).answer = .ok r →
    ∃ url error, (callWithFailover postOnce others client).contacted.getLast? = some url ∧
      postOnce url = .ok ⟨some r, error⟩
  /-- Endpoints are contacted in the order of the candidates. -/
  inOrder : (callWithFailover postOnce others client).contacted <+:
    client.endpoints.candidates.map client.endpoints.url
  /-- None is contacted after one has answered. -/
  stops : ∀ url ∈ (callWithFailover postOnce others client).contacted.dropLast,
    answers postOnce url = false
  /-- None is contacted twice. -/
  once : (callWithFailover postOnce others client).contacted.Nodup
  /-- If none answers, the first JSON-RPC error is returned, or else the last transport error. -/
  error : (∀ url ∈ client.endpoints.urls, answers postOnce url = false) →
    (callWithFailover postOnce others client).answer = .error
      (((client.endpoints.candidates.map client.endpoints.url).findSome?
        (rpcMessage postOnce)).getD
        (((client.endpoints.candidates.map client.endpoints.url).reverse.findSome?
          (transportMessage postOnce)).getD "no RPC endpoint reachable"))
  /-- The state it leaves is reached by records again. -/
  reachable : ∃ records, (callWithFailover postOnce others client).client.endpoints =
    client.endpoints.recordAll records

variable {postOnce others} {client : SorobanRpcClient}

/-! ### The loop -/

theorem url_congr {e e' : RpcEndpoints} (h : e'.urls = e.urls) : e'.url = e.url := by
  funext idx
  rw [RpcEndpoints.url, RpcEndpoints.url, h]

theorem recordAll_url (e : RpcEndpoints) (records : List Record) :
    (e.recordAll records).url = e.url :=
  url_congr (recordAll_urls e records)

/-- One turn of the loop: the endpoint answers and the call returns its result, or it does not and
    the call goes on with the rest. -/
theorem failover_cons (postOnce : String → Except String (RpcResponse T))
    (others : String → List Record) (idx : ℕ) (rest : List ℕ) (rpcErr : Option String)
    (transportErr : String) (client : SorobanRpcClient) :
    ∃ client' records, client'.endpoints = client.endpoints.recordAll records ∧
      ((∃ r error, postOnce (client.endpoints.url idx) = .ok ⟨some r, error⟩ ∧
        failover postOnce others (idx :: rest) rpcErr transportErr client =
          { client := client', contacted := [client.endpoints.url idx], answer := .ok r }) ∨
      (answers postOnce (client.endpoints.url idx) = false ∧
        failover postOnce others (idx :: rest) rpcErr transportErr client =
          (failover postOnce others rest
            (rpcErr.or (rpcMessage postOnce (client.endpoints.url idx)))
            ((transportMessage postOnce (client.endpoints.url idx)).getD transportErr)
            client').after (client.endpoints.url idx))) := by
  rw [failover]
  dsimp only
  split
  · -- a result ends the call and is a success of the endpoint
    next r error hpost =>
    refine ⟨_, others (client.endpoints.url idx) ++ [.success idx], ?_,
      .inl ⟨r, error, hpost, rfl⟩⟩
    rw [recordAll_append]
    rfl
  · -- an error in the answer is remembered, and counts for nothing
    next error hpost =>
    refine ⟨{ client with endpoints :=
      client.endpoints.recordAll (others (client.endpoints.url idx)) }, others _, rfl,
      .inr ⟨by rw [answers, hpost], ?_⟩⟩
    rw [rpcMessage, transportMessage, hpost]
    rfl
  · -- no answer is a failure of the endpoint
    next e hpost =>
    refine ⟨{ client with endpoints :=
      ((client.endpoints.recordAll (others (client.endpoints.url idx))).recordFailure idx).1 },
      others (client.endpoints.url idx) ++ [.failure idx], ?_,
      .inr ⟨by rw [answers, hpost], ?_⟩⟩
    · rw [recordAll_append]
      rfl
    · rw [rpcMessage, transportMessage, hpost, Option.or_none]
      rfl

theorem answers_of_result {url : String} {r : T} {error : Option RpcError}
    (h : postOnce url = .ok ⟨some r, error⟩) : answers postOnce url = true := by
  rw [answers, h]

/-- The loop tries the candidates up to the first that answers. -/
theorem contacted_failover (idxs : List ℕ) (rpcErr : Option String) (transportErr : String)
    (client : SorobanRpcClient) :
    (failover postOnce others idxs rpcErr transportErr client).contacted =
      upTo (answers postOnce) (idxs.map client.endpoints.url) := by
  induction idxs generalizing rpcErr transportErr client with
  | nil => rfl
  | cons idx rest ih =>
    rw [List.map_cons, upTo]
    obtain ⟨client', records, hclient, ⟨r, error, hpost, heq⟩ | ⟨hsilent, heq⟩⟩ :=
      failover_cons postOnce others idx rest rpcErr transportErr client
    · rw [heq, if_pos (answers_of_result hpost)]
    · rw [heq, if_neg (by rw [hsilent]; exact Bool.false_ne_true), Call.after, ih, hclient,
        recordAll_url]

theorem ok_failover_iff (idxs : List ℕ) (rpcErr : Option String) (transportErr : String)
    (client : SorobanRpcClient) :
    (∃ r, (failover postOnce others idxs rpcErr transportErr client).answer = .ok r) ↔
      ∃ idx ∈ idxs, answers postOnce (client.endpoints.url idx) = true := by
  induction idxs generalizing rpcErr transportErr client with
  | nil => simp [failover]
  | cons idx rest ih =>
    simp only [List.mem_cons, exists_eq_or_imp]
    obtain ⟨client', records, hclient, ⟨r, error, hpost, heq⟩ | ⟨hsilent, heq⟩⟩ :=
      failover_cons postOnce others idx rest rpcErr transportErr client
    · rw [heq]
      exact ⟨fun _ => .inl (answers_of_result hpost), fun _ => ⟨r, rfl⟩⟩
    · rw [heq, hsilent, Call.after, ih, hclient, recordAll_url]
      simp only [Bool.false_eq_true, false_or]

theorem result_failover (idxs : List ℕ) (rpcErr : Option String) (transportErr : String)
    (client : SorobanRpcClient) {r : T}
    (h : (failover postOnce others idxs rpcErr transportErr client).answer = .ok r) :
    ∃ url error, (failover postOnce others idxs rpcErr transportErr client).contacted.getLast? =
      some url ∧ postOnce url = .ok ⟨some r, error⟩ := by
  induction idxs generalizing rpcErr transportErr client with
  | nil => cases h
  | cons idx rest ih =>
    obtain ⟨client', records, _, ⟨r', error, hpost, heq⟩ | ⟨_, heq⟩⟩ :=
      failover_cons postOnce others idx rest rpcErr transportErr client
    · rw [heq] at h ⊢
      cases h
      exact ⟨_, error, rfl, hpost⟩
    · rw [heq] at h ⊢
      obtain ⟨url, error, hlast, hpost⟩ := ih _ _ client' h
      refine ⟨url, error, ?_, hpost⟩
      rw [Call.after, List.getLast?_cons, hlast]
      rfl

theorem error_failover (idxs : List ℕ) (rpcErr : Option String) (transportErr : String)
    (client : SorobanRpcClient)
    (h : ∀ idx ∈ idxs, answers postOnce (client.endpoints.url idx) = false) :
    (failover postOnce others idxs rpcErr transportErr client).answer =
      .error ((rpcErr.or ((idxs.map client.endpoints.url).findSome? (rpcMessage postOnce))).getD
        (((idxs.map client.endpoints.url).reverse.findSome? (transportMessage postOnce)).getD
          transportErr)) := by
  induction idxs generalizing rpcErr transportErr client with
  | nil => simp [failover]
  | cons idx rest ih =>
    obtain ⟨client', records, hclient, ⟨r, error, hpost, heq⟩ | ⟨_, heq⟩⟩ :=
      failover_cons postOnce others idx rest rpcErr transportErr client
    · have hsilent := h idx List.mem_cons_self
      rw [answers_of_result hpost] at hsilent
      cases hsilent
    · have hrest : ∀ idx ∈ rest, answers postOnce (client'.endpoints.url idx) = false := by
        rw [hclient, recordAll_url]
        exact fun idx hidx => h idx (List.mem_cons_of_mem _ hidx)
      rw [heq, Call.after, ih _ _ client' hrest, hclient, recordAll_url, List.map_cons,
        List.findSome?_cons, List.reverse_cons, List.findSome?_append]
      cases hrpc : rpcMessage postOnce (client.endpoints.url idx) <;>
        cases htransport : transportMessage postOnce (client.endpoints.url idx) <;>
        simp [htransport, Option.getD_or]

theorem failover_records (idxs : List ℕ) (rpcErr : Option String) (transportErr : String)
    (client : SorobanRpcClient) :
    ∃ records, (failover postOnce others idxs rpcErr transportErr client).client.endpoints =
      client.endpoints.recordAll records := by
  induction idxs generalizing rpcErr transportErr client with
  | nil => exact ⟨[], rfl⟩
  | cons idx rest ih =>
    obtain ⟨client', records, hclient, ⟨r, error, hpost, heq⟩ | ⟨_, heq⟩⟩ :=
      failover_cons postOnce others idx rest rpcErr transportErr client
    · exact ⟨records, by rw [heq, hclient]⟩
    · obtain ⟨more, hmore⟩ := ih (rpcErr.or (rpcMessage postOnce (client.endpoints.url idx)))
        ((transportMessage postOnce (client.endpoints.url idx)).getD transportErr) client'
      refine ⟨records ++ more, ?_⟩
      rw [heq, Call.after, hmore, hclient, RpcEndpoints.recordAll, RpcEndpoints.recordAll,
        RpcEndpoints.recordAll, List.foldl_append]

/-! ### The call -/

/-- The candidates are the configured URLs, in another order. -/
theorem candidates_urls (e : RpcEndpoints) : (e.candidates.map e.url).Perm e.urls := by
  have hperm := (candidates_perm e).map e.url
  refine hperm.trans (List.Perm.of_eq ?_)
  refine List.ext_getElem (by simp [RpcEndpoints.len]) ?_
  intro i hi hi'
  simp [RpcEndpoints.url, List.getD_eq_getElem?_getD, hi']

theorem coversEndpoints (postOnce : String → Except String (RpcResponse T))
    (others : String → List Record) (client : SorobanRpcClient) :
    CoversEndpoints postOnce others client where
  ok_iff := by
    have hurls := candidates_urls client.endpoints
    rw [callWithFailover, ok_failover_iff]
    simp only [← hurls.mem_iff, List.mem_map, exists_exists_and_eq_and]
  result := fun _ h => result_failover _ _ _ _ h
  inOrder := by
    rw [callWithFailover, contacted_failover]
    exact isPrefix_upTo _ _
  stops := by
    intro url hurl
    rw [callWithFailover, contacted_failover] at hurl
    exact not_of_mem_dropLast_upTo hurl
  once := by
    rw [callWithFailover, contacted_failover]
    have hnodup := (candidates_urls client.endpoints).nodup_iff.mpr client.endpoints.nodup
    exact hnodup.sublist (isPrefix_upTo _ _).sublist
  error := by
    intro hnone
    have hurls := candidates_urls client.endpoints
    exact error_failover _ none _ client fun idx hidx =>
      hnone _ (hurls.mem_iff.mp (List.mem_map_of_mem hidx))
  reachable := failover_records _ _ _ client

end

end SorobanPulse.Rpc
