import SorobanPulse.Lib.Run
import SorobanPulse.Events.PaginationParams

/-! Connection accounting of the two SSE handlers.

    Both count a request in before they build its stream, and count it out where the stream ends.

        stream_events_internal   limits ─▶ count in ─▶ contract_id ─▶ stream ─▶ end: count out
                                                       └ invalid: count out
        stream_events_multi      contract_ids ─▶ limits ─▶ count in ─▶ stream ─▶ end: count out

    A client that disconnects drops the stream, or the handler that still replays for it, and with it
    the code that counts out. A stream is open from its admission on. -/

namespace SorobanPulse.Sse
open Events Lib

/-- The configured limits; `maxPerIp = 0` turns the limit per IP off. -/
structure Limits where
  maxConnections : ℕ
  maxPerIp : ℕ
  multiMaxContractIds : ℕ

/-- An open stream. -/
structure OpenStream where
  id : ℕ
  clientIp : String
  deriving DecidableEq, Repr

structure SseState where
  /-- `sse_connections` -/
  connections : ℕ := 0
  /-- `sse_connections_per_ip`, 0 where there is no entry -/
  perIp : String → ℕ := fun _ => 0
  streams : List OpenStream := []
  nextId : ℕ := 0

inductive Refusal where
  | tooManyConnections
  | tooManyFromIp (limit : ℕ)
  | badRequest (message : String)
  deriving DecidableEq, Repr

/-- What is asked for: one contract or all, or a list of contracts. -/
inductive StreamRequest where
  | events (contractFilter : Option String)
  | multi (contractIds : Option String)
  deriving DecidableEq, Repr

section
variable (cfg : Limits)

/-! ### Counting -/

/-- The limits, before anything is counted. -/
def checkLimits (s : SseState) (clientIp : String) : Option Refusal :=
  if cfg.maxConnections ≤ s.connections then some .tooManyConnections
  else if 0 < cfg.maxPerIp ∧ cfg.maxPerIp ≤ s.perIp clientIp then some (.tooManyFromIp cfg.maxPerIp)
  else none

def countIn (s : SseState) (clientIp : String) : SseState :=
  { s with
    connections := s.connections + 1
    perIp :=
      if 0 < cfg.maxPerIp then Function.update s.perIp clientIp (s.perIp clientIp + 1) else s.perIp }

/-- At the end of a stream, and where a request turns out invalid. -/
def countOut (s : SseState) (clientIp : String) : SseState :=
  { s with
    connections := s.connections - 1
    perIp :=
      if 0 < cfg.maxPerIp then Function.update s.perIp clientIp (s.perIp clientIp - 1) else s.perIp }

def SseState.opened (s : SseState) (clientIp : String) : SseState :=
  { s with streams := ⟨s.nextId, clientIp⟩ :: s.streams, nextId := s.nextId + 1 }

/-! ### Handlers -/

/-- `stream_events_internal`: the contract is validated after the request is counted in. -/
def streamEventsInternal (s : SseState) (clientIp : String) (contractFilter : Option String) :
    SseState × Option Refusal :=
  match checkLimits cfg s clientIp with
  | some refusal => (s, some refusal)
  | none =>
    let s := countIn cfg s clientIp
    match contractFilter.forM validateContractId with
    | .error _ => (countOut cfg s clientIp, some (.badRequest "invalid contract_id format"))
    | .ok _ => (s.opened clientIp, none)

/-- The checks on `contract_ids`. -/
def checkContractIds (contractIds : Option String) : Option Refusal :=
  let raw := contractIds.getD ""
  let ids := commaList raw
  if trim raw = "" then some (.badRequest "contract_ids must not be empty")
  else if cfg.multiMaxContractIds < ids.length then
    some (.badRequest s!"too many contract IDs (max {cfg.multiMaxContractIds})")
  else if ids.any fun id => !(validateContractId id).isOk then
    some (.badRequest "invalid contract_id(s)")
  else none

/-- `stream_events_multi`: the contracts are validated first. -/
def streamEventsMulti (s : SseState) (clientIp : String) (contractIds : Option String) :
    SseState × Option Refusal :=
  match checkContractIds cfg contractIds with
  | some refusal => (s, some refusal)
  | none =>
    match checkLimits cfg s clientIp with
    | some refusal => (s, some refusal)
    | none => ((countIn cfg s clientIp).opened clientIp, none)

def handle (s : SseState) (clientIp : String) : StreamRequest → SseState × Option Refusal
  | .events contractFilter => streamEventsInternal cfg s clientIp contractFilter
  | .multi contractIds => streamEventsMulti cfg s clientIp contractIds

inductive Action where
  | request (clientIp : String) (r : StreamRequest)
  /-- the stream yields its last item and is polled to its end -/
  | complete (st : OpenStream)
  /-- the client goes away; the stream is dropped where it is -/
  | disconnect (st : OpenStream)

def step (s : SseState) : Action → Option SseState
  | .request clientIp r => some (handle cfg s clientIp r).1
  | .complete st =>
    if st ∈ s.streams then some { countOut cfg s st.clientIp with streams := s.streams.erase st }
    else none
  | .disconnect st =>
    if st ∈ s.streams then some { s with streams := s.streams.erase st } else none

/-! ### Accounting -/

def SseState.openFrom (s : SseState) (clientIp : String) : ℕ :=
  s.streams.countP fun st => st.clientIp = clientIp

/-- The counters are right, and so are the refusals they lead to. -/
structure Accurate (s : SseState) : Prop where
  total : s.connections = s.streams.length
  perIp : ∀ clientIp, s.perIp clientIp = s.openFrom clientIp
  refused : ∀ clientIp r,
    ((handle cfg s clientIp r).2 = some .tooManyConnections → cfg.maxConnections ≤ s.streams.length) ∧
      ∀ limit, (handle cfg s clientIp r).2 = some (.tooManyFromIp limit) →
        limit ≤ s.openFrom clientIp

/-- No client disconnects from an open stream; with the limit per IP off, none is opened. -/
def Undisturbed (s : SseState) : Action → Prop
  | .disconnect _ => False
  | .complete _ => True
  | .request clientIp r => 0 < cfg.maxPerIp ∨ (handle cfg s clientIp r).2.isSome

end

section
variable {cfg : Limits}

/-! ### What a request does -/

/-- Counting out takes back what counting in did. -/
@[simp] theorem countOut_countIn (s : SseState) (clientIp : String) :
    countOut cfg (countIn cfg s clientIp) clientIp = s := by
  unfold countOut countIn
  dsimp only
  split
  · simp
  · rfl

/-- A request is refused and nothing changes, or it is counted in and its stream is open. -/
theorem handle_cases (s : SseState) (clientIp : String) (r : StreamRequest) :
    (∃ refusal, handle cfg s clientIp r = (s, some refusal)) ∨
      handle cfg s clientIp r = ((countIn cfg s clientIp).opened clientIp, none) := by
  cases r with
  | events contractFilter =>
    rw [handle, streamEventsInternal]
    cases checkLimits cfg s clientIp with
    | some refusal => exact .inl ⟨refusal, rfl⟩
    | none =>
      dsimp only
      cases contractFilter.forM validateContractId with
      | error e =>
        dsimp only
        rw [countOut_countIn]
        exact .inl ⟨_, rfl⟩
      | ok _ => exact .inr rfl
  | multi contractIds =>
    rw [handle, streamEventsMulti]
    cases checkContractIds cfg contractIds with
    | some refusal => exact .inl ⟨refusal, rfl⟩
    | none =>
      cases checkLimits cfg s clientIp with
      | some refusal => exact .inl ⟨refusal, rfl⟩
      | none => exact .inr rfl

theorem checkContractIds_bad {contractIds : Option String} {refusal : Refusal}
    (h : checkContractIds cfg contractIds = some refusal) : ∃ message, refusal = .badRequest message := by
  unfold checkContractIds at h
  dsimp only at h
  split at h
  · exact ⟨_, (Option.some.inj h).symm⟩
  · split at h
    · exact ⟨_, (Option.some.inj h).symm⟩
    · split at h
      · exact ⟨_, (Option.some.inj h).symm⟩
      · cases h

/-- A limit is only given as a reason when its counter has reached it. -/
theorem handle_refused (s : SseState) (clientIp : String) (r : StreamRequest) :
    ((handle cfg s clientIp r).2 = some .tooManyConnections → cfg.maxConnections ≤ s.connections) ∧
      ∀ limit, (handle cfg s clientIp r).2 = some (.tooManyFromIp limit) → limit ≤ s.perIp clientIp := by
  have hlimits : (checkLimits cfg s clientIp = some .tooManyConnections →
        cfg.maxConnections ≤ s.connections) ∧
      ∀ limit, checkLimits cfg s clientIp = some (.tooManyFromIp limit) →
        limit ≤ s.perIp clientIp := by
    unfold checkLimits  -- the global limit is looked at first, then the one of the address
    split
    · next h => exact ⟨fun _ => h, nofun⟩
    · split
      · next h =>
        refine ⟨nofun, ?_⟩
        rintro limit ⟨⟩
        exact h.2
      · exact ⟨nofun, nofun⟩
  cases r with
  | events contractFilter =>
    rw [handle, streamEventsInternal]
    cases hc : checkLimits cfg s clientIp with
    | some refusal =>
      rw [hc] at hlimits
      exact hlimits
    | none =>
      dsimp only
      cases contractFilter.forM validateContractId with
      | error e => exact ⟨nofun, nofun⟩
      | ok _ => exact ⟨nofun, nofun⟩
  | multi contractIds =>
    rw [handle, streamEventsMulti]
    cases hids : checkContractIds cfg contractIds with
    | some refusal =>
      have hne := checkContractIds_bad hids
      rcases hne with ⟨message, rfl⟩
      exact ⟨nofun, nofun⟩
    | none =>
      cases hc : checkLimits cfg s clientIp with
      | some refusal =>
        rw [hc] at hlimits
        exact hlimits
      | none => exact ⟨nofun, nofun⟩

/-! ### Steps -/

theorem accurate_of_counts {s : SseState} (htotal : s.connections = s.streams.length)
    (hperIp : ∀ clientIp, s.perIp clientIp = s.openFrom clientIp) : Accurate cfg s := by
  refine ⟨htotal, hperIp, ?_⟩
  intro clientIp r
  rw [← htotal, ← hperIp]
  exact handle_refused s clientIp r

theorem openFrom_opened (s : SseState) (clientIp ip : String) :
    (s.opened clientIp).openFrom ip = s.openFrom ip + if clientIp = ip then 1 else 0 := by
  rw [SseState.openFrom, SseState.opened, List.countP_cons]
  simp [SseState.openFrom]

theorem openFrom_erase {s : SseState} {st : OpenStream} (hst : st ∈ s.streams) (ip : String) :
    s.openFrom ip = ({ s with streams := s.streams.erase st } : SseState).openFrom ip
      + if st.clientIp = ip then 1 else 0 := by
  rw [SseState.openFrom, (List.perm_cons_erase hst).countP_eq, List.countP_cons]
  simp [SseState.openFrom]

/-- With the limit per IP on, each counter moves with its streams. -/
theorem perIp_countIn (h : 0 < cfg.maxPerIp) (s : SseState) (clientIp ip : String) :
    (countIn cfg s clientIp).perIp ip = s.perIp ip + if clientIp = ip then 1 else 0 := by
  rw [countIn, if_pos h]
  by_cases hip : clientIp = ip
  · simp [hip]
  · simp [hip, Function.update_of_ne (Ne.symm hip)]

theorem perIp_countOut (h : 0 < cfg.maxPerIp) (s : SseState) (clientIp ip : String) :
    (countOut cfg s clientIp).perIp ip = s.perIp ip - if clientIp = ip then 1 else 0 := by
  rw [countOut, if_pos h]
  by_cases hip : clientIp = ip
  · simp [hip]
  · simp [hip, Function.update_of_ne (Ne.symm hip)]

theorem length_erase {s : SseState} {st : OpenStream} (hst : st ∈ s.streams) :
    (s.streams.erase st).length + 1 = s.streams.length :=
  (List.perm_cons_erase hst).length_eq.symm

/-- The counters are right, and with the limit per IP off there is nothing to count. -/
structure Counted (cfg : Limits) (s : SseState) : Prop where
  accurate : Accurate cfg s
  untracked : cfg.maxPerIp = 0 → s.streams = []

theorem counted_init : Counted cfg {} :=
  ⟨accurate_of_counts rfl fun _ => rfl, fun _ => rfl⟩

/-- What a step does: a request is refused or its stream opened, and a stream ends, counted out or not. -/
theorem step_cases {s t : SseState} {a : Action} (hs : step cfg s a = some t) :
    (∃ clientIp r, a = .request clientIp r ∧ (handle cfg s clientIp r).2.isSome ∧ t = s) ∨
    (∃ clientIp r, a = .request clientIp r ∧ (handle cfg s clientIp r).2.isSome = false ∧
      t = (countIn cfg s clientIp).opened clientIp) ∨
    (∃ st ∈ s.streams, a = .complete st ∧
      t = { countOut cfg s st.clientIp with streams := s.streams.erase st }) ∨
    ∃ st ∈ s.streams, a = .disconnect st ∧ t = { s with streams := s.streams.erase st } := by
  cases a with
  | request clientIp r =>
    rw [step, Option.some.injEq] at hs
    rcases handle_cases s clientIp r with ⟨refusal, hr⟩ | hr
    · rw [hr] at hs
      exact .inl ⟨clientIp, r, rfl, by rw [hr]; rfl, hs.symm⟩
    · rw [hr] at hs
      exact .inr (.inl ⟨clientIp, r, rfl, by rw [hr]; rfl, hs.symm⟩)
  | complete st =>
    obtain ⟨hst, hs⟩ := Option.ite_none_right_eq_some.mp hs
    exact .inr (.inr (.inl ⟨st, hst, rfl, (Option.some.inj hs).symm⟩))
  | disconnect st =>
    obtain ⟨hst, hs⟩ := Option.ite_none_right_eq_some.mp hs
    exact .inr (.inr (.inr ⟨st, hst, rfl, (Option.some.inj hs).symm⟩))

/-- An undisturbed step keeps the counters right. -/
theorem counted_step {s t : SseState} {a : Action} (hP : Undisturbed cfg s a)
    (hs : step cfg s a = some t) (h : Counted cfg s) : Counted cfg t := by
  obtain ⟨clientIp, r, rfl, -, rfl⟩ | ⟨clientIp, r, rfl, hopened, rfl⟩ | ⟨st, hst, rfl, rfl⟩ |
    ⟨st, hst, rfl, rfl⟩ := step_cases hs
  · exact h
  · have hon : 0 < cfg.maxPerIp := hP.resolve_right (by simp [hopened])
    refine ⟨accurate_of_counts ?_ ?_, fun hoff => absurd hon (by omega)⟩
    · exact congrArg (· + 1) h.accurate.total
    · intro ip
      rw [openFrom_opened]
      change (countIn cfg s clientIp).perIp ip = s.openFrom ip + _
      rw [perIp_countIn hon, h.accurate.perIp]
  · have hon : 0 < cfg.maxPerIp := by
      rw [Nat.pos_iff_ne_zero]
      intro hoff
      rw [h.untracked hoff] at hst
      cases hst
    refine ⟨accurate_of_counts ?_ ?_, fun hoff => absurd hon (by omega)⟩
    · have hlen := length_erase hst
      have htotal := h.accurate.total
      change s.connections - 1 = (s.streams.erase st).length
      omega
    · intro ip
      have herase := openFrom_erase hst ip
      change (countOut cfg s st.clientIp).perIp ip = _
      rw [perIp_countOut hon, h.accurate.perIp, herase, Nat.add_sub_cancel]
      rfl
  · exact absurd hP id

/-- A step that disturbs leaves a counter wrong. -/
theorem undisturbed_of_accurate {s t : SseState} {a : Action} (hs : step cfg s a = some t)
    (h : Counted cfg s) (ht : Accurate cfg t) : Undisturbed cfg s a := by
  obtain ⟨clientIp, r, rfl, hrefused, rfl⟩ | ⟨clientIp, r, rfl, -, rfl⟩ | ⟨st, hst, rfl, rfl⟩ |
    ⟨st, hst, rfl, rfl⟩ := step_cases hs
  · exact .inr hrefused
  · refine .inl (Nat.pos_of_ne_zero fun hoff => ?_)
    -- the stream is open and its counter is still 0
    have hcount := ht.perIp clientIp
    rw [openFrom_opened, if_pos rfl] at hcount
    have hsame : ((countIn cfg s clientIp).opened clientIp).perIp = s.perIp := by
      rw [SseState.opened, countIn, hoff]
      rfl
    change _ = s.openFrom clientIp + 1 at hcount
    rw [hsame, h.accurate.perIp] at hcount
    omega
  · trivial
  · have htotal := ht.total
    have hlen := length_erase hst
    have hbefore := h.accurate.total
    change s.connections = (s.streams.erase st).length at htotal
    omega

/-- The counters are right throughout a run exactly when no client disconnects and, with the limit per
    IP off, no stream is opened. -/
theorem run_accurate_iff {actions : List Action} {u : SseState} (hrun : AnyRun (step cfg) {} actions u) :
    Throughout (step cfg) (Accurate cfg) {} actions ↔ Run (step cfg) (Undisturbed cfg) {} actions u :=
  hrun.throughout_iff (fun {s} (h : Counted cfg s) => h.accurate) (fun hP hs h => counted_step hP hs h)
    (fun hs h ht => undisturbed_of_accurate hs h ht) counted_init

theorem length_le_step {s t : SseState} {a : Action} (hs : step cfg s a = some t)
    (h : s.streams.length ≤ s.connections) : t.streams.length ≤ t.connections := by
  obtain ⟨clientIp, r, -, -, rfl⟩ | ⟨clientIp, r, -, -, rfl⟩ | ⟨st, hst, -, rfl⟩ |
    ⟨st, hst, -, rfl⟩ := step_cases hs
  · exact h
  · exact Nat.succ_le_succ h
  · have hlen := length_erase hst
    change (s.streams.erase st).length ≤ s.connections - 1
    omega
  · have hlen := length_erase hst
    change (s.streams.erase st).length ≤ s.connections
    omega

/-- What is counted out was counted in: `fetch_sub` never goes below zero. -/
theorem run_length_le {actions : List Action} {u : SseState} (hrun : AnyRun (step cfg) {} actions u) :
    u.streams.length ≤ u.connections :=
  hrun.invariant (fun _ hs h => length_le_step hs h) (Nat.le_refl 0)

/-! ### Two clients -/

def fiveEach : Limits := ⟨1000, 5, 20⟩

theorem accurate_twoClients :
    Throughout (step fiveEach) (Accurate fiveEach) {}
      [.request "10.0.0.1" (.events none), .request "10.0.0.2" (.events (some "C1")),
        .complete ⟨0, "10.0.0.1"⟩] := by
  have hany : AnyRun (step fiveEach) {} [.request "10.0.0.1" (.events none),
      .request "10.0.0.2" (.events (some "C1")), .complete ⟨0, "10.0.0.1"⟩] _ :=
    .cons trivial rfl (.cons trivial rfl (.cons trivial rfl (.nil _)))
  exact (run_accurate_iff hany).mpr (.cons (.inl (by decide)) rfl
    (.cons (.inl (by decide)) rfl (.cons trivial rfl (.nil _))))

/-- The client of the only stream disconnects, and the stream is still counted. -/
theorem accurate_disconnect_refuted :
    ¬Throughout (step fiveEach) (Accurate fiveEach) {}
      [.request "10.0.0.1" (.events none), .disconnect ⟨0, "10.0.0.1"⟩] := by
  intro h
  have hlast := (h.2 _ rfl).2 _ rfl
  cases hlast.total

end

end SorobanPulse.Sse
