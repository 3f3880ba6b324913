import SorobanPulse.Xdr.ScVal
import SorobanPulse.Ingest.SorobanEvent

/-! Ledger close metadata, as far as the backfill reads it (`stellar_xdr::curr::LedgerCloseMeta`). -/

namespace SorobanPulse.Xdr

inductive ContractEventType where
  | system
  | contract
  | diagnostic
  deriving DecidableEq, Repr

structure ContractEventBody where
  topics : List ScVal
  data : ScVal

structure ContractEvent where
  contractId : Option Hash
  type : ContractEventType
  body : ContractEventBody

inductive TransactionEventStage where
  | beforeAllTxs
  | afterTx
  | afterAllTxs
  deriving DecidableEq, Repr

structure TransactionEvent where
  stage : TransactionEventStage
  event : ContractEvent

/-- `V0` to `V2` carry no Soroban events. -/
inductive TransactionMeta where
  | v0
  | v1
  | v2
  /-- The events of the Soroban meta, when there is one. -/
  | v3 (sorobanMeta : Option (List ContractEvent))
  /-- The events of every operation, then the transaction-level events. -/
  | v4 (operations : List (List ContractEvent)) (events : List TransactionEvent)

inductive TransactionResultResult where
  | txSuccess
  | txFeeBumpInnerSuccess
  | other
  deriving DecidableEq, Repr

structure TransactionResultMeta where
  transactionHash : Hash
  result : TransactionResultResult
  txApplyProcessing : TransactionMeta

structure LedgerHeader where
  hash : Hash
  ledgerVersion : UInt32
  ledgerSeq : UInt32
  closeTime : UInt64

inductive LedgerCloseMeta where
  | v0 (ledgerHeader : LedgerHeader)
  | v1 (ledgerHeader : LedgerHeader) (txProcessing : List TransactionResultMeta)
  | v2 (ledgerHeader : LedgerHeader) (txProcessing : List TransactionResultMeta)

def LedgerCloseMeta.header : LedgerCloseMeta → LedgerHeader
  | .v0 h => h
  | .v1 h _ => h
  | .v2 h _ => h

/-- The crates' encoders: `ContractId::to_string`, `to_xdr_base64`, and the RFC 3339 form of a
    timestamp in seconds (`none` outside chrono's range). -/
structure XdrEncoder where
  contractStrkey : Hash → String
  toXdrBase64 : ScVal → Option String
  rfc3339 : ℤ → Option String

end SorobanPulse.Xdr

/-! The backfill converter: the contract and system events of one ledger, shaped like RPC results.

    Topics and values are base64 XDR strings, ids are `{toid:019}-{k:010}`:

        operation events          toid(ledger, tx, op)     k counts within the operation
        before all transactions   toid(ledger, 0, 0)       k counts over the ledger
        after all transactions    toid(ledger, 0xFFFFF, 0) k counts over the ledger
        after a transaction       toid(ledger, tx, 0)      k goes on after operation 0

    The ingest validator asks for a JSON object or null as the value, so it discards every event
    that the converter makes: `eventsFromLedger_accepted_iff`. -/

namespace SorobanPulse.Backfill
open Xdr Ingest

def ledgerSeq (ledger : LedgerCloseMeta) : UInt32 := ledger.header.ledgerSeq

/-- A number in decimal, padded with zeros on the left. -/
def padded (width n : ℕ) : String :=
  String.ofList ((Nat.toDigits 10 n).leftpad width '0')

def toid (seq txSlot op : ℕ) : ℕ := (seq <<< 32) ||| ((txSlot &&& 0xFFFFF) <<< 12) ||| (op &&& 0xFFF)

section
variable (enc : XdrEncoder)

def b64 (v : ScVal) : Value := .string ((enc.toXdrBase64 v).getD "")

/-- `close_time` in RFC 3339, empty when it is out of range. -/
def closedAt (closeTime : UInt64) : String :=
  if closeTime.toNat < 2 ^ 63 then (enc.rfc3339 closeTime.toNat).getD "" else ""

/-- What the events of one transaction share. -/
structure TxContext where
  header : LedgerHeader
  txHash : String
  success : Bool
  /-- The 1-based application order. -/
  txOrder : ℕ

def TxContext.toid (ctx : TxContext) (txSlot op : ℕ) : ℕ :=
  Backfill.toid ctx.header.ledgerSeq.toNat txSlot op

/-- The closure `push`: nothing for a diagnostic event or one without a contract. -/
def push (ctx : TxContext) (ev : ContractEvent) (id k : ℕ) : List SorobanEvent :=
  match ev.contractId, ev.type with
  | none, _ | _, .diagnostic => []
  | some contractId, kind =>
    [{ rpcId := some (padded 19 id ++ "-" ++ padded 10 k)
       contractId := enc.contractStrkey contractId
       eventType := if kind = .contract then "contract" else "system"
       txHash := ctx.txHash
       ledger := ctx.header.ledgerSeq.toUInt64
       ledgerClosedAt := closedAt enc ctx.header.closeTime
       ledgerHash := some (hexEncode ctx.header.hash.1)
       inSuccessfulCall := ctx.success
       value := b64 enc ev.body.data
       topic := some (ev.body.topics.map (b64 enc)) }]

/-- `for (k, ev) in events.iter().enumerate() { push(ev, id, k) }`. -/
def pushAll (ctx : TxContext) (id : ℕ) (events : List ContractEvent) : List SorobanEvent :=
  events.zipIdx.flatMap fun (ev, k) => push enc ctx ev id k

/-- The running indices of transaction-level events. -/
structure Counters where
  beforeAll : ℕ
  afterAll : ℕ
  afterTx : ℕ

def pushTxEvents (ctx : TxContext) :
    List TransactionEvent → Counters → List SorobanEvent × Counters
  | [], c => ([], c)
  | te :: rest, c =>
    let (events, c) :=
      match te.stage with
      | .beforeAllTxs =>
        (push enc ctx te.event (ctx.toid 0 0) c.beforeAll, { c with beforeAll := c.beforeAll + 1 })
      | .afterAllTxs =>
        (push enc ctx te.event (ctx.toid 0xFFFFF 0) c.afterAll,
          { c with afterAll := c.afterAll + 1 })
      | .afterTx =>
        (push enc ctx te.event (ctx.toid ctx.txOrder 0) c.afterTx,
          { c with afterTx := c.afterTx + 1 })
    let (more, c) := pushTxEvents ctx rest c
    (events ++ more, c)

/-- The events of one transaction, with the ledger-wide indices before and after it. -/
def pushTx (ctx : TxContext) (txMeta : TransactionMeta) (beforeAll afterAll : ℕ) :
    List SorobanEvent × ℕ × ℕ :=
  match txMeta with
  | .v3 sorobanMeta =>
    (pushAll enc ctx (ctx.toid ctx.txOrder 0) (sorobanMeta.getD []), beforeAll, afterAll)
  | .v4 operations events =>
    let opEvents := operations.zipIdx.flatMap fun (opEvents, op) =>
      pushAll enc ctx (ctx.toid ctx.txOrder op) opEvents
    let afterTx := (operations.head?.map List.length).getD 0
    let (txEvents, c) := pushTxEvents enc ctx events { beforeAll, afterAll, afterTx }
    (opEvents ++ txEvents, c.beforeAll, c.afterAll)
  | _ => ([], beforeAll, afterAll)

/-- The loop over the transactions, `i` of them done. -/
def pushTxs (header : LedgerHeader) :
    List TransactionResultMeta → (i beforeAll afterAll : ℕ) → List SorobanEvent
  | [], _, _, _ => []
  | tx :: rest, i, beforeAll, afterAll =>
    let ctx : TxContext :=
      { header
        txHash := hexEncode tx.transactionHash.1
        success := tx.result = .txSuccess ∨ tx.result = .txFeeBumpInnerSuccess
        txOrder := i + 1 }
    let (events, beforeAll, afterAll) := pushTx enc ctx tx.txApplyProcessing beforeAll afterAll
    events ++ pushTxs header rest (i + 1) beforeAll afterAll

def eventsFromLedger : LedgerCloseMeta → List SorobanEvent
  | .v0 _ => []
  | .v1 header txs | .v2 header txs => pushTxs enc header txs 0 0 0

end

/-! ### Which ledgers yield an event -/

/-- A contract or system event that names its contract. -/
def Convertible (ev : ContractEvent) : Prop := ev.contractId.isSome ∧ ev.type ≠ .diagnostic

/-- The contract events that the metadata of a transaction carries, at every level. -/
def txEvents : TransactionMeta → List ContractEvent
  | .v3 sorobanMeta => sorobanMeta.getD []
  | .v4 operations events => operations.flatten ++ events.map (·.event)
  | _ => []

/-- All contract events of a ledger. -/
def ledgerEvents : LedgerCloseMeta → List ContractEvent
  | .v0 _ => []
  | .v1 _ txs | .v2 _ txs => txs.flatMap fun tx => txEvents tx.txApplyProcessing

/-- The ledger has no contract or system event with a contract id. -/
def Silent (ledger : LedgerCloseMeta) : Prop := ∀ ev ∈ ledgerEvents ledger, ¬ Convertible ev

section
variable {enc : XdrEncoder} {ctx : TxContext} {evs evs' : List ContractEvent}
  {out out' : List SorobanEvent}

/-- `e` is what some call of `push` makes of `ev`. -/
def Pushed (enc : XdrEncoder) (e : SorobanEvent) (ev : ContractEvent) : Prop :=
  ∃ ctx id k, e ∈ push enc ctx ev id k

/-- `out` holds exactly what was made of the convertible events of `evs`. -/
structure Converts (enc : XdrEncoder) (evs : List ContractEvent) (out : List SorobanEvent) :
    Prop where
  source : ∀ e ∈ out, ∃ ev ∈ evs, Pushed enc e ev
  covers : ∀ ev ∈ evs, Convertible ev → ∃ e ∈ out, Pushed enc e ev

theorem push_ne_nil {ev : ContractEvent} {id k : ℕ} :
    push enc ctx ev id k ≠ [] ↔ Convertible ev := by
  rw [push, Convertible]
  split
  · next h => simp [h]
  · next h _ => simp [h]
  · next h hk => exact iff_of_true (List.cons_ne_nil _ _) ⟨by rw [h]; rfl, hk⟩

theorem rpcId_of_mem_push {ev : ContractEvent} {id k : ℕ} {e : SorobanEvent}
    (h : e ∈ push enc ctx ev id k) : e.rpcId = some (padded 19 id ++ "-" ++ padded 10 k) := by
  rw [push] at h
  split at h
  · exact absurd h List.not_mem_nil
  · exact absurd h List.not_mem_nil
  · rw [List.mem_singleton.mp h]

/-- What `push` makes carries its value as a string. -/
theorem Pushed.value {e : SorobanEvent} {ev : ContractEvent} (h : Pushed enc e ev) :
    ∃ s, e.value = .string s := by
  obtain ⟨ctx, id, k, h⟩ := h
  rw [push] at h
  split at h
  · exact absurd h List.not_mem_nil
  · exact absurd h List.not_mem_nil
  · rw [List.mem_singleton.mp h]; exact ⟨_, rfl⟩

theorem Pushed.convertible {e : SorobanEvent} {ev : ContractEvent} (h : Pushed enc e ev) :
    Convertible ev := by
  obtain ⟨ctx, id, k, h⟩ := h
  exact push_ne_nil.mp (List.ne_nil_of_mem h)

theorem Converts.nil : Converts enc [] [] :=
  ⟨fun _ h => absurd h List.not_mem_nil, fun _ h => absurd h List.not_mem_nil⟩

theorem Converts.single (ctx : TxContext) (ev : ContractEvent) (id k : ℕ) :
    Converts enc [ev] (push enc ctx ev id k) where
  source e he := ⟨ev, List.mem_singleton.mpr rfl, ctx, id, k, he⟩
  covers ev' hev hconv := by
    obtain rfl := List.mem_singleton.mp hev
    obtain ⟨e, he⟩ := List.exists_mem_of_ne_nil _ (push_ne_nil.mpr hconv)
    exact ⟨e, he, ctx, id, k, he⟩

theorem Converts.append (h : Converts enc evs out) (h' : Converts enc evs' out') :
    Converts enc (evs ++ evs') (out ++ out') where
  source e he := by
    rcases List.mem_append.mp he with he | he
    · obtain ⟨ev, hev, hp⟩ := h.source e he
      exact ⟨ev, List.mem_append_left _ hev, hp⟩
    · obtain ⟨ev, hev, hp⟩ := h'.source e he
      exact ⟨ev, List.mem_append_right _ hev, hp⟩
  covers ev hev hconv := by
    rcases List.mem_append.mp hev with hev | hev
    · obtain ⟨e, he, hp⟩ := h.covers ev hev hconv
      exact ⟨e, List.mem_append_left _ he, hp⟩
    · obtain ⟨e, he, hp⟩ := h'.covers ev hev hconv
      exact ⟨e, List.mem_append_right _ he, hp⟩

/-- An enumerated loop converts what its bodies convert. -/
theorem Converts.zipIdx {α : Type} (as : List α) (src : α → List ContractEvent)
    {f : α → ℕ → List SorobanEvent} (h : ∀ a k, Converts enc (src a) (f a k)) :
    ∀ i, Converts enc (as.flatMap src) ((as.zipIdx i).flatMap fun (a, k) => f a k) := by
  induction as with
  | nil => exact fun _ => .nil
  | cons a as ih =>
    intro i
    rw [List.zipIdx_cons, List.flatMap_cons, List.flatMap_cons]
    exact (h a i).append (ih (i + 1))

theorem converts_pushAll (ctx : TxContext) (id : ℕ) (events : List ContractEvent) :
    Converts enc events (pushAll enc ctx id events) := by
  have hloop : Converts enc (events.flatMap fun ev => [ev]) (pushAll enc ctx id events) :=
    .zipIdx events (fun ev => [ev]) (fun ev k => .single ctx ev id k) 0
  rwa [List.flatMap_singleton'] at hloop

theorem converts_pushTxEvents (ctx : TxContext) (tes : List TransactionEvent) :
    ∀ c, Converts enc (tes.map (·.event)) (pushTxEvents enc ctx tes c).1 := by
  induction tes with
  | nil => exact fun _ => .nil
  | cons te rest ih =>
    intro c
    rw [List.map_cons, ← List.singleton_append, pushTxEvents]
    cases te.stage <;> exact (Converts.single ..).append (ih _)

theorem converts_pushTx (ctx : TxContext) (txMeta : TransactionMeta) (beforeAll afterAll : ℕ) :
    Converts enc (txEvents txMeta) (pushTx enc ctx txMeta beforeAll afterAll).1 := by
  cases txMeta with
  | v3 sorobanMeta => exact converts_pushAll ctx _ _
  | v4 operations events =>
    rw [txEvents, pushTx, ← List.flatMap_id]
    exact (Converts.zipIdx operations id
      (fun ops op => converts_pushAll ctx (ctx.toid ctx.txOrder op) ops) 0).append
      (converts_pushTxEvents ctx events _)
  | _ => exact .nil

theorem converts_pushTxs (header : LedgerHeader) (txs : List TransactionResultMeta) :
    ∀ i beforeAll afterAll, Converts enc (txs.flatMap fun tx => txEvents tx.txApplyProcessing)
      (pushTxs enc header txs i beforeAll afterAll) := by
  induction txs with
  | nil => exact fun _ _ _ => .nil
  | cons tx rest ih =>
    intro i beforeAll afterAll
    rw [List.flatMap_cons, pushTxs]
    exact (converts_pushTx _ tx.txApplyProcessing beforeAll afterAll).append (ih _ _ _)

/-- The converter makes one event or more of every convertible event, and nothing else. -/
theorem converts_eventsFromLedger (ledger : LedgerCloseMeta) :
    Converts enc (ledgerEvents ledger) (eventsFromLedger enc ledger) := by
  cases ledger with
  | v0 header => exact .nil
  | v1 header txs | v2 header txs => exact converts_pushTxs header txs 0 0 0

/-- No converted event passes the ingest validator. -/
theorem validateEventData_pushed {codec : XdrCodec} {e : SorobanEvent} {ev : ContractEvent}
    (h : Pushed enc e ev) : validateEventData codec e = false := by
  obtain ⟨s, hs⟩ := h.value
  rw [validateEventData, hs]

end

/-- The validator accepts all events of a ledger exactly when the ledger has none to store. -/
theorem eventsFromLedger_accepted_iff (enc : XdrEncoder) (codec : XdrCodec)
    (ledger : LedgerCloseMeta) :
    (∀ e ∈ eventsFromLedger enc ledger, validateEventData codec e = true) ↔ Silent ledger := by
  have hconv : Converts enc (ledgerEvents ledger) (eventsFromLedger enc ledger) :=
    converts_eventsFromLedger ledger
  constructor
  · intro h ev hev hc
    obtain ⟨e, he, hp⟩ := hconv.covers ev hev hc
    exact absurd (h e he) (by rw [validateEventData_pushed hp]; exact Bool.noConfusion)
  · intro hsilent e he
    obtain ⟨ev, hev, hp⟩ := hconv.source e he
    exact absurd hp.convertible (hsilent ev hev)

def zeroHash : Hash := ⟨List.replicate 32 0, rfl⟩

/-- One transaction with one contract event, a void value and no topics. -/
def singleEventLedger : LedgerCloseMeta :=
  .v1 { hash := zeroHash, ledgerVersion := 22, ledgerSeq := 55000000, closeTime := 0 }
    [{ transactionHash := zeroHash
       result := .txSuccess
       txApplyProcessing := .v3 (some
         [{ contractId := some zeroHash, type := .contract, body := { topics := [], data := .void } }]) }]

/-- The encoders on what that ledger holds. -/
def zeroEncoder : XdrEncoder where
  contractStrkey _ := "CAAAAAAAAAAAAAAAAAAAAAAAAAAAAAAAAAAAAAAAAAAAAAAAAAAABSC4"
  toXdrBase64 _ := some "AAAAAQ=="
  rfc3339 _ := some "1970-01-01T00:00:00Z"

/-- The event is converted and then discarded: its value is the string `"AAAAAQ=="`. -/
theorem not_accepted_singleEventLedger :
    ¬ ∀ (enc : XdrEncoder) (codec : XdrCodec) (ledger : LedgerCloseMeta),
      ∀ e ∈ eventsFromLedger enc ledger, validateEventData codec e = true := by
  intro h
  have hall := h zeroEncoder { fromXdrBase64 := fun _ => none, fromValue := fun _ => none }
    singleEventLedger
  exact absurd (hall _ List.mem_cons_self) (by decide)

end SorobanPulse.Backfill
