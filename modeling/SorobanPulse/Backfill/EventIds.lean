import SorobanPulse.Ingest.Toid

/-! Ids of backfilled events are unique within a ledger.

    Every call of `push` uses one key (transaction slot, operation, index). The four numbering
    schemes share the keys like this, `order` being the 1-based application order:

        operation events          (order, op, 0 ..)
        after a transaction       (order, 0, length of operation 0's list ..)
        before all transactions   (0, 0, running index over the ledger)
        after all transactions    (0xFFFFF, 0, running index over the ledger)

    Each loop is given the set of keys it draws from; loops that follow each other draw from disjoint
    sets. An event that is skipped leaves its key unused. -/

namespace SorobanPulse.Backfill
open Ingest Lib Xdr

/-- What the id of an event is made of, besides the ledger. -/
structure IdKey where
  txSlot : ℕ
  op : ℕ
  k : ℕ

/-- The key fits the bit fields of the id. -/
def IdKey.Fits (key : IdKey) : Prop := key.txSlot < 2 ^ 20 ∧ key.op < 2 ^ 12

def IdKey.text (seq : ℕ) (key : IdKey) : String :=
  padded 19 (toid seq key.txSlot key.op) ++ "-" ++ padded 10 key.k

/-- An id determines the key it was built from. -/
theorem IdKey.text_inj {seq : ℕ} {key key' : IdKey} (hfit : key.Fits) (hfit' : key'.Fits)
    (h : key.text seq = key'.text seq) : key = key' := by
  have hchars := congrArg String.toList h
  rw [IdKey.text, IdKey.text, toList_id, toList_id] at hchars
  obtain ⟨htoid, hk⟩ := decimal_append_inj (by decide) hchars
  have hk := decimal_injective 10 hk
  rw [toid_eq hfit.1 hfit.2, toid_eq hfit'.1 hfit'.2] at htoid
  obtain ⟨slot, op, k⟩ := key
  obtain ⟨slot', op', k'⟩ := key'
  obtain ⟨hs, ho⟩ := hfit
  obtain ⟨hs', ho'⟩ := hfit'
  dsimp only at htoid hk hs ho hs' ho'
  rw [IdKey.mk.injEq]
  omega

/-! ### Lists numbered from a set of keys -/

/-- The events of `out` have distinct ids, all built from keys of `S`. -/
structure NumberedIn (seq : ℕ) (S : Set IdKey) (out : List SorobanEvent) : Prop where
  source : ∀ e ∈ out, ∃ key ∈ S, key.Fits ∧ e.rpcId = some (key.text seq)
  distinct : out.Pairwise fun e e' => e.rpcId ≠ e'.rpcId

namespace NumberedIn
variable {seq : ℕ} {S S' : Set IdKey} {out out' : List SorobanEvent}

theorem nil : NumberedIn seq S [] :=
  ⟨fun _ h => absurd h List.not_mem_nil, List.Pairwise.nil⟩

theorem mono (h : NumberedIn seq S out) (hsub : S ⊆ S') : NumberedIn seq S' out := by
  refine ⟨?_, h.distinct⟩
  intro e he
  obtain ⟨key, hkey, hfit⟩ := h.source e he
  exact ⟨key, hsub hkey, hfit⟩

theorem append (h : NumberedIn seq S out) (h' : NumberedIn seq S' out')
    (hdisj : ∀ key ∈ S, key ∉ S') : NumberedIn seq (S ∪ S') (out ++ out') where
  source e he := by
    rcases List.mem_append.mp he with he | he
    · exact (h.mono Set.subset_union_left).source e he
    · exact (h'.mono Set.subset_union_right).source e he
  distinct := by
    refine List.pairwise_append.mpr ⟨h.distinct, h'.distinct, ?_⟩
    intro e he e' he' heq
    obtain ⟨key, hkey, hfit, hid⟩ := h.source e he
    obtain ⟨key', hkey', hfit', hid'⟩ := h'.source e' he'
    rw [hid, hid', Option.some.injEq] at heq
    obtain rfl := IdKey.text_inj hfit hfit' heq
    exact hdisj _ hkey hkey'

end NumberedIn

/-! ### The loops -/

section
variable (enc : XdrEncoder) (ctx : TxContext)

theorem numberedIn_push (ev : ContractEvent) (key : IdKey) (hfit : key.Fits) :
    NumberedIn ctx.header.ledgerSeq.toNat {key}
      (push enc ctx ev (ctx.toid key.txSlot key.op) key.k) where
  source e he := ⟨key, rfl, hfit, rpcId_of_mem_push he⟩
  distinct := by
    rw [push]
    split
    · exact List.Pairwise.nil
    · exact List.Pairwise.nil
    · exact List.pairwise_singleton _ _

/-- An enumerated loop over one operation's events. -/
theorem numberedIn_pushAll {slot op : ℕ} (hslot : slot < 2 ^ 20) (hop : op < 2 ^ 12)
    (events : List ContractEvent) :
    NumberedIn ctx.header.ledgerSeq.toNat
      {key | key.txSlot = slot ∧ key.op = op ∧ key.k < events.length}
      (pushAll enc ctx (ctx.toid slot op) events) := by
  have hloop : ∀ i, NumberedIn ctx.header.ledgerSeq.toNat
      {key | key.txSlot = slot ∧ key.op = op ∧ i ≤ key.k ∧ key.k < i + events.length}
      ((events.zipIdx i).flatMap fun p => push enc ctx p.1 (ctx.toid slot op) p.2) := by
    induction events with
    | nil => exact fun _ => .nil
    | cons ev rest ih =>
      intro i
      rw [List.zipIdx_cons, List.flatMap_cons]
      refine ((numberedIn_push enc ctx ev ⟨slot, op, i⟩ ⟨hslot, hop⟩).append
        (ih (i + 1)) ?_).mono ?_
      · rintro _ rfl ⟨-, -, hlt, -⟩
        dsimp only at hlt
        omega
      · rintro key (rfl | ⟨h₁, h₂, h₃, h₄⟩)
        · exact ⟨rfl, rfl, Nat.le_refl _, by rw [List.length_cons]; dsimp only; omega⟩
        · exact ⟨h₁, h₂, by omega, by rw [List.length_cons]; omega⟩
  refine (hloop 0).mono ?_
  rintro key ⟨h₁, h₂, -, h₃⟩
  exact ⟨h₁, h₂, by omega⟩

/-- The loop over the operations of a transaction; operation 0 uses the indices below the length
    of its list. -/
theorem numberedIn_operations {slot : ℕ} (hslot : slot < 2 ^ 20)
    (operations : List (List ContractEvent)) (hops : operations.length ≤ 4096) :
    NumberedIn ctx.header.ledgerSeq.toNat
      {key | key.txSlot = slot ∧
        (key.op = 0 → key.k < (operations.head?.map List.length).getD 0)}
      (operations.zipIdx.flatMap fun (opEvents, op) =>
        pushAll enc ctx (ctx.toid slot op) opEvents) := by
  have hloop : ∀ (ops : List (List ContractEvent)) (i : ℕ), i + ops.length ≤ 4096 →
      NumberedIn ctx.header.ledgerSeq.toNat
        {key | key.txSlot = slot ∧ i ≤ key.op ∧
          (key.op = i → key.k < (ops.head?.map List.length).getD 0)}
        ((ops.zipIdx i).flatMap fun (opEvents, op) =>
          pushAll enc ctx (ctx.toid slot op) opEvents) := by
    intro ops
    induction ops with
    | nil => exact fun _ _ => .nil
    | cons opEvents rest ih =>
      intro i hi
      rw [List.length_cons] at hi
      rw [List.zipIdx_cons, List.flatMap_cons]
      refine ((numberedIn_pushAll enc ctx hslot (by omega) opEvents).append
        (ih (i + 1) (by omega)) ?_).mono ?_
      · rintro key ⟨-, hop, -⟩ ⟨-, hop', -⟩
        omega
      · rintro key (⟨h₁, h₂, h₃⟩ | ⟨h₁, h₂, -⟩)
        · exact ⟨h₁, by omega, fun _ => h₃⟩
        · exact ⟨h₁, by omega, fun h => by omega⟩
  refine (hloop operations 0 (by omega)).mono ?_
  rintro key ⟨h₁, -, h₃⟩
  exact ⟨h₁, h₃⟩

/-! ### Transaction-level events -/

/-- The key of a transaction-level event of some stage. -/
def stageKey (order : ℕ) (c : Counters) : TransactionEventStage → IdKey
  | .beforeAllTxs => ⟨0, 0, c.beforeAll⟩
  | .afterAllTxs => ⟨0xFFFFF, 0, c.afterAll⟩
  | .afterTx => ⟨order, 0, c.afterTx⟩

def Counters.next (c : Counters) : TransactionEventStage → Counters
  | .beforeAllTxs => { c with beforeAll := c.beforeAll + 1 }
  | .afterAllTxs => { c with afterAll := c.afterAll + 1 }
  | .afterTx => { c with afterTx := c.afterTx + 1 }

theorem pushTxEvents_cons (te : TransactionEvent) (rest : List TransactionEvent) (c : Counters) :
    let key := stageKey ctx.txOrder c te.stage
    pushTxEvents enc ctx (te :: rest) c =
      (push enc ctx te.event (ctx.toid key.txSlot key.op) key.k ++
        (pushTxEvents enc ctx rest (c.next te.stage)).1,
        (pushTxEvents enc ctx rest (c.next te.stage)).2) := by
  rw [pushTxEvents]
  cases te.stage <;> rfl

/-- No counter of `c` is above that of `c'`. -/
structure Counters.Le (c c' : Counters) : Prop where
  beforeAll : c.beforeAll ≤ c'.beforeAll
  afterAll : c.afterAll ≤ c'.afterAll
  afterTx : c.afterTx ≤ c'.afterTx

/-- The keys that are used up as the counters go from `c` to `c'`. -/
def keysBetween (order : ℕ) (c c' : Counters) : Set IdKey :=
  {key | key.op = 0 ∧
    (key.txSlot = 0 ∧ c.beforeAll ≤ key.k ∧ key.k < c'.beforeAll ∨
      key.txSlot = 0xFFFFF ∧ c.afterAll ≤ key.k ∧ key.k < c'.afterAll ∨
      key.txSlot = order ∧ c.afterTx ≤ key.k ∧ key.k < c'.afterTx)}

section
variable {order : ℕ} {c c' : Counters} {stage : TransactionEventStage}

theorem Counters.Le.of_next (h : (c.next stage).Le c') : c.Le c' := by
  obtain ⟨h₁, h₂, h₃⟩ := h
  cases stage <;> exact ⟨by simp only [Counters.next] at *; omega,
    by simp only [Counters.next] at *; omega, by simp only [Counters.next] at *; omega⟩

theorem stageKey_fits (horder : order < 0xFFFFF) : (stageKey order c stage).Fits := by
  cases stage <;> exact ⟨by simp only [stageKey]; omega, by simp only [stageKey]; omega⟩

theorem stageKey_mem (h : (c.next stage).Le c') :
    stageKey order c stage ∈ keysBetween order c c' := by
  cases stage with
  | beforeAllTxs => exact ⟨rfl, .inl ⟨rfl, Nat.le_refl _, h.beforeAll⟩⟩
  | afterAllTxs => exact ⟨rfl, .inr (.inl ⟨rfl, Nat.le_refl _, h.afterAll⟩)⟩
  | afterTx => exact ⟨rfl, .inr (.inr ⟨rfl, Nat.le_refl _, h.afterTx⟩)⟩

/-- The key of an event is not used again; the three slots are different. -/
theorem stageKey_not_mem (hpos : 0 < order) (hlt : order < 0xFFFFF) :
    stageKey order c stage ∉ keysBetween order (c.next stage) c' := by
  rintro ⟨-, h⟩
  cases stage <;> simp only [stageKey, Counters.next] at h <;> omega

theorem keysBetween_next_subset :
    keysBetween order (c.next stage) c' ⊆ keysBetween order c c' := by
  rintro key ⟨hop, h⟩
  refine ⟨hop, ?_⟩
  cases stage <;> simp only [Counters.next] at h <;> omega

end

/-- The counters only grow, and the events are numbered by the keys that they pass. -/
theorem numberedIn_pushTxEvents (hpos : 0 < ctx.txOrder) (hlt : ctx.txOrder < 0xFFFFF)
    (tes : List TransactionEvent) (c : Counters) :
    c.Le (pushTxEvents enc ctx tes c).2 ∧
      NumberedIn ctx.header.ledgerSeq.toNat
        (keysBetween ctx.txOrder c (pushTxEvents enc ctx tes c).2)
        (pushTxEvents enc ctx tes c).1 := by
  induction tes generalizing c with
  | nil => exact ⟨⟨Nat.le_refl _, Nat.le_refl _, Nat.le_refl _⟩, .nil⟩
  | cons te rest ih =>
    obtain ⟨hle, hrest⟩ := ih (c.next te.stage)
    rw [pushTxEvents_cons enc ctx]
    refine ⟨hle.of_next, ((numberedIn_push enc ctx te.event _ (stageKey_fits hlt)).append hrest
      ?_).mono ?_⟩
    · rintro _ rfl
      exact stageKey_not_mem hpos hlt
    · rintro key (rfl | hkey)
      · exact stageKey_mem hle
      · exact keysBetween_next_subset hkey

/-! ### Transactions -/

/-- No more than 4096 operations. -/
def OpsFit : TransactionMeta → Prop
  | .v4 operations _ => operations.length ≤ 4096
  | _ => True

/-- The keys of one transaction: its own slot, and the stretch of the two ledger-wide counters
    that it uses up. -/
def keysOfTx (order beforeAll afterAll beforeAll' afterAll' : ℕ) : Set IdKey :=
  {key | key.txSlot = order ∨ key.txSlot = 0 ∧ beforeAll ≤ key.k ∧ key.k < beforeAll' ∨
    key.txSlot = 0xFFFFF ∧ afterAll ≤ key.k ∧ key.k < afterAll'}

theorem numberedIn_pushTx (hpos : 0 < ctx.txOrder) (hlt : ctx.txOrder < 0xFFFFF)
    (txMeta : TransactionMeta) (hops : OpsFit txMeta) (beforeAll afterAll : ℕ) :
    let r := pushTx enc ctx txMeta beforeAll afterAll
    beforeAll ≤ r.2.1 ∧ afterAll ≤ r.2.2 ∧
      NumberedIn ctx.header.ledgerSeq.toNat
        (keysOfTx ctx.txOrder beforeAll afterAll r.2.1 r.2.2) r.1 := by
  cases txMeta with
  | v3 sorobanMeta =>
    exact ⟨Nat.le_refl _, Nat.le_refl _,
      (numberedIn_pushAll enc ctx (by omega) (by omega) _).mono fun key h => .inl h.1⟩
  | v4 operations events =>
    -- the tail's indices start where those of operation 0 end
    have hslot : ctx.txOrder < 2 ^ 20 := by omega
    have hoperations := numberedIn_operations enc ctx hslot operations hops
    obtain ⟨hle, htail⟩ := numberedIn_pushTxEvents enc ctx hpos hlt events
      ⟨beforeAll, afterAll, (operations.head?.map List.length).getD 0⟩
    refine ⟨hle.beforeAll, hle.afterAll, (hoperations.append htail ?_).mono ?_⟩
    · rintro key ⟨hslot, hk⟩ ⟨hop, h⟩
      have hk := hk hop
      dsimp only at h
      omega
    · rintro key (⟨hslot, -⟩ | ⟨-, ⟨h₁, h₂⟩ | ⟨h₁, h₂⟩ | ⟨h₁, -⟩⟩)
      · exact .inl hslot
      · exact .inr (.inl ⟨h₁, h₂⟩)
      · exact .inr (.inr ⟨h₁, h₂⟩)
      · exact .inl h₁
  | _ => exact ⟨Nat.le_refl _, Nat.le_refl _, .nil⟩

theorem numberedIn_pushTxs (header : LedgerHeader) (txs : List TransactionResultMeta)
    (hops : ∀ tx ∈ txs, OpsFit tx.txApplyProcessing) :
    ∀ i beforeAll afterAll, i + txs.length < 0xFFFFF →
      NumberedIn header.ledgerSeq.toNat
        {key | i < key.txSlot ∧ key.txSlot < 0xFFFFF ∨ key.txSlot = 0 ∧ beforeAll ≤ key.k ∨
          key.txSlot = 0xFFFFF ∧ afterAll ≤ key.k}
        (pushTxs enc header txs i beforeAll afterAll) := by
  induction txs with
  | nil => exact fun _ _ _ _ => .nil
  | cons tx rest ih =>
    intro i beforeAll afterAll hi
    rw [List.length_cons] at hi
    rw [pushTxs]
    dsimp only
    generalize hctx : TxContext.mk header (hexEncode tx.transactionHash.1)
      (tx.result = .txSuccess ∨ tx.result = .txFeeBumpInnerSuccess) (i + 1) = ctx
    have horder : ctx.txOrder = i + 1 := by rw [← hctx]
    have hheader : ctx.header = header := by rw [← hctx]
    obtain ⟨hle, hle', htx⟩ := numberedIn_pushTx enc ctx (by omega) (by omega)
      tx.txApplyProcessing (hops tx List.mem_cons_self) beforeAll afterAll
    rw [hheader, horder] at htx
    have hrest := ih (fun tx h => hops tx (List.mem_cons_of_mem _ h)) (i + 1)
      (pushTx enc ctx tx.txApplyProcessing beforeAll afterAll).2.1
      (pushTx enc ctx tx.txApplyProcessing beforeAll afterAll).2.2 (by omega)
    refine (htx.append hrest ?_).mono ?_
    · intro key h h'
      simp only [keysOfTx, Set.mem_ofPred_eq] at h h'
      omega
    · rintro key (h | h) <;> simp only [keysOfTx, Set.mem_ofPred_eq] at h ⊢ <;> omega

end

/-- The transactions of a ledger. -/
def txProcessing : LedgerCloseMeta → List TransactionResultMeta
  | .v0 _ => []
  | .v1 _ txs | .v2 _ txs => txs

/-- Within a ledger no two backfilled events share an id. -/
theorem nodup_rpcId_eventsFromLedger (enc : XdrEncoder) (ledger : LedgerCloseMeta)
    (htxs : (txProcessing ledger).length < 2 ^ 20 - 1)
    (hops : ∀ tx ∈ txProcessing ledger, OpsFit tx.txApplyProcessing) :
    (eventsFromLedger enc ledger).Pairwise fun e e' => e.rpcId ≠ e'.rpcId := by
  cases ledger with
  | v0 header => exact List.Pairwise.nil
  | v1 header txs | v2 header txs =>
    exact (numberedIn_pushTxs enc header txs hops 0 0 0 (by rw [Nat.zero_add]; exact htxs)).distinct

def zeroEvent : ContractEvent :=
  { contractId := some zeroHash, type := .contract, body := { topics := [], data := .void } }

/-- One transaction with an event of its first operation and one of each stage. -/
def feeLedger : LedgerCloseMeta :=
  .v2 { hash := zeroHash, ledgerVersion := 23, ledgerSeq := 58000000, closeTime := 0 }
    [{ transactionHash := zeroHash
       result := .txSuccess
       txApplyProcessing := .v4 [[zeroEvent]]
         [⟨.beforeAllTxs, zeroEvent⟩, ⟨.afterTx, zeroEvent⟩, ⟨.afterAllTxs, zeroEvent⟩] }]

theorem nodup_rpcId_feeLedger :
    (eventsFromLedger zeroEncoder feeLedger).Pairwise fun e e' => e.rpcId ≠ e'.rpcId :=
  nodup_rpcId_eventsFromLedger zeroEncoder feeLedger (by decide) (by
    intro tx htx
    obtain rfl := List.mem_singleton.mp htx
    exact Nat.le_of_ble_eq_true rfl)

end SorobanPulse.Backfill
