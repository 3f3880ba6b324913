import SorobanPulse.Lib.Backlog
import SorobanPulse.Tokens.Sep41Backfill

/-! The backfills of the tables derived from events.

        events without rows ──first batch by ledger──▶ rows of each ──INSERT ON CONFLICT DO NOTHING──▶
                                                       none of some: these keep their place

    `event_addresses` is filled from the newest ledger down, `token_transfers` from the oldest up. A
    call returns how many rows it inserted, and is repeated until it returns 0. -/

namespace SorobanPulse.Tokens
open Lib Backlog

structure StoredEvent where
  id : ℕ
  contractId : String
  ledger : ℤ
  txHash : String
  eventData : Value

/-- `id` is the primary key. -/
structure Events where
  rows : List StoredEvent
  unique : (rows.map (·.id)).Nodup

/-! ### A table derived from events -/

/-- `INSERT … ON CONFLICT DO NOTHING`, and the count of the rows inserted. -/
def insertRow {β κ : Type} [DecidableEq κ] (pk : β → κ) (state : List β × ℕ) (row : β) : List β × ℕ :=
  if pk row ∈ state.1.map pk then state else (state.1 ++ [row], state.2 + 1)

/-- A table whose rows are made of single events. -/
structure Derivation (β κ : Type) where
  /-- The events asked for, by the WHERE clause without its NOT EXISTS. -/
  wants : StoredEvent → Bool
  order : StoredEvent → ℤ
  rowsOf : StoredEvent → List β
  pk : β → κ
  eventId : β → ℕ
  eventId_of_pk : ∀ {a b}, pk a = pk b → eventId a = eventId b
  eventId_rowsOf : ∀ {e b}, b ∈ rowsOf e → eventId b = e.id

section
variable {β κ : Type} [DecidableEq κ] (d : Derivation β κ) (events : Events) (batch : ℕ)

/-- The events asked for that have no rows. -/
def Derivation.pending (table : List β) : List StoredEvent :=
  events.rows.filter fun e => d.wants e && !table.any (d.eventId · = e.id)

/-- The loop over the rows of a query. -/
def Derivation.backfill (table : List β) (rows : List StoredEvent) : List β × ℕ :=
  rows.foldl (fun state e => (d.rowsOf e).foldl (insertRow d.pk) state) (table, 0)

def Derivation.moves (e : StoredEvent) : Bool := !(d.rowsOf e).isEmpty

/-- Calls with `LIMIT batch` until one returns 0. -/
abbrev Derivation.Calls (table table' : List β) : Prop :=
  Backlog.Calls d.order batch (d.pending events) d.backfill table table'

/-- The pending events without rows to insert that may be fetched before `e`. -/
def Derivation.ahead (table : List β) (e : StoredEvent) : ℕ :=
  Backlog.ahead d.order d.moves (d.pending events table) e

/-- All rows of the event are in the table. -/
def Derivation.Covers (table : List β) (e : StoredEvent) : Prop :=
  ∀ b ∈ d.rowsOf e, d.pk b ∈ table.map d.pk

end

/-! ### The two tables -/

structure AddressRow where
  eventId : ℕ
  address : String
  position : Int16
  ledger : ℤ

structure TransferRow where
  eventId : ℕ
  contractId : String
  kind : String
  fromAddress : Option String
  toAddress : Option String
  spender : Option String
  amount : Option ℤ
  ledger : ℤ
  txHash : String

/-- The positions are stored `as i16`. -/
def eventAddresses : Derivation AddressRow (ℕ × String × Int16) where
  wants e := (Erasure.topicsOf e.eventData).isSome
  order e := -e.ledger
  rowsOf e := (Erasure.extractAddresses e.eventData).map fun a =>
    { eventId := e.id, address := a.1, position := Int16.ofNat a.2, ledger := e.ledger }
  pk row := (row.eventId, row.address, row.position)
  eventId := AddressRow.eventId
  eventId_of_pk h := congrArg Prod.fst h
  eventId_rowsOf h := by
    obtain ⟨a, -, rfl⟩ := List.mem_map.mp h
    rfl

def TOKEN_EVENTS : List String :=
  ["transfer", "mint", "burn", "clawback", "approve", "set_admin", "set_authorized"]

/-- `token_events::decode_event_data` -/
def decodeEventData (eventData : Value) : Option TokenEvent :=
  (Erasure.topicsOf eventData).bind fun topics => decode topics (Erasure.valueOf eventData)

/-- The cast does not fail, by `castNumeric_amount`. -/
def transferRow (e : StoredEvent) (ev : TokenEvent) : TransferRow where
  eventId := e.id
  contractId := e.contractId
  kind := ev.kind
  fromAddress := ev.fromAddr
  toAddress := ev.toAddr
  spender := ev.spender
  amount := ev.amount.bind Sep41.castNumeric
  ledger := e.ledger
  txHash := e.txHash

def tokenTransfers : Derivation TransferRow ℕ where
  wants e := Sep41.firstTopicIn TOKEN_EVENTS e.eventData
  order e := e.ledger
  rowsOf e := ((decodeEventData e.eventData).map (transferRow e)).toList
  pk := TransferRow.eventId
  eventId := TransferRow.eventId
  eventId_of_pk h := h
  eventId_rowsOf h := by
    obtain ⟨ev, -, rfl⟩ := Option.map_eq_some_iff.mp (Option.mem_toList.mp h)
    rfl

/-- Every topic that is an address has its row, at its position. -/
def Listed (table : List AddressRow) (e : StoredEvent) : Prop :=
  ∀ a ∈ Erasure.extractAddresses e.eventData,
    ∃ row ∈ table, row.eventId = e.id ∧ row.address = a.1 ∧ row.position.toInt = a.2

/-- Both backfills come to return 0, whatever the order of events of one ledger, and have by then
    inserted all addresses, and a transfer for every event selected that decodes. -/
structure Finishes (events : Events) (addresses : List AddressRow) (transfers : List TransferRow)
    (batch : ℕ) : Prop where
  addressCalls : Acc (Again eventAddresses.order batch (eventAddresses.pending events)
    eventAddresses.backfill) addresses
  addresses : ∀ addresses', eventAddresses.Calls events batch addresses addresses' →
    ∀ e ∈ events.rows, Erasure.extractAddresses e.eventData ≠ [] → Listed addresses' e
  transferCalls : Acc (Again tokenTransfers.order batch (tokenTransfers.pending events)
    tokenTransfers.backfill) transfers
  transfers : ∀ transfers', tokenTransfers.Calls events batch transfers transfers' →
    ∀ e ∈ tokenTransfers.pending events transfers, (decodeEventData e.eventData).isSome →
      ∃ row ∈ transfers', row.eventId = e.id

/-- No event is behind a batch of others that keep their place; one without all its addresses has none
    of them, and none beyond the range of a SMALLINT. -/
structure Unblocked (events : Events) (addresses : List AddressRow) (transfers : List TransferRow)
    (batch : ℕ) : Prop where
  addresses : ∀ e ∈ events.rows, Erasure.extractAddresses e.eventData ≠ [] → Listed addresses e ∨
    (∀ a ∈ Erasure.extractAddresses e.eventData, a.2 < 2 ^ 15) ∧
      (∀ row ∈ addresses, row.eventId ≠ e.id) ∧ eventAddresses.ahead events addresses e < batch
  transfers : ∀ e ∈ tokenTransfers.pending events transfers, (decodeEventData e.eventData).isSome →
    tokenTransfers.ahead events transfers e < batch

/-- An amount is that of the value, if it is kept at all. -/
theorem amount_of_decode {topics : List Value} {value : Value} {ev : TokenEvent}
    (h : decode topics value = some ev) : ev.amount = amountStr value ∨ ev.amount = none := by
  obtain ⟨name, _, h⟩ := Option.bind_eq_some_iff.mp h
  dsimp only [Option.bind_eq_bind, Option.bind_some] at h
  split_ifs at h <;> cases h <;> first | exact .inl rfl | exact .inr rfl

/-- No amount is lost in its cast. -/
theorem castNumeric_amount {v : Value} {ev : TokenEvent} (h : decodeEventData v = some ev) :
    ∀ amount ∈ ev.amount, (Sep41.castNumeric amount).isSome := by
  obtain ⟨topics, -, hdecode⟩ := Option.bind_eq_some_iff.mp h
  intro amount hamount
  rcases amount_of_decode hdecode with heq | heq
  · exact Sep41.isSome_parse_amountStr (heq.symm.trans hamount)
  · rw [heq] at hamount
    cases hamount

/-! ### What a call inserts -/

section
variable {β κ : Type} {d : Derivation β κ} {events : Events} {table : List β} {e : StoredEvent}

theorem mem_pending_iff : e ∈ d.pending events table ↔
    e ∈ events.rows ∧ d.wants e = true ∧ ∀ b ∈ table, d.eventId b ≠ e.id := by
  rw [Derivation.pending, List.mem_filter]
  simp

theorem moves_iff : d.moves e = true ↔ d.rowsOf e ≠ [] := by
  rw [Derivation.moves, Bool.not_eq_true', List.isEmpty_eq_false_iff]

theorem Events.eq_of_id {a b : StoredEvent} (ha : a ∈ events.rows) (hb : b ∈ events.rows)
    (h : a.id = b.id) : a = b :=
  List.inj_on_of_nodup_map events.unique ha hb h

theorem covers_append {added : List β} (h : d.Covers table e) : d.Covers (table ++ added) e := by
  intro b hb
  rw [List.map_append]
  exact List.mem_append_left _ (h b hb)

theorem nodup_pending : ((d.pending events table).map (·.id)).Nodup :=
  events.unique.sublist (List.filter_sublist.map _)

end

section
variable {β κ : Type} [DecidableEq κ] {d : Derivation β κ} {events : Events} {batch : ℕ}
variable {table table' : List β} {rows : List StoredEvent} {e : StoredEvent}

theorem foldl_insertRow (pk : β → κ) : ∀ (l : List β) (table : List β) (n : ℕ),
    ∃ added, l.foldl (insertRow pk) (table, n) = (table ++ added, n + added.length) ∧
      (∀ b ∈ added, b ∈ l) ∧ ∀ b ∈ l, pk b ∈ (table ++ added).map pk
  | [], table, n => ⟨[], by simp, fun b hb => hb, fun b hb => absurd hb List.not_mem_nil⟩
  | b :: l, table, n => by
    rw [List.foldl_cons, insertRow]
    split
    · next hmem =>
      obtain ⟨added, hfold, hsub, hall⟩ := foldl_insertRow pk l table n
      refine ⟨added, hfold, fun b hb => List.mem_cons_of_mem _ (hsub b hb), fun c hc => ?_⟩
      rcases List.mem_cons.mp hc with rfl | hc
      · rw [List.map_append]
        exact List.mem_append_left _ hmem
      · exact hall c hc
    · obtain ⟨added, hfold, hsub, hall⟩ := foldl_insertRow pk l (table ++ [b]) (n + 1)
      refine ⟨b :: added, ?_, ?_, fun c hc => ?_⟩
      · rw [hfold, List.append_assoc, List.singleton_append, List.length_cons]
        congr 1
        omega
      · intro c hc
        rcases List.mem_cons.mp hc with rfl | hc
        · exact List.mem_cons_self
        · exact List.mem_cons_of_mem _ (hsub c hc)
      · rw [List.append_cons]
        rcases List.mem_cons.mp hc with rfl | hc
        · simp
        · exact hall c hc

theorem backfill_spec (d : Derivation β κ) (table : List β) (rows : List StoredEvent) :
    ∃ added, d.backfill table rows = (table ++ added, added.length) ∧
      (∀ b ∈ added, ∃ e ∈ rows, b ∈ d.rowsOf e) ∧
      ∀ e ∈ rows, d.Covers (table ++ added) e := by
  obtain ⟨added, hfold, hsub, hall⟩ := foldl_insertRow d.pk (rows.flatMap d.rowsOf) table 0
  refine ⟨added, ?_, fun b hb => List.mem_flatMap.mp (hsub b hb), fun e he b hb => ?_⟩
  · rw [Derivation.backfill, ← List.foldl_flatMap, hfold, Nat.zero_add]
  · exact hall b (List.mem_flatMap.mpr ⟨e, he, hb⟩)

/-- The events with rows to insert are pending no longer. -/
theorem pending_backfill (table : List β) (rows : List StoredEvent) :
    d.pending events (d.backfill table rows).1 =
      left (·.id) d.moves (d.pending events table) rows := by
  obtain ⟨added, hadded, hfrom, hall⟩ := backfill_spec d table rows
  rw [hadded, left, Derivation.pending, Derivation.pending, List.filter_filter]
  refine List.filter_congr fun e he => ?_
  rw [List.any_append, Bool.not_or, Bool.and_comm (!rows.any _), ← Bool.and_assoc]
  by_cases hpending : d.wants e && !table.any (d.eventId · = e.id)  -- was it pending before?
  · -- then no row is derived from it yet
    have hnone : ∀ b ∈ table, d.eventId b ≠ e.id := by
      have he' : e ∈ d.pending events table := List.mem_filter.mpr ⟨he, hpending⟩
      exact (mem_pending_iff.mp he').2.2
    rw [hpending, Bool.true_and, Bool.true_and]
    congr 1
    rw [Bool.eq_iff_iff, List.any_eq_true, List.any_eq_true]
    constructor
    · -- a derived row comes from a row of the batch that has some to insert
      rintro ⟨b, hb, hid⟩
      obtain ⟨row, hrow, hrowb⟩ := hfrom b hb
      refine ⟨row, hrow, ?_⟩
      rw [Bool.and_eq_true, moves_iff, decide_eq_true_eq]
      refine ⟨List.ne_nil_of_mem hrowb, ?_⟩
      rw [← d.eventId_rowsOf hrowb]
      exact (of_decide_eq_true hid).symm
    · -- and such a row has all that it derives inserted
      rintro ⟨row, hrow, hmoved⟩
      rw [Bool.and_eq_true, moves_iff, decide_eq_true_eq] at hmoved
      obtain ⟨hne, hid⟩ := hmoved
      obtain ⟨b, hb⟩ := List.exists_mem_of_ne_nil _ hne
      obtain ⟨b', hb', hpk⟩ := List.mem_map.mp (hall row hrow b hb)
      have hid' : d.eventId b' = e.id := by
        rw [d.eventId_of_pk hpk, d.eventId_rowsOf hb, hid]
      rcases List.mem_append.mp hb' with hb' | hb'
      · exact absurd hid' (hnone b' hb')
      · exact ⟨b', hb', decide_eq_true hid'⟩
  · rw [Bool.not_eq_true _ |>.mp hpending, Bool.false_and, Bool.false_and]

theorem works (d : Derivation β κ) (events : Events) (batch : ℕ) :
    Works d.order (·.id) d.moves batch (d.pending events) d.backfill where
  left _ := pending_backfill _ _
  zero := by
    intro table rows hfetch
    obtain ⟨added, hadded, hfrom, hall⟩ := backfill_spec d table rows
    rw [hadded, List.length_eq_zero_iff]
    constructor
    · rintro rfl row hrow
      by_contra hmoved
      obtain ⟨b, hb⟩ := List.exists_mem_of_ne_nil _
        (moves_iff.mp (Bool.eq_true_of_not_eq_false hmoved))
      obtain ⟨b', hb', hpk⟩ := List.mem_map.mp (hall row hrow b hb)
      rw [List.append_nil] at hb'
      refine (mem_pending_iff.mp (hfetch.subset hrow)).2.2 b' hb' ?_
      rw [d.eventId_of_pk hpk, d.eventId_rowsOf hb]
    · intro hstay
      refine List.eq_nil_iff_forall_not_mem.mpr fun b hb => ?_
      obtain ⟨row, hrow, hrowb⟩ := hfrom b hb
      have hmoved := moves_iff.mpr (List.ne_nil_of_mem hrowb)
      rw [hstay row hrow] at hmoved
      cases hmoved

/-! ### What the calls leave -/

theorem covers_calls (hcalls : d.Calls events batch table table') (h : d.Covers table e) :
    d.Covers table' e := by
  induction hcalls with
  | @last table rows _ _ =>
    obtain ⟨added, hadded, -, -⟩ := backfill_spec d table rows
    rw [hadded]
    exact covers_append h
  | @again table table' rows _ _ _ ih =>
    obtain ⟨added, hadded, -, -⟩ := backfill_spec d table rows
    rw [hadded] at ih
    exact ih (covers_append h)

/-- An event that is pending is covered by the call that takes it away. -/
theorem pending_or_covers (hsub : ∀ row ∈ rows, row ∈ d.pending events table)
    (he : e ∈ d.pending events table) : e ∈ d.pending events (d.backfill table rows).1 ∨
      d.Covers (d.backfill table rows).1 e := by
  by_cases hmem : e ∈ d.pending events (d.backfill table rows).1
  · exact .inl hmem
  refine .inr ?_
  rw [pending_backfill, mem_left_iff, not_and] at hmem
  have hgone := hmem he
  push Not at hgone
  obtain ⟨row, hrow, -, hid⟩ := hgone
  have hevents := (mem_pending_iff.mp he).1
  rw [Events.eq_of_id hevents (mem_pending_iff.mp (hsub row hrow)).1 hid]
  obtain ⟨added, hadded, -, hall⟩ := backfill_spec d table rows
  rw [hadded]
  exact hall row hrow

theorem covers_of_gone (hcalls : d.Calls events batch table table')
    (he : e ∈ d.pending events table) (hgone : e ∉ d.pending events table') :
    d.Covers table' e := by
  induction hcalls with
  | last hfetch _ =>
    exact (pending_or_covers (fun _ hrow => hfetch.subset hrow) he).resolve_left hgone
  | again hfetch _ hrest ih =>
    rcases pending_or_covers (fun _ hrow => hfetch.subset hrow) he with hmem | hcovers
    · exact ih hmem hgone
    · exact covers_calls hrest hcovers

/-- Of an event that is not pending no rows are inserted. -/
theorem not_mem_calls (hcalls : d.Calls events batch table table') (he : e ∈ events.rows)
    (hidle : e ∉ d.pending events table) {b : β} (hb : b ∈ d.rowsOf e)
    (hmissing : d.pk b ∉ table.map d.pk) : d.pk b ∉ table'.map d.pk := by
  have hcall : ∀ {table : List β} {rows : List StoredEvent},
      Fetches d.order batch (d.pending events table) rows → e ∉ d.pending events table →
      d.pk b ∉ table.map d.pk → e ∉ d.pending events (d.backfill table rows).1 ∧
        d.pk b ∉ (d.backfill table rows).1.map d.pk := by
    intro table rows hfetch hidle hmissing
    refine ⟨?_, ?_⟩
    · rw [pending_backfill, mem_left_iff]
      exact fun h => hidle h.1
    · obtain ⟨added, hadded, hfrom, -⟩ := backfill_spec d table rows
      rw [hadded, List.map_append]
      intro hmem
      rcases List.mem_append.mp hmem with hmem | hmem
      · exact hmissing hmem
      · obtain ⟨b', hb', hpk⟩ := List.mem_map.mp hmem
        obtain ⟨row, hrow, hrowb⟩ := hfrom b' hb'
        have hrow' := hfetch.subset hrow
        have hid : e.id = row.id := by
          rw [← d.eventId_rowsOf hb, ← d.eventId_rowsOf hrowb, d.eventId_of_pk hpk]
        rw [← Events.eq_of_id he (mem_pending_iff.mp hrow').1 hid] at hrow'
        exact hidle hrow'
  induction hcalls with
  | last hfetch _ => exact (hcall hfetch hidle hmissing).2
  | again hfetch _ _ ih =>
    obtain ⟨hidle', hmissing'⟩ := hcall hfetch hidle hmissing
    exact ih hidle' hmissing'

/-- The rows of an event end up in the table exactly when they are there already, or the event is
    pending and not behind a batch of others that keep their place. -/
theorem covers_iff (he : e ∈ events.rows) (hrows : d.rowsOf e ≠ []) :
    (∀ table', d.Calls events batch table table' → d.Covers table' e) ↔
      d.Covers table e ∨ e ∈ d.pending events table ∧ d.ahead events table e < batch := by
  have hmoves : d.moves e = true := moves_iff.mpr hrows
  constructor
  · intro h
    by_cases hcovers : d.Covers table e
    · exact .inl hcovers
    refine .inr ?_
    by_cases hpending : e ∈ d.pending events table
    · refine ⟨hpending, ?_⟩
      rw [Derivation.ahead, ← calls_gone_iff (works d events batch) nodup_pending hpending hmoves]
      intro table' hcalls hmem
      obtain ⟨b, hb⟩ := List.exists_mem_of_ne_nil _ hrows
      obtain ⟨b', hb', hpk⟩ := List.mem_map.mp (h table' hcalls b hb)
      refine (mem_pending_iff.mp hmem).2.2 b' hb' ?_
      rw [d.eventId_of_pk hpk, d.eventId_rowsOf hb]
    · exfalso
      obtain ⟨table', hcalls⟩ := exists_calls_from (works d events batch) table
      rw [Derivation.Covers] at hcovers
      push Not at hcovers
      obtain ⟨b, hb, hmissing⟩ := hcovers
      exact not_mem_calls hcalls he hpending hb hmissing (h table' hcalls b hb)
  · rintro (hcovers | ⟨hpending, hahead⟩) table' hcalls
    · exact covers_calls hcalls hcovers
    · refine covers_of_gone hcalls hpending ?_
      exact (calls_gone_iff (works d events batch) nodup_pending hpending hmoves).mpr hahead
        table' hcalls

end

/-! ### Both tables -/

section
variable {events : Events} {addresses : List AddressRow} {transfers : List TransferRow} {batch : ℕ}
variable {e : StoredEvent}

/-- No row says a position beyond the range of a SMALLINT. -/
theorem lt_of_listed (h : Listed addresses e) :
    ∀ a ∈ Erasure.extractAddresses e.eventData, a.2 < 2 ^ 15 := by
  intro a ha
  obtain ⟨row, -, -, -, hposition⟩ := h a ha
  have hlt := row.position.toInt_lt
  omega

theorem listed_iff (hlow : ∀ a ∈ Erasure.extractAddresses e.eventData, a.2 < 2 ^ 15) :
    Listed addresses e ↔ eventAddresses.Covers addresses e := by
  constructor
  · intro h b hb
    obtain ⟨a, ha, rfl⟩ := List.mem_map.mp hb
    obtain ⟨row, hrow, hid, haddress, hposition⟩ := h a ha
    have heq : row.position = Int16.ofNat a.2 := by
      rw [← Int16.toInt_inj, hposition, Int16.toInt_ofNat_of_lt (hlow a ha)]
    refine List.mem_map.mpr ⟨row, hrow, ?_⟩
    exact Prod.ext hid (Prod.ext haddress heq)
  · intro h a ha
    obtain ⟨row, hrow, hpk⟩ := List.mem_map.mp (h _ (List.mem_map_of_mem ha))
    obtain ⟨hid, hpk⟩ := Prod.mk.inj hpk
    obtain ⟨haddress, hposition⟩ := Prod.mk.inj hpk
    refine ⟨row, hrow, hid, haddress, ?_⟩
    rw [hposition]
    exact Int16.toInt_ofNat_of_lt (hlow a ha)

/-- Only an array of topics has addresses. -/
theorem wants_of_addresses (h : Erasure.extractAddresses e.eventData ≠ []) :
    eventAddresses.wants e = true := by
  show (Erasure.topicsOf e.eventData).isSome = true
  by_contra hnone
  refine h ?_
  rw [Erasure.extractAddresses, Option.not_isSome_iff_eq_none.mp hnone]
  rfl

theorem listed_calls_iff (he : e ∈ events.rows) (h : Erasure.extractAddresses e.eventData ≠ []) :
    (∀ addresses', eventAddresses.Calls events batch addresses addresses' → Listed addresses' e) ↔
      Listed addresses e ∨ (∀ a ∈ Erasure.extractAddresses e.eventData, a.2 < 2 ^ 15) ∧
        (∀ row ∈ addresses, row.eventId ≠ e.id) ∧
          eventAddresses.ahead events addresses e < batch := by
  by_cases hlow : ∀ a ∈ Erasure.extractAddresses e.eventData, a.2 < 2 ^ 15
  · have hrows : eventAddresses.rowsOf e ≠ [] := by
      intro hnil
      exact h (List.map_eq_nil_iff.mp hnil)
    have hpending : e ∈ eventAddresses.pending events addresses ↔
        ∀ row ∈ addresses, row.eventId ≠ e.id := by
      rw [mem_pending_iff, and_iff_right he, and_iff_right (wants_of_addresses h)]
      rfl
    rw [listed_iff hlow, and_iff_right hlow, ← hpending, ← covers_iff he hrows]
    exact forall₂_congr fun _ _ => listed_iff hlow
  · constructor
    · intro hall
      obtain ⟨addresses', hcalls⟩ := exists_calls_from (works eventAddresses events batch) addresses
      exact absurd (lt_of_listed (hall addresses' hcalls)) hlow
    · rintro (hlisted | ⟨hlow', -⟩)
      · exact absurd (lt_of_listed hlisted) hlow
      · exact absurd hlow' hlow

theorem transferred_calls_iff (he : e ∈ tokenTransfers.pending events transfers)
    (h : (decodeEventData e.eventData).isSome) :
    (∀ transfers', tokenTransfers.Calls events batch transfers transfers' →
        ∃ row ∈ transfers', row.eventId = e.id) ↔
      tokenTransfers.ahead events transfers e < batch := by
  obtain ⟨ev, hev⟩ := Option.isSome_iff_exists.mp h
  have hrows : tokenTransfers.rowsOf e = [transferRow e ev] := by
    show ((decodeEventData e.eventData).map (transferRow e)).toList = _
    rw [hev]
    rfl
  have hcovers : ∀ table, tokenTransfers.Covers table e ↔ ∃ row ∈ table, row.eventId = e.id := by
    intro table
    rw [Derivation.Covers, hrows, List.forall_mem_singleton]
    exact List.mem_map
  have hmissing : ¬tokenTransfers.Covers transfers e := by
    rw [hcovers]
    rintro ⟨row, hrow, hid⟩
    exact (mem_pending_iff.mp he).2.2 row hrow hid
  have hne : tokenTransfers.rowsOf e ≠ [] := by
    rw [hrows]
    exact List.cons_ne_nil _ _
  refine (forall₂_congr fun table _ => (hcovers table).symm).trans ?_
  rw [covers_iff (mem_pending_iff.mp he).1 hne, or_iff_right hmissing, and_iff_right he]

/-- The backfills finish the job exactly when no event to be filled in is behind a batch of events
    that keep their place. -/
theorem finishes_iff (events : Events) (addresses : List AddressRow) (transfers : List TransferRow)
    (batch : ℕ) :
    Finishes events addresses transfers batch ↔ Unblocked events addresses transfers batch := by
  constructor
  · rintro ⟨-, haddresses, -, htransfers⟩
    refine ⟨fun e he h => ?_, fun e he h => ?_⟩
    · exact (listed_calls_iff he h).mp fun addresses' hcalls => haddresses addresses' hcalls e he h
    · exact (transferred_calls_iff he h).mp fun transfers' hcalls =>
        htransfers transfers' hcalls e he h
  · rintro ⟨haddresses, htransfers⟩
    refine ⟨acc_again (works _ _ _) _, ?_, acc_again (works _ _ _) _, ?_⟩
    · exact fun addresses' hcalls e he h =>
        (listed_calls_iff he h).mpr (haddresses e he h) addresses' hcalls
    · exact fun transfers' hcalls e he h =>
        (transferred_calls_iff he h).mpr (htransfers e he h) transfers' hcalls

end

def pingEvent : StoredEvent where
  id := 1
  contractId := "C"
  ledger := 2
  txHash := "t"
  eventData := .object [("topic", .array [.string "ping"]), ("value", .null)]

def accountEvent : StoredEvent where
  id := 2
  contractId := "C"
  ledger := 1
  txHash := "u"
  eventData := .object [("topic", .array [.string (Sep41.account 'B')]), ("value", .null)]

/-- The newest event has no address, the one before it has one. -/
def twoLedgers : Events where
  rows := [pingEvent, accountEvent]
  unique := by decide

/-- In batches of one, the first is fetched for ever. -/
theorem not_finishes_twoLedgers : ¬Finishes twoLedgers [] [] 1 := by
  intro h
  have he : accountEvent ∈ twoLedgers.rows := List.mem_cons_of_mem _ List.mem_cons_self
  have hne : Erasure.extractAddresses accountEvent.eventData ≠ [] := by decide +kernel
  have hahead : eventAddresses.ahead twoLedgers [] accountEvent = 1 := by decide +kernel
  have hlisted := fun addresses' hcalls => h.addresses addresses' hcalls accountEvent he hne
  rcases (listed_calls_iff he hne).mp hlisted with hlisted | ⟨-, -, hlt⟩
  · obtain ⟨a, ha⟩ := List.exists_mem_of_ne_nil _ hne
    obtain ⟨row, hrow, -⟩ := hlisted a ha
    cases hrow
  · rw [hahead] at hlt
    exact absurd hlt (Nat.lt_irrefl 1)

end SorobanPulse.Tokens
