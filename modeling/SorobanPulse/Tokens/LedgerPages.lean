import SorobanPulse.Events.CursorWalk
import SorobanPulse.Lib.Grouping
import SorobanPulse.Lib.ProbedPages
import SorobanPulse.Tokens.Sep41

/-! The pages of `GET /v1/events/sep41` and `GET /v1/accounts/{address}/events`.

    Both are ordered by `(ledger, id)`, newest first, and cut by a cursor `<ledger>:<event_id>`. The
    second reads an index of addresses that carries a copy of each event's ledger. It is cut by the
    copy and ordered by the ledger itself. -/

namespace SorobanPulse.Tokens.Pages
open Lib Lib.Keyset
open Events (AppError Uuid parseI64 i64Text validateContractId)

/-! ### Tables -/

/-- What the two endpoints read of an event. -/
structure EventRow where
  id : Uuid
  contractId : String
  eventType : String
  txHash : String
  ledger : ℤ
  timestamp : ℤ
  eventData : Value
  sep41EventType : Option String
  sep41From : Option String
  sep41To : Option String
  sep41Amount : Option ℤ

/-- `events`: its ids are a primary key, its ledgers `BIGINT`. -/
structure EventTable where
  rows : List EventRow
  ids : (rows.map EventRow.id).Nodup
  ledgers : ∀ row ∈ rows, I64_MIN ≤ row.ledger ∧ row.ledger ≤ I64_MAX

/-- A row of `event_addresses`. -/
structure AddressRow where
  eventId : Uuid
  address : String
  position : ℤ
  ledger : ℤ

/-! ### Cursors and pages -/

/-- `format!("{l}:{id}")`. -/
def cursorText (ledger : ℤ) (id : Uuid) : String := i64Text ledger ++ ":" ++ uuidText id

def parseCursor (c : String) : Except AppError (ℤ × Uuid) :=
  match Ingest.splitOnce ':' c.toList with
  | none => .error (.Validation "invalid cursor")
  | some (l, i) =>
    match parseI64 (String.ofList l), parseUuid (String.ofList i) with
    | some ledger, some id => .ok (ledger, id)
    | _, _ => .error (.Validation "invalid cursor")

/-- `limit.unwrap_or(50).clamp(1, 200)`. -/
def clampLimit (limit : Option ℤ) : ℕ := (max 1 (min (limit.getD 50) 200)).toNat

/-- The position of a row: newest first. -/
def position (ledger : ℤ) (id : Uuid) : (ℤ ×ₗ ℕ)ᵒᵈ := OrderDual.toDual (toLex (ledger, id.toNat))

def EventRow.position (row : EventRow) : (ℤ ×ₗ ℕ)ᵒᵈ := Pages.position row.ledger row.id

/-- `$::bigint IS NULL OR (ledger, id) < ($, $)`. -/
def beforeCursor (cursor : Option (ℤ × Uuid)) (ledger : ℤ) (id : Uuid) : Bool :=
  cursor.all fun c => decide (position c.1 c.2 < position ledger id)

structure Response where
  events : List EventRow
  nextCursor : Option String

/-- `ORDER BY ledger DESC, id DESC LIMIT limit + 1`, and the page of that. -/
def respond (limit : ℕ) (selected : List EventRow) : Response :=
  let rows := page EventRow.position (limit + 1) selected
  let hasMore := decide (limit < rows.length)
  let items := rows.take limit
  let next := items.getLast?.map fun r => cursorText r.ledger r.id
  ⟨items, if hasMore then next else none⟩

/-! ### `/v1/events/sep41` -/

structure Sep41Query where
  fromAddr : Option String
  toAddr : Option String
  minAmount : Option String
  eventType : Option String
  contractId : Option String
  cursor : Option String
  limit : Option ℤ

def checkAddress (name : String) (addr : Option String) : Except AppError Unit :=
  if addr.any fun a => !Sep41.isAddress a then .error (.Validation s!"invalid {name} address")
  else .ok ()

def Sep41Query.checkMinAmount (q : Sep41Query) : Except AppError Unit :=
  if q.minAmount.any fun m => (parseI128 m).isNone then .error (.Validation "invalid min_amount")
  else .ok ()

def Sep41Query.checkEventType (q : Sep41Query) : Except AppError (Option String) :=
  match q.eventType with
  | none => .ok none
  | some t =>
    match Sep41.Sep41EventType.parse t with
    | some kind => .ok (some kind.asStr)
    | none => .error (.Validation "event_type must be transfer, mint, burn or clawback")

/-- The checks before the cursor; what is left is the text of the event type. -/
def Sep41Query.check (q : Sep41Query) : Except AppError (Option String) := do
  checkAddress "from" q.fromAddr
  checkAddress "to" q.toAddr
  q.checkMinAmount
  let eventType ← q.checkEventType
  (q.contractId.map validateContractId).getD (.ok ())
  return eventType

/-- `sep41_amount >= $::numeric`. -/
def EventRow.atLeast (row : EventRow) (minAmount : String) : Bool :=
  row.sep41Amount.any fun n => (parseI128 minAmount).any fun least => least ≤ n

/-- The conditions of the query other than the cursor's. -/
def Sep41Query.selects (q : Sep41Query) (eventType : Option String) (row : EventRow) : Bool :=
  row.sep41EventType.isSome &&
    (q.fromAddr.all fun a => row.sep41From == some a) &&
    (q.toAddr.all fun a => row.sep41To == some a) &&
    q.minAmount.all row.atLeast &&
    (eventType.all fun t => row.sep41EventType == some t) &&
    q.contractId.all fun c => row.contractId == c

def getSep41Events (events : EventTable) (q : Sep41Query) : Except AppError Response := do
  let eventType ← q.check
  let cursor ← q.cursor.mapM parseCursor
  let limit := clampLimit q.limit
  let selected := events.rows.filter fun row =>
    q.selects eventType row && beforeCursor cursor row.ledger row.id
  return respond limit selected

/-! ### `/v1/accounts/{address}/events` -/

structure AccountEventsQuery where
  role : Option String
  fromLedger : Option ℤ
  toLedger : Option ℤ
  cursor : Option String
  limit : Option ℤ

/-- The topic position that a role restricts to. -/
def AccountEventsQuery.check (q : AccountEventsQuery) (address : String) :
    Except AppError (Option ℤ) :=
  if !Sep41.isAddress address then .error (.Validation "invalid address")
  else
    match q.role.getD "any" with
    | "any" => .ok none
    | "topic1" => .ok (some 1)
    | "topic2" => .ok (some 2)
    | _ => .error (.Validation "role must be any, topic1 or topic2")

def AccountEventsQuery.selects (q : AccountEventsQuery) (address : String) (pos : Option ℤ)
    (ea : AddressRow) (ledger : ℤ) : Bool :=
  (ea.address == address) && (pos.all fun p => ea.position == p) &&
    (q.fromLedger.all fun least => least ≤ ledger) && q.toLedger.all fun most => ledger ≤ most

/-- `event_addresses ea JOIN events e ON e.id = ea.event_id`. -/
def joined (events : EventTable) (addresses : List AddressRow) : List (AddressRow × EventRow) :=
  addresses.flatMap fun ea => (events.rows.filter fun e => e.id == ea.eventId).map fun e => (ea, e)

/-- `(ea.ledger, ea.event_id)`. -/
def indexKey (p : AddressRow × EventRow) : ℤ × Uuid := (p.1.ledger, p.1.eventId)

def getAccountEvents (events : EventTable) (addresses : List AddressRow) (address : String)
    (q : AccountEventsQuery) : Except AppError Response := do
  let pos ← q.check address
  let cursor ← q.cursor.mapM parseCursor
  let limit := clampLimit q.limit
  let matching := (joined events addresses).filter fun p =>
    q.selects address pos p.1 p.1.ledger && beforeCursor cursor p.1.ledger p.1.eventId
  -- `DISTINCT ON`: all rows of one key have joined the same event
  return respond limit ((firstBy indexKey matching).map Prod.snd)

/-! ### Following the cursors -/

/-- From a request without a cursor until there is no next one: each matching event once, newest
    first, in pages within the limit, none of them empty unless nothing matches. -/
def Partitions (handler : Option String → Except AppError Response) (limit : ℕ)
    (matching : List EventRow) : Prop :=
  ∃ pages, Follow (fun cursor rows next => handler cursor = .ok ⟨rows, next⟩) none pages ∧
    pages.flatten.Perm matching ∧
    pages.flatten.Pairwise (fun a b => a.position < b.position) ∧
    (∀ rows ∈ pages, rows.length ≤ limit) ∧ ∀ rows ∈ pages, rows = [] → matching = []

section
variable {matching selected : List EventRow} {events : EventTable} {a b : EventRow} {limit : ℕ}

theorem clampLimit_pos (limit : Option ℤ) : 0 < clampLimit limit := by
  rw [clampLimit]
  omega

theorem position_injective {l l' : ℤ} {id id' : Uuid} (h : position l id = position l' id') :
    l = l' ∧ id = id' := by
  obtain ⟨hledger, hid⟩ := Prod.mk.inj (toLex_inj.mp (OrderDual.toDual_inj.mp h))
  exact ⟨hledger, BitVec.eq_of_toNat_eq hid⟩

theorem EventTable.eq_of_id (ha : a ∈ events.rows) (hb : b ∈ events.rows) (h : a.id = b.id) : a = b :=
  List.inj_on_of_nodup_map events.ids ha hb h

theorem EventTable.distinct (h : ∀ row ∈ matching, row ∈ events.rows) :
    Distinct EventRow.position matching := by
  intro a ha b hb hposition
  exact events.eq_of_id (h a ha) (h b hb) (position_injective hposition).2

theorem parseCursor_cursorText {ledger : ℤ} (h : I64_MIN ≤ ledger ∧ ledger ≤ I64_MAX) (id : Uuid) :
    parseCursor (cursorText ledger id) = .ok (ledger, id) := by
  have htext : (cursorText ledger id).toList =
      (i64Text ledger).toList ++ ':' :: (uuidText id).toList := by
    rw [cursorText, String.toList_append, String.toList_append, List.append_assoc]
    rfl
  rw [parseCursor, htext, Ingest.splitOnce_append (Events.colon_not_mem_i64Text ledger)]
  simp only [String.ofList_toList, Events.parseI64_i64Text h, parseUuid_uuidText]

/-- The cursor of a position. -/
def positionText (k : (ℤ ×ₗ ℕ)ᵒᵈ) : String :=
  cursorText (ofLex (OrderDual.ofDual k)).1 (BitVec.ofNat 128 (ofLex (OrderDual.ofDual k)).2)

theorem positionText_position (row : EventRow) :
    positionText row.position = cursorText row.ledger row.id := by
  show cursorText row.ledger (BitVec.ofNat 128 row.id.toNat) = _
  rw [BitVec.ofNat_toNat, BitVec.setWidth_eq]

theorem respond_eq (limit : ℕ) (selected : List EventRow) :
    respond limit selected =
      ⟨(probed EventRow.position limit (page EventRow.position (limit + 1) selected)).1,
        (probed EventRow.position limit (page EventRow.position (limit + 1) selected)).2.map
          positionText⟩ := by
  have htext : (fun r : EventRow => cursorText r.ledger r.id) = positionText ∘ EventRow.position :=
    funext fun row => (positionText_position row).symm
  rw [respond, htext]
  simp only [probed, decide_eq_true_eq, apply_ite (Option.map positionText), Option.map_map,
    Option.map_none]

/-- Only which rows are selected matters. -/
theorem respond_perm (hdistinct : Distinct EventRow.position selected)
    (h : selected.Perm matching) : respond limit selected = respond limit matching := by
  rw [respond, respond, page, page, hdistinct.sortOn_eq h]

/-- Enough that a request is answered with what is behind its cursor. -/
theorem partitions_of_replies {handler : Option String → Except AppError Response}
    (hlimit : 0 < limit) (hmem : ∀ row ∈ matching, row ∈ events.rows) (hnd : matching.Nodup)
    (hnone : handler none = .ok (respond limit matching))
    (hsome : ∀ row ∈ matching, handler (some (cursorText row.ledger row.id)) =
      .ok (respond limit (behind EventRow.position (some row.position) matching))) :
    Partitions handler limit matching := by
  have hdistinct : Distinct EventRow.position matching := events.distinct hmem
  have hreply : ∀ cursor : Option (ℤ ×ₗ ℕ)ᵒᵈ,
      (∀ k ∈ cursor, ∃ row ∈ matching, EventRow.position row = k) →
        handler (cursor.map positionText) =
          .ok (respond limit (behind EventRow.position cursor matching)) := by
    intro cursor hcursor
    cases cursor with
    | none => exact hnone
    | some k =>
      obtain ⟨row, hrow, rfl⟩ := hcursor k rfl
      rw [Option.map_some, positionText_position]
      exact hsome row hrow
  simp only [respond_eq] at hreply
  obtain ⟨pages, hfollow, hpaged⟩ : ∃ pages,
      Follow (fun cursor rows next => handler cursor = .ok ⟨rows, next⟩) none pages ∧
        Paged EventRow.position limit matching pages :=
    exists_follow hlimit hnd hdistinct hreply
  refine ⟨pages, hfollow, ?_, ?_, hpaged.short, hpaged.nonempty⟩
  · rw [hpaged.flatten]
    exact perm_sortOn _ _
  · rw [hpaged.flatten]
    have hsorted := pairwise_sortOn EventRow.position matching
    have hnd' := (perm_sortOn EventRow.position matching).nodup_iff.mpr hnd
    refine (hsorted.and hnd').imp_of_mem fun {a b} ha hb h => ?_
    refine lt_of_le_of_ne h.1 fun heq => h.2 ?_
    exact hdistinct (mem_sortOn.mp ha) (mem_sortOn.mp hb) heq

/-! ### Both endpoints -/

theorem mapM_parseCursor (hrow : a ∈ events.rows) :
    (some (cursorText a.ledger a.id)).mapM parseCursor = .ok (some (a.ledger, a.id)) := by
  show parseCursor (cursorText a.ledger a.id) >>= _ = _
  rw [parseCursor_cursorText (events.ledgers a hrow)]
  rfl

theorem sep41_partitions (events : EventTable) (q : Sep41Query) {eventType : Option String}
    (hcheck : q.check = .ok eventType) :
    Partitions (fun cursor => getSep41Events events { q with cursor }) (clampLimit q.limit)
      (events.rows.filter (q.selects eventType)) := by
  have hcheck' (cursor : Option String) :
      Sep41Query.check { q with cursor } = .ok eventType := hcheck
  apply partitions_of_replies (clampLimit_pos q.limit) fun row hrow => List.mem_of_mem_filter hrow
  · exact (List.Nodup.of_map _ events.ids).filter _
  · rw [getSep41Events, hcheck']
    show Except.ok (respond _ (events.rows.filter fun row => _ && true)) = _
    simp only [Bool.and_true]
    rfl
  · intro row hrow
    rw [getSep41Events, hcheck']
    simp only [mapM_parseCursor (List.mem_of_mem_filter hrow)]
    show Except.ok (respond _ _) = Except.ok (respond _ _)
    rw [behind, List.filter_filter]
    congr 3
    funext other
    rw [Bool.and_comm]
    rfl

end

section
variable {events : EventTable} {addresses : List AddressRow} {ea : AddressRow} {e : EventRow}

/-- The copies of the ledgers are what they are copies of. -/
def Consistent (events : EventTable) (addresses : List AddressRow) : Prop :=
  ∀ ea ∈ addresses, ∀ e ∈ events.rows, e.id = ea.eventId → ea.ledger = e.ledger

theorem mem_joined : (ea, e) ∈ joined events addresses ↔
    ea ∈ addresses ∧ e ∈ events.rows ∧ e.id = ea.eventId := by
  rw [joined, List.mem_flatMap]
  constructor
  · rintro ⟨ea', hea, he⟩
    obtain ⟨e', he', heq⟩ := List.mem_map.mp he
    obtain ⟨rfl, rfl⟩ := Prod.mk.inj heq
    obtain ⟨hrow, hid⟩ := List.mem_filter.mp he'
    exact ⟨hea, hrow, beq_iff_eq.mp hid⟩
  · rintro ⟨hea, hrow, hid⟩
    refine ⟨ea, hea, List.mem_map.mpr ⟨e, List.mem_filter.mpr ⟨hrow, beq_iff_eq.mpr hid⟩, rfl⟩⟩

/-- Under a condition on the index, each event is selected once. -/
theorem distinct_perm (hconsistent : Consistent events addresses) (keep : AddressRow → Bool) :
    ((firstBy indexKey ((joined events addresses).filter fun p => keep p.1)).map Prod.snd).Perm
      (events.rows.filter fun e => addresses.any fun ea => ea.eventId == e.id && keep ea) := by
  have hfrom : ∀ p ∈ firstBy indexKey ((joined events addresses).filter fun p => keep p.1),
      p.1 ∈ addresses ∧ p.2 ∈ events.rows ∧ p.2.id = p.1.eventId ∧ keep p.1 = true := by
    intro p hp
    obtain ⟨hmem, hkeep⟩ := List.mem_filter.mp (mem_of_mem_firstBy hp)
    obtain ⟨hea, hrow, hid⟩ := mem_joined.mp hmem
    exact ⟨hea, hrow, hid, hkeep⟩
  refine (List.perm_ext_iff_of_nodup ?_ ((List.Nodup.of_map _ events.ids).filter _)).mpr ?_
  · have hnodup := nodup_firstBy indexKey ((joined events addresses).filter fun p => keep p.1)
    -- the key can be read off the event
    have hmap : (firstBy indexKey ((joined events addresses).filter fun p => keep p.1)).map indexKey =
        ((firstBy indexKey ((joined events addresses).filter fun p => keep p.1)).map Prod.snd).map
          fun e => (e.ledger, e.id) := by
      rw [List.map_map]
      refine List.map_congr_left fun p hp => ?_
      obtain ⟨hea, hrow, hid, -⟩ := hfrom p hp
      rw [indexKey, Function.comp_apply, hconsistent p.1 hea p.2 hrow hid, hid]
    rw [hmap] at hnodup
    exact List.Nodup.of_map _ hnodup
  · intro e
    rw [List.mem_map, List.mem_filter, List.any_eq_true]
    constructor
    · rintro ⟨p, hp, rfl⟩
      obtain ⟨hea, hrow, hid, hkeep⟩ := hfrom p hp
      exact ⟨hrow, p.1, hea, by rw [hid, hkeep, beq_self_eq_true]; rfl⟩
    · rintro ⟨hrow, ea, hea, hmatch⟩
      rw [Bool.and_eq_true, beq_iff_eq] at hmatch
      have hmem : (ea, e) ∈ (joined events addresses).filter fun p => keep p.1 :=
        List.mem_filter.mpr ⟨mem_joined.mpr ⟨hea, hrow, hmatch.1.symm⟩, hmatch.2⟩
      obtain ⟨p, hp, hkey⟩ :
          ∃ p ∈ firstBy indexKey ((joined events addresses).filter fun p => keep p.1),
            indexKey p = indexKey (ea, e) := exists_firstBy hmem
      obtain ⟨-, hrow', hid, -⟩ := hfrom p hp
      refine ⟨p, hp, events.eq_of_id hrow' hrow ?_⟩
      rw [hid, (Prod.mk.inj hkey).2, hmatch.1]

/-- The events whose own ledger and whose addresses match. -/
def AccountEventsQuery.matching (q : AccountEventsQuery) (address : String) (pos : Option ℤ)
    (events : EventTable) (addresses : List AddressRow) : List EventRow :=
  events.rows.filter fun e =>
    addresses.any fun ea => ea.eventId == e.id && q.selects address pos ea e.ledger

theorem any_congr_of_consistent (hconsistent : Consistent events addresses) (he : e ∈ events.rows)
    (keep : AddressRow → ℤ → Bool) :
    (addresses.any fun ea => ea.eventId == e.id && keep ea ea.ledger) =
      addresses.any fun ea => ea.eventId == e.id && keep ea e.ledger := by
  rw [Bool.eq_iff_iff, List.any_eq_true, List.any_eq_true]
  refine exists_congr fun ea => and_congr_right fun hea => ?_
  rw [Bool.and_eq_true, Bool.and_eq_true, beq_iff_eq]
  refine and_congr_right fun hid => ?_
  rw [hconsistent ea hea e he hid.symm]

/-- A request is answered from the matching events behind its cursor. -/
theorem respond_account (hconsistent : Consistent events addresses) (q : AccountEventsQuery)
    (address : String) (pos : Option ℤ) (limit : ℕ) (cursor : Option (ℤ × Uuid)) :
    respond limit ((firstBy indexKey ((joined events addresses).filter fun p =>
        q.selects address pos p.1 p.1.ledger && beforeCursor cursor p.1.ledger p.1.eventId)).map
          Prod.snd) =
      respond limit ((q.matching address pos events addresses).filter fun e =>
        beforeCursor cursor e.ledger e.id) := by
  have hperm := distinct_perm hconsistent fun ea =>
    q.selects address pos ea ea.ledger && beforeCursor cursor ea.ledger ea.eventId
  have hsame : (events.rows.filter fun e => addresses.any fun ea => ea.eventId == e.id &&
      (q.selects address pos ea ea.ledger && beforeCursor cursor ea.ledger ea.eventId)) =
      (q.matching address pos events addresses).filter fun e =>
        beforeCursor cursor e.ledger e.id := by
    rw [AccountEventsQuery.matching, List.filter_filter]
    refine List.filter_congr fun e he => ?_
    rw [any_congr_of_consistent hconsistent he fun ea ledger =>
      q.selects address pos ea ledger && beforeCursor cursor ledger ea.eventId]
    rw [Bool.eq_iff_iff, Bool.and_eq_true, List.any_eq_true, List.any_eq_true]
    constructor
    · rintro ⟨ea, hea, h⟩
      simp only [Bool.and_eq_true, beq_iff_eq] at h
      exact ⟨h.1 ▸ h.2.2, ea, hea, by simp only [h.1, h.2.1, beq_self_eq_true, Bool.and_self]⟩
    · rintro ⟨hcursor, ea, hea, h⟩
      simp only [Bool.and_eq_true, beq_iff_eq] at h
      exact ⟨ea, hea, by simp only [h.1, h.2, hcursor, beq_self_eq_true, Bool.and_self]⟩
  rw [hsame] at hperm
  refine respond_perm ?_ hperm
  refine events.distinct fun row hrow => ?_
  exact List.mem_of_mem_filter (List.mem_of_mem_filter (hperm.mem_iff.mp hrow))

theorem account_partitions (hconsistent : Consistent events addresses) (address : String)
    (q : AccountEventsQuery) {pos : Option ℤ} (hcheck : q.check address = .ok pos) :
    Partitions (fun cursor => getAccountEvents events addresses address { q with cursor })
      (clampLimit q.limit) (q.matching address pos events addresses) := by
  have hcheck' (cursor : Option String) :
      AccountEventsQuery.check { q with cursor } address = .ok pos := hcheck
  apply partitions_of_replies (clampLimit_pos q.limit) fun row hrow => List.mem_of_mem_filter hrow
  · exact (List.Nodup.of_map _ events.ids).filter _
  · rw [getAccountEvents, hcheck']
    have hreply := respond_account hconsistent q address pos (clampLimit q.limit) none
    simp only [beforeCursor, Option.all_none, List.filter_true] at hreply
    exact congrArg Except.ok hreply
  · intro row hrow
    rw [getAccountEvents, hcheck']
    simp only [mapM_parseCursor (List.mem_of_mem_filter hrow)]
    exact congrArg Except.ok (respond_account hconsistent q address pos (clampLimit q.limit)
      (some (row.ledger, row.id)))

end

/-- Both endpoints return each matching event once, the second where the index has the events' own
    ledgers. -/
theorem keysetPages_partition (events : EventTable) (addresses : List AddressRow) (q : Sep41Query)
    (address : String) (a : AccountEventsQuery) :
    (match q.check with
      | .error e => ∀ cursor, getSep41Events events { q with cursor } = .error e
      | .ok eventType =>
        Partitions (fun cursor => getSep41Events events { q with cursor }) (clampLimit q.limit)
          (events.rows.filter (q.selects eventType))) ∧
    (Consistent events addresses →
      match a.check address with
      | .error e =>
        ∀ cursor, getAccountEvents events addresses address { a with cursor } = .error e
      | .ok pos =>
        Partitions (fun cursor => getAccountEvents events addresses address { a with cursor })
          (clampLimit a.limit) (a.matching address pos events addresses)) := by
  constructor
  · cases hcheck : q.check with
    | error e =>
      intro cursor
      have hcheck' : Sep41Query.check { q with cursor } = .error e := hcheck
      rw [getSep41Events, hcheck']
      rfl
    | ok eventType => exact sep41_partitions events q hcheck
  · intro hconsistent
    cases hcheck : a.check address with
    | error e =>
      intro cursor
      have hcheck' : AccountEventsQuery.check { a with cursor } address = .error e := hcheck
      rw [getAccountEvents, hcheck']
      rfl
    | ok pos => exact account_partitions hconsistent address a hcheck

def plainEvent (id : Uuid) (ledger : ℤ) : EventRow where
  id := id
  contractId := ""
  eventType := "contract"
  txHash := ""
  ledger := ledger
  timestamp := 0
  eventData := .null
  sep41EventType := none
  sep41From := none
  sep41To := none
  sep41Amount := none

/-- Two events, at ledgers 10 and 5. -/
def twoEvents : EventTable where
  rows := [plainEvent 2 10, plainEvent 1 5]
  ids := by decide
  ledgers := by decide

def someAddress : String := "GAAAAAAAAAAAAAAAAAAAAAAAAAAAAAAAAAAAAAAAAAAAAAAAAAAAAAAA"

def onePerPage : AccountEventsQuery := ⟨none, none, none, none, some 1⟩

/-- The index of both, with a copy of the second one's ledger. -/
def indexAt (copy : ℤ) : List AddressRow := [⟨2, someAddress, 1, 10⟩, ⟨1, someAddress, 1, copy⟩]

theorem keysetPages_partition_twoEvents :
    Partitions (fun cursor =>
        getAccountEvents twoEvents (indexAt 5) someAddress { onePerPage with cursor }) 1
      [plainEvent 2 10, plainEvent 1 5] := by
  have hconsistent : Consistent twoEvents (indexAt 5) := by
    unfold Consistent
    decide
  exact (keysetPages_partition twoEvents (indexAt 5) ⟨none, none, none, none, none, none, none⟩
    someAddress onePerPage).2 hconsistent

/-- A copy at ledger 20 is not behind the cursor of the first page, which is at ledger 10. -/
theorem not_keysetPages_partition :
    ¬Partitions (fun cursor =>
        getAccountEvents twoEvents (indexAt 20) someAddress { onePerPage with cursor }) 1
      [plainEvent 2 10, plainEvent 1 5] := by
  have hpage : page EventRow.position 2 [plainEvent 2 10, plainEvent 1 5] =
      [plainEvent 2 10, plainEvent 1 5] := by
    rw [page, sortOn, List.Pairwise.insertionSort_eq (by decide)]
    rfl
  have hfirst : getAccountEvents twoEvents (indexAt 20) someAddress
      { onePerPage with cursor := none } = .ok ⟨[plainEvent 2 10], some (cursorText 10 2)⟩ := by
    show Except.ok (respond 1 [plainEvent 2 10, plainEvent 1 5]) = _
    rw [respond, hpage]
    rfl
  -- the index has the rest at ledger 20, which is not behind it
  have hsecond : getAccountEvents twoEvents (indexAt 20) someAddress
      { onePerPage with cursor := some (cursorText 10 2) } = .ok ⟨[], none⟩ := by
    have hmem : plainEvent 2 10 ∈ twoEvents.rows := List.mem_cons_self
    have hparsed := mapM_parseCursor hmem
    have hcursor : (some (cursorText 10 2)).mapM parseCursor = .ok (some (10, 2)) := hparsed
    rw [getAccountEvents]
    simp only [hcursor]
    show Except.ok (respond 1 []) = _
    rfl
  rintro ⟨pages, hfollow, hperm, -⟩
  -- the pages are these two, and they lack a copy
  have hpages : pages = [[plainEvent 2 10], []] := by
    cases hfollow with
    | last h => cases hfirst.symm.trans h
    | next h hrest =>
      cases hfirst.symm.trans h
      cases hrest with
      | last h =>
        cases hsecond.symm.trans h
        rfl
      | next h _ => cases hsecond.symm.trans h
  rw [hpages] at hperm
  exact absurd hperm.length_eq (by decide)

end SorobanPulse.Tokens.Pages
