import SorobanPulse.Erasure.Tables
import SorobanPulse.Jsonb
import SorobanPulse.Lib.Keyset

/-! The backfill of the typed SEP-41 columns beside the live insert.

        live insert      topic, value ──▶ decode_event_data ──▶ sep41_*
        backfill         sep41_event_type IS NULL, topic->>0 IN ('transfer', …), by (ledger, id)
                           page ──▶ decode_event_data ──▶ sep41_*     cursor: last of a full page

    The query reads topic 0 as text. The decoder also reads it as an object, which as a text is the
    JSON of the object and so no name of the query. -/

namespace SorobanPulse.Tokens.Sep41
open Tokens Lib Keyset

/-! ### Tables -/

structure Sep41Columns where
  eventType : Option String := none
  fromAddr : Option String := none
  toAddr : Option String := none
  amount : Option ℤ := none
  deriving DecidableEq, Repr

/-- The columns of `events` that the backfill reads and writes. -/
structure EventRow where
  id : ℕ
  ledger : ℤ
  eventData : Value
  sep41 : Sep41Columns := {}

/-- `id` is the primary key. -/
structure EventDb where
  events : List EventRow
  unique : (events.map (·.id)).Nodup

/-- Where a scan stands. -/
abbrev Cursor := ℤ ×ₗ ℕ

def EventRow.key (e : EventRow) : Cursor := toLex (e.ledger, e.id)

def EventDb.mapRows (db : EventDb) (f : EventRow → EventRow) (hid : ∀ e, (f e).id = e.id) :
    EventDb where
  events := db.events.map f
  unique := by
    have hids : (EventRow.id ∘ f) = EventRow.id := funext hid
    rw [List.map_map, hids]
    exact db.unique

/-! ### Columns -/

def decodeEventData (eventData : Value) : Option Sep41Event := Erasure.sep41Event eventData

/-- `::numeric` of an i128 in decimal. -/
def castNumeric (s : String) : Option ℤ := parseI128 s

def columns (ev : Sep41Event) : Option Sep41Columns :=
  (castNumeric ev.amount).map fun amount =>
    { eventType := some ev.eventType.asStr, fromAddr := ev.fromAddr, toAddr := ev.toAddr
      amount := some amount }

/-- What `store_event_in_tx` stores with an event. -/
def insertColumns (eventData : Value) : Option Sep41Columns :=
  match decodeEventData eventData with
  | none => some {}
  | some ev => columns ev

/-! ### The backfill -/

/-- `v -> 0`; a scalar is kept as an array of one. -/
def elementZero : Value → Option Value
  | .array items => items.head?
  | .object _ => none
  | v => some v

/-- `event_data->'topic'->>0 IN (…)`, of words. The text of a value that is no string is its JSON. -/
def firstTopicIn (names : List String) (eventData : Value) : Bool :=
  match (member eventData "topic").bind elementZero with
  | some (.string s) => names.contains s
  | _ => false

def EventRow.wanted (after : Option Cursor) (e : EventRow) : Bool :=
  e.sep41.eventType.isNone && firstTopicIn ["transfer", "mint", "burn", "clawback"] e.eventData &&
    after.all fun c => decide (c < e.key)

def EventDb.pending (db : EventDb) (after : Option Cursor) : List EventRow :=
  db.events.filter (·.wanted after)

/-- `ORDER BY ledger, id LIMIT $3` -/
def EventDb.select (db : EventDb) (after : Option Cursor) (batch : ℕ) : List EventRow :=
  page EventRow.key batch (db.pending after)

def EventDb.update (db : EventDb) (id : ℕ) (sep41 : Sep41Columns) : EventDb :=
  db.mapRows (fun e => if e.id = id then { e with sep41 } else e) fun e => by split <;> rfl

def processRow (state : EventDb × ℕ) (row : EventRow) : Option (EventDb × ℕ) :=
  match decodeEventData row.eventData with
  | none => some state
  | some ev =>
    (columns ev).map fun sep41 =>
      (state.1.update row.id sep41, state.2 + state.1.events.countP (·.id = row.id))

/-- `backfill`: the table, how many rows were updated and the next cursor; `none` if a cast fails. -/
def backfill (db : EventDb) (after : Option Cursor) (batch : ℕ) :
    Option (EventDb × ℕ × Option Cursor) :=
  let rows := db.select after batch
  (rows.foldlM processRow (db, 0)).map fun (db', updated) =>
    (db', updated, if rows.length = batch then rows.getLast?.map EventRow.key else none)

/-- The backfill called with the cursor that it returned, until that is none, and the ids of the rows
    visited. -/
def scan (batch : ℕ) : ℕ → Option Cursor → EventDb → Option (EventDb × List ℕ)
  | 0, _, _ => none
  | fuel + 1, after, db =>
    (backfill db after batch).bind fun (db', _, next) =>
      match next with
      | none => some (db', (db.select after batch).map (·.id))
      | some c => (scan batch fuel (some c) db').map fun (db'', ids) =>
        (db'', (db.select after batch).map (·.id) ++ ids)

/-- The scan ends, visits rows without a type at most once, and leaves on every row that decodes the
    columns of the live insert. -/
def EventDb.Completes (db : EventDb) (batch : ℕ) : Prop :=
  ∃ fuel db' ids, scan batch fuel none db = some (db', ids) ∧ ids.Nodup ∧
    (∀ id ∈ ids, ∃ e ∈ db.events, e.id = id ∧ e.sep41.eventType = none) ∧
    ∀ e ∈ db'.events, (decodeEventData e.eventData).isSome → insertColumns e.eventData = some e.sep41

/-- Topic 0 is a string. -/
def StringTopic (eventData : Value) : Prop :=
  ∃ topics s, member eventData "topic" = some (.array topics) ∧ topics.head? = some (.string s)

/-! ### Amounts are numbers -/

theorem parseI128_toString {n : ℤ} (hlo : -2 ^ 127 ≤ n) (hhi : n < 2 ^ 127) :
    parseI128 (toString n) = some n := by
  cases n with
  | ofNat m =>
    have hlist : (toString (Int.ofNat m)).toList = decimal 0 m := by
      rw [decimal_zero]
      exact toList_toString_nat m
    rw [Int.ofNat_eq_natCast] at hhi
    rw [parseI128, hlist, parseSigned_decimal (by omega)]
    rfl
  | negSucc m =>
    have hlist : (toString (Int.negSucc m)).toList = '-' :: decimal 0 (m + 1) := by
      rw [decimal_zero, toList_toString_negSucc]
    rw [parseI128, hlist, parseSigned, digits?_decimal, Option.filter_some,
      if_pos (decide_eq_true (by omega))]
    rfl

theorem isSome_parse_hiLo {map : List (String × Value)} {s : String} (h : hiLo map = some s) :
    (parseI128 s).isSome := by
  obtain ⟨hiText, _, h⟩ := Option.bind_eq_some_iff.mp h
  obtain ⟨loText, _, h⟩ := Option.bind_eq_some_iff.mp h
  obtain ⟨hi, _, h⟩ := Option.bind_eq_some_iff.mp h
  obtain ⟨lo, _, h⟩ := Option.bind_eq_some_iff.mp h
  cases h
  rw [parseI128_toString (BitVec.le_toInt _) BitVec.toInt_lt]
  rfl

mutual
/-- An amount is the text of an i128. -/
theorem isSome_parse_amountStr : ∀ {v : Value} {s : String}, amountStr v = some s →
    (parseI128 s).isSome
  | .string t, s, h => by
    rw [amountStr] at h
    split at h
    · next hparse =>
      cases h
      exact hparse
    · cases h
  | .number (.int n), s, h => by
    rw [amountStr] at h
    split at h
    · next hrange =>
      cases h
      rw [I64_MIN, U64_MAX] at hrange
      rw [parseI128_toString (by omega) (by omega)]
      rfl
    · cases h
  | .object map, s, h => by
    rw [amountStr] at h
    split at h
    · next amount hamount =>
      rcases Option.or_eq_some_iff.mp hamount with hamount | ⟨-, hamount⟩
      · exact isSome_parse_memberAmount (hamount.trans (congrArg some h))
      · exact isSome_parse_memberAmount (hamount.trans (congrArg some h))
    · exact isSome_parse_hiLo h
  | .null, s, h => by cases h
  | .bool b, s, h => by cases h
  | .number (.float bits), s, h => by cases h
  | .array items, s, h => by cases h

theorem isSome_parse_memberAmount : ∀ {key : String} {map : List (String × Value)} {s : String},
    memberAmount key map = some (some s) → (parseI128 s).isSome
  | key, [], s, h => by cases h
  | key, (k, v) :: rest, s, h => by
    rw [memberAmount] at h
    split at h
    · exact isSome_parse_amountStr (Option.some.inj h)
    · exact isSome_parse_memberAmount h
end

section
variable {db db' : EventDb} {e row : EventRow} {v : Value} {ev : Sep41Event}

theorem member_of_topicsOf {topics : List Value} (h : Erasure.topicsOf v = some topics) :
    member v "topic" = some (.array topics) := by
  cases v with
  | object map =>
    rw [Erasure.topicsOf] at h
    split at h
    · next heq =>
      cases h
      exact heq
    · cases h
  | _ => cases h

theorem decode_of_decodeEventData (h : decodeEventData v = some ev) :
    ∃ topics, member v "topic" = some (.array topics) ∧
      decode topics (Erasure.valueOf v) = some ev := by
  obtain ⟨topics, htopics, hdecode⟩ := Option.bind_eq_some_iff.mp h
  exact ⟨topics, member_of_topicsOf htopics, hdecode⟩

/-- The cast of a decoded amount does not fail. -/
theorem isSome_columns (h : decodeEventData v = some ev) : (columns ev).isSome := by
  obtain ⟨topics, -, hdecode⟩ := decode_of_decodeEventData h
  rw [columns, Option.isSome_map]
  exact isSome_parse_amountStr (decode_eq_some hdecode).2.1

/-- The columns of the live insert are those of a stored event, its amount cast. -/
theorem insertColumns_eq (enrichment : Erasure.Enrichment) (row : Ingest.EventRow) :
    ∃ amount, insertColumns row.eventData = some
        { eventType := (Erasure.payloadCopies enrichment row).sep41EventType
          fromAddr := (Erasure.payloadCopies enrichment row).sep41From
          toAddr := (Erasure.payloadCopies enrichment row).sep41To
          amount } ∧
      amount = (Erasure.payloadCopies enrichment row).sep41Amount.bind castNumeric := by
  rw [Erasure.payloadCopies, insertColumns, decodeEventData]
  cases hev : Erasure.sep41Event row.eventData with
  | none => exact ⟨none, rfl, rfl⟩
  | some ev =>
    obtain ⟨sep41, hsep41⟩ := Option.isSome_iff_exists.mp (isSome_columns hev)
    obtain ⟨amount, hamount, rfl⟩ := Option.map_eq_some_iff.mp hsep41
    exact ⟨some amount, hsep41, hamount.symm⟩

/-! ### One call -/

/-- A row with the columns of the live insert, if its event decodes. -/
def fill (e : EventRow) : EventRow :=
  match (decodeEventData e.eventData).bind columns with
  | none => e
  | some sep41 => { e with sep41 }

@[simp] theorem fill_id (e : EventRow) : (fill e).id = e.id := by
  rw [fill]
  split <;> rfl

@[simp] theorem fill_eventData (e : EventRow) : (fill e).eventData = e.eventData := by
  rw [fill]
  split <;> rfl

@[simp] theorem fill_key (e : EventRow) : (fill e).key = e.key := by
  rw [fill]
  split <;> rfl

theorem fill_fill (e : EventRow) : fill (fill e) = fill e := by
  rw [fill, fill_eventData]
  cases h : (decodeEventData e.eventData).bind columns with
  | none => rfl
  | some sep41 => rw [fill, h]

/-- A row, filled if its id is one of these. -/
def fillIn (ids : List ℕ) (e : EventRow) : EventRow := if e.id ∈ ids then fill e else e

@[simp] theorem fillIn_id (ids : List ℕ) (e : EventRow) : (fillIn ids e).id = e.id := by
  rw [fillIn]
  split
  · exact fill_id e
  · rfl

@[simp] theorem fillIn_eventData (ids : List ℕ) (e : EventRow) :
    (fillIn ids e).eventData = e.eventData := by
  rw [fillIn]
  split
  · exact fill_eventData e
  · rfl

theorem fillIn_fillIn (ids ids' : List ℕ) (e : EventRow) :
    fillIn ids' (fillIn ids e) = fillIn (ids ++ ids') e := by
  rw [fillIn, fillIn_id, fillIn, fillIn]
  by_cases h : e.id ∈ ids <;> by_cases h' : e.id ∈ ids' <;> simp [h, h', fill_fill]

def EventDb.fillRows (db : EventDb) (ids : List ℕ) : EventDb :=
  db.mapRows (fillIn ids) (fillIn_id ids)

theorem fillRows_events (db : EventDb) (ids : List ℕ) :
    (db.fillRows ids).events = db.events.map (fillIn ids) := rfl

theorem EventDb.ext (h : db.events = db'.events) : db = db' := by
  obtain ⟨events, unique⟩ := db
  cases h
  rfl

theorem EventDb.eq_of_id (hrow : row ∈ db.events) (he : e ∈ db.events) (h : e.id = row.id) :
    e = row :=
  List.inj_on_of_nodup_map db.unique he hrow h

theorem fillRows_nil (db : EventDb) : db.fillRows [] = db :=
  EventDb.ext ((List.map_congr_left fun _ _ => if_neg List.not_mem_nil).trans (List.map_id' _))

theorem fillRows_fillRows (db : EventDb) (ids ids' : List ℕ) :
    (db.fillRows ids).fillRows ids' = db.fillRows (ids ++ ids') := by
  refine EventDb.ext ?_
  rw [fillRows_events, fillRows_events, fillRows_events, List.map_map]
  exact List.map_congr_left fun e _ => fillIn_fillIn ids ids' e

theorem processRow_spec (hsame : ∀ e ∈ db.events, e.id = row.id → e.eventData = row.eventData)
    (n : ℕ) : ∃ n', processRow (db, n) row = some (db.fillRows [row.id], n') := by
  rw [processRow]
  cases hev : decodeEventData row.eventData with
  | none =>
    refine ⟨n, congrArg some (Prod.ext (EventDb.ext ?_) rfl)⟩
    refine (List.map_id' db.events).symm.trans (List.map_congr_left fun e he => ?_)
    by_cases hid : e.id = row.id
    · rw [fillIn, if_pos (List.mem_singleton.mpr hid), fill, hsame e he hid, hev]
      rfl
    · rw [fillIn, if_neg (mt List.mem_singleton.mp hid)]
  | some ev =>
    obtain ⟨sep41, hsep41⟩ := Option.isSome_iff_exists.mp (isSome_columns hev)
    refine ⟨n + db.events.countP (·.id = row.id), ?_⟩
    dsimp only
    rw [hsep41, Option.map_some]
    refine congrArg some (Prod.ext (EventDb.ext (List.map_congr_left fun e he => ?_)) rfl)
    by_cases hid : e.id = row.id
    · rw [if_pos hid, fillIn, if_pos (List.mem_singleton.mpr hid), fill, hsame e he hid, hev,
        Option.bind_some, hsep41]
    · rw [if_neg hid, fillIn, if_neg (mt List.mem_singleton.mp hid)]

/-- The rows are filled one by one, as they were read. -/
theorem foldlM_processRow : ∀ {rows : List EventRow} {db : EventDb} (n : ℕ),
    (∀ row ∈ rows, ∀ e ∈ db.events, e.id = row.id → e.eventData = row.eventData) →
      ∃ n', rows.foldlM processRow (db, n) = some (db.fillRows (rows.map (·.id)), n')
  | [], db, n, hsame => by
    rw [List.map_nil, fillRows_nil]
    exact ⟨n, rfl⟩
  | row :: rows, db, n, hsame => by
    obtain ⟨n₁, hstep⟩ := processRow_spec (hsame row List.mem_cons_self) n
    have hsame' : ∀ row' ∈ rows, ∀ e ∈ (db.fillRows [row.id]).events, e.id = row'.id →
        e.eventData = row'.eventData := by
      intro row' hrow' e he hid
      obtain ⟨e₀, he₀, rfl⟩ := List.mem_map.mp he
      rw [fillIn_id] at hid
      rw [fillIn_eventData]
      exact hsame row' (List.mem_cons_of_mem _ hrow') e₀ he₀ hid
    obtain ⟨n', hrest⟩ := foldlM_processRow n₁ hsame'
    refine ⟨n', ?_⟩
    rw [List.foldlM_cons, hstep, Option.bind_eq_bind, Option.bind_some, hrest, fillRows_fillRows]
    rfl

theorem mem_select {after : Option Cursor} {batch : ℕ} (h : row ∈ db.select after batch) :
    row ∈ db.pending after := mem_of_mem_page h

theorem backfill_spec (db : EventDb) (after : Option Cursor) (batch : ℕ) : ∃ updated,
    backfill db after batch = some (db.fillRows ((db.select after batch).map (·.id)), updated,
      if (db.select after batch).length = batch then (db.select after batch).getLast?.map EventRow.key
      else none) := by
  have hsame : ∀ row ∈ db.select after batch, ∀ e ∈ db.events, e.id = row.id →
      e.eventData = row.eventData := by
    intro row hrow e he hid
    rw [EventDb.eq_of_id (List.mem_of_mem_filter (mem_select hrow)) he hid]
  obtain ⟨updated, hfold⟩ := foldlM_processRow 0 hsame
  refine ⟨updated, ?_⟩
  rw [backfill]
  dsimp only
  rw [hfold, Option.map_some]

/-! ### The scan -/

variable {after : Option Cursor} {batch : ℕ} {c : EventRow} {ids : List ℕ}

theorem EventDb.nodup_pending (db : EventDb) (after : Option Cursor) : (db.pending after).Nodup :=
  (List.Nodup.of_map _ db.unique).filter _

theorem EventDb.distinct_pending (db : EventDb) (after : Option Cursor) :
    Distinct EventRow.key (db.pending after) := by
  intro a ha b hb hkey
  have hid : a.id = b.id := congrArg (fun k : Cursor => (ofLex k).2) hkey
  exact EventDb.eq_of_id (List.mem_of_mem_filter hb) (List.mem_of_mem_filter ha) hid

theorem wanted_some_iff {e : EventRow} (hc : ∀ k ∈ after, k < c.key) :
    e.wanted (some c.key) = true ↔ e.wanted after = true ∧ c.key < e.key := by
  rw [EventRow.wanted, EventRow.wanted, Bool.and_eq_true, Bool.and_eq_true (_ && _), and_assoc]
  refine and_congr_right fun _ => ?_
  cases after with
  | none => simp
  | some k =>
    have hk : k < c.key := hc k rfl
    simp only [Option.all_some, decide_eq_true_eq]
    exact ⟨fun h => ⟨hk.trans h, h⟩, fun h => h.2⟩

theorem lt_key_of_pending (h : c ∈ db.pending after) : ∀ k ∈ after, k < c.key := by
  intro k hk
  have hwanted := List.of_mem_filter h
  rw [EventRow.wanted, Bool.and_eq_true] at hwanted
  rw [Option.mem_def.mp hk] at hwanted
  simpa using hwanted.2

theorem lt_of_wanted {k : Cursor} (h : e.wanted (some k) = true) : k < e.key := by
  rw [EventRow.wanted, Bool.and_eq_true] at h
  simpa using h.2

@[simp] theorem fillIn_key (ids : List ℕ) (e : EventRow) : (fillIn ids e).key = e.key := by
  rw [fillIn]
  split
  · exact fill_key e
  · rfl

/-- After a page, the rows behind its last one are still to come, as they were. -/
theorem pending_fillRows (hlast : (db.select after batch).getLast? = some c) :
    (db.fillRows ((db.select after batch).map (·.id))).pending (some c.key) =
      (db.pending after).filter fun e => c.key < e.key := by
  have hc : c ∈ db.pending after := mem_select (List.mem_of_getLast? hlast)
  have hrow : ∀ e ∈ db.events, e.id ∈ (db.select after batch).map (·.id) → ¬c.key < e.key := by
    intro e he hmem
    obtain ⟨row, hrow, hid⟩ := List.mem_map.mp hmem
    rw [← EventDb.eq_of_id he (List.mem_of_mem_filter (mem_select hrow)) hid]
    exact not_lt.mpr (le_of_getLast?_page hlast row hrow)
  rw [EventDb.pending, fillRows_events, List.filter_map, EventDb.pending, List.filter_filter]
  have hfilter : ∀ e ∈ db.events,
      ((EventRow.wanted (some c.key) ∘ fillIn ((db.select after batch).map (·.id))) e) =
        (decide (c.key < e.key) && e.wanted after) := by
    intro e he
    rw [Function.comp_apply, Bool.eq_iff_iff, Bool.and_eq_true, decide_eq_true_eq, and_comm,
      ← wanted_some_iff (lt_key_of_pending hc)]
    by_cases hmem : e.id ∈ (db.select after batch).map (·.id)
    · have hle := hrow e he hmem
      refine ⟨fun h => absurd ?_ hle, fun h => absurd (lt_of_wanted h) hle⟩
      have hlt := lt_of_wanted h
      rwa [fillIn_key] at hlt
    · rw [fillIn, if_neg hmem]
  rw [List.filter_congr hfilter]
  refine (List.map_congr_left fun e he => ?_).trans (List.map_id' _)
  obtain ⟨he, hwanted⟩ := List.mem_filter.mp he
  rw [Bool.and_eq_true, decide_eq_true_eq] at hwanted
  rw [fillIn, if_neg fun hmem => hrow e he hmem hwanted.1]

/-- From any cursor on, the scan ends with the rows still to come filled, each visited once. -/
theorem scan_spec (hbatch : 0 < batch) : ∀ {n : ℕ} {db : EventDb} {after : Option Cursor},
    (db.pending after).length < n → ∃ ids, scan batch n after db = some (db.fillRows ids, ids) ∧
      ids.Perm ((db.pending after).map (·.id))
  | n + 1, db, after, hn => by
    obtain ⟨updated, hbackfill⟩ := backfill_spec db after batch
    rw [scan, hbackfill, Option.bind_some]
    dsimp only
    -- by the number of rows behind the cursor; a full batch may not be the last one
    by_cases hfull : (db.select after batch).length = batch
    · have hne : db.select after batch ≠ [] := List.ne_nil_of_length_pos (by omega)
      have hlast := List.getLast?_eq_some_getLast hne
      set c := (db.select after batch).getLast hne with hc
      have hcut := cut_page (db.nodup_pending after) (db.distinct_pending after) hlast
      have hcmem : c ∈ db.pending after := mem_select (List.mem_of_getLast? hlast)
      -- filling the batch leaves those behind its last row pending
      have hpending := pending_fillRows hlast
      have hlt : ((db.fillRows ((db.select after batch).map (·.id))).pending
          (some c.key)).length < n := by
        have := length_filter_lt (f := EventRow.key) hcmem
        rw [hpending]
        omega
      obtain ⟨ids, hscan, hids⟩ := scan_spec hbatch hlt
      rw [if_pos hfull, hlast, Option.map_some]
      dsimp only
      rw [hscan, Option.map_some, fillRows_fillRows]
      refine ⟨_, rfl, ?_⟩
      rw [hpending] at hids
      refine (hids.append_left _).trans ?_
      rw [← List.map_append]
      exact ((hcut.filter_perm.append_left _).trans hcut.perm).map _
    · -- a short batch holds all that is left
      rw [if_neg hfull]
      refine ⟨_, rfl, List.Perm.map _ ?_⟩
      have hlen : (db.select after batch).length = min batch (db.pending after).length := length_page
      rw [EventDb.select, page, List.take_of_length_le (by rw [length_sortOn]; omega)]
      exact perm_sortOn _ _

theorem scan_unique : ∀ {fuel fuel' : ℕ} {after : Option Cursor} {db : EventDb}
    {r r' : EventDb × List ℕ}, scan batch fuel after db = some r →
      scan batch fuel' after db = some r' → r = r'
  | fuel + 1, fuel' + 1, after, db, r, r', h, h' => by
    obtain ⟨updated, hbackfill⟩ := backfill_spec db after batch
    rw [scan, hbackfill, Option.bind_some] at h h'
    dsimp only at h h'
    split at h
    · next hnone =>
      rw [hnone] at h'
      exact Option.some.inj (h.symm.trans h')
    · next c hsome =>
      rw [hsome] at h'
      obtain ⟨q, hq, rfl⟩ := Option.map_eq_some_iff.mp h
      obtain ⟨q', hq', rfl⟩ := Option.map_eq_some_iff.mp h'
      rw [scan_unique hq hq']

/-! ### What is left undecoded -/

/-- The row holds what the live insert stores, or is selected by its first topic. -/
def EventRow.Readable (e : EventRow) : Prop :=
  insertColumns e.eventData = some e.sep41 ∨ e.sep41.eventType = none ∧ StringTopic e.eventData

theorem insertColumns_of_decodes (h : decodeEventData v = some ev) :
    insertColumns v = columns ev := by
  rw [insertColumns, h]

theorem insertColumns_fill (h : (decodeEventData e.eventData).isSome) :
    insertColumns e.eventData = some (fill e).sep41 := by
  obtain ⟨ev, hev⟩ := Option.isSome_iff_exists.mp h
  obtain ⟨sep41, hsep41⟩ := Option.isSome_iff_exists.mp (isSome_columns hev)
  rw [insertColumns_of_decodes hev, fill, hev, Option.bind_some, hsep41]

/-- The first topic of an event that decodes is in the query exactly when it is a string. -/
theorem firstTopicIn_iff (h : decodeEventData v = some ev) :
    firstTopicIn ["transfer", "mint", "burn", "clawback"] v = true ↔ StringTopic v := by
  obtain ⟨topics, htopic, hdecode⟩ := decode_of_decodeEventData h
  obtain ⟨hname, -, -⟩ := decode_eq_some hdecode
  rw [firstTopicIn, htopic, Option.bind_some, elementZero]
  constructor
  · intro hin
    split at hin
    · next s hs => exact ⟨topics, s, htopic, hs⟩
    · cases hin
  · rintro ⟨topics', s, htopic', hs⟩
    rw [htopic] at htopic'
    cases htopic'
    rw [addr, ← List.head?_eq_getElem?, hs, Option.bind_some, topicStr, Option.some.injEq] at hname
    rw [hs, hname]
    cases ev.eventType <;> decide

theorem mem_pending_none (he : e ∈ db.events) : e ∈ db.pending none ↔ e.sep41.eventType = none ∧
    firstTopicIn ["transfer", "mint", "burn", "clawback"] e.eventData = true := by
  rw [EventDb.pending, List.mem_filter, EventRow.wanted, Bool.and_eq_true, Bool.and_eq_true,
    Option.isNone_iff_eq_none]
  exact ⟨fun h => h.2.1, fun h => ⟨he, h, rfl⟩⟩

/-- What a scan from the start does. -/
theorem scan_from_start (db : EventDb) (hbatch : 0 < batch) :
    ∃ fuel ids, scan batch fuel none db = some (db.fillRows ids, ids) ∧ ids.Nodup ∧
      ∀ id, id ∈ ids ↔ ∃ e ∈ db.pending none, e.id = id := by
  obtain ⟨ids, hscan, hperm⟩ := scan_spec hbatch (Nat.lt_succ_self (db.pending none).length)
  refine ⟨_, ids, hscan, ?_, fun id => by rw [hperm.mem_iff, List.mem_map]⟩
  rw [hperm.nodup_iff]
  exact db.unique.sublist (List.filter_sublist.map _)

theorem exists_pending_iff (he : e ∈ db.events) :
    (∃ row ∈ db.pending none, row.id = e.id) ↔ e ∈ db.pending none := by
  refine ⟨?_, fun h => ⟨e, h, rfl⟩⟩
  rintro ⟨row, hrow, hid⟩
  rwa [← EventDb.eq_of_id he (List.mem_of_mem_filter hrow) hid]

theorem readable_of_completes (hbatch : 0 < batch) (h : db.Completes batch) (he : e ∈ db.events)
    (hev : (decodeEventData e.eventData).isSome) : e.Readable := by
  obtain ⟨fuel, ids, hscan, -, hids⟩ := scan_from_start db hbatch
  obtain ⟨fuel', db', ids', hscan', -, -, hcolumns⟩ := h
  cases scan_unique hscan' hscan
  have hfilled := hcolumns (fillIn ids e) (List.mem_map_of_mem he) (by rwa [fillIn_eventData])
  rw [fillIn_eventData] at hfilled
  by_cases hmem : e.id ∈ ids
  · obtain ⟨ev, hev⟩ := Option.isSome_iff_exists.mp hev
    have hpending := (exists_pending_iff he).mp ((hids e.id).mp hmem)
    obtain ⟨htype, htopic⟩ := (mem_pending_none he).mp hpending
    exact .inr ⟨htype, (firstTopicIn_iff hev).mp htopic⟩
  · rw [fillIn, if_neg hmem] at hfilled
    exact .inl hfilled

theorem completes_of_readable (hbatch : 0 < batch)
    (h : ∀ e ∈ db.events, (decodeEventData e.eventData).isSome → e.Readable) :
    db.Completes batch := by
  obtain ⟨fuel, ids, hscan, hnodup, hids⟩ := scan_from_start db hbatch
  refine ⟨fuel, db.fillRows ids, ids, hscan, hnodup, ?_, ?_⟩
  · intro id hid
    obtain ⟨e, he, rfl⟩ := (hids id).mp hid
    have hmem : e ∈ db.events := List.mem_of_mem_filter he
    exact ⟨e, hmem, rfl, ((mem_pending_none hmem).mp he).1⟩
  · intro e' he' hev
    obtain ⟨e, he, rfl⟩ := List.mem_map.mp he'
    rw [fillIn_eventData] at hev ⊢
    by_cases hmem : e.id ∈ ids
    · rw [fillIn, if_pos hmem]
      exact insertColumns_fill hev
    · rw [fillIn, if_neg hmem]
      rcases h e he hev with hstored | ⟨htype, htopic⟩
      · exact hstored
      · obtain ⟨ev, hev⟩ := Option.isSome_iff_exists.mp hev
        have hpending := (mem_pending_none he).mpr ⟨htype, (firstTopicIn_iff hev).mpr htopic⟩
        exact absurd ((hids e.id).mpr ⟨e, hpending, rfl⟩) hmem

/-- The backfill is complete and agrees with the live insert exactly when every event that decodes
    carries its columns already, or carries no type and names it in a string. -/
theorem completes_iff_readable (hbatch : 0 < batch) : db.Completes batch ↔
    ∀ e ∈ db.events, (decodeEventData e.eventData).isSome → e.Readable :=
  ⟨fun h _ he hev => readable_of_completes hbatch h he hev, completes_of_readable hbatch⟩

end

/-- A burn of 5, its first topic given as `first`. -/
def burnEvent (first : Value) : EventDb where
  events := [{ id := 1, ledger := 7, eventData := .object [
    ("topic", .array [first, .string (account 'B')]), ("value", .string "5")] }]
  unique := List.nodup_singleton 1

/-- Two burns with their symbols as strings, and an event that is none of a token. -/
def threeEvents : EventDb where
  events := [
    { id := 1, ledger := 7, eventData := .object [
      ("topic", .array [.string "burn", .string (account 'B')]), ("value", .string "5")] },
    { id := 2, ledger := 7, eventData := .object [
      ("topic", .array [.string "stop"]), ("value", .null)] },
    { id := 3, ledger := 9, eventData := .object [
      ("topic", .array [.string "burn", .string (account 'C')]), ("value", .string "6")] }]
  unique := by decide

/-- Batch by batch, of one row each. -/
theorem completes_threeEvents : threeEvents.Completes 1 := by
  refine (completes_iff_readable (Nat.lt_succ_self 0)).mpr fun e he hdecodes => ?_
  rcases List.mem_cons.mp he with rfl | he
  · exact .inr ⟨rfl, _, _, rfl, rfl⟩
  rcases List.mem_cons.mp he with rfl | he
  · exact absurd hdecodes (by decide)
  · cases List.mem_singleton.mp he
    exact .inr ⟨rfl, _, _, rfl, rfl⟩

/-- With the symbol in an object. -/
theorem not_completes_burnEvent :
    ¬(burnEvent (.object [("symbol", .string "burn")])).Completes 1 := by
  intro h
  have hev : ∀ e ∈ (burnEvent (.object [("symbol", .string "burn")])).events,
      (decodeEventData e.eventData).isSome ∧ insertColumns e.eventData ≠ some e.sep41 := by
    decide
  obtain ⟨hdecodes, hcolumns⟩ := hev _ List.mem_cons_self
  rcases readable_of_completes (Nat.lt_succ_self 0) h List.mem_cons_self hdecodes with
    hstored | ⟨-, topics, s, htopic, hs⟩
  · exact hcolumns hstored
  · cases htopic
    cases hs

end SorobanPulse.Tokens.Sep41
