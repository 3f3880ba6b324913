import SorobanPulse.Backfill.EventsFromLedger
import SorobanPulse.Lib.Decimal

/-! Order of the events inside a ledger, read from their ids.

    An id `{toid:019}-{k:010}` packs the position of an event into one integer and a counter:

        bit 63       32 31           12 11        0
            | ledger   | transaction   | operation |  -  k

    Parsing it gives the position back, and ids compare as bytes the way positions do:
    `parseEventId_rpcId_and_order`. -/

namespace SorobanPulse.Ingest
open Backfill Lib Xdr

/-- The position decoded from an event id; ordered field by field. -/
structure EventOrdinal where
  ledger : UInt32
  txIndex : Int32
  opIndex : Int32
  eventIndex : Int32
  deriving DecidableEq, Repr, Ord

/-- `str::split_once`. -/
def splitOnce (sep : Char) : List Char → Option (List Char × List Char)
  | [] => none
  | c :: cs =>
    if c = sep then some ([], cs) else (splitOnce sep cs).map fun (left, right) => (c :: left, right)

def parseEventId (id : String) : Option EventOrdinal := do
  let (toidStr, eventIndexStr) ← splitOnce '-' id.toList
  let toid ← parseUnsigned (2 ^ 64) toidStr
  let eventIndex ← parseSigned (2 ^ 31) eventIndexStr
  some
    { ledger := UInt32.ofNat (toid >>> 32)
      txIndex := Int32.ofNat ((toid >>> 12) &&& 0xFFFFF)
      opIndex := Int32.ofNat (toid &&& 0xFFF)
      eventIndex := Int32.ofInt eventIndex }

/-! ### Positions inside the bit fields -/

/-- Where an event is, within the ranges of the id's fields. -/
structure EventPosition where
  ledger : ℕ
  tx : ℕ
  op : ℕ
  k : ℕ
  ledger_lt : ledger < 2 ^ 31
  tx_lt : tx < 2 ^ 20
  op_lt : op < 2 ^ 12
  k_le : k ≤ 2147483647

namespace EventPosition
variable (p q : EventPosition)

/-- The id that the converter gives an event at this position. -/
def rpcId : String := padded 19 (toid p.ledger p.tx p.op) ++ "-" ++ padded 10 p.k

def ordinal : EventOrdinal where
  ledger := UInt32.ofNat p.ledger
  txIndex := Int32.ofNat p.tx
  opIndex := Int32.ofNat p.op
  eventIndex := Int32.ofNat p.k

end EventPosition

/-! ### The integer of an id -/

section
variable {ledger tx op : ℕ}

/-- The masks do nothing inside the ranges, and the fields do not overlap. -/
theorem toid_eq (htx : tx < 2 ^ 20) (hop : op < 2 ^ 12) :
    toid ledger tx op = 2 ^ 12 * (2 ^ 20 * ledger + tx) + op := by
  have hmask : tx &&& 0xFFFFF = tx := by
    rw [show 0xFFFFF = 2 ^ 20 - 1 from rfl, Nat.and_two_pow_sub_one_eq_mod, Nat.mod_eq_of_lt htx]
  have hmask' : op &&& 0xFFF = op := by
    rw [show 0xFFF = 2 ^ 12 - 1 from rfl, Nat.and_two_pow_sub_one_eq_mod, Nat.mod_eq_of_lt hop]
  have hhigh : ledger <<< 32 = (2 ^ 20 * ledger) <<< 12 := by
    rw [Nat.shiftLeft_eq, Nat.shiftLeft_eq]; ring
  rw [toid, hmask, hmask', hhigh, ← Nat.shiftLeft_or_distrib, ← Nat.two_pow_add_eq_or_of_lt htx,
    Nat.shiftLeft_eq, Nat.mul_comm, ← Nat.two_pow_add_eq_or_of_lt hop]

theorem toid_lt (hledger : ledger < 2 ^ 31) (htx : tx < 2 ^ 20) (hop : op < 2 ^ 12) :
    toid ledger tx op < 2 ^ 63 := by
  rw [toid_eq htx hop]; omega

theorem toid_shift_ledger (htx : tx < 2 ^ 20) (hop : op < 2 ^ 12) :
    toid ledger tx op >>> 32 = ledger := by
  rw [toid_eq htx hop, Nat.shiftRight_eq_div_pow]; omega

theorem toid_shift_tx (htx : tx < 2 ^ 20) (hop : op < 2 ^ 12) :
    (toid ledger tx op >>> 12) &&& 0xFFFFF = tx := by
  rw [show 0xFFFFF = 2 ^ 20 - 1 from rfl, Nat.and_two_pow_sub_one_eq_mod, toid_eq htx hop,
    Nat.shiftRight_eq_div_pow]
  omega

theorem toid_mask_op (htx : tx < 2 ^ 20) (hop : op < 2 ^ 12) :
    toid ledger tx op &&& 0xFFF = op := by
  rw [show 0xFFF = 2 ^ 12 - 1 from rfl, Nat.and_two_pow_sub_one_eq_mod, toid_eq htx hop]
  omega

end

/-! ### Parsing -/

theorem splitOnce_append {sep : Char} {left : List Char} (h : sep ∉ left) (right : List Char) :
    splitOnce sep (left ++ sep :: right) = some (left, right) := by
  induction left with
  | nil => simp [splitOnce]
  | cons c left ih =>
    rw [List.mem_cons, not_or] at h
    rw [List.cons_append, splitOnce, if_neg (Ne.symm h.1), ih h.2]
    rfl

theorem toList_padded (width n : ℕ) : (padded width n).toList = decimal width n :=
  String.toList_ofList

/-- The text of an id. -/
theorem toList_id (id k : ℕ) :
    (padded 19 id ++ "-" ++ padded 10 k).toList = decimal 19 id ++ '-' :: decimal 10 k := by
  rw [String.toList_append, String.toList_append, toList_padded, toList_padded, List.append_assoc]
  rfl

theorem parseEventId_rpcId (p : EventPosition) : parseEventId p.rpcId = some p.ordinal := by
  have hdash : '-' ∉ decimal 19 (toid p.ledger p.tx p.op) := fun h =>
    absurd (isDigit_of_mem_decimal h) (by decide)
  have htoid := Nat.lt_trans (toid_lt p.ledger_lt p.tx_lt p.op_lt) (by omega : 2 ^ 63 < 2 ^ 64)
  rw [parseEventId, EventPosition.rpcId, toList_id, splitOnce_append hdash]
  simp only [Option.bind_eq_bind, Option.bind_some, parseUnsigned_decimal htoid,
    parseSigned_decimal (Nat.lt_of_le_of_lt p.k_le (by omega : 2147483647 < 2 ^ 31)),
    toid_shift_ledger p.tx_lt p.op_lt, toid_shift_tx p.tx_lt p.op_lt, toid_mask_op p.tx_lt p.op_lt]
  rfl

/-! ### Order -/

theorem compare_toid (p q : EventPosition) :
    compare (toid p.ledger p.tx p.op) (toid q.ledger q.tx q.op) =
      ((compare p.ledger q.ledger).then (compare p.tx q.tx)).then (compare p.op q.op) := by
  rw [toid_eq p.tx_lt p.op_lt, toid_eq q.tx_lt q.op_lt, compare_mul_add p.op_lt q.op_lt,
    compare_mul_add p.tx_lt q.tx_lt]

theorem compare_uint32_ofNat {m n : ℕ} (hm : m < 2 ^ 32) (hn : n < 2 ^ 32) :
    compare (UInt32.ofNat m) (UInt32.ofNat n) = compare m n := by
  simp only [compare, compareOfLessAndEq, UInt32.lt_iff_toNat_lt, ← UInt32.toNat_inj,
    UInt32.toNat_ofNat_of_lt' hm, UInt32.toNat_ofNat_of_lt' hn]

theorem compare_int32_ofNat {m n : ℕ} (hm : m < 2 ^ 31) (hn : n < 2 ^ 31) :
    compare (Int32.ofNat m) (Int32.ofNat n) = compare m n := by
  simp only [compare, compareOfLessAndEq, Int32.lt_iff_toInt_lt, ← Int32.toInt_inj,
    Int32.toInt_ofNat_of_lt hm, Int32.toInt_ofNat_of_lt hn, Int.ofNat_lt, Int.natCast_inj]

theorem EventOrdinal.compare_eq (a b : EventOrdinal) :
    compare a b = (compare a.ledger b.ledger).then ((compare a.txIndex b.txIndex).then
      ((compare a.opIndex b.opIndex).then ((compare a.eventIndex b.eventIndex).then .eq))) := rfl

theorem compare_ordinal (p q : EventPosition) :
    compare p.ordinal q.ordinal =
      (compare (toid p.ledger p.tx p.op) (toid q.ledger q.tx q.op)).then (compare p.k q.k) := by
  have hk : ∀ p : EventPosition, p.k < 2 ^ 31 := fun p => Nat.lt_succ_of_le p.k_le
  rw [EventOrdinal.compare_eq]
  dsimp only [EventPosition.ordinal]
  rw [compare_uint32_ofNat (Nat.lt_trans p.ledger_lt (by omega))
      (Nat.lt_trans q.ledger_lt (by omega)),
    compare_int32_ofNat (Nat.lt_trans p.tx_lt (by omega)) (Nat.lt_trans q.tx_lt (by omega)),
    compare_int32_ofNat (Nat.lt_trans p.op_lt (by omega)) (Nat.lt_trans q.op_lt (by omega)),
    compare_int32_ofNat (hk p) (hk q), compare_toid, Ordering.then_assoc, Ordering.then_assoc,
    Ordering.then_eq]

theorem ascii_rpcId (p : EventPosition) : Ascii p.rpcId.toList := by
  intro c hc
  rw [EventPosition.rpcId, toList_id, List.mem_append, List.mem_cons] at hc
  rcases hc with hc | rfl | hc
  · exact ascii_decimal _ _ c hc
  · decide
  · exact ascii_decimal _ _ c hc

/-- An id is two numbers of fixed widths around a dash. -/
theorem compare_rpcId (p q : EventPosition) :
    compare p.rpcId.toUTF8.data q.rpcId.toUTF8.data = compare p.ordinal q.ordinal := by
  have htoid : ∀ p : EventPosition, toid p.ledger p.tx p.op < 10 ^ 19 := fun p =>
    Nat.lt_trans (toid_lt p.ledger_lt p.tx_lt p.op_lt) (by omega)
  have hk : ∀ p : EventPosition, p.k < 10 ^ 10 := fun p => Nat.lt_of_le_of_lt p.k_le (by omega)
  have hlen : ((decimal 19 (toid p.ledger p.tx p.op)).map Char.toNat).length =
      ((decimal 19 (toid q.ledger q.tx q.op)).map Char.toNat).length := by
    rw [List.length_map, List.length_map, length_decimal (by omega) (htoid p),
      length_decimal (by omega) (htoid q)]
  calc compare p.rpcId.toUTF8.data q.rpcId.toUTF8.data
      = compare (utf8Bytes p.rpcId.toList) (utf8Bytes q.rpcId.toList) := by
        rw [Array.compare_eq_compare_toList, toList_toUTF8, toList_toUTF8, asBytes, asBytes]
    _ = compare (p.rpcId.toList.map Char.toNat) (q.rpcId.toList.map Char.toNat) :=
        compare_utf8Bytes (ascii_rpcId p) (ascii_rpcId q)
    _ = (compare (toid p.ledger p.tx p.op) (toid q.ledger q.tx q.op)).then (compare p.k q.k) := by
        rw [EventPosition.rpcId, EventPosition.rpcId, toList_id, toList_id, List.map_append,
          List.map_append, compare_append hlen, compare_decimal (by omega) (htoid p) (htoid q),
          List.map_cons, List.map_cons, List.compare_cons_cons, Nat.compare_eq_eq.mpr rfl,
          Ordering.eq_then, compare_decimal (by omega) (hk p) (hk q)]
    _ = compare p.ordinal q.ordinal := (compare_ordinal p q).symm

/-- The ids that the converter builds are parsed back to their positions, and sort by them. -/
theorem parseEventId_rpcId_and_order :
    (∀ (enc : XdrEncoder) (ctx : TxContext) (ev : ContractEvent) (p : EventPosition),
      ∀ e ∈ push enc ctx ev (toid p.ledger p.tx p.op) p.k, e.rpcId = some p.rpcId) ∧
    (∀ p : EventPosition, parseEventId p.rpcId = some p.ordinal) ∧
      ∀ (p q : EventPosition) (o o' : EventOrdinal), parseEventId p.rpcId = some o →
        parseEventId q.rpcId = some o' →
        compare p.rpcId.toUTF8.data q.rpcId.toUTF8.data = compare o o' := by
  refine ⟨fun _ _ _ _ _ he => rpcId_of_mem_push he, parseEventId_rpcId, ?_⟩
  intro p q o o' ho ho'
  obtain rfl := Option.some.inj ((parseEventId_rpcId p).symm.trans ho)
  obtain rfl := Option.some.inj ((parseEventId_rpcId q).symm.trans ho')
  exact compare_rpcId p q

/-- The ninth and the tenth event of one operation. -/
theorem compare_rpcId_ninth_tenth :
    let ninth : EventPosition := ⟨123456, 42, 3, 9, by omega, by omega, by omega, by omega⟩
    let tenth : EventPosition := ⟨123456, 42, 3, 10, by omega, by omega, by omega, by omega⟩
    parseEventId ninth.rpcId = some ⟨123456, 42, 3, 9⟩ ∧
      compare ninth.rpcId.toUTF8.data tenth.rpcId.toUTF8.data = .lt :=
  ⟨parseEventId_rpcId_and_order.2.1 _,
    parseEventId_rpcId_and_order.2.2 _ _ ⟨123456, 42, 3, 9⟩ ⟨123456, 42, 3, 10⟩
      (parseEventId_rpcId _) (parseEventId_rpcId _)⟩

end SorobanPulse.Ingest
