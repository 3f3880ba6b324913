import SorobanPulse.Lib.Decimal
import SorobanPulse.Lib.Retention

/-! The partitions of the events table by ledger range.

        events_ledger_0000000000_0001000000            attached and listed
        archive_events_ledger_0000000000_0001000000    attached, no longer listed

    A rotation renames the oldest listed partitions beyond the quota and creates three from the
    highest ledger on. The table is taken as the statements ask for it, partitioned by ledger, and a
    new partition may not overlap an attached one. -/

namespace SorobanPulse.Partitions
open Lib

/-! ### Names -/

/-- `{:010}` -/
def zeroPadded (n : ℤ) : List Char :=
  if 0 ≤ n then decimal 10 n.toNat else '-' :: decimal 9 n.natAbs

def ledgerPrefix : List Char := "events_ledger_".toList

def archivePrefix : List Char := "archive_".toList

/-- `format!("events_ledger_{:010}_{:010}", start_ledger, end_ledger)` -/
def partitionName (start stop : ℤ) : List Char :=
  ledgerPrefix ++ (zeroPadded start ++ '_' :: zeroPadded stop)

/-- `format!("archive_{}", partition_name)` -/
def archiveName (name : List Char) : List Char := archivePrefix ++ name

/-- Parse start and end ledger numbers from a partition name. -/
def parseLedgerPartitionRange (name : List Char) : Option (ℤ × ℤ) := do
  let stripped := (name.dropPrefix? archivePrefix).getD name
  let suffix ← stripped.dropPrefix? ledgerPrefix
  match suffix.span (· != '_') with
  | (_, []) => none
  | (start, _ :: stop) => some (← parseSigned (2 ^ 63) start, ← parseSigned (2 ^ 63) stop)

/-- A `LIKE` pattern that ends in `%`, where `_` stands for any character. -/
def likeStart : List Char → List Char → Bool
  | [], _ => true
  | _ :: _, [] => false
  | p :: ps, c :: cs => (p == '_' || p == c) && likeStart ps cs

/-! ### The table -/

structure LedgerPartition where
  name : List Char
  start : ℤ
  stop : ℤ
  deriving DecidableEq, Repr

/-- The attached partitions and `COALESCE(MAX(ledger), 0)`. -/
structure Events where
  partitions : List LedgerPartition
  maxLedger : Fin (2 ^ 63)

/-- `FROM (start) TO (stop)` overlaps the partition. -/
def LedgerPartition.overlaps (p : LedgerPartition) (start stop : ℤ) : Bool :=
  decide (p.start < stop) && decide (start < p.stop)

def isIdentifierChar (c : Char) : Bool := c.isAlphanum || c == '_'

/-- `CREATE TABLE IF NOT EXISTS … PARTITION OF events FOR VALUES FROM (start) TO (stop)`; `none` where
    the database rejects it. -/
def createLedgerPartition (events : Events) (start stop : ℤ) : Option Events :=
  let name := partitionName start stop
  -- a minus sign in the unquoted name is a syntax error
  if !name.all isIdentifierChar then none
  else if events.partitions.any (·.name == name) then some events
  else if stop ≤ start then none
  else if events.partitions.any (·.overlaps start stop) then none
  else some { events with partitions := events.partitions ++ [{ name, start, stop }] }

structure LedgerPartitionInfo where
  partitionName : List Char
  startLedger : ℤ
  endLedger : ℤ
  isArchived : Bool

/-- The listed partitions. The order by name falls to the sort by start ledger that follows. -/
def listLedgerPartitions (events : Events) : List LedgerPartitionInfo :=
  (events.partitions.filter fun p => likeStart ledgerPrefix p.name).filterMap fun p => do
    let (startLedger, endLedger) ← parseLedgerPartitionRange p.name
    let isArchived := archivePrefix.isPrefixOf p.name
    return { partitionName := p.name, startLedger, endLedger, isArchived }

def activePartitions (events : Events) : List LedgerPartitionInfo :=
  (listLedgerPartitions events).filter fun p => !p.isArchived

/-- `ALTER TABLE … RENAME TO …`, which fails where the new name is taken. -/
def renamePartition (events : Events) (name : List Char) : Events :=
  if events.partitions.any (·.name == archiveName name) then events
  else { events with
    partitions := events.partitions.map fun p =>
      if p.name = name then { p with name := archiveName name } else p }

/-! ### Rotation -/

structure LedgerPartitionConfig where
  ledgerRangePerPartition : Int64
  autoCreatePartitions : Bool
  maxPartitionsBeforeArchival : UInt32

/-- Arithmetic on `i64`, which wraps around. -/
def i64 (n : ℤ) : ℤ := (n + 2 ^ 63) % 2 ^ 64 - 2 ^ 63

section
variable (config : LedgerPartitionConfig)

/-- Archive the oldest partitions beyond the configured number. -/
def archiveLedgerPartitions (events : Events) : Events :=
  let active := activePartitions events
  let len := UInt32.ofNat active.length
  if config.maxPartitionsBeforeArchival < len then
    let toArchive := len - config.maxPartitionsBeforeArchival
    let sorted := active.mergeSort fun p q => decide (p.startLedger ≤ q.startLedger)
    (sorted.take toArchive.toNat).foldl
      (fun events p => renamePartition events p.partitionName) events
  else events

/-- The `i`-th range from the current ledger on. -/
def futureRange (currentLedger : ℤ) (i : ℕ) : ℤ × ℤ :=
  let range := config.ledgerRangePerPartition.toInt
  let startLedger := i64 (currentLedger + i64 (i * range))
  (startLedger, i64 (startLedger + range))

/-- One `CREATE` of the loop; a rejected range is noted. -/
def createNext (currentLedger : ℤ) (acc : Events × List (ℤ × ℤ)) (i : ℕ) : Events × List (ℤ × ℤ) :=
  let (startLedger, endLedger) := futureRange config currentLedger i
  match createLedgerPartition acc.1 startLedger endLedger with
  | some events => (events, acc.2)
  | none => (acc.1, acc.2 ++ [(startLedger, endLedger)])

/-- Automatically create ledger partitions for the next N ledger ranges. -/
def createFutureLedgerPartitions (numPartitions : ℕ) (events : Events) :
    Events × List (ℤ × ℤ) :=
  (List.range numPartitions).foldl (createNext config events.maxLedger.val) (events, [])

/-- What a rotation leaves, what it was rejected, and how many partitions it listed as not archived
    before the creation step. -/
structure Rotation where
  events : Events
  rejected : List (ℤ × ℤ)
  listed : ℕ

def rotateLedgerPartitions (events : Events) : Rotation :=
  let archived := archiveLedgerPartitions config events
  let listed := (activePartitions archived).length
  if config.autoCreatePartitions then
    let (events, rejected) := createFutureLedgerPartitions config 3 archived
    { events, rejected, listed }
  else { events := archived, rejected := [], listed }

end

/-! ### What a name says -/

section
variable {a b : ℤ} {name : List Char}

theorem zeroPadded_of_nonneg (h : 0 ≤ a) : zeroPadded a = decimal 10 a.toNat := by
  rw [zeroPadded, if_pos h]

theorem dropPrefix?_append_self (pre name : List Char) : (pre ++ name).dropPrefix? pre = some name :=
  List.dropPrefix?_append_of_beq name (BEq.refl pre)

theorem underscore_not_mem_decimal (width n : ℕ) : '_' ∉ decimal width n := by
  intro h
  have hdigit := isDigit_of_mem_decimal h
  cases hdigit

/-- The two numbers stand around the first underscore. -/
theorem span_numbers (m n : ℕ) : (decimal 10 m ++ '_' :: decimal 10 n).span (· != '_') =
    (decimal 10 m, '_' :: decimal 10 n) := by
  have hpass : ∀ c ∈ decimal 10 m, (c != '_') = true := by
    intro c hc
    rw [bne_iff_ne]
    rintro rfl
    exact underscore_not_mem_decimal 10 m hc
  rw [List.span_eq_takeWhile_dropWhile, List.takeWhile_append_of_pos hpass,
    List.dropWhile_append_of_pos hpass, List.takeWhile_cons_of_neg (by decide),
    List.dropWhile_cons_of_neg (by decide), List.append_nil]

/-- Below the prefix a name is parsed as it was printed. -/
theorem parse_stripped (ha : 0 ≤ a) (ha' : a < 2 ^ 63) (hb : 0 ≤ b) (hb' : b < 2 ^ 63)
    (h : (name.dropPrefix? archivePrefix).getD name = partitionName a b) :
    parseLedgerPartitionRange name = some (a, b) := by
  rw [parseLedgerPartitionRange, h, partitionName, dropPrefix?_append_self,
    zeroPadded_of_nonneg ha, zeroPadded_of_nonneg hb, Option.bind_eq_bind, Option.bind_some,
    span_numbers]
  dsimp only
  rw [parseSigned_decimal (by omega), parseSigned_decimal (by omega)]
  have hcast : ((a.toNat : ℤ), (b.toNat : ℤ)) = (a, b) := by
    rw [Int.toNat_of_nonneg ha, Int.toNat_of_nonneg hb]
  exact congrArg some hcast

theorem parse_partitionName (ha : 0 ≤ a) (ha' : a < 2 ^ 63) (hb : 0 ≤ b) (hb' : b < 2 ^ 63) :
    parseLedgerPartitionRange (partitionName a b) = some (a, b) :=
  parse_stripped ha ha' hb hb' rfl

theorem parse_archiveName (ha : 0 ≤ a) (ha' : a < 2 ^ 63) (hb : 0 ≤ b) (hb' : b < 2 ^ 63) :
    parseLedgerPartitionRange (archiveName (partitionName a b)) = some (a, b) := by
  refine parse_stripped ha ha' hb hb' ?_
  rw [archiveName, dropPrefix?_append_self, Option.getD_some]

theorem partitionName_inj {a' b' : ℤ} (ha : 0 ≤ a) (hb : 0 ≤ b) (ha' : 0 ≤ a') (hb' : 0 ≤ b')
    (h : partitionName a b = partitionName a' b') : a = a' ∧ b = b' := by
  rw [partitionName, partitionName, zeroPadded_of_nonneg ha, zeroPadded_of_nonneg hb,
    zeroPadded_of_nonneg ha', zeroPadded_of_nonneg hb'] at h
  obtain ⟨hstart, hstop⟩ := decimal_append_inj rfl (List.append_cancel_left h)
  have hstop := decimal_injective 10 hstop
  omega

theorem archiveName_ne_partitionName {a' b' : ℤ} :
    archiveName (partitionName a b) ≠ partitionName a' b' := by
  intro h
  cases (List.cons.inj h).1

@[simp] theorem likeStart_partitionName : likeStart ledgerPrefix (partitionName a b) = true :=
  rfl

@[simp] theorem likeStart_archiveName :
    likeStart ledgerPrefix (archiveName (partitionName a b)) = false :=
  rfl

/-- Only a name without a minus sign is an identifier. -/
theorem all_isIdentifierChar_iff :
    (partitionName a b).all isIdentifierChar = true ↔ 0 ≤ a ∧ 0 ≤ b := by
  have hdigits : ∀ n : ℤ, (zeroPadded n).all isIdentifierChar = true ↔ 0 ≤ n := by
    intro n
    rw [zeroPadded]
    split
    · next h =>
      refine iff_of_true (List.all_eq_true.mpr fun c hc => ?_) h
      have hdigit := isDigit_of_mem_decimal hc
      rw [isIdentifierChar, Char.isAlphanum, hdigit, Bool.or_true, Bool.true_or]
    · next h => exact iff_of_false (by rw [List.all_cons]; exact Bool.noConfusion) h
  rw [partitionName, List.all_append, List.all_append, List.all_cons, Bool.and_eq_true,
    Bool.and_eq_true, Bool.and_eq_true, hdigits, hdigits]
  exact ⟨fun h => ⟨h.2.1, h.2.2.2⟩, fun h => ⟨by decide, h.1, by decide, h.2⟩⟩

end

end SorobanPulse.Partitions
