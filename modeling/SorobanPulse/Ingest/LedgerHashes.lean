import SorobanPulse.Ingest.Checkpoint
import SorobanPulse.Lib.Keyset
import SorobanPulse.Lib.Run

/-! The chain of ledger hashes: what the indexer writes of it and what the verifier expects.

        ledger      7      8      9          every row is written with prev_hash NULL
        hash        h₇     h₈     h₉
        prev_hash   NULL   NULL   NULL       verify: 8 after 7 broken, 9 after 8 broken

    A link between stored neighbours is intact only if the later row names the hash of the earlier
    one. The writer never knows it, so every pair of neighbours counts as broken. -/

namespace SorobanPulse.Ingest
open Lib

/-- `as i64`. -/
def asI64 (n : UInt64) : ℤ := n.toInt64.toInt

structure LedgerHashRow where
  ledger : ℤ
  hash : String
  prevHash : Option String

/-- `ledger_hashes`, its rows in no order; `ledger` is the primary key. -/
structure LedgerHashes where
  rows : List LedgerHashRow
  unique : (rows.map (·.ledger)).Nodup

def LedgerHashes.empty : LedgerHashes := ⟨[], List.nodup_nil⟩

/-- The upsert of `store_ledger_hash`. -/
def LedgerHashes.upsert (table : LedgerHashes) (row : LedgerHashRow) : LedgerHashes where
  rows := row :: table.rows.filter fun r => decide (r.ledger ≠ row.ledger)
  unique := by
    rw [List.map_cons, List.nodup_cons]
    constructor
    · simp
    · exact table.unique.sublist (List.filter_sublist.map _)

def storeLedgerHash (table : LedgerHashes) (ledger : UInt64) (hash : String)
    (prevHash : Option String) : LedgerHashes :=
  table.upsert ⟨asI64 ledger, hash, prevHash⟩

/-! ### Verification -/

/-- The mismatches from here on, after the row `prev`. -/
def mismatches : Option LedgerHashRow → List LedgerHashRow → ℕ
  | _, [] => 0
  | none, row :: rows => mismatches (some row) rows
  | some prev, row :: rows =>
    (if row.ledger = prev.ledger + 1 ∧ row.prevHash ≠ some prev.hash then 1 else 0) +
      mismatches (some row) rows

/-- `WHERE ledger BETWEEN $1 AND $2`. -/
def between (fromLedger toLedger : UInt64) (row : LedgerHashRow) : Bool :=
  decide (asI64 fromLedger ≤ row.ledger) && decide (row.ledger ≤ asI64 toLedger)

def verifyHashChain (table : LedgerHashes) (fromLedger toLedger : UInt64) : ℕ :=
  mismatches none (Keyset.sortOn (·.ledger) (table.rows.filter (between fromLedger toLedger)))

/-- `saturating_sub`. -/
def saturatingSub (n m : UInt64) : UInt64 := if n < m then 0 else n - m

/-- The critical issue that `run_integrity_scan` finds in the chain, by its description. -/
def hashChainIssue (table : LedgerHashes) : Option String :=
  (table.rows.map (·.ledger)).max?.bind fun latest =>
    let toLedger := UInt64.ofInt latest
    let fromLedger := saturatingSub toLedger 1000
    let found := verifyHashChain table fromLedger toLedger
    if found > 0 then
      some (toString found ++ " broken link(s) in the ledger hash chain between " ++
        toString fromLedger ++ " and " ++ toString latest)
    else none

/-! ### The writer -/

/-- The table, the spawned calls that have not run and, for the record, the ledgers of those that
    have. -/
structure HashState where
  table : LedgerHashes := .empty
  spawned : List (UInt64 × String) := []
  ran : List UInt64 := []

/-- A call of `store_event_in_tx`, with all it finds, and a spawned call, which may fail. -/
inductive HashAction where
  | store (table : List EventRow) (filters : DedupFilters) (tx : Transaction) (event : SorobanEvent)
      (fault : Option Statement)
  | run (i : ℕ) (succeeds : Bool)

/-- `if rows > 0`. -/
def stored : Except StoreError ℕ → Bool
  | .ok rows => decide (rows > 0)
  | .error _ => false

section
variable (config : Config) (libraries : Libraries) (trackingEnabled : Bool)

def HashState.step (s : HashState) : HashAction → Option HashState
  | .store table filters tx event fault =>
    let result := (storeEventInTx config libraries table filters tx event fault).2.2
    if stored result && trackingEnabled then
      match event.ledgerHash with
      | some hash => some { s with spawned := s.spawned ++ [(event.ledger, hash)] }
      | none => some s
    else some s
  | .run i succeeds =>
    match s.spawned[i]? with
    | none => none
    | some (ledger, hash) =>
      if succeeds then
        some { table := storeLedgerHash s.table ledger hash none
               spawned := s.spawned.eraseIdx i, ran := ledger :: s.ran }
      else some { s with spawned := s.spawned.eraseIdx i }

end

/-! ### The claims of a verifier -/

/-- Another hash in the place of one ledger's. -/
def replaceHash (ledger : ℤ) (hash : String) (row : LedgerHashRow) : LedgerHashRow :=
  if row.ledger = ledger then { row with hash } else row

theorem replaceHash_ledger (ledger : ℤ) (hash : String) (row : LedgerHashRow) :
    (replaceHash ledger hash row).ledger = row.ledger := by
  unfold replaceHash
  split <;> rfl

def LedgerHashes.tamper (table : LedgerHashes) (ledger : ℤ) (hash : String) : LedgerHashes where
  rows := table.rows.map (replaceHash ledger hash)
  unique := by
    have hledgers : (LedgerHashRow.ledger ∘ replaceHash ledger hash) = LedgerHashRow.ledger :=
      funext (replaceHash_ledger ledger hash)
    rw [List.map_map, hledgers]
    exact table.unique

/-- Ledgers next to each other. -/
def Adjacent (a b : LedgerHashRow) : Prop := b.ledger = a.ledger + 1 ∨ a.ledger = b.ledger + 1

/-- No false alarm, and another hash beside a stored neighbour is noticed. -/
structure ChainVerified (table : LedgerHashes) : Prop where
  quiet : ∀ fromLedger toLedger, verifyHashChain table fromLedger toLedger = 0
  no_issue : hashChainIssue table = none
  notices : ∀ a ∈ table.rows, ∀ b ∈ table.rows, Adjacent a b → ∀ hash, hash ≠ a.hash →
    ∀ fromLedger toLedger, between fromLedger toLedger a = true →
      between fromLedger toLedger b = true →
      0 < verifyHashChain (table.tamper a.ledger hash) fromLedger toLedger

section
variable {table : LedgerHashes} {rows : List LedgerHashRow} {row : LedgerHashRow}
  {fromLedger toLedger : UInt64}

/-! ### Counting broken links -/

/-- Where no row names a predecessor's hash, the broken links are the pairs of neighbours. -/
theorem mismatches_eq_zero_iff (hnull : ∀ r ∈ rows, r.prevHash = none)
    (hsorted : (row :: rows).Pairwise fun a b => a.ledger < b.ledger) :
    mismatches (some row) rows = 0 ↔
      ∀ a ∈ row :: rows, ∀ b ∈ row :: rows, b.ledger ≠ a.ledger + 1 := by
  induction rows generalizing row with
  | nil =>
    refine iff_of_true rfl ?_
    simp
  | cons next rows ih =>
    obtain ⟨hfirst, hrest⟩ := List.pairwise_cons.mp hsorted
    have hnext : next.prevHash ≠ some row.hash := by
      rw [hnull next List.mem_cons_self]
      simp
    rw [mismatches, Nat.add_eq_zero_iff,
      ih (fun r hr => hnull r (List.mem_cons_of_mem _ hr)) hrest]
    constructor
    · rintro ⟨hlink, hpairs⟩ a ha b hb
      rcases List.mem_cons.mp ha with rfl | ha
      · rcases List.mem_cons.mp hb with rfl | hb
        · omega
        · -- a row after `next` is too far from `a`
          intro heq
          have hle : next.ledger ≤ b.ledger := by
            rcases List.mem_cons.mp hb with rfl | hb
            · exact le_rfl
            · exact ((List.pairwise_cons.mp hrest).1 b hb).le
          have hlt := hfirst next List.mem_cons_self
          rw [if_pos ⟨by omega, hnext⟩] at hlink
          cases hlink
      · rcases List.mem_cons.mp hb with hrow | hb
        · have hlt := hfirst a ha
          rw [hrow]
          omega
        · exact hpairs a ha b hb
    · intro hpairs
      refine ⟨if_neg fun h => ?_, ?_⟩
      · exact hpairs row List.mem_cons_self next (List.mem_cons_of_mem _ List.mem_cons_self) h.1
      · exact fun a ha b hb => hpairs a (List.mem_cons_of_mem _ ha) b (List.mem_cons_of_mem _ hb)

theorem pairwise_sorted (table : LedgerHashes) (p : LedgerHashRow → Bool) :
    (Keyset.sortOn (·.ledger) (table.rows.filter p)).Pairwise fun a b => a.ledger < b.ledger := by
  have hperm := Keyset.perm_sortOn (fun r : LedgerHashRow => r.ledger) (table.rows.filter p)
  have hunique : ((Keyset.sortOn (·.ledger) (table.rows.filter p)).map (·.ledger)).Nodup :=
    (hperm.map _).nodup_iff.mpr (table.unique.sublist (List.filter_sublist.map _))
  have hle := Keyset.pairwise_sortOn (fun r : LedgerHashRow => r.ledger) (table.rows.filter p)
  refine (hle.and (List.pairwise_map.mp hunique)).imp ?_
  rintro a b ⟨hle, hne⟩
  exact lt_of_le_of_ne hle hne

/-- The verifier's answer on a table without predecessor hashes. -/
theorem verify_eq_zero_iff (hnull : ∀ r ∈ table.rows, r.prevHash = none) :
    verifyHashChain table fromLedger toLedger = 0 ↔
      ∀ a ∈ table.rows, ∀ b ∈ table.rows, between fromLedger toLedger a = true →
        between fromLedger toLedger b = true → b.ledger ≠ a.ledger + 1 := by
  have hmem : ∀ r, r ∈ Keyset.sortOn (·.ledger) (table.rows.filter (between fromLedger toLedger)) ↔
      r ∈ table.rows ∧ between fromLedger toLedger r = true := by
    intro r
    rw [Keyset.mem_sortOn, List.mem_filter]
  have hsorted := pairwise_sorted table (between fromLedger toLedger)
  unfold verifyHashChain
  generalize Keyset.sortOn (·.ledger) (table.rows.filter (between fromLedger toLedger)) = sorted
    at hmem hsorted
  cases sorted with
  | nil =>
    refine iff_of_true rfl fun a ha b _ hin _ => ?_
    exact absurd ((hmem a).mpr ⟨ha, hin⟩) List.not_mem_nil
  | cons row rows =>
    have hrows : ∀ r ∈ rows, r.prevHash = none :=
      fun r hr => hnull r ((hmem r).mp (List.mem_cons_of_mem _ hr)).1
    rw [mismatches, mismatches_eq_zero_iff hrows hsorted]
    constructor
    · exact fun h a ha b hb hina hinb => h a ((hmem a).mpr ⟨ha, hina⟩) b ((hmem b).mpr ⟨hb, hinb⟩)
    · intro h a ha b hb
      obtain ⟨ha, hina⟩ := (hmem a).mp ha
      obtain ⟨hb, hinb⟩ := (hmem b).mp hb
      exact h a ha b hb hina hinb

/-- Some pair of neighbours in the range is enough for a mismatch. -/
theorem verify_pos {a b : LedgerHashRow} (hnull : ∀ r ∈ table.rows, r.prevHash = none)
    (ha : a ∈ table.rows) (hb : b ∈ table.rows) (hadjacent : Adjacent a b)
    (hina : between fromLedger toLedger a = true) (hinb : between fromLedger toLedger b = true) :
    0 < verifyHashChain table fromLedger toLedger := by
  rw [Nat.pos_iff_ne_zero, Ne, verify_eq_zero_iff hnull]
  intro h
  rcases hadjacent with hab | hba
  · exact h a ha b hb hina hinb hab
  · exact h b hb a ha hinb hina hba

theorem between_replaceHash (ledger : ℤ) (hash : String) :
    between fromLedger toLedger (replaceHash ledger hash row) = between fromLedger toLedger row := by
  rw [between, replaceHash_ledger, between]

/-- Without predecessor hashes a replaced hash beside a stored neighbour is noticed: so is every
    hash there that is not replaced. -/
theorem notices_of_null (hnull : ∀ r ∈ table.rows, r.prevHash = none) {a b : LedgerHashRow}
    (ha : a ∈ table.rows) (hb : b ∈ table.rows) (hadjacent : Adjacent a b) (hash : String)
    (hina : between fromLedger toLedger a = true) (hinb : between fromLedger toLedger b = true) :
    0 < verifyHashChain (table.tamper a.ledger hash) fromLedger toLedger := by
  have hmem : ∀ r ∈ table.rows, replaceHash a.ledger hash r ∈ (table.tamper a.ledger hash).rows :=
    fun r hr => List.mem_map_of_mem hr
  have hnull' : ∀ r ∈ (table.tamper a.ledger hash).rows, r.prevHash = none := by
    intro r hr
    obtain ⟨row, hrow, rfl⟩ := List.mem_map.mp hr
    unfold replaceHash
    split <;> exact hnull row hrow
  refine verify_pos hnull' (hmem a ha) (hmem b hb) ?_ ?_ ?_
  · simpa only [Adjacent, replaceHash_ledger] using hadjacent
  · rwa [between_replaceHash]
  · rwa [between_replaceHash]

theorem hashChainIssue_eq_none (h : ∀ fromLedger toLedger,
    verifyHashChain table fromLedger toLedger = 0) : hashChainIssue table = none := by
  unfold hashChainIssue
  cases (table.rows.map (·.ledger)).max? with
  | none => rfl
  | some latest => simp [h]

end

section
variable {config : Config} {libraries : Libraries} {trackingEnabled : Bool} {s t : HashState}
  {action : HashAction}

/-! ### What the writer writes -/

/-- The rows name no predecessor's hash and are those of the calls that have run. -/
structure HashState.Inv (s : HashState) : Prop where
  null : ∀ r ∈ s.table.rows, r.prevHash = none
  ledgers : ∀ ledger, (∃ r ∈ s.table.rows, r.ledger = ledger) ↔ ∃ n ∈ s.ran, asI64 n = ledger

theorem HashState.Inv.store (h : s.Inv) (n : UInt64) (hash : String) :
    (∀ r ∈ (storeLedgerHash s.table n hash none).rows, r.prevHash = none) ∧
      ∀ ledger, (∃ r ∈ (storeLedgerHash s.table n hash none).rows, r.ledger = ledger) ↔
        ∃ m ∈ n :: s.ran, asI64 m = ledger := by
  constructor
  · intro r hr
    rcases List.mem_cons.mp hr with rfl | hr
    · rfl
    · exact h.null r (List.mem_of_mem_filter hr)
  · intro ledger
    simp only [List.exists_mem_cons_iff, ← h.ledgers ledger, storeLedgerHash, LedgerHashes.upsert,
      List.mem_filter, decide_eq_true_eq]
    constructor
    · rintro (heq | ⟨r, ⟨hr, -⟩, heq⟩)
      · exact .inl heq
      · exact .inr ⟨r, hr, heq⟩
    · rintro (heq | ⟨r, hr, heq⟩)
      · exact .inl heq
      · by_cases hsame : r.ledger = asI64 n
        · exact .inl (hsame.symm.trans heq)
        · exact .inr ⟨r, ⟨hr, hsame⟩, heq⟩

theorem HashState.Inv.step (hstep : s.step config libraries trackingEnabled action = some t)
    (h : s.Inv) : t.Inv := by
  cases action with
  | store table filters tx event fault =>
    simp only [HashState.step] at hstep
    split at hstep
    · split at hstep <;> cases hstep <;> exact ⟨h.null, h.ledgers⟩
    · cases hstep
      exact h
  | run i succeeds =>
    simp only [HashState.step] at hstep
    split at hstep
    · cases hstep
    · split at hstep <;> cases hstep
      · next n hash _ _ =>
        obtain ⟨hnull, hledgers⟩ := h.store n hash
        exact ⟨hnull, hledgers⟩
      · exact ⟨h.null, h.ledgers⟩

theorem inv_of_run {actions : List HashAction}
    (hrun : AnyRun (HashState.step config libraries trackingEnabled) {} actions t) : t.Inv := by
  refine Run.invariant (fun _ hs h => HashState.Inv.step hs h) hrun ⟨?_, ?_⟩
  · exact fun _ h => absurd h List.not_mem_nil
  · intro ledger
    simp [LedgerHashes.empty]

theorem between_self_succ {a b : LedgerHashRow} {m n : UInt64} (ha : asI64 m = a.ledger)
    (hb : asI64 n = b.ledger) (hadjacent : b.ledger = a.ledger + 1) :
    between m n a = true ∧ between m n b = true := by
  simp only [between, Bool.and_eq_true, decide_eq_true_eq]
  omega

/-- After every run the verifier is right exactly if no two calls that have run were for ledgers
    next to each other. -/
theorem hash_chain_verified_iff (config : Config) (libraries : Libraries) (trackingEnabled : Bool) :
    ∀ actions t, AnyRun (HashState.step config libraries trackingEnabled) {} actions t →
      (ChainVerified t.table ↔ ∀ m ∈ t.ran, ∀ n ∈ t.ran, asI64 n ≠ asI64 m + 1) := by
  intro actions t hrun
  have hinv := inv_of_run hrun
  constructor
  · intro hverified m hm n hn hadjacent
    obtain ⟨a, ha, hma⟩ := (hinv.ledgers _).mpr ⟨m, hm, rfl⟩
    obtain ⟨b, hb, hnb⟩ := (hinv.ledgers _).mpr ⟨n, hn, rfl⟩
    have hab : b.ledger = a.ledger + 1 := by rw [hma, hnb, hadjacent]
    obtain ⟨hina, hinb⟩ := between_self_succ hma.symm hnb.symm hab
    exact (verify_pos hinv.null ha hb (.inl hab) hina hinb).ne' (hverified.quiet m n)
  · intro h
    have hquiet : ∀ fromLedger toLedger, verifyHashChain t.table fromLedger toLedger = 0 := by
      intro fromLedger toLedger
      refine (verify_eq_zero_iff hinv.null).mpr fun a ha b hb _ _ => ?_
      obtain ⟨m, hm, hma⟩ := (hinv.ledgers _).mp ⟨a, ha, rfl⟩
      obtain ⟨n, hn, hnb⟩ := (hinv.ledgers _).mp ⟨b, hb, rfl⟩
      rw [← hma, ← hnb]
      exact h m hm n hn
    exact ⟨hquiet, hashChainIssue_eq_none hquiet, fun a ha b hb hadjacent hash _ _ _ hina hinb =>
      notices_of_null hinv.null ha hb hadjacent hash hina hinb⟩

end

/-! ### Two ledgers, apart and in a row -/

/-- An event of a ledger, stored into an empty table. -/
def storeAt (ledger : UInt64) (txHash ledgerHash : String) : HashAction :=
  .store [] { session := none, bloom := none } .begin
    { sampleEvent with ledger, txHash, ledgerHash := some ledgerHash } none

/-- Two ledgers with one between them that has no events. -/
def gappedLedgers : List HashAction :=
  [storeAt 100 "00000000000000000000000000000000000000000000000000000000000000aa" "h100",
    storeAt 102 "00000000000000000000000000000000000000000000000000000000000000bb" "h102",
    .run 0 true, .run 0 true]

theorem hash_chain_verified_gappedLedgers :
    ∃ t, AnyRun (HashState.step {} sampleLibraries true) {} gappedLedgers t ∧
      t.ran = [102, 100] ∧ ChainVerified t.table := by
  have hran : (exec (HashState.step {} sampleLibraries true) {} gappedLedgers).map (·.ran) =
      some [102, 100] := by decide +kernel
  obtain ⟨t, ht, hran⟩ := Option.map_eq_some_iff.mp hran
  have hrun := anyRun_iff_exec.mpr ht
  refine ⟨t, hrun, hran, (hash_chain_verified_iff {} sampleLibraries true _ t hrun).mpr ?_⟩
  rw [hran]
  intro m hm n hn
  rcases List.mem_pair.mp hm with rfl | rfl <;> rcases List.mem_pair.mp hn with rfl | rfl <;> decide

/-- Both events are stored before the first call runs. -/
def twoLedgers : List HashAction :=
  [storeAt 100 "00000000000000000000000000000000000000000000000000000000000000aa" "h100",
    storeAt 101 "00000000000000000000000000000000000000000000000000000000000000bb" "h101",
    .run 0 true, .run 0 true]

theorem not_verified_twoLedgers : ¬∀ actions t,
    AnyRun (HashState.step {} sampleLibraries true) {} actions t → ChainVerified t.table := by
  intro h
  have hbroken : (exec (HashState.step {} sampleLibraries true) {} twoLedgers).map
      (fun t => verifyHashChain t.table 100 101) = some 1 := by decide +kernel
  obtain ⟨t, ht, hbroken⟩ := Option.map_eq_some_iff.mp hbroken
  have hquiet := (h twoLedgers t (anyRun_iff_exec.mpr ht)).quiet 100 101
  rw [hbroken] at hquiet
  cases hquiet

end SorobanPulse.Ingest
