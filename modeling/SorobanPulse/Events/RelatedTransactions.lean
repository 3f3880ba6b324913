import SorobanPulse.Json
import SorobanPulse.Lib.Reach
import SorobanPulse.Events.TenantReads

/-! `get_related_events_by_tx`: the events of the transactions a transaction refers to.

        frontier ──▶ rows by tx_hash ──▶ collect_tx_refs ──▶ lowercase, valid, not seen ──▶ frontier
            ▲                                                                                  │
            └──────────────────────────────── at most depth times ────────────────────────────┘

    The hashes of the frontier are in lower case, whatever the case of the request and of the
    references. A stored `tx_hash` is compared as it is. -/

namespace SorobanPulse.Events
open Lib
open Lib.Reach (Within Frontier)

/-! ### References -/

/-- The transaction of an event: its hash, whatever its letter case. -/
def EventRow.transaction (row : EventRow) : String := row.txHash.toLower

/-- The event refers to the transaction. -/
def Refers (row : EventRow) (tx : String) : Prop :=
  ∃ ref, StoredUnder isTxRefKey ref row.eventData ∧ (validateTxHash ref).isOk = true ∧
    ref.toLower = tx

/-- One reference step between transactions. -/
def RefStep (events : List EventRow) (tx tx' : String) : Prop :=
  ∃ row ∈ events, row.transaction = tx ∧ Refers row tx'

/-- The event belongs to a transaction within so many steps of the root. -/
def Related (events : List EventRow) (root : String) (depth : ℕ) (row : EventRow) : Prop :=
  Within (RefStep events) {root} depth row.transaction

/-- The related events of the table, each as often as it is there. -/
def ExactlyRelated (events : List EventRow) (root : String) (depth : ℕ) (data : List EventRow) :
    Prop :=
  ∃ keep : EventRow → Bool, (∀ row ∈ events, keep row = true ↔ Related events root depth row) ∧
    data.Perm (events.filter keep)

/-! ### Letter case -/

section
variable {c : Char} {s : String}

theorem toLower_cases (c : Char) : c.toLower = c ∨ c.toNat < 128 := by
  by_cases h : c.val ≥ 'A'.val ∧ c.val ≤ 'Z'.val
  · right
    have hle : c.toNat ≤ 'Z'.toNat := UInt32.le_iff_toNat_le.mp h.2
    exact Nat.lt_of_le_of_lt hle (by decide)
  · left
    rw [Char.toLower, dif_neg h]

theorem of_ascii {p : Char → Prop} (h : ∀ n < 128, p (Char.ofNat n)) (hc : c.toNat < 128) : p c := by
  have hp := h c.toNat hc
  rwa [Char.ofNat_toNat] at hp

theorem isAsciiHexDigit_toLower : Ingest.isAsciiHexDigit c.toLower = Ingest.isAsciiHexDigit c := by
  rcases toLower_cases c with h | h
  · rw [h]
  · refine @of_ascii c (fun c => Ingest.isAsciiHexDigit c.toLower = Ingest.isAsciiHexDigit c) ?_ h
    decide

theorem char_toLower_toLower : c.toLower.toLower = c.toLower := by
  rcases toLower_cases c with h | h
  · rw [h, h]
  · refine @of_ascii c (fun c => c.toLower.toLower = c.toLower) ?_ h
    decide

theorem toLower_toLower : s.toLower.toLower = s.toLower := by
  apply String.toList_injective
  rw [String.toLower, String.toLower, String.toList_map, String.toList_map, List.map_map]
  exact List.map_congr_left fun c _ => char_toLower_toLower

theorem isAsciiHexDigit_ascii (h : Ingest.isAsciiHexDigit c = true) : c.toNat < 128 := by
  have hle (d : Char) (hd : c ≤ d) : c.toNat ≤ d.toNat := UInt32.le_iff_toNat_le.mp hd
  simp only [Ingest.isAsciiHexDigit, Bool.or_eq_true, Bool.and_eq_true, decide_eq_true_eq] at h
  rcases h with (h | h) | h
  · exact Nat.lt_of_le_of_lt (Char.isDigit_iff_toNat.mp h).2 (by decide)
  · exact Nat.lt_of_le_of_lt (hle 'f' h.2) (by decide)
  · exact Nat.lt_of_le_of_lt (hle 'F' h.2) (by decide)

theorem validateTxHash_iff : (validateTxHash s).isOk = true ↔
    s.toList.length = 64 ∧ ∀ c ∈ s.toList, Ingest.isAsciiHexDigit c = true := by
  have hsize (h : ∀ c ∈ s.toList, Ingest.isAsciiHexDigit c = true) :
      s.utf8ByteSize = s.toList.length := by
    rw [← utf8ByteSize_of_ascii fun c hc => isAsciiHexDigit_ascii (h c hc), String.ofList_toList]
  rw [validateTxHash]
  split
  · next hbad =>
    refine iff_of_false (by simp [Except.isOk, Except.toBool]) ?_
    rintro ⟨hlen, hhex⟩
    rcases hbad with hbad | hbad
    · exact hbad ((hsize hhex).trans hlen)
    · rw [List.all_eq_true.mpr hhex] at hbad
      cases hbad
  · next hgood =>
    rw [not_or, not_not, Bool.not_eq_false, List.all_eq_true] at hgood
    exact iff_of_true rfl ⟨(hsize hgood.2).symm.trans hgood.1, hgood.2⟩

/-- A hash is as valid as it is in lower case. -/
theorem validateTxHash_toLower :
    (validateTxHash s.toLower).isOk = true ↔ (validateTxHash s).isOk = true := by
  rw [validateTxHash_iff, validateTxHash_iff, String.toLower, String.toList_map, List.length_map,
    List.forall_mem_map]
  simp only [isAsciiHexDigit_toLower]

end

/-! ### The walk through a value -/

mutual
theorem mem_collectTxRefs_iff : ∀ {v : Value} {s : String},
    s ∈ collectTxRefs v ↔ StoredUnder isTxRefKey s v
  | .object map, s => by rw [collectTxRefs, mem_collectTxRefsMap_iff]
  | .array items, s => by rw [collectTxRefs, mem_collectTxRefsList_iff]
  | .null, s | .bool _, s | .number _, s | .string _, s => by
    simp only [collectTxRefs, List.not_mem_nil, false_iff]
    intro h
    cases h

theorem mem_collectTxRefsList_iff : ∀ {items : List Value} {s : String},
    s ∈ collectTxRefsList items ↔ StoredUnder isTxRefKey s (.array items)
  | [], s => by simp [collectTxRefsList, storedUnder_array_nil]
  | v :: items, s => by
    rw [collectTxRefsList, List.mem_append, mem_collectTxRefs_iff, mem_collectTxRefsList_iff,
      storedUnder_array_cons]

theorem mem_collectTxRefsMap_iff : ∀ {map : List (String × Value)} {s : String},
    s ∈ collectTxRefsMap map ↔ StoredUnder isTxRefKey s (.object map)
  | [], s => by simp [collectTxRefsMap, storedUnder_object_nil]
  | (key, v) :: map, s => by
    have hkey : s ∈ (if isTxRefKey key = true then v.asStr.toList else []) ↔
        isTxRefKey key = true ∧ v = .string s := by
      split
      · next h =>
        cases v <;> simp [Value.asStr, h, eq_comm]
      · next h => simp [h]
    rw [collectTxRefsMap, List.mem_append, List.mem_append, hkey, mem_collectTxRefs_iff,
      mem_collectTxRefsMap_iff, storedUnder_object_cons, or_assoc]
end

/-! ### The search -/

/-- A reference step as the query takes it: by the stored hash. -/
def QueryStep (events : List EventRow) (h h' : String) : Prop :=
  ∃ row ∈ events, row.txHash = h ∧ Refers row h'

/-- One reference in turn. -/
def addRef (acc : List String × List String) (ref : String) : List String × List String :=
  let h := ref.toLower
  if (validateTxHash h).isOk && !acc.2.contains h then (acc.1 ++ [h], h :: acc.2) else acc

section
variable {refs seen frontier : List String} {events : List EventRow} {h : String}

theorem mem_addRef {acc : List String × List String} {ref : String} :
    (h ∈ (addRef acc ref).1 ↔
      h ∈ acc.1 ∨ h ∉ acc.2 ∧ (validateTxHash ref).isOk = true ∧ ref.toLower = h) ∧
    (h ∈ (addRef acc ref).2 ↔
      h ∈ acc.2 ∨ (validateTxHash ref).isOk = true ∧ ref.toLower = h) := by
  rw [addRef]
  split
  · next hnew =>
    rw [Bool.and_eq_true, validateTxHash_toLower, Bool.not_eq_true', List.contains_eq_mem,
      decide_eq_false_iff_not] at hnew
    rw [List.mem_append, List.mem_singleton, List.mem_cons]
    constructor
    · constructor
      · rintro (hh | rfl)
        · exact .inl hh
        · exact .inr ⟨hnew.2, hnew.1, rfl⟩
      · rintro (hh | ⟨-, -, rfl⟩)
        · exact .inl hh
        · exact .inr rfl
    · simp [hnew.1, eq_comm, or_comm]
  · next hold =>
    rw [Bool.and_eq_true, validateTxHash_toLower, Bool.not_eq_true', List.contains_eq_mem,
      decide_eq_false_iff_not, not_and, not_not] at hold
    constructor
    · refine ⟨.inl, ?_⟩
      rintro (hh | ⟨hnot, hvalid, rfl⟩)
      · exact hh
      · exact absurd (hold hvalid) hnot
    · refine ⟨.inl, ?_⟩
      rintro (hh | ⟨hvalid, rfl⟩)
      · exact hh
      · exact hold hvalid

theorem mem_foldl_addRef {acc : List String × List String} :
    (h ∈ (refs.foldl addRef acc).1 ↔ h ∈ acc.1 ∨
      h ∉ acc.2 ∧ ∃ ref ∈ refs, (validateTxHash ref).isOk = true ∧ ref.toLower = h) ∧
    (h ∈ (refs.foldl addRef acc).2 ↔ h ∈ acc.2 ∨
      ∃ ref ∈ refs, (validateTxHash ref).isOk = true ∧ ref.toLower = h) := by
  induction refs generalizing acc with
  | nil => simp
  | cons ref refs ih =>
    rw [List.foldl_cons, ih.1, ih.2, mem_addRef.1, mem_addRef.2]
    simp only [List.exists_mem_cons_iff]
    tauto

/-- The rows of the frontier. -/
theorem mem_frontierRows {row : EventRow} :
    row ∈ latestFirst (events.filter (frontier.contains ·.txHash)) ↔
      row ∈ events ∧ row.txHash ∈ frontier := by
  rw [latestFirst, Keyset.mem_sortOn, List.mem_filter, List.contains_iff_mem]

/-- What the loop sees next: the hashes the rows of the frontier refer to. -/
theorem mem_nextFrontier :
    let rows := latestFirst (events.filter (frontier.contains ·.txHash))
    let next := nextFrontier (rows.flatMap (collectTxRefs ·.eventData)) seen
    {h | h ∈ next.1} = Reach.next (QueryStep events) {h | h ∈ seen} {h | h ∈ frontier} ∧
      {h | h ∈ next.2} = {h | h ∈ seen} ∪ {h | h ∈ next.1} := by
  intro rows next
  have href (h : String) : (∃ ref ∈ rows.flatMap (collectTxRefs ·.eventData),
      (validateTxHash ref).isOk = true ∧ ref.toLower = h) ↔
        ∃ tx ∈ frontier, QueryStep events tx h := by
    constructor
    · rintro ⟨ref, hmem, hvalid, rfl⟩
      obtain ⟨row, hrow, href⟩ := List.mem_flatMap.mp hmem
      obtain ⟨hmem, htx⟩ := mem_frontierRows.mp hrow
      exact ⟨row.txHash, htx, row, hmem, rfl, ref, mem_collectTxRefs_iff.mp href, hvalid, rfl⟩
    · rintro ⟨tx, htx, row, hrow, rfl, ref, href, hvalid, rfl⟩
      refine ⟨ref, List.mem_flatMap.mpr ⟨row, ?_, mem_collectTxRefs_iff.mpr href⟩, hvalid, rfl⟩
      exact mem_frontierRows.mpr ⟨hrow, htx⟩
  have hfold : next = (rows.flatMap (collectTxRefs ·.eventData)).foldl addRef ([], seen) := rfl
  have hfirst (h : String) : h ∈ next.1 ↔ h ∉ seen ∧ ∃ tx ∈ frontier, QueryStep events tx h := by
    rw [hfold, mem_foldl_addRef.1, href]
    simp
  refine ⟨Set.ext hfirst, Set.ext fun h => ?_⟩
  show h ∈ next.2 ↔ h ∈ seen ∨ h ∈ next.1
  rw [hfirst, hfold, mem_foldl_addRef.2, href]
  tauto

/-- The rows of the frontier first, and then the others. -/
theorem perm_frontierRows {keep : EventRow → Bool}
    (hkeep : ∀ row : EventRow, row.txHash ∈ frontier → keep row = true) :
    (latestFirst (events.filter (frontier.contains ·.txHash)) ++
        events.filter fun row => !frontier.contains row.txHash && keep row).Perm
      (events.filter keep) := by
  have hsplit := List.filter_append_perm (fun row : EventRow => frontier.contains row.txHash)
    (events.filter keep)
  rw [List.filter_filter, List.filter_filter] at hsplit
  refine List.Perm.trans (.append_right _ ((Keyset.perm_sortOn _ _).trans ?_)) hsplit
  refine .of_eq (List.filter_congr fun row _ => ?_)
  cases hc : frontier.contains row.txHash with
  | false => rfl
  | true => rw [hkeep row (List.contains_iff_mem.mp hc), Bool.and_self]

/-- The rows that are still to come. -/
def Ahead (events : List EventRow) (seen frontier : List String) (depth : ℕ) (row : EventRow) :
    Prop :=
  Within (QueryStep events) {h | h ∈ seen} depth row.txHash ∧
    (row.txHash ∈ seen → row.txHash ∈ frontier)

theorem not_ahead_nil {depth : ℕ} {row : EventRow}
    (hfr : Frontier (QueryStep events) {h | h ∈ seen} {h | h ∈ ([] : List String)}) :
    ¬Ahead events seen [] depth row := by
  rintro ⟨hwithin, hmem⟩
  have hclosed : Frontier (QueryStep events) {h | h ∈ seen} ∅ := by simpa using hfr
  exact List.not_mem_nil (hmem (hclosed.within_empty.mp hwithin))

/-- The loop returns the rows that are ahead of it. -/
theorem relatedEvents_perm {depth : ℕ} {keep : EventRow → Bool}
    (hfr : Frontier (QueryStep events) {h | h ∈ seen} {h | h ∈ frontier})
    (hkeep : ∀ row, keep row = true ↔ Ahead events seen frontier depth row) :
    (relatedEvents events depth frontier seen).Perm (events.filter keep) := by
  induction depth generalizing frontier seen keep with
  | zero =>  -- without depth only the rows of the frontier itself are ahead
    have hsub : ∀ h ∈ frontier, h ∈ seen := hfr.subset
    have hall : events.filter (frontier.contains ·.txHash) = events.filter keep := by
      refine List.filter_congr fun row _ => Bool.eq_iff_iff.mpr ?_
      rw [List.contains_iff_mem, hkeep, Ahead, Reach.within_zero]
      exact ⟨fun h => ⟨hsub _ h, fun _ => h⟩, fun h => h.2 h.1⟩
    rw [relatedEvents, ← hall]
    split
    · next hempty =>
      rw [hempty]
      simp
    · exact Keyset.perm_sortOn _ _
  | succ depth ih =>
    have hsub : ∀ h ∈ frontier, h ∈ seen := hfr.subset
    rw [relatedEvents]
    split
    · -- nothing new was found, and nothing is ahead
      next hempty =>
      subst hempty
      rw [List.filter_eq_nil_iff.mpr fun row _ hrow => not_ahead_nil hfr ((hkeep row).mp hrow)]
    · -- the frontier's rows, then those ahead of the next frontier
      obtain ⟨hnext, hseen⟩ := @mem_nextFrontier seen frontier events
      have hfrontier (row : EventRow) (h : row.txHash ∈ frontier) : keep row = true :=
        (hkeep row).mpr ⟨.start _ (hsub _ h), fun _ => h⟩
      refine List.Perm.trans (.append_left _ (ih ?_ fun row => ?_)) (perm_frontierRows hfrontier)
      · rw [hseen, hnext]
        exact hfr.next
      · have hafter := Set.ext_iff.mp hseen row.txHash
        have hnew := Set.ext_iff.mp hnext row.txHash
        have hunseen := hsub row.txHash
        simp only [Set.mem_ofPred_eq, Set.mem_union, Reach.next] at hafter hnew
        rw [Bool.and_eq_true, Bool.not_eq_true', ← Bool.not_eq_true, List.contains_iff_mem, hkeep,
          Ahead, Ahead, hfr.within_succ, ← hnext, ← hseen]
        tauto

/-! ### The answer -/

variable {txHash root : String} {depth : Option ℕ} {data : List EventRow} {d : ℕ}

theorem getRelatedEventsByTx_eq (hvalid : (validateTxHash txHash).isOk = true)
    (hdepth : depth.getD 1 ≤ 3) :
    getRelatedEventsByTx txHash depth events =
      .ok (relatedEvents events (depth.getD 1) [txHash.toLower] [txHash.toLower]) := by
  have hroot : validateTxHash txHash.toLower = .ok () := by
    have hok := validateTxHash_toLower.mpr hvalid
    rw [validateTxHash] at hok ⊢
    split at hok
    · cases hok
    · next hgood => rw [if_neg hgood]
  unfold getRelatedEventsByTx
  dsimp only
  rw [hroot, decide_eq_false (Nat.not_lt.mpr hdepth)]
  rfl

/-- The answer is the rows that the query steps reach. -/
theorem relatedEvents_root {keep : EventRow → Bool}
    (hkeep : ∀ row, keep row = true ↔ Within (QueryStep events) {root} d row.txHash) :
    (relatedEvents events d [root] [root]).Perm (events.filter keep) := by
  have hset : {h | h ∈ [root]} = ({root} : Set String) := by
    ext h
    exact List.mem_singleton
  apply relatedEvents_perm
  · exact .start _ _
  · intro row
    rw [hkeep, Ahead, hset]
    exact ⟨fun h => ⟨h, id⟩, And.left⟩

/-- Whatever the query steps reach is in lower case. -/
theorem toLower_of_within (h : Within (QueryStep events) {txHash.toLower} d root) :
    root.toLower = root := by
  cases h with
  | start _ hroot =>
    rw [Set.mem_singleton_iff.mp hroot]
    exact toLower_toLower
  | step _ hr =>
    obtain ⟨_, -, -, ref, -, -, rfl⟩ := hr
    exact toLower_toLower

theorem refStep_of_queryStep {tx tx' : String} (htx : tx.toLower = tx)
    (h : QueryStep events tx tx') : RefStep events tx tx' := by
  obtain ⟨row, hrow, rfl, hrefers⟩ := h
  exact ⟨row, hrow, htx, hrefers⟩

/-- The answer is exact if the rows it should have are stored by the lowercase hash, and only then. -/
theorem relatedEvents_exact_iff :
    ExactlyRelated events txHash.toLower d
        (relatedEvents events d [txHash.toLower] [txHash.toLower]) ↔
      ∀ row ∈ events, Related events txHash.toLower d row → row.txHash = row.transaction := by
  classical
  have hperm := @relatedEvents_root events txHash.toLower d
    (fun row => decide (Within (QueryStep events) {txHash.toLower} d row.txHash))
    fun row => decide_eq_true_iff
  constructor
  · rintro ⟨keep, hkeep, hdata⟩ row hrow hrelated
    have hmem : row ∈ events.filter keep := List.mem_filter.mpr ⟨hrow, (hkeep row hrow).mpr hrelated⟩
    have hreached := (List.mem_filter.mp (hperm.mem_iff.mp (hdata.mem_iff.mpr hmem))).2
    exact (toLower_of_within (of_decide_eq_true hreached)).symm
  · intro hlower
    refine ⟨_, fun row hrow => ?_, hperm⟩
    rw [decide_eq_true_iff, Related]
    constructor
    · intro h
      rw [EventRow.transaction, toLower_of_within h]
      exact h.of_imp (fun _ _ ha => refStep_of_queryStep (toLower_of_within ha)) (Nat.le_refl d)
    · intro h
      rw [hlower row hrow h]
      refine h.of_imp (fun tx tx' ha hr => ?_) (Nat.le_refl d)
      obtain ⟨row', hrow', rfl, hrefers⟩ := hr
      exact ⟨row', hrow', hlower row' hrow' ha, hrefers⟩

/-- The handler answers every valid request, and with exactly the related events if none of them is
    stored with an uppercase hash, and only then. -/
theorem getRelatedEventsByTx_exact_iff (events : List EventRow)
    (hvalid : (validateTxHash txHash).isOk = true) (hdepth : depth.getD 1 ≤ 3) :
    ∃ data, getRelatedEventsByTx txHash depth events = .ok data ∧
      (ExactlyRelated events txHash.toLower (depth.getD 1) data ↔
        ∀ row ∈ events, Related events txHash.toLower (depth.getD 1) row →
          row.txHash = row.transaction) :=
  ⟨_, getRelatedEventsByTx_eq hvalid hdepth, relatedEvents_exact_iff⟩

end

/-! ### A cycle, and a hash in upper case -/

/-- The hash of 64 times the same digit. -/
def hashOf (digit : Char) : String := String.ofList (List.replicate 64 digit)

theorem toLower_hashOf {digit : Char} : (hashOf digit).toLower = hashOf digit.toLower := by
  rw [← String.toList_inj, hashOf, hashOf, String.toLower, String.toList_map, String.toList_ofList,
    String.toList_ofList, List.map_replicate]

def eventOf (id : Uuid) (txHash : String) (eventData : Value) : EventRow where
  id
  contractId := "CDLZFC3SYJYDZT7K67VZ75HPJVIEUVNIXF47ZG2FB2RMQQVU2HHGCYSC"
  eventType := "contract"
  txHash
  ledger := 12
  timestamp := 0
  eventData
  createdAt := 0

/-- Two transactions that refer to each other, one of them in upper case. -/
def cycle : List EventRow :=
  [eventOf 1 (hashOf 'a') (.object [("child_tx_hash", .string (hashOf 'B'))]),
    eventOf 2 (hashOf 'b') (.array [.object [("parent_tx_hash", .string (hashOf 'a'))]])]

theorem getRelatedEventsByTx_cycle :
    ∃ data, getRelatedEventsByTx (hashOf 'A') (some 3) cycle = .ok data ∧
      ExactlyRelated cycle (hashOf 'A').toLower 3 data := by
  have hvalid : (validateTxHash (hashOf 'A')).isOk = true := by decide +kernel
  have hdepth : (some 3).getD 1 ≤ 3 := Nat.le_refl 3
  obtain ⟨data, hdata, hiff⟩ := getRelatedEventsByTx_exact_iff cycle hvalid hdepth
  refine ⟨data, hdata, hiff.mpr ?_⟩
  have hlower : ∀ row ∈ cycle, row.txHash = row.transaction := by
    simp [cycle, eventOf, EventRow.transaction, toLower_hashOf]
  exact fun row hrow _ => hlower row hrow

/-- An event that is stored with an uppercase hash is not found, not even by that hash. -/
theorem getRelatedEventsByTx_not_exact :
    ∃ data, getRelatedEventsByTx (hashOf 'A') (some 0) [eventOf 1 (hashOf 'A') .null] = .ok data ∧
      ¬ExactlyRelated [eventOf 1 (hashOf 'A') .null] (hashOf 'A').toLower 0 data := by
  refine ⟨_, getRelatedEventsByTx_eq (by decide +kernel) (by decide), ?_⟩
  rw [Option.getD_some, relatedEvents_exact_iff]
  intro h
  have hlower : hashOf 'A' = (hashOf 'A').toLower := h _ List.mem_cons_self (.start 0 rfl)
  rw [toLower_hashOf] at hlower
  exact absurd (String.ofList_injective hlower) (by decide)

end SorobanPulse.Events
