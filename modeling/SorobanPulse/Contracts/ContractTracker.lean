import SorobanPulse.Lib.Coalesce
import SorobanPulse.Xdr.ScvalFormat

/-! The deployment tracker: `parse` decodes a deployment from a stored system event and `record` upserts
    it into the `contracts` table, one row per contract.

    Live indexing and backfill feed the same table, so deployments of one contract arrive in any
    order of their ledgers. The upsert takes `updated_*` from the largest ledger, the deployer and
    the `deployed_*` columns from whoever offers them, and the hash by two differently ordered
    COALESCEs: the newest offer when the ledger is not below the row's, the oldest one otherwise.

        ledgers        1: hash A    2: hash B    3: no hash
        order 1 2 3    A            B            B
        order 3 1 2    -            A            A

    `orderIndependent_iff` says exactly which deployments converge. -/

namespace SorobanPulse.Contracts
open Lib Xdr

inductive DeploymentKind where
  | created
  | updated
  deriving DecidableEq, Repr

/-- A deployment or upgrade decoded from a system event. -/
structure Deployment where
  kind : DeploymentKind
  contractId : String
  /-- Only known for `Created` events. -/
  deployer : Option String
  /-- Hex-encoded WASM hash, when the event carries one. -/
  wasmHash : Option String
  deriving DecidableEq, Repr

/-! ### Decoding -/

def kindFromName (name : String) : Option DeploymentKind :=
  let normalized := String.ofList ((name.toList.filter (· ≠ '_')).map Char.toLower)
  if normalized ∈ ["contractcreated", "contractdeployed"] then some .created
  else if normalized ∈ ["contractupdated", "contractupgraded", "executableupdate"] then some .updated
  else none

def text : ScVal → Option String
  | .symbol s => fromUtf8 s
  | .string s => fromUtf8 s
  | _ => none

def address : ScVal → Option String
  | .address a => some a.strkey
  | _ => none

def mapGet (v : Option ScVal) (keys : List String) : Option ScVal :=
  match v with
  | some (.map (some entries)) =>
    (entries.find? fun e => (text e.1).any (· ∈ keys)).map (·.2)
  | _ => none

mutual
/-- The hex of every WASM hash inside the value, in order. -/
def collectHashes : ScVal → List String
  | .bytes b => if b.length = 32 then [hexEncode b] else []
  | .contractInstance executable _ =>
    match executable with
    | .wasm h => [hexEncode h.1]
    | .stellarAsset => []
  | .vec (some items) => collectHashesVec items
  | .map (some entries) => collectHashesMap entries
  | _ => []

def collectHashesVec : List ScVal → List String
  | [] => []
  | v :: rest => collectHashes v ++ collectHashesVec rest

def collectHashesMap : List (ScVal × ScVal) → List String
  | [] => []
  | (_, v) :: rest => collectHashes v ++ collectHashesMap rest
end

/-- Decode a deployment from a stored event; `none` for anything else. -/
def parse (codec : XdrCodec) (contractId eventType : String) (topics : List Value) (value : Value) :
    Option Deployment :=
  if eventType ≠ "system" then none
  else
    match topics.filterMap codec.parseStored with
    | [] => none
    | first :: rest =>
      ((text first).bind kindFromName).map fun kind =>
        let data := codec.parseStored value
        let target := ((mapGet data ["contract", "contract_id"]).bind address).getD contractId
        let deployer :=
          if kind = .created then
            ((mapGet data ["deployer", "creator"]).bind address).or
              ((rest.filterMap address).find? (· ≠ target))
          else none
        -- an explicit field wins; otherwise the last hash seen is the new one
        let wasmHash :=
          ((mapGet data ["wasm_hash", "new_wasm_hash", "new_executable", "executable"]).bind
            fun v => (collectHashes v).getLast?).or
          (rest.flatMap collectHashes ++ (data.toList.flatMap collectHashes)).getLast?
        { kind, contractId := target, deployer, wasmHash }

/-! ### The table -/

/-- A row of `contracts`; `updated_at` and `updated_ledger` are `NOT NULL`. -/
structure ContractRow where
  contractId : String
  deployer : Option String
  wasmHash : Option String
  deployedAt : Option ℤ
  deployedLedger : Option ℤ
  deployTxHash : Option String
  updatedAt : ℤ
  updatedLedger : ℤ
  deriving DecidableEq, Repr

/-- The rows by their primary key. -/
def ContractsTable := String → Option ContractRow

def ContractsTable.empty : ContractsTable := fun _ => none

/-- The arguments of one call of `record`. -/
structure Recording where
  deployment : Deployment
  ledger : ℤ
  recordedAt : ℤ
  txHash : String
  deriving DecidableEq, Repr

/-- `created.then_some(x)`. -/
def Recording.whenCreated {α : Type} (r : Recording) (x : α) : Option α :=
  if r.deployment.kind = .created then some x else none

def Recording.deployedAt (r : Recording) : Option ℤ := r.whenCreated r.recordedAt
def Recording.deployedLedger (r : Recording) : Option ℤ := r.whenCreated r.ledger
def Recording.deployTxHash (r : Recording) : Option String := r.whenCreated r.txHash

/-- The row of the `VALUES` list. -/
def Recording.excluded (r : Recording) : ContractRow where
  contractId := r.deployment.contractId
  deployer := r.deployment.deployer
  wasmHash := r.deployment.wasmHash
  deployedAt := r.deployedAt
  deployedLedger := r.deployedLedger
  deployTxHash := r.deployTxHash
  updatedAt := r.recordedAt
  updatedLedger := r.ledger

/-- `ON CONFLICT (contract_id) DO UPDATE SET …`. -/
def ContractRow.update (c excluded : ContractRow) : ContractRow where
  contractId := c.contractId
  deployer := excluded.deployer.or c.deployer
  deployedAt := excluded.deployedAt.or c.deployedAt
  deployedLedger := excluded.deployedLedger.or c.deployedLedger
  deployTxHash := excluded.deployTxHash.or c.deployTxHash
  wasmHash :=
    if c.updatedLedger ≤ excluded.updatedLedger then excluded.wasmHash.or c.wasmHash
    else c.wasmHash.or excluded.wasmHash
  updatedAt := if c.updatedLedger ≤ excluded.updatedLedger then excluded.updatedAt else c.updatedAt
  updatedLedger := max c.updatedLedger excluded.updatedLedger

/-- Upsert a deployment; the flag says that the contract was not tracked before. -/
def record (contracts : ContractsTable) (r : Recording) : ContractsTable × Bool :=
  match contracts r.deployment.contractId with
  | none => (Function.update contracts r.deployment.contractId (some r.excluded), true)
  | some c => (Function.update contracts r.deployment.contractId (some (c.update r.excluded)), false)

/-- One call after the other, from an empty table. -/
def recordAll (rs : List Recording) : ContractsTable :=
  rs.foldl (fun contracts r => (record contracts r).1) .empty

/-- A first deployment inserts its row. -/
theorem record_untracked {contracts : ContractsTable} {r : Recording} {contractId : String}
    (hr : r.deployment.contractId = contractId) (h : contracts contractId = none) :
    (record contracts r).1 contractId = some r.excluded := by
  rw [record, hr, h]; exact Function.update_self ..

/-- A later one updates it. -/
theorem record_tracked {contracts : ContractsTable} {r : Recording} {contractId : String}
    {row : ContractRow} (hr : r.deployment.contractId = contractId)
    (h : contracts contractId = some row) :
    (record contracts r).1 contractId = some (row.update r.excluded) := by
  rw [record, hr, h]; exact Function.update_self ..

theorem recordAll_concat (rs : List Recording) (r : Recording) :
    recordAll (rs ++ [r]) = (record (recordAll rs) r).1 := by
  rw [recordAll, List.foldl_append]; rfl

/-! ### What the row says about the deployments recorded so far -/

section
variable {contractId : String} {rs : List Recording} {row : ContractRow}

/-- Every column in terms of the deployments recorded, whatever their order. -/
structure Summary (contractId : String) (rs : List Recording) (row : ContractRow) : Prop where
  key : row.contractId = contractId
  latest : ∃ r ∈ rs, row.updatedLedger = r.ledger ∧ row.updatedAt = r.recordedAt ∧
    ∀ r' ∈ rs, r'.ledger ≤ r.ledger
  deployer : Picks (·.deployment.deployer) rs row.deployer
  wasmHash : Picks (·.deployment.wasmHash) rs row.wasmHash
  deployedAt : Picks Recording.deployedAt rs row.deployedAt
  deployedLedger : Picks Recording.deployedLedger rs row.deployedLedger
  deployTxHash : Picks Recording.deployTxHash rs row.deployTxHash

theorem summary_excluded (r : Recording) : Summary r.deployment.contractId [r] r.excluded where
  key := rfl
  latest := ⟨r, List.mem_singleton.mpr rfl, rfl, rfl, fun r' h => by
    obtain rfl := List.mem_singleton.mp h
    exact Int.le_refl _⟩
  deployer := by simpa [Recording.excluded] using Picks.nil.newest r
  wasmHash := by simpa [Recording.excluded] using Picks.nil.newest r
  deployedAt := by simpa [Recording.excluded] using Picks.nil.newest r
  deployedLedger := by simpa [Recording.excluded] using Picks.nil.newest r
  deployTxHash := by simpa [Recording.excluded] using Picks.nil.newest r

theorem Summary.update (h : Summary contractId rs row) (r : Recording) :
    Summary contractId (rs ++ [r]) (row.update r.excluded) where
  key := h.key
  latest := by
    obtain ⟨m, hm, hledger, hat, hmax⟩ := h.latest
    rcases Int.lt_or_le r.ledger row.updatedLedger with hlt | hle
    · -- an older ledger leaves the row's own maximum in place
      refine ⟨m, List.mem_append_left _ hm, ?_, ?_, fun r' hr' => ?_⟩
      · exact (Int.max_eq_left (Int.le_of_lt hlt)).trans hledger
      · exact (if_neg (Int.not_le.mpr hlt)).trans hat
      · rcases List.mem_append.mp hr' with hr' | hr'
        · exact hmax r' hr'
        · rw [List.mem_singleton.mp hr', ← hledger]; exact Int.le_of_lt hlt
    · refine ⟨r, List.mem_append_right _ (List.mem_singleton.mpr rfl), ?_, ?_, fun r' hr' => ?_⟩
      · exact Int.max_eq_right hle
      · exact if_pos hle
      · rcases List.mem_append.mp hr' with hr' | hr'
        · exact Int.le_trans (hmax r' hr') (hledger ▸ hle)
        · obtain rfl := List.mem_singleton.mp hr'
          exact Int.le_refl _
  deployer := h.deployer.newest r
  wasmHash := by
    rw [ContractRow.update]
    split
    · exact h.wasmHash.newest r
    · exact h.wasmHash.oldest r
  deployedAt := h.deployedAt.newest r
  deployedLedger := h.deployedLedger.newest r
  deployTxHash := h.deployTxHash.newest r

/-- The row of the contract summarises its deployments; there is none before the first one. -/
theorem recordAll_summary (hid : ∀ r ∈ rs, r.deployment.contractId = contractId) :
    (rs = [] ∧ recordAll rs contractId = none) ∨
      ∃ row, recordAll rs contractId = some row ∧ Summary contractId rs row := by
  induction rs using List.reverseRecOn with
  | nil => exact .inl ⟨rfl, rfl⟩
  | append_singleton rs r ih =>
    right
    have hr : r.deployment.contractId = contractId :=
      hid r (List.mem_append_right _ (List.mem_singleton.mpr rfl))
    rw [recordAll_concat]
    rcases ih fun r' h => hid r' (List.mem_append_left _ h) with ⟨rfl, hnone⟩ | ⟨row, hsome, hsum⟩
    · exact ⟨r.excluded, record_untracked hr hnone, hr ▸ summary_excluded r⟩
    · exact ⟨row.update r.excluded, record_tracked hr hsome, hsum.update r⟩

/-! ### Convergence -/

/-- The deployments of one contract, at distinct ledgers, at most one of them a creation. -/
structure DeploymentSet (contractId : String) (rs : List Recording) : Prop where
  contract : ∀ r ∈ rs, r.deployment.contractId = contractId
  ledgers : (rs.map (·.ledger)).Nodup
  created : ∀ r ∈ rs, ∀ r' ∈ rs, r.deployment.kind = .created → r'.deployment.kind = .created → r = r'

/-- Any two orders of recording give the same row. -/
def OrderIndependent (contractId : String) (rs : List Recording) : Prop :=
  ∀ l₁ l₂ : List Recording, l₁.Perm rs → l₂.Perm rs → recordAll l₁ contractId = recordAll l₂ contractId

/-- The deployers carried agree, and so do the hashes unless the largest ledger carries one. -/
def Converges (rs : List Recording) : Prop :=
  Agree (·.deployment.deployer) rs ∧
    (Agree (·.deployment.wasmHash) rs ∨
      ∃ m ∈ rs, m.deployment.wasmHash.isSome ∧ ∀ r ∈ rs, r.ledger ≤ m.ledger)

theorem DeploymentSet.eq_of_ledger (h : DeploymentSet contractId rs) {r r' : Recording}
    (hr : r ∈ rs) (hr' : r' ∈ rs) (heq : r.ledger = r'.ledger) : r = r' :=
  List.inj_on_of_nodup_map h.ledgers hr hr' heq

theorem DeploymentSet.perm (h : DeploymentSet contractId rs) {l : List Recording} (hl : l.Perm rs) :
    DeploymentSet contractId l where
  contract r hr := h.contract r (hl.mem_iff.mp hr)
  ledgers := (hl.map _).nodup_iff.mpr h.ledgers
  created r hr r' hr' := h.created r (hl.mem_iff.mp hr) r' (hl.mem_iff.mp hr')

/-- Without the last deployment: a smaller set, none of whose ledgers is the last one's. -/
theorem DeploymentSet.init {r : Recording} (h : DeploymentSet contractId (rs ++ [r])) :
    DeploymentSet contractId rs ∧ ∀ r' ∈ rs, r'.ledger ≠ r.ledger := by
  have hnodup := h.ledgers
  rw [List.map_append, List.nodup_append] at hnodup
  obtain ⟨hrs, -, hne⟩ := hnodup
  refine ⟨⟨fun r' h' => h.contract r' (List.mem_append_left _ h'), hrs,
    fun r₁ h₁ r₂ h₂ => h.created r₁ (List.mem_append_left _ h₁) r₂ (List.mem_append_left _ h₂)⟩,
    fun r' h' => ?_⟩
  exact hne r'.ledger (List.mem_map_of_mem h') r.ledger (List.mem_singleton.mpr rfl)

/-- At most one creation: whatever creations offer agrees. -/
theorem DeploymentSet.agree_whenCreated (h : DeploymentSet contractId rs) {α : Type}
    (f : Recording → α) : Agree (fun r => r.whenCreated (f r)) rs := by
  intro r hr r' hr' hs hs'
  have hkind : ∀ {r : Recording}, (r.whenCreated (f r)).isSome → r.deployment.kind = .created := by
    intro r hs
    by_contra hne
    rw [Recording.whenCreated, if_neg hne] at hs
    cases hs
  rw [h.created r hr r' hr' (hkind hs) (hkind hs')]

/-- Once the largest ledger has brought a hash, the row keeps it. -/
theorem recordAll_wasmHash_max (h : DeploymentSet contractId rs) {m : Recording} (hm : m ∈ rs)
    (hsome : m.deployment.wasmHash.isSome) (hmax : ∀ r ∈ rs, r.ledger ≤ m.ledger) :
    ∃ row, recordAll rs contractId = some row ∧ row.wasmHash = m.deployment.wasmHash := by
  obtain ⟨hash, hhash⟩ := Option.isSome_iff_exists.mp hsome
  induction rs using List.reverseRecOn with
  | nil => exact absurd hm List.not_mem_nil
  | append_singleton rs r ih =>
    obtain ⟨hrs, hne⟩ := h.init
    have hr : r ∈ rs ++ [r] := List.mem_append_right _ (List.mem_singleton.mpr rfl)
    rw [recordAll_concat]
    rcases recordAll_summary hrs.contract with ⟨rfl, hnone⟩ | ⟨row, hrow, hsum⟩
    · obtain rfl := List.mem_singleton.mp hm
      exact ⟨m.excluded, record_untracked (h.contract m hr) hnone, rfl⟩
    · refine ⟨row.update r.excluded, record_tracked (h.contract r hr) hrow, ?_⟩
      obtain ⟨last, hlast, hledger, -, hall⟩ := hsum.latest
      rcases List.mem_append.mp hm with hm | hm
      · -- the row already carries the hash and the largest ledger
        obtain ⟨row', hrow', hwasm⟩ := ih hrs hm fun r' h' => hmax r' (List.mem_append_left _ h')
        obtain rfl : row = row' := Option.some.inj (hrow ▸ hrow')
        have hlt : ¬ row.updatedLedger ≤ r.ledger := by
          intro hle
          exact hne m hm (Int.le_antisymm (Int.le_trans (hledger ▸ hall m hm) hle) (hmax r hr))
        rw [ContractRow.update]
        exact (if_neg hlt).trans (by rw [hwasm, hhash]; rfl)
      · obtain rfl := List.mem_singleton.mp hm
        rw [ContractRow.update]
        have hle : row.updatedLedger ≤ m.ledger :=
          hledger ▸ hmax last (List.mem_append_left _ hlast)
        exact (if_pos hle).trans (by rw [Recording.excluded, hhash]; rfl)

/-- After a first deployment at the largest ledger and without a hash, the next hash is kept. -/
theorem foldl_wasmHash_first {row : ContractRow} {contracts : ContractsTable} {hash : String}
    (hid : ∀ r ∈ rs, r.deployment.contractId = contractId) (hrow : contracts contractId = some row)
    (hwasm : row.wasmHash = some hash) (hlt : ∀ r ∈ rs, r.ledger < row.updatedLedger) :
    ∃ row', rs.foldl (fun contracts r => (record contracts r).1) contracts contractId = some row' ∧
      row'.wasmHash = some hash := by
  induction rs generalizing row contracts with
  | nil => exact ⟨row, hrow, hwasm⟩
  | cons r rs ih =>
    have hr : r ∈ r :: rs := List.mem_cons_self
    have hold : ¬ row.updatedLedger ≤ r.ledger := Int.not_le.mpr (hlt r hr)
    rw [List.foldl_cons]
    refine ih (fun r' h => hid r' (List.mem_cons_of_mem _ h)) (record_tracked (hid r hr) hrow)
      ((if_neg hold).trans (by rw [hwasm]; rfl)) fun r' h => ?_
    exact Int.lt_of_lt_of_le (hlt r' (List.mem_cons_of_mem _ h)) (Int.le_max_left ..)

/-- The deployment recorded last leaves its deployer. -/
theorem exists_order_deployer (h : DeploymentSet contractId rs) {r : Recording} (hr : r ∈ rs)
    (hsome : r.deployment.deployer.isSome) :
    ∃ l : List Recording, l.Perm rs ∧
      ∃ row, recordAll l contractId = some row ∧ row.deployer = r.deployment.deployer := by
  obtain ⟨deployer, hdep⟩ := Option.isSome_iff_exists.mp hsome
  refine ⟨rs.erase r ++ [r], (List.perm_append_comm).trans (List.perm_cons_erase hr).symm, ?_⟩
  rw [recordAll_concat]
  rcases hrow : recordAll (rs.erase r) contractId with _ | row
  · exact ⟨r.excluded, record_untracked (h.contract r hr) hrow, rfl⟩
  · refine ⟨row.update r.excluded, record_tracked (h.contract r hr) hrow, ?_⟩
    rw [ContractRow.update, Recording.excluded, hdep]; rfl

/-- Recorded right after the largest ledger, which has no hash, any hash stays in the row. -/
theorem exists_order_wasmHash (h : DeploymentSet contractId rs) {m r : Recording} (hm : m ∈ rs)
    (hnone : m.deployment.wasmHash = none) (hmax : ∀ r ∈ rs, r.ledger ≤ m.ledger) (hr : r ∈ rs)
    (hsome : r.deployment.wasmHash.isSome) :
    ∃ l : List Recording, l.Perm rs ∧
      ∃ row, recordAll l contractId = some row ∧ row.wasmHash = r.deployment.wasmHash := by
  obtain ⟨hash, hhash⟩ := Option.isSome_iff_exists.mp hsome
  have hne : r ≠ m := by
    rintro rfl
    rw [hnone] at hhash; cases hhash
  have hperm : (m :: r :: (rs.erase m).erase r).Perm rs :=
    ((List.perm_cons_erase ((List.mem_erase_of_ne hne).mpr hr)).symm.cons m).trans
      (List.perm_cons_erase hm).symm
  refine ⟨_, hperm, ?_⟩
  have hset := h.perm hperm
  have hlt : ∀ r' ∈ r :: (rs.erase m).erase r, r'.ledger < m.ledger := by
    intro r' hr'
    have hmem : r' ∈ rs := hperm.mem_iff.mp (List.mem_cons_of_mem _ hr')
    refine Int.lt_iff_le_and_ne.mpr ⟨hmax r' hmem, fun heq => ?_⟩
    have hnodup := hset.ledgers
    rw [List.map_cons, List.nodup_cons] at hnodup
    exact hnodup.1 (heq ▸ List.mem_map_of_mem hr')
  have hfirst : (record .empty m).1 contractId = some m.excluded :=
    record_untracked (h.contract m hm) rfl
  rw [hhash, recordAll, List.foldl_cons, List.foldl_cons]
  refine foldl_wasmHash_first (fun r' hr' => hset.contract r'
    (List.mem_cons_of_mem _ (List.mem_cons_of_mem _ hr'))) (record_tracked (h.contract r hr) hfirst)
    ?_ fun r' hr' => ?_
  · rw [ContractRow.update]
    refine (if_neg (Int.not_le.mpr (hlt r List.mem_cons_self))).trans ?_
    rw [Recording.excluded, hnone, Option.none_or]; exact hhash
  · exact Int.lt_of_lt_of_le (hlt r' (List.mem_cons_of_mem _ hr')) (Int.le_max_left ..)

theorem Summary.perm {l : List Recording} (hl : l.Perm rs) (h : Summary contractId l row) :
    Summary contractId rs row where
  key := h.key
  latest := by
    obtain ⟨m, hm, hledger, hat, hmax⟩ := h.latest
    exact ⟨m, hl.mem_iff.mp hm, hledger, hat, fun r hr => hmax r (hl.mem_iff.mpr hr)⟩
  deployer := h.deployer.congr fun _ => hl.mem_iff
  wasmHash := h.wasmHash.congr fun _ => hl.mem_iff
  deployedAt := h.deployedAt.congr fun _ => hl.mem_iff
  deployedLedger := h.deployedLedger.congr fun _ => hl.mem_iff
  deployTxHash := h.deployTxHash.congr fun _ => hl.mem_iff

/-- Two rows that summarise the same deployments differ in the deployer and the hash at most. -/
theorem Summary.unique {row' : ContractRow} (hset : DeploymentSet contractId rs)
    (h : Summary contractId rs row) (h' : Summary contractId rs row')
    (hdep : row.deployer = row'.deployer) (hwasm : row.wasmHash = row'.wasmHash) : row = row' := by
  obtain ⟨m, hm, hledger, hat, hmax⟩ := h.latest
  obtain ⟨m', hm', hledger', hat', hmax'⟩ := h'.latest
  obtain rfl : m = m' :=
    hset.eq_of_ledger hm hm' (Int.le_antisymm (hmax' m hm) (hmax m' hm'))
  cases row
  cases row'
  congr 1
  · exact h.key.trans h'.key.symm
  · exact h.deployedAt.unique (hset.agree_whenCreated _) h'.deployedAt
  · exact h.deployedLedger.unique (hset.agree_whenCreated _) h'.deployedLedger
  · exact h.deployTxHash.unique (hset.agree_whenCreated _) h'.deployTxHash
  · exact hat.trans hat'.symm
  · exact hledger.trans hledger'.symm

theorem Converges.of_orderIndependent (hset : DeploymentSet contractId rs)
    (h : OrderIndependent contractId rs) : Converges rs := by
  refine ⟨fun r hr r' hr' hs hs' => ?_, ?_⟩
  · obtain ⟨l, hl, row, hrow, hdep⟩ := exists_order_deployer hset hr hs
    obtain ⟨l', hl', row', hrow', hdep'⟩ := exists_order_deployer hset hr' hs'
    obtain rfl : row = row' := Option.some.inj (by rw [← hrow, ← hrow']; exact h l l' hl hl')
    exact hdep.symm.trans hdep'
  · rcases recordAll_summary hset.contract with ⟨rfl, -⟩ | ⟨row, -, hsum⟩
    · exact .inl fun r hr => absurd hr List.not_mem_nil
    · obtain ⟨m, hm, -, -, hmax⟩ := hsum.latest
      rcases hmw : m.deployment.wasmHash with _ | hash
      · refine .inl fun r hr r' hr' hs hs' => ?_
        obtain ⟨l, hl, row, hrow, hw⟩ := exists_order_wasmHash hset hm hmw hmax hr hs
        obtain ⟨l', hl', row', hrow', hw'⟩ := exists_order_wasmHash hset hm hmw hmax hr' hs'
        obtain rfl : row = row' := Option.some.inj (by rw [← hrow, ← hrow']; exact h l l' hl hl')
        exact hw.symm.trans hw'
      · exact .inr ⟨m, hm, by rw [hmw]; rfl, hmax⟩

/-- Every order of the deployments gives a row with the same deployer and the same hash. -/
theorem Converges.orderIndependent (hset : DeploymentSet contractId rs) (h : Converges rs) :
    OrderIndependent contractId rs := by
  intro l₁ l₂ hl₁ hl₂
  obtain ⟨hdep, hwasm⟩ := h
  rcases recordAll_summary (hset.perm hl₁).contract with ⟨rfl, hnone⟩ | ⟨row₁, hrow₁, hsum₁⟩
  · obtain rfl := hl₁.nil_eq
    obtain rfl := hl₂.eq_nil
    rfl
  rcases recordAll_summary (hset.perm hl₂).contract with ⟨rfl, hnone⟩ | ⟨row₂, hrow₂, hsum₂⟩
  · obtain rfl := hl₂.nil_eq
    obtain rfl := hl₁.eq_nil
    rfl
  have h₁ := hsum₁.perm hl₁
  have h₂ := hsum₂.perm hl₂
  rw [hrow₁, hrow₂]
  refine congrArg some (h₁.unique hset h₂ (h₁.deployer.unique hdep h₂.deployer) ?_)
  rcases hwasm with hagree | ⟨m, hm, hsome, hmax⟩
  · exact h₁.wasmHash.unique hagree h₂.wasmHash
  · have hkeeps : ∀ {l : List Recording} {row : ContractRow}, l.Perm rs →
        recordAll l contractId = some row → row.wasmHash = m.deployment.wasmHash := by
      intro l row hl hrow
      obtain ⟨row', hrow', hw⟩ := recordAll_wasmHash_max (hset.perm hl) (hl.mem_iff.mpr hm) hsome
        fun r hr => hmax r (hl.mem_iff.mp hr)
      obtain rfl : row = row' := Option.some.inj (hrow ▸ hrow')
      exact hw
    exact (hkeeps hl₁ hrow₁).trans (hkeeps hl₂ hrow₂).symm

/-- Deployments of one contract at distinct ledgers converge, whatever the order, exactly when the
    deployers they carry agree and the hashes agree or the largest ledger carries one. -/
theorem orderIndependent_iff (contractId : String) (rs : List Recording)
    (hset : DeploymentSet contractId rs) : OrderIndependent contractId rs ↔ Converges rs :=
  ⟨Converges.of_orderIndependent hset, Converges.orderIndependent hset⟩

end

/-- A creation with hash A at ledger 1, an upgrade to hash B at ledger 2. -/
def createdUpdated : List Recording :=
  [⟨⟨.created, "C", some "G", some "A"⟩, 1, 10, "t1"⟩, ⟨⟨.updated, "C", none, some "B"⟩, 2, 20, "t2"⟩]

theorem orderIndependent_createdUpdated : OrderIndependent "C" createdUpdated :=
  (orderIndependent_iff "C" createdUpdated ⟨by decide, by decide, by decide⟩).mpr
    ⟨by simp [createdUpdated, Agree], .inr (by decide)⟩

/-- The same and an upgrade event without a hash at ledger 3. -/
def updatedWithoutHash : List Recording :=
  createdUpdated ++ [⟨⟨.updated, "C", none, none⟩, 3, 30, "t3"⟩]

/-- Not every set of deployments converges: with the third one first, the row keeps hash A. -/
theorem not_orderIndependent_updatedWithoutHash :
    ¬ ∀ (contractId : String) (rs : List Recording),
      DeploymentSet contractId rs → OrderIndependent contractId rs := by
  intro h
  have hsame := h "C" updatedWithoutHash ⟨by decide, by decide, by decide⟩ updatedWithoutHash
    (⟨⟨.updated, "C", none, none⟩, 3, 30, "t3"⟩ :: createdUpdated) (.refl _) (by decide)
  have hhash := congrArg (Option.map ContractRow.wasmHash) hsame
  exact absurd hhash (by decide)

end SorobanPulse.Contracts
