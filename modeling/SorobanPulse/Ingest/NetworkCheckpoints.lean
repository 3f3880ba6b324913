import SorobanPulse.Lib.Run
import Mathlib.Logic.Function.Basic

/-! The checkpoint of several networks in one database.

    `main` starts an indexer for each network target; all of them run their page transactions
    against the same two tables:

        mainnet ──save_checkpoint, save_indexer_state──┐
                                                       ├──▶ row 'singleton' of each table
        testnet ──save_checkpoint, save_indexer_state──┘          │
        either  ◀──load_checkpoint, load_indexer_state────────────┘

    The statements name no chain. A row that a transaction has written stays locked until it ends. -/

namespace SorobanPulse.Ingest
open Lib

abbrev ChainId := String

/-- What a page transaction has written, as it was passed to the two statements. -/
structure PageTransaction where
  cursor : Option String := none
  ledgers : Option (UInt64 × UInt64) := none
  aborted : Bool := false

/-- The two tables by row id, the open transaction of each indexer and, for the record, what the
    committed transactions of each chain saved last. -/
structure NetworksState where
  indexerCheckpoints : String → Option String
  indexerState : String → Option (Int64 × Int64)
  openTx : ChainId → Option PageTransaction
  savedCursor : ChainId → Option String
  savedLedgers : ChainId → Option (UInt64 × UInt64)

inductive NetworkAction where
  | begin (chain : ChainId)
  | saveCheckpoint (chain : ChainId) (cursor : String)
  | saveIndexerState (chain : ChainId) (currentLedger latestLedger : UInt64)
  /-- Another statement of the page fails. -/
  | fail (chain : ChainId)
  | commit (chain : ChainId)
  /-- The indexer's process ends; what it has not committed is rolled back. -/
  | restart (chain : ChainId)

/-- `load_checkpoint` of the indexer for a chain -/
def NetworksState.loadCheckpoint (s : NetworksState) (_chain : ChainId) : Option String :=
  s.indexerCheckpoints "singleton"

/-- `load_indexer_state` of the indexer for a chain -/
def NetworksState.loadIndexerState (s : NetworksState) (_chain : ChainId) :
    Option (UInt64 × UInt64) :=
  (s.indexerState "singleton").map fun (current, latest) => (current.toUInt64, latest.toUInt64)

variable (chains : List ChainId)

/-- Has another indexer's open transaction written the row? -/
def NetworksState.locked (s : NetworksState) (chain : ChainId) (writes : PageTransaction → Bool) :
    Bool :=
  chains.any fun other => other != chain && (s.openTx other).any writes

/-- A statement of an open transaction; after a failed one it has no effect. -/
def NetworksState.write (s : NetworksState) (chain : ChainId) (tx tx' : PageTransaction) :
    NetworksState :=
  if tx.aborted then s else { s with openTx := Function.update s.openTx chain (some tx') }

/-- The rows the transaction wrote replace those of the tables. -/
def NetworksState.apply (s : NetworksState) (chain : ChainId) (tx : PageTransaction) :
    NetworksState where
  indexerCheckpoints :=
    match tx.cursor with
    | some cursor => Function.update s.indexerCheckpoints "singleton" (some cursor)
    | none => s.indexerCheckpoints
  indexerState :=
    match tx.ledgers with
    | some ledgers =>
      Function.update s.indexerState "singleton" (some (ledgers.1.toInt64, ledgers.2.toInt64))
    | none => s.indexerState
  openTx := Function.update s.openTx chain none
  savedCursor :=
    match tx.cursor with
    | some cursor => Function.update s.savedCursor chain (some cursor)
    | none => s.savedCursor
  savedLedgers :=
    match tx.ledgers with
    | some ledgers => Function.update s.savedLedgers chain (some ledgers)
    | none => s.savedLedgers

/-- COMMIT; of an aborted transaction it is a rollback. -/
def NetworksState.commit (s : NetworksState) (chain : ChainId) (tx : PageTransaction) :
    NetworksState :=
  if tx.aborted then { s with openTx := Function.update s.openTx chain none } else s.apply chain tx

def NetworksState.step (s : NetworksState) : NetworkAction → Option NetworksState
  | .begin chain =>
    if chain ∈ chains ∧ (s.openTx chain).isNone then
      some { s with openTx := Function.update s.openTx chain (some {}) }
    else none
  | .saveCheckpoint chain cursor =>
    (s.openTx chain).bind fun tx =>
      if s.locked chains chain (·.cursor.isSome) then none
      else some (s.write chain tx { tx with cursor := some cursor })
  | .saveIndexerState chain currentLedger latestLedger =>
    (s.openTx chain).bind fun tx =>
      if s.locked chains chain (·.ledgers.isSome) then none
      else some (s.write chain tx { tx with ledgers := some (currentLedger, latestLedger) })
  | .fail chain =>
    (s.openTx chain).map fun tx => s.write chain tx { tx with aborted := true }
  | .commit chain => (s.openTx chain).map fun tx => s.commit chain tx
  | .restart chain => some { s with openTx := Function.update s.openTx chain none }

/-! ### Isolation -/

/-- Every indexer would load what its own chain's transactions saved last. -/
def CheckpointsIsolated (s : NetworksState) : Prop :=
  ∀ chain ∈ chains, s.loadCheckpoint chain = s.savedCursor chain ∧
    s.loadIndexerState chain = s.savedLedgers chain

/-- `CheckpointsIsolated` in every state of every run. -/
def NetworksIsolated : Prop :=
  ∀ (s : NetworksState) (actions : List NetworkAction) (t : NetworksState),
    CheckpointsIsolated chains s → AnyRun (NetworksState.step chains) s actions t →
      CheckpointsIsolated chains t

/-- A commit writes what every other chain saved last itself. -/
def Agreed (s : NetworksState) : NetworkAction → Prop
  | .commit chain =>
    ∀ tx ∈ s.openTx chain, tx.aborted = false → ∀ other ∈ chains, other ≠ chain →
      (∀ cursor ∈ tx.cursor, s.savedCursor other = some cursor) ∧
        ∀ ledgers ∈ tx.ledgers, s.savedLedgers other = some ledgers
  | _ => True

section
variable {chains} {s t : NetworksState} {chain : ChainId} {tx : PageTransaction}
  {action : NetworkAction}

/-- What a transaction writes is what every indexer loads. -/
theorem loadCheckpoint_apply (s : NetworksState) (chain other : ChainId) (tx : PageTransaction) :
    (s.apply chain tx).loadCheckpoint other = tx.cursor.or (s.loadCheckpoint other) := by
  rw [NetworksState.loadCheckpoint, NetworksState.apply]
  cases tx.cursor with
  | none => rfl
  | some cursor => exact Function.update_self "singleton" (some cursor) s.indexerCheckpoints

theorem loadIndexerState_apply (s : NetworksState) (chain other : ChainId)
    (tx : PageTransaction) :
    (s.apply chain tx).loadIndexerState other = tx.ledgers.or (s.loadIndexerState other) := by
  rw [NetworksState.loadIndexerState, NetworksState.apply]
  cases tx.ledgers with
  | none => rfl
  | some ledgers => simp

theorem savedCursor_apply (s : NetworksState) (chain other : ChainId) (tx : PageTransaction) :
    (s.apply chain tx).savedCursor other =
      if other = chain then tx.cursor.or (s.savedCursor other) else s.savedCursor other := by
  rw [NetworksState.apply]
  cases tx.cursor with
  | none => simp
  | some cursor => simp [Function.update_apply]

theorem savedLedgers_apply (s : NetworksState) (chain other : ChainId) (tx : PageTransaction) :
    (s.apply chain tx).savedLedgers other =
      if other = chain then tx.ledgers.or (s.savedLedgers other) else s.savedLedgers other := by
  rw [NetworksState.apply]
  cases tx.ledgers with
  | none => simp
  | some ledgers => simp [Function.update_apply]

/-- The tables and the records stay as they are, or an unfailed transaction is applied to them. -/
theorem network_cases (hstep : s.step chains action = some t) :
    (∃ openTx, t = { s with openTx } ∧
      ∀ chain, action = .commit chain → ∀ tx ∈ s.openTx chain, tx.aborted = true) ∨
    ∃ chain tx, action = .commit chain ∧ s.openTx chain = some tx ∧ tx.aborted = false ∧
      t = s.apply chain tx := by
  -- a write changes the open transaction, if it is not aborted already
  have hwrite : ∀ chain tx tx', ∃ openTx, s.write chain tx tx' = { s with openTx } := by
    intro chain tx tx'
    rw [NetworksState.write]
    split
    · exact ⟨s.openTx, rfl⟩
    · exact ⟨_, rfl⟩
  cases action with
  | begin chain =>
    rw [NetworksState.step] at hstep
    split at hstep
    · cases hstep
      exact .inl ⟨_, rfl, by rintro _ ⟨⟩⟩
    · cases hstep
  | saveCheckpoint chain cursor =>
    obtain ⟨tx, _, hstep⟩ := Option.bind_eq_some_iff.mp hstep
    split at hstep
    · cases hstep
    · cases hstep
      obtain ⟨openTx, heq⟩ := hwrite chain tx { tx with cursor := some cursor }
      exact .inl ⟨openTx, heq, by rintro _ ⟨⟩⟩
  | saveIndexerState chain currentLedger latestLedger =>
    obtain ⟨tx, _, hstep⟩ := Option.bind_eq_some_iff.mp hstep
    split at hstep
    · cases hstep
    · cases hstep
      obtain ⟨openTx, heq⟩ := hwrite chain tx { tx with ledgers := some (currentLedger, latestLedger) }
      exact .inl ⟨openTx, heq, by rintro _ ⟨⟩⟩
  | fail chain =>
    obtain ⟨tx, _, rfl⟩ := Option.map_eq_some_iff.mp hstep
    obtain ⟨openTx, heq⟩ := hwrite chain tx { tx with aborted := true }
    exact .inl ⟨openTx, heq, by rintro _ ⟨⟩⟩
  | commit chain =>
    obtain ⟨tx, htx, rfl⟩ := Option.map_eq_some_iff.mp hstep
    rw [NetworksState.commit]
    split
    · -- COMMIT of an aborted transaction rolls it back
      next haborted =>
      refine .inl ⟨_, rfl, ?_⟩
      rintro _ ⟨⟩ tx' htx'
      cases htx.symm.trans htx'
      exact haborted
    · next hlive => exact .inr ⟨chain, tx, rfl, htx, by simpa using hlive, rfl⟩
  | restart chain =>
    cases hstep
    exact .inl ⟨_, rfl, by rintro _ ⟨⟩⟩

/-- A page that commits is loaded by all, and saved for its own chain alone. -/
theorem isolated_apply_iff (hs : CheckpointsIsolated chains s) (htx : s.openTx chain = some tx)
    (hlive : tx.aborted = false) :
    CheckpointsIsolated chains (s.apply chain tx) ↔ Agreed chains s (.commit chain) := by
  constructor
  · intro h tx' htx' _ other hother hne
    cases htx.symm.trans htx'
    obtain ⟨hcursor, hledgers⟩ := h other hother
    rw [loadCheckpoint_apply, savedCursor_apply, if_neg hne] at hcursor
    rw [loadIndexerState_apply, savedLedgers_apply, if_neg hne] at hledgers
    refine ⟨?_, ?_⟩
    · intro cursor hwritten
      rw [← hcursor, Option.mem_def.mp hwritten, Option.some_or]
    · intro ledgers hwritten
      rw [← hledgers, Option.mem_def.mp hwritten, Option.some_or]
  · intro hagreed other hother
    obtain ⟨hcursor, hledgers⟩ := hs other hother
    rw [loadCheckpoint_apply, savedCursor_apply, loadIndexerState_apply, savedLedgers_apply, hcursor,
      hledgers]
    split
    · exact ⟨rfl, rfl⟩
    · next hne =>
      obtain ⟨hsameCursor, hsameLedgers⟩ := hagreed tx htx hlive other hother hne
      refine ⟨?_, ?_⟩
      · cases hwritten : tx.cursor with
        | none => rfl
        | some cursor => rw [hsameCursor cursor hwritten, Option.some_or]
      · cases hwritten : tx.ledgers with
        | none => rfl
        | some ledgers => rw [hsameLedgers ledgers hwritten, Option.some_or]

theorem isolated_step (hagreed : Agreed chains s action) (hstep : s.step chains action = some t)
    (hs : CheckpointsIsolated chains s) : CheckpointsIsolated chains t := by
  rcases network_cases hstep with ⟨openTx, rfl, _⟩ | ⟨chain, tx, rfl, htx, hlive, rfl⟩
  · exact hs
  · exact (isolated_apply_iff hs htx hlive).mpr hagreed

theorem agreed_of_isolated (hstep : s.step chains action = some t)
    (hs : CheckpointsIsolated chains s) (ht : CheckpointsIsolated chains t) :
    Agreed chains s action := by
  rcases network_cases hstep with ⟨openTx, rfl, hcommit⟩ | ⟨chain, tx, rfl, htx, hlive, rfl⟩
  · cases action with
    | commit chain =>
      intro tx htx hlive
      rw [hcommit chain rfl tx htx] at hlive
      cases hlive
    | begin chain => trivial
    | saveCheckpoint chain cursor => trivial
    | saveIndexerState chain currentLedger latestLedger => trivial
    | fail chain => trivial
    | restart chain => trivial
  · exact (isolated_apply_iff hs htx hlive).mp ht

end

/-- Checkpoints stay isolated through a run if and only if every commit of it writes what all other
    chains saved last. -/
theorem checkpointsIsolated_iff (chains : List ChainId) (s : NetworksState)
    (actions : List NetworkAction) (t : NetworksState) (hstart : CheckpointsIsolated chains s)
    (hrun : AnyRun (NetworksState.step chains) s actions t) :
    Throughout (NetworksState.step chains) (CheckpointsIsolated chains) s actions ↔
      Run (NetworksState.step chains) (Agreed chains) s actions t := by
  have hgood : ∀ {s}, CheckpointsIsolated chains s → CheckpointsIsolated chains s := fun hs => hs
  exact hrun.throughout_iff hgood isolated_step agreed_of_isolated hstart

/-! ### A second network -/

def emptyTables : NetworksState where
  indexerCheckpoints := fun _ => none
  indexerState := fun _ => none
  openTx := fun _ => none
  savedCursor := fun _ => none
  savedLedgers := fun _ => none

theorem isolated_emptyTables (chains : List ChainId) : CheckpointsIsolated chains emptyTables :=
  fun _ _ => ⟨rfl, rfl⟩

/-- One page of one network. -/
def onePage (chain : ChainId) : List NetworkAction :=
  [.begin chain, .saveCheckpoint chain "100-1", .saveIndexerState chain 100 105, .commit chain]

/-- The testnet indexer would start from the mainnet's cursor. -/
theorem not_networksIsolated_secondNetwork : ¬ NetworksIsolated ["mainnet", "testnet"] := by
  intro h
  obtain ⟨t, ht⟩ : ∃ t, exec (NetworksState.step ["mainnet", "testnet"]) emptyTables
      (onePage "mainnet") = some t := ⟨_, rfl⟩
  have hloaded : (exec (NetworksState.step ["mainnet", "testnet"]) emptyTables
      (onePage "mainnet")).map (fun s => (s.loadCheckpoint "testnet", s.savedCursor "testnet"))
        = some (some "100-1", none) := by decide
  rw [ht, Option.map_some, Option.some_inj, Prod.mk.injEq] at hloaded
  have htestnet := (h emptyTables _ t (isolated_emptyTables _) (anyRun_iff_exec.mpr ht)
    "testnet" (by decide)).1
  rw [hloaded.1, hloaded.2] at htestnet
  cases htestnet

/-- Two networks that have saved the same cursor and ledgers. -/
def levelTables : NetworksState where
  indexerCheckpoints := Function.update (fun _ => none) "singleton" (some "100-1")
  indexerState := Function.update (fun _ => none) "singleton" (some (100, 105))
  openTx := fun _ => none
  savedCursor := fun _ => some "100-1"
  savedLedgers := fun _ => some (100, 105)

/-- Both save what the other one has saved; a page of the testnet fails in between. -/
def inStep : List NetworkAction :=
  [.begin "testnet", .saveCheckpoint "testnet" "200-1", .fail "testnet", .commit "testnet"] ++
    onePage "mainnet" ++ onePage "testnet"

theorem checkpointsIsolated_inStep :
    Throughout (NetworksState.step ["mainnet", "testnet"])
      (CheckpointsIsolated ["mainnet", "testnet"]) levelTables inStep := by
  refine (checkpointsIsolated_iff ["mainnet", "testnet"] levelTables inStep _ (fun _ _ => ⟨rfl, rfl⟩)
    (anyRun_iff_exec.mpr rfl)).mpr ?_
  refine .cons trivial rfl (.cons trivial rfl (.cons trivial rfl (.cons ?_ rfl ?_)))
  · rintro tx ⟨⟩ hopen
    cases hopen
  refine .cons trivial rfl (.cons trivial rfl (.cons trivial rfl (.cons ?_ rfl ?_)))
  · rintro tx ⟨⟩ - other - -
    exact ⟨by rintro _ ⟨⟩; rfl, by rintro _ ⟨⟩; rfl⟩
  refine .cons trivial rfl (.cons trivial rfl (.cons trivial rfl (.cons ?_ rfl (.nil _))))
  rintro tx ⟨⟩ - other hother -
  refine ⟨?_, ?_⟩ <;> rintro _ ⟨⟩ <;> rcases List.mem_cons.mp hother with rfl | hother
  · rfl
  · rw [List.mem_singleton.mp hother]
    rfl
  · rfl
  · rw [List.mem_singleton.mp hother]
    rfl

end SorobanPulse.Ingest
