import SorobanPulse.Backfill.Datastore
import SorobanPulse.Backfill.EventsFromLedger
import SorobanPulse.Lib.Run

/-! Backfilling one range: `run_range`, its checkpoint row, and crashes anywhere in between.

    An execution loads its resume point and works file by file; a row of `backfill_checkpoints` is
    written after each file. It may fail at a download, at the sink or at the checkpoint, or crash
    at any point, and a later execution starts again from the row.

        start ──▶ loop next ──download──▶ file next batch ──skip / store──▶ … ──▶ file next []
                    │   ▲                                                              │
              return│   └────────────────────── save checkpoint ───────────────────────┘
                    ▼
        (no execution)  ◀── download error, store error, checkpoint error, crash

    `Resumable` is what holds at every moment; an uninterrupted execution is bounded by `work`. -/

namespace SorobanPulse.Backfill
open Lib Xdr

/-- An inclusive ledger range. -/
structure LedgerRange where
  start : UInt32
  last : UInt32

/-- A row of `backfill_checkpoints`. -/
structure CheckpointRow where
  nextLedger : ℤ
  completed : Bool
  deriving DecidableEq, Repr

/-- Where a range should resume; `none` when it is already completed. -/
def loadResumePoint (range : LedgerRange) : Option CheckpointRow → Option ℕ
  | some ⟨_, true⟩ => none
  | some ⟨n, false⟩ => some (if 0 ≤ n then n.toNat else range.start.toNat)
  | none => some range.start.toNat

def saveCheckpoint (range : LedgerRange) (next : ℕ) : CheckpointRow where
  nextLedger := if next < 2 ^ 63 then next else 2 ^ 63 - 1
  completed := decide (range.last.toNat < next)

/-- The decoded files by object key. -/
abbrev Datastore := String → Option (List LedgerCloseMeta)

/-- An execution of `run_range`: at the head of its loop, or inside the file fetched for `next` with
    the ledgers still to look at. -/
inductive Exec where
  | loop (next : ℕ)
  | file (next : ℕ) (pending : List LedgerCloseMeta)

/-- The row of the range, the running execution, and the ledgers the sink was handed: all of them,
    and those for which `store_events` returned `Ok`. -/
structure RangeState where
  row : Option CheckpointRow
  exec : Option Exec
  offered : List LedgerCloseMeta
  stored : List LedgerCloseMeta

def RangeState.init : RangeState := { row := none, exec := none, offered := [], stored := [] }

inductive Label where
  | start
  | download
  | downloadError
  | skip
  | store
  | storeError
  | save
  | saveError
  | return_
  | crash
  deriving DecidableEq, Repr

section
variable (schema : DatastoreSchema) (range : LedgerRange) (datastore : Datastore)

/-- The `continue` of the loop over a file that straddles the range. -/
def outside (next : ℕ) (ledger : LedgerCloseMeta) : Bool :=
  decide ((ledgerSeq ledger).toNat < next ∨ range.last < ledgerSeq ledger)

/-- The ledger after the file containing `next`, or after the range. -/
def nextAfter (next : ℕ) : ℕ := min (fileBounds schema next).2 range.last.toNat + 1

def RangeState.step (s : RangeState) : Label → Option RangeState
  | .start =>
    match s.exec with
    | none => some { s with exec := (loadResumePoint range s.row).map .loop }
    | some _ => none
  | .download =>
    match s.exec with
    | some (.loop next) =>
      if next ≤ range.last.toNat then
        (datastore (objectKey schema next)).map fun batch => { s with exec := some (.file next batch) }
      else none
    | _ => none
  | .downloadError =>
    match s.exec with
    | some (.loop next) => if next ≤ range.last.toNat then some { s with exec := none } else none
    | _ => none
  | .skip =>
    match s.exec with
    | some (.file next (ledger :: rest)) =>
      if outside range next ledger then some { s with exec := some (.file next rest) } else none
    | _ => none
  | .store =>
    match s.exec with
    | some (.file next (ledger :: rest)) =>
      if outside range next ledger then none
      else
        some { s with
          exec := some (.file next rest)
          offered := ledger :: s.offered
          stored := ledger :: s.stored }
    | _ => none
  | .storeError =>
    match s.exec with
    | some (.file next (ledger :: _)) =>
      if outside range next ledger then none
      else some { s with exec := none, offered := ledger :: s.offered }
    | _ => none
  | .save =>
    match s.exec with
    | some (.file next []) =>
      some { s with
        row := some (saveCheckpoint range (nextAfter schema range next))
        exec := some (.loop (nextAfter schema range next)) }
    | _ => none
  | .saveError =>
    match s.exec with
    | some (.file _ []) => some { s with exec := none }
    | _ => none
  | .return_ =>
    match s.exec with
    | some (.loop next) => if range.last.toNat < next then some { s with exec := none } else none
    | _ => none
  | .crash => some { s with exec := none }

/-- A file's batch contains exactly the ledgers of its bounds. -/
def FilesExact : Prop :=
  ∀ seq ≤ U32_MAX, ∀ batch, datastore (objectKey schema seq) = some batch → ∀ l,
    (∃ ledger ∈ batch, (ledgerSeq ledger).toNat = l) ↔
      (fileBounds schema seq).1 ≤ l ∧ l ≤ (fileBounds schema seq).2

/-- Every ledger of `[start, n)` that the files contain was stored. -/
def Covered (stored : List LedgerCloseMeta) (n : ℕ) : Prop :=
  ∀ seq ≤ U32_MAX, ∀ batch, datastore (objectKey schema seq) = some batch → ∀ ledger ∈ batch,
    range.start ≤ ledgerSeq ledger → (ledgerSeq ledger).toNat < n → ledger ∈ stored

/-- What holds at every moment: the row vouches for the ledgers below it, `completed` for the whole
    range, and nothing outside the range is handed to the sink. -/
structure RangeState.Resumable (s : RangeState) : Prop where
  covered : ∀ row, s.row = some row → ∃ n : ℕ, row.nextLedger = n ∧
    Covered schema range datastore s.stored n
  completed : ∀ row, s.row = some row → row.completed = true → (range.last.toNat : ℤ) < row.nextLedger
  within : ∀ ledger ∈ s.offered, range.start ≤ ledgerSeq ledger ∧ ledgerSeq ledger ≤ range.last

/-- A step of an execution that is not interrupted from outside. -/
def Label.Own (label : Label) : Prop := label ≠ .start ∧ label ≠ .crash

instance (label : Label) : Decidable label.Own := inferInstanceAs (Decidable (_ ∧ _))

/-- The running execution ends: its own steps are bounded, and one is enabled until it has returned. -/
structure RangeState.Terminates (s : RangeState) : Prop where
  bounded : ∃ n, ∀ labels t, Run (RangeState.step schema range datastore) (fun _ l => l.Own) s labels t →
    labels.length ≤ n
  progress : s.exec.isSome → ∃ label, label.Own ∧ (s.step schema range datastore label).isSome

end

/-! ### The invariant -/

section
variable {schema : DatastoreSchema} {range : LedgerRange} {datastore : Datastore}
  {s t : RangeState} {stored stored' : List LedgerCloseMeta} {next : ℕ}

/-- At the loop head everything below `next` is stored; inside a file also what it has passed. -/
def Exec.Ok (schema : DatastoreSchema) (range : LedgerRange) (datastore : Datastore)
    (stored : List LedgerCloseMeta) : Exec → Prop
  | .loop next => range.start.toNat ≤ next ∧ Covered schema range datastore stored next
  | .file next pending =>
    range.start.toNat ≤ next ∧ next ≤ range.last.toNat ∧
      Covered schema range datastore stored next ∧
      ∃ done, datastore (objectKey schema next) = some (done ++ pending) ∧
        ∀ ledger ∈ done, outside range next ledger = false → ledger ∈ stored

structure RangeState.Inv (schema : DatastoreSchema) (range : LedgerRange) (datastore : Datastore)
    (s : RangeState) : Prop where
  row : ∀ row, s.row = some row → ∃ n, row = saveCheckpoint range n ∧ range.start.toNat ≤ n ∧
    n ≤ U32_MAX + 1 ∧ Covered schema range datastore s.stored n
  exec : ∀ e, s.exec = some e → e.Ok schema range datastore s.stored
  within : ∀ ledger ∈ s.offered, range.start ≤ ledgerSeq ledger ∧ ledgerSeq ledger ≤ range.last

theorem saveCheckpoint_nextLedger (range : LedgerRange) {n : ℕ} (h : n ≤ U32_MAX + 1) :
    (saveCheckpoint range n).nextLedger = n :=
  if_pos (Nat.lt_of_le_of_lt h (by decide))

theorem outside_eq_false {ledger : LedgerCloseMeta} :
    outside range next ledger = false ↔
      next ≤ (ledgerSeq ledger).toNat ∧ ledgerSeq ledger ≤ range.last := by
  rw [outside, decide_eq_false_iff_not, not_or, Nat.not_lt, UInt32.not_lt]

theorem Covered.mono (hsub : ∀ ledger ∈ stored, ledger ∈ stored')
    (h : Covered schema range datastore stored next) :
    Covered schema range datastore stored' next :=
  fun seq hseq batch hbatch ledger hmem hstart hlt =>
    hsub ledger (h seq hseq batch hbatch ledger hmem hstart hlt)

/-- Nothing of the range lies below its start. -/
theorem covered_start : Covered schema range datastore stored range.start.toNat :=
  fun _ _ _ _ _ _ hstart hlt => absurd (UInt32.le_iff_toNat_le.mp hstart) (Nat.not_le.mpr hlt)

theorem next_lt_nextAfter (h : next ≤ range.last.toNat) : next < nextAfter schema range next :=
  Nat.lt_succ_of_le (Nat.le_min.mpr
    ⟨le_fileBounds_snd (Nat.le_trans h (toNat_le_U32_MAX _)), h⟩)

theorem nextAfter_le : nextAfter schema range next ≤ U32_MAX + 1 :=
  Nat.succ_le_succ (Nat.le_trans (Nat.min_le_right _ _) (toNat_le_U32_MAX _))

/-- A finished file carries the coverage to its end: a ledger between `next` and the end of the file
    of `next` can only be in that file. -/
theorem covered_nextAfter (hfiles : FilesExact schema datastore) {batch : List LedgerCloseMeta}
    (hcov : Covered schema range datastore stored next)
    (hbatch : datastore (objectKey schema next) = some batch)
    (hdone : ∀ ledger ∈ batch, outside range next ledger = false → ledger ∈ stored) :
    Covered schema range datastore stored (nextAfter schema range next) := by
  intro seq hseq batch' hbatch' ledger hmem hstart hlt
  rcases Nat.lt_or_ge (ledgerSeq ledger).toNat next with hbelow | hge
  · exact hcov seq hseq batch' hbatch' ledger hmem hstart hbelow
  · have hle := Nat.le_min.mp (Nat.le_of_lt_succ hlt)
    have hsame : objectKey schema seq = objectKey schema next := by
      obtain ⟨hlo, hhi⟩ := (hfiles seq hseq batch' hbatch' _).mp ⟨ledger, hmem, rfl⟩
      have hseqFile := div_eq_of_mem_fileBounds hlo hhi
      have hnextFile := div_eq_of_mem_fileBounds
        (Nat.le_trans (fileBounds_fst_le schema next) hge) hle.1
      exact objectKey_congr (hseqFile.symm.trans hnextFile)
    obtain rfl : batch' = batch := Option.some.inj (by rw [← hbatch', ← hbatch, hsame])
    exact hdone ledger hmem (outside_eq_false.mpr ⟨hge, UInt32.le_iff_toNat_le.mpr hle.2⟩)

theorem inv_init : RangeState.Inv schema range datastore .init where
  row _ h := by cases h
  exec _ h := by cases h
  within _ h := absurd h List.not_mem_nil

/-- An execution may end anywhere. -/
theorem RangeState.Inv.interrupt (hi : s.Inv schema range datastore) :
    RangeState.Inv schema range datastore { s with exec := none } where
  row := hi.row
  exec _ h := by cases h
  within := hi.within

/-- An execution may move to any state that is right about what is stored. -/
theorem RangeState.Inv.move (hi : s.Inv schema range datastore) {e : Exec}
    (he : e.Ok schema range datastore s.stored) :
    RangeState.Inv schema range datastore { s with exec := some e } where
  row := hi.row
  exec _ h := by cases h; exact he
  within := hi.within

/-- The resume point lies in the range and everything below it is stored. -/
theorem RangeState.Inv.start (hi : s.Inv schema range datastore)
    (h : loadResumePoint range s.row = some next) :
    (Exec.loop next).Ok schema range datastore s.stored := by
  rcases hrow : s.row with _ | row
  · rw [hrow] at h
    cases h
    exact ⟨Nat.le_refl _, covered_start⟩
  · obtain ⟨n, rfl, hstart, hn, hcov⟩ := hi.row row hrow
    rw [hrow] at h
    have hnext := saveCheckpoint_nextLedger range hn
    rcases hc : (saveCheckpoint range n) with ⟨nextLedger, _ | _⟩
    · rw [hc] at h hnext
      dsimp only at hnext
      subst hnext
      cases h
      exact ⟨hstart, hcov⟩
    · rw [hc] at h; cases h

/-- A ledger inside the range is handed to the sink. -/
theorem RangeState.Inv.store (hi : s.Inv schema range datastore) {ledger : LedgerCloseMeta}
    {rest : List LedgerCloseMeta} (he : s.exec = some (.file next (ledger :: rest)))
    (hin : outside range next ledger = false) :
    RangeState.Inv schema range datastore
      { s with
        exec := some (.file next rest)
        offered := ledger :: s.offered
        stored := ledger :: s.stored } := by
  obtain ⟨hstart, hlast, hcov, done, hbatch, hdone⟩ := hi.exec _ he
  have hsub : ∀ l ∈ s.stored, l ∈ ledger :: s.stored := fun _ => List.mem_cons_of_mem _
  refine ⟨fun row hrow => ?_, fun e h => ?_, List.forall_mem_cons.mpr ⟨?_, hi.within⟩⟩
  · obtain ⟨n, hn, hge, hle, hc⟩ := hi.row row hrow
    exact ⟨n, hn, hge, hle, hc.mono hsub⟩
  · cases h
    refine ⟨hstart, hlast, hcov.mono hsub, done ++ [ledger], by rw [hbatch]; simp, ?_⟩
    intro l hl hout
    rcases List.mem_append.mp hl with hl | hl
    · exact hsub l (hdone l hl hout)
    · rw [List.mem_singleton.mp hl]; exact List.mem_cons_self
  · obtain ⟨hge, hle⟩ := outside_eq_false.mp hin
    exact ⟨UInt32.le_iff_toNat_le.mpr (Nat.le_trans hstart hge), hle⟩

/-- What a step can do. -/
theorem step_cases {label : Label} (h : s.step schema range datastore label = some t) :
    (label = .start ∧ t = { s with exec := (loadResumePoint range s.row).map .loop }) ∨
    (∃ next batch, label = .download ∧ s.exec = some (.loop next) ∧ next ≤ range.last.toNat ∧
      datastore (objectKey schema next) = some batch ∧
      t = { s with exec := some (.file next batch) }) ∨
    (∃ next ledger rest, label = .skip ∧ s.exec = some (.file next (ledger :: rest)) ∧
      outside range next ledger = true ∧ t = { s with exec := some (.file next rest) }) ∨
    (∃ next ledger rest, label = .store ∧ s.exec = some (.file next (ledger :: rest)) ∧
      outside range next ledger = false ∧ t = { s with
        exec := some (.file next rest)
        offered := ledger :: s.offered
        stored := ledger :: s.stored }) ∨
    (∃ next ledger rest, label = .storeError ∧ s.exec = some (.file next (ledger :: rest)) ∧
      outside range next ledger = false ∧
      t = { s with exec := none, offered := ledger :: s.offered }) ∨
    (∃ next, label = .save ∧ s.exec = some (.file next []) ∧ t = { s with
        row := some (saveCheckpoint range (nextAfter schema range next))
        exec := some (.loop (nextAfter schema range next)) }) ∨
    ((label.Own → s.exec ≠ none) ∧ t = { s with exec := none }) := by
  cases label with
  | start =>
    simp only [RangeState.step] at h
    split at h <;> cases h
    exact .inl ⟨rfl, rfl⟩  -- from no row, the range's first ledger; a finished row starts no loop
  | download =>
    simp only [RangeState.step] at h
    split at h
    · next next he =>
      obtain ⟨hlast, h⟩ := Option.ite_none_right_eq_some.mp h
      obtain ⟨batch, hbatch, rfl⟩ := Option.map_eq_some_iff.mp h
      exact .inr (.inl ⟨next, batch, rfl, he, hlast, hbatch, rfl⟩)
    · cases h
  | skip =>
    simp only [RangeState.step] at h
    split at h
    · next next ledger rest he =>
      obtain ⟨hout, h⟩ := Option.ite_none_right_eq_some.mp h
      cases h
      exact .inr (.inr (.inl ⟨next, ledger, rest, rfl, he, hout, rfl⟩))
    · cases h
  | store =>
    simp only [RangeState.step] at h
    split at h
    · next next ledger rest he =>
      obtain ⟨hin, h⟩ := Option.ite_none_left_eq_some.mp h
      cases h
      exact .inr (.inr (.inr (.inl ⟨next, ledger, rest, rfl, he, Bool.eq_false_iff.mpr hin, rfl⟩)))
    · cases h
  | storeError =>
    simp only [RangeState.step] at h
    split at h
    · next next ledger rest he =>
      obtain ⟨hin, h⟩ := Option.ite_none_left_eq_some.mp h
      cases h
      have hin' := Bool.eq_false_iff.mpr hin
      exact .inr (.inr (.inr (.inr (.inl ⟨next, ledger, rest, rfl, he, hin', rfl⟩))))
    · cases h
  | save =>
    simp only [RangeState.step] at h
    split at h <;> cases h
    next next he => exact .inr (.inr (.inr (.inr (.inr (.inl ⟨next, rfl, he, rfl⟩)))))
  | downloadError | return_ =>
    simp only [RangeState.step] at h
    -- the only guards are on the loop's position, and both ends leave row and table as they are
    split at h
    · next next he =>
      obtain ⟨_, h⟩ := Option.ite_none_right_eq_some.mp h
      cases h
      refine .inr (.inr (.inr (.inr (.inr (.inr ⟨fun _ => ?_, rfl⟩)))))
      rw [he]
      exact Option.some_ne_none _
    · cases h
  | saveError =>
    simp only [RangeState.step] at h
    split at h <;> cases h
    next next he =>
    refine .inr (.inr (.inr (.inr (.inr (.inr ⟨fun _ => ?_, rfl⟩)))))
    rw [he]
    exact Option.some_ne_none _
  | crash =>
    cases h
    -- a crash is no step of the call's own, and needs no running one
    exact .inr (.inr (.inr (.inr (.inr (.inr ⟨fun hown => absurd rfl hown.2, rfl⟩)))))

theorem inv_step (hfiles : FilesExact schema datastore) {label : Label}
    (hs : s.step schema range datastore label = some t) (hi : s.Inv schema range datastore) :
    t.Inv schema range datastore := by
  obtain ⟨-, rfl⟩ | ⟨next, batch, -, he, hlast, hbatch, rfl⟩ |
    ⟨next, ledger, rest, -, he, hout, rfl⟩ | ⟨next, ledger, rest, -, he, hin, rfl⟩ |
    ⟨next, ledger, rest, -, he, hin, rfl⟩ | ⟨next, -, he, rfl⟩ | ⟨-, rfl⟩ := step_cases hs
  · rcases h : loadResumePoint range s.row with _ | next
    · exact hi.interrupt
    · exact hi.move (hi.start h)
  · obtain ⟨hstart, hcov⟩ := hi.exec _ he
    exact hi.move ⟨hstart, hlast, hcov, [], hbatch, fun _ h => absurd h List.not_mem_nil⟩
  · obtain ⟨hstart, hlast, hcov, done, hbatch, hdone⟩ := hi.exec _ he
    refine hi.move ⟨hstart, hlast, hcov, done ++ [ledger], by rw [hbatch]; simp, ?_⟩
    intro l hl hl'
    rcases List.mem_append.mp hl with hl | hl
    · exact hdone l hl hl'
    · rw [List.mem_singleton.mp hl, hout] at hl'; cases hl'
  · exact hi.store he hin
  · exact ⟨hi.row, (fun _ h => by cases h), (hi.store he hin).within⟩
  · obtain ⟨hstart, hlast, hcov, done, hbatch, hdone⟩ := hi.exec _ he
    rw [List.append_nil] at hbatch
    have hnext := covered_nextAfter hfiles hcov hbatch hdone
    have hge : range.start.toNat ≤ nextAfter schema range next :=
      Nat.le_trans hstart (Nat.le_of_lt (next_lt_nextAfter hlast))
    refine ⟨fun row h => ?_, fun e h => ?_, hi.within⟩
    · cases h; exact ⟨_, rfl, hge, nextAfter_le, hnext⟩
    · cases h; exact ⟨hge, hnext⟩
  · exact hi.interrupt

theorem RangeState.Inv.resumable (hi : s.Inv schema range datastore) :
    s.Resumable schema range datastore where
  covered row hrow := by
    obtain ⟨n, rfl, -, hn, hcov⟩ := hi.row row hrow
    exact ⟨n, saveCheckpoint_nextLedger range hn, hcov⟩
  completed row hrow hc := by
    obtain ⟨n, rfl, -, hn, -⟩ := hi.row row hrow
    rw [saveCheckpoint_nextLedger range hn]
    exact Int.ofNat_lt.mpr (of_decide_eq_true hc)
  within := hi.within

/-! ### Termination -/

/-- Work left at the loop head: the files of all ledgers from `next` on, each with its own steps. -/
def loopWork (schema : DatastoreSchema) (range : LedgerRange) (datastore : Datastore) (next : ℕ) : ℕ :=
  ∑ l ∈ Finset.Ico next (range.last.toNat + 1),
    (((datastore (objectKey schema l)).getD []).length + 2) + 1

def work (schema : DatastoreSchema) (range : LedgerRange) (datastore : Datastore) (s : RangeState) : ℕ :=
  match s.exec with
  | none => 0
  | some (.loop next) => loopWork schema range datastore next
  | some (.file next pending) =>
    pending.length + 1 + loopWork schema range datastore (nextAfter schema range next)

theorem loopWork_download {batch : List LedgerCloseMeta} (hnext : next ≤ range.last.toNat)
    (hbatch : datastore (objectKey schema next) = some batch) :
    batch.length + 1 + loopWork schema range datastore (nextAfter schema range next) <
      loopWork schema range datastore next := by
  have hrest : loopWork schema range datastore (nextAfter schema range next) ≤
      loopWork schema range datastore (next + 1) :=
    Nat.succ_le_succ (Finset.sum_le_sum_of_subset
      (Finset.Ico_subset_Ico_left (next_lt_nextAfter hnext)))
  have hsplit : loopWork schema range datastore next =
      batch.length + 2 + loopWork schema range datastore (next + 1) := by
    rw [loopWork, Finset.sum_eq_sum_Ico_succ_bot (Nat.lt_succ_of_le hnext), hbatch, loopWork]
    rw [Option.getD_some, Nat.add_assoc]
  omega

theorem work_pos (h : s.exec ≠ none) : 0 < work schema range datastore s := by
  obtain ⟨e, he⟩ := Option.ne_none_iff_exists'.mp h
  rw [work, he]
  cases e with
  | loop next => exact Nat.succ_pos _
  | file next pending => exact Nat.add_pos_left (Nat.succ_pos _) _

/-- Every step of an execution's own leaves less work. -/
theorem work_step {label : Label} (hown : label.Own)
    (hs : s.step schema range datastore label = some t) :
    work schema range datastore t < work schema range datastore s := by
  obtain ⟨rfl, -⟩ | ⟨next, batch, -, he, hlast, hbatch, rfl⟩ |
    ⟨next, ledger, rest, -, he, -, rfl⟩ | ⟨next, ledger, rest, -, he, -, rfl⟩ |
    ⟨next, ledger, rest, -, he, -, rfl⟩ | ⟨next, -, he, rfl⟩ | ⟨hexec, rfl⟩ := step_cases hs
  · exact absurd rfl hown.1
  · rw [work, work, he]
    exact loopWork_download hlast hbatch
  · rw [work, work, he]
    dsimp only
    rw [List.length_cons]; omega
  · rw [work, work, he]
    dsimp only
    rw [List.length_cons]; omega
  · exact work_pos (by simp [he])
  · rw [work, work, he]
    dsimp only
    rw [List.length_nil]; omega
  · exact work_pos (hexec hown)

theorem length_le_work {labels : List Label}
    (hrun : Run (RangeState.step schema range datastore) (fun _ l => l.Own) s labels t) :
    labels.length ≤ work schema range datastore s := by
  induction hrun with
  | nil _ => exact Nat.zero_le _
  | cons hown hs _ ih => exact Nat.lt_of_le_of_lt ih (work_step hown hs)

/-- An execution that has not returned has a step of its own. -/
theorem exists_own_step (h : s.exec.isSome) :
    ∃ label, label.Own ∧ (s.step schema range datastore label).isSome := by
  obtain ⟨e, he⟩ := Option.isSome_iff_exists.mp h
  rcases e with next | ⟨next, _ | ⟨ledger, rest⟩⟩
  · rcases Nat.lt_or_ge range.last.toNat next with hlt | hge
    · exact ⟨.return_, by decide, by simp [RangeState.step, he, hlt]⟩
    · exact ⟨.downloadError, by decide, by simp [RangeState.step, he, hge]⟩
  · exact ⟨.save, by decide, by simp [RangeState.step, he]⟩
  · rcases hout : outside range next ledger with _ | _
    · exact ⟨.store, by decide, by simp [RangeState.step, he, hout]⟩
    · exact ⟨.skip, by decide, by simp [RangeState.step, he, hout]⟩

end

/-- Resumability: in every sequence of executions, each interrupted anywhere, the checkpoint vouches
    for what it passed, nothing outside the range is handed over, and an execution left alone ends. -/
theorem runRange_resumable (schema : DatastoreSchema) (range : LedgerRange) (datastore : Datastore)
    (hfiles : FilesExact schema datastore) (labels : List Label) (s : RangeState)
    (hrun : AnyRun (RangeState.step schema range datastore) .init labels s) :
    s.Resumable schema range datastore ∧ s.Terminates schema range datastore := by
  have hinv : s.Inv schema range datastore :=
    hrun.invariant (fun _ hs hi => inv_step hfiles hs hi) inv_init
  exact ⟨hinv.resumable,
    ⟨work schema range datastore s, fun _ _ => length_le_work⟩, exists_own_step⟩

/-- A ledger without transactions. -/
def emptyLedger (seq : UInt32) : LedgerCloseMeta :=
  .v0 { hash := zeroHash, ledgerVersion := 22, ledgerSeq := seq, closeTime := 0 }

/-- Two ledgers a file, no partitions. -/
def pairsSchema : DatastoreSchema := { ledgersPerBatch := 2, batchesPerPartition := 1 }

/-- The files of ledgers 2 to 5. -/
def pairsDatastore : Datastore := fun key =>
  if key = objectKey pairsSchema 2 then some [emptyLedger 2, emptyLedger 3]
  else if key = objectKey pairsSchema 4 then some [emptyLedger 4, emptyLedger 5]
  else none

theorem filesExact_pairsDatastore : FilesExact pairsSchema pairsDatastore := by
  have hbounds : ∀ {l l'}, objectKey pairsSchema l = objectKey pairsSchema l' →
      fileBounds pairsSchema l = fileBounds pairsSchema l' :=
    fun h => fileBounds_congr (objectKey_eq_iff.mp h)
  intro seq _ batch hbatch l
  rw [pairsDatastore] at hbatch
  split at hbatch
  · next hkey =>
    cases hbatch
    rw [hbounds hkey, show fileBounds pairsSchema 2 = (2, 3) from rfl]
    simp [emptyLedger, ledgerSeq, LedgerCloseMeta.header]
    omega
  · split at hbatch
    · next hkey =>
      cases hbatch
      rw [hbounds hkey, show fileBounds pairsSchema 4 = (4, 5) from rfl]
      simp [emptyLedger, ledgerSeq, LedgerCloseMeta.header]
      omega
    · cases hbatch

/-- Ledgers 3 and 4, with a crash after the first file. -/
def crashAndResume : List Label :=
  [.start, .download, .skip, .store, .save, .crash, .start, .download, .store, .skip, .save, .return_]

theorem runRange_crashAndResume :
    let s := (exec (RangeState.step pairsSchema ⟨3, 4⟩ pairsDatastore) .init crashAndResume).get
      (by decide +kernel)
    s.Resumable pairsSchema ⟨3, 4⟩ pairsDatastore ∧ s.Terminates pairsSchema ⟨3, 4⟩ pairsDatastore :=
  runRange_resumable pairsSchema ⟨3, 4⟩ pairsDatastore filesExact_pairsDatastore crashAndResume _
    (anyRun_iff_exec.mpr (Option.some_get _).symm)

end SorobanPulse.Backfill
