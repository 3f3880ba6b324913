import Mathlib
import SorobanPulse.Lib.Run

/-! Event deduplication across replicas (`src/event_dedup_replicas.rs`).

    A fingerprint is a duplicate when the replica's own map has a registration younger than the dedup
    window, or the shared tables have a row stamped inside it. `register_fingerprint` writes both: the
    map entry is overwritten, the row of `event_dedup_replicas` is inserted `ON CONFLICT DO NOTHING`,
    so a row left by an earlier registration keeps its old stamp. `Registered` is the purpose of the
    module — what was registered answers `true` everywhere for a whole window — and
    `registered_of_meets` proves it for the histories without such a leftover row.

    Instants are microseconds; a call happens at one instant, and `NOW()` is that instant. -/

namespace SorobanPulse.Dedup
open Lib

structure ReplicaDedupConfig where
  dedupWindowSecs : ℕ := 3600

/-- `dedup_window_secs as i64`. -/
def ReplicaDedupConfig.windowI64 (cfg : ReplicaDedupConfig) : ℤ := Int.bmod cfg.dedupWindowSecs (2 ^ 64)

/-- `NOW() - ($2 * INTERVAL '1 second')`. -/
def ReplicaDedupConfig.windowStart (cfg : ReplicaDedupConfig) (now : ℤ) : ℤ :=
  now - cfg.windowI64 * 1000000

/-- The dedup window in microseconds. -/
def ReplicaDedupConfig.window (cfg : ReplicaDedupConfig) : ℤ := cfg.dedupWindowSecs * 1000000

/-- The window survives the cast to `i64`. -/
def ReplicaDedupConfig.Fits (cfg : ReplicaDedupConfig) : Prop := cfg.dedupWindowSecs < 2 ^ 63

theorem ReplicaDedupConfig.Fits.windowI64 {cfg : ReplicaDedupConfig} (h : cfg.Fits) :
    cfg.windowI64 = cfg.dedupWindowSecs := by
  simp only [ReplicaDedupConfig.Fits, Nat.reducePow] at h
  exact Int.bmod_eq_of_le (by omega) (by omega)

theorem ReplicaDedupConfig.Fits.windowStart {cfg : ReplicaDedupConfig} (h : cfg.Fits) (now : ℤ) :
    cfg.windowStart now = now - cfg.window := by
  rw [ReplicaDedupConfig.windowStart, h.windowI64, ReplicaDedupConfig.window]

/-- Row of `event_dedup_replicas`, keyed by fingerprint and replica. -/
structure DedupRow (R : Type) where
  fingerprint : String
  replicaId : R
  createdAt : ℤ
  deriving DecidableEq

/-- The shared tables: `(fingerprint, created_at)` of `events`, and `event_dedup_replicas`. -/
structure Tables (R : Type) where
  events : List (String × ℤ)
  replicas : List (DedupRow R)

/-- djb2 over the fingerprint bytes, wrapping in a `u32`. -/
def deriveLockId (fingerprint : String) : UInt32 :=
  fingerprint.toUTF8.data.toList.foldl (fun hash byte => hash * 33 + byte.toUInt32) 5381

section
variable {R : Type} (cfg : ReplicaDedupConfig)

/-- The two `SELECT COUNT(*)` of `check_cross_replica_duplicate`. -/
def countEvents (db : Tables R) (fingerprint : String) (now : ℤ) : ℕ :=
  db.events.countP fun e => e.1 = fingerprint ∧ cfg.windowStart now ≤ e.2

def countReplicas (db : Tables R) (fingerprint : String) (now : ℤ) : ℕ :=
  db.replicas.countP fun row => row.fingerprint = fingerprint ∧ cfg.windowStart now ≤ row.createdAt

def checkCrossReplicaDuplicate (db : Tables R) (fingerprint : String) (now : ℤ) : Bool :=
  if 0 < countEvents cfg db fingerprint now then true
  else decide (0 < countReplicas cfg db fingerprint now)

/-- The map hit: `(Utc::now() - created_at).num_seconds() < window`. -/
def localHit (created : Option ℤ) (now : ℤ) : Bool :=
  match created with
  | some createdAt => decide ((now - createdAt).tdiv 1000000 < cfg.windowI64)
  | none => false

/-- A row stamped inside the window makes the fingerprint a duplicate. -/
theorem checkCrossReplicaDuplicate_of_row {cfg : ReplicaDedupConfig} {db : Tables R}
    {fingerprint : String} {now : ℤ} {row : DedupRow R} (hrow : row ∈ db.replicas)
    (hf : row.fingerprint = fingerprint) (hin : cfg.windowStart now ≤ row.createdAt) :
    checkCrossReplicaDuplicate cfg db fingerprint now = true := by
  have hcount : 0 < countReplicas cfg db fingerprint now :=
    List.countP_pos_iff.mpr ⟨row, hrow, decide_eq_true ⟨hf, hin⟩⟩
  simp [checkCrossReplicaDuplicate, hcount]

/-- A row of the fingerprint stamped at `t` or later. -/
def Covered (fingerprint : String) (rows : List (DedupRow R)) (t : ℤ) : Prop :=
  ∃ row ∈ rows, row.fingerprint = fingerprint ∧ t ≤ row.createdAt

theorem Covered.mono {fingerprint : String} {rows rows' : List (DedupRow R)} {t : ℤ}
    (hrows : ∀ row ∈ rows, row ∈ rows') (h : Covered fingerprint rows t) :
    Covered fingerprint rows' t := by
  obtain ⟨row, hrow, hf, ht⟩ := h
  exact ⟨row, hrows row hrow, hf, ht⟩

variable [DecidableEq R]

/-- `ON CONFLICT (fingerprint, replica_id) DO NOTHING`: the row to be added, if its key is free. -/
def pendingRow (rows : List (DedupRow R)) (row : DedupRow R) : Option (DedupRow R) :=
  if rows.any fun r => decide (r.fingerprint = row.fingerprint ∧ r.replicaId = row.replicaId) then none
  else some row

def insertRow (rows : List (DedupRow R)) (row : DedupRow R) : List (DedupRow R) :=
  rows ++ (pendingRow rows row).toList

theorem mem_insertRow_of_mem {rows : List (DedupRow R)} {row r : DedupRow R} (h : r ∈ rows) :
    r ∈ insertRow rows row :=
  List.mem_append_left _ h

/-- After an insert the instant is covered: by the new row, or by the one that was in the way. -/
theorem covered_insertRow {rows : List (DedupRow R)} {fingerprint : String} {r : R} {t now : ℤ}
    (hle : t ≤ now)
    (hm : ∀ row ∈ rows, row.fingerprint = fingerprint → row.replicaId = r → now ≤ row.createdAt) :
    Covered fingerprint (insertRow rows ⟨fingerprint, r, now⟩) t := by
  unfold insertRow pendingRow
  split
  · next h =>
    obtain ⟨row, hrow, hk⟩ := List.any_eq_true.mp h
    obtain ⟨hf, hid⟩ := of_decide_eq_true hk
    exact ⟨row, List.mem_append_left _ hrow, hf, Int.le_trans hle (hm row hrow hf hid)⟩
  · exact ⟨⟨fingerprint, r, now⟩, by simp, rfl, hle⟩

/-! ### Whole calls -/

/-- The shared tables, the map of every replica, the clock, and the completed registrations. -/
structure World (R : Type) where
  db : Tables R
  localHashes : R → String → Option ℤ
  clock : ℤ
  registered : List (String × ℤ)

def World.init (R : Type) (clock : ℤ) : World R :=
  { db := { events := [], replicas := [] }, localHashes := fun _ _ => none, clock, registered := [] }

def World.isDuplicate (w : World R) (r : R) (fingerprint : String) (now : ℤ) : Bool :=
  if localHit cfg (w.localHashes r fingerprint) now then true
  else checkCrossReplicaDuplicate cfg w.db fingerprint now

def World.registerFingerprint (w : World R) (r : R) (fingerprint : String) (now : ℤ) : World R :=
  { db := { w.db with replicas := insertRow w.db.replicas ⟨fingerprint, r, now⟩ }
    localHashes := Function.update w.localHashes r
      (Function.update (w.localHashes r) fingerprint (some now))
    clock := now
    registered := (fingerprint, now) :: w.registered }

/-- `INSERT … SELECT` of the source replica's rows inside the window. -/
def World.syncFailoverState (w : World R) (r source : R) (now : ℤ) : World R :=
  let rows := w.db.replicas.filter fun row =>
    row.replicaId = source ∧ cfg.windowStart now ≤ row.createdAt
  { w with
    db := { w.db with
      replicas := (rows.map fun row => { row with replicaId := r }).foldl insertRow w.db.replicas }
    clock := now }

def World.cleanupExpired (w : World R) (now : ℤ) : World R :=
  { w with
    db := { w.db with
      replicas := w.db.replicas.filter fun row => ¬ row.createdAt < cfg.windowStart now }
    clock := now }

inductive Op (R : Type) where
  | registerFingerprint (r : R) (fingerprint : String)
  | syncFailoverState (r source : R)
  | cleanupExpired (r : R)

/-- A call at the instant `now`; time does not run backwards. -/
def World.step (w : World R) : Op R × ℤ → Option (World R)
  | (op, now) =>
    if w.clock ≤ now then
      match op with
      | .registerFingerprint r fingerprint => some (w.registerFingerprint r fingerprint now)
      | .syncFailoverState r source => some (w.syncFailoverState cfg r source now)
      | .cleanupExpired _ => some (w.cleanupExpired cfg now)
    else none

/-- Registered means deduplicated: for a whole window, on every replica. -/
def World.Registered (w : World R) : Prop :=
  ∀ fingerprint t, (fingerprint, t) ∈ w.registered →
    ∀ r now, w.clock ≤ now → now < t + cfg.window → w.isDuplicate cfg r fingerprint now = true

/-- No registration meets a row of its own fingerprint and replica stamped before it. -/
def World.Meets (w : World R) : Op R × ℤ → Prop
  | (.registerFingerprint r fingerprint, now) =>
    ∀ row ∈ w.db.replicas, row.fingerprint = fingerprint → row.replicaId = r → now ≤ row.createdAt
  | _ => True

/-! ### Histories -/

variable {cfg : ReplicaDedupConfig} {w v : World R}

/-- A registration inside its window is backed by a row at least as young. -/
def World.Backed (cfg : ReplicaDedupConfig) (w : World R) : Prop :=
  ∀ fingerprint t, (fingerprint, t) ∈ w.registered → w.clock < t + cfg.window →
    Covered fingerprint w.db.replicas t

omit [DecidableEq R] in
theorem World.Backed.registered (hfit : cfg.Fits) (hw : w.Backed cfg) : w.Registered cfg := by
  intro fingerprint t hreg r now hclock hnow
  obtain ⟨row, hrow, hf, ht⟩ := hw fingerprint t hreg (Int.lt_of_le_of_lt hclock hnow)
  have hin : cfg.windowStart now ≤ row.createdAt := by
    rw [hfit.windowStart]; omega
  have hdup := checkCrossReplicaDuplicate_of_row hrow hf hin
  rw [World.isDuplicate, hdup]
  split <;> rfl

theorem mem_foldl_insertRow {row : DedupRow R} :
    ∀ (new rows : List (DedupRow R)), row ∈ rows → row ∈ new.foldl insertRow rows
  | [], _, h => h
  | n :: new, rows, h => by
    rw [List.foldl_cons]
    exact mem_foldl_insertRow new _ (mem_insertRow_of_mem h)

theorem backed_register {r : R} {fingerprint : String} {now : ℤ} (hclock : w.clock ≤ now)
    (hm : w.Meets (.registerFingerprint r fingerprint, now)) (hw : w.Backed cfg) :
    (w.registerFingerprint r fingerprint now).Backed cfg := by
  intro f t hreg hlt
  rcases List.mem_cons.mp hreg with h | h
  · -- the registration itself: the row in the table is new, or a leftover that is not older
    cases h
    exact covered_insertRow (Int.le_refl _) hm
  · exact (hw f t h (Int.lt_of_le_of_lt hclock hlt)).mono fun _ => mem_insertRow_of_mem

theorem backed_sync {r source : R} {now : ℤ} (hclock : w.clock ≤ now) (hw : w.Backed cfg) :
    (w.syncFailoverState cfg r source now).Backed cfg := by
  intro f t hreg hlt
  exact (hw f t hreg (Int.lt_of_le_of_lt hclock hlt)).mono fun _ => mem_foldl_insertRow _ _

omit [DecidableEq R] in
/-- `cleanup_expired` deletes only rows whose registration has run out. -/
theorem backed_cleanup {now : ℤ} (hfit : cfg.Fits) (hclock : w.clock ≤ now) (hw : w.Backed cfg) :
    (w.cleanupExpired cfg now).Backed cfg := by
  intro f t hreg hlt
  obtain ⟨row, hrow, hf, ht⟩ := hw f t hreg (Int.lt_of_le_of_lt hclock hlt)
  have hkeep : ¬ row.createdAt < cfg.windowStart now := by
    have hnow : now < t + cfg.window := hlt
    rw [hfit.windowStart]; omega
  exact ⟨row, List.mem_filter.mpr ⟨hrow, decide_eq_true hkeep⟩, hf, ht⟩

theorem backed_step (hfit : cfg.Fits) {op : Op R × ℤ} (hm : w.Meets op)
    (hs : w.step cfg op = some v) (hw : w.Backed cfg) : v.Backed cfg := by
  obtain ⟨op, now⟩ := op
  obtain ⟨hclock, hs⟩ := Option.ite_none_right_eq_some.mp hs
  cases op with
  | registerFingerprint r fingerprint => cases hs; exact backed_register hclock hm hw
  | syncFailoverState r source => cases hs; exact backed_sync hclock hw
  | cleanupExpired r => cases hs; exact backed_cleanup hfit hclock hw

/-- Registered means deduplicated in every history without leftover rows. -/
theorem registered_of_meets (cfg : ReplicaDedupConfig) (hfit : cfg.Fits) (clock : ℤ)
    (ops : List (Op R × ℤ)) (w : World R)
    (hrun : Run (World.step cfg) World.Meets (.init R clock) ops w) : w.Registered cfg := by
  have hinit : (World.init R clock).Backed cfg := fun _ _ h => absurd h List.not_mem_nil
  exact (hrun.invariant (backed_step hfit) hinit).registered hfit

/-- `false` registers, its window passes, `false` registers again. -/
def reRegistration : List (Op Bool × ℤ) :=
  [(.registerFingerprint false "fp", 0), (.registerFingerprint false "fp", 20000000)]

/-- Without the condition `true` still sees the first stamp and answers `false`. -/
theorem not_registered_reRegistration :
    ¬ ∀ (R : Type) [DecidableEq R] (cfg : ReplicaDedupConfig) (clock : ℤ) (ops : List (Op R × ℤ))
      (w : World R), AnyRun (World.step cfg) (.init R clock) ops w → w.Registered cfg := by
  intro h
  have hreg := h Bool { dedupWindowSecs := 10 } 0 reRegistration _ (anyRun_iff_exec.mpr rfl)
  exact absurd (hreg "fp" 20000000 (by decide) true 20000000 (by decide) (by decide)) (by decide)

/-- Two replicas register the same fingerprint. -/
theorem registered_twoReplicas :
    ((exec (World.step {}) (.init Bool 0)
      [(.registerFingerprint false "fp", 0), (.registerFingerprint true "fp", 5)]).get rfl).Registered
      {} :=
  registered_of_meets {} (by simp [ReplicaDedupConfig.Fits]) 0
    [(.registerFingerprint false "fp", 0), (.registerFingerprint true "fp", 5)] _
    (.cons (by simp [World.Meets, World.init]) rfl
      (.cons (by simp [World.Meets, World.init, World.registerFingerprint, insertRow, pendingRow])
        rfl (.nil _)))

end

end SorobanPulse.Dedup
