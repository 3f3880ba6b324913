import Mathlib
import SorobanPulse.Lib.Run

/-! The two stores behind the idempotency middleware.

    Both treat a record older than its ttl as absent; purging only removes such records. They differ
    in two places:

                        InMemoryStore       PostgresStore
        put             overwrites          ON CONFLICT (key) DO NOTHING
        created_at      nanoseconds         TIMESTAMPTZ, microseconds

    Times are nanoseconds since the Unix epoch. `sameGets_iff`: the stores answer every get alike
    exactly when no put meets one of the differences. -/

namespace SorobanPulse.Idempotency
open Lib

/-- 24 hours. -/
def DEFAULT_TTL : ℕ := 24 * 60 * 60 * 1000000000

structure IdempotencyRecord where
  statusCode : UInt16
  body : String
  createdAt : ℕ
  ttl : ℕ
  deriving DecidableEq, Repr

/-- A record from the future has not expired. -/
def IdempotencyRecord.isExpired (now : ℕ) (r : IdempotencyRecord) : Bool :=
  r.ttl < now - r.createdAt

/-- What a lookup returns of a stored record. -/
def visible (now : ℕ) (r : Option IdempotencyRecord) : Option IdempotencyRecord :=
  r.filter fun r => !r.isExpired now

structure InMemoryStore where
  records : String → Option IdempotencyRecord

namespace InMemoryStore

def new : InMemoryStore := ⟨fun _ => none⟩

def get (store : InMemoryStore) (now : ℕ) (key : String) : Option IdempotencyRecord :=
  visible now (store.records key)

def put (store : InMemoryStore) (key : String) (record : IdempotencyRecord) : InMemoryStore :=
  ⟨Function.update store.records key (some record)⟩

def removeExpired (store : InMemoryStore) (now : ℕ) : InMemoryStore :=
  ⟨fun key => (store.records key).filter fun r => !r.isExpired now⟩

end InMemoryStore

/-- A row of `idempotency_keys`; `createdAt` is in microseconds. -/
structure Row where
  requestHash : String
  responseBody : String
  statusCode : ℤ
  createdAt : ℕ
  deriving DecidableEq

/-- The row that a put inserts: an empty hash, the time cut to microseconds. -/
def IdempotencyRecord.row (r : IdempotencyRecord) : Row :=
  { requestHash := "", responseBody := r.body, statusCode := r.statusCode.toNat,
    createdAt := r.createdAt / 1000 }

/-- The record that a row is read as. -/
def Row.record (row : Row) : IdempotencyRecord :=
  { statusCode := UInt16.ofNat (row.statusCode % 65536).toNat, body := row.responseBody,
    createdAt := row.createdAt * 1000, ttl := DEFAULT_TTL }

structure PostgresStore where
  idempotencyKeys : String → Option Row

namespace PostgresStore

def empty : PostgresStore := ⟨fun _ => none⟩

def get (store : PostgresStore) (now : ℕ) (key : String) : Option IdempotencyRecord :=
  visible now ((store.idempotencyKeys key).map Row.record)

/-- `INSERT … ON CONFLICT (key) DO NOTHING`. -/
def put (store : PostgresStore) (key : String) (record : IdempotencyRecord) : PostgresStore :=
  ⟨Function.update store.idempotencyKeys key
    ((store.idempotencyKeys key).or (some record.row))⟩

/-- `DELETE … WHERE created_at < now - DEFAULT_TTL`, the bound in microseconds. -/
def removeExpired (store : PostgresStore) (now : ℕ) : PostgresStore :=
  ⟨fun key => (store.idempotencyKeys key).filter fun row =>
    !decide (row.createdAt < (now - DEFAULT_TTL) / 1000)⟩

end PostgresStore

/-! ### The stores side by side -/

structure Stores where
  /-- Time of the last operation. -/
  clock : ℕ
  memory : InMemoryStore
  postgres : PostgresStore

inductive StoreOp where
  | put (now : ℕ) (key : String) (record : IdempotencyRecord)
  | get (now : ℕ) (key : String)
  | removeExpired (now : ℕ)

/-- Both stores take the operation; times do not decrease and records live for `DEFAULT_TTL`. -/
def Stores.step (s : Stores) : StoreOp → Option Stores
  | .put now key record =>
    if s.clock ≤ now ∧ record.ttl = DEFAULT_TTL then
      some ⟨now, s.memory.put key record, s.postgres.put key record⟩
    else none
  | .get now _ => if s.clock ≤ now then some { s with clock := now } else none
  | .removeExpired now =>
    if s.clock ≤ now then some ⟨now, s.memory.removeExpired now, s.postgres.removeExpired now⟩
    else none

/-- A get of any key, now or later, returns the same from both. -/
def SameGets (s : Stores) : Prop :=
  ∀ now, s.clock ≤ now → ∀ key, s.memory.get now key = s.postgres.get now key

/-- A put meets no difference of the stores: it finds no row and is stamped with a whole
    microsecond, or finds its own record; or nothing of it can be read, now or later. -/
def Interchangeable (s : Stores) : StoreOp → Prop
  | .put now key r =>
    match s.postgres.idempotencyKeys key with
    | none => r.createdAt % 1000 = 0 ∨ r.isExpired now = true
    | some row => row.record = r ∨ r.isExpired now = true ∧ row.record.isExpired now = true
  | _ => True

section
variable {r : IdempotencyRecord} {row : Row} {now later : ℕ} {key : String}

theorem isExpired_iff : r.isExpired now = true ↔ r.ttl < now - r.createdAt :=
  decide_eq_true_iff

theorem isExpired_mono (h : r.isExpired now = true) (hle : now ≤ later) :
    r.isExpired later = true := by
  rw [isExpired_iff] at h ⊢
  omega

@[simp] theorem visible_of_expired (h : r.isExpired now = true) : visible now (some r) = none := by
  simp [visible, h]

@[simp] theorem visible_of_live (h : r.isExpired now = false) : visible now (some r) = some r := by
  simp [visible, h]

/-- Two records that read alike from now on are the same, or both gone. -/
theorem visible_alike_iff {r' : IdempotencyRecord} :
    (∀ later, now ≤ later → visible later (some r) = visible later (some r')) ↔
      r' = r ∨ r.isExpired now = true ∧ r'.isExpired now = true := by
  constructor
  · intro h
    have hnow := h now (Nat.le_refl _)
    rcases hr : r.isExpired now with - | - <;> rcases hr' : r'.isExpired now with - | - <;>
      simp [hr, hr'] at hnow ⊢
    exact hnow.symm
  · rintro (rfl | ⟨hr, hr'⟩) later hle
    · rfl
    · rw [visible_of_expired (isExpired_mono hr hle), visible_of_expired (isExpired_mono hr' hle)]

/-- Rereading a row loses what is below a microsecond. -/
theorem record_row (h : r.ttl = DEFAULT_TTL) :
    r.row.record = { r with createdAt := r.createdAt / 1000 * 1000 } := by
  have hstatus : UInt16.ofNat ((r.statusCode.toNat : ℤ) % 65536).toNat = r.statusCode := by
    have hlt := r.statusCode.toNat_lt
    rw [Int.emod_eq_of_lt (by omega) (by omega), Int.toNat_natCast, UInt16.ofNat_toNat]
  rw [IdempotencyRecord.row, Row.record, hstatus, h]

theorem record_row_eq_iff (h : r.ttl = DEFAULT_TTL) :
    r.row.record = r ∨ r.isExpired now = true ∧ r.row.record.isExpired now = true ↔
      r.createdAt % 1000 = 0 ∨ r.isExpired now = true := by
  rw [record_row h]
  refine or_congr ⟨fun heq => ?_, fun hmod => ?_⟩ ⟨fun hexp => hexp.1, fun hexp => ⟨hexp, ?_⟩⟩
  · have hcreated := congrArg IdempotencyRecord.createdAt heq
    dsimp only at hcreated
    omega
  · have hcreated : r.createdAt / 1000 * 1000 = r.createdAt := by omega
    rw [hcreated]
  · rw [isExpired_iff] at hexp ⊢
    dsimp only
    omega

/-! ### Purging -/

theorem memory_get_removeExpired (store : InMemoryStore) (hle : now ≤ later) (key : String) :
    (store.removeExpired now).get later key = store.get later key := by
  rw [InMemoryStore.get, InMemoryStore.get, InMemoryStore.removeExpired]
  dsimp only
  cases hrec : store.records key with
  | none => rfl
  | some r =>
    cases hexp : r.isExpired now with
    | false => rw [← visible, visible_of_live hexp]
    | true => rw [← visible, visible_of_expired hexp, visible_of_expired (isExpired_mono hexp hle)]; rfl

theorem postgres_get_removeExpired (store : PostgresStore) (hle : now ≤ later) (key : String) :
    (store.removeExpired now).get later key = store.get later key := by
  rw [PostgresStore.get, PostgresStore.get, PostgresStore.removeExpired]
  dsimp only
  cases hrow : store.idempotencyKeys key with
  | none => rfl
  | some row =>
    by_cases hdel : row.createdAt < (now - DEFAULT_TTL) / 1000
    · -- a deleted row had expired
      have hexp : row.record.isExpired later = true := by
        rw [isExpired_iff, Row.record]
        dsimp only
        omega
      rw [Option.filter_some_neg (by simp [hdel]), Option.map_some, visible_of_expired hexp]
      rfl
    · rw [Option.filter_some_pos (by simp [hdel])]

/-! ### A get after a put -/

section
variable (memory : InMemoryStore) (postgres : PostgresStore) (r : IdempotencyRecord) (now : ℕ)
  {key key' : String}

theorem records_put (key key' : String) :
    (memory.put key r).records key' = if key' = key then some r else memory.records key' :=
  Function.update_apply ..

theorem memory_get_put (key : String) :
    (memory.put key r).get now key = visible now (some r) := by
  rw [InMemoryStore.get, InMemoryStore.put]
  exact congrArg _ (Function.update_self ..)

theorem memory_get_put_of_ne (h : key' ≠ key) :
    (memory.put key r).get now key' = memory.get now key' := by
  rw [InMemoryStore.get, InMemoryStore.put]
  exact congrArg _ (Function.update_of_ne h ..)

theorem postgres_get_put (key : String) :
    (postgres.put key r).get now key =
      visible now (((postgres.idempotencyKeys key).or (some r.row)).map Row.record) := by
  rw [PostgresStore.get, PostgresStore.put]
  exact congrArg _ (congrArg _ (Function.update_self ..))

theorem postgres_get_put_of_ne (h : key' ≠ key) :
    (postgres.put key r).get now key' = postgres.get now key' := by
  rw [PostgresStore.get, PostgresStore.put]
  exact congrArg _ (congrArg _ (Function.update_of_ne h ..))

end

end

/-! ### Runs -/

section
variable {s t : Stores} {a : StoreOp}

/-- Whether the stores still answer alike after an operation. -/
theorem sameGets_step_iff (hs : s.step a = some t) (h : SameGets s) :
    SameGets t ↔ Interchangeable s a := by
  cases a with
  | get now key =>
    obtain ⟨hle, ⟨⟩⟩ := Option.ite_none_right_eq_some.mp hs
    exact iff_of_true (fun later hlater => h later (Nat.le_trans hle hlater)) trivial
  | removeExpired now =>
    obtain ⟨hle, ⟨⟩⟩ := Option.ite_none_right_eq_some.mp hs
    refine iff_of_true (fun later hlater key => ?_) trivial
    rw [memory_get_removeExpired _ hlater, postgres_get_removeExpired _ hlater]
    exact h later (Nat.le_trans hle hlater) key
  | put now key r =>
    obtain ⟨⟨hle, httl⟩, ⟨⟩⟩ := Option.ite_none_right_eq_some.mp hs
    -- other keys are untouched
    have hkey : SameGets ⟨now, s.memory.put key r, s.postgres.put key r⟩ ↔
        ∀ later, now ≤ later → visible later (some r) =
          visible later (((s.postgres.idempotencyKeys key).or (some r.row)).map Row.record) := by
      constructor
      · intro hput later hlater
        rw [← memory_get_put s.memory r later key, ← postgres_get_put s.postgres r later key]
        exact hput later hlater key
      · intro hput later hlater key'
        by_cases hk : key' = key
        · rw [hk, memory_get_put, postgres_get_put]
          exact hput later hlater
        · rw [memory_get_put_of_ne _ _ _ hk, postgres_get_put_of_ne _ _ _ hk]
          exact h later (Nat.le_trans hle hlater) key'
    rw [hkey, Interchangeable]
    cases s.postgres.idempotencyKeys key with
    | none => exact visible_alike_iff.trans (record_row_eq_iff httl)
    | some row => exact visible_alike_iff

end

/-- The stores answer every get alike exactly when every put is interchangeable. -/
theorem sameGets_iff {s u : Stores} {ops : List StoreOp} (h : SameGets s)
    (hrun : AnyRun Stores.step s ops u) :
    Throughout Stores.step SameGets s ops ↔ Run Stores.step Interchangeable s ops u :=
  hrun.throughout_iff (G := SameGets) (P := Interchangeable) (fun hsame => hsame)
    (fun hP hs hsame => (sameGets_step_iff hs hsame).mpr hP)
    (fun hs hsame ht => (sameGets_step_iff hs hsame).mp ht) h

/-- Both stores as they start. -/
def Stores.new : Stores := ⟨0, .new, .empty⟩

theorem sameGets_new : SameGets .new := fun _ _ _ => rfl

def created (body : String) (createdAt : ℕ) : IdempotencyRecord :=
  { statusCode := 201, body, createdAt, ttl := DEFAULT_TTL }

/-- A key is put again within its ttl: one store returns the new record, the other the old one. -/
theorem not_sameGets_putTwice :
    ¬ ∀ (s u : Stores) (ops : List StoreOp), SameGets s → AnyRun Stores.step s ops u →
      Throughout Stores.step SameGets s ops := by
  intro h
  have hall := h .new _ [.put 1000000000 "k" (created "first" 1000000000),
    .put 2000000000 "k" (created "second" 2000000000)] sameGets_new
    (.cons trivial rfl (.cons trivial rfl (.nil _)))
  have hget := (((hall.2 _ rfl).2 _ rfl).head) 2000000000 (Nat.le_refl _) "k"
  exact absurd hget (by decide)

/-- A key that is put once, read, and purged. -/
theorem sameGets_putOnce :
    Throughout Stores.step SameGets .new [.put 1000000000 "k" (created "first" 1000000000),
      .get 2000000000 "k", .removeExpired 86402000000000] := by
  refine (sameGets_iff sameGets_new (.cons trivial rfl (.cons trivial rfl (.cons trivial rfl
    (.nil _))))).mpr (.cons ?_ rfl (.cons trivial rfl (.cons trivial rfl (.nil _))))
  exact .inl rfl

end SorobanPulse.Idempotency
