import SorobanPulse.Dedup.ReplicaDedup
import SorobanPulse.Lib.Exclusion

/-! Interleavings of the replicas' dedup transactions, statement by statement.

    Every replica runs `is_duplicate` for one fingerprint and, when the answer is `false`, goes on to
    `register_fingerprint` and to processing the event. The check and the registration are separate
    transactions; each takes the transaction-scoped advisory lock of the fingerprint after `BEGIN`
    (which fixes `NOW()`) and drops it at `COMMIT`. Committed rows are visible to the statements that
    follow.

        idle ─▶ missed ─begin▶ checkBegun ─lock▶ checkLocked ─▶ eventsRead ─▶ answering ─commit▶ ┐
        ┌───────────────────────────────── false ─────────────────────────────────────────────── ┘
        answered ─begin▶ regBegun ─lock▶ regLocked ─insert▶ inserted ─commit▶ registered ─▶ … ─▶ idle

    `ExactlyOnce` — two replicas obtain `false` only more than a window apart — fails when a check
    reads between another replica's negative read and the commit of its registration. -/

namespace SorobanPulse.Dedup
open Lib

/-- Where a replica is. `now` is the transaction's `NOW()`, `at` the instant of the answer. -/
inductive Pc (R : Type) where
  | idle
  | missed
  | checkBegun (now : ℤ)
  | checkLocked (now : ℤ)
  | eventsRead (now : ℤ)
  | answering (now : ℤ) (duplicate : Bool)
  | answered (at_ : ℤ)
  | regBegun (at_ now : ℤ)
  | regLocked (at_ now : ℤ)
  | inserted (at_ : ℤ) (pending : Option (DedupRow R))
  | registered
  | processing

/-- The shared tables and locks, the clock, every replica's position and map entry for the
    fingerprint, and the `false` answers given so far. -/
structure System (R : Type) where
  db : Tables R
  locks : LockTable UInt32 R
  clock : ℤ
  pc : R → Pc R
  localHash : R → Option ℤ
  falses : List (R × ℤ)

def System.init {R : Type} (db : Tables R) (clock : ℤ) : System R :=
  { db, locks := .empty, clock, pc := fun _ => .idle, localHash := fun _ => none, falses := [] }

inductive Stmt (R : Type) where
  | tick (d : ℕ)
  | readLocal (r : R)
  | begin (r : R)
  | lock (r : R)
  | readEvents (r : R)
  | readReplicas (r : R)
  | insert (r : R)
  | commit (r : R)
  | updateLocal (r : R)
  | process (r : R) (stored : Bool)

section
variable {R : Type} [DecidableEq R] (cfg : ReplicaDedupConfig) (fingerprint : String)

def System.goto (s : System R) (r : R) (p : Pc R) : System R :=
  { s with pc := Function.update s.pc r p }

/-- `SELECT pg_advisory_xact_lock($1)`: enabled when the lock is granted. -/
def System.lockXact (s : System R) (r : R) (p : Pc R) : Option (System R) :=
  let granted := s.locks.tryLock (deriveLockId fingerprint) r
  if granted.1 then some ({ s with locks := granted.2 }.goto r p) else none

/-- `COMMIT`: the transaction's lock is dropped. -/
def System.commitXact (s : System R) (r : R) (p : Pc R) : System R :=
  { s with locks := s.locks.endSession r }.goto r p

def System.step (s : System R) : Stmt R → Option (System R)
  | .tick d => some { s with clock := s.clock + d }
  | .readLocal r =>
    match s.pc r with
    | .idle => some (if localHit cfg (s.localHash r) s.clock then s else s.goto r .missed)
    | _ => none
  | .begin r =>
    match s.pc r with
    | .missed => some (s.goto r (.checkBegun s.clock))
    | .answered at_ => some (s.goto r (.regBegun at_ s.clock))
    | _ => none
  | .lock r =>
    match s.pc r with
    | .checkBegun now => s.lockXact fingerprint r (.checkLocked now)
    | .regBegun at_ now => s.lockXact fingerprint r (.regLocked at_ now)
    | _ => none
  | .readEvents r =>
    match s.pc r with
    | .checkLocked now =>
      some (s.goto r
        (if 0 < countEvents cfg s.db fingerprint now then .answering now true else .eventsRead now))
    | _ => none
  | .readReplicas r =>
    match s.pc r with
    | .eventsRead now =>
      some (s.goto r (.answering now (decide (0 < countReplicas cfg s.db fingerprint now))))
    | _ => none
  | .insert r =>
    match s.pc r with
    | .regLocked at_ now =>
      some (s.goto r (.inserted at_ (pendingRow s.db.replicas ⟨fingerprint, r, now⟩)))
    | _ => none
  | .commit r =>
    match s.pc r with
    | .answering _ true => some (s.commitXact r .idle)
    | .answering _ false =>
      some { s.commitXact r (.answered s.clock) with falses := (r, s.clock) :: s.falses }
    | .inserted _ pending =>
      some { s.commitXact r .registered with
        db := { s.db with replicas := s.db.replicas ++ pending.toList } }
    | _ => none
  | .updateLocal r =>
    match s.pc r with
    | .registered =>
      some { s.goto r .processing with localHash := Function.update s.localHash r (some s.clock) }
    | _ => none
  | .process r stored =>
    match s.pc r with
    | .processing =>
      some { s.goto r .idle with
        db := { s.db with
          events := if stored then (fingerprint, s.clock) :: s.db.events else s.db.events } }
    | _ => none

/-- Between its negative read and the commit of its registration. -/
def Pc.Pending : Pc R → Prop
  | .answering _ duplicate => duplicate = false
  | .answered _ | .regBegun .. | .regLocked .. | .inserted .. => True
  | _ => False

/-- Exactly once: two replicas that obtain `false` do so more than a window apart. -/
def System.ExactlyOnce (s : System R) : Prop :=
  ∀ r r' t t', (r, t) ∈ s.falses → (r', t') ∈ s.falses → r ≠ r' →
    t + cfg.window < t' ∨ t' + cfg.window < t

/-- No check reads `event_dedup_replicas` while another replica is between its own negative read and
    the commit of its registration, and no registration meets an older row of its own. -/
def System.Meets (s : System R) : Stmt R → Prop
  | .readReplicas r => ∀ r', r' ≠ r → ¬ (s.pc r').Pending
  | .insert r =>
    ∀ at_ now, s.pc r = .regLocked at_ now →
      ∀ row ∈ s.db.replicas, row.fingerprint = fingerprint → row.replicaId = r → now ≤ row.createdAt
  | _ => True

/-! ### The invariant -/

variable {cfg : ReplicaDedupConfig} {fingerprint : String} {s t : System R}

/-- A `false` answer given at `at_` whose registration has not been committed yet. -/
def Pc.AnsweredAt (t : ℤ) : Pc R → Prop
  | .answered at_ | .regBegun at_ _ | .regLocked at_ _ | .inserted at_ _ => at_ = t
  | _ => False

/-- The instants a position carries are ordered, and a pending insert will cover its answer. -/
def Pc.Ok (fingerprint : String) (rows : List (DedupRow R)) (clock : ℤ) : Pc R → Prop
  | .checkBegun now | .checkLocked now | .eventsRead now | .answering now _ => now ≤ clock
  | .answered at_ => at_ ≤ clock
  | .regBegun at_ now | .regLocked at_ now => at_ ≤ now
  | .inserted at_ pending => Covered fingerprint (rows ++ pending.toList) at_
  | _ => True

/-- One pending registration at most; every `false` answer is still pending or covered by a row; a
    check about to answer `false` began a window after every answer given elsewhere. -/
structure System.Inv (cfg : ReplicaDedupConfig) (fingerprint : String) (rows : List (DedupRow R))
    (clock : ℤ) (pc : R → Pc R) (falses : List (R × ℤ)) : Prop where
  ok : ∀ r, (pc r).Ok fingerprint rows clock
  single : ∀ r r', (pc r).Pending → (pc r').Pending → r = r'
  backed : ∀ r t, (r, t) ∈ falses → (pc r).AnsweredAt t ∨ Covered fingerprint rows t
  apart : ∀ r now, pc r = .answering now false →
    ∀ r' t, (r', t) ∈ falses → r' ≠ r → t + cfg.window < now
  once : ∀ r r' t t', (r, t) ∈ falses → (r', t') ∈ falses → r ≠ r' →
    t + cfg.window < t' ∨ t' + cfg.window < t

/-- The invariant of a whole state; locks, maps and the events table do not enter it. -/
abbrev System.InvAt (cfg : ReplicaDedupConfig) (fingerprint : String) (s : System R) : Prop :=
  System.Inv cfg fingerprint s.db.replicas s.clock s.pc s.falses

omit [DecidableEq R] in
theorem Pc.Ok.mono {rows rows' : List (DedupRow R)} {clock clock' : ℤ} {p : Pc R}
    (hrows : ∀ row ∈ rows, row ∈ rows') (hclock : clock ≤ clock')
    (h : p.Ok fingerprint rows clock) : p.Ok fingerprint rows' clock' := by
  cases p with
  | checkBegun now | checkLocked now | eventsRead now | answering now dup | answered now =>
    exact Int.le_trans h hclock
  | inserted at_ pending =>
    obtain ⟨row, hrow, hf, ht⟩ := h
    refine ⟨row, List.mem_append.mpr ?_, hf, ht⟩
    exact (List.mem_append.mp hrow).imp (hrows row) id
  | _ => exact h

omit [DecidableEq R] in
/-- Time passes and rows are committed without disturbing the invariant. -/
theorem System.Inv.mono {rows rows' : List (DedupRow R)} {clock clock' : ℤ} {pc : R → Pc R}
    {falses : List (R × ℤ)} (hrows : ∀ row ∈ rows, row ∈ rows') (hclock : clock ≤ clock')
    (hi : System.Inv cfg fingerprint rows clock pc falses) :
    System.Inv cfg fingerprint rows' clock' pc falses where
  ok r := (hi.ok r).mono hrows hclock
  single := hi.single
  backed r t h := (hi.backed r t h).imp id (·.mono hrows)
  apart := hi.apart
  once := hi.once

omit [DecidableEq R] in
theorem System.Inv.alone {rows : List (DedupRow R)} {clock : ℤ} {pc : R → Pc R}
    {falses : List (R × ℤ)} (hi : System.Inv cfg fingerprint rows clock pc falses) :
    AtMostOne Pc.Pending pc :=
  hi.single

omit [DecidableEq R] in
theorem System.Inv.ok_of {rows : List (DedupRow R)} {clock : ℤ} {pc : R → Pc R}
    {falses : List (R × ℤ)} {r : R} {p : Pc R}
    (hi : System.Inv cfg fingerprint rows clock pc falses) (hr : pc r = p) :
    p.Ok fingerprint rows clock := by
  rw [← hr]
  exact hi.ok r

/-- A replica may move as long as it gains no pending answer and drops none that is not covered. -/
theorem System.Inv.move {rows : List (DedupRow R)} {clock : ℤ} {pc : R → Pc R}
    {falses : List (R × ℤ)} {r : R} {p : Pc R}
    (hi : System.Inv cfg fingerprint rows clock pc falses) (hok : p.Ok fingerprint rows clock)
    (hpending : p.Pending → (pc r).Pending)
    (hans : ∀ t, (r, t) ∈ falses → (pc r).AnsweredAt t → p.AnsweredAt t ∨ Covered fingerprint rows t)
    (hneg : ∀ now, p ≠ .answering now false) :
    System.Inv cfg fingerprint rows clock (Function.update pc r p) falses where
  ok := (Function.forall_update_iff pc fun _ p => p.Ok fingerprint rows clock).mpr
    ⟨hok, fun r' _ => hi.ok r'⟩
  single := hi.alone.move hpending
  backed r' t h := by
    rcases eq_or_ne r' r with rfl | hr
    · rw [Function.update_self]
      exact (hi.backed r' t h).elim (hans t h) .inr
    · rw [Function.update_of_ne hr]; exact hi.backed r' t h
  apart r' now h := by
    rcases eq_or_ne r' r with rfl | hr
    · rw [Function.update_self] at h; exact absurd h (hneg now)
    · rw [Function.update_of_ne hr] at h; exact hi.apart r' now h
  once := hi.once

omit [DecidableEq R] in
theorem Pc.AnsweredAt.pending {p : Pc R} {t : ℤ} (h : p.AnsweredAt t) : p.Pending := by
  cases p <;> first | exact h.elim | trivial

/-- The negative read: nobody else is pending, so every answer given elsewhere has its row, and the
    read found no row inside the window. -/
theorem System.Inv.readNegative {rows : List (DedupRow R)} {clock now : ℤ} {pc : R → Pc R}
    {falses : List (R × ℤ)} {r : R} (hfit : cfg.Fits)
    (hi : System.Inv cfg fingerprint rows clock pc falses) (hr : pc r = .eventsRead now)
    (hm : ∀ r', r' ≠ r → ¬ (pc r').Pending)
    (hnone : ∀ row ∈ rows, row.fingerprint = fingerprint → row.createdAt < cfg.windowStart now) :
    System.Inv cfg fingerprint rows clock (Function.update pc r (.answering now false)) falses := by
  have halone : AtMostOne Pc.Pending (Function.update pc r (.answering now false)) := .enter hm
  refine ⟨?_, halone, fun r' t h => ?_, fun r' now' hr' r'' t h hne => ?_, hi.once⟩
  · have hok := hi.ok_of hr
    exact (Function.forall_update_iff pc fun _ p => p.Ok fingerprint rows clock).mpr
      ⟨hok, fun r' _ => hi.ok r'⟩
  · rcases eq_or_ne r' r with rfl | hne
    · have hb := hi.backed r' t h
      rw [hr] at hb
      exact .inr (hb.resolve_left id)
    · rw [Function.update_of_ne hne]; exact hi.backed r' t h
  · obtain rfl : r' = r := halone r' r (by rw [hr']; rfl) (by rw [Function.update_self]; rfl)
    rw [Function.update_self] at hr'
    cases hr'
    -- the other answer is not pending any more, so its row is there, and older than the window
    have hcov := (hi.backed r'' t h).resolve_left fun ha => hm r'' hne ha.pending
    obtain ⟨row, hrow, hf, ht⟩ := hcov
    have hold := hnone row hrow hf
    rw [hfit.windowStart] at hold
    omega

/-- The answer `false` is returned. -/
theorem System.Inv.answer {rows : List (DedupRow R)} {clock now : ℤ} {pc : R → Pc R}
    {falses : List (R × ℤ)} {r : R} (hi : System.Inv cfg fingerprint rows clock pc falses)
    (hr : pc r = .answering now false) :
    System.Inv cfg fingerprint rows clock (Function.update pc r (.answered clock))
      ((r, clock) :: falses) := by
  have hle : now ≤ clock := hi.ok_of hr
  have hrp : (pc r).Pending := by rw [hr]; rfl
  have hapart : ∀ r' t, (r', t) ∈ falses → r' ≠ r → t + cfg.window < clock := fun r' t h hne =>
    Int.lt_of_lt_of_le (hi.apart r now hr r' t h hne) hle
  refine ⟨?_, hi.alone.move fun _ => hrp, fun r' t h => ?_, fun r' now' hr' r'' t h hne => ?_,
    fun r₁ r₂ t₁ t₂ h₁ h₂ hne => ?_⟩
  · exact (Function.forall_update_iff pc fun _ p => p.Ok fingerprint rows clock).mpr
      ⟨Int.le_refl _, fun r' _ => hi.ok r'⟩
  · rcases List.mem_cons.mp h with hnew | hprev
    · cases hnew; exact .inl (by rw [Function.update_self]; rfl)
    · rcases eq_or_ne r' r with rfl | hne
      · have hb := hi.backed r' t hprev
        rw [hr] at hb
        exact .inr (hb.resolve_left id)
      · rw [Function.update_of_ne hne]; exact hi.backed r' t hprev
  · -- a second replica about to answer would be pending at the same time
    exfalso
    rcases eq_or_ne r' r with rfl | hne'
    · rw [Function.update_self] at hr'; cases hr'
    · rw [Function.update_of_ne hne'] at hr'
      exact hne' (hi.single r' r (by rw [hr']; rfl) hrp)
  · rcases List.mem_cons.mp h₁ with h₁ | h₁ <;> rcases List.mem_cons.mp h₂ with h₂ | h₂
    · cases h₁; cases h₂; exact absurd rfl hne
    · cases h₁; exact .inr (hapart r₂ t₂ h₂ hne.symm)
    · cases h₂; exact .inl (hapart r₁ t₁ h₁ hne)
    · exact hi.once r₁ r₂ t₁ t₂ h₁ h₂ hne

/-! ### Steps and runs -/

theorem System.inv_step (hfit : cfg.Fits) {a : Stmt R} (hm : s.Meets fingerprint a)
    (hs : s.step cfg fingerprint a = some t) (hi : s.InvAt cfg fingerprint) :
    t.InvAt cfg fingerprint := by
  cases a with
  | tick d =>
    cases hs
    exact hi.mono (fun _ h => h) (Int.le_add_of_nonneg_right (Int.natCast_nonneg d))
  | readLocal r =>
    simp only [step] at hs
    split at hs <;> cases hs
    split
    · -- a replica that has answered keeps its answer
      exact hi
    · next hr _ => exact hi.move trivial (by simp [Pc.Pending]) (by simp [hr, Pc.AnsweredAt]) (by simp)
  | begin r =>
    simp only [step] at hs
    split at hs <;> cases hs
    · next hr =>  -- with content deduplication off, no window was consulted
      exact hi.move (Int.le_refl s.clock) (by simp [Pc.Pending]) (by simp [hr, Pc.AnsweredAt]) (by simp)
    · next at_ hr =>
      have hok := hi.ok_of hr
      exact hi.move hok (by simp [hr, Pc.Pending])
        (fun _ _ h => .inl (by rw [hr] at h; exact h)) (by simp)
  | lock r =>
    simp only [step] at hs
    split at hs
    · next now hr =>
      obtain ⟨_, hs⟩ := Option.ite_none_right_eq_some.mp hs
      cases hs
      have hok := hi.ok_of hr
      exact hi.move hok (by simp [Pc.Pending]) (by simp [hr, Pc.AnsweredAt]) (by simp)
    · next at_ now hr =>
      obtain ⟨_, hs⟩ := Option.ite_none_right_eq_some.mp hs
      cases hs
      have hok := hi.ok_of hr
      exact hi.move hok (by simp [hr, Pc.Pending]) (fun _ _ h => .inl (by rw [hr] at h; exact h))
        (by simp)
    · cases hs
  | readEvents r =>
    simp only [step] at hs
    split at hs <;> cases hs
    next now hr =>
    have hok := hi.ok_of hr
    split
    · -- a row of its own stands in the window
      exact hi.move hok (by simp [Pc.Pending]) (by simp [hr, Pc.AnsweredAt]) (by simp)
    · exact hi.move hok (by simp [Pc.Pending]) (by simp [hr, Pc.AnsweredAt]) (by simp)
  | readReplicas r =>
    simp only [step] at hs
    split at hs <;> cases hs
    next now hr =>
    by_cases hcount : 0 < countReplicas cfg s.db fingerprint now
    · -- counting none opens the way to an insert: this is where the window must still be empty
      rw [decide_eq_true hcount]
      have hok := hi.ok_of hr
      exact hi.move hok (by simp [Pc.Pending]) (by simp [hr, Pc.AnsweredAt]) (by simp)
    · rw [decide_eq_false hcount]
      refine hi.readNegative hfit hr hm fun row hrow hf => ?_
      by_contra hin
      exact hcount (List.countP_pos_iff.mpr
        ⟨row, hrow, decide_eq_true ⟨hf, Int.not_lt.mp hin⟩⟩)
  | insert r =>
    simp only [step] at hs
    split at hs <;> cases hs
    next at_ now hr =>
    exact hi.move (covered_insertRow (hi.ok_of hr) (hm at_ now hr)) (by simp [hr, Pc.Pending])
      (fun _ _ h => .inl (by rw [hr] at h; exact h)) (by simp)
  | commit r =>
    simp only [step] at hs
    split at hs <;> cases hs
    · next hr => exact hi.move trivial (by simp [Pc.Pending]) (by simp [hr, Pc.AnsweredAt]) (by simp)
    · next hr => exact hi.answer hr
    · next at_ pending hr =>
      -- the pending row becomes visible, and covers the answer that it stands for
      have hcov := hi.ok_of hr
      refine (hi.mono (fun _ => List.mem_append_left _) (Int.le_refl _)).move trivial
        (by simp [Pc.Pending]) (fun t _ h => .inr ?_) (by simp)
      rw [hr] at h
      cases h
      exact hcov
  | updateLocal r =>
    simp only [step] at hs
    split at hs <;> cases hs
    next hr => exact hi.move trivial (by simp [Pc.Pending]) (by simp [hr, Pc.AnsweredAt]) (by simp)
  | process r stored =>
    simp only [step] at hs
    split at hs <;> cases hs
    next hr => exact hi.move trivial (by simp [Pc.Pending]) (by simp [hr, Pc.AnsweredAt]) (by simp)

omit [DecidableEq R] in
theorem System.inv_init (db : Tables R) (clock : ℤ) :
    (System.init db clock).InvAt cfg fingerprint where
  ok _ := trivial
  single _ _ h := h.elim
  backed _ _ h := absurd h List.not_mem_nil
  apart _ _ h := by cases h
  once _ _ _ _ h := absurd h List.not_mem_nil

/-- Exactly once, in every interleaving in which no check reads inside another replica's gap. -/
theorem exactlyOnce_of_meets (cfg : ReplicaDedupConfig) (hfit : cfg.Fits) (fingerprint : String)
    (db : Tables R) (clock : ℤ) (stmts : List (Stmt R)) (s : System R)
    (hrun : Run (System.step cfg fingerprint) (System.Meets fingerprint) (.init db clock) stmts s) :
    s.ExactlyOnce cfg :=
  (hrun.invariant (System.inv_step hfit) (System.inv_init db clock)).once

/-- One replica checks from start to answer. -/
def check (r : R) : List (Stmt R) :=
  [.readLocal r, .begin r, .lock r, .readEvents r, .readReplicas r, .commit r]

/-- Without the condition both replicas check before either registers, and both obtain `false`. -/
theorem not_exactlyOnce_check_check :
    ¬ ∀ (R : Type) [DecidableEq R] (cfg : ReplicaDedupConfig) (fingerprint : String) (db : Tables R)
      (clock : ℤ) (stmts : List (Stmt R)) (s : System R),
      AnyRun (System.step cfg fingerprint) (.init db clock) stmts s → s.ExactlyOnce cfg := by
  intro h
  have honce := h Bool {} "fp" { events := [], replicas := [] } 0 (check false ++ check true) _
    (anyRun_iff_exec.mpr rfl)
  exact absurd (honce false true 0 0 (by decide) (by decide) (by decide)) (by decide)

/-- A replica registers after its check. -/
def register (r : R) : List (Stmt R) := [.begin r, .lock r, .insert r, .commit r]

/-- The state a list of enabled statements leads to from empty tables. -/
abbrev after (stmts : List (Stmt Bool))
    (h : (exec (System.step {} "fp") (.init { events := [], replicas := [] } 0) stmts).isSome) :
    System Bool :=
  (exec (System.step {} "fp") (.init { events := [], replicas := [] } 0) stmts).get h

/-- A replica checks and registers, then the other one checks. -/
theorem exactlyOnce_takeTurns :
    (after (check false ++ register false ++ check true) rfl).ExactlyOnce {} := by
  refine exactlyOnce_of_meets {} (by simp [ReplicaDedupConfig.Fits]) "fp"
    { events := [], replicas := [] } 0 (check false ++ register false ++ check true) _ ?_
  -- only the two reads and the insert have a condition to meet
  have hcheck : Run (System.step {} "fp") (System.Meets "fp")
      (.init { events := [], replicas := [] } 0) (check false) (after (check false) rfl) := by
    refine .cons trivial rfl (.cons trivial rfl (.cons trivial rfl (.cons trivial rfl
      (.cons ?_ rfl (.cons trivial rfl (.nil _))))))
    intro r' hne
    obtain rfl : r' = true := by cases r' <;> simp_all
    exact id
  have hregister : Run (System.step {} "fp") (System.Meets "fp")
      (after (check false) rfl) (register false) (after (check false ++ register false) rfl) := by
    refine .cons trivial rfl (.cons trivial rfl (.cons ?_ rfl (.cons trivial rfl (.nil _))))
    intro at_ now h row hrow
    exact absurd hrow List.not_mem_nil
  refine (hcheck.append hregister).append ?_
  refine .cons trivial rfl (.cons trivial rfl (.cons trivial rfl (.cons trivial rfl
    (.cons ?_ rfl (.cons trivial rfl (.nil _))))))
  intro r' hne
  obtain rfl : r' = false := by cases r' <;> simp_all
  exact id

end

end SorobanPulse.Dedup
