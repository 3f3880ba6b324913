import SorobanPulse.Lib.Run
import Mathlib

/-! The notification batcher, and what becomes of the notifications it is given.

        add a  add b  add a'  add c                    a' has the key of a
          │      │      ╳       │
          ╰──────┴──── pending ─┴──▶ a b c ──▶ one batch, at a size, after a time, or on demand

    A batch is flushed with all that is pending; the keys that were seen and the clock start anew.
    Nothing but repeated keys is lost. How many were dropped is counted in the metrics, and the
    `duplicates_dropped` of a batch is 0 all the same. -/

namespace SorobanPulse.Notifications
open Lib

/-- Times and durations in nanoseconds. -/
structure BatchConfig where
  enabled : Bool
  maxBatchSize : ℕ
  maxBatchWindow : ℕ
  dedupEnabled : Bool

structure QueuedNotification where
  id : String
  dedupKey : Option String
  channel : String
  payload : String
  deriving DecidableEq

inductive FlushReason where
  | SizeThreshold
  | TimeWindow
  | Manual
  deriving DecidableEq

structure FlushedBatch where
  notifications : List QueuedNotification
  duplicatesDropped : ℕ
  reason : FlushReason
  deriving DecidableEq

/-- The counters wrap. -/
structure BatchMetrics where
  notificationsEnqueued : UInt64 := 0
  notificationsDelivered : UInt64 := 0
  batchesFlushed : UInt64 := 0
  duplicatesDropped : UInt64 := 0

structure NotificationBatcher where
  config : BatchConfig
  pending : List QueuedNotification := []
  seenDedupKeys : List String := []
  batchStartedAt : Option ℕ := none
  metrics : BatchMetrics := {}

namespace NotificationBatcher
variable (b : NotificationBatcher)

def flush (reason : FlushReason) : NotificationBatcher × FlushedBatch :=
  ({ b with
      pending := []
      batchStartedAt := none
      seenDedupKeys := []
      metrics := { b.metrics with
        batchesFlushed := b.metrics.batchesFlushed + 1
        notificationsDelivered := b.metrics.notificationsDelivered + .ofNat b.pending.length } },
    { notifications := b.pending, duplicatesDropped := 0, reason })

/-- The key is in the set already. -/
def seen (n : QueuedNotification) : Bool :=
  b.config.dedupEnabled && n.dedupKey.any b.seenDedupKeys.contains

/-- What `add` does with a notification that it does not drop. -/
def push (n : QueuedNotification) (now : ℕ) : NotificationBatcher :=
  { b with
    seenDedupKeys := if b.config.dedupEnabled then n.dedupKey.toList ++ b.seenDedupKeys
      else b.seenDedupKeys
    batchStartedAt := some (b.batchStartedAt.getD now)
    pending := b.pending ++ [n]
    metrics := { b.metrics with
      notificationsEnqueued := b.metrics.notificationsEnqueued + 1 } }

def add (n : QueuedNotification) (now : ℕ) : NotificationBatcher × Option FlushedBatch :=
  if b.config.enabled = false then
    (b, some { notifications := [n], duplicatesDropped := 0, reason := .Manual })
  else if b.seen n then
    ({ b with metrics := { b.metrics with
        duplicatesDropped := b.metrics.duplicatesDropped + 1 } }, none)
  else if b.config.maxBatchSize ≤ (b.push n now).pending.length then
    let flushed := (b.push n now).flush .SizeThreshold
    (flushed.1, some flushed.2)
  else (b.push n now, none)

/-- `elapsed` saturates. -/
def pollTimeWindow (now : ℕ) : NotificationBatcher × Option FlushedBatch :=
  if b.config.enabled = false ∨ b.pending = [] then (b, none)
  else match b.batchStartedAt with
    | none => (b, none)
    | some started =>
      if b.config.maxBatchWindow ≤ now - started then
        let flushed := b.flush .TimeWindow
        (flushed.1, some flushed.2)
      else (b, none)

def flushNow : NotificationBatcher × Option FlushedBatch :=
  if b.pending = [] then (b, none)
  else
    let flushed := b.flush .Manual
    (flushed.1, some flushed.2)

end NotificationBatcher

/-! ### Calls and their history -/

inductive Call where
  | add (n : QueuedNotification) (now : ℕ)
  | pollTimeWindow (now : ℕ)
  | flushNow

def NotificationBatcher.call (b : NotificationBatcher) : Call → NotificationBatcher × Option FlushedBatch
  | .add n now => b.add n now
  | .pollTimeWindow now => b.pollTimeWindow now
  | .flushNow => b.flushNow

structure Event where
  call : Call
  result : Option FlushedBatch

def Event.added (e : Event) : Option QueuedNotification :=
  match e.call with
  | .add n _ => some n
  | _ => none

/-- The latest call comes first. -/
abbrev History := List Event

/-- A batcher and the calls it has had. -/
structure Session where
  batcher : NotificationBatcher
  history : History

def Session.new (config : BatchConfig) : Session := { batcher := { config }, history := [] }

def Session.call (s : Session) (call : Call) : Session :=
  let (batcher, result) := s.batcher.call call
  { batcher, history := { call, result } :: s.history }

def Session.step (s : Session) (call : Call) : Option Session := some (s.call call)

def Session.run (s : Session) (calls : List Call) : Session := calls.foldl Session.call s

/-! ### What is expected -/

section
variable (dedup : Bool)

def sinceFlush (h : History) : History := h.takeWhile fun e => e.result.isNone

/-- A notification with its key was added since the previous flush. -/
def isDuplicate (h : History) (n : QueuedNotification) : Bool :=
  dedup && n.dedupKey.isSome &&
    (sinceFlush h).any fun e => e.added.any fun n' => n'.dedupKey = n.dedupKey

/-- The added notifications without the duplicates, in order. -/
def kept : History → List QueuedNotification
  | [] => []
  | e :: h => kept h ++ (e.added.filter fun n => !isDuplicate dedup h n).toList

/-- All batches in order, joined. -/
def flushed : History → List QueuedNotification
  | [] => []
  | e :: h => flushed h ++ (e.result.map FlushedBatch.notifications).getD []

/-- How many duplicates were added since the previous flush. -/
def dropped : History → ℕ
  | [] => 0
  | e :: h =>
    if e.result.isSome then 0
    else dropped h + (if e.added.any (isDuplicate dedup h) then 1 else 0)

/-- Every batch says how many duplicates came before it. -/
def Counted : History → Prop
  | [] => True
  | e :: h => Counted h ∧ ∀ batch, e.result = some batch → batch.duplicatesDropped = dropped dedup h

end

/-- What the claim on a sequence of calls comes to. -/
structure Conserved (s : Session) : Prop where
  conserved : flushed s.history ++ s.batcher.pending = kept s.batcher.config.dedupEnabled s.history
  sized : ∀ e ∈ s.history, ∀ batch, e.result = some batch →
    batch.notifications ≠ [] ∧ batch.notifications.length ≤ max 1 s.batcher.config.maxBatchSize
  counted : Counted s.batcher.config.dedupEnabled s.history

/-- The call empties what is pending. -/
def NotificationBatcher.Flushes (b : NotificationBatcher) : Call → Prop
  | .add n _ => b.config.enabled = true ∧ b.seen n = false ∧
      b.config.maxBatchSize ≤ b.pending.length + 1
  | .pollTimeWindow now => b.config.enabled = true ∧ b.pending ≠ [] ∧
      ∃ started, b.batchStartedAt = some started ∧ b.config.maxBatchWindow ≤ now - started
  | .flushNow => b.pending ≠ []

/-- No call flushes after a duplicate was dropped. -/
def FlushesClean (s : Session) (call : Call) : Prop :=
  s.batcher.Flushes call → dropped s.batcher.config.dedupEnabled s.history = 0

/-! ### One call -/

/-- All that a call can do. -/
inductive Effect (b b' : NotificationBatcher) : Call → Option FlushedBatch → Prop
  | passed {n now} : b.config.enabled = false → b' = b →
      Effect b b' (.add n now) (some ⟨[n], 0, .Manual⟩)
  | dropped {n now} : b.config.enabled = true → b.seen n = true → b'.config = b.config →
      b'.pending = b.pending → b'.seenDedupKeys = b.seenDedupKeys → Effect b b' (.add n now) none
  | queued {n now} : b.config.enabled = true → b.seen n = false → b' = b.push n now →
      b.pending.length + 1 < b.config.maxBatchSize → Effect b b' (.add n now) none
  | full {n now} : b.config.enabled = true → b.seen n = false → b'.config = b.config →
      b'.pending = [] → b'.seenDedupKeys = [] → b.config.maxBatchSize ≤ b.pending.length + 1 →
      Effect b b' (.add n now) (some ⟨b.pending ++ [n], 0, .SizeThreshold⟩)
  | emptied {call reason} : (∀ n now, call ≠ .add n now) → b.pending ≠ [] → b.Flushes call →
      b'.config = b.config → b'.pending = [] → b'.seenDedupKeys = [] →
      Effect b b' call (some ⟨b.pending, 0, reason⟩)
  | idle {call} : (∀ n now, call ≠ .add n now) → ¬b.Flushes call → b' = b → Effect b b' call none

theorem effect_call (b : NotificationBatcher) (call : Call) :
    Effect b (b.call call).1 call (b.call call).2 := by
  cases call with
  | add n now =>
    rw [NotificationBatcher.call, NotificationBatcher.add]
    split
    · -- batching is off, and the notification passes
      next hoff => exact .passed hoff rfl
    · next hon =>
      rw [Bool.not_eq_false] at hon
      split
      · -- of one event and channel only the first is kept
        next hseen => exact .dropped hon hseen rfl rfl rfl
      · next hseen =>
        rw [Bool.not_eq_true] at hseen
        split
        · -- the size is reached and the batch goes out
          next hfull =>
          refine .full hon hseen rfl rfl rfl ?_
          simpa [NotificationBatcher.push] using hfull
        · next hroom =>
          refine .queued hon hseen rfl ?_
          simpa [NotificationBatcher.push] using hroom
  | pollTimeWindow now =>
    have hadd : ∀ n t, Call.pollTimeWindow now ≠ .add n t := fun _ _ h => by cases h
    rw [NotificationBatcher.call, NotificationBatcher.pollTimeWindow]
    split
    · -- nothing to send
      next hidle =>
      refine .idle hadd ?_ rfl
      rintro ⟨hon, hpending, -⟩
      rcases hidle with hoff | hempty
      · rw [hon] at hoff; cases hoff
      · exact hpending hempty
    · next hbusy =>
      rw [not_or, Bool.not_eq_false] at hbusy
      split
      · -- a batch that was emptied in between has no start
        next hstart =>
        refine .idle hadd ?_ rfl
        rintro ⟨-, -, started, hstarted, -⟩
        rw [hstart] at hstarted
        cases hstarted
      · next started hstart =>
        split
        · next hdue => exact .emptied hadd hbusy.2 ⟨hbusy.1, hbusy.2, started, hstart, hdue⟩ rfl rfl rfl
        · -- the window is still open
          next hearly =>
          refine .idle hadd ?_ rfl
          rintro ⟨-, -, started', hstarted, hdue⟩
          rw [hstart] at hstarted
          cases hstarted
          exact hearly hdue
  | flushNow =>
    have hadd : ∀ n t, Call.flushNow ≠ .add n t := fun _ _ h => by cases h
    rw [NotificationBatcher.call, NotificationBatcher.flushNow]
    split
    · next hempty => exact .idle hadd (fun h => h hempty) rfl
    · next hne => exact .emptied hadd hne hne rfl rfl rfl

/-! ### What every call preserves -/

/-- What the batcher keeps agrees with what its history says. -/
structure Agrees (b : NotificationBatcher) (h : History) : Prop where
  conserved : flushed h ++ b.pending = kept b.config.dedupEnabled h
  sized : ∀ e ∈ h, ∀ batch, e.result = some batch →
    batch.notifications ≠ [] ∧ batch.notifications.length ≤ max 1 b.config.maxBatchSize
  keys : ∀ k, k ∈ b.seenDedupKeys ↔ b.config.dedupEnabled = true ∧
    ∃ e ∈ sinceFlush h, ∃ n, e.added = some n ∧ n.dedupKey = some k
  room : b.pending = [] ∨ b.pending.length < b.config.maxBatchSize
  off : b.config.enabled = false →
    b.pending = [] ∧ b.seenDedupKeys = [] ∧ dropped b.config.dedupEnabled h = 0

variable {b b' : NotificationBatcher} {h : History} {call : Call} {result : Option FlushedBatch}
  {n : QueuedNotification} {now : ℕ}

theorem agrees_new (config : BatchConfig) : Agrees { config } [] where
  conserved := rfl
  sized _ h := by cases h
  keys k := by simp [sinceFlush]
  room := .inl rfl
  off _ := ⟨rfl, rfl, rfl⟩

theorem Agrees.seen_eq (hb : Agrees b h) : b.seen n = isDuplicate b.config.dedupEnabled h n := by
  rw [Bool.eq_iff_iff, NotificationBatcher.seen, isDuplicate]
  cases hkey : n.dedupKey with
  | none => simp
  | some k =>
    simp only [Option.any_some, Bool.and_eq_true, List.contains_iff_mem, hb.keys k, Option.isSome_some,
      and_true, List.any_eq_true, Option.any_eq_true, decide_eq_true_eq]
    exact and_congr_right fun hdedup => by simp [hdedup]

@[simp] theorem sinceFlush_flush {batch : FlushedBatch} :
    sinceFlush (⟨call, some batch⟩ :: h) = [] := rfl

@[simp] theorem sinceFlush_none : sinceFlush (⟨call, none⟩ :: h) = ⟨call, none⟩ :: sinceFlush h := rfl

@[simp] theorem added_add : Event.added ⟨.add n now, result⟩ = some n := rfl

theorem added_of_ne_add (hcall : ∀ n now, call ≠ .add n now) : Event.added ⟨call, result⟩ = none := by
  cases call with
  | add n now => exact absurd rfl (hcall n now)
  | pollTimeWindow | flushNow => rfl

theorem kept_of_fresh {dedup : Bool} (hfresh : isDuplicate dedup h n = false) :
    kept dedup (⟨.add n now, result⟩ :: h) = kept dedup h ++ [n] := by
  simp [kept, Option.filter, hfresh]

theorem kept_of_duplicate {dedup : Bool} (hdup : isDuplicate dedup h n = true) :
    kept dedup (⟨.add n now, result⟩ :: h) = kept dedup h := by
  simp [kept, Option.filter, hdup]

theorem kept_of_ne_add {dedup : Bool} (hcall : ∀ n now, call ≠ .add n now) :
    kept dedup (⟨call, result⟩ :: h) = kept dedup h := by
  simp [kept, added_of_ne_add hcall]

/-- The batches of a history and one more. -/
theorem sized_cons {bound : ℕ}
    (hold : ∀ e ∈ h, ∀ batch, e.result = some batch →
      batch.notifications ≠ [] ∧ batch.notifications.length ≤ bound)
    (hnew : ∀ batch, result = some batch →
      batch.notifications ≠ [] ∧ batch.notifications.length ≤ bound) :
    ∀ e ∈ (⟨call, result⟩ : Event) :: h, ∀ batch, e.result = some batch →
      batch.notifications ≠ [] ∧ batch.notifications.length ≤ bound := by
  intro e he
  rcases List.mem_cons.mp he with rfl | he
  · exact hnew
  · exact hold e he

theorem Agrees.step (hb : Agrees b h) (heffect : Effect b b' call result) :
    Agrees b' (⟨call, result⟩ :: h) := by
  cases heffect with
  | @passed n now hoff hb' =>
    obtain rfl : b = b' := hb'.symm
    obtain ⟨hpending, hkeys, -⟩ := hb.off hoff
    have hfresh : isDuplicate b.config.dedupEnabled h n = false := by
      rw [← hb.seen_eq, NotificationBatcher.seen, hkeys]
      cases n.dedupKey <;> simp
    refine ⟨?_, sized_cons hb.sized ?_, ?_, hb.room, fun _ => ⟨hpending, hkeys, rfl⟩⟩
    · have := hb.conserved
      rw [hpending, List.append_nil] at this
      simp [flushed, kept_of_fresh hfresh, hpending, this]
    · rintro batch ⟨⟩
      simp
    · simp [hkeys]
  | @dropped n now hon hseen hconfig hpending hkeys =>
    rw [hb.seen_eq] at hseen
    refine ⟨?_, ?_, ?_, ?_, ?_⟩
    · simp [flushed, kept_of_duplicate hseen, hpending, hconfig, hb.conserved]
    · rw [hconfig]
      exact sized_cons hb.sized fun batch hbatch => by cases hbatch
    · intro k
      rw [hkeys, hconfig, hb.keys k]
      refine and_congr_right fun hdedup => ?_
      simp only [sinceFlush_none, List.mem_cons, exists_eq_or_imp, added_add, Option.some.injEq,
        exists_eq_left']
      -- its key is one that was added before
      refine ⟨.inr, ?_⟩
      rintro (hk | hk)
      · rw [isDuplicate, hk] at hseen
        simpa [hdedup, Option.any_eq_true] using hseen
      · exact hk
    · rw [hpending, hconfig]
      exact hb.room
    · intro hoff
      rw [hconfig, hon] at hoff
      cases hoff
  | @queued n now hon hseen hb' hroom =>
    subst hb'
    have hfresh := hb.seen_eq.symm.trans hseen
    refine ⟨?_, sized_cons hb.sized (fun batch hbatch => (by cases hbatch)), ?_, .inr ?_, ?_⟩
    · simp [flushed, kept_of_fresh hfresh, NotificationBatcher.push, ← List.append_assoc, hb.conserved]
    · intro k
      have := hb.keys k
      cases hdedup : b.config.dedupEnabled <;>
        simp [NotificationBatcher.push, hdedup, this, eq_comm]
    · simpa [NotificationBatcher.push] using hroom
    · intro hoff
      exact absurd (hon.symm.trans hoff) (by decide)
  | @full n now hon hseen hconfig hpending hkeys hfull =>
    have hfresh := hb.seen_eq.symm.trans hseen
    refine ⟨?_, ?_, ?_, .inl hpending, ?_⟩
    · simp [flushed, hconfig, hpending, kept_of_fresh hfresh, ← List.append_assoc, hb.conserved]
    · rw [hconfig]
      refine sized_cons hb.sized ?_
      rintro batch ⟨⟩
      refine ⟨by simp, ?_⟩
      rcases hb.room with hempty | hlt
      · simp [hempty]
      · simp only [List.length_append, List.length_singleton]
        omega
    · simp [hkeys]
    · intro hoff
      rw [hconfig, hon] at hoff
      cases hoff
  | emptied hcall hne hflushes hconfig hpending hkeys =>
    refine ⟨?_, ?_, ?_, .inl hpending, fun _ => ⟨hpending, hkeys, rfl⟩⟩
    · simp [flushed, kept_of_ne_add hcall, hpending, hconfig, hb.conserved]
    · rw [hconfig]
      refine sized_cons hb.sized ?_
      rintro batch ⟨⟩
      refine ⟨hne, ?_⟩
      rcases hb.room with hempty | hlt
      · exact absurd hempty hne
      · exact le_max_of_le_right hlt.le
    · simp [hkeys]
  | idle hcall hflushes hb' =>
    subst hb'
    refine ⟨?_, sized_cons hb.sized (fun batch hbatch => (by cases hbatch)), ?_, hb.room, ?_⟩
    · simp [flushed, kept_of_ne_add hcall, hb.conserved]
    · intro k
      simp [hb.keys k, added_of_ne_add hcall]
    · intro hoff
      obtain ⟨hpending, hkeys, hdropped⟩ := hb.off hoff
      exact ⟨hpending, hkeys, by simp [dropped, hdropped, added_of_ne_add hcall]⟩

/-! ### Runs -/

theorem step_eq_some {s t : Session} (hs : s.step call = some t) :
    ∃ result, t.history = ⟨call, result⟩ :: s.history ∧ Effect s.batcher t.batcher call result := by
  cases hs
  exact ⟨_, rfl, effect_call s.batcher call⟩

theorem Effect.config_eq (heffect : Effect b b' call result) : b'.config = b.config := by
  cases heffect with
  | passed _ hb' | idle _ _ hb' => rw [hb']
  | queued _ _ hb' => rw [hb', NotificationBatcher.push]
  | dropped _ _ hconfig | full _ _ hconfig | emptied _ _ _ hconfig => exact hconfig

theorem agrees_step {s t : Session} (hs : s.step call = some t)
    (h : Agrees s.batcher s.history) : Agrees t.batcher t.history := by
  obtain ⟨result, hhistory, heffect⟩ := step_eq_some hs
  rw [hhistory]
  exact h.step heffect

/-- A batch tells the truth when there is nothing to tell. -/
theorem counted_iff (hb : Agrees b h) (heffect : Effect b b' call result) :
    (∀ batch, result = some batch → batch.duplicatesDropped = dropped b.config.dedupEnabled h) ↔
      (b.Flushes call → dropped b.config.dedupEnabled h = 0) := by
  cases heffect with
  | passed hoff hb' => simp [(hb.off hoff).2.2]
  | dropped hon hseen => simp [NotificationBatcher.Flushes, hseen]
  | queued hon hseen hb' hroom => simp [NotificationBatcher.Flushes, hroom]
  | full hon hseen hconfig hpending hkeys hfull =>
    simp [NotificationBatcher.Flushes, hon, hseen, hfull, eq_comm]
  | emptied hcall hne hflushes => simp [hflushes, eq_comm]
  | idle hcall hflushes => simp [hflushes]

theorem conserved_step {s t : Session} (hs : s.step call = some t)
    (h : Agrees s.batcher s.history) : Conserved t ↔ Conserved s ∧ FlushesClean s call := by
  obtain ⟨result, hhistory, heffect⟩ := step_eq_some hs
  have ht := agrees_step hs h
  have hcounted : Counted t.batcher.config.dedupEnabled t.history ↔
      Counted s.batcher.config.dedupEnabled s.history ∧ FlushesClean s call := by
    rw [hhistory, heffect.config_eq, Counted]
    exact and_congr_right fun _ => counted_iff h heffect
  constructor
  · intro hc
    obtain ⟨hold, hclean⟩ := hcounted.mp hc.counted
    exact ⟨⟨h.conserved, h.sized, hold⟩, hclean⟩
  · rintro ⟨hc, hclean⟩
    exact ⟨ht.conserved, ht.sized, hcounted.mpr ⟨hc.counted, hclean⟩⟩

theorem anyRun_run (s : Session) (calls : List Call) :
    AnyRun Session.step s calls (s.run calls) := by
  induction calls generalizing s with
  | nil => exact .nil s
  | cons call calls ih => exact .cons trivial rfl (ih (s.call call))

/-- After any calls, the claim holds exactly if none of them flushed a batch that had lost a
    duplicate. -/
theorem conserved_iff (config : BatchConfig) (calls : List Call) :
    Conserved ((Session.new config).run calls) ↔
      Run Session.step FlushesClean (.new config) calls ((Session.new config).run calls) := by
  have hnew : Conserved (.new config) := ⟨rfl, fun e he => (by cases he), trivial⟩
  have hagrees : Agrees (Session.new config).batcher (Session.new config).history :=
    agrees_new config
  exact Run.final_iff agrees_step conserved_step (anyRun_run _ calls) hagrees hnew

/-- Two notifications with one key, then a flush. -/
def repeatedKey : List Call :=
  [.add ⟨"1", some "key-a", "webhook", "ping"⟩ 0, .add ⟨"2", some "key-a", "webhook", "ping"⟩ 0, .flushNow]

theorem not_conserved_repeatedKey :
    ¬Conserved ((Session.new ⟨true, 50, 5000000000, true⟩).run repeatedKey) := by
  intro h
  have hbatch := h.counted.2 ⟨[⟨"1", some "key-a", "webhook", "ping"⟩], 0, .Manual⟩ rfl
  revert hbatch
  decide

end SorobanPulse.Notifications
