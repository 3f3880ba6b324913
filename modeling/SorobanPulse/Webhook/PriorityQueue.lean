import Mathlib
import SorobanPulse.Json
import SorobanPulse.Lib.PopGreatest
import SorobanPulse.Sse.RingBuffer

/-! The priority queue of webhook deliveries.

    The heap is a list in no particular order, of which `pop` takes a greatest element. Counters and
    sequence numbers have 64 bits, and it takes `2 ^ 64` pushes to make them wrap. -/

namespace SorobanPulse.Webhook
open Lib

inductive WebhookPriority where
  | Low
  | Normal
  | High
  | Critical
  deriving DecidableEq

instance : Fintype WebhookPriority where
  elems := {.Low, .Normal, .High, .Critical}
  complete := by
    intro priority
    cases priority <;> decide

/-- `priority as usize`. -/
def WebhookPriority.rank : WebhookPriority → ℕ
  | .Low => 0
  | .Normal => 1
  | .High => 2
  | .Critical => 3

def WebhookPriority.maxWaitMs : WebhookPriority → UInt64
  | .Critical => 1000
  | .High => 5000
  | .Normal => 30000
  | .Low => 120000

structure WebhookDeliveryTask where
  id : Sse.Uuid
  webhookUrl : String
  payload : Value
  priority : WebhookPriority
  enqueuedAtMs : UInt64
  sequence : UInt64

/-- `now_ms().saturating_sub(self.enqueued_at_ms)` -/
def WebhookDeliveryTask.waitMs (task : WebhookDeliveryTask) (nowMs : UInt64) : UInt64 :=
  if nowMs < task.enqueuedAtMs then 0 else nowMs - task.enqueuedAtMs

def WebhookDeliveryTask.isViolation (task : WebhookDeliveryTask) (nowMs : UInt64) : Bool :=
  decide (task.priority.maxWaitMs < task.waitMs nowMs)

def WebhookDeliveryTask.cmp (task other : WebhookDeliveryTask) : Ordering :=
  (compare task.priority.rank other.priority.rank).then (compare other.sequence task.sequence)

def WebhookDeliveryTask.lt (task other : WebhookDeliveryTask) : Bool := task.cmp other == .lt

structure PriorityQueueMetrics where
  totalEnqueued : UInt64
  totalDequeued : UInt64
  violations : UInt64
  enqueuedByPriority : WebhookPriority → UInt64
  currentDepth : ℕ

structure WebhookPriorityQueue where
  heap : List WebhookDeliveryTask
  sequence : UInt64
  metrics : PriorityQueueMetrics

def WebhookPriorityQueue.new : WebhookPriorityQueue := ⟨[], 0, ⟨0, 0, 0, fun _ => 0, 0⟩⟩

def WebhookPriorityQueue.len (queue : WebhookPriorityQueue) : ℕ := queue.heap.length

def WebhookPriorityQueue.push (queue : WebhookPriorityQueue) (task : WebhookDeliveryTask) :
    WebhookPriorityQueue :=
  let sequence := queue.sequence + 1
  let task := { task with sequence }
  let heap := task :: queue.heap
  let byPriority := queue.metrics.enqueuedByPriority
  { heap, sequence
    metrics := { queue.metrics with
      totalEnqueued := queue.metrics.totalEnqueued + 1
      enqueuedByPriority := Function.update byPriority task.priority (byPriority task.priority + 1)
      currentDepth := heap.length } }

def WebhookPriorityQueue.pop (queue : WebhookPriorityQueue) (nowMs : UInt64) :
    Option WebhookDeliveryTask × WebhookPriorityQueue :=
  match popGreatest WebhookDeliveryTask.lt queue.heap with
  | none => (none, queue)
  | some (task, heap) =>
    (some task, { queue with
      heap
      metrics := { queue.metrics with
        totalDequeued := queue.metrics.totalDequeued + 1
        violations := queue.metrics.violations + if task.isViolation nowMs then 1 else 0
        currentDepth := heap.length } })

/-! ### A stable priority queue -/

/-- Tasks wait in the order in which they came, each with the number of its push. -/
structure StableQueue where
  pushed : ℕ
  waiting : List WebhookDeliveryTask

def StableQueue.empty : StableQueue := ⟨0, []⟩

def StableQueue.push (queue : StableQueue) (task : WebhookDeliveryTask) : StableQueue where
  pushed := queue.pushed + 1
  waiting := queue.waiting ++ [{ task with sequence := UInt64.ofNat (queue.pushed + 1) }]

def lowerPriority (task other : WebhookDeliveryTask) : Bool :=
  decide (task.priority.rank < other.priority.rank)

/-- The first of the tasks with the highest priority. -/
def StableQueue.pop (queue : StableQueue) : Option WebhookDeliveryTask × StableQueue :=
  match popGreatest lowerPriority queue.waiting with
  | none => (none, queue)
  | some (task, waiting) => (some task, { queue with waiting })

theorem StableQueue.pushed_pop (queue : StableQueue) : queue.pop.2.pushed = queue.pushed := by
  rw [StableQueue.pop]
  split <;> rfl

/-! ### Sequences of operations -/

inductive QueueOperation where
  | push (task : WebhookDeliveryTask)
  | pop (nowMs : UInt64)

def QueueOperation.isPush : QueueOperation → Bool
  | .push _ => true
  | .pop _ => false

def WebhookPriorityQueue.step (queue : WebhookPriorityQueue) :
    QueueOperation → List (Option WebhookDeliveryTask) × WebhookPriorityQueue
  | .push task => ([], queue.push task)
  | .pop nowMs => ([(queue.pop nowMs).1], (queue.pop nowMs).2)

def StableQueue.step (queue : StableQueue) :
    QueueOperation → List (Option WebhookDeliveryTask) × StableQueue
  | .push task => ([], queue.push task)
  | .pop _ => ([queue.pop.1], queue.pop.2)

/-- What the pops of a sequence of operations return, and the queue after it. -/
def replay {σ : Type} (step : σ → QueueOperation → List (Option WebhookDeliveryTask) × σ) (s : σ) :
    List QueueOperation → List (Option WebhookDeliveryTask) × σ
  | [] => ([], s)
  | operation :: operations =>
    let (popped, t) := step s operation
    let (later, u) := replay step t operations
    (popped ++ later, u)

/-- The tasks of the pushes, numbered from the first after `n` on. -/
def pushedAfter (n : UInt64) : List QueueOperation → List WebhookDeliveryTask
  | [] => []
  | .push task :: operations => { task with sequence := n + 1 } :: pushedAfter (n + 1) operations
  | .pop _ :: operations => pushedAfter n operations

/-! ### Both orders -/

theorem lt_iff {task other : WebhookDeliveryTask} : task.lt other = true ↔
    task.priority.rank < other.priority.rank ∨
      task.priority.rank = other.priority.rank ∧ other.sequence.toNat < task.sequence.toNat := by
  rw [← UInt64.lt_iff_toNat_lt, WebhookDeliveryTask.lt, WebhookDeliveryTask.cmp, beq_iff_eq,
    Ordering.then_eq_lt, compare_lt_iff_lt, compare_eq_iff_eq, Std.compare_eq_lt]

theorem weakOrder_lt : WeakOrder WebhookDeliveryTask.lt where
  irrefl task := by
    rw [← Bool.not_eq_true, lt_iff]
    omega
  trans h₁ h₂ := by
    rw [lt_iff] at h₁ h₂ ⊢
    omega
  negTrans h₁ h₂ := by
    rw [← Bool.not_eq_true, lt_iff] at h₁ h₂ ⊢
    omega

theorem weakOrder_lowerPriority : WeakOrder lowerPriority where
  irrefl task := decide_eq_false (lt_irrefl _)
  trans h₁ h₂ := by
    simp only [lowerPriority, decide_eq_true_eq] at h₁ h₂ ⊢
    exact h₁.trans h₂
  negTrans h₁ h₂ := by
    simp only [lowerPriority, decide_eq_false_iff_not, not_lt] at h₁ h₂ ⊢
    exact h₂.trans h₁

/-! ### The simulation -/

section
variable {queue : WebhookPriorityQueue} {stable : StableQueue} {task : WebhookDeliveryTask}

/-- The heap holds the waiting tasks, and numbers grow in the order in which they came. -/
structure Simulates (queue : WebhookPriorityQueue) (stable : StableQueue) : Prop where
  heap : queue.heap.Perm stable.waiting
  pushed : queue.sequence.toNat = stable.pushed
  numbered : stable.waiting.Pairwise fun a b => a.sequence.toNat < b.sequence.toNat
  bounded : ∀ task ∈ stable.waiting, task.sequence.toNat ≤ stable.pushed

theorem simulates_new : Simulates .new .empty := ⟨.nil, rfl, .nil, nofun⟩

theorem toNat_succ {n : UInt64} (h : n.toNat + 1 < 2 ^ 64) : (n + 1).toNat = n.toNat + 1 := by
  rw [UInt64.toNat_add, UInt64.toNat_one, Nat.mod_eq_of_lt h]

theorem ofNat_toNat_succ (n : UInt64) : UInt64.ofNat (n.toNat + 1) = n + 1 := by
  rw [UInt64.ofNat_add, UInt64.ofNat_toNat]
  rfl

theorem Simulates.push (h : Simulates queue stable) (hroom : stable.pushed + 1 < 2 ^ 64)
    (task : WebhookDeliveryTask) : Simulates (queue.push task) (stable.push task) := by
  have hpushed := h.pushed
  have hnumber := ofNat_toNat_succ queue.sequence
  have hnext := toNat_succ (hpushed ▸ hroom)
  rw [hpushed] at hnumber hnext
  refine ⟨?_, hnext, ?_, fun a ha => ?_⟩
  · rw [WebhookPriorityQueue.push, StableQueue.push, hnumber]
    exact (List.Perm.cons _ h.heap).trans (List.perm_append_singleton _ _).symm
  · refine List.pairwise_append.mpr ⟨h.numbered, List.pairwise_singleton _ _, fun a ha b hb => ?_⟩
    rw [List.mem_singleton.mp hb, hnumber, hnext]
    exact Nat.lt_succ_of_le (h.bounded a ha)
  · obtain ha | ha := List.mem_append.mp ha
    · exact (h.bounded a ha).trans (Nat.le_succ _)
    · rw [List.mem_singleton.mp ha, hnumber, hnext]
      exact Nat.le_refl _

/-- Of the tasks with the highest priority the first one has the lowest number. -/
theorem Simulates.above (h : Simulates queue stable) {waiting : List WebhookDeliveryTask}
    (hpop : popGreatest lowerPriority stable.waiting = some (task, waiting)) :
    stable.waiting.Perm (task :: waiting) ∧ waiting.Sublist stable.waiting ∧
      ∀ other ∈ waiting, other.lt task = true := by
  obtain ⟨before, after, hwaiting, rfl, hbefore, hafter⟩ :=
    popGreatest_eq_some weakOrder_lowerPriority hpop
  have hnumbered := h.numbered
  rw [hwaiting] at hnumbered ⊢
  refine ⟨List.perm_middle, ?_, fun other hother => ?_⟩
  · exact List.Sublist.append_left (List.sublist_cons_self task after) before
  · rw [lt_iff]
    obtain hother | hother := List.mem_append.mp hother
    · exact .inl (of_decide_eq_true (hbefore other hother))
    · have hnot := of_decide_eq_false (hafter other hother)
      have hlater := (List.pairwise_cons.mp (List.pairwise_append.mp hnumbered).2.1).1 other hother
      omega

theorem Simulates.pop (h : Simulates queue stable) (nowMs : UInt64) :
    (queue.pop nowMs).1 = stable.pop.1 ∧ Simulates (queue.pop nowMs).2 stable.pop.2 := by
  rw [WebhookPriorityQueue.pop, StableQueue.pop]
  cases hstable : popGreatest lowerPriority stable.waiting with
  | none =>
    have hempty : queue.heap = [] := by
      have hheap := h.heap
      rw [popGreatest_eq_none_iff.mp hstable] at hheap
      exact List.perm_nil.mp hheap
    rw [popGreatest_eq_none_iff.mpr hempty]
    exact ⟨rfl, h⟩
  | some popped =>
    obtain ⟨task, waiting⟩ := popped
    obtain ⟨hperm, hsublist, habove⟩ := h.above hstable
    obtain ⟨heap, hheap, hrest⟩ := popGreatest_of_perm weakOrder_lt (h.heap.trans hperm) habove
    rw [hheap]
    exact ⟨rfl, hrest, h.pushed, h.numbered.sublist hsublist,
      fun other hother => h.bounded other (hsublist.subset hother)⟩

theorem Simulates.replay (h : Simulates queue stable) {operations : List QueueOperation}
    (hroom : stable.pushed + operations.countP QueueOperation.isPush < 2 ^ 64) :
    (replay WebhookPriorityQueue.step queue operations).1 =
      (replay StableQueue.step stable operations).1 := by
  induction operations generalizing queue stable with
  | nil => rfl
  | cons operation operations ih =>
    cases operation with
    | push task =>
      rw [List.countP_cons_of_pos rfl] at hroom
      exact ih (h.push (by omega) task) (by simp only [StableQueue.push]; omega)
    | pop nowMs =>
      rw [List.countP_cons_of_neg Bool.false_ne_true] at hroom
      obtain ⟨hout, hnext⟩ := h.pop nowMs
      refine congrArg₂ (· ++ ·) (congrArg ([·]) hout) (ih hnext ?_)
      exact (StableQueue.pushed_pop stable).symm ▸ hroom

/-! ### Nothing lost, nothing twice -/

theorem heap_pop (queue : WebhookPriorityQueue) (nowMs : UInt64) :
    queue.heap.Perm ((queue.pop nowMs).1.toList ++ (queue.pop nowMs).2.heap) ∧
      (queue.pop nowMs).2.sequence = queue.sequence := by
  rw [WebhookPriorityQueue.pop]
  cases hpop : popGreatest WebhookDeliveryTask.lt queue.heap with
  | none => exact ⟨.refl _, rfl⟩
  | some popped => exact ⟨popGreatest_perm weakOrder_lt hpop, rfl⟩

/-- What is in the heap or is pushed later is popped or stays. -/
theorem replay_perm (queue : WebhookPriorityQueue) (operations : List QueueOperation) :
    (queue.heap ++ pushedAfter queue.sequence operations).Perm
      ((replay WebhookPriorityQueue.step queue operations).1.reduceOption ++
        (replay WebhookPriorityQueue.step queue operations).2.heap) := by
  induction operations generalizing queue with
  | nil => simp [pushedAfter, Webhook.replay]
  | cons operation operations ih =>
    cases operation with
    | push task => exact List.perm_middle.trans (ih (queue.push task))
    | pop nowMs =>
      obtain ⟨hheap, hsequence⟩ := heap_pop queue nowMs
      have htail := ih (queue.pop nowMs).2
      rw [hsequence] at htail
      simp only [pushedAfter, Webhook.replay, WebhookPriorityQueue.step, List.reduceOption_append,
        List.reduceOption_singleton, List.append_assoc]
      refine (hheap.append_right _).trans ?_
      rw [List.append_assoc]
      exact htail.append_left _

theorem lt_of_mem_pushedAfter {n : UInt64} {operations : List QueueOperation}
    (hroom : n.toNat + operations.countP QueueOperation.isPush < 2 ^ 64)
    (h : task ∈ pushedAfter n operations) : n.toNat < task.sequence.toNat := by
  induction operations generalizing n with
  | nil => cases h
  | cons operation operations ih =>
    cases operation with
    | push pushed =>
      rw [List.countP_cons_of_pos rfl] at hroom
      have hnext := toNat_succ (n := n) (by omega)
      obtain rfl | h := List.mem_cons.mp h
      · exact hnext ▸ Nat.lt_succ_self n.toNat
      · have hlt := ih (n := n + 1) (by omega) h
        omega
    | pop nowMs =>
      rw [List.countP_cons_of_neg Bool.false_ne_true] at hroom
      exact ih hroom h

theorem nodup_pushedAfter {n : UInt64} {operations : List QueueOperation}
    (hroom : n.toNat + operations.countP QueueOperation.isPush < 2 ^ 64) :
    ((pushedAfter n operations).map WebhookDeliveryTask.sequence).Nodup := by
  induction operations generalizing n with
  | nil => exact List.nodup_nil
  | cons operation operations ih =>
    cases operation with
    | push pushed =>
      rw [List.countP_cons_of_pos rfl] at hroom
      have hnext := toNat_succ (n := n) (by omega)
      have hrest : (n + 1).toNat + operations.countP QueueOperation.isPush < 2 ^ 64 := by omega
      refine List.nodup_cons.mpr ⟨fun hmem => ?_, ih hrest⟩
      obtain ⟨task, htask, heq⟩ := List.mem_map.mp hmem
      have hlt := lt_of_mem_pushedAfter hrest htask
      rw [heq] at hlt
      exact absurd hlt (lt_irrefl _)
    | pop nowMs =>
      rw [List.countP_cons_of_neg Bool.false_ne_true] at hroom
      exact ih hroom

/-! ### The metrics -/

/-- The counters, none of which has wrapped. -/
structure Counted (queue : WebhookPriorityQueue) : Prop where
  pushed : queue.metrics.totalEnqueued = queue.sequence
  depth : queue.metrics.currentDepth = queue.len
  total : queue.metrics.totalEnqueued.toNat = queue.metrics.totalDequeued.toNat + queue.len
  byPriority : ∑ priority, (queue.metrics.enqueuedByPriority priority).toNat =
    queue.metrics.totalEnqueued.toNat

theorem Counted.push (h : Counted queue) (hroom : queue.sequence.toNat + 1 < 2 ^ 64)
    (task : WebhookDeliveryTask) : Counted (queue.push task) := by
  have hnext := toNat_succ (n := queue.metrics.totalEnqueued) (by rw [h.pushed]; exact hroom)
  refine ⟨congrArg (· + 1) h.pushed, rfl, ?_, ?_⟩
  · have htotal := h.total
    simp only [WebhookPriorityQueue.push, WebhookPriorityQueue.len, List.length_cons] at htotal ⊢
    omega
  · have hsum := h.byPriority
    rw [Finset.sum_eq_add_sum_sdiff_singleton_of_mem (Finset.mem_univ task.priority)] at hsum
    have hone := toNat_succ (n := queue.metrics.enqueuedByPriority task.priority) (by
      rw [← h.pushed] at hroom
      omega)
    simp only [WebhookPriorityQueue.push, Function.apply_update fun _ n => UInt64.toNat n]
    rw [Finset.sum_update_of_mem (Finset.mem_univ _)]
    omega

theorem Counted.pop (h : Counted queue) (nowMs : UInt64) : Counted (queue.pop nowMs).2 := by
  rw [WebhookPriorityQueue.pop]
  cases hpop : popGreatest WebhookDeliveryTask.lt queue.heap with
  | none => exact h
  | some popped =>
    have hlength := (popGreatest_perm weakOrder_lt hpop).length_eq
    have htotal := h.total
    rw [WebhookPriorityQueue.len, hlength, List.length_cons] at htotal
    -- one more was pushed than popped, so that the second counter has room, too
    have hmax := queue.metrics.totalEnqueued.toNat_lt
    have hnext := toNat_succ (n := queue.metrics.totalDequeued) (by omega)
    exact ⟨h.pushed, rfl, by simp only [WebhookPriorityQueue.len]; omega, h.byPriority⟩

theorem Counted.replay (h : Counted queue) {operations : List QueueOperation}
    (hroom : queue.sequence.toNat + operations.countP QueueOperation.isPush < 2 ^ 64) :
    Counted (replay WebhookPriorityQueue.step queue operations).2 := by
  induction operations generalizing queue with
  | nil => exact h
  | cons operation operations ih =>
    cases operation with
    | push task =>
      rw [List.countP_cons_of_pos rfl] at hroom
      have hnext := toNat_succ (n := queue.sequence) (by omega)
      refine ih (h.push (by omega) task) ?_
      simp only [WebhookPriorityQueue.push]
      omega
    | pop nowMs =>
      rw [List.countP_cons_of_neg Bool.false_ne_true] at hroom
      refine ih (h.pop nowMs) ?_
      rwa [(heap_pop queue nowMs).2]

theorem counted_new : Counted .new := ⟨rfl, rfl, rfl, rfl⟩

end

/-- The queue pops what a stable priority queue pops. The tasks pushed are those popped and those
    still in the heap, each once, and the metrics add up. -/
theorem priorityQueue_refines (operations : List QueueOperation)
    (hpushes : operations.countP QueueOperation.isPush < 2 ^ 64) :
    let (popped, queue) := replay WebhookPriorityQueue.step .new operations
    popped = (replay StableQueue.step .empty operations).1 ∧
      (pushedAfter 0 operations).Perm (popped.reduceOption ++ queue.heap) ∧
      ((pushedAfter 0 operations).map WebhookDeliveryTask.sequence).Nodup ∧
      queue.metrics.totalEnqueued.toNat - queue.metrics.totalDequeued.toNat = queue.len ∧
      queue.metrics.totalDequeued ≤ queue.metrics.totalEnqueued ∧
      queue.metrics.currentDepth = queue.len ∧
      ∑ priority, (queue.metrics.enqueuedByPriority priority).toNat =
        queue.metrics.totalEnqueued.toNat := by
  have hroom : (0 : UInt64).toNat + operations.countP QueueOperation.isPush < 2 ^ 64 := by
    rwa [UInt64.toNat_zero, Nat.zero_add]
  have hcounted := counted_new.replay hroom
  have htotal := hcounted.total
  exact ⟨simulates_new.replay (by rwa [StableQueue.empty, Nat.zero_add]), replay_perm .new operations,
    nodup_pushedAfter hroom, by omega, by rw [UInt64.le_iff_toNat_le]; omega, hcounted.depth,
    hcounted.byPriority⟩

def sampleTask (id : Sse.Uuid) (priority : WebhookPriority) : WebhookDeliveryTask where
  id := id
  webhookUrl := "https://example.org/hook"
  payload := .null
  priority := priority
  enqueuedAtMs := 0
  sequence := 0

/-- The last two tasks come before the first one, in their order. -/
def threePushes : List QueueOperation :=
  [.push (sampleTask 1 .Low), .push (sampleTask 2 .High), .push (sampleTask 3 .High), .pop 0, .pop 0,
    .pop 0]

theorem priorityQueue_refines_threePushes :
    ((replay WebhookPriorityQueue.step .new threePushes).1.map fun task => task.map (·.id)) =
      [some 2, some 3, some 1] := by
  have hpopped : (replay WebhookPriorityQueue.step .new threePushes).1 =
      (replay StableQueue.step .empty threePushes).1 :=
    (priorityQueue_refines threePushes (by decide)).1
  rw [hpopped]
  decide

end SorobanPulse.Webhook
