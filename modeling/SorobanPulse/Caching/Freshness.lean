import SorobanPulse.Caching.InvalidationTask

/-! When the caches are fresh.

    An entry may be stale as long as an event of its contract is still to be dealt with:

        sent      …  c  …  c  …          age ≤ here: the entry is stale
                           └ not yet invalidated: the task will drop it

    Two things break this. A receiver that is overrun ends the task, with all events behind it. And a
    handler may insert what it read before an event that the task has dealt with since. -/

namespace SorobanPulse.Caching
open Ingest Lib

/-! ### Keys -/

theorem toList_physicalKey (g v : UInt64) (c : ContractId) (id : String) :
    (physicalKey g (entityType c) v id).toList =
      ("v" ++ toString g.toNat ++ ":event:").toList ++ (c.val.toList ++
        ':' :: (('e' :: Nat.toDigits 10 v.toNat) ++ ':' :: id.toList)) := by
  have hversion := toList_toString_nat v.toNat
  have hprefix : ("v" ++ toString g.toNat ++ ":event:").toList =
      "v".toList ++ (toString g.toNat).toList ++ ':' :: "event:".toList := by
    rw [String.toList_append, String.toList_append]
    rfl
  rw [physicalKey, entityType, hprefix]
  simp only [String.toList_append, hversion, List.append_assoc]
  rfl

/-- A key gives back the contract, the version and the id. -/
theorem physicalKey_inj {g v v' : UInt64} {c c' : ContractId} {id id' : String}
    (h : physicalKey g (entityType c) v id = physicalKey g (entityType c') v' id') :
    c = c' ∧ v = v' ∧ id = id' := by
  have hlist := congrArg String.toList h
  rw [toList_physicalKey, toList_physicalKey] at hlist
  obtain ⟨hc, hrest⟩ := eq_of_append_separator c.property c'.property (List.append_cancel_left hlist)
  have hdigits : ∀ n, ':' ∉ 'e' :: Nat.toDigits 10 n := by
    intro n hmem
    rcases List.mem_cons.mp hmem with hmem | hmem
    · exact absurd hmem (by decide)
    · exact not_mem_toDigits rfl n hmem
  obtain ⟨hv, hid⟩ := eq_of_append_separator (hdigits _) (hdigits _) hrest
  have hversion := toDigits_injective (List.cons.inj hv).2
  exact ⟨Subtype.ext (String.toList_inj.mp hc), UInt64.toNat_inj.mp hversion,
    String.toList_inj.mp hid⟩

/-! ### Events to be dealt with -/

def Task.uncounted : Task → List ContractId
  | .received c => [c]
  | _ => []

def Task.unversioned : Task → List ContractId
  | .received c | .counted c => [c]
  | _ => []

section
variable (s : State)

/-- The contracts whose count is still to be invalidated. -/
def State.countQueue : List ContractId := s.task.uncounted ++ s.sent.drop s.position

/-- The contracts whose entity type is still to be invalidated. -/
def State.entryQueue : List ContractId := s.task.unversioned ++ s.sent.drop s.position

/-- An event of the contract was broadcast after that many. -/
def State.Stale (c : ContractId) (age : ℕ) : Prop := c ∈ s.sent.drop age

/-- The task has dealt with all events. -/
def State.CaughtUp : Prop := s.position = s.sent.length ∧ s.task.unversioned = []

/-- The task runs until the channel closes, and whenever it has caught up nothing in the caches is
    older than the last event of its contract. -/
structure Fresh : Prop where
  running : s.task = .stopped → s.closed = true
  counts : s.CaughtUp → ∀ c age, s.counts c = some age → ¬s.Stale c age
  entries : s.CaughtUp → ∀ c id age, s.entries (s.versionedKey (entityType c) id) = some age →
    ¬s.Stale c age

/-- The channel does not overrun the receiver at `recv`, no version wraps around, and what a handler
    caches is not older than an event that is dealt with, unless another one is to be. -/
def Meets (capacity : ℕ) (s : State) : Step → Prop
  | .recv => s.sent.length - s.position ≤ capacity
  | .insertCount c age => s.Stale c age → c ∈ s.countQueue
  | .loadEntity c _ age _ => s.Stale c age → c ∈ s.entryQueue
  | .invalidateEntityType => ∀ c, s.task = .counted c → s.entityVersions (entityType c) + 1 ≠ 0
  | _ => True

/-! ### The invariant -/

/-- A key of the contract at an earlier version, or an entry that is fresh or will be dropped. -/
def State.Keyed (key : String) (age : ℕ) : Prop :=
  ∃ c id version, key = physicalKey s.globalVersion (entityType c) version id ∧
    version ≤ s.entityVersions (entityType c) ∧
      (version = s.entityVersions (entityType c) → s.Stale c age → c ∈ s.entryQueue)

structure Inv : Prop where
  running : s.task = .stopped → s.closed = true
  position : s.position ≤ s.sent.length
  counts : ∀ c age, s.counts c = some age → s.Stale c age → c ∈ s.countQueue
  entries : ∀ key age, s.entries key = some age → s.Keyed key age
  keying : ∀ c id age globalVersion, (c, id, age, globalVersion) ∈ s.keying →
    globalVersion = s.globalVersion
  fills : ∀ key age, (key, age) ∈ s.keys ∨ (key, age) ∈ s.entryFills → s.Keyed key age

end

section
variable {s t : State} {capacity : ℕ}

theorem inv_initial : Inv {} :=
  ⟨fun h => (by cases h), Nat.le_refl 0, fun _ _ h => (by cases h), fun _ _ h => (by cases h),
    fun _ _ _ _ h => absurd h List.not_mem_nil,
    fun _ _ h => h.elim (absurd · List.not_mem_nil) (absurd · List.not_mem_nil)⟩

theorem fresh_of_inv (h : Inv s) : Fresh s := by
  refine ⟨h.running, fun hcaught c age hcount hstale => ?_, fun hcaught c id age hentry hstale => ?_⟩
  · have hmem := h.counts c age hcount hstale
    have htask : s.task.uncounted = [] := by
      have hun := hcaught.2
      cases htask : s.task <;> rw [htask] at hun <;> first | rfl | cases hun
    rw [State.countQueue, htask, hcaught.1, List.drop_length] at hmem
    cases hmem
  · obtain ⟨c', id', version, hkey, -, hqueue⟩ := h.entries _ age hentry
    obtain ⟨rfl, rfl, -⟩ := physicalKey_inj hkey
    have hmem := hqueue rfl hstale
    rw [State.entryQueue, hcaught.2, hcaught.1, List.drop_length] at hmem
    cases hmem

/-- The invariant survives where only more is to be dealt with. -/
theorem State.Keyed.mono {key : String} {age : ℕ} (h : s.Keyed key age)
    (hglobal : t.globalVersion = s.globalVersion) (hversions : t.entityVersions = s.entityVersions)
    (hstale : ∀ c, t.Stale c age → s.Stale c age ∨ c ∈ t.entryQueue)
    (hqueue : s.entryQueue ⊆ t.entryQueue) : t.Keyed key age := by
  obtain ⟨c, id, version, hkey, hle, hcurrent⟩ := h
  refine ⟨c, id, version, by rw [hglobal, hkey], by rw [hversions]; exact hle, fun hversion hc => ?_⟩
  rw [hversions] at hversion
  rcases hstale c hc with hc | hc
  · exact hqueue (hcurrent hversion hc)
  · exact hc

theorem inv_broadcast (c : ContractId) (h : Inv s) : Inv { s with sent := s.sent ++ [c] } := by
  have hdrop : (s.sent ++ [c]).drop s.position = s.sent.drop s.position ++ [c] :=
    List.drop_append_of_le_length h.position
  have hcount : State.countQueue { s with sent := s.sent ++ [c] } = s.countQueue ++ [c] := by
    rw [State.countQueue, State.countQueue, hdrop, List.append_assoc]
  have hentry : State.entryQueue { s with sent := s.sent ++ [c] } = s.entryQueue ++ [c] := by
    rw [State.entryQueue, State.entryQueue, hdrop, List.append_assoc]
  have hstale : ∀ c' age, State.Stale { s with sent := s.sent ++ [c] } c' age →
      s.Stale c' age ∨ c' = c := by
    intro c' age hc'
    rw [State.Stale, List.drop_append] at hc'
    refine (List.mem_append.mp hc').imp_right fun hmem => ?_
    exact List.mem_singleton.mp (List.mem_of_mem_drop hmem)
  have hkeyed : ∀ key age, s.Keyed key age →
      State.Keyed { s with sent := s.sent ++ [c] } key age := by
    intro key age hkeyed
    refine hkeyed.mono rfl rfl (fun c' hc' => (hstale c' age hc').imp_right fun heq => ?_) ?_
    · rw [hentry, heq]
      exact List.mem_append_right _ (List.mem_singleton.mpr rfl)
    · rw [hentry]
      exact List.subset_append_left _ _
  refine ⟨h.running, ?_, fun c' age hc' hc'' => ?_,
    fun key age hkey => hkeyed key age (h.entries key age hkey), h.keying,
    fun key age hkey => hkeyed key age (h.fills key age hkey)⟩
  · rw [List.length_append]
    exact Nat.le_add_right_of_le h.position
  · rw [hcount]
    rcases hstale c' age hc'' with hold | rfl
    · exact List.mem_append_left _ (h.counts c' age hc' hold)
    · exact List.mem_append_right _ (List.mem_singleton.mpr rfl)

/-- Only the task moves, and its queues stay as they are. -/
theorem inv_move {task : Task} {position : ℕ} (h : Inv s)
    (hrunning : task = .stopped → s.closed = true) (hposition : position ≤ s.sent.length)
    (hcount : task.uncounted ++ s.sent.drop position = s.countQueue)
    (hentry : task.unversioned ++ s.sent.drop position = s.entryQueue) :
    Inv { s with task, position } := by
  have hkeyed : ∀ key age, s.Keyed key age → State.Keyed { s with task, position } key age :=
    fun key age hkeyed =>
      hkeyed.mono rfl rfl (fun _ hc => .inl hc) (List.Perm.of_eq hentry.symm).subset
  refine ⟨hrunning, hposition, fun c age hc hstale => ?_,
    fun key age hkey => hkeyed key age (h.entries key age hkey), h.keying,
    fun key age hkey => hkeyed key age (h.fills key age hkey)⟩
  rw [State.countQueue, hcount]
  exact h.counts c age hc hstale

theorem inv_recv (hmeets : s.sent.length - s.position ≤ capacity) (ht : s.recv capacity = some t)
    (h : Inv s) : Inv t := by
  rw [State.recv] at ht
  cases htask : s.task with
  | idle =>  -- the task is between two events, so both queues are what is still to be received
    have hcount : s.countQueue = s.sent.drop s.position := by
      rw [State.countQueue, htask]
      rfl
    have hentry : s.entryQueue = s.sent.drop s.position := by
      rw [State.entryQueue, htask]
      rfl
    rw [htask] at ht
    dsimp only at ht
    rw [if_neg (by omega)] at ht
    cases hevent : s.sent[s.position]? with  -- an event, or the end of the channel
    | some c =>
      rw [hevent] at ht
      cases ht
      have hdrop : s.sent.drop s.position = c :: s.sent.drop (s.position + 1) := by
        obtain ⟨hlt, hc⟩ := List.getElem?_eq_some_iff.mp hevent
        rw [List.drop_eq_getElem_cons hlt, hc]
      refine inv_move h (fun heq => by cases heq) ?_ (by rw [hcount, hdrop]; rfl)
        (by rw [hentry, hdrop]; rfl)
      exact (List.getElem?_eq_some_iff.mp hevent).1
    | none =>
      rw [hevent] at ht
      dsimp only at ht
      split at ht
      · next hclosed =>
        cases ht
        exact inv_move h (fun _ => hclosed) h.position (by rw [hcount]; rfl) (by rw [hentry]; rfl)
      · cases ht
  | received c => rw [htask] at ht; cases ht
  | counted c => rw [htask] at ht; cases ht
  | stopped => rw [htask] at ht; cases ht

theorem inv_invalidateCount (ht : s.invalidateCount = some t) (h : Inv s) : Inv t := by
  rw [State.invalidateCount] at ht
  cases htask : s.task with
  | received c =>
    rw [htask] at ht
    cases ht
    have hentry : s.entryQueue = c :: s.sent.drop s.position := by
      rw [State.entryQueue, htask]
      rfl
    have hkeyed : ∀ key age, s.Keyed key age → State.Keyed
        { s with task := .counted c, counts := Function.update s.counts c none } key age :=
      fun key age hkeyed => hkeyed.mono rfl rfl (fun _ hc => .inl hc) (List.Perm.of_eq hentry).subset
    refine ⟨fun heq => (by cases heq), h.position, fun c' age hc' hstale => ?_,
      fun key age hkey => hkeyed key age (h.entries key age hkey), h.keying,
      fun key age hkey => hkeyed key age (h.fills key age hkey)⟩
    dsimp only at hc'
    rw [Function.update_apply] at hc'
    split at hc'
    · cases hc'
    · next hne =>
      have hmem := h.counts c' age hc' hstale
      rw [State.countQueue, htask] at hmem
      exact (List.mem_cons.mp hmem).resolve_left hne
  | idle => rw [htask] at ht; cases ht
  | counted c => rw [htask] at ht; cases ht
  | stopped => rw [htask] at ht; cases ht

theorem inv_invalidateEntityType
    (hmeets : ∀ c, s.task = .counted c → s.entityVersions (entityType c) + 1 ≠ 0)
    (ht : s.invalidateEntityType = some t) (h : Inv s) : Inv t := by
  rw [State.invalidateEntityType] at ht
  cases htask : s.task with
  | counted c =>
    rw [htask] at ht
    cases ht
    have hcount : s.countQueue = s.sent.drop s.position := by
      rw [State.countQueue, htask]
      rfl
    have hentry : s.entryQueue = c :: s.sent.drop s.position := by
      rw [State.entryQueue, htask]
      rfl
    have hlt : s.entityVersions (entityType c) < s.entityVersions (entityType c) + 1 := by
      have hne := hmeets c htask
      rw [Ne, ← UInt64.toNat_inj, UInt64.toNat_add] at hne
      rw [UInt64.lt_iff_toNat_lt, UInt64.toNat_add]
      have hmax := (s.entityVersions (entityType c)).toNat_lt
      simp only [UInt64.toNat_one, UInt64.toNat_zero] at hne ⊢
      omega
    have hkeyed : ∀ key age, s.Keyed key age → State.Keyed { s with
        task := .idle
        entityVersions := Function.update s.entityVersions (entityType c)
          (s.entityVersions (entityType c) + 1) } key age := by
      rintro key age ⟨c', id, version, hkey, hle, hcurrent⟩
      refine ⟨c', id, version, hkey, ?_, fun hversion hstale => ?_⟩
      · dsimp only
        rw [Function.update_apply]
        split
        · next heq =>
          rw [heq] at hle
          exact UInt64.le_of_lt (UInt64.lt_of_le_of_lt hle hlt)
        · exact hle
      · dsimp only at hversion
        rw [Function.update_apply] at hversion
        split at hversion
        · next heq =>
          -- the version of the key is behind
          rw [heq] at hle
          rw [hversion] at hle
          exact absurd hlt (UInt64.not_lt.mpr hle)
        · next hne =>
          have hmem := hcurrent hversion hstale
          rw [hentry] at hmem
          exact (List.mem_cons.mp hmem).resolve_left fun heq => hne (congrArg entityType heq)
    refine ⟨fun heq => (by cases heq), h.position, fun c' age hc' hstale => ?_,
      fun key age hkey => hkeyed key age (h.entries key age hkey), h.keying,
      fun key age hkey => hkeyed key age (h.fills key age hkey)⟩
    have hmem := h.counts c' age hc' hstale
    rw [hcount] at hmem
    exact hmem
  | idle => rw [htask] at ht; cases ht
  | received c => rw [htask] at ht; cases ht
  | stopped => rw [htask] at ht; cases ht

/-! ### The handlers -/

/-- After one entry of a cache has changed, what holds of that entry and of the old ones holds. -/
theorem forall_update {κ ν : Type} [DecidableEq κ] {cache : κ → Option ν} {P : κ → ν → Prop}
    {key : κ} {value : Option ν} (hvalue : ∀ v, value = some v → P key v)
    (h : ∀ k v, cache k = some v → P k v) :
    ∀ k v, Function.update cache key value k = some v → P k v := by
  intro k v hk
  rw [Function.update_apply] at hk
  split at hk
  · next heq =>
    rw [heq]
    exact hvalue v hk
  · exact h k v hk

theorem inv_insertCount {c : ContractId} {age : ℕ} {fills : List (ContractId × ℕ)}
    (hmeets : s.Stale c age → c ∈ s.countQueue) (h : Inv s) :
    Inv { s with counts := Function.update s.counts c (some age), countFills := fills } := by
  refine ⟨h.running, h.position, forall_update ?_ h.counts, h.entries, h.keying, h.fills⟩
  rintro _ ⟨⟩
  exact hmeets

theorem inv_evictCount (c : ContractId) (h : Inv s) :
    Inv { s with counts := Function.update s.counts c none } := by
  refine ⟨h.running, h.position, forall_update ?_ h.counts, h.entries, h.keying, h.fills⟩
  rintro _ ⟨⟩

theorem inv_loadGlobal {c : ContractId} {id : String} {age : ℕ}
    (ht : s.loadGlobal c id age = some t) (h : Inv s) : Inv t := by
  rw [State.loadGlobal] at ht
  split at ht
  · cases ht
    refine ⟨h.running, h.position, h.counts, h.entries, fun c' id' age' g hmem => ?_, h.fills⟩
    rcases List.mem_cons.mp hmem with heq | hmem
    · cases heq
      rfl
    · exact h.keying c' id' age' g hmem
  · cases ht

/-- The key has the contract's version of this moment, whatever happens before it is used. -/
theorem inv_loadEntity {c : ContractId} {id : String} {age : ℕ} {globalVersion : UInt64}
    (hmeets : s.Stale c age → c ∈ s.entryQueue) (ht : s.loadEntity c id age globalVersion = some t)
    (h : Inv s) : Inv t := by
  rw [State.loadEntity] at ht
  split at ht
  · next hmem =>
    cases ht
    obtain rfl := h.keying c id age globalVersion hmem
    refine ⟨h.running, h.position, h.counts, h.entries,
      fun c' id' age' g hg => h.keying c' id' age' g (List.mem_of_mem_erase hg),
      fun key age' hkey => ?_⟩
    rcases hkey with hkey | hkey
    · rcases List.mem_cons.mp hkey with heq | hkey
      · cases heq
        exact ⟨c, id, _, rfl, UInt64.le_refl _, fun _ => hmeets⟩
      · exact h.fills key age' (.inl hkey)
    · exact h.fills key age' (.inr hkey)
  · cases ht

theorem inv_get {key : String} {age : ℕ} (ht : s.get key age = some t) (h : Inv s) : Inv t := by
  rw [State.get] at ht
  split at ht
  · next hmem =>
    dsimp only at ht
    split at ht
    · cases ht
      exact ⟨h.running, h.position, h.counts, h.entries, h.keying,
        fun key' age' hkey => h.fills key' age' (hkey.imp_left List.mem_of_mem_erase)⟩
    · cases ht
      refine ⟨h.running, h.position, h.counts, h.entries, h.keying, fun key' age' hkey => ?_⟩
      rcases hkey with hkey | hkey
      · exact h.fills key' age' (.inl (List.mem_of_mem_erase hkey))
      · rcases List.mem_cons.mp hkey with heq | hkey
        · cases heq
          exact h.fills key age (.inl hmem)
        · exact h.fills key' age' (.inr hkey)
  · cases ht

theorem inv_insertEntry {key : String} {age : ℕ} (hmem : (key, age) ∈ s.entryFills) (h : Inv s) :
    Inv { s with
      entries := Function.update s.entries key (some age)
      entryFills := s.entryFills.erase (key, age) } := by
  refine ⟨h.running, h.position, h.counts, forall_update ?_ h.entries, h.keying,
    fun key' age' hkey => h.fills key' age' (hkey.imp_right List.mem_of_mem_erase)⟩
  rintro _ ⟨⟩
  exact h.fills key age (.inr hmem)

theorem inv_evictEntry (key : String) (h : Inv s) :
    Inv { s with entries := Function.update s.entries key none } := by
  refine ⟨h.running, h.position, h.counts, forall_update ?_ h.entries, h.keying, h.fills⟩
  rintro _ ⟨⟩

/-! ### Runs -/

theorem inv_step {a : Step} (hmeets : Meets capacity s a) (ht : step capacity s a = some t)
    (h : Inv s) : Inv t := by
  cases a with
  | broadcast c =>
    rw [step] at ht
    split at ht
    · cases ht
    · cases ht
      exact inv_broadcast c h
  | close =>
    cases ht
    exact ⟨fun _ => rfl, h.position, h.counts, h.entries, h.keying, h.fills⟩
  -- only the task's own steps and the inserts of what was read need the condition
  | recv => exact inv_recv hmeets ht h
  | invalidateCount => exact inv_invalidateCount ht h
  | invalidateEntityType => exact inv_invalidateEntityType hmeets ht h
  | missCount c =>
    rw [step] at ht
    split at ht
    · cases ht
    · cases ht
      -- a handler that has missed or read holds nothing that can be stale before its insert
      exact ⟨h.running, h.position, h.counts, h.entries, h.keying, h.fills⟩
  | readCount c =>
    rw [step] at ht
    split at ht
    · cases ht
      exact ⟨h.running, h.position, h.counts, h.entries, h.keying, h.fills⟩
    · cases ht
  | insertCount c age =>
    rw [step] at ht
    split at ht
    · cases ht
      exact inv_insertCount hmeets h
    · cases ht
  | readPage c id =>
    cases ht
    exact ⟨h.running, h.position, h.counts, h.entries, h.keying, h.fills⟩
  | loadGlobal c id age => exact inv_loadGlobal ht h
  | loadEntity c id age globalVersion => exact inv_loadEntity hmeets ht h
  | get key age => exact inv_get ht h
  | insertEntry key age =>
    rw [step] at ht
    split at ht
    · next hmem =>
      cases ht
      exact inv_insertEntry hmem h
    · cases ht
  | evictCount c =>
    cases ht
    exact inv_evictCount c h
  | evictEntry key =>
    cases ht
    exact inv_evictEntry key h

/-- Where no step of a run breaks the condition, the task runs until the channel closes, and the
    caches are fresh whenever it has caught up. -/
theorem fresh_of_run {steps : List Step}
    (hrun : Run (step capacity) (Meets capacity) {} steps s) : Fresh s :=
  fresh_of_inv (hrun.invariant inv_step inv_initial)

end

/-! ### An event and a burst -/

def contract : ContractId := ⟨"C", by decide⟩

def oneEvent : List Step :=
  [.missCount contract, .readCount contract, .readPage contract "p", .insertCount contract 0,
    .loadGlobal contract "p" 0, .loadEntity contract "p" 0 0, .get "v0:event:C:e0:p" 0,
    .insertEntry "v0:event:C:e0:p" 0, .broadcast contract, .recv, .invalidateCount,
    .invalidateEntityType]

/-- One event of a contract whose count and page are cached. -/
theorem fresh_oneEvent : ∃ s, exec (step 256) {} oneEvent = some s ∧ Fresh s := by
  refine ⟨_, rfl, @fresh_of_run _ 256 oneEvent ?_⟩
  have hnone (age : ℕ) : ¬contract ∈ ([] : List ContractId).drop age := by
    rw [List.drop_nil]
    exact List.not_mem_nil
  refine .cons trivial rfl (.cons trivial rfl (.cons trivial rfl (.cons (absurd · (hnone _)) rfl ?_)))
  refine .cons trivial rfl (.cons (absurd · (hnone _)) rfl (.cons trivial rfl (.cons trivial rfl ?_)))
  refine .cons trivial rfl (.cons ?_ rfl (.cons trivial rfl (.cons ?_ rfl (.nil _))))
  · show 1 - 0 ≤ 256
    omega
  · intro c _
    show (0 : UInt64) + 1 ≠ 0
    decide

/-- As many events as the channel holds, and one more, before the task gets to run. -/
def burst : List Step := List.replicate 257 (.broadcast contract) ++ [.recv]

theorem not_fresh_burst : ¬∀ (steps : List Step) (s : State),
    AnyRun (step 256) {} steps s → Fresh s := by
  intro h
  have hstate : (exec (step 256) {} burst).map (fun s => (s.task, s.closed)) =
      some (.stopped, false) := by decide +kernel
  obtain ⟨s, hexec, hs⟩ := Option.map_eq_some_iff.mp hstate
  obtain ⟨htask, hclosed⟩ := Prod.mk.inj hs
  have hrunning := (h burst s (anyRun_iff_exec.mpr hexec)).running htask
  rw [hclosed] at hrunning
  cases hrunning

end SorobanPulse.Caching
