import SorobanPulse.Caching.SerializationCache

/-! When the serialization cache is coherent.

    A call that starts after an invalidation is complete looks under versions that are at least those
    of then. So an entry whose key was behind them does no harm, whenever it is made:

        value passed   key built   invalidation complete   inserted      read
              ├────────────┼────────────────┼─────────────────┼────────────┤
                         versions below  those of then                those or more

    `invalidate` leaves the versions as they are, and a version that is loaded after its bump is the
    new one: an insertion behind such an invalidation brings back what it was to drop. -/

namespace SorobanPulse.Serialization
open Lib Caching

/-! ### Coherence -/

/-- The bytes are those of a value of the entity, passed by a call that started when all invalidations
    that cover it were complete, of those complete when the bytes were asked for. -/
def State.Justified (s : State) (r : Returned) : Prop :=
  ∃ p ∈ s.passed, p.entityType = r.entityType ∧ p.id = r.id ∧ p.payload = some r.bytes ∧
    ∀ c ∈ (s.invalidations.take r.started).drop p.started, ¬c.scope.Covers r.entityType r.id

def Coherent (s : State) : Prop := ∀ r ∈ s.returned, s.Justified r

/-- The key was behind the versions when the invalidation was complete. -/
def Invalidation.Outdates (c : Invalidation) (entityType : String) (g v : UInt64) : Prop :=
  g < c.globalVersion ∨ v < c.entityVersions entityType

/-- No type extends another one; no version wraps around; an entry is made under a key that was behind
    at every invalidation of its entity since the call started; and `invalidate` removes the entry
    under the present key. -/
def Meets (s : State) : Action → Prop
  | .start _ entityType _ => ∀ t ∈ s.types, ¬Extends t entityType ∧ ¬Extends entityType t
  | .advance task =>
    match task.stage with
    | .missed g v _ => ∀ c ∈ s.invalidations.drop task.started,
        c.scope.Covers task.entityType task.id → c.Outdates task.entityType g v
    | .keyed g v => task.request = .invalidate →
        (g = s.globalVersion ∧ v = s.entityVersions task.entityType) ∨
          s.cache (task.key s.globalVersion (s.entityVersions task.entityType)) = none
    | _ => True
  | .invalidateEntityType entityType => s.entityVersions entityType + 1 ≠ 0
  | .bumpGlobal => s.globalVersion + 1 ≠ 0
  | .clear => True

/-! ### The invariant -/

section
variable (s : State)

/-- A version that was loaded after the call started. -/
structure State.LoadedGlobal (started : ℕ) (g : UInt64) : Prop where
  le : g ≤ s.globalVersion
  since : ∀ c ∈ s.invalidations.take started, c.globalVersion ≤ g

structure State.LoadedType (started : ℕ) (entityType : String) (v : UInt64) : Prop where
  le : v ≤ s.entityVersions entityType
  since : ∀ c ∈ s.invalidations.take started, c.entityVersions entityType ≤ v

def State.StageSound (task : Task) : Prop :=
  match task.stage with
  | .begun => True
  | .loaded g => s.LoadedGlobal task.started g
  | .keyed g v => s.LoadedGlobal task.started g ∧ s.LoadedType task.started task.entityType v
  | .missed g v bytes =>
    s.LoadedGlobal task.started g ∧ s.LoadedType task.started task.entityType v ∧
      task.request.payload = some bytes

structure State.Sound (task : Task) : Prop where
  type_mem : task.entityType ∈ s.types
  started_le : task.started ≤ s.invalidations.length
  values : ∀ p ∈ task.request.values task.entityType task.id task.started, p ∈ s.passed
  stage : s.StageSound task

/-- An entry: bytes of a value, under a key that was behind at every invalidation since the value was
    passed. -/
structure State.Entry (key : String) (bytes : Bytes) (p : Passed) (g v : UInt64) : Prop where
  mem : p ∈ s.passed
  payload : p.payload = some bytes
  key_eq : key = physicalKey g p.entityType v p.id
  global_le : g ≤ s.globalVersion
  type_le : v ≤ s.entityVersions p.entityType
  outdated : ∀ c ∈ s.invalidations.drop p.started, c.scope.Covers p.entityType p.id →
    c.Outdates p.entityType g v

structure Inv : Prop where
  history : ∀ c ∈ s.invalidations,
    c.globalVersion ≤ s.globalVersion ∧ ∀ t, c.entityVersions t ≤ s.entityVersions t
  separated : ∀ t ∈ s.types, ∀ t' ∈ s.types, ¬Extends t t'
  passed : ∀ p ∈ s.passed, p.entityType ∈ s.types ∧ p.started ≤ s.invalidations.length
  tasks : ∀ task ∈ s.tasks, s.Sound task
  entries : ∀ key bytes, s.cache key = some bytes → ∃ p g v, s.Entry key bytes p g v
  returned : ∀ r ∈ s.returned, r.started ≤ s.invalidations.length ∧ s.Justified r

/-- What only grows. -/
structure State.Before (t : State) : Prop where
  invalidations : s.invalidations <+: t.invalidations
  types : s.types ⊆ t.types
  passed : s.passed ⊆ t.passed
  global_le : s.globalVersion ≤ t.globalVersion
  type_le : ∀ entityType, s.entityVersions entityType ≤ t.entityVersions entityType

end

section
variable {s t : State} {task : Task}

/-! ### Growing -/

/-- Tasks, entries and returned bytes aside, nothing has changed. -/
theorem State.Before.of_eq (hinv : t.invalidations = s.invalidations) (htypes : t.types = s.types)
    (hpassed : t.passed = s.passed) (hglobal : t.globalVersion = s.globalVersion)
    (hversions : t.entityVersions = s.entityVersions) : s.Before t where
  invalidations := hinv ▸ List.prefix_rfl
  types := htypes ▸ List.Subset.refl _
  passed := hpassed ▸ List.Subset.refl _
  global_le := hglobal ▸ UInt64.le_refl _
  type_le _ := hversions ▸ UInt64.le_refl _

theorem State.Before.take_eq (h : s.Before t) {n : ℕ} (hn : n ≤ s.invalidations.length) :
    t.invalidations.take n = s.invalidations.take n := by
  obtain ⟨rest, hrest⟩ := h.invalidations
  rw [← hrest, List.take_append_of_le_length hn]

theorem State.Before.length_le (h : s.Before t) : s.invalidations.length ≤ t.invalidations.length :=
  h.invalidations.length_le

theorem State.LoadedGlobal.mono {n : ℕ} {g : UInt64} (hg : s.LoadedGlobal n g) (h : s.Before t)
    (hn : n ≤ s.invalidations.length) : t.LoadedGlobal n g :=
  ⟨UInt64.le_trans hg.le h.global_le, by rw [h.take_eq hn]; exact hg.since⟩

theorem State.LoadedType.mono {n : ℕ} {entityType : String} {v : UInt64}
    (hv : s.LoadedType n entityType v) (h : s.Before t) (hn : n ≤ s.invalidations.length) :
    t.LoadedType n entityType v :=
  ⟨UInt64.le_trans hv.le (h.type_le entityType), by rw [h.take_eq hn]; exact hv.since⟩

theorem State.Sound.mono (htask : s.Sound task) (h : s.Before t) : t.Sound task := by
  refine ⟨h.types htask.type_mem, htask.started_le.trans h.length_le,
    fun p hp => h.passed (htask.values p hp), ?_⟩
  have hstage := htask.stage
  unfold StageSound at hstage ⊢
  split
  · trivial
  · next g hg =>
    rw [hg] at hstage
    exact hstage.mono h htask.started_le
  · next g v hgv =>
    rw [hgv] at hstage
    exact ⟨hstage.1.mono h htask.started_le, hstage.2.mono h htask.started_le⟩
  · next g v bytes hgv =>
    rw [hgv] at hstage
    exact ⟨hstage.1.mono h htask.started_le, hstage.2.1.mono h htask.started_le, hstage.2.2⟩

theorem State.Justified.mono {r : Returned} (hr : s.Justified r) (h : s.Before t)
    (hn : r.started ≤ s.invalidations.length) : t.Justified r := by
  obtain ⟨p, hp, htype, hid, hpayload, hclean⟩ := hr
  refine ⟨p, h.passed hp, htype, hid, hpayload, ?_⟩
  rw [h.take_eq hn]
  exact hclean

theorem inv_initial : Inv {} where
  history _ hc := absurd hc List.not_mem_nil
  separated _ ht := absurd ht List.not_mem_nil
  passed _ hp := absurd hp List.not_mem_nil
  tasks _ htask := absurd htask List.not_mem_nil
  entries _ _ hentry := by cases hentry
  returned _ hr := absurd hr List.not_mem_nil

theorem State.Entry.mono {key : String} {bytes : Bytes} {p : Passed} {g v : UInt64}
    (he : s.Entry key bytes p g v) (h : s.Before t) (hinv : t.invalidations = s.invalidations) :
    t.Entry key bytes p g v where
  mem := h.passed he.mem
  payload := he.payload
  key_eq := he.key_eq
  global_le := UInt64.le_trans he.global_le h.global_le
  type_le := UInt64.le_trans he.type_le (h.type_le _)
  outdated := by
    rw [hinv]
    exact he.outdated

/-- A step that completes no invalidation, and of which the new tasks, entries and bytes are known. -/
theorem Inv.quiet (h : Inv s) (hb : s.Before t) (hinv : t.invalidations = s.invalidations)
    (htypes : t.types = s.types) (hpassed : t.passed = s.passed)
    (htasks : ∀ task ∈ t.tasks, task ∈ s.tasks ∨ s.Sound task)
    (hentries : ∀ key bytes, t.cache key = some bytes →
      s.cache key = some bytes ∨ ∃ p g v, s.Entry key bytes p g v)
    (hreturned : ∀ r ∈ t.returned,
      r ∈ s.returned ∨ r.started ≤ s.invalidations.length ∧ s.Justified r) : Inv t where
  history c hc := by
    rw [hinv] at hc
    obtain ⟨hglobal, htype⟩ := h.history c hc
    exact ⟨UInt64.le_trans hglobal hb.global_le, fun x => UInt64.le_trans (htype x) (hb.type_le x)⟩
  separated := by
    rw [htypes]
    exact h.separated
  passed := by
    rw [hpassed, htypes, hinv]
    exact h.passed
  tasks task htask := ((htasks task htask).elim (h.tasks task) id).mono hb
  entries key bytes hentry := by
    obtain ⟨p, g, v, he⟩ := (hentries key bytes hentry).elim (h.entries key bytes) id
    exact ⟨p, g, v, he.mono hb hinv⟩
  returned r hr := by
    obtain ⟨hstarted, hjustified⟩ := (hreturned r hr).elim (h.returned r) id
    exact ⟨hinv ▸ hstarted, hjustified.mono hb hstarted⟩

/-! ### Calls -/

theorem inv_push (htask : s.Sound task) (h : Inv s) : Inv (s.push task) := by
  refine h.quiet (.of_eq rfl rfl rfl rfl rfl) rfl rfl rfl ?_ (fun _ _ => .inl) fun _ => .inl
  intro task' htask'
  rcases List.mem_cons.mp htask' with rfl | htask'
  · exact .inr htask
  · exact .inl htask'

theorem inv_erase (task : Task) (h : Inv s) : Inv { s with tasks := s.tasks.erase task } :=
  h.quiet (.of_eq rfl rfl rfl rfl rfl) rfl rfl rfl (fun _ hmem => .inl (List.mem_of_mem_erase hmem))
    (fun _ _ => .inl) fun _ => .inl

theorem inv_proceed (htask : s.Sound task) (h : Inv s) : Inv (s.proceed task) := by
  unfold State.proceed
  split
  · next payload id payload' rest hrequest =>
    refine inv_push ⟨htask.type_mem, htask.started_le, ?_, trivial⟩ h
    intro p hp
    refine htask.values p ?_
    rw [hrequest]
    exact List.mem_cons_of_mem _ hp
  · exact h

/-- The task at another stage. -/
theorem State.Sound.at {stage : Stage} (htask : s.Sound task)
    (hstage : s.StageSound { task with stage }) : s.Sound { task with stage } :=
  ⟨htask.type_mem, htask.started_le, htask.values, hstage⟩

theorem inv_miss {g v : UInt64} (htask : s.Sound task) (hglobal : s.LoadedGlobal task.started g)
    (htype : s.LoadedType task.started task.entityType v) (h : Inv s) : Inv (s.miss task g v) := by
  unfold State.miss
  split
  · next bytes hpayload => exact inv_push (htask.at ⟨hglobal, htype, hpayload⟩) h
  · exact inv_proceed htask h

/-- Found bytes are those of a value of the entity, and not from before an invalidation. -/
theorem justified_of_entry {g v : UInt64} {bytes : Bytes} (htask : s.Sound task)
    (hglobal : s.LoadedGlobal task.started g) (htype : s.LoadedType task.started task.entityType v)
    (hfound : s.cache (task.key g v) = some bytes) (h : Inv s) :
    s.Justified ⟨task.entityType, task.id, bytes, task.started⟩ := by
  obtain ⟨p, g', v', he⟩ := h.entries _ _ hfound
  have hp := (h.passed p he.mem).1
  obtain ⟨rfl, htypes, rfl, hid⟩ := eq_of_physicalKey_eq he.key_eq
    (h.separated _ htask.type_mem _ hp) (h.separated _ hp _ htask.type_mem)
  refine ⟨p, he.mem, htypes.symm, hid.symm, he.payload, ?_⟩
  intro c hc hcovers
  have hsince : c ∈ s.invalidations.take task.started := List.mem_of_mem_drop hc
  have hlater : c ∈ s.invalidations.drop p.started := by
    rw [List.drop_take] at hc
    exact List.mem_of_mem_take hc
  dsimp only at hcovers
  rw [htypes, hid] at hcovers
  rcases he.outdated c hlater hcovers with hlt | hlt
  · exact absurd hlt (UInt64.not_lt.mpr (hglobal.since c hsince))
  · rw [← htypes] at hlt
    exact absurd hlt (UInt64.not_lt.mpr (htype.since c hsince))

theorem inv_give {g v : UInt64} {bytes : Bytes} (htask : s.Sound task)
    (hglobal : s.LoadedGlobal task.started g) (htype : s.LoadedType task.started task.entityType v)
    (hfound : s.cache (task.key g v) = some bytes) (h : Inv s) : Inv (s.give task bytes) := by
  refine h.quiet (.of_eq rfl rfl rfl rfl rfl) rfl rfl rfl (fun _ => .inl) (fun _ _ => .inl) ?_
  intro r hr
  rcases List.mem_cons.mp hr with rfl | hr
  · exact .inr ⟨htask.started_le, justified_of_entry htask hglobal htype hfound h⟩
  · exact .inl hr

theorem inv_insert {g v : UInt64} {bytes : Bytes} (htask : s.Sound task)
    (hglobal : s.LoadedGlobal task.started g) (htype : s.LoadedType task.started task.entityType v)
    (hpayload : task.request.payload = some bytes)
    (hmeets : ∀ c ∈ s.invalidations.drop task.started,
      c.scope.Covers task.entityType task.id → c.Outdates task.entityType g v) (h : Inv s) :
    Inv (s.insert task g v bytes) := by
  have hvalue : (⟨task.entityType, task.id, some bytes, task.started⟩ : Passed) ∈ s.passed := by
    refine htask.values _ ?_
    rw [← hpayload]
    cases hrequest : task.request with
    | serialize payload => exact List.mem_cons_self
    | prewarm payload rest => exact List.mem_cons_self
    | peek | invalidate =>
      rw [hrequest] at hpayload
      cases hpayload
  have hbefore : s.Before { s with cache := Function.update s.cache (task.key g v) (some bytes) } :=
    .of_eq rfl rfl rfl rfl rfl
  refine inv_proceed (htask.mono hbefore) ?_
  refine h.quiet hbefore rfl rfl rfl (fun _ => .inl) ?_ fun _ => .inl
  intro key bytes' hentry
  dsimp only at hentry
  rw [Function.update_apply] at hentry
  split at hentry
  · next heq =>
    cases hentry
    exact .inr ⟨_, g, v, hvalue, rfl, heq, hglobal.le, htype.le, hmeets⟩
  · exact .inl hentry

/-! ### Invalidations -/

/-- An invalidation is complete. It drops the entries it covers, or their keys are behind then. -/
theorem Inv.complete {c : Invalidation} (h : Inv s) (hb : s.Before t)
    (hinv : t.invalidations = s.invalidations ++ [c]) (hglobal : c.globalVersion = t.globalVersion)
    (hversions : c.entityVersions = t.entityVersions) (htypes : t.types = s.types)
    (hpassed : t.passed = s.passed) (htasks : t.tasks = s.tasks) (hreturned : t.returned = s.returned)
    (hcache : ∀ key bytes, t.cache key = some bytes → s.cache key = some bytes)
    (hentries : ∀ key bytes p g v, t.cache key = some bytes → s.Entry key bytes p g v →
      c.scope.Covers p.entityType p.id → c.Outdates p.entityType g v) : Inv t where
  history d hd := by
    rw [hinv, List.mem_append, List.mem_singleton] at hd
    -- the invalidations before have seen lower versions, the new one sees the present ones
    rcases hd with hd | rfl
    · obtain ⟨hold, htype⟩ := h.history d hd
      exact ⟨UInt64.le_trans hold hb.global_le, fun x => UInt64.le_trans (htype x) (hb.type_le x)⟩
    · rw [hglobal, hversions]
      exact ⟨UInt64.le_refl _, fun _ => UInt64.le_refl _⟩
  separated := by
    rw [htypes]
    exact h.separated
  passed p hp := by
    rw [hpassed] at hp
    rw [htypes]
    exact ⟨(h.passed p hp).1, (h.passed p hp).2.trans hb.length_le⟩
  tasks task htask := (h.tasks task (htasks ▸ htask)).mono hb
  entries key bytes hentry := by
    obtain ⟨p, g, v, he⟩ := h.entries key bytes (hcache key bytes hentry)
    refine ⟨p, g, v, hb.passed he.mem, he.payload, he.key_eq,
      UInt64.le_trans he.global_le hb.global_le, UInt64.le_trans he.type_le (hb.type_le _), ?_⟩
    intro d hd hcovers  -- those of before, or the new one
    rw [hinv, List.drop_append_of_le_length (h.passed p he.mem).2, List.mem_append,
      List.mem_singleton] at hd
    rcases hd with hd | rfl
    · exact he.outdated d hd hcovers
    · exact hentries key bytes p g v hentry he hcovers
  returned r hr := by
    obtain ⟨hstarted, hjustified⟩ := h.returned r (hreturned ▸ hr)
    exact ⟨hstarted.trans hb.length_le, hjustified.mono hb hstarted⟩

/-- The entry under the present key is gone, and what is under other keys is behind. -/
theorem inv_invalidate {g v : UInt64}
    (hmeets : (g = s.globalVersion ∧ v = s.entityVersions task.entityType) ∨
      s.cache (task.key s.globalVersion (s.entityVersions task.entityType)) = none) (h : Inv s) :
    Inv ({ s with cache := Function.update s.cache (task.key g v) none }.complete
      (.key task.entityType task.id)) := by
  refine h.complete ⟨List.prefix_append .., List.Subset.refl _, List.Subset.refl _, UInt64.le_refl _,
    fun _ => UInt64.le_refl _⟩ rfl rfl rfl rfl rfl rfl rfl ?_ ?_
  · intro key bytes hentry
    change Function.update s.cache (task.key g v) none key = some bytes at hentry
    rw [Function.update_apply] at hentry
    split at hentry
    · cases hentry
    · exact hentry
  · rintro key bytes p g' v' hentry he ⟨htype, hid⟩
    change Function.update s.cache (task.key g v) none key = some bytes at hentry
    rw [Function.update_apply] at hentry
    split at hentry
    · cases hentry
    · next hne =>
      by_contra hpresent
      rw [Invalidation.Outdates, not_or, UInt64.not_lt, UInt64.not_lt] at hpresent
      have hg : g' = s.globalVersion := UInt64.le_antisymm he.global_le hpresent.1
      have hv : v' = s.entityVersions p.entityType := UInt64.le_antisymm he.type_le hpresent.2
      have hkey : key = task.key s.globalVersion (s.entityVersions task.entityType) := by
        rw [he.key_eq, hg, hv, Task.key, htype, hid]
      rcases hmeets with ⟨rfl, rfl⟩ | hnone
      · exact hne hkey
      · rw [← hkey, hentry] at hnone
        cases hnone

theorem lt_add_one_of_ne {n : UInt64} (h : n + 1 ≠ 0) : n < n + 1 := by
  rw [Ne, ← UInt64.toNat_inj, UInt64.toNat_add] at h
  rw [UInt64.lt_iff_toNat_lt, UInt64.toNat_add]
  have hmax := n.toNat_lt
  simp only [UInt64.toNat_one, UInt64.toNat_zero] at h ⊢
  omega

/-- All keys of the type are behind. -/
theorem inv_invalidateEntityType {entityType : String} (hmeets : s.entityVersions entityType + 1 ≠ 0)
    (h : Inv s) : Inv ((s.bumpType entityType).complete (.entityType entityType)) := by
  have hlt := lt_add_one_of_ne hmeets
  have hle (x : String) : s.entityVersions x ≤ (s.bumpType entityType).entityVersions x := by
    change _ ≤ Function.update s.entityVersions entityType _ x
    rw [Function.update_apply]
    split
    · next heq =>
      rw [heq]
      exact UInt64.le_of_lt hlt
    · exact UInt64.le_refl _
  refine h.complete ⟨List.prefix_append .., List.Subset.refl _, List.Subset.refl _, UInt64.le_refl _,
    hle⟩ rfl rfl rfl rfl rfl rfl rfl (fun _ _ hentry => hentry) ?_
  rintro key bytes p g v hentry he rfl
  refine .inr (UInt64.lt_of_le_of_lt he.type_le ?_)
  change _ < Function.update s.entityVersions p.entityType _ p.entityType
  rw [Function.update_self]
  exact hlt

theorem inv_clear {clearing : ℕ} (h : Inv s) :
    Inv ({ s with cache := fun _ => none, clearing }.complete .all) := by
  refine h.complete ⟨List.prefix_append .., List.Subset.refl _, List.Subset.refl _, UInt64.le_refl _,
    fun _ => UInt64.le_refl _⟩ rfl rfl rfl rfl rfl rfl rfl ?_ ?_
  · intro key bytes hentry
    cases hentry
  · intro key bytes p g v hentry
    cases hentry

theorem inv_bumpGlobal (hmeets : s.globalVersion + 1 ≠ 0) (h : Inv s) :
    Inv { s with globalVersion := s.globalVersion + 1, clearing := s.clearing + 1 } :=
  h.quiet ⟨List.prefix_rfl, List.Subset.refl _, List.Subset.refl _,
    UInt64.le_of_lt (lt_add_one_of_ne hmeets), fun _ => UInt64.le_refl _⟩ rfl rfl rfl (fun _ => .inl)
    (fun _ _ => .inl) fun _ => .inl

/-! ### Runs -/

theorem mem_values {request : Request} {entityType id : String} {n : ℕ} {p : Passed}
    (hp : p ∈ request.values entityType id n) : p.entityType = entityType ∧ p.started = n := by
  cases request with
  | serialize payload =>
    rw [List.mem_singleton.mp hp]
    exact ⟨rfl, rfl⟩
  | prewarm payload rest =>
    rcases List.mem_cons.mp hp with rfl | hp
    · exact ⟨rfl, rfl⟩
    · rcases List.mem_map.mp hp with ⟨entry, -, rfl⟩
      exact ⟨rfl, rfl⟩
  | peek | invalidate => cases hp

theorem inv_start {request : Request} {entityType id : String}
    (hmeets : ∀ t ∈ s.types, ¬Extends t entityType ∧ ¬Extends entityType t)
    (ht : step s (.start request entityType id) = some t) (h : Inv s) : Inv t := by
  cases ht
  have hb : s.Before { s with
      tasks := { request, entityType, id, started := s.invalidations.length } :: s.tasks
      types := entityType :: s.types
      passed := request.values entityType id s.invalidations.length ++ s.passed } :=
    ⟨List.prefix_rfl, List.subset_cons_self _ _, List.subset_append_right _ _, UInt64.le_refl _,
      fun _ => UInt64.le_refl _⟩
  refine ⟨h.history, ?_, ?_, ?_, ?_, ?_⟩
  · -- the type does not extend one in use, nor the other way round
    intro t ht t' ht'
    rcases List.mem_cons.mp ht with rfl | hold
    · rcases List.mem_cons.mp ht' with rfl | hold'
      · exact fun hext => ne_of_extends hext rfl
      · exact (hmeets t' hold').2
    · rcases List.mem_cons.mp ht' with rfl | hold'
      · exact (hmeets t hold).1
      · exact h.separated t hold t' hold'
  · -- the values of the call count as passed from its start on
    intro p hp
    rcases List.mem_append.mp hp with hp | hp
    · obtain ⟨htype, hstarted⟩ := mem_values hp
      rw [htype, hstarted]
      exact ⟨List.mem_cons_self, Nat.le_refl _⟩
    · exact ⟨List.mem_cons_of_mem _ (h.passed p hp).1, (h.passed p hp).2⟩
  · intro task htask
    rcases List.mem_cons.mp htask with rfl | htask
    · exact ⟨List.mem_cons_self, Nat.le_refl _, fun p hp => List.mem_append_left _ hp, trivial⟩
    · exact (h.tasks task htask).mono hb
  · intro key bytes hentry
    obtain ⟨p, g, v, he⟩ := h.entries key bytes hentry
    exact ⟨p, g, v, he.mono hb rfl⟩
  · intro r hr
    obtain ⟨hstarted, hjustified⟩ := h.returned r hr
    exact ⟨hstarted, hjustified.mono hb hstarted⟩

/-- With the key: found bytes are given, a miss is kept for the insertion, an entry is removed. -/
theorem inv_lookup {g v : UInt64} (htask : s.Sound task) (hglobal : s.LoadedGlobal task.started g)
    (htype : s.LoadedType task.started task.entityType v)
    (hmeets : task.request = .invalidate →
      (g = s.globalVersion ∧ v = s.entityVersions task.entityType) ∨
        s.cache (task.key s.globalVersion (s.entityVersions task.entityType)) = none)
    (h : Inv s) : Inv (s.lookup task g v) := by
  unfold State.lookup
  split
  · next hrequest => exact inv_invalidate (hmeets hrequest) h
  · exact h
  · next hfound => exact inv_give htask hglobal htype hfound h
  · next hfound => exact inv_give htask hglobal htype hfound h
  · exact inv_proceed htask h
  · exact inv_miss htask hglobal htype h
  · exact inv_miss htask hglobal htype h

theorem inv_advance (hmeets : Meets s (.advance task)) (ht : step s (.advance task) = some t)
    (h : Inv s) : Inv t := by
  rw [step] at ht
  split at ht
  · next hmem =>
    cases ht
    have hb : s.Before { s with tasks := s.tasks.erase task } := .of_eq rfl rfl rfl rfl rfl
    have htask := (h.tasks task hmem).mono hb
    have h := inv_erase task h
    have hsound := htask.stage
    unfold State.StageSound at hsound
    unfold State.advance
    unfold Meets at hmeets
    dsimp only at hmeets
    cases hstage : task.stage with
    | begun =>
      refine inv_push (htask.at ⟨UInt64.le_refl _, ?_⟩) h
      exact fun c hc => (h.history c (List.mem_of_mem_take hc)).1
    | loaded g =>
      rw [hstage] at hsound
      refine inv_push (htask.at ⟨hsound, UInt64.le_refl _, ?_⟩) h
      exact fun c hc => (h.history c (List.mem_of_mem_take hc)).2 _
    | keyed g v =>
      rw [hstage] at hsound hmeets
      exact inv_lookup htask hsound.1 hsound.2 hmeets h
    | missed g v bytes =>
      rw [hstage] at hsound hmeets
      exact inv_insert htask hsound.1 hsound.2.1 hsound.2.2 hmeets h
  · cases ht

theorem inv_step {a : Action} (hmeets : Meets s a) (ht : step s a = some t) (h : Inv s) : Inv t := by
  cases a with
  | start request entityType id => exact inv_start hmeets ht h
  | advance task => exact inv_advance hmeets ht h
  | invalidateEntityType entityType =>
    cases ht
    exact inv_invalidateEntityType hmeets h
  | bumpGlobal =>
    cases ht
    exact inv_bumpGlobal hmeets h
  | clear =>
    rw [step] at ht
    split at ht
    · cases ht
      exact inv_clear h
    · cases ht

end

/-- Where no step of a run breaks the condition, the cache is coherent; and types have keys of their
    own exactly when none of them extends another. -/
theorem cache_coherent (actions : List Action) (s : State) (types : Set String) :
    (Run step Meets {} actions s → Coherent s) ∧
    ((∀ t ∈ types, ∀ t' ∈ types, ∀ g v id g' v' id',
        physicalKey g t v id = physicalKey g' t' v' id' → g = g' ∧ t = t' ∧ v = v' ∧ id = id') ↔
      ∀ t ∈ types, ∀ t' ∈ types, ¬Extends t t') :=
  ⟨fun hrun r hr => ((hrun.invariant inv_step inv_initial).returned r hr).2,
    keys_injective_iff types⟩

/-! ### A hit, and two types with one key -/

/-- A call at its first, second and third action. -/
def stages (task : Task) (g v : UInt64) : List Action :=
  [.advance task, .advance { task with stage := .loaded g },
    .advance { task with stage := .keyed g v }]

def written : Task := ⟨.serialize (some [1]), "a", "b:e0:c", 0, .begun⟩

def peeked : Task := ⟨.peek, "a:e0:b", "c", 0, .begun⟩

/-- A value is cached and then peeked at. -/
def cached : List Action :=
  .start written.request "a" "b" :: stages { written with id := "b" } 0 0 ++
    .advance { written with id := "b", stage := .missed 0 0 [1] } ::
    .start peeked.request "a" "b" :: stages { peeked with entityType := "a", id := "b" } 0 0

theorem cache_coherent_cached : ∃ s, exec step {} cached = some s ∧ s.returned ≠ [] ∧ Coherent s := by
  have hrun : ∃ s, Run step Meets {} cached s ∧ exec step {} cached = some s ∧ s.returned ≠ [] := by
    refine ⟨_, .cons ?_ rfl (.cons trivial rfl (.cons trivial rfl (.cons ?_ rfl (.cons ?_ rfl
      (.cons ?_ rfl (.cons trivial rfl (.cons trivial rfl (.cons ?_ rfl (.nil _))))))))), rfl, ?_⟩
    · exact fun t ht => absurd ht List.not_mem_nil
    · exact fun h => by cases h
    · exact fun c hc => absurd hc List.not_mem_nil
    · intro t ht
      obtain rfl := List.mem_singleton.mp ht
      exact ⟨fun h => ne_of_extends h rfl, fun h => ne_of_extends h rfl⟩
    · exact fun h => by cases h
    · exact List.cons_ne_nil _ _
  obtain ⟨s, hrun, hexec, hreturned⟩ := hrun
  exact ⟨s, hexec, hreturned, (cache_coherent cached s ∅).1 hrun⟩

def sharedKey : List Action :=
  .start written.request written.entityType written.id :: stages written 0 0 ++
    .advance { written with stage := .missed 0 0 [1] } ::
    .start peeked.request peeked.entityType peeked.id :: stages peeked 0 0

/-- No value was passed for the entity whose bytes these are said to be. -/
theorem not_coherent_sharedKey :
    ¬∀ (actions : List Action) (s : State), AnyRun step {} actions s → Coherent s := by
  intro h
  have hstate : (exec step {} sharedKey).map (fun s => (s.returned.map (·.id), s.passed.map (·.id))) =
      some (["c"], ["b:e0:c"]) := by decide +kernel
  obtain ⟨s, hexec, hs⟩ := Option.map_eq_some_iff.mp hstate
  obtain ⟨hreturned, hpassed⟩ := Prod.mk.inj hs
  have hc : "c" ∈ s.returned.map (·.id) := hreturned ▸ List.mem_singleton_self _
  rcases List.mem_map.mp hc with ⟨r, hr, hid⟩
  obtain ⟨p, hp, -, hpid, -⟩ := h sharedKey s (anyRun_iff_exec.mpr hexec) r hr
  have hmem : p.id ∈ s.passed.map (·.id) := List.mem_map_of_mem hp
  rw [hpassed, List.mem_singleton, hpid, hid] at hmem
  exact absurd hmem (by decide)

end SorobanPulse.Serialization
