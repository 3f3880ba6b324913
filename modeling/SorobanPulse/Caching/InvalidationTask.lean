import SorobanPulse.Ingest.TrueDuplicates
import SorobanPulse.Lib.Run

/-! The task that invalidates the caches of a contract when an event of it is broadcast.

        handlers   miss ─▶ read ─────────▶ insert          counts
                   read ─▶ key ─▶ get ───▶ insert          serialized pages
        indexer          broadcast c
        task                      recv c ─▶ invalidate     the count, then the type "event:c"

    `while let Ok(event) = rx.recv().await` runs as long as `recv` succeeds. A receiver that the
    channel has overrun is told so by an error, and the loop ends. What a handler caches is as old as
    its read, counted in events broadcast before it. -/

namespace SorobanPulse.Caching
open Ingest Lib

/-- A contract id. A strkey has no colon. -/
abbrev ContractId := { id : String // ':' ∉ id.toList }

/-- Where the task stands. -/
inductive Task where
  /-- At `recv`. -/
  | idle
  /-- An event of the contract is received. -/
  | received (c : ContractId)
  /-- Its count is invalidated. -/
  | counted (c : ContractId)
  | stopped
  deriving DecidableEq

structure State where
  /-- The contracts of the events broadcast, the oldest first. -/
  sent : List ContractId := []
  /-- All senders are gone. -/
  closed : Bool := false
  /-- The next event of the task's receiver. -/
  position : ℕ := 0
  task : Task := .idle
  /-- `contract_count_cache`; a count is given by its age. -/
  counts : ContractId → Option ℕ := fun _ => none
  /-- Counts missed and not yet read. -/
  countMisses : List ContractId := []
  /-- Counts read and not yet inserted. -/
  countFills : List (ContractId × ℕ) := []
  globalVersion : UInt64 := 0
  entityVersions : String → UInt64 := fun _ => 0
  /-- The serialization cache by physical key. -/
  entries : String → Option ℕ := fun _ => none
  /-- Pages read, with their ids. -/
  pages : List (ContractId × String × ℕ) := []
  /-- Pages whose key is being built, with the global version that it starts with. -/
  keying : List (ContractId × String × ℕ × UInt64) := []
  /-- Keys of pages that are not yet looked up. -/
  keys : List (String × ℕ) := []
  /-- Pages missed under a key, serialized and not yet inserted. -/
  entryFills : List (String × ℕ) := []

/-- `format!("event:{}", contract_id)` -/
def entityType (c : ContractId) : String := "event:" ++ c.val

/-- `format!("v{}:{}:e{}:{}", global_version, entity_type, entity_version, id)` -/
def physicalKey (globalVersion : UInt64) (entityType : String) (version : UInt64) (id : String) :
    String :=
  "v" ++ toString globalVersion.toNat ++ ":" ++ entityType ++ ":e" ++ toString version.toNat ++
    ":" ++ id

def State.versionedKey (s : State) (entityType id : String) : String :=
  physicalKey s.globalVersion entityType (s.entityVersions entityType) id

inductive Step where
  | broadcast (c : ContractId)
  | close
  /-- The task polls `recv`. -/
  | recv
  | invalidateCount
  | invalidateEntityType
  /-- A handler misses the count. -/
  | missCount (c : ContractId)
  | readCount (c : ContractId)
  | insertCount (c : ContractId) (age : ℕ)
  /-- A handler reads a page. -/
  | readPage (c : ContractId) (id : String)
  /-- `versioned_key`: one version is loaded, and then the other. -/
  | loadGlobal (c : ContractId) (id : String) (age : ℕ)
  | loadEntity (c : ContractId) (id : String) (age : ℕ) (globalVersion : UInt64)
  /-- The page is looked up under its key. -/
  | get (key : String) (age : ℕ)
  | insertEntry (key : String) (age : ℕ)
  /-- Entries leave by their time to live or for capacity. -/
  | evictCount (c : ContractId)
  | evictEntry (key : String)

section
variable (s : State)

/-- `recv`: an event; nothing yet; the end of a closed channel; or the notice of an overrun. -/
def State.recv (capacity : ℕ) : Option State :=
  match s.task with
  | .idle =>
    if capacity < s.sent.length - s.position then
      some { s with task := .stopped, position := s.sent.length - capacity }
    else match s.sent[s.position]? with
      | some c => some { s with task := .received c, position := s.position + 1 }
      | none => if s.closed then some { s with task := .stopped } else none
  | _ => none

def State.invalidateCount : Option State :=
  match s.task with
  | .received c => some { s with task := .counted c, counts := Function.update s.counts c none }
  | _ => none

/-- `invalidate_entity_type`: the version goes up, and no entry is touched. -/
def State.invalidateEntityType : Option State :=
  match s.task with
  | .counted c => some { s with
      task := .idle
      entityVersions := Function.update s.entityVersions (entityType c)
        (s.entityVersions (entityType c) + 1) }
  | _ => none

def State.loadGlobal (c : ContractId) (id : String) (age : ℕ) : Option State :=
  if (c, id, age) ∈ s.pages then
    some { s with
      pages := s.pages.erase (c, id, age)
      keying := (c, id, age, s.globalVersion) :: s.keying }
  else none

def State.loadEntity (c : ContractId) (id : String) (age : ℕ) (globalVersion : UInt64) :
    Option State :=
  if (c, id, age, globalVersion) ∈ s.keying then
    let version := s.entityVersions (entityType c)
    some { s with
      keying := s.keying.erase (c, id, age, globalVersion)
      keys := (physicalKey globalVersion (entityType c) version id, age) :: s.keys }
  else none

/-- `cache.get`: a page that is missed is to be serialized and inserted. -/
def State.get (key : String) (age : ℕ) : Option State :=
  if (key, age) ∈ s.keys then
    let s := { s with keys := s.keys.erase (key, age) }
    match s.entries key with
    | some _ => some s
    | none => some { s with entryFills := (key, age) :: s.entryFills }
  else none

end

def step (capacity : ℕ) (s : State) : Step → Option State
  | .broadcast c => if s.closed then none else some { s with sent := s.sent ++ [c] }
  | .close => some { s with closed := true }
  | .recv => s.recv capacity
  | .invalidateCount => s.invalidateCount
  | .invalidateEntityType => s.invalidateEntityType
  | .missCount c =>
    match s.counts c with
    | some _ => none
    | none => some { s with countMisses := c :: s.countMisses }
  | .readCount c =>
    if c ∈ s.countMisses then
      some { s with
        countMisses := s.countMisses.erase c
        countFills := (c, s.sent.length) :: s.countFills }
    else none
  | .insertCount c age =>
    if (c, age) ∈ s.countFills then
      some { s with
        counts := Function.update s.counts c (some age)
        countFills := s.countFills.erase (c, age) }
    else none
  | .readPage c id => some { s with pages := (c, id, s.sent.length) :: s.pages }
  | .loadGlobal c id age => s.loadGlobal c id age
  | .loadEntity c id age globalVersion => s.loadEntity c id age globalVersion
  | .get key age => s.get key age
  | .insertEntry key age =>
    if (key, age) ∈ s.entryFills then
      some { s with
        entries := Function.update s.entries key (some age)
        entryFills := s.entryFills.erase (key, age) }
    else none
  | .evictCount c => some { s with counts := Function.update s.counts c none }
  | .evictEntry key => some { s with entries := Function.update s.entries key none }

/-! ### Keys, for any entity types and ids

        v0:a:e0:b:e0:c        type "a", id "b:e0:c"       or       type "a:e0:b", id "c"

    A type that goes on behind another one as a key does shares keys with it: `Extends`. Between types
    that do not, a key gives back what it was built from. -/

/-- The type `t` with a version behind it, and then nothing or a colon. -/
def Extends (t t' : String) : Prop :=
  ∃ (v : UInt64) (tail : String), t' = t ++ ":e" ++ toString v.toNat ++ tail ∧
    (tail = "" ∨ ∃ w, tail = ":" ++ w)

/-- The decimal digits of a version. -/
def digits (v : UInt64) : List Char := Nat.toDigits 10 v.toNat

theorem toList_toString_version (v : UInt64) : (toString v.toNat).toList = digits v := Nat.toList_repr

theorem colon_notMem_digits (v : UInt64) : ':' ∉ digits v := not_mem_toDigits rfl v.toNat

theorem digits_injective {v v' : UInt64} (h : digits v = digits v') : v = v' :=
  UInt64.toNat_inj.mp (toDigits_injective h)

/-- What follows the type in a key. -/
def keyTail (v : UInt64) (id : List Char) : List Char := ':' :: 'e' :: (digits v ++ ':' :: id)

theorem toList_physicalKey_eq (g v : UInt64) (t id : String) :
    (physicalKey g t v id).toList =
      ('v' :: digits g) ++ ':' :: (t.toList ++ keyTail v id.toList) := by
  simp only [physicalKey, String.toList_append, toList_toString_version, keyTail, List.append_assoc]
  rfl

/-- The tail of a key that ends as another one does: the part in front is nothing, or a version. -/
theorem keyTail_eq_append {v v' : UInt64} {id id' u : List Char}
    (h : keyTail v id = u ++ keyTail v' id') :
    u = [] ∨ ∃ w, u = ':' :: 'e' :: (digits v ++ w) ∧ (w = [] ∨ ∃ w', w = ':' :: w') := by
  cases u with
  | nil => exact .inl rfl
  | cons c u =>
    rw [keyTail, keyTail, List.cons_append, List.cons_eq_cons] at h
    obtain ⟨rfl, h⟩ := h
    cases u with
    | nil => cases h
    | cons c u =>
      rw [List.cons_append, List.cons_eq_cons] at h
      obtain ⟨rfl, h⟩ := h
      refine .inr ?_
      rcases List.append_eq_append_iff.mp h with ⟨w, rfl, hw⟩ | ⟨w, hw, hrest⟩
      · refine ⟨w, rfl, ?_⟩
        cases w with
        | nil => exact .inl rfl
        | cons c w =>
          rw [List.cons_append, List.cons_eq_cons] at hw
          exact .inr ⟨w, by rw [hw.1]⟩
      · cases w with
        | nil => exact ⟨[], by rw [hw, List.append_nil, List.append_nil], .inl rfl⟩
        | cons c w =>
          rw [List.cons_append, List.cons_eq_cons] at hrest
          have hcolon : ':' ∈ digits v := by
            rw [hw, hrest.1]
            exact List.mem_append_right _ List.mem_cons_self
          exact absurd hcolon (colon_notMem_digits v)

theorem extends_of_append {v v' : UInt64} {t t' : String} {id id' u : List Char}
    (ht : t'.toList = t.toList ++ u) (h : keyTail v id = u ++ keyTail v' id') (hne : u ≠ []) :
    Extends t t' := by
  rcases keyTail_eq_append h with hu | ⟨w, rfl, hw⟩
  · exact absurd hu hne
  · refine ⟨v, String.ofList w, ?_, ?_⟩
    · apply String.toList_inj.mp
      rw [ht]
      simp only [String.toList_append, toList_toString_version, String.toList_ofList,
        List.append_assoc]
      rfl
    · rcases hw with rfl | ⟨w', rfl⟩
      · exact .inl rfl
      · refine .inr ⟨String.ofList w', ?_⟩
        apply String.toList_inj.mp
        simp only [String.toList_append, String.toList_ofList]
        rfl

/-- Keys of types that do not extend each other. -/
theorem eq_of_physicalKey_eq {g g' v v' : UInt64} {t t' id id' : String}
    (h : physicalKey g t v id = physicalKey g' t' v' id') (htt' : ¬Extends t t')
    (ht't : ¬Extends t' t) : g = g' ∧ t = t' ∧ v = v' ∧ id = id' := by
  have hlist := congrArg String.toList h
  rw [toList_physicalKey_eq, toList_physicalKey_eq] at hlist
  have hcolon (g : UInt64) : ':' ∉ 'v' :: digits g := by
    rw [List.mem_cons, not_or]
    exact ⟨by decide, colon_notMem_digits g⟩
  obtain ⟨hg, hbody⟩ := eq_of_append_separator (hcolon g) (hcolon g') hlist
  have hsame : t.toList = t'.toList ∧ keyTail v id.toList = keyTail v' id'.toList := by
    rcases List.append_eq_append_iff.mp hbody with ⟨u, ht, htail⟩ | ⟨u, ht, htail⟩
    · cases u with
      | nil => exact ⟨by rw [ht, List.append_nil], htail⟩
      | cons c u => exact absurd (extends_of_append ht htail (List.cons_ne_nil c u)) htt'
    · cases u with
      | nil => exact ⟨by rw [ht, List.append_nil], htail.symm⟩
      | cons c u => exact absurd (extends_of_append ht htail (List.cons_ne_nil c u)) ht't
  have htail := (List.cons.inj (List.cons.inj hsame.2).2).2
  obtain ⟨hv, hid⟩ := eq_of_append_separator (colon_notMem_digits v) (colon_notMem_digits v') htail
  exact ⟨digits_injective (List.cons.inj hg).2, String.toList_inj.mp hsame.1, digits_injective hv,
    String.toList_inj.mp hid⟩

/-- A type that extends another one has a key of it. -/
theorem exists_physicalKey_eq {t t' : String} (h : Extends t t') (g : UInt64) :
    ∃ v v' id id', physicalKey g t v id = physicalKey g t' v' id' := by
  obtain ⟨v, tail, rfl, rfl | ⟨w, rfl⟩⟩ := h
  · refine ⟨v, 0, "e0:", "", ?_⟩
    simp only [physicalKey, String.append_assoc]
    rfl
  · refine ⟨v, 0, w ++ ":e0:", "", ?_⟩
    simp only [physicalKey, String.append_assoc]
    rfl

theorem ne_of_extends {t t' : String} (h : Extends t t') : t ≠ t' := by
  obtain ⟨v, tail, rfl, -⟩ := h
  intro heq
  have hlength := congrArg String.length heq
  simp only [String.length_append] at hlength
  have : ":e".length = 2 := rfl
  omega

/-- The keys of some types are injective exactly when none of the types extends another. -/
theorem keys_injective_iff (types : Set String) :
    (∀ t ∈ types, ∀ t' ∈ types, ∀ g v id g' v' id',
      physicalKey g t v id = physicalKey g' t' v' id' → g = g' ∧ t = t' ∧ v = v' ∧ id = id') ↔
    ∀ t ∈ types, ∀ t' ∈ types, ¬Extends t t' := by
  constructor
  · intro h t ht t' ht' hext
    obtain ⟨v, v', id, id', hkey⟩ := exists_physicalKey_eq hext 0
    exact ne_of_extends hext (h t ht t' ht' 0 v id 0 v' id' hkey).2.1
  · intro h t ht t' ht' g v id g' v' id' hkey
    exact eq_of_physicalKey_eq hkey (h t ht t' ht') (h t' ht' t ht)

end SorobanPulse.Caching
