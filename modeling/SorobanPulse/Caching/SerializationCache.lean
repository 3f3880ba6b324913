import SorobanPulse.Caching.InvalidationTask

/-! The serialization cache, one atomic action at a time.

        get_or_serialize_entity   global version, type version, get │ serialize, insert
        prewarm                   the same, for one entry after the other
        peek                      global version, type version, get
        invalidate                global version, type version, remove
        invalidate_entity_type    type version + 1
        invalidate_all            global version + 1, clear

    Between two actions of a call there may be actions of others. No entry expires or is evicted. -/

namespace SorobanPulse.Serialization
open Lib Caching

abbrev Bytes := List UInt8

/-- What is done about an entity. A payload is what its value serializes to, if it does. -/
inductive Request where
  | serialize (payload : Option Bytes)
  /-- One entry, and those still to come. -/
  | prewarm (payload : Option Bytes) (rest : List (String × Option Bytes))
  | peek
  | invalidate
  deriving DecidableEq

inductive Stage where
  | begun
  /-- The global version is loaded. -/
  | loaded (g : UInt64)
  /-- The type version is, too. -/
  | keyed (g v : UInt64)
  /-- There is no entry, and the bytes are to be one. -/
  | missed (g v : UInt64) (bytes : Bytes)
  deriving DecidableEq

/-- A call that is under way. -/
structure Task where
  request : Request
  entityType : String
  id : String
  /-- How many invalidations were complete when it started. -/
  started : ℕ
  stage : Stage := .begun
  deriving DecidableEq

inductive Scope where
  | key (entityType id : String)
  | entityType (entityType : String)
  | all

def Scope.Covers (entityType id : String) : Scope → Prop
  | .key t i => t = entityType ∧ i = id
  | .entityType t => t = entityType
  | .all => True

/-- A complete invalidation, and the versions then. -/
structure Invalidation where
  scope : Scope
  globalVersion : UInt64
  entityVersions : String → UInt64

/-- A value that was passed for an entity. -/
structure Passed where
  entityType : String
  id : String
  payload : Option Bytes
  started : ℕ

/-- Bytes that came from the cache. -/
structure Returned where
  entityType : String
  id : String
  bytes : Bytes
  started : ℕ

structure State where
  cache : String → Option Bytes := fun _ => none
  globalVersion : UInt64 := 0
  entityVersions : String → UInt64 := fun _ => 0
  tasks : List Task := []
  /-- Calls of `invalidate_all` between their two actions. -/
  clearing : ℕ := 0
  /-- What happened: invalidations from the first to the last, and in any order the types asked for,
      the values passed and the bytes returned. -/
  invalidations : List Invalidation := []
  types : List String := []
  passed : List Passed := []
  returned : List Returned := []

inductive Action where
  | start (request : Request) (entityType id : String)
  /-- The next action of a call. -/
  | advance (task : Task)
  | invalidateEntityType (entityType : String)
  | bumpGlobal
  | clear

/-! ### Steps -/

def Request.payload : Request → Option Bytes
  | .serialize payload | .prewarm payload _ => payload
  | .peek | .invalidate => none

/-- The values that a call comes with. -/
def Request.values (entityType id : String) (started : ℕ) : Request → List Passed
  | .serialize payload => [⟨entityType, id, payload, started⟩]
  | .prewarm payload rest =>
    ⟨entityType, id, payload, started⟩ ::
      rest.map fun entry => ⟨entityType, entry.1, entry.2, started⟩
  | .peek | .invalidate => []

section
variable (s : State) (task : Task)

def State.push : State := { s with tasks := task :: s.tasks }

/-- An entity is done with: a `prewarm` goes on to the next. -/
def State.proceed : State :=
  match task.request with
  | .prewarm _ ((id, payload) :: rest) =>
    s.push { task with request := .prewarm payload rest, id, stage := .begun }
  | _ => s

/-- The invalidation has taken its last action on the cache, and is complete with that. -/
def State.complete (scope : Scope) : State :=
  { s with invalidations := s.invalidations ++ [⟨scope, s.globalVersion, s.entityVersions⟩] }

/-- There is no entry. A value that does not serialize makes none. -/
def State.miss (g v : UInt64) : State :=
  match task.request.payload with
  | some bytes => s.push { task with stage := .missed g v bytes }
  | none => s.proceed task

def State.give (bytes : Bytes) : State :=
  { s with returned := ⟨task.entityType, task.id, bytes, task.started⟩ :: s.returned }

def Task.key (g v : UInt64) : String := physicalKey g task.entityType v task.id

/-- What is done with the key. -/
def State.lookup (g v : UInt64) : State :=
  match task.request, s.cache (task.key g v) with
  | .invalidate, _ =>
    { s with cache := Function.update s.cache (task.key g v) none }.complete
      (.key task.entityType task.id)
  | .peek, none => s
  | .peek, some bytes | .serialize _, some bytes => s.give task bytes
  | .prewarm _ _, some _ => s.proceed task
  | .serialize _, none | .prewarm _ _, none => s.miss task g v

def State.insert (g v : UInt64) (bytes : Bytes) : State :=
  { s with cache := Function.update s.cache (task.key g v) (some bytes) }.proceed task

/-- The next action of a call that is taken out of the list. -/
def State.advance : State :=
  match task.stage with
  | .begun => s.push { task with stage := .loaded s.globalVersion }
  | .loaded g => s.push { task with stage := .keyed g (s.entityVersions task.entityType) }
  | .keyed g v => s.lookup task g v
  | .missed g v bytes => s.insert task g v bytes

def State.bumpType (entityType : String) : State :=
  { s with
    entityVersions := Function.update s.entityVersions entityType (s.entityVersions entityType + 1) }

end

def step (s : State) : Action → Option State
  | .start request entityType id =>
    let started := s.invalidations.length
    some { s with
      tasks := { request, entityType, id, started } :: s.tasks
      types := entityType :: s.types
      passed := request.values entityType id started ++ s.passed }
  | .advance task =>
    if task ∈ s.tasks then some ({ s with tasks := s.tasks.erase task }.advance task) else none
  | .invalidateEntityType entityType =>
    some ((s.bumpType entityType).complete (.entityType entityType))
  | .bumpGlobal =>
    some { s with globalVersion := s.globalVersion + 1, clearing := s.clearing + 1 }
  | .clear =>
    if 0 < s.clearing then
      some ({ s with cache := fun _ => none, clearing := s.clearing - 1 }.complete .all)
    else none

end SorobanPulse.Serialization
