import SorobanPulse.Contracts.AbiDecode
import SorobanPulse.JsonText

/-! The schema registry: how a new revision of a contract's schema is compared with the active one.

        properties   {p: text of its type}            hash maps: in any order
        required     {n, …}

        in new only      FieldAdded          in old only              FieldRemoved
        in both          FieldTypeChanged    when the texts differ
        required by new only, in old's properties       FieldBecameRequired
        required by old only, in new's properties       FieldBecameOptional -/

namespace SorobanPulse.Schema
open Contracts (asArray asObject)

inductive CompatibilityMode where
  | Backward | Forward | Full | None
  deriving DecidableEq

def CompatibilityMode.debug : CompatibilityMode → String
  | .Backward => "Backward"
  | .Forward => "Forward"
  | .Full => "Full"
  | .None => "None"

inductive SchemaChange where
  | FieldAdded (field : String) (required : Bool)
  | FieldRemoved (field : String) (required : Bool)
  | FieldTypeChanged (field fromType toType : String)
  | FieldBecameRequired (field : String)
  | FieldBecameOptional (field : String)
  deriving DecidableEq

def SchemaChange.isBreaking : SchemaChange → Bool
  | .FieldAdded _ required => required
  | .FieldRemoved _ required => required
  | .FieldTypeChanged .. => true
  | .FieldBecameRequired _ => true
  | .FieldBecameOptional _ => false

def requirement (required : Bool) : String := if required then "required" else "optional"

def SchemaChange.describe : SchemaChange → String
  | .FieldAdded field required => s!"added {requirement required} field '{field}'"
  | .FieldRemoved field required => s!"removed {requirement required} field '{field}'"
  | .FieldTypeChanged field fromType toType =>
    s!"field '{field}' changed type from {fromType} to {toType}"
  | .FieldBecameRequired field => s!"field '{field}' is now required"
  | .FieldBecameOptional field => s!"field '{field}' is now optional"

def migrationStep : SchemaChange → String
  | .FieldAdded field _ =>
    s!"Give '{field}' a default, or ship it as optional first and require it in a later version"
  | .FieldRemoved field _ => s!"Mark '{field}' deprecated for one release before removing it"
  | .FieldTypeChanged field fromType toType =>
    s!"Introduce a new field for the {toType} form of '{field}' instead of changing it " ++
      s!"from {fromType} in place"
  | .FieldBecameRequired field =>
    s!"Backfill '{field}' on existing producers before making it required"
  | .FieldBecameOptional field => s!"Consumers of '{field}' must tolerate its absence"

structure CompatibilityReport where
  compatible : Bool
  mode : CompatibilityMode
  changes : List SchemaChange
  breakingChanges : List String
  migrationGuidance : List String
  deprecationWarnings : List String

/-! ### What is read of a schema -/

def properties (schema : Value) : Option (List (String × Value)) :=
  (member schema "properties").bind asObject

def deprecated (definition : Value) : Bool :=
  match member definition "deprecated" with
  | some (.bool b) => b
  | _ => false

/-- Fields carrying a `deprecated: true` annotation in the schema. -/
def deprecatedFields (schema : Value) : List String :=
  ((properties schema).map fun props =>
    (props.filter fun e => deprecated e.2).map fun e =>
      s!"field '{e.1}' is deprecated and will be removed").getD []

def schemaRequired (schema : Value) : List String :=
  (((member schema "required").bind asArray).map fun items =>
    (items.filterMap Value.asStr).dedup).getD []

section
variable (double : UInt64 → String)

/-- The text of a type; a property without one has the type `any`. -/
def typeText (definition : Value) : String :=
  ((member definition "type").map (jsonText double)).getD "any"

def schemaProperties (schema : Value) : List (String × String) :=
  ((properties schema).map fun props =>
    props.map fun e => (e.1, typeText double e.2)).getD []

/-! ### The comparison -/

/-- The order in which a hash map or a hash set is gone through. -/
structure HashOrder (α : Type) where
  iterate : List α → List α
  perm : ∀ items, (iterate items).Perm items

def HashOrder.stored {α : Type} : HashOrder α where
  iterate := id
  perm := List.Perm.refl

/-- The orders of the four loops of the comparison. -/
structure DiffOrders where
  newProps : HashOrder (String × String)
  oldProps : HashOrder (String × String)
  newRequired : HashOrder String
  oldRequired : HashOrder String

variable (orders : DiffOrders)

def diffSchemas (old new : Value) : List SchemaChange :=
  let oldProps := schemaProperties double old
  let newProps := schemaProperties double new
  let oldRequired := schemaRequired old
  let newRequired := schemaRequired new
  (orders.newProps.iterate newProps).filterMap (fun e =>
    match oldProps.lookup e.1 with
    | none => some (.FieldAdded e.1 (newRequired.contains e.1))
    | some oldType => if oldType ≠ e.2 then some (.FieldTypeChanged e.1 oldType e.2) else none) ++
  (orders.oldProps.iterate oldProps).filterMap (fun e =>
    if (newProps.lookup e.1).isNone then some (.FieldRemoved e.1 (oldRequired.contains e.1))
    else none) ++
  (orders.newRequired.iterate newRequired).filterMap (fun field =>
    if (oldProps.lookup field).isSome ∧ ¬oldRequired.contains field then
      some (.FieldBecameRequired field)
    else none) ++
  (orders.oldRequired.iterate oldRequired).filterMap (fun field =>
    if (newProps.lookup field).isSome ∧ ¬newRequired.contains field then
      some (.FieldBecameOptional field)
    else none)

/-- The changes that a mode does not allow. -/
def CompatibilityMode.violates : CompatibilityMode → SchemaChange → Bool
  | .None, _ => false
  | .Backward, .FieldAdded _ true => true
  | .Backward, .FieldBecameRequired _ => true
  | .Backward, .FieldTypeChanged .. => true
  | .Backward, _ => false
  | .Forward, .FieldRemoved _ true => true
  | .Forward, .FieldTypeChanged .. => true
  | .Forward, _ => false
  | .Full, change => change.isBreaking

/-- Check whether `new` may replace `old` under the given compatibility mode. -/
def checkCompatibility (old new : Value) (mode : CompatibilityMode) : CompatibilityReport :=
  let changes := diffSchemas double orders old new
  let breakingChanges := (changes.filter mode.violates).map SchemaChange.describe
  { compatible := breakingChanges.isEmpty
    mode
    changes
    breakingChanges
    migrationGuidance := (changes.filter mode.violates).map migrationStep
    deprecationWarnings := deprecatedFields new }

/-! ### Registration -/

/-- One stored revision of a contract's schema. -/
structure SchemaVersion where
  contractId : String
  version : ℕ
  schema : Value
  description : Option String

/-- The table of the active schemas with their descriptions, the table of the revisions, and the
    cache of compiled schemas. -/
structure SchemaStore (Compiled : Type) where
  schemas : String → Option (Value × Option String)
  versions : List SchemaVersion
  cache : String → Option Compiled

/-- A call, and what happens to its queries: what `get_schema` returns (nothing for a contract
    without schema, and also when the query fails), and the errors of the two writes. -/
structure RegisterCall where
  contractId : String
  schema : Value
  description : Option String
  mode : CompatibilityMode
  existing : Option Value
  insertError : Option String
  archiveError : Option String

variable {Compiled : Type} (compile : Value → Except String Compiled)

/-- `register_schema_with_desc` -/
def registerSchemaWithDesc (call : RegisterCall) (store : SchemaStore Compiled) :
    Except String Unit × SchemaStore Compiled :=
  match compile call.schema with
  | .error e => (.error s!"Invalid JSON Schema: {e}", store)
  | .ok compiled =>
    match call.insertError with
    | some e => (.error e, store)
    | none =>
      let stored := (store.schemas call.contractId).bind Prod.snd
      let row := (call.schema, call.description.or stored)
      (.ok (), { store with
        schemas := Function.update store.schemas call.contractId (some row)
        cache := Function.update store.cache call.contractId (some compiled) })

/-- `archive_version` -/
def archiveVersion (call : RegisterCall) (store : SchemaStore Compiled) :
    Except String Unit × SchemaStore Compiled :=
  match call.archiveError with
  | some e => (.error e, store)
  | none =>
    let revisions := store.versions.filter (·.contractId = call.contractId)
    let version := (revisions.map (·.version)).foldl max 0 + 1
    let row : SchemaVersion := ⟨call.contractId, version, call.schema, call.description⟩
    (.ok (), { store with versions := store.versions ++ [row] })

/-- The report of a registration. -/
def report (call : RegisterCall) : CompatibilityReport :=
  match call.existing with
  | some existing => checkCompatibility double orders existing call.schema call.mode
  | none => ⟨true, call.mode, [], [], [], deprecatedFields call.schema⟩

/-- Register a new revision, refusing it when it breaks the required compatibility guarantee against
    the currently active schema. -/
def registerSchemaChecked (call : RegisterCall) (store : SchemaStore Compiled) :
    Except String CompatibilityReport × SchemaStore Compiled :=
  let report := report double orders call
  if ¬report.compatible then
    (.error (s!"Schema for {call.contractId} is not {call.mode.debug}-compatible: " ++
      "; ".intercalate report.breakingChanges), store)
  else
    match registerSchemaWithDesc compile call store with
    | (.error e, store') => (.error e, store')
    | (.ok (), store') =>
      match archiveVersion call store' with
      | (.error e, store'') => (.error e, store'')
      | (.ok (), store'') => (.ok report, store'')

/-- The active schema of a contract. -/
def SchemaStore.active (store : SchemaStore Compiled) (contractId : String) : Option Value :=
  (store.schemas contractId).map Prod.fst

theorem active_archiveVersion (call : RegisterCall) (store : SchemaStore Compiled) (id : String) :
    (archiveVersion call store).2.active id = store.active id := by
  rw [archiveVersion]
  cases call.archiveError <;> rfl

/-- A registration that is refused changes nothing; one that passes is as good as unchecked, whether
    or not it could be archived. -/
theorem active_registerSchemaChecked (call : RegisterCall) (store : SchemaStore Compiled)
    (id : String) :
    (registerSchemaChecked double orders compile call store).2.active id =
      if (report double orders call).compatible then
        (registerSchemaWithDesc compile call store).2.active id
      else store.active id := by
  rw [registerSchemaChecked]
  cases (report double orders call).compatible with
  | false => rfl
  | true =>
    simp only [not_true_eq_false, if_false, if_true]
    rcases registerSchemaWithDesc compile call store with ⟨_ | _, store'⟩
    · rfl
    · dsimp only
      rw [← active_archiveVersion call store' id]
      rcases archiveVersion call store' with ⟨_ | _, store''⟩ <;> rfl

/-! ### What the comparison finds -/

/-- What a change of the list says of the two schemas. -/
def SchemaChange.Holds (oldProps newProps : List (String × String))
    (oldRequired newRequired : List String) : SchemaChange → Prop
  | .FieldAdded field required =>
    (∃ t, (field, t) ∈ newProps) ∧ oldProps.lookup field = none ∧
      required = newRequired.contains field
  | .FieldRemoved field required =>
    (∃ t, (field, t) ∈ oldProps) ∧ newProps.lookup field = none ∧
      required = oldRequired.contains field
  | .FieldTypeChanged field fromType toType =>
    (field, toType) ∈ newProps ∧ oldProps.lookup field = some fromType ∧ fromType ≠ toType
  | .FieldBecameRequired field =>
    field ∈ newRequired ∧ (oldProps.lookup field).isSome ∧ field ∉ oldRequired
  | .FieldBecameOptional field =>
    field ∈ oldRequired ∧ (newProps.lookup field).isSome ∧ field ∉ newRequired

theorem HashOrder.mem_iterate {α : Type} (order : HashOrder α) {x : α} {items : List α} :
    x ∈ order.iterate items ↔ x ∈ items := (order.perm items).mem_iff

/-- The list has every change that there is and no other, in whatever order the maps are. -/
theorem mem_diffSchemas (old new : Value) (change : SchemaChange) :
    change ∈ diffSchemas double orders old new ↔
      change.Holds (schemaProperties double old) (schemaProperties double new)
        (schemaRequired old) (schemaRequired new) := by
  simp only [diffSchemas, List.mem_append, List.mem_filterMap, HashOrder.mem_iterate,
    List.contains_iff_mem]
  refine ⟨?_, fun h => ?_⟩
  · rintro (((⟨e, he, h⟩ | ⟨e, he, h⟩) | ⟨field, hfield, h⟩) | ⟨field, hfield, h⟩)
    · -- the properties of the new schema
      split at h
      · next hlookup =>
        obtain rfl := Option.some.inj h
        exact ⟨⟨e.2, he⟩, hlookup, rfl⟩
      · next oldType hlookup =>
        obtain ⟨hne, ⟨⟩⟩ := Option.ite_none_right_eq_some.1 h
        exact ⟨he, hlookup, hne⟩
    · obtain ⟨hnone, ⟨⟩⟩ := Option.ite_none_right_eq_some.1 h
      exact ⟨⟨e.2, he⟩, Option.isNone_iff_eq_none.1 hnone, rfl⟩
    · obtain ⟨hcond, ⟨⟩⟩ := Option.ite_none_right_eq_some.1 h
      exact ⟨hfield, hcond⟩
    · obtain ⟨hcond, ⟨⟩⟩ := Option.ite_none_right_eq_some.1 h
      exact ⟨hfield, hcond⟩
  · cases change with
    | FieldAdded field required =>
      obtain ⟨⟨t, ht⟩, hnone, rfl⟩ := h
      exact .inl (.inl (.inl ⟨_, ht, by rw [hnone]⟩))
    | FieldTypeChanged field fromType toType =>
      obtain ⟨ht, hlookup, hne⟩ := h
      exact .inl (.inl (.inl ⟨_, ht, by rw [hlookup]; exact if_pos hne⟩))
    | FieldRemoved field required =>
      obtain ⟨⟨t, ht⟩, hnone, rfl⟩ := h
      exact .inl (.inl (.inr ⟨_, ht, if_pos (Option.isNone_iff_eq_none.2 hnone)⟩))
    | FieldBecameRequired field => exact .inl (.inr ⟨field, h.1, if_pos h.2⟩)
    | FieldBecameOptional field => exact .inr ⟨field, h.1, if_pos h.2⟩

/-- A revision passes when none of its changes is one that the mode does not allow. -/
theorem compatible_iff (old new : Value) (mode : CompatibilityMode) :
    (checkCompatibility double orders old new mode).compatible = true ↔
      ∀ change, change.Holds (schemaProperties double old) (schemaProperties double new)
        (schemaRequired old) (schemaRequired new) → mode.violates change = false := by
  simp only [checkCompatibility, List.isEmpty_iff, List.map_eq_nil_iff, List.filter_eq_nil_iff,
    Bool.not_eq_true, mem_diffSchemas]

end

end SorobanPulse.Schema
