import SorobanPulse.Schema.ObjectSchema
import SorobanPulse.Schema.SchemaValidator

/-! What a compatibility verdict is worth.

        Backward   every document of the old schema is one of the new      writer old, reader new
        Forward    every document of the new schema is one of the old      writer new, reader old
        Full       both

    Properties that both schemas declare are compared by their types. A property that only the reader
    declares is not compared with anything, though a document of the writer may have it; and a name
    may be required without being declared, or cease to be required. -/

namespace SorobanPulse.Schema

/-! ### Schemas as JSON -/

def TypeKeyword.toValue : TypeKeyword → Value
  | .one t => .string t.name
  | .anyOf ts => .array (ts.names.map fun t => .string t.name)

/-- `{"type": T}`, or `{}` -/
def definition : Option TypeKeyword → Value
  | none => .object []
  | some T => .object [("type", T.toValue)]

def ObjectSchema.toValue (s : ObjectSchema) : Value :=
  .object [("properties", .object (s.properties.map fun p => (p.1, definition p.2))),
    ("required", .array (s.required.map .string)), ("type", .string "object")]

section
variable (double : UInt64 → String)

theorem chars_typeName (t : TypeName) :
    jsonChars double (.string t.name) = '"' :: t.name.toList ++ ['"'] := by
  cases t <;> rfl

theorem typeName_injective {a b : TypeName} (h : a.name = b.name) : a = b := by
  cases a <;> cases b <;> first | rfl | exact absurd h (by decide)

theorem chars_typeName_injective {a b : TypeName}
    (h : jsonChars double (.string a.name) = jsonChars double (.string b.name)) : a = b := by
  rw [chars_typeName, chars_typeName, List.cons_append, List.cons_append, List.cons.injEq,
    List.append_left_inj, String.toList_inj] at h
  exact typeName_injective h.2

theorem comma_not_mem_typeName (t : TypeName) : ',' ∉ jsonChars double (.string t.name) := by
  rw [chars_typeName]
  cases t <;> decide

theorem chars_anyOf (ts : TypeList) :
    jsonChars double (TypeKeyword.anyOf ts).toValue =
      '[' :: [','].intercalate (ts.names.map fun t => jsonChars double (.string t.name)) ++ [']'] := by
  rw [TypeKeyword.toValue, jsonChars, itemChars_eq_map, List.map_map]
  rfl

def typeChars : Option TypeKeyword → List Char
  | none => ['a', 'n', 'y']
  | some T => jsonChars double T.toValue

theorem typeText_definition (T : Option TypeKeyword) :
    typeText double (definition T) = String.ofList (typeChars double T) := by
  cases T <;> rfl

/-- The text of a type determines it: a list opens with a bracket, a name with a quote. -/
theorem typeChars_injective {a b : Option TypeKeyword} (h : typeChars double a = typeChars double b) :
    a = b := by
  rcases a with _ | t | ts <;> rcases b with _ | t' | ts'
  · rfl
  · cases h
  · rw [typeChars, typeChars, chars_anyOf] at h
    cases h
  · cases h
  · rw [chars_typeName_injective double h]
  · rw [typeChars, typeChars, chars_anyOf] at h
    cases h
  · rw [typeChars, typeChars, chars_anyOf] at h
    cases h
  · rw [typeChars, typeChars, chars_anyOf] at h
    cases h
  · rw [typeChars, typeChars, chars_anyOf, chars_anyOf, List.cons_append, List.cons_append,
      List.cons.injEq, List.append_left_inj] at h
    have hitems := intercalate_comma_injective (List.map_eq_nil_iff.not.2 ts.nonempty)
      (List.map_eq_nil_iff.not.2 ts'.nonempty)
      (List.forall_mem_map.2 fun t _ => comma_not_mem_typeName double t)
      (List.forall_mem_map.2 fun t _ => comma_not_mem_typeName double t) h.2
    have hnames : ts.names = ts'.names :=
      List.map_injective_iff.2 (fun _ _ => chars_typeName_injective double) hitems
    rw [TypeList.ext hnames]

theorem typeText_inj {a b : Option TypeKeyword} :
    typeText double (definition a) = typeText double (definition b) ↔ a = b := by
  rw [typeText_definition, typeText_definition, String.ofList_inj]
  exact ⟨typeChars_injective double, fun h => h ▸ rfl⟩

theorem lookup_map_snd {α β : Type} (f : α → β) (name : String) :
    ∀ l : List (String × α), (l.map fun p => (p.1, f p.2)).lookup name = (l.lookup name).map f
  | [] => rfl
  | p :: rest => by
    rw [List.map_cons, List.lookup_cons, List.lookup_cons, lookup_map_snd f name rest]
    cases name == p.1 <;> rfl

theorem schemaProperties_toValue (s : ObjectSchema) :
    schemaProperties double s.toValue =
      s.properties.map fun p => (p.1, typeText double (definition p.2)) := by
  have hprops : properties s.toValue = some (s.properties.map fun p => (p.1, definition p.2)) := rfl
  rw [schemaProperties, hprops, Option.map_some, Option.getD_some, List.map_map]
  rfl

theorem mem_schemaRequired_toValue (s : ObjectSchema) (name : String) :
    name ∈ schemaRequired s.toValue ↔ name ∈ s.required := by
  have hrequired : (member s.toValue "required").bind Contracts.asArray =
      some (s.required.map .string) := rfl
  rw [schemaRequired, hrequired, Option.map_some, Option.getD_some, List.mem_dedup,
    List.mem_filterMap]
  simp [Value.asStr]

theorem lookup_schemaProperties (s : ObjectSchema) (name : String) :
    (schemaProperties double s.toValue).lookup name =
      (s.properties.lookup name).map fun T => typeText double (definition T) := by
  rw [schemaProperties_toValue]
  exact lookup_map_snd (fun T => typeText double (definition T)) name s.properties

theorem declared_iff (s : ObjectSchema) (name : String) :
    ((schemaProperties double s.toValue).lookup name).isSome ↔ name ∈ s.names := by
  rw [lookup_schemaProperties, Option.isSome_map, List.lookup_isSome_iff, ObjectSchema.names,
    List.mem_map]
  exact exists_congr fun p => and_congr_right fun _ => beq_iff_eq.trans eq_comm

theorem not_declared_iff (s : ObjectSchema) (name : String) :
    (schemaProperties double s.toValue).lookup name = none ↔ name ∉ s.names := by
  rw [← declared_iff double, Option.not_isSome_iff_eq_none]

theorem exists_mem_iff (s : ObjectSchema) (name : String) :
    (∃ t, (name, t) ∈ schemaProperties double s.toValue) ↔ name ∈ s.names := by
  rw [schemaProperties_toValue, ObjectSchema.names]
  simp only [List.mem_map, Prod.mk.injEq]
  exact ⟨fun ⟨_, p, hp, hname, _⟩ => ⟨p, hp, hname⟩, fun ⟨p, hp, hname⟩ => ⟨_, p, hp, hname, rfl⟩⟩

/-! ### What is refused -/

/-- A property has another type in the new schema. -/
def Retyped (old new : ObjectSchema) : Prop :=
  ∃ p ∈ old.properties, ∃ q ∈ new.properties, p.1 = q.1 ∧ p.2 ≠ q.2

/-- The new schema declares and requires a name that the old one does not declare, or requires one
    that the old one declares and does not require. -/
def Demanded (old new : ObjectSchema) : Prop :=
  ∃ name ∈ new.required,
    (name ∈ new.names ∧ name ∉ old.names) ∨ (name ∈ old.names ∧ name ∉ old.required)

/-- The new schema declares no longer a name that the old one declares and requires. -/
def Dropped (old new : ObjectSchema) : Prop :=
  ∃ name ∈ old.required, name ∈ old.names ∧ name ∉ new.names

/-- The changes that the check stops at. -/
def Refused (old new : ObjectSchema) : CompatibilityMode → Prop
  | .None => False
  | .Backward => Retyped old new ∨ Demanded old new
  | .Forward => Retyped old new ∨ Dropped old new
  | .Full => Retyped old new ∨ Demanded old new ∨ Dropped old new

/-- The comparison of the two schemas finds this change. -/
def Found (old new : ObjectSchema) (change : SchemaChange) : Prop :=
  change.Holds (schemaProperties double old.toValue) (schemaProperties double new.toValue)
    (schemaRequired old.toValue) (schemaRequired new.toValue)

theorem retyped_iff (old new : ObjectSchema) :
    Retyped old new ↔ ∃ field a b, Found double old new (.FieldTypeChanged field a b) := by
  refine ⟨?_, ?_⟩
  · rintro ⟨p, hp, q, hq, hname, hne⟩
    refine ⟨q.1, typeText double (definition p.2), typeText double (definition q.2), ?_, ?_,
      (typeText_inj double).not.2 hne⟩
    · rw [schemaProperties_toValue]
      exact List.mem_map_of_mem hq
    · rw [lookup_schemaProperties, ← hname, lookup_eq_some old.keys hp]
      rfl
  · rintro ⟨field, a, b, hmem, hlookup, hne⟩
    rw [schemaProperties_toValue] at hmem
    obtain ⟨q, hq, hqb⟩ := List.mem_map.1 hmem
    obtain ⟨rfl, rfl⟩ := Prod.mk.inj hqb
    rw [lookup_schemaProperties, Option.map_eq_some_iff] at hlookup
    obtain ⟨T, hT, rfl⟩ := hlookup
    obtain ⟨before, after, hsplit, _⟩ := List.lookup_eq_some_iff.1 hT
    have hp : (q.1, T) ∈ old.properties := by
      rw [hsplit]
      exact List.mem_append_right before List.mem_cons_self
    exact ⟨(q.1, T), hp, q, hq, rfl, (typeText_inj double).not.1 hne⟩

theorem demanded_iff (old new : ObjectSchema) :
    Demanded old new ↔ (∃ field, Found double old new (.FieldAdded field true)) ∨
      ∃ field, Found double old new (.FieldBecameRequired field) := by
  simp only [Found, SchemaChange.Holds, exists_mem_iff, not_declared_iff, declared_iff,
    mem_schemaRequired_toValue, ← exists_or, Demanded, eq_comm (a := true),
    List.contains_iff_mem]
  refine exists_congr fun name => ?_
  tauto

theorem dropped_iff (old new : ObjectSchema) :
    Dropped old new ↔ ∃ field, Found double old new (.FieldRemoved field true) := by
  simp only [Found, SchemaChange.Holds, exists_mem_iff, not_declared_iff,
    mem_schemaRequired_toValue, Dropped, eq_comm (a := true), List.contains_iff_mem]
  refine exists_congr fun name => ?_
  tauto

theorem refused_iff (old new : ObjectSchema) (mode : CompatibilityMode) :
    Refused old new mode ↔ ∃ change, Found double old new change ∧ mode.violates change = true := by
  cases mode with
  | None => exact ⟨fun h => h.elim, fun ⟨_, _, h⟩ => Bool.noConfusion h⟩
  | Backward =>
    rw [Refused, retyped_iff double, demanded_iff double]
    refine ⟨?_, ?_⟩
    · rintro (⟨f, a, b, h⟩ | ⟨f, h⟩ | ⟨f, h⟩)
      all_goals exact ⟨_, h, rfl⟩
    · rintro ⟨change, h, hviolates⟩
      -- the changes by their flags: what is added or removed is required or not
      rcases change with ⟨f, _ | _⟩ | ⟨f, _ | _⟩ | ⟨f, a, b⟩ | f | f
      case FieldAdded.true => exact .inr (.inl ⟨f, h⟩)
      case FieldTypeChanged => exact .inl ⟨f, a, b, h⟩
      case FieldBecameRequired => exact .inr (.inr ⟨f, h⟩)
      all_goals cases hviolates
  | Forward =>
    rw [Refused, retyped_iff double, dropped_iff double]
    refine ⟨?_, ?_⟩
    · rintro (⟨f, a, b, h⟩ | ⟨f, h⟩)
      all_goals exact ⟨_, h, rfl⟩
    · rintro ⟨change, h, hviolates⟩
      rcases change with ⟨f, _ | _⟩ | ⟨f, _ | _⟩ | ⟨f, a, b⟩ | f | f
      case FieldRemoved.true => exact .inr ⟨f, h⟩
      case FieldTypeChanged => exact .inl ⟨f, a, b, h⟩
      all_goals cases hviolates
  | Full =>
    rw [Refused, retyped_iff double, demanded_iff double, dropped_iff double]
    refine ⟨?_, ?_⟩
    · rintro (⟨f, a, b, h⟩ | (⟨f, h⟩ | ⟨f, h⟩) | ⟨f, h⟩)
      all_goals exact ⟨_, h, rfl⟩
    · rintro ⟨change, h, hviolates⟩
      rcases change with ⟨f, _ | _⟩ | ⟨f, _ | _⟩ | ⟨f, a, b⟩ | f | f
      case FieldAdded.true => exact .inr (.inl (.inl ⟨f, h⟩))
      case FieldRemoved.true => exact .inr (.inr ⟨f, h⟩)
      case FieldTypeChanged => exact .inl ⟨f, a, b, h⟩
      case FieldBecameRequired => exact .inr (.inl (.inr ⟨f, h⟩))
      all_goals cases hviolates

variable (orders : DiffOrders)

theorem compatible_iff_not_refused (old new : ObjectSchema) (mode : CompatibilityMode) :
    (checkCompatibility double orders old.toValue new.toValue mode).compatible = true ↔
      ¬Refused old new mode := by
  rw [compatible_iff, refused_iff double, not_exists]
  simp only [not_and, Bool.not_eq_true]
  rfl

/-! ### What is promised -/

/-- What each mode asks of a new revision. -/
def Guarantee (old new : ObjectSchema) : CompatibilityMode → Prop
  | .None => True
  | .Backward => Serves old new
  | .Forward => Serves new old
  | .Full => Serves old new ∧ Serves new old

/-- The same, name by name and type by type. -/
def Kept (old new : ObjectSchema) : CompatibilityMode → Prop
  | .None => True
  | .Backward => Wider old new
  | .Forward => Wider new old
  | .Full => Wider old new ∧ Wider new old

theorem guarantee_iff (old new : ObjectSchema) (mode : CompatibilityMode) :
    Guarantee old new mode ↔ Kept old new mode := by
  cases mode <;> simp only [Guarantee, Kept, serves_iff]

/-- The reader requires nothing that the writer does not, and gives no type to a property of its own
    that would keep anything out. -/
structure NothingHidden (writer reader : ObjectSchema) : Prop where
  required : ∀ name ∈ reader.required, name ∈ writer.required
  typed : ∀ p ∈ reader.properties, p.1 ∉ writer.names → ∀ k, allows p.2 k = true

/-- Nothing is hidden in any direction that the mode promises. -/
def Open (old new : ObjectSchema) : CompatibilityMode → Prop
  | .None => True
  | .Backward => NothingHidden old new
  | .Forward => NothingHidden new old
  | .Full => NothingHidden old new ∧ NothingHidden new old

theorem Retyped.symm {old new : ObjectSchema} : Retyped old new → Retyped new old :=
  fun ⟨p, hp, q, hq, hname, hne⟩ => ⟨q, hq, p, hp, hname.symm, hne.symm⟩

/-- Where declared types agree, what is hidden is all that can go wrong. -/
theorem wider_iff_nothingHidden {writer reader : ObjectSchema} (h : ¬Retyped writer reader) :
    Wider writer reader ↔ NothingHidden writer reader := by
  refine ⟨fun hw => ⟨hw.required, ?_⟩, fun hn => ⟨hn.required, ?_⟩⟩
  · intro p hp hname k
    exact hw.typed p hp k (by rw [typeOf_of_not_mem writer hname]; rfl)
  · intro p hp k hk
    by_cases hname : p.1 ∈ writer.names
    · obtain ⟨q, hq, hqp⟩ := List.mem_map.1 hname
      rw [← hqp, typeOf_of_mem writer hq] at hk
      have hsame : q.2 = p.2 := by
        by_contra hne
        exact h ⟨q, hq, p, hp, hqp, hne⟩
      rwa [← hsame]
    · exact hn.typed p hp hname k

theorem kept_iff_open {old new : ObjectSchema} {mode : CompatibilityMode}
    (h : ¬Refused old new mode) : Kept old new mode ↔ Open old new mode := by
  cases mode with
  | None => exact Iff.rfl
  | Backward => exact wider_iff_nothingHidden fun hr => h (.inl hr)
  | Forward => exact wider_iff_nothingHidden fun hr => h (.inl hr.symm)
  | Full =>
    exact and_congr (wider_iff_nothingHidden fun hr => h (.inl hr))
      (wider_iff_nothingHidden fun hr => h (.inl hr.symm))

/-- A verdict is sound when the check stops at something, or nothing is hidden from it. -/
theorem verdict_iff (old new : ObjectSchema) (mode : CompatibilityMode) :
    ((checkCompatibility double orders old.toValue new.toValue mode).compatible = true →
      Guarantee old new mode) ↔ Refused old new mode ∨ Open old new mode := by
  rw [compatible_iff_not_refused, guarantee_iff]
  by_cases h : Refused old new mode
  · exact ⟨fun _ => .inl h, fun _ hnot => absurd h hnot⟩
  · rw [kept_iff_open h]
    exact ⟨fun hopen => .inr (hopen h), fun hopen _ => hopen.resolve_left h⟩

/-! ### Registration -/

variable {Compiled : Type} (compile : Value → Except String Compiled)

/-- A registration of an object schema. `seen` is the schema it was compared with: the active one,
    none after a failed query, or one that another registration has replaced since. -/
structure Registration where
  contractId : String
  schema : ObjectSchema
  description : Option String
  mode : CompatibilityMode
  seen : Option ObjectSchema
  insertError : Option String
  archiveError : Option String

def Registration.call (r : Registration) : RegisterCall :=
  ⟨r.contractId, r.schema.toValue, r.description, r.mode, r.seen.map ObjectSchema.toValue,
    r.insertError, r.archiveError⟩

/-- The registration becomes active: what it is compared with does not stop it, it compiles, and it
    is written. -/
def Registration.Stored (r : Registration) : Prop :=
  (∀ seen ∈ r.seen, ¬Refused seen r.schema r.mode) ∧ (∃ c, compile r.schema.toValue = .ok c) ∧
    r.insertError = none

/-- The schema that is active afterwards keeps the guarantee towards the one active before. -/
def Honored (contractId : String) (mode : CompatibilityMode) (before after : SchemaStore Compiled) :
    Prop :=
  ∀ old new : ObjectSchema, before.active contractId = some old.toValue →
    after.active contractId = some new.toValue → Guarantee old new mode

theorem report_compatible_iff (r : Registration) :
    (report double orders r.call).compatible = true ↔
      ∀ seen ∈ r.seen, ¬Refused seen r.schema r.mode := by
  rw [report, Registration.call]
  cases r.seen with
  | none => simp
  | some seen =>
    rw [Option.map_some]
    simp only [compatible_iff_not_refused, Option.mem_some_iff, forall_eq']

/-- A registration that passes is active afterwards, whether or not it could be archived. -/
theorem active_of_stored {r : Registration} (h : r.Stored compile) (store : SchemaStore Compiled) :
    (registerSchemaChecked double orders compile r.call store).2.active r.contractId =
      some r.schema.toValue := by
  obtain ⟨hpass, ⟨c, hc⟩, hinsert⟩ := h
  rw [active_registerSchemaChecked, if_pos ((report_compatible_iff double orders r).2 hpass),
    registerSchemaWithDesc]
  simp only [Registration.call, hc, hinsert, SchemaStore.active, Function.update_self,
    Option.map_some]

/-- One that does not leaves the active schema as it is. -/
theorem active_of_not_stored {r : Registration} (h : ¬r.Stored compile)
    (store : SchemaStore Compiled) :
    (registerSchemaChecked double orders compile r.call store).2.active r.contractId =
      store.active r.contractId := by
  rw [active_registerSchemaChecked]
  split
  · next hpass =>
    rw [report_compatible_iff] at hpass
    rw [registerSchemaWithDesc]
    cases hcompile : compile r.call.schema with
    | error e => rfl
    | ok c =>
      cases hinsert : r.call.insertError with
      | some e => rfl
      | none => exact absurd ⟨hpass, ⟨c, hcompile⟩, hinsert⟩ h
  · rfl

theorem keyword_injective {a b : TypeKeyword} (h : a.toValue = b.toValue) : a = b := by
  rcases a with t | ts <;> rcases b with t' | ts'
  · rw [typeName_injective (Value.string.inj h)]
  · cases h
  · cases h
  · have hnames : ts.names = ts'.names :=
      List.map_injective_iff.2 (fun _ _ h => typeName_injective (Value.string.inj h))
        (Value.array.inj h)
    rw [TypeList.ext hnames]

theorem definition_injective {a b : Option TypeKeyword} (h : definition a = definition b) : a = b := by
  rcases a with _ | T <;> rcases b with _ | T'
  · rfl
  · cases h
  · cases h
  · injection h with h
    injection h with h
    rw [keyword_injective (Prod.mk.inj h).2]

/-- A schema is read off its JSON. -/
theorem toValue_injective {a b : ObjectSchema} (h : a.toValue = b.toValue) : a = b := by
  rw [ObjectSchema.toValue, ObjectSchema.toValue, Value.object.injEq, List.cons.injEq,
    List.cons.injEq, Prod.mk.injEq, Prod.mk.injEq, Value.object.injEq, Value.array.injEq] at h
  obtain ⟨⟨_, hprops⟩, ⟨_, hrequired⟩, _⟩ := h
  have hproperties : a.properties = b.properties := by
    refine List.map_injective_iff.2 (fun p q hpq => ?_) hprops
    obtain ⟨hname, hdef⟩ := Prod.mk.inj hpq
    exact Prod.ext hname (definition_injective hdef)
  exact ObjectSchema.ext hproperties
    (List.map_injective_iff.2 (fun _ _ => Value.string.inj) hrequired)

theorem Guarantee.refl (s : ObjectSchema) (mode : CompatibilityMode) : Guarantee s s mode := by
  cases mode with
  | None => trivial
  | Full => exact ⟨fun _ _ h => h, fun _ _ h => h⟩
  | _ => exact fun _ _ h => h

theorem honored_iff (r : Registration) {old : ObjectSchema} {before : SchemaStore Compiled}
    (hbefore : before.active r.contractId = some old.toValue) :
    Honored r.contractId r.mode before
        (registerSchemaChecked double orders compile r.call before).2 ↔
      (r.Stored compile → Kept old r.schema r.mode) := by
  refine ⟨fun h hstored => ?_, fun h old' new' hold hnew => ?_⟩
  · rw [← guarantee_iff]
    exact h old r.schema hbefore (active_of_stored double orders compile hstored before)
  · rw [hbefore, Option.some.injEq] at hold
    obtain rfl := toValue_injective hold
    by_cases hstored : r.Stored compile
    · rw [active_of_stored double orders compile hstored, Option.some.injEq] at hnew
      obtain rfl := toValue_injective hnew
      exact (guarantee_iff _ _ _).2 (h hstored)
    · rw [active_of_not_stored double orders compile hstored, hbefore, Option.some.injEq] at hnew
      obtain rfl := toValue_injective hnew
      exact Guarantee.refl _ _

/-- Verdicts are sound, and registrations honor them, exactly when nothing is hidden from the check
    or it stops at something else, and what is stored unchecked happens to be wider. -/
theorem compatibility_sound_iff (r : Registration) (old : ObjectSchema)
    (before : SchemaStore Compiled) (hbefore : before.active r.contractId = some old.toValue) :
    (((checkCompatibility double orders old.toValue r.schema.toValue r.mode).compatible = true →
        Guarantee old r.schema r.mode) ∧
      Honored r.contractId r.mode before
        (registerSchemaChecked double orders compile r.call before).2) ↔
    (Refused old r.schema r.mode ∨ Open old r.schema r.mode) ∧
      (r.Stored compile → Kept old r.schema r.mode) :=
  and_congr (verdict_iff double orders old r.schema r.mode)
    (honored_iff double orders compile r hbefore)

end

/-! ### An optional field -/

def storedOrders : DiffOrders := ⟨.stored, .stored, .stored, .stored⟩

def bareSchema : ObjectSchema := ⟨[], [], List.nodup_nil⟩

def amountSchema : ObjectSchema :=
  ⟨[("amount", some (.one .integer))], [], List.nodup_singleton _⟩

def amountOf (text : String) : List (String × Value) := [("amount", .string text)]

def bareStore : SchemaStore Value := ⟨fun _ => some (bareSchema.toValue, none), [], fun _ => none⟩

def addAmount : Registration := ⟨"CA", amountSchema, none, .Backward, some bareSchema, none, none⟩

theorem stored_addAmount : addAmount.Stored Except.ok := by
  refine ⟨?_, ⟨_, rfl⟩, rfl⟩
  rintro _ ⟨⟩ (⟨_, hp, _⟩ | ⟨_, hname, _⟩)
  · cases hp
  · cases hname

theorem compatibility_sound_addAmount :
    (((checkCompatibility (fun _ => "0.5") storedOrders bareSchema.toValue amountSchema.toValue
          .Backward).compatible = true → Guarantee bareSchema amountSchema .Backward) ∧
      Honored "CA" .Backward bareStore
        (registerSchemaChecked (fun _ => "0.5") storedOrders Except.ok addAmount.call bareStore).2) ↔
    (Refused bareSchema amountSchema .Backward ∨ Open bareSchema amountSchema .Backward) ∧
      (addAmount.Stored Except.ok → Kept bareSchema amountSchema .Backward) :=
  compatibility_sound_iff (fun _ => "0.5") storedOrders Except.ok addAmount bareSchema bareStore rfl

/-- A field is added as optional, with a type: that is taken for compatible, and registered. A
    document that has that field already, as a text, is valid no longer. -/
theorem not_sound_addAmount :
    (checkCompatibility (fun _ => "0.5") storedOrders bareSchema.toValue amountSchema.toValue
        .Backward).compatible = true ∧
      bareSchema.accepts (.object (amountOf "many")) = true ∧
      amountSchema.accepts (.object (amountOf "many")) = false ∧
      ¬Honored "CA" .Backward bareStore
        (registerSchemaChecked (fun _ => "0.5") storedOrders Except.ok addAmount.call bareStore).2 := by
  have hold : bareSchema.accepts (.object (amountOf "many")) = true := by decide
  have hnew : amountSchema.accepts (.object (amountOf "many")) = false := by decide
  refine ⟨?_, hold, hnew, ?_⟩
  · exact (compatible_iff_not_refused _ _ _ _ _).2 (stored_addAmount.1 bareSchema rfl)
  · intro h
    have hserves := h bareSchema amountSchema rfl
      (active_of_stored (fun _ => "0.5") storedOrders Except.ok stored_addAmount bareStore)
    have hvalid := hserves (amountOf "many") (List.nodup_singleton _) hold
    rw [hnew] at hvalid
    cases hvalid

end SorobanPulse.Schema
