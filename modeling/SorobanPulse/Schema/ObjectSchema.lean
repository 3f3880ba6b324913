import SorobanPulse.Jsonb

/-! JSON Schema, Draft 7: object schemas that give each property a type and require names.

        {"type": "object", "properties": {p: {"type": T}, q: {}, …}, "required": [n, …]}

    A property's type says nothing of a document without that property, `required` may name what no
    property declares, and a document may have members of which the schema does not speak. -/

namespace SorobanPulse.Schema

/-! ### Types -/

inductive TypeName where
  | null | boolean | object | array | number | string | integer
  deriving DecidableEq

def TypeName.name : TypeName → String
  | .null => "null"
  | .boolean => "boolean"
  | .object => "object"
  | .array => "array"
  | .number => "number"
  | .string => "string"
  | .integer => "integer"

/-- What the types tell apart: a number is an integer when its fractional part is zero. -/
inductive Kind where
  | null | boolean | object | array | integer | fraction | string
  deriving DecidableEq

/-- A double whose fractional part is zero: its digits below the binary point are. -/
def integral (bits : UInt64) : Bool :=
  let exponent := bits.toNat / 2 ^ 52 % 2 ^ 11
  let mantissa := bits.toNat % 2 ^ 52
  (exponent = 0 ∧ mantissa = 0) ∨ (1023 ≤ exponent ∧ (2 ^ 52 + mantissa) % 2 ^ (1075 - exponent) = 0)

def kind : Value → Kind
  | .null => .null
  | .bool _ => .boolean
  | .number (.int _) => .integer
  | .number (.float bits) => if integral bits then .integer else .fraction
  | .string _ => .string
  | .array _ => .array
  | .object _ => .object

def TypeName.kinds : TypeName → List Kind
  | .null => [.null]
  | .boolean => [.boolean]
  | .object => [.object]
  | .array => [.array]
  | .number => [.integer, .fraction]
  | .string => [.string]
  | .integer => [.integer]

/-- A list of types: not empty, and without repetition. -/
@[ext] structure TypeList where
  names : List TypeName
  nonempty : names ≠ []
  nodup : names.Nodup
  deriving DecidableEq

/-- The value of the keyword `type`. -/
inductive TypeKeyword where
  | one (t : TypeName)
  | anyOf (ts : TypeList)
  deriving DecidableEq

def TypeKeyword.kinds : TypeKeyword → List Kind
  | .one t => t.kinds
  | .anyOf ts => ts.names.flatMap TypeName.kinds

/-- Without a type, every value is let in. -/
def allows : Option TypeKeyword → Kind → Bool
  | none, _ => true
  | some T, k => k ∈ T.kinds

/-! ### Schemas and the documents they accept -/

@[ext] structure ObjectSchema where
  properties : List (String × Option TypeKeyword)
  required : List String
  keys : (properties.map Prod.fst).Nodup

/-- The names that the schema declares. -/
def ObjectSchema.names (s : ObjectSchema) : List String := s.properties.map Prod.fst

/-- The type of a member of this name. -/
def ObjectSchema.typeOf (s : ObjectSchema) (name : String) : Option TypeKeyword :=
  (s.properties.lookup name).join

def ObjectSchema.accepts (s : ObjectSchema) : Value → Bool
  | .object members =>
    (s.required.all fun name => (members.lookup name).isSome) &&
      s.properties.all fun p => (members.lookup p.1).all fun v => allows p.2 (kind v)
  | _ => false

/-- Every object that the one schema accepts, the other one accepts. -/
def Serves (writer reader : ObjectSchema) : Prop :=
  ∀ members : List (String × Value), (members.map Prod.fst).Nodup →
    writer.accepts (.object members) = true → reader.accepts (.object members) = true

/-- The reader requires nothing that the writer does not, and lets in all that the writer does. -/
structure Wider (writer reader : ObjectSchema) : Prop where
  required : ∀ name ∈ reader.required, name ∈ writer.required
  typed : ∀ p ∈ reader.properties, ∀ k, allows (writer.typeOf p.1) k → allows p.2 k

/-! ### Sample documents -/

/-- A value of this kind; the double is one half. -/
def sample : Kind → Value
  | .null => .null
  | .boolean => .bool false
  | .object => .object []
  | .array => .array []
  | .integer => .number (.int 0)
  | .fraction => .number (.float 0x3FE0000000000000)
  | .string => .string ""

theorem kind_sample (k : Kind) : kind (sample k) = k := by
  cases k with
  | fraction =>
    have hhalf : integral 0x3FE0000000000000 = false := by decide
    rw [sample, kind, hhalf]
    rfl
  | _ => rfl

theorem kinds_ne_nil (t : TypeName) : t.kinds ≠ [] := by
  cases t <;> simp [TypeName.kinds]

/-- Every type lets something in. -/
theorem exists_allowed (T : Option TypeKeyword) : ∃ k, allows T k = true := by
  rcases T with _ | t | ts
  · exact ⟨.null, rfl⟩
  · obtain ⟨k, hk⟩ := List.exists_mem_of_ne_nil _ (kinds_ne_nil t)
    exact ⟨k, decide_eq_true hk⟩
  · obtain ⟨t, ht⟩ := List.exists_mem_of_ne_nil _ ts.nonempty
    obtain ⟨k, hk⟩ := List.exists_mem_of_ne_nil _ (kinds_ne_nil t)
    refine ⟨k, ?_⟩
    rw [allows, decide_eq_true_eq, TypeKeyword.kinds]
    exact List.mem_flatMap.2 ⟨t, ht, hk⟩

/-- The first of these kinds that the type lets in. -/
def sampleOf (T : Option TypeKeyword) : Value :=
  sample (([.null, .boolean, .object, .array, .integer, .fraction, .string].find? (allows T)).getD
    .null)

theorem allows_sampleOf (T : Option TypeKeyword) : allows T (kind (sampleOf T)) = true := by
  obtain ⟨k, hk⟩ := exists_allowed T
  rw [sampleOf, kind_sample]
  cases hfind : [Kind.null, .boolean, .object, .array, .integer, .fraction, .string].find?
      (allows T) with
  | some k' => exact List.find?_some hfind
  | none =>
    rw [List.find?_eq_none] at hfind
    exact absurd hk (hfind k (by cases k <;> simp))

/-- A document with these names, and with the values that `f` gives them. -/
def docOf (names : List String) (f : String → Value) : List (String × Value) :=
  names.dedup.map fun name => (name, f name)

theorem nodup_docOf (names : List String) (f : String → Value) :
    ((docOf names f).map Prod.fst).Nodup := by
  have hfst : (docOf names f).map Prod.fst = names.dedup := by
    rw [docOf, List.map_map]
    exact List.map_id' _
  rw [hfst]
  exact List.nodup_dedup names

theorem lookup_map_self (f : String → Value) (name : String) :
    ∀ names : List String, (names.map fun n => (n, f n)).lookup name =
      if name ∈ names then some (f name) else none
  | [] => rfl
  | n :: rest => by
    rw [List.map_cons, List.lookup_cons]
    by_cases hname : name = n
    · subst hname
      simp
    · have hbeq : (name == n) = false := beq_eq_false_iff_ne.2 hname
      rw [hbeq, lookup_map_self f name rest]
      simp [hname]

theorem lookup_docOf (names : List String) (f : String → Value) (name : String) :
    (docOf names f).lookup name = if name ∈ names then some (f name) else none := by
  rw [docOf, lookup_map_self]
  simp only [List.mem_dedup]

/-! ### What a schema accepts -/

theorem accepts_object (s : ObjectSchema) (members : List (String × Value)) :
    s.accepts (.object members) = true ↔
      (∀ name ∈ s.required, (members.lookup name).isSome) ∧
        ∀ p ∈ s.properties, ∀ v, members.lookup p.1 = some v → allows p.2 (kind v) = true := by
  rw [ObjectSchema.accepts, Bool.and_eq_true, List.all_eq_true, List.all_eq_true]
  refine and_congr Iff.rfl (forall₂_congr fun p _ => ?_)
  cases members.lookup p.1 with
  | none => simp
  | some v => simp

theorem lookup_eq_some {l : List (String × Option TypeKeyword)} (hkeys : (l.map Prod.fst).Nodup)
    {p : String × Option TypeKeyword} (hp : p ∈ l) : l.lookup p.1 = some p.2 := by
  induction l with
  | nil => cases hp
  | cons e rest ih =>
    rw [List.map_cons, List.nodup_cons] at hkeys
    rw [List.lookup_cons]
    rcases List.mem_cons.1 hp with rfl | hrest
    · simp
    · have hne : (p.1 == e.1) = false := by
        rw [beq_eq_false_iff_ne]
        intro heq
        exact hkeys.1 (heq ▸ List.mem_map_of_mem hrest)
      rw [hne]
      exact ih hkeys.2 hrest

theorem typeOf_of_mem (s : ObjectSchema) {p : String × Option TypeKeyword}
    (hp : p ∈ s.properties) : s.typeOf p.1 = p.2 := by
  rw [ObjectSchema.typeOf, lookup_eq_some s.keys hp]
  rfl

/-- A name that the schema does not declare has no type. -/
theorem typeOf_of_not_mem (s : ObjectSchema) {name : String} (hname : name ∉ s.names) :
    s.typeOf name = none := by
  have hlookup : s.properties.lookup name = none := by
    rw [List.lookup_eq_none_iff]
    intro p hp
    rw [bne_iff_ne]
    rintro rfl
    exact hname (List.mem_map_of_mem hp)
  rw [ObjectSchema.typeOf, hlookup]
  rfl

/-- A document is accepted that has what is required, and in which everything is of its type. -/
theorem accepts_docOf (s : ObjectSchema) {names : List String} {f : String → Value}
    (hrequired : ∀ name ∈ s.required, name ∈ names)
    (htyped : ∀ name, allows (s.typeOf name) (kind (f name)) = true) :
    s.accepts (.object (docOf names f)) = true := by
  rw [accepts_object]
  refine ⟨?_, ?_⟩
  · intro name hname
    rw [lookup_docOf, if_pos (hrequired name hname)]
    rfl
  · intro p hp v hv
    rw [lookup_docOf, Option.ite_none_right_eq_some] at hv
    rw [← Option.some.inj hv.2, ← typeOf_of_mem s hp]
    exact htyped p.1

theorem serves_of_wider {writer reader : ObjectSchema} (h : Wider writer reader) :
    Serves writer reader := by
  intro members _ hdoc
  rw [accepts_object] at hdoc ⊢
  refine ⟨fun n hn => hdoc.1 n (h.required n hn), ?_⟩
  intro p hp v hv
  refine h.typed p hp (kind v) ?_
  by_cases hname : p.1 ∈ writer.names
  · obtain ⟨q, hq, hqp⟩ := List.mem_map.1 hname
    rw [← hqp, typeOf_of_mem writer hq]
    exact hdoc.2 q hq v (hqp ▸ hv)
  · rw [typeOf_of_not_mem writer hname]
    rfl

/-- One schema serves another exactly when it says so, name by name and type by type. -/
theorem serves_iff (writer reader : ObjectSchema) : Serves writer reader ↔ Wider writer reader := by
  refine ⟨fun h => ⟨?_, ?_⟩, serves_of_wider⟩
  · -- a document of the required names, and no others
    intro name hname
    have hdoc := accepts_docOf writer (fun _ h => h) fun n => allows_sampleOf (writer.typeOf n)
    have hsome := ((accepts_object _ _).1 (h _ (nodup_docOf _ _) hdoc)).1 name hname
    rw [lookup_docOf] at hsome
    by_contra hnot
    rw [if_neg hnot] at hsome
    cases hsome
  · -- the same with one more name, which gets a value of the kind in question
    intro p hp k hk
    have hdoc := accepts_docOf writer (fun _ => List.mem_cons_of_mem p.1)
      (f := Function.update (fun n => sampleOf (writer.typeOf n)) p.1 (sample k)) fun n => by
        by_cases hn : n = p.1
        · rw [hn, Function.update_self, kind_sample]
          exact hk
        · rw [Function.update_of_ne hn]
          exact allows_sampleOf (writer.typeOf n)
    have htyped := ((accepts_object _ _).1 (h _ (nodup_docOf _ _) hdoc)).2 p hp (sample k) (by
      rw [lookup_docOf, if_pos List.mem_cons_self, Function.update_self])
    rwa [kind_sample] at htyped

end SorobanPulse.Schema
