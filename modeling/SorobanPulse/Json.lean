import Mathlib

/-! JSON values, as `serde_json::Value` holds them.

    A number is an integer or an IEEE-754 double, kept by its bits: nothing here computes with one.
    An object is the list of its members in the order in which they are stored. -/

namespace SorobanPulse

inductive Number where
  | int (n : ℤ)
  | float (bits : UInt64)
  deriving DecidableEq, Repr

inductive Value where
  | null
  | bool (b : Bool)
  | number (n : Number)
  | string (s : String)
  | array (items : List Value)
  | object (map : List (String × Value))
  deriving Repr

/-- `Value::is_null`. -/
def Value.isNull : Value → Bool
  | .null => true
  | _ => false

/-- `i64::MIN`, `i64::MAX` and `u64::MAX`. -/
def I64_MIN : ℤ := -9223372036854775808
def I64_MAX : ℤ := 9223372036854775807
def U64_MAX : ℤ := 18446744073709551615

/-- `Value::as_str`. -/
def Value.asStr : Value → Option String
  | .string s => some s
  | _ => none

/-- `Value::as_i64`. -/
def Value.asI64 : Value → Option ℤ
  | .number (.int n) => if I64_MIN ≤ n ∧ n ≤ I64_MAX then some n else none
  | _ => none

/-- `Value::as_u64`. -/
def Value.asU64 : Value → Option ℤ
  | .number (.int n) => if 0 ≤ n ∧ n ≤ U64_MAX then some n else none
  | _ => none

/-! ### Size: what an iterative traversal still has to visit -/

mutual
/-- Number of nodes of a value. -/
def Value.nodes : Value → Nat
  | .array items => 1 + nodesList items
  | .object map => 1 + nodesMap map
  | _ => 1

def nodesList : List Value → Nat
  | [] => 0
  | v :: rest => v.nodes + nodesList rest

def nodesMap : List (String × Value) → Nat
  | [] => 0
  | (_, v) :: rest => v.nodes + nodesMap rest
end

theorem nodesList_eq_sum (items : List Value) :
    nodesList items = (items.map Value.nodes).sum := by
  induction items with
  | nil => rfl
  | cons v rest ih => rw [nodesList, ih, List.map_cons, List.sum_cons]

theorem nodesMap_eq_sum (map : List (String × Value)) :
    nodesMap map = (map.map fun m => m.2.nodes).sum := by
  induction map with
  | nil => rfl
  | cons m rest ih =>
    obtain ⟨k, v⟩ := m
    rw [nodesMap, ih, List.map_cons, List.sum_cons]

end SorobanPulse

/-! Strings of a JSON value by the key they are stored under.

    The key is that of the object the string is a member of; objects and arrays may nest around it. -/

namespace SorobanPulse

/-- The string is the value of a member with such a key, at any depth. -/
inductive StoredUnder (p : String → Bool) (s : String) : Value → Prop
  | here {key : String} {map : List (String × Value)} :
    p key = true → (key, .string s) ∈ map → StoredUnder p s (.object map)
  | member {key : String} {v : Value} {map : List (String × Value)} :
    (key, v) ∈ map → StoredUnder p s v → StoredUnder p s (.object map)
  | item {v : Value} {items : List Value} :
    v ∈ items → StoredUnder p s v → StoredUnder p s (.array items)

variable {p : String → Bool} {s key : String} {v : Value} {map : List (String × Value)}
  {items : List Value}

theorem storedUnder_object_nil : ¬StoredUnder p s (.object []) := by
  intro h
  cases h with
  | here _ hmem => cases hmem
  | member hmem _ => cases hmem

theorem storedUnder_array_nil : ¬StoredUnder p s (.array []) := by
  intro h
  cases h with
  | item hmem _ => cases hmem

theorem storedUnder_object_cons : StoredUnder p s (.object ((key, v) :: map)) ↔
    p key = true ∧ v = .string s ∨ StoredUnder p s v ∨ StoredUnder p s (.object map) := by
  constructor
  · intro h
    cases h with
    | here hkey hmem =>
      rcases List.mem_cons.mp hmem with heq | hmem
      · cases heq
        exact .inl ⟨hkey, rfl⟩
      · exact .inr (.inr (.here hkey hmem))
    | member hmem hv =>
      rcases List.mem_cons.mp hmem with heq | hmem
      · cases heq
        exact .inr (.inl hv)
      · exact .inr (.inr (.member hmem hv))
  · rintro (⟨hkey, rfl⟩ | hv | h)
    · exact .here hkey List.mem_cons_self
    · exact .member List.mem_cons_self hv
    · cases h with
      | here hkey hmem => exact .here hkey (List.mem_cons_of_mem _ hmem)
      | member hmem hv => exact .member (List.mem_cons_of_mem _ hmem) hv

theorem storedUnder_array_cons : StoredUnder p s (.array (v :: items)) ↔
    StoredUnder p s v ∨ StoredUnder p s (.array items) := by
  constructor
  · intro h
    cases h with
    | item hmem hv =>
      rcases List.mem_cons.mp hmem with rfl | hmem
      · exact .inl hv
      · exact .inr (.item hmem hv)
  · rintro (hv | h)
    · exact .item List.mem_cons_self hv
    · cases h with
      | item hmem hv => exact .item (List.mem_cons_of_mem _ hmem) hv

end SorobanPulse
