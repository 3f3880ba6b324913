import SorobanPulse.Jsonb
import SorobanPulse.Xdr.ScvalFormat

/-! Decoding event data with a contract's ABI.

        topic[0] ──▶ name ──▶ first entry of that name ──▶ inputs
        value    ──▶ a vec by position, a map by key, anything else at "0"

    Each input takes the value under its own name or, failing that, the one at its position. The
    format is guessed from the shape of the value; the entry does not say which one it is. -/

namespace SorobanPulse.Contracts
open Xdr

/-- The XDR crate and serde_json: encoders, `to_value(..).unwrap_or(Null)`, and the texts of
    strings, symbols and JSON values. -/
structure XdrCrate extends XdrCodec where
  toXdrBase64 : ScVal → String
  toValue : ScVal → Value
  text : List UInt8 → String
  jsonText : Value → String

def asArray : Value → Option (List Value)
  | .array items => some items
  | _ => none

def asObject : Value → Option (List (String × Value))
  | .object map => some map
  | _ => none

section
variable (crate : XdrCrate)

mutual
def scvalToJson : ScVal → Value
  | .bool b => .bool b
  | .void => .null
  | .u32 n => .number (.int n.toNat)
  | .i32 n => .number (.int n.toInt)
  | .u64 n => .string (toString n)
  | .i64 n => .string (toString n)
  | .symbol s => .string (crate.text s)
  | .string s => .string (crate.text s)
  | .vec (some items) => .array (scvalsToJson items)
  | .vec none => .array []
  | other => crate.toValue other

def scvalsToJson : List ScVal → List Value
  | [] => []
  | v :: vs => scvalToJson v :: scvalsToJson vs
end

/-- What is collected into a map; a later value replaces an earlier one of its key. -/
def collectMap (members : List (String × Value)) (map : List (String × Value)) :
    List (String × Value) :=
  members.foldl (fun map e => insertMember e.1 e.2 map) map

/-- `scval_to_json(key)`, as a text. -/
def keyText (key : ScVal) : String :=
  match scvalToJson crate key with
  | .string s => s
  | other => crate.jsonText other

/-- A parsed value by position, by key or at position 0. -/
def scvalMembers : ScVal → List (String × Value)
  | .vec (some items) =>
    collectMap (items.mapIdx fun i v => (toString i, scvalToJson crate v)) []
  | .map (some entries) =>
    collectMap (entries.map fun e => (keyText crate e.1, scvalToJson crate e.2)) []
  | scalar => [("0", scvalToJson crate scalar)]

def decodeScalar (value : Value) : Value :=
  match crate.fromValue value with
  | some v => scvalToJson crate v
  | none => value

def decodeValues (value : Value) : List (String × Value) :=
  match crate.parseStored value with
  | some v => scvalMembers crate v
  | none => (asObject value).getD [("0", decodeScalar crate value)]

def eventNameFromTopic (topic : Value) : Option String :=
  match topic with
  | .array (first :: _) =>
    match crate.parseStored first with
    | some (.symbol s) => some (crate.text s)
    | some (.string s) => some (crate.text s)
    | _ => first.asStr.or (((member first "symbol").bind Value.asStr).or
        ((member first "string").bind Value.asStr))
  | _ => none

def hasName (name : String) (entry : Value) : Bool :=
  (member entry "name").bind Value.asStr == some name

/-- The name of an input, and the value under that name or at its position. -/
def inputMember (values : List (String × Value)) (i : ℕ) (input : Value) : String × Value :=
  let name := ((member input "name").bind Value.asStr).getD ("field_" ++ toString i)
  (name, ((values.lookup name).or (values.lookup (toString i))).getD .null)

def decodeEventData (abi eventData : Value) : Option Value := do
  let topic ← member eventData "topic"
  let eventName ← eventNameFromTopic crate topic
  let entries ← asArray abi
  let entry ← entries.find? (hasName eventName)
  let inputs ← (member entry "inputs").bind asArray
  let value ← member eventData "value"
  let values := decodeValues crate value
  some (.object (collectMap (inputs.mapIdx (inputMember values)) [("event", .string eventName)]))

end

section
variable {crate : XdrCrate} {k : String} {v : Value} {members map : List (String × Value)}

/-! ### Collected maps -/

theorem collectMap_append (members more : List (String × Value)) :
    collectMap (members ++ more) map = collectMap more (collectMap members map) :=
  List.foldl_append

theorem collectMap_cons (e : String × Value) :
    collectMap (e :: members) map = collectMap members (insertMember e.1 e.2 map) := rfl

theorem lookup_collectMap_of_not_mem (h : ∀ e ∈ members, e.1 ≠ k) :
    (collectMap members map).lookup k = map.lookup k := by
  induction members generalizing map with
  | nil => rfl
  | cons e members ih =>
    rw [collectMap_cons, ih fun e' he' => h e' (List.mem_cons_of_mem _ he'),
      lookup_insertMember_of_ne (h e List.mem_cons_self).symm]

/-- The last value of a key is the one that stays. -/
theorem lookup_collectMap_last {pre post : List (String × Value)} (h : ∀ e ∈ post, e.1 ≠ k) :
    (collectMap (pre ++ (k, v) :: post) map).lookup k = some v := by
  rw [collectMap_append, collectMap_cons, lookup_collectMap_of_not_mem h]
  exact lookup_insertMember k v _

/-- What a collected map holds was collected, or was there before. -/
theorem mem_of_lookup_collectMap (h : (collectMap members map).lookup k = some v) :
    (k, v) ∈ members ∨ map.lookup k = some v := by
  induction members generalizing map with
  | nil => exact .inr h
  | cons e members ih =>
    rw [collectMap_cons] at h
    rcases ih h with hmem | hmap
    · exact .inl (List.mem_cons_of_mem _ hmem)
    · by_cases hk : k = e.1
      · rw [hk, lookup_insertMember] at hmap
        cases hmap
        rw [hk]
        exact .inl List.mem_cons_self
      · rw [lookup_insertMember_of_ne hk] at hmap
        exact .inr hmap

end

end SorobanPulse.Contracts
