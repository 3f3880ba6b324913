import SorobanPulse.Json

/-! Members of JSON objects, and PostgreSQL's operators on JSONB.

    An object keeps its members by key. `jsonb_set` wants an object for the path `{key}`: it fails
    on a scalar, and on an array, whose positions are integers. -/

namespace SorobanPulse

/-- `value.get(key)`, and `value -> key` -/
def member (v : Value) (key : String) : Option Value :=
  match v with
  | .object map => map.lookup key
  | _ => none

/-- `map.insert(key, value)` -/
def insertMember (key : String) (v : Value) : List (String × Value) → List (String × Value)
  | [] => [(key, v)]
  | e :: rest =>
    if e.1 = key then (key, v) :: rest
    else if key < e.1 then (key, v) :: e :: rest
    else e :: insertMember key v rest

/-- `map.remove(key)` -/
def removeMember (key : String) (map : List (String × Value)) : List (String × Value) :=
  map.filter fun e => e.1 ≠ key

/-- `a || b`: objects are merged, the right one first; all else is joined as arrays. -/
def jsonbConcat (a b : Value) : Value :=
  let items (v : Value) : List Value :=
    match v with
    | .array items => items
    | v => [v]
  match a, b with
  | .object m, .object n => .object (n.foldl (fun map e => insertMember e.1 e.2 map) m)
  | a, b => .array (items a ++ items b)

/-- `jsonb_set(target, '{key}', value, true)` -/
def jsonbSet (target : Value) (key : String) (v : Value) : Option Value :=
  match target with
  | .object map => some (.object (insertMember key v map))
  | _ => none

/-- What was set is there. -/
theorem lookup_insertMember (key : String) (v : Value) (map : List (String × Value)) :
    (insertMember key v map).lookup key = some v := by
  induction map with
  | nil => simp [insertMember]
  | cons e rest ih =>
    rw [insertMember]
    split
    · simp [List.lookup]
    · next hne =>
      split
      · simp [List.lookup]
      · rw [List.lookup_cons]
        have hkey : (key == e.1) = false := by
          rw [beq_eq_false_iff_ne]
          exact Ne.symm hne
        rw [hkey]
        exact ih

/-- All else stays. -/
theorem lookup_insertMember_of_ne {k key : String} {v : Value} {map : List (String × Value)}
    (h : k ≠ key) : (insertMember key v map).lookup k = map.lookup k := by
  have hbeq : (k == key) = false := beq_false_of_ne h
  induction map with
  | nil => simp [insertMember, List.lookup, hbeq]
  | cons e rest ih =>
    rw [insertMember]
    split
    · next heq =>
      obtain ⟨e₁, e₂⟩ := e
      cases heq
      simp [List.lookup, hbeq]
    · split
      · rw [List.lookup_cons, hbeq]
      · obtain ⟨e₁, e₂⟩ := e
        rw [List.lookup_cons, List.lookup_cons, ih]

end SorobanPulse
