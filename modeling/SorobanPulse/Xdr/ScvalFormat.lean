import SorobanPulse.Xdr.ScVal

/-! Decoding stored event data: the depth guard, `decode_scval` and `parse_stored`.

        stack   (v₁, d₁) (v₂, d₂) …        v below d levels reaches down to level d - 1 + depth v

    The guard is iterative. Popping an entry puts its children on the stack one level further down, so
    the deepest level that the stack reaches stays where it is: it is the depth that recursion gives. -/

namespace SorobanPulse.Xdr

/-- Maximum JSON nesting depth accepted before an ScVal is decoded. -/
def MAX_SCVAL_JSON_DEPTH : Nat := 64

/-- What the loop pushes for one popped entry, the last child on top. -/
def children : Value × Nat → List (Value × Nat)
  | (.array items, depth) => (items.map (·, depth + 1)).reverse
  | (.object map, depth) => (map.map (·.2, depth + 1)).reverse
  | _ => []

/-- Nodes that the traversal still has to visit. -/
def pendingNodes (stack : List (Value × Nat)) : Nat := (stack.map (·.1.nodes)).sum

theorem pendingNodes_append (s t : List (Value × Nat)) :
    pendingNodes (s ++ t) = pendingNodes s + pendingNodes t := by
  rw [pendingNodes, List.map_append, List.sum_append]; rfl

theorem pendingNodes_children_lt (e : Value × Nat) : pendingNodes (children e) < e.1.nodes := by
  obtain ⟨v, depth⟩ := e
  cases v with
  | array items =>
    rw [children, pendingNodes, List.map_reverse, List.sum_reverse, List.map_map, Value.nodes,
      nodesList_eq_sum]
    exact Nat.lt_add_of_pos_left Nat.one_pos
  | object map =>
    rw [children, pendingNodes, List.map_reverse, List.sum_reverse, List.map_map, Value.nodes,
      nodesMap_eq_sum]
    exact Nat.lt_add_of_pos_left Nat.one_pos
  | _ => exact Nat.one_pos

/-- The loop of `exceeds_max_depth`, the top of the stack at the head of the list. -/
def exceedsLoop : List (Value × Nat) → Bool
  | [] => false
  | e :: stack =>
    if MAX_SCVAL_JSON_DEPTH < e.2 then true
    else exceedsLoop (children e ++ stack)
termination_by stack => pendingNodes stack
decreasing_by
  rw [pendingNodes_append]
  exact Nat.add_lt_add_right (pendingNodes_children_lt e) _

def exceedsMaxDepth (value : Value) : Bool := exceedsLoop [(value, 1)]

/-- Decode a stellar-xdr serde JSON value, refusing input nested too deep. -/
def XdrCodec.decodeScval (codec : XdrCodec) (value : Value) : Option ScVal :=
  if exceedsMaxDepth value then none else codec.fromValue value

/-- Parse a stored topic or value entry: a base64 XDR string or stellar-xdr's serde JSON. -/
def XdrCodec.parseStored (codec : XdrCodec) : Value → Option ScVal
  | .string s => codec.fromXdrBase64 s
  | .null => none
  | other => codec.fromValue other

/-! ### Nesting depth -/

mutual
/-- Scalars and empty containers have depth 1, a container is one deeper than its deepest element. -/
def depth : Value → ℕ
  | .array items => 1 + depthList items
  | .object map => 1 + depthMap map
  | _ => 1

def depthList : List Value → ℕ
  | [] => 0
  | v :: rest => max (depth v) (depthList rest)

def depthMap : List (String × Value) → ℕ
  | [] => 0
  | (_, v) :: rest => max (depth v) (depthMap rest)
end

theorem one_le_depth (v : Value) : 1 ≤ depth v := by
  cases v <;> simp [depth]

/-- What a container has in it. -/
def elements : Value → List Value
  | .array items => items
  | .object map => map.map (·.2)
  | _ => []

theorem lt_depthList_iff {n : ℕ} {items : List Value} :
    n < depthList items ↔ ∃ v ∈ items, n < depth v := by
  induction items with
  | nil => simp [depthList]
  | cons v rest ih => simp [depthList, ih]

theorem lt_depthMap_iff {n : ℕ} {map : List (String × Value)} :
    n < depthMap map ↔ ∃ v ∈ map.map (·.2), n < depth v := by
  induction map with
  | nil => simp [depthMap]
  | cons m rest ih => simp only [depthMap, lt_max_iff, ih, List.map_cons, List.exists_mem_cons_iff]

theorem succ_lt_depth_iff {n : ℕ} {v : Value} :
    n + 1 < depth v ↔ ∃ w ∈ elements v, n < depth w := by
  cases v with
  | array items =>
    rw [depth, elements, ← lt_depthList_iff]
    omega
  | object map =>
    rw [depth, elements, ← lt_depthMap_iff]
    omega
  | _ => simp [depth, elements]

/-! ### What the stack reaches -/

theorem mem_children {e : Value × ℕ} {v : Value} {d : ℕ} :
    e ∈ children (v, d) ↔ ∃ w ∈ elements v, (w, d + 1) = e := by
  cases v with
  | array items => simp [children, elements]
  | object map =>
    rw [children, elements, List.mem_reverse, List.mem_map]
    simp only [List.mem_map, exists_exists_and_eq_and]
  | _ => simp [children, elements]

/-- The value has a node below this level. -/
def Reaches (level : ℕ) (e : Value × ℕ) : Prop := level + 1 < e.2 + depth e.1

theorem reaches_mk {level d : ℕ} {v : Value} :
    Reaches level (v, d) ↔ level + 1 < d + depth v := Iff.rfl

/-- From the level or above, a value reaches below it by its elements. -/
theorem reaches_iff_children {level d : ℕ} {v : Value} (h : d ≤ level) :
    Reaches level (v, d) ↔ ∃ e ∈ children (v, d), Reaches level e := by
  have hdepth : Reaches level (v, d) ↔ ∃ w ∈ elements v, level - d < depth w := by
    rw [← succ_lt_depth_iff, reaches_mk]
    omega
  have helement : ∀ w, level - d < depth w ↔ Reaches level (w, d + 1) := by
    intro w
    rw [reaches_mk]
    omega
  simp only [hdepth, helement, mem_children]
  simp

/-- The loop finds an entry that reaches below the maximum depth. -/
theorem exceedsLoop_iff (stack : List (Value × ℕ)) :
    exceedsLoop stack = true ↔ ∃ e ∈ stack, Reaches MAX_SCVAL_JSON_DEPTH e := by
  induction stack using exceedsLoop.induct with
  | case1 => simp [exceedsLoop]
  | case2 e stack hdeep =>
    rw [exceedsLoop, if_pos hdeep]
    have hone := one_le_depth e.1
    have hreach : Reaches MAX_SCVAL_JSON_DEPTH e := by
      rw [Reaches]
      omega
    exact iff_of_true rfl ⟨e, List.mem_cons_self, hreach⟩
  | case3 e stack hshallow ih =>
    have hchildren : Reaches MAX_SCVAL_JSON_DEPTH e ↔ _ :=
      reaches_iff_children (Nat.le_of_not_lt hshallow)
    rw [exceedsLoop, if_neg hshallow, ih]
    simp only [List.mem_append, or_and_right, exists_or, List.exists_mem_cons_iff, hchildren]

theorem exceedsMaxDepth_iff (v : Value) :
    exceedsMaxDepth v = true ↔ MAX_SCVAL_JSON_DEPTH < depth v := by
  rw [exceedsMaxDepth, exceedsLoop_iff]
  simp only [List.mem_singleton, exists_eq_left, reaches_mk]
  omega

/-! ### Decoding -/

/-- The check is exact, and a value that is deeper is not handed to the recursive decoder: the
    outcome is the same for two of them that agree on the others. -/
theorem depthCheck (v : Value) :
    (exceedsMaxDepth v = true ↔ MAX_SCVAL_JSON_DEPTH < depth v) ∧
    ∀ codec codec' : XdrCodec,
      (∀ w, depth w ≤ MAX_SCVAL_JSON_DEPTH → codec.fromValue w = codec'.fromValue w) →
        codec.decodeScval v = codec'.decodeScval v := by
  refine ⟨exceedsMaxDepth_iff v, fun codec codec' hagree => ?_⟩
  rw [XdrCodec.decodeScval, XdrCodec.decodeScval]
  split
  · rfl
  · next hshallow =>
    rw [exceedsMaxDepth_iff] at hshallow
    exact hagree v (Nat.le_of_not_lt hshallow)

end SorobanPulse.Xdr
