import SorobanPulse.Jsonb

/-! Locations in a JSON value, and what a write to one leaves alone.

        {"a": [1, {"b": 2}]}     .member "a", .element 1, .member "b"     ──▶   2

    A value that is put where there was one before is found there, the old value put back restores
    the whole, and a location that neither leads to the written one nor lies below it keeps its
    value. Above the written location the keys and the lengths stay. -/

namespace SorobanPulse

/-- Into a member of an object, or into an element of an array. -/
inductive Step where
  | member (key : String)
  | element (i : ℕ)
  deriving DecidableEq, Repr

def Value.child : Value → Step → Option Value
  | .object map, .member key => map.lookup key
  | .array items, .element i => items[i]?
  | _, _ => none

/-- The value at a location. -/
def Value.locate (v : Value) : List Step → Option Value
  | [] => some v
  | s :: path => (v.child s).bind fun c => c.locate path

/-- The member keeps its place. -/
def replaceMember (key : String) (v : Value) : List (String × Value) → List (String × Value)
  | [] => []
  | e :: rest => if e.1 = key then (key, v) :: rest else e :: replaceMember key v rest

def Value.withChild : Value → Step → Value → Value
  | .object map, .member key, new => .object (replaceMember key new map)
  | .array items, .element i, new => .array (items.set i new)
  | v, _, _ => v

/-- Another value at a location that exists. -/
def Value.put : Value → List Step → Value → Value
  | _, [], new => new
  | v, s :: path, new =>
    match v.child s with
    | some c => v.withChild s (c.put path new)
    | none => v

/-- A value without what is below its root. -/
inductive Node where
  | scalar (v : Value)
  | array (length : ℕ)
  | object (keys : List String)

def Value.node : Value → Node
  | .array items => .array items.length
  | .object map => .object (map.map (·.1))
  | v => .scalar v

/-! ### One step -/

section
variable {key key' : String} {v w new : Value} {map : List (String × Value)}

theorem lookup_cons_self (key : String) (v : Value) (map : List (String × Value)) :
    ((key, v) :: map).lookup key = some v := List.lookup_cons_self

theorem lookup_cons_ne {e : String × Value} (h : e.1 ≠ key) (map : List (String × Value)) :
    (e :: map).lookup key = map.lookup key := by
  have hkey : (key == e.1) = false := by
    rw [beq_eq_false_iff_ne]
    exact Ne.symm h
  rw [List.lookup_cons, hkey]

theorem replaceMember_cons (key : String) (v : Value) (e : String × Value)
    (rest : List (String × Value)) : replaceMember key v (e :: rest) =
      if e.1 = key then (key, v) :: rest else e :: replaceMember key v rest := rfl

theorem lookup_replaceMember (h : map.lookup key = some w) :
    (replaceMember key new map).lookup key = some new := by
  induction map with
  | nil => cases h
  | cons e rest ih =>
    rw [replaceMember_cons]
    split
    · exact lookup_cons_self _ _ _
    · next hne =>
      rw [lookup_cons_ne hne] at h ⊢
      exact ih h

theorem lookup_replaceMember_ne (h : key' ≠ key) :
    (replaceMember key new map).lookup key' = map.lookup key' := by
  induction map with
  | nil => rfl
  | cons e rest ih =>
    rw [replaceMember_cons]
    split
    · next heq => rw [lookup_cons_ne (Ne.symm h), lookup_cons_ne (heq ▸ Ne.symm h)]
    · by_cases hkey : e.1 = key'
      · subst hkey
        rw [List.lookup_cons_self, List.lookup_cons_self]
      · rw [lookup_cons_ne hkey, lookup_cons_ne hkey, ih]

theorem replaceMember_replaceMember (h : map.lookup key = some w) :
    replaceMember key w (replaceMember key new map) = map := by
  induction map with
  | nil => cases h
  | cons e rest ih =>
    rw [replaceMember_cons]
    split
    · next heq =>
      subst heq
      rw [List.lookup_cons_self] at h
      rw [replaceMember_cons, if_pos rfl, ← Option.some.inj h]
    · next hne =>
      rw [lookup_cons_ne hne] at h
      rw [replaceMember_cons, if_neg hne, ih h]

theorem keys_replaceMember (key : String) (new : Value) (map : List (String × Value)) :
    (replaceMember key new map).map (·.1) = map.map (·.1) := by
  induction map with
  | nil => rfl
  | cons e rest ih =>
    rw [replaceMember_cons]
    split
    · next heq => rw [List.map_cons, List.map_cons, heq]
    · rw [List.map_cons, List.map_cons, ih]

end

section
variable {v w c new : Value} {s s' : Step} {path q : List Step}

theorem Value.child_withChild (h : v.child s = some c) :
    (v.withChild s new).child s = some new := by
  cases v with
  | array items =>
    cases s with
    | element i =>
      have hlt : i < items.length := (List.getElem?_eq_some_iff.mp h).1
      exact List.getElem?_set_self hlt
    | member key => cases h
  | object map =>
    cases s with
    | member key => exact lookup_replaceMember h
    | element i => cases h
  | _ => cases s <;> cases h

theorem Value.child_withChild_ne (h : s' ≠ s) : (v.withChild s new).child s' = v.child s' := by
  cases v with
  | array items =>
    cases s with
    | element i =>
      cases s' with
      | element j =>
        have hne : i ≠ j := fun heq => h (congrArg Step.element heq.symm)
        exact List.getElem?_set_ne hne
      | member key => rfl
    | member key => rfl
  | object map =>
    cases s with
    | member key =>
      cases s' with
      | member key' => exact lookup_replaceMember_ne fun heq => h (congrArg Step.member heq)
      | element j => rfl
    | element i => rfl
  | _ => cases s <;> rfl

theorem Value.withChild_withChild (h : v.child s = some c) :
    (v.withChild s new).withChild s c = v := by
  cases v with
  | array items =>
    cases s with
    | element i =>
      obtain ⟨hlt, rfl⟩ := List.getElem?_eq_some_iff.mp h
      change Value.array ((items.set i new).set i items[i]) = _
      rw [List.set_set, List.set_getElem_self]
    | member key => cases h
  | object map =>
    cases s with
    | member key => exact congrArg Value.object (replaceMember_replaceMember h)
    | element i => cases h
  | _ => cases s <;> cases h

theorem Value.node_withChild (v new : Value) (s : Step) : (v.withChild s new).node = v.node := by
  cases v with
  | array items =>
    cases s with
    | element i => exact congrArg Node.array List.length_set
    | member key => rfl
  | object map =>
    cases s with
    | member key => exact congrArg Node.object (keys_replaceMember _ _ _)
    | element i => rfl
  | _ => cases s <;> rfl

/-! ### Whole locations -/

theorem Value.locate_cons (h : v.child s = some c) (path : List Step) :
    v.locate (s :: path) = c.locate path := by
  rw [Value.locate, h]
  rfl

theorem Value.put_cons (h : v.child s = some c) (path : List Step) (new : Value) :
    v.put (s :: path) new = v.withChild s (c.put path new) := by
  rw [Value.put, h]

/-- What a location names goes on from a child. -/
theorem Value.child_of_locate (h : v.locate (s :: path) = some w) :
    ∃ c, v.child s = some c ∧ c.locate path = some w :=
  Option.bind_eq_some_iff.mp h

theorem Value.locate_put (h : v.locate path = some w) :
    (v.put path new).locate path = some new := by
  induction path generalizing v with
  | nil => rfl
  | cons s path ih =>
    obtain ⟨c, hc, h⟩ := Value.child_of_locate h
    rw [Value.put_cons hc, Value.locate_cons (Value.child_withChild hc), ih h]

/-- The old value put back restores the whole. -/
theorem Value.put_put (h : v.locate path = some w) : (v.put path new).put path w = v := by
  induction path generalizing v with
  | nil => exact (Option.some.inj h).symm
  | cons s path ih =>
    obtain ⟨c, hc, h⟩ := Value.child_of_locate h
    rw [Value.put_cons hc, Value.put_cons (Value.child_withChild hc), ih h,
      Value.withChild_withChild hc]

/-- Off the written location, neither leading to it nor below it, nothing changes. -/
theorem Value.locate_put_of_disjoint (h : v.locate path = some w) (hpath : ¬path <+: q)
    (hq : ¬q <+: path) : (v.put path new).locate q = v.locate q := by
  induction path generalizing v q with
  | nil => exact absurd List.nil_prefix hpath
  | cons s path ih =>
    obtain ⟨c, hc, hw⟩ := Value.child_of_locate h
    cases q with
    | nil => exact absurd List.nil_prefix hq
    | cons s' q =>
      rw [Value.put_cons hc]
      by_cases hs : s' = s
      · subst hs
        rw [List.cons_prefix_cons] at hpath hq
        rw [Value.locate_cons (Value.child_withChild hc), Value.locate_cons hc,
          ih hw (fun hpre => hpath ⟨rfl, hpre⟩) fun hpre => hq ⟨rfl, hpre⟩]
      · rw [Value.locate, Value.locate, Value.child_withChild_ne hs]

/-- Above the written location the keys and lengths stay, and all else that is not below it too. -/
theorem Value.node_locate_put (h : v.locate path = some w) (hpath : ¬path <+: q) :
    ((v.put path new).locate q).map Value.node = (v.locate q).map Value.node := by
  induction path generalizing v q with
  | nil => exact absurd List.nil_prefix hpath
  | cons s path ih =>
    obtain ⟨c, hc, hw⟩ := Value.child_of_locate h
    rw [Value.put_cons hc]
    cases q with
    | nil => exact congrArg some (Value.node_withChild _ _ _)
    | cons s' q =>
      by_cases hs : s' = s
      · subst hs
        rw [List.cons_prefix_cons] at hpath
        rw [Value.locate_cons (Value.child_withChild hc), Value.locate_cons hc,
          ih hw fun hpre => hpath ⟨rfl, hpre⟩]
      · rw [Value.locate, Value.locate, Value.child_withChild_ne hs]

end

/-! ### Objects whose members are in order -/

mutual
/-- The members of every object are in the order of their keys, each key once: a `BTreeMap`. -/
def Value.Ordered : Value → Prop
  | .array items => OrderedItems items
  | .object map => map.Pairwise (fun a b => a.1 < b.1) ∧ OrderedMembers map
  | _ => True

def OrderedItems : List Value → Prop
  | [] => True
  | v :: rest => v.Ordered ∧ OrderedItems rest

def OrderedMembers : List (String × Value) → Prop
  | [] => True
  | (_, v) :: rest => v.Ordered ∧ OrderedMembers rest
end

section
variable {key : String} {v c new : Value} {s : Step} {map : List (String × Value)}

theorem orderedItems_iff {items : List Value} :
    OrderedItems items ↔ ∀ v ∈ items, v.Ordered := by
  induction items with
  | nil => simp [OrderedItems]
  | cons v rest ih => rw [OrderedItems, ih, List.forall_mem_cons]

theorem orderedMembers_iff : OrderedMembers map ↔ ∀ e ∈ map, e.2.Ordered := by
  induction map with
  | nil => simp [OrderedMembers]
  | cons e rest ih => rw [OrderedMembers, ih, List.forall_mem_cons]

theorem mem_of_lookup (h : map.lookup key = some v) : (key, v) ∈ map := by
  induction map with
  | nil => cases h
  | cons e rest ih =>
    by_cases hkey : e.1 = key
    · subst hkey
      rw [List.lookup_cons_self] at h
      rw [← Option.some.inj h]
      exact List.mem_cons_self
    · rw [lookup_cons_ne hkey] at h
      exact List.mem_cons_of_mem _ (ih h)

/-- `insert` at a key that is there replaces its value. -/
theorem insertMember_of_lookup (hmap : map.Pairwise fun a b => a.1 < b.1)
    (h : map.lookup key = some v) : insertMember key new map = replaceMember key new map := by
  induction map with
  | nil => cases h
  | cons e rest ih =>
    obtain ⟨hfirst, hrest⟩ := List.pairwise_cons.mp hmap
    rw [insertMember, replaceMember]
    split
    · rfl
    · next hne =>
      rw [lookup_cons_ne hne] at h
      have hlt : e.1 < key := hfirst _ (mem_of_lookup h)
      rw [if_neg (lt_asymm hlt), ih hrest h]

theorem mem_insertMember {e : String × Value} (h : e ∈ insertMember key v map) :
    e = (key, v) ∨ e ∈ map := by
  induction map with
  | nil => exact .inl (List.mem_singleton.mp h)
  | cons d rest ih =>
    rw [insertMember] at h
    split at h
    · exact (List.mem_cons.mp h).imp_right (List.mem_cons_of_mem d)
    · split at h
      · exact List.mem_cons.mp h
      · rcases List.mem_cons.mp h with rfl | h
        · exact .inr List.mem_cons_self
        · exact (ih h).imp_right (List.mem_cons_of_mem d)

theorem mem_keys_insertMember {key' : String} :
    key' ∈ (insertMember key v map).map (·.1) ↔ key' = key ∨ key' ∈ map.map (·.1) := by
  induction map with
  | nil => simp [insertMember]
  | cons e rest ih =>
    rw [insertMember]
    split
    · next heq =>
      subst heq
      simp
    · split
      · simp
      · rw [List.map_cons, List.mem_cons, ih, List.map_cons, List.mem_cons]
        exact or_left_comm

theorem pairwise_insertMember (h : map.Pairwise fun a b => a.1 < b.1) (key : String) (v : Value) :
    (insertMember key v map).Pairwise fun a b => a.1 < b.1 := by
  induction map with
  | nil => exact List.pairwise_singleton _ _
  | cons e rest ih =>
    obtain ⟨hfirst, hrest⟩ := List.pairwise_cons.mp h
    rw [insertMember]
    split
    · next heq => exact .cons (fun b hb => heq ▸ hfirst b hb) hrest
    · next hne =>
      split
      · next hlt =>
        refine .cons (fun b hb => ?_) h
        rcases List.mem_cons.mp hb with rfl | hb
        · exact hlt
        · exact hlt.trans (hfirst b hb)
      · next hge =>
        refine .cons (fun b hb => ?_) (ih hrest)
        rcases mem_insertMember hb with rfl | hb
        · exact lt_of_le_of_ne (not_lt.mp hge) hne
        · exact hfirst b hb

/-- A new key adds one member. -/
theorem perm_insertMember (h : ∀ e ∈ map, e.1 ≠ key) :
    (insertMember key v map).Perm ((key, v) :: map) := by
  induction map with
  | nil => exact .refl _
  | cons e rest ih =>
    rw [insertMember, if_neg (h e List.mem_cons_self)]
    split
    · exact .refl _
    · have hrest := ih fun d hd => h d (List.mem_cons_of_mem _ hd)
      exact (hrest.cons e).trans (.swap _ _ _)

theorem Value.Ordered.child (h : v.Ordered) (hc : v.child s = some c) : c.Ordered := by
  cases v with
  | array items =>
    cases s with
    | element i => exact orderedItems_iff.mp h _ (List.mem_of_getElem? hc)
    | member key => cases hc
  | object map =>
    cases s with
    | member key => exact orderedMembers_iff.mp h.2 _ (mem_of_lookup hc)
    | element i => cases hc
  | _ => cases s <;> cases hc

theorem orderedMembers_replaceMember (h : OrderedMembers map) (hnew : new.Ordered) :
    OrderedMembers (replaceMember key new map) := by
  induction map with
  | nil => exact h
  | cons e rest ih =>
    rw [replaceMember_cons]
    split
    · exact ⟨hnew, h.2⟩
    · exact ⟨h.1, ih h.2⟩

theorem Value.Ordered.withChild (h : v.Ordered) (hnew : new.Ordered) :
    (v.withChild s new).Ordered := by
  cases v with
  | array items =>
    cases s with
    | element i =>
      refine orderedItems_iff.mpr fun v hv => ?_
      rcases List.mem_or_eq_of_mem_set hv with hv | rfl
      · exact orderedItems_iff.mp h v hv
      · exact hnew
    | member key => exact h
  | object map =>
    cases s with
    | member key =>
      refine ⟨?_, orderedMembers_replaceMember h.2 hnew⟩
      have hkeys : (map.map (·.1)).Pairwise (· < ·) := List.pairwise_map.mpr h.1
      rw [← keys_replaceMember key new] at hkeys
      exact List.pairwise_map.mp hkeys
    | element i => exact h
  | _ => cases s <;> exact h

theorem Value.Ordered.put {path : List Step} (h : v.Ordered) (hnew : new.Ordered) :
    (v.put path new).Ordered := by
  induction path generalizing v with
  | nil => exact hnew
  | cons s path ih =>
    rw [Value.put]
    split
    · next c hc => exact h.withChild (ih (h.child hc))
    · exact h

end

end SorobanPulse
