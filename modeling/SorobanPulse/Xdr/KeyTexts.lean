import SorobanPulse.JsonInjective
import SorobanPulse.Xdr.NativeFormat

/-! Which keys of a map have one text under `format=native`.

        integers of any width          -7                the number
        bytes, strings, addresses …    AQI=   transfer   what the crates write
        void and booleans              null   true
        vecs, maps, tagged values      [1]    {"a":"2"}  what they show

    Two keys of one row have one text exactly if what is named there agrees; across the rows, only
    a text that a crate has written can be that of another row's key. -/

namespace SorobanPulse.Xdr
open Contracts Lib

/-! ### What a key is written from -/

/-- An integer of 32 bits, a number in JSON too. -/
def ScVal.short? : ScVal → Option ℤ
  | .u32 n => some n.toNat
  | .i32 n => some n.toInt
  | _ => none

/-- A wider integer, in JSON a text. -/
def ScVal.long? : ScVal → Option ℤ
  | .u64 n | .timepoint n | .duration n => some n.toNat
  | .i64 n => some n.toInt
  | .u128 hi lo => some (hi.toNat * 2 ^ 64 + lo.toNat)
  | .i128 hi lo => some (hi.toInt * 2 ^ 64 + lo.toNat)
  | _ => none

def ScVal.integer? (k : ScVal) : Option ℤ := k.short?.or k.long?

def ScVal.word? : ScVal → Option String
  | .void => some "null"
  | .bool true => some "true"
  | .bool false => some "false"
  | _ => none

/-- What serde writes, by the name of the variant. -/
def ScVal.isTagged : ScVal → Bool
  | .error _ _ | .contractInstance _ _ | .ledgerKeyContractInstance | .ledgerKeyNonce _ => true
  | _ => false

def textOf : Value → Option String
  | .string s => some s
  | _ => none

variable (crates : NativeCrates)

/-- The text a crate writes. -/
def ScVal.written? : ScVal → Option String
  | .u256 hiHi hiLo loHi loLo => some (crates.debugU256 hiHi hiLo loHi loLo)
  | .i256 hiHi hiLo loHi loLo => some (crates.debugI256 hiHi hiLo loHi loLo)
  | .bytes b => some (crates.base64 b)
  | .string s | .symbol s => some (crates.text s)
  | .address a => some a.strkey
  | k => if k.isTagged then textOf (crates.toValue k) else none

/-- The last member of each key, in the order of the keys. -/
def LastOfEach (members object : List (String × Value)) : Prop :=
  (object.Pairwise fun a b => a.1 < b.1) ∧
    ∀ key, object.lookup key = members.reverse.lookup key

mutual
/-- The JSON value that a Soroban value shows, in a vec, in a map or by itself. -/
inductive Shows : ScVal → Value → Prop
  | void : Shows .void .null
  | bool (b : Bool) : Shows (.bool b) (.bool b)
  | short {k : ScVal} {n : ℤ} (h : k.short? = some n) : Shows k (.number (.int n))
  | long {k : ScVal} {n : ℤ} (h : k.long? = some n) : Shows k (.string (toString n))
  | written {k : ScVal} {s : String} (h : k.written? crates = some s) : Shows k (.string s)
  | vec {items : List ScVal} {vs : List Value} (h : ShowsItems items vs) :
      Shows (.vec (some items)) (.array vs)
  | noVec : Shows (.vec none) (.array [])
  | map {entries : List (ScVal × ScVal)} {members object : List (String × Value)}
      (h : ShowsMembers entries members) (hlast : LastOfEach members object) :
      Shows (.map (some entries)) (.object object)
  | noMap : Shows (.map none) (.object [])
  | tagged {k : ScVal} {object : List (String × Value)} (h : k.isTagged)
      (hobject : crates.toValue k = .object object) : Shows k (.object object)

inductive ShowsItems : List ScVal → List Value → Prop
  | nil : ShowsItems [] []
  | cons {k : ScVal} {v : Value} {items : List ScVal} {vs : List Value} (hitem : Shows k v)
      (hrest : ShowsItems items vs) : ShowsItems (k :: items) (v :: vs)

inductive ShowsMembers : List (ScVal × ScVal) → List (String × Value) → Prop
  | nil : ShowsMembers [] []
  | cons {key val : ScVal} {shown v : Value} {entries : List (ScVal × ScVal)}
      {members : List (String × Value)} (hkey : Shows key shown) (hval : Shows val v)
      (hrest : ShowsMembers entries members) :
      ShowsMembers ((key, val) :: entries) ((nativeKey crates shown, v) :: members)
end

/-- An array or an object. -/
def IsTree : Value → Prop
  | .array _ | .object _ => True
  | _ => False

theorem isTree_array (vs : List Value) : IsTree (.array vs) := trivial

theorem isTree_object (map : List (String × Value)) : IsTree (.object map) := trivial

/-- The pairs of keys with one text. -/
inductive SameText : ScVal → ScVal → Prop
  | integer {a b : ScVal} {n : ℤ} (ha : a.integer? = some n) (hb : b.integer? = some n) :
      SameText a b
  | word {a b : ScVal} {s : String} (ha : a.word? = some s) (hb : b.word? = some s) : SameText a b
  | written {a b : ScVal} {s : String} (ha : a.written? crates = some s)
      (hb : b.written? crates = some s) : SameText a b
  | tree {a b : ScVal} {v : Value} (hv : IsTree v) (ha : Shows crates a v)
      (hb : Shows crates b v) : SameText a b
  | writtenInteger {a b : ScVal} {n : ℤ} (ha : a.integer? = some n)
      (hb : b.written? crates = some (toString n)) : SameText a b
  | writtenWord {a b : ScVal} {s : String} (ha : a.word? = some s)
      (hb : b.written? crates = some s) : SameText a b
  | writtenTree {a b : ScVal} {v : Value} (hv : IsTree v) (ha : Shows crates a v)
      (hb : b.written? crates = some (SorobanPulse.jsonText crates.double v)) : SameText a b
  | symm {a b : ScVal} (h : SameText a b) : SameText b a

/-- What serde and its number writer are: a variant with fields is an object under the variant's
    name, one without is the name, and the text of a double is a double's own. -/
structure NativeCrates.Lawful : Prop where
  double : DoubleText crates.double
  tagged : ∀ k : ScVal, k.isTagged →
    (∃ s, crates.toValue k = .string s) ∨ ∃ object, crates.toValue k = .object object

section
variable {crates : NativeCrates} {a b k : ScVal} {v w : Value} {s : String} {n : ℤ}

/-! ### The last of each key -/

theorem lookup_collectMap (members map : List (String × Value)) (key : String) :
    (collectMap members map).lookup key = (members.reverse.lookup key).or (map.lookup key) := by
  induction members generalizing map with
  | nil => rfl
  | cons e rest ih =>
    rw [collectMap_cons, ih, List.reverse_cons, List.lookup_append, Option.or_assoc]
    congr 1
    by_cases hkey : key = e.1
    · subst hkey
      rw [lookup_insertMember, List.lookup_cons_self, Option.some_or]
    · rw [lookup_insertMember_of_ne hkey, lookup_cons_ne (Ne.symm hkey), List.lookup_nil,
        Option.none_or]

theorem lastOfEach_collectMap (members : List (String × Value)) :
    LastOfEach members (collectMap members []) := by
  refine ⟨pairwise_collectMap .nil, fun key => ?_⟩
  rw [lookup_collectMap, List.lookup_nil, Option.or_none]

theorem lookup_eq_some_of_mem {map : List (String × Value)}
    (hsorted : map.Pairwise fun a b => a.1 < b.1) {e : String × Value} (h : e ∈ map) :
    map.lookup e.1 = some e.2 := by
  induction map with
  | nil => cases h
  | cons d rest ih =>
    rw [List.pairwise_cons] at hsorted
    rcases List.mem_cons.mp h with rfl | hrest
    · exact List.lookup_cons_self
    · rw [lookup_cons_ne (ne_of_lt (hsorted.1 e hrest)), ih hsorted.2 hrest]

/-- Two sorted objects that answer alike are one. -/
theorem LastOfEach.unique {members object object' : List (String × Value)}
    (h : LastOfEach members object) (h' : LastOfEach members object') : object = object' := by
  have hsubset {m m' : List (String × Value)} (hm : LastOfEach members m)
      (hm' : LastOfEach members m') : ∀ e ∈ m, e ∈ m' := by
    intro e he
    have hlookup := lookup_eq_some_of_mem hm.1 he
    rw [hm.2, ← hm'.2] at hlookup
    exact mem_of_lookup hlookup
  have hnodup {m : List (String × Value)} (hm : LastOfEach members m) : m.Nodup :=
    hm.1.imp fun hlt heq => absurd (congrArg Prod.fst heq) (ne_of_lt hlt)
  have hperm : object.Perm object' :=
    (List.perm_ext_iff_of_nodup (hnodup h) (hnodup h')).mpr fun e =>
      ⟨hsubset h h' e, hsubset h' h e⟩
  exact hperm.eq_of_pairwise (fun _ _ _ _ hlt hlt' => absurd hlt' (lt_asymm hlt)) h.1 h'.1

/-! ### What a key shows is what it is rendered as -/

theorem toNative_short (h : k.short? = some n) : toNative crates k = .number (.int n) := by
  unfold ScVal.short? at h
  split at h
  · rw [toNative, Option.some.inj h]
  · rw [toNative, Option.some.inj h]
  · cases h

theorem toNative_long (h : k.long? = some n) : toNative crates k = .string (toString n) := by
  unfold ScVal.long? at h
  split at h
  · rw [toNative, ← Option.some.inj h]
    rfl
  · rw [toNative, ← Option.some.inj h]
    rfl
  · rw [toNative, ← Option.some.inj h]
    rfl
  · rw [toNative, Option.some.inj h]
  · rw [toNative_u128, ← Option.some.inj h]
    norm_cast
  · rw [toNative_i128, Option.some.inj h]
  · cases h

theorem toNative_tagged (h : k.isTagged) : toNative crates k = crates.toValue k := by
  unfold ScVal.isTagged at h
  split at h
  · simp [toNative]
  · simp [toNative]
  · simp [toNative]
  · simp [toNative]
  · cases h

theorem textOf_eq_some (h : textOf v = some s) : v = .string s := by
  unfold textOf at h
  split at h
  · rw [Option.some.inj h]
  · cases h

theorem toNative_written (h : k.written? crates = some s) : toNative crates k = .string s := by
  unfold ScVal.written? at h
  split at h
  · rw [toNative, Option.some.inj h]
  · rw [toNative, Option.some.inj h]
  · rw [toNative, Option.some.inj h]
  · rw [toNative, Option.some.inj h]
  · rw [toNative, Option.some.inj h]
  · rw [toNative, Option.some.inj h]
  · split at h
    · next htagged => rw [toNative_tagged htagged, textOf_eq_some h]
    · cases h

mutual
theorem Shows.eq : ∀ {k : ScVal} {v : Value}, Shows crates k v → toNative crates k = v
  | _, _, .void => by rw [toNative]
  | _, _, .bool b => by rw [toNative]
  | _, _, .short h => toNative_short h
  | _, _, .long h => toNative_long h
  | _, _, .written h => toNative_written h
  | _, _, .vec h => by rw [toNative, h.eq]
  | _, _, .noVec => by rw [toNative]
  | _, _, .map h hlast => by
    rw [toNative, h.eq, (lastOfEach_collectMap _).unique hlast]
  | _, _, .noMap => by rw [toNative]
  | _, _, .tagged h hobject => by rw [toNative_tagged h, hobject]

theorem ShowsItems.eq : ∀ {items : List ScVal} {vs : List Value}, ShowsItems crates items vs →
    nativeItems crates items = vs
  | _, _, .nil => by rw [nativeItems]
  | _, _, .cons hitem hrest => by rw [nativeItems, hitem.eq, hrest.eq]

theorem ShowsMembers.eq : ∀ {entries : List (ScVal × ScVal)} {members : List (String × Value)},
    ShowsMembers crates entries members → nativeMembers crates entries = members
  | _, _, .nil => by rw [nativeMembers]
  | _, _, .cons hkey hval hrest => by rw [nativeMembers, hkey.eq, hval.eq, hrest.eq]
end

theorem written_of_tagged (h : k.isTagged) (htext : crates.toValue k = .string s) :
    k.written? crates = some s := by
  unfold ScVal.isTagged at h
  split at h
  · simp [ScVal.written?, ScVal.isTagged, htext, textOf]
  · simp [ScVal.written?, ScVal.isTagged, htext, textOf]
  · simp [ScVal.written?, ScVal.isTagged, htext, textOf]
  · simp [ScVal.written?, ScVal.isTagged, htext, textOf]
  · cases h

theorem shows_tagged (hlawful : crates.Lawful) (h : k.isTagged) :
    Shows crates k (toNative crates k) := by
  rw [toNative_tagged h]
  rcases hlawful.tagged k h with ⟨s, hs⟩ | ⟨object, hobject⟩
  · rw [hs]
    exact .written (written_of_tagged h hs)
  · rw [hobject]
    exact .tagged h hobject

mutual
theorem shows_toNative (hlawful : crates.Lawful) : ∀ k, Shows crates k (toNative crates k)
  | .bool b => by
    rw [toNative]
    exact .bool b
  | .void => by
    rw [toNative]
    exact .void
  | .error _ _ => shows_tagged hlawful rfl
  | .u32 _ => by
    rw [toNative]
    exact .short rfl
  | .i32 _ => by
    rw [toNative]
    exact .short rfl
  | .u64 n => by
    rw [toNative]
    exact @Shows.long crates (.u64 n) n.toNat rfl
  | .i64 _ => by
    rw [toNative]
    exact .long rfl
  | .timepoint n => by
    rw [toNative]
    exact @Shows.long crates (.timepoint n) n.toNat rfl
  | .duration n => by
    rw [toNative]
    exact @Shows.long crates (.duration n) n.toNat rfl
  | .u128 hi lo => by
    rw [toNative_u128]
    -- two halves of 64 bits are one number
    have h : (ScVal.u128 hi lo).long? = some ((hi.toNat * 2 ^ 64 + lo.toNat : ℕ) : ℤ) := by
      rw [ScVal.long?]
      norm_cast
    exact .long h
  | .i128 _ _ => by
    rw [toNative_i128]
    exact .long rfl
  | .u256 _ _ _ _ => by
    rw [toNative]
    exact .written rfl
  | .i256 _ _ _ _ => by
    rw [toNative]
    exact .written rfl
  | .bytes _ => by
    rw [toNative]
    exact .written rfl
  | .string _ => by
    rw [toNative]
    exact .written rfl
  | .symbol _ => by
    rw [toNative]
    exact .written rfl
  | .vec (some items) => by
    rw [toNative]
    exact .vec (shows_nativeItems hlawful items)
  | .vec none => by
    rw [toNative]
    exact .noVec
  | .map (some entries) => by
    rw [toNative]
    -- of entries with one text the last one stays
    exact .map (shows_nativeMembers hlawful entries) (lastOfEach_collectMap _)
  | .map none => by
    rw [toNative]
    exact .noMap
  | .address _ => by
    rw [toNative]
    exact .written rfl
  | .contractInstance _ _ => shows_tagged hlawful rfl
  | .ledgerKeyContractInstance => shows_tagged hlawful rfl
  | .ledgerKeyNonce _ => shows_tagged hlawful rfl

theorem shows_nativeItems (hlawful : crates.Lawful) :
    ∀ items, ShowsItems crates items (nativeItems crates items)
  | [] => by
    rw [nativeItems]
    exact .nil
  | k :: items => by
    rw [nativeItems]
    exact .cons (shows_toNative hlawful k) (shows_nativeItems hlawful items)

theorem shows_nativeMembers (hlawful : crates.Lawful) :
    ∀ entries, ShowsMembers crates entries (nativeMembers crates entries)
  | [] => by
    rw [nativeMembers]
    exact .nil
  | (key, val) :: entries => by
    rw [nativeMembers]
    exact .cons (shows_toNative hlawful key) (shows_toNative hlawful val)
      (shows_nativeMembers hlawful entries)
end

/-! ### The texts of two keys -/

theorem text_written (h : k.written? crates = some s) : nativeKey crates (toNative crates k) = s := by
  rw [toNative_written h, nativeKey]

theorem text_integer (h : k.integer? = some n) :
    nativeKey crates (toNative crates k) = toString n := by
  rcases Option.or_eq_some_iff.mp h with hshort | ⟨-, hlong⟩
  · rw [toNative_short hshort]
    exact String.ofList_toList
  · rw [toNative_long hlong, nativeKey]

theorem short?_of_long? (h : k.long? = some n) : k.short? = none := by
  unfold ScVal.long? at h
  split at h
  · rfl
  · rfl
  · rfl
  · rfl
  · rfl
  · rfl
  · cases h

theorem text_word (h : k.word? = some s) : nativeKey crates (toNative crates k) = s := by
  unfold ScVal.word? at h
  split at h
  · rw [toNative, ← Option.some.inj h]
    rfl
  · rw [toNative, ← Option.some.inj h]
    rfl
  · rw [toNative, ← Option.some.inj h]
    rfl
  · cases h

theorem text_tree (hv : IsTree v) (h : Shows crates k v) :
    nativeKey crates (toNative crates k) = SorobanPulse.jsonText crates.double v := by
  rw [h.eq]
  cases v with
  | string s => cases hv
  | _ => rfl

/-- Alike in one row of the table, or one of the two written by a crate. -/
theorem SameText.text_eq (h : SameText crates a b) :
    nativeKey crates (toNative crates a) = nativeKey crates (toNative crates b) := by
  induction h with
  | integer ha hb => rw [text_integer ha, text_integer hb]
  | word ha hb => rw [text_word ha, text_word hb]
  | written ha hb => rw [text_written ha, text_written hb]
  | tree hv ha hb => rw [text_tree hv ha, text_tree hv hb]
  | writtenInteger ha hb => rw [text_integer ha, text_written hb]
  | writtenWord ha hb => rw [text_word ha, text_written hb]
  | writtenTree hv ha hb => rw [text_tree hv ha, text_written hb]
  | symm _ ih => exact ih.symm

/-- The JSON text of a key that no crate has written. -/
inductive Unwritten (crates : NativeCrates) (k : ScVal) : Value → Prop
  | integer {n : ℤ} (h : k.integer? = some n) : Unwritten crates k (.number (.int n))
  | null (h : k.word? = some "null") : Unwritten crates k .null
  | bool {b : Bool} (h : k.word? = some (toString b)) : Unwritten crates k (.bool b)
  | tree {v : Value} (hv : IsTree v) (h : Shows crates k v) : Unwritten crates k v

theorem written_or_unwritten (hlawful : crates.Lawful) (k : ScVal) :
    (∃ s, k.written? crates = some s) ∨ ∃ v, Unwritten crates k v := by
  have hshown := shows_toNative hlawful k
  generalize toNative crates k = shown at hshown
  cases hshown with
  | void => exact .inr ⟨_, .null rfl⟩
  | bool b => exact .inr ⟨_, @Unwritten.bool crates _ b (by cases b <;> rfl)⟩
  | short h => exact .inr ⟨_, .integer (Option.or_eq_some_iff.mpr (.inl h))⟩
  | long h => exact .inr ⟨_, .integer (Option.or_eq_some_iff.mpr (.inr ⟨short?_of_long? h, h⟩))⟩
  | written h => exact .inl ⟨_, h⟩
  | vec h => exact .inr ⟨_, .tree (isTree_array _) (.vec h)⟩
  | noVec => exact .inr ⟨_, .tree (isTree_array _) .noVec⟩
  | map h hlast => exact .inr ⟨_, .tree (isTree_object _) (.map h hlast)⟩
  | noMap => exact .inr ⟨_, .tree (isTree_object _) .noMap⟩
  | tagged h hobject => exact .inr ⟨_, .tree (isTree_object _) (.tagged h hobject)⟩

theorem Unwritten.text_eq (h : Unwritten crates k v) :
    nativeKey crates (toNative crates k) = SorobanPulse.jsonText crates.double v := by
  cases h with
  | integer h =>
    rw [text_integer h]
    exact String.ofList_toList.symm
  | null h => rw [text_word h]; rfl
  | @bool b h =>
    rw [text_word h]
    cases b <;> rfl
  | tree hv h => exact text_tree hv h

theorem Unwritten.sameText (ha : Unwritten crates a v) (hb : Unwritten crates b v) :
    SameText crates a b := by
  cases ha with
  | integer ha =>
    cases hb with
    | integer hb => exact .integer ha hb
    | tree hv _ => cases hv
  | null ha =>
    cases hb with
    | null hb => exact .word ha hb
    | tree hv _ => cases hv
  | bool ha =>
    cases hb with
    | bool hb => exact .word ha hb
    | tree hv _ => cases hv
  | tree hv ha =>
    cases hb with
    | integer _ => cases hv
    | null _ => cases hv
    | bool _ => cases hv
    | tree _ hb => exact .tree hv ha hb

/-- A text that a crate has written is the text of the other key. -/
theorem Unwritten.sameText_written (ha : Unwritten crates a v)
    (hb : b.written? crates = some (SorobanPulse.jsonText crates.double v)) : SameText crates a b := by
  cases ha with
  | integer ha =>
    refine .writtenInteger ha (hb.trans (congrArg some ?_))
    exact String.ofList_toList
  | null ha => exact .writtenWord ha hb
  | @bool b ha =>
    refine .writtenWord ha (hb.trans (congrArg some ?_))
    cases b <;> rfl
  | tree hv ha => exact .writtenTree hv ha hb

/-- Two keys have one text exactly if they are a pair of the table. -/
theorem text_eq_iff (hlawful : crates.Lawful) :
    nativeKey crates (toNative crates a) = nativeKey crates (toNative crates b) ↔
      SameText crates a b := by
  refine ⟨fun h => ?_, SameText.text_eq⟩
  rcases written_or_unwritten hlawful a with ⟨s, ha⟩ | ⟨v, ha⟩
  · rcases written_or_unwritten hlawful b with ⟨t, hb⟩ | ⟨w, hb⟩
    · rw [text_written ha, text_written hb] at h
      exact .written ha (h ▸ hb)
    · rw [text_written ha, hb.text_eq] at h
      exact .symm (hb.sameText_written (h ▸ ha))
  · rcases written_or_unwritten hlawful b with ⟨t, hb⟩ | ⟨w, hb⟩
    · rw [text_written hb, ha.text_eq] at h
      exact ha.sameText_written (h ▸ hb)
    · rw [ha.text_eq, hb.text_eq] at h
      obtain rfl := jsonText_injective hlawful.double h
      exact ha.sameText hb

theorem nodup_texts_iff (hlawful : crates.Lawful) (entries : List (ScVal × ScVal)) :
    (entries.map fun e => nativeKey crates (toNative crates e.1)).Nodup ↔
      entries.Pairwise fun e d => ¬SameText crates e.1 d.1 := by
  rw [List.Nodup, List.pairwise_map]
  exact List.Pairwise.iff fun {e d} => not_congr (text_eq_iff hlawful)

/-- The fields of a struct are symbols, and a writer that tells texts apart tells them apart. -/
theorem keepsEntries_of_symbols (htext : Function.Injective crates.text)
    {entries : List (ScVal × ScVal)} (hsymbols : ∀ e ∈ entries, ∃ s, e.1 = .symbol s)
    (h : (entries.map (·.1)).Nodup) : KeepsEntries crates entries := by
  rw [keepsEntries_iff]
  have hfun : (entries.map fun e => nativeKey crates (toNative crates e.1)) =
      (entries.map (·.1)).map fun key => nativeKey crates (toNative crates key) := by
    rw [List.map_map]
    rfl
  rw [hfun]
  refine h.map_on ?_
  intro a ha b hb hab
  obtain ⟨e, he, rfl⟩ := List.mem_map.mp ha
  obtain ⟨d, hd, rfl⟩ := List.mem_map.mp hb
  obtain ⟨s, hs⟩ := hsymbols e he
  obtain ⟨t, ht⟩ := hsymbols d hd
  rw [hs, ht, toNative, toNative] at hab
  rw [hs, ht, htext hab]

/-- A map keeps its entries exactly if no two of its keys have one text; a 128-bit integer is written
    in full. -/
theorem toNative_keepsEntries_iff (hlawful : crates.Lawful) :
    (∀ entries : List (ScVal × ScVal), (entries.map (·.1)).Nodup →
      (KeepsEntries crates entries ↔ entries.Pairwise fun e d => ¬SameText crates e.1 d.1)) ∧
    (∀ hi lo : UInt64, toNative crates (.u128 hi lo) =
      .string (toString (hi.toNat * 2 ^ 64 + lo.toNat))) ∧
    ∀ (hi : Int64) (lo : UInt64), toNative crates (.i128 hi lo) =
      .string (toString (hi.toInt * 2 ^ 64 + lo.toNat)) := by
  refine ⟨fun entries _ => ?_, toNative_u128 crates, toNative_i128 crates⟩
  rw [keepsEntries_iff, nodup_texts_iff hlawful]

end

/-! ### The keys 1 and 1 -/

/-- Crates for texts of ASCII characters, and for no variant with fields. -/
def plainCrates : NativeCrates where
  fromXdrBase64 := fun _ => none
  fromValue := fun _ => none
  toXdrBase64 := fun _ => ""
  toValue := fun _ => .object []
  text := fun bytes => String.ofList (bytes.map fun b => Char.ofNat b.toNat)
  jsonText := fun _ => ""
  base64 := fun _ => ""
  debugU256 := fun _ _ _ _ => ""
  debugI256 := fun _ _ _ _ => ""
  double := bitsText

theorem lawful_plainCrates : plainCrates.Lawful :=
  ⟨doubleText_bitsText, fun _ _ => .inr ⟨[], rfl⟩⟩

/-- `{1: true, 2: false, [1]: true}`, its keys of three types. -/
theorem toNative_keepsEntries_distinct : KeepsEntries plainCrates
    [(.u32 1, .bool true), (.u64 2, .bool false), (.vec (some [.u32 1]), .bool true)] := by
  refine ((toNative_keepsEntries_iff lawful_plainCrates).1 _ (by simp)).mpr ?_
  rw [← nodup_texts_iff lawful_plainCrates]
  simp [toNative, nativeItems, nativeKey, SorobanPulse.jsonText, jsonChars, itemChars]
  decide

/-- The text of a `u32` is that of the `u64` of the same number. -/
theorem not_keepsEntries_ones :
    ([(ScVal.u32 1, ScVal.bool true), (.u64 1, .bool false)].map (·.1)).Nodup ∧
      ¬KeepsEntries plainCrates [(.u32 1, .bool true), (.u64 1, .bool false)] := by
  refine ⟨by simp, ?_⟩
  rw [keepsEntries_iff]
  simp [toNative, nativeKey, SorobanPulse.jsonText, jsonChars]
  decide

end SorobanPulse.Xdr
