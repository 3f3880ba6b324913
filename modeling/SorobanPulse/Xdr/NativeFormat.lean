import SorobanPulse.Contracts.AbiDecode
import SorobanPulse.JsonLocations
import SorobanPulse.JsonText
import SorobanPulse.Lib.Digits

/-! `format=native`: the rendering of event data without the tags of its XDR types.

        {u32 1 ↦ a, symbol "x" ↦ b}     ──▶   {"1": a, "x": b}

    The keys of a map become texts, and the texts the keys of one object. Two keys of different
    types may have one text (`u32 1` and `u64 1`), and then the later entry takes the place of the
    earlier one. -/

namespace SorobanPulse.Xdr
open Contracts Lib

/-- What the rendering takes from the crates besides `to_value`: base64, the Debug texts of the
    256-bit integers, and the text of a double. -/
structure NativeCrates extends XdrCrate where
  base64 : List UInt8 → String
  debugU256 : (hiHi hiLo loHi loLo : UInt64) → String
  debugI256 : (hiHi : Int64) → (hiLo loHi loLo : UInt64) → String
  double : UInt64 → String

variable (crates : NativeCrates)

/-- The text of a rendered key. -/
def nativeKey : Value → String
  | .string s => s
  | other => SorobanPulse.jsonText crates.double other

mutual
def toNative : ScVal → Value
  | .bool v => .bool v
  | .void => .null
  | .u32 v => .number (.int v.toNat)
  | .i32 v => .number (.int v.toInt)
  | .u64 v => .string (toString v.toNat)
  | .i64 v => .string (toString v.toInt)
  | .timepoint t => .string (toString t.toNat)
  | .duration d => .string (toString d.toNat)
  | .u128 hi lo =>
    .string (toString ((BitVec.ofNat 128 hi.toNat <<< 64) ||| BitVec.ofNat 128 lo.toNat).toNat)
  | .i128 hi lo =>
    .string (toString ((BitVec.ofInt 128 hi.toInt <<< 64) ||| BitVec.ofNat 128 lo.toNat).toInt)
  | .u256 hiHi hiLo loHi loLo => .string (crates.debugU256 hiHi hiLo loHi loLo)
  | .i256 hiHi hiLo loHi loLo => .string (crates.debugI256 hiHi hiLo loHi loLo)
  | .bytes b => .string (crates.base64 b)
  | .string s => .string (crates.text s)
  | .symbol s => .string (crates.text s)
  | .vec (some vals) => .array (nativeItems vals)
  | .vec none => .array []
  | .map (some entries) => .object (collectMap (nativeMembers entries) [])
  | .map none => .object []
  | .address addr => .string addr.strkey
  | other => crates.toValue other

def nativeItems : List ScVal → List Value
  | [] => []
  | v :: rest => toNative v :: nativeItems rest

/-- What the entries of a map insert, in order. -/
def nativeMembers : List (ScVal × ScVal) → List (String × Value)
  | [] => []
  | (key, val) :: rest => (nativeKey crates (toNative key), toNative val) :: nativeMembers rest
end

theorem nativeMembers_eq_map (entries : List (ScVal × ScVal)) :
    nativeMembers crates entries =
      entries.map fun e => (nativeKey crates (toNative crates e.1), toNative crates e.2) := by
  induction entries with
  | nil => rw [nativeMembers, List.map_nil]
  | cons e rest ih => rw [nativeMembers, ih, List.map_cons]

/-- The object of a map has exactly one member for each entry, with the rendering of its value. -/
def KeepsEntries (entries : List (ScVal × ScVal)) : Prop :=
  ∃ map, toNative crates (.map (some entries)) = .object map ∧
    map.Perm (entries.map fun e => (nativeKey crates (toNative crates e.1), toNative crates e.2))

section
variable {members map : List (String × Value)}

theorem pairwise_collectMap (h : map.Pairwise fun a b => a.1 < b.1) :
    (collectMap members map).Pairwise fun a b => a.1 < b.1 := by
  induction members generalizing map with
  | nil => exact h
  | cons e members ih => exact ih (pairwise_insertMember h e.1 e.2)

/-- Members of different keys, none of them there before, are all kept. -/
theorem perm_collectMap (h : ((members ++ map).map (·.1)).Nodup) :
    (collectMap members map).Perm (members ++ map) := by
  induction members generalizing map with
  | nil => exact .refl _
  | cons e members ih =>
    have hinsert : (insertMember e.1 e.2 map).Perm (e :: map) := by
      refine perm_insertMember fun d hd heq => ?_
      rw [List.cons_append, List.map_cons, List.nodup_cons] at h
      exact h.1 (heq ▸ List.mem_map_of_mem (List.mem_append_right _ hd))
    have hmiddle : (members ++ insertMember e.1 e.2 map).Perm (e :: members ++ map) :=
      (hinsert.append_left members).trans List.perm_middle
    rw [collectMap_cons]
    exact (ih ((hmiddle.map _).nodup_iff.mpr h)).trans hmiddle

end

/-- No two members of a rendered object have one key. -/
theorem nodup_keys_collectMap (members : List (String × Value)) :
    ((collectMap members []).map (·.1)).Nodup := by
  have hsorted : (collectMap members []).Pairwise fun a b => a.1 < b.1 := pairwise_collectMap .nil
  exact (List.pairwise_map.mpr hsorted).imp ne_of_lt

theorem keepsEntries_iff (entries : List (ScVal × ScVal)) : KeepsEntries crates entries ↔
    (entries.map fun e => nativeKey crates (toNative crates e.1)).Nodup := by
  have hkeys : (nativeMembers crates entries).map (·.1) =
      entries.map fun e => nativeKey crates (toNative crates e.1) := by
    rw [nativeMembers_eq_map, List.map_map]
    rfl
  rw [← hkeys]
  constructor
  · rintro ⟨map, hmap, hperm⟩
    rw [toNative] at hmap
    obtain rfl := Value.object.inj hmap
    rw [← nativeMembers_eq_map] at hperm
    exact (hperm.map _).nodup_iff.mp (nodup_keys_collectMap _)
  · intro h
    refine ⟨_, by rw [toNative], ?_⟩
    rw [← nativeMembers_eq_map]
    have hnodup : ((nativeMembers crates entries ++ []).map Prod.fst).Nodup := by
      rwa [List.append_nil]
    have hperm := perm_collectMap hnodup
    rwa [List.append_nil] at hperm

/-- The halves of a 128-bit integer are put together, and written in full. -/
theorem toNative_u128 (hi lo : UInt64) : toNative crates (.u128 hi lo) =
    .string (toString (hi.toNat * 2 ^ 64 + lo.toNat)) := by
  rw [toNative, toNat_words hi.toNat_lt lo.toNat_lt]

theorem toNative_i128 (hi : Int64) (lo : UInt64) : toNative crates (.i128 hi lo) =
    .string (toString (hi.toInt * 2 ^ 64 + lo.toNat)) := by
  rw [toNative, toInt_words hi.le_toInt hi.toInt_lt lo.toNat_lt]

end SorobanPulse.Xdr
