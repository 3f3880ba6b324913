import SorobanPulse.JsonText
import SorobanPulse.Lib.Binary64
import SorobanPulse.Normalizer.Pointer
import SorobanPulse.Xdr.ScVal

/-! The normalization pipeline: the rules of a contract, applied in order to the data of an event.

    A rule reads the value its pointer names, transforms it, and writes it back; a rule that cannot
    is skipped. Transforms read and give scalars, so no rule changes where a pointer leads, and what
    is not at or below a named location stays as it was. -/

namespace SorobanPulse.Normalizer
open Lib Xdr

structure NormalizationRule where
  pointer : String
  transform : String
  params : Value

inductive Transform where
  | divideByDecimals
  | hexToDecimal
  | base64Decode
  deriving DecidableEq, Repr

/-- `Transform::from_str`. -/
def parseTransform : String → Except String Transform
  | "divide_by_decimals" => .ok .divideByDecimals
  | "hex_to_decimal" => .ok .hexToDecimal
  | "base64_decode" => .ok .base64Decode
  | other => .error ("unknown transform: " ++ other)

/-- What the transforms use of libraries: the bits of a finite `f64`, its text, and the base64
    engine with the text of its error. -/
structure Codecs where
  bits : ℚ → UInt64
  double : UInt64 → String
  decode : String → Except String (List UInt8)

/-- `u128::MAX`. -/
def U128_MAX : ℕ := 340282366920938463463374607431768211455

/-- `char::to_digit(16)` -/
def hexValue (c : Char) : Option ℕ :=
  if c.isDigit then some (c.toNat - 48)
  else if 'a' ≤ c ∧ c ≤ 'f' then some (c.toNat - 87)
  else if 'A' ≤ c ∧ c ≤ 'F' then some (c.toNat - 55)
  else none

def radixLoop : ℕ → List Char → Except String ℕ
  | result, [] => .ok result
  | result, c :: digits =>
    match hexValue c with
    | none => .error "invalid digit found in string"
    | some x =>
      if U128_MAX < result * 16 + x then .error "number too large to fit in target type"
      else radixLoop (result * 16 + x) digits

/-- `u128::from_str_radix(hex, 16)` -/
def fromStrRadix16 : List Char → Except String ℕ
  | [] => .error "cannot parse integer from empty string"
  | '+' :: [] => .error "invalid digit found in string"
  | '+' :: digits => radixLoop 0 digits
  | digits => radixLoop 0 digits

/-- `trim_start_matches("0x")` -/
def trimHexPrefix : List Char → List Char
  | '0' :: 'x' :: rest => trimHexPrefix rest
  | hex => hex

/-- `value.as_i64().or_else(|| value.as_str().and_then(|s| s.parse::<i64>().ok()))` -/
def rawAmount (value : Value) : Option ℤ :=
  value.asI64 <|> value.asStr.bind fun s => parseSigned (2 ^ 63) s.toList

/-- `10_i64.checked_pow(d)` for a `u32` -/
def checkedPow10 (decimals : ℕ) : Option ℕ :=
  if decimals < 2 ^ 32 ∧ (10 : ℤ) ^ decimals ≤ I64_MAX then some (10 ^ decimals) else none

/-- Apply a single transform to a JSON value. -/
def applyTransform (codecs : Codecs) (transform : Transform) (params value : Value) :
    Except String Value :=
  match transform with
  | .divideByDecimals =>
    match (member params "decimals").bind Value.asU64 with
    | none => .error "divide_by_decimals requires params.decimals (u64)"
    | some decimals =>
      match rawAmount value with
      | none =>
        .error ("divide_by_decimals: expected integer, got " ++ jsonText codecs.double value)
      | some raw =>
        match checkedPow10 decimals.toNat with
        | none =>
          .error ("divide_by_decimals: decimals " ++ toString decimals ++ " is too large (max 18)")
        | some divisor =>
          .ok (.number (.float (codecs.bits (toF64 (toF64 raw / toF64 divisor)))))
  | .hexToDecimal =>
    match value.asStr with
    | none => .error ("hex_to_decimal: expected string, got " ++ jsonText codecs.double value)
    | some s =>
      match fromStrRadix16 (trimHexPrefix s.toList) with
      | .error e => .error ("hex_to_decimal: " ++ e)
      | .ok n => .ok (.string (toString n))
  | .base64Decode =>
    match value.asStr with
    | none => .error ("base64_decode: expected string, got " ++ jsonText codecs.double value)
    | some encoded =>
      match codecs.decode encoded with
      | .error e => .error ("base64_decode: " ++ e)
      | .ok bytes =>
        match fromUtf8 bytes with
        | some s => .ok (.string s)
        | none => .ok (.string (hexEncode bytes))

/-- One turn of the loop of `normalize`. -/
def applyRule (codecs : Codecs) (normalized : Value) (rule : NormalizationRule) : Value :=
  match parseTransform rule.transform with
  | .error _ => normalized
  | .ok transform =>
    match pointerGet normalized rule.pointer with
    | none => normalized
    | some current =>
      match applyTransform codecs transform rule.params current with
      | .ok newVal => pointerSet normalized rule.pointer newVal
      | .error _ => normalized

def isEmptyData : Value → Bool
  | .null | .object [] => true
  | _ => false

/-- Run the normalization pipeline; nothing without rules or data. -/
def normalize (codecs : Codecs) (rules : List NormalizationRule) (eventData : Value) :
    Option Value :=
  if rules.isEmpty || isEmptyData eventData then none
  else some (rules.foldl (applyRule codecs) eventData)

/-! ### Transforms read and give scalars -/

def Scalar : Value → Prop
  | .array _ | .object _ => False
  | _ => True

variable {codecs : Codecs} {v w new : Value}

theorem scalar_of_asStr {s : String} (h : v.asStr = some s) : Scalar v := by
  cases v with
  | string s => trivial
  | _ => cases h

theorem scalar_of_rawAmount {raw : ℤ} (h : rawAmount v = some raw) : Scalar v := by
  cases v with
  | array items => cases h
  | object map => cases h
  | _ => trivial

theorem scalar_applyTransform {transform : Transform} {params : Value}
    (h : applyTransform codecs transform params v = .ok new) : Scalar v ∧ Scalar new := by
  rw [applyTransform.eq_def] at h
  cases transform with
  | divideByDecimals =>
    dsimp only at h
    split at h
    · cases h
    split at h
    · cases h
    next hraw =>
    split at h
    · cases h
    · obtain rfl := Except.ok.inj h
      exact ⟨scalar_of_rawAmount hraw, trivial⟩
  | hexToDecimal =>
    dsimp only at h
    split at h
    · cases h
    next hstr =>
    split at h
    · cases h
    · obtain rfl := Except.ok.inj h
      exact ⟨scalar_of_asStr hstr, trivial⟩
  | base64Decode =>
    dsimp only at h
    split at h
    · cases h
    next hstr =>
    split at h
    · cases h
    split at h
    · obtain rfl := Except.ok.inj h
      exact ⟨scalar_of_asStr hstr, trivial⟩
    · obtain rfl := Except.ok.inj h
      exact ⟨scalar_of_asStr hstr, trivial⟩

theorem Scalar.ordered (h : Scalar v) : v.Ordered := by
  cases v with
  | array items => exact h.elim
  | object map => exact h.elim
  | _ => trivial

theorem resolveTokens_scalar (h : Scalar v) (hw : Scalar w) (names : List String) :
    resolveTokens v names = resolveTokens w names := by
  cases names with
  | nil => rw [resolveTokens, resolveTokens]
  | cons token names =>
    have hstep : ∀ u, Scalar u → stepOf u token = none := by
      intro u hu
      cases u with
      | array items => exact hu.elim
      | object map => exact hu.elim
      | _ => rfl
    rw [resolveTokens, resolveTokens, hstep v h, hstep w hw]
    rfl

/-- A scalar in the place of a scalar leaves every pointer where it leads. -/
theorem resolveTokens_put_scalar {path : List Step} (h : v.locate path = some w) (hw : Scalar w)
    (hnew : Scalar new) (names : List String) :
    resolveTokens (v.put path new) names = resolveTokens v names := by
  induction path generalizing v names with
  | nil =>
    obtain rfl := Option.some.inj h
    exact resolveTokens_scalar hnew hw names
  | cons s path ih =>
    obtain ⟨c, hc, hloc⟩ := Value.child_of_locate h
    rw [Value.put_cons hc]
    cases names with
    | nil => rw [resolveTokens, resolveTokens]
    | cons token names =>
      rw [resolveTokens, resolveTokens, stepOf_withChild]
      cases stepOf v token with
      | none => rfl
      | some s' =>
        rw [Option.bind_some, Option.bind_some]
        by_cases hs : s' = s
        · subst hs
          rw [Value.child_withChild hc, hc, Option.bind_some, Option.bind_some, ih hloc]
        · rw [Value.child_withChild_ne hs]

/-! ### The frame of the pipeline -/

/-- Only what is at or below these locations may have changed: elsewhere values are kept, and of
    what leads to them the keys and lengths. -/
structure ChangedOnlyBelow (named : List Step → Prop) (old new : Value) : Prop where
  value : ∀ q, (∀ path, named path → ¬path <+: q ∧ ¬q <+: path) → new.locate q = old.locate q
  node : ∀ q, (∀ path, named path → ¬path <+: q) →
    (new.locate q).map Value.node = (old.locate q).map Value.node

/-- The locations that the rules' pointers name in the data. -/
def NamedBy (rules : List NormalizationRule) (data : Value) (path : List Step) : Prop :=
  ∃ rule ∈ rules, resolved data rule.pointer = some path

/-- What the loop keeps, from the event's data on. -/
structure Normalizing (rules : List NormalizationRule) (data normalized : Value) : Prop where
  ordered : normalized.Ordered
  resolved : ∀ pointer, resolved normalized pointer = resolved data pointer
  frame : ChangedOnlyBelow (NamedBy rules data) data normalized

theorem normalizing_applyRule {rules : List NormalizationRule} {data normalized : Value}
    {rule : NormalizationRule} (hrule : rule ∈ rules) (h : Normalizing rules data normalized) :
    Normalizing rules data (applyRule codecs normalized rule) := by
  rw [applyRule]
  split
  · exact h
  split
  · exact h
  next hget =>
  split
  · next htransform =>
    obtain ⟨hw, hnew⟩ := scalar_applyTransform htransform
    obtain ⟨path, hpath, hloc⟩ := pointerGet_eq_some hget
    have hnamed : NamedBy rules data path := ⟨rule, hrule, (h.resolved _).symm.trans hpath⟩
    rw [pointerSet_eq h.ordered hpath]
    refine ⟨h.ordered.put hnew.ordered, fun pointer => ?_, fun q hq => ?_, fun q hq => ?_⟩
    · rw [← h.resolved, Normalizer.resolved, Normalizer.resolved]
      split
      · rfl
      · exact resolveTokens_put_scalar hloc hw hnew _
    · obtain ⟨hbelow, habove⟩ := hq path hnamed
      rw [Value.locate_put_of_disjoint hloc hbelow habove, h.frame.value q hq]
    · rw [Value.node_locate_put hloc (hq path hnamed), h.frame.node q hq]
  · exact h

theorem normalizing_foldl {rules todo : List NormalizationRule} {data normalized : Value}
    (hrules : ∀ rule ∈ todo, rule ∈ rules) (h : Normalizing rules data normalized) :
    Normalizing rules data (todo.foldl (applyRule codecs) normalized) := by
  induction todo generalizing normalized with
  | nil => exact h
  | cons rule todo ih =>
    exact ih (fun r hr => hrules r (List.mem_cons_of_mem _ hr))
      (normalizing_applyRule (hrules rule List.mem_cons_self) h)

theorem changedOnlyBelow_normalize {rules : List NormalizationRule} {data out : Value}
    (hdata : data.Ordered) (h : normalize codecs rules data = some out) :
    ChangedOnlyBelow (NamedBy rules data) data out := by
  rw [normalize] at h
  split at h
  · cases h
  · obtain rfl := Option.some.inj h
    exact (normalizing_foldl (fun _ hr => hr)
      ⟨hdata, fun _ => rfl, fun _ _ => rfl, fun _ _ => rfl⟩).frame

/-- A pointer that names a value is a lens, and the pipeline changes what its rules name. -/
theorem pointer_lens :
    (∀ (r v w : Value) (p : String), r.Ordered → v.Ordered → pointerGet r p = some w →
      pointerGet (pointerSet r p v) p = some v ∧ pointerSet (pointerSet r p v) p w = r ∧
      ∃ path, resolved r p = some path ∧ r.locate path = some w ∧
        ∀ q, ¬path <+: q → ¬q <+: path → (pointerSet r p v).locate q = r.locate q) ∧
    ∀ (codecs : Codecs) (rules : List NormalizationRule) (data out : Value), data.Ordered →
      normalize codecs rules data = some out →
        ChangedOnlyBelow (NamedBy rules data) data out := by
  refine ⟨fun r v w p hr hv h => ⟨pointerGet_pointerSet hr h, pointerSet_pointerSet hr hv h, ?_⟩,
    fun codecs rules data out => changedOnlyBelow_normalize⟩
  obtain ⟨path, hpath, hw⟩ := pointerGet_eq_some h
  exact ⟨path, hpath, hw, fun q => locate_pointerSet hr h hpath⟩

/-- `{"a": [1, {"b": 2}]}` at `/a/1/b`. -/
theorem pointer_lens_nested :
    let root := Value.object [("a", .array [.number (.int 1), .object [("b", .number (.int 2))]])]
    pointerSet (pointerSet root "/a/1/b" .null) "/a/1/b" (.number (.int 2)) = root :=
  (pointer_lens.1 _ .null (.number (.int 2)) "/a/1/b"
    (by simp [Value.Ordered, OrderedItems, OrderedMembers]) trivial rfl).2.1

end SorobanPulse.Normalizer
