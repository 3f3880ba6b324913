import SorobanPulse.Json
import SorobanPulse.Lib.Decimal

/-! Decoding of token events by topic 0 and arity.

    A topic is text, or an object holding a symbol, an address or a string. An amount is an i128 as a
    decimal string: given as such, as a JSON integer, or as an object (`i128`, `amount`, or the two
    halves `hi` and `lo`). Accounts are read at fixed positions. -/

namespace SorobanPulse.Tokens
open Lib

def topicStr : Value → Option String
  | .string s => some s
  | .object map =>
    ((map.lookup "symbol").or ((map.lookup "address").or (map.lookup "string"))).bind Value.asStr
  | _ => none

/-- `str::parse::<i128>`. -/
def parseI128 (s : String) : Option ℤ := parseSigned (2 ^ 127) s.toList

/-- The `{hi, lo}` parts: `(hi << 64) | lo` in 128 bits. -/
def hiLo (map : List (String × Value)) : Option String := do
  let hi ← (map.lookup "hi").bind fun v => v.asStr.or (v.asI64.map toString)
  let lo ← (map.lookup "lo").bind fun v => v.asStr.or (v.asU64.map toString)
  let hi ← parseI128 hi
  let lo ← parseUnsigned (2 ^ 64) lo.toList
  some (toString ((BitVec.ofInt 128 hi <<< 64) ||| BitVec.ofNat 128 lo).toInt)

mutual
/-- An exact i128 as a decimal string. -/
def amountStr : Value → Option String
  | .string s => if (parseI128 s).isSome then some s else none
  | .number (.int n) => if I64_MIN ≤ n ∧ n ≤ U64_MAX then some (toString n) else none
  | .object map =>
    match (memberAmount "i128" map).or (memberAmount "amount" map) with
    | some amount => amount
    | none => hiLo map
  | _ => none

/-- `amount_str` of the member `key`, if there is one. -/
def memberAmount (key : String) : List (String × Value) → Option (Option String)
  | [] => none
  | (k, v) :: rest => if k = key then some (amountStr v) else memberAmount key rest
end

structure TokenEvent where
  kind : String
  fromAddr : Option String := none
  toAddr : Option String := none
  spender : Option String := none
  /-- Decimal string, exact i128. -/
  amount : Option String
  deriving DecidableEq, Repr

/-- The text of topic `i`. -/
def addr (topics : List Value) (i : ℕ) : Option String := topics[i]?.bind topicStr

/-- `token_events::decode`. -/
def decode (topics : List Value) (value : Value) : Option TokenEvent := do
  let name ← addr topics 0
  let n := topics.length
  let ev : TokenEvent := { kind := name, amount := amountStr value }
  let ev ←
    if name = "transfer" ∧ 3 ≤ n then
      some { ev with fromAddr := addr topics 1, toAddr := addr topics 2 }
    else if name = "mint" ∧ 3 ≤ n then
      some { ev with toAddr := (addr topics 2).or (addr topics 1), fromAddr := addr topics 1 }
    else if name = "burn" ∧ 2 ≤ n then some { ev with fromAddr := addr topics 1 }
    else if name = "clawback" ∧ 3 ≤ n then
      some { ev with fromAddr := (addr topics 2).or (addr topics 1) }
    else if name = "approve" ∧ 3 ≤ n then
      some { ev with fromAddr := addr topics 1, spender := addr topics 2 }
    else if name = "set_admin" ∧ 2 ≤ n then
      some { ev with fromAddr := addr topics 1, toAddr := value.asStr, amount := none }
    else if name = "set_authorized" ∧ 2 ≤ n then
      some { ev with toAddr := addr topics 1, amount := none }
    else none
  if ev.amount.isNone ∧ name ≠ "set_admin" ∧ name ≠ "set_authorized" then none else some ev

theorem memberAmount_eq (key : String) (map : List (String × Value)) :
    memberAmount key map = (map.lookup key).map amountStr := by
  induction map with
  | nil => rw [memberAmount]; rfl
  | cons m rest ih =>
    obtain ⟨k, v⟩ := m
    rw [memberAmount, ih, List.lookup_cons]
    by_cases h : k = key
    · subst h; simp
    · have hne : (key == k) = false := beq_false_of_ne (Ne.symm h)
      rw [if_neg h, hne]

/-- An object is read through `i128`, else through `amount`, else by halves. -/
theorem amountStr_object (map : List (String × Value)) :
    amountStr (.object map) =
      (((map.lookup "i128").or (map.lookup "amount")).map amountStr).getD (hiLo map) := by
  rw [amountStr, memberAmount_eq, memberAmount_eq]
  cases map.lookup "i128" <;> cases map.lookup "amount" <;> rfl

end SorobanPulse.Tokens
