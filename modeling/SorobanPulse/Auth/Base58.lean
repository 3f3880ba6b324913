import SorobanPulse.Auth.ApiKeys
import SorobanPulse.Lib.Digits
import SorobanPulse.Lib.Fallible

/-! `base58_encode` and the keys that are generated with it.

        for each byte   value ↦ 256 · value + byte      on base-58 digits, the lowest first:

            carry = byte ─▶ d₀ ─▶ d₁ ─▶ …  ─▶ dₖ ─▶ new digits
                           carry + 256 · dᵢ: the remainder by 58 stays, the quotient is carried on

    The digits are those of the number that the bytes stand for, so nothing of it is lost; the zeros
    in front of the number are counted apart. -/

namespace SorobanPulse.Auth
open Lib

/-! ### Encoding -/

def BASE58_ALPHABET : List Char :=
  "123456789ABCDEFGHJKLMNPQRSTUVWXYZabcdefghijkmnopqrstuvwxyz".toList

/-- `for digit in digits.iter_mut()`: the digits, and the carry that is left. -/
def carryThrough (carry : ℕ) : List ℕ → Option (List ℕ × ℕ)
  | [] => some ([], carry)
  | digit :: digits => do
    let shifted ← fit 32 (digit <<< 8)
    let carry ← fit 32 (carry + shifted)
    let low ← fit 8 (carry % 58)
    let (digits, carry) ← carryThrough (carry / 58) digits
    return (low :: digits, carry)

/-- `while carry > 0` -/
def pushCarry (carry : ℕ) : Option (List ℕ) :=
  if 0 < carry then do
    let low ← fit 8 (carry % 58)
    let digits ← pushCarry (carry / 58)
    return low :: digits
  else some []
termination_by carry

def pushByte (digits : List ℕ) (byte : UInt8) : Option (List ℕ) := do
  let (digits, carry) ← carryThrough byte.toNat digits
  let more ← pushCarry carry
  return digits ++ more

/-- `none` is an overflow, or an index outside of the alphabet. -/
def base58Encode (input : List UInt8) : Option String := do
  let zeros := (input.takeWhile (· = 0)).length
  let digits ← input.foldlM pushByte []
  let chars ← digits.reverse.mapM fun d => BASE58_ALPHABET[d]?
  return String.ofList (List.replicate zeros '1' ++ chars)

def KEY_RANDOM_BYTES : ℕ := 32

/-- What the random generator fills. -/
abbrev RandomBytes := { bytes : List UInt8 // bytes.length = KEY_RANDOM_BYTES }

def generateApiKey (bytes : RandomBytes) : Option String :=
  (base58Encode bytes).map (KEY_PREFIX ++ ·)

/-! ### Digits -/

section
variable {carry n : ℕ}

/-- The remainder and the quotient that one digit leaves. -/
theorem carry_mod_add (n carry : ℕ) :
    (carry + (n % 58) * 256) % 58 = (carry + 256 * n) % 58 ∧
    (carry + (n % 58) * 256) / 58 + 256 * (n / 58) = (carry + 256 * n) / 58 := by
  omega

/-- A carry below 256 stays there. -/
theorem carryThrough_digits (hcarry : carry < 256) :
    ∃ digits carry', carryThrough carry (Nat.digits 58 n) = some (digits, carry') ∧ carry' < 256 ∧
      digits ++ Nat.digits 58 carry' = Nat.digits 58 (carry + 256 * n) := by
  induction n using Nat.strongRecOn generalizing carry with
  | ind n ih =>
    rcases Nat.eq_zero_or_pos n with rfl | hn
    · exact ⟨[], carry, by rw [Nat.digits_zero]; rfl, hcarry, rfl⟩
    · have hd : n % 58 < 58 := Nat.mod_lt n (by decide)
      have hshift : (n % 58) <<< 8 = (n % 58) * 256 := Nat.shiftLeft_eq _ 8
      obtain ⟨hlow, hhigh⟩ := carry_mod_add n carry
      have hnext : (carry + (n % 58) * 256) / 58 < 256 := by omega
      obtain ⟨digits, carry', hrest, hcarry', hdigits⟩ :=
        ih (n / 58) (Nat.div_lt_self hn (by decide)) hnext
      refine ⟨(carry + (n % 58) * 256) % 58 :: digits, carry', ?_, hcarry', ?_⟩
      · rw [Nat.digits_def' (by decide) hn, carryThrough, hshift, fit_of_lt (by omega)]
        simp only [Option.bind_eq_bind, Option.bind_some]
        rw [fit_of_lt (by omega), Option.bind_some, fit_of_lt (by omega), Option.bind_some, hrest]
        rfl
      · rw [List.cons_append, hdigits, hhigh, hlow, ← Nat.digits_def' (by decide) (by omega)]

theorem pushCarry_digits (carry : ℕ) : pushCarry carry = some (Nat.digits 58 carry) := by
  induction carry using Nat.strongRecOn with
  | ind carry ih =>
    rw [pushCarry]
    split
    · next hpos =>
      rw [fit_of_lt (by omega), ih _ (Nat.div_lt_self hpos (by decide)),
        Nat.digits_def' (by decide) hpos]
      rfl
    · next hzero =>
      obtain rfl : carry = 0 := by omega
      rw [Nat.digits_zero]

/-- One byte more. -/
theorem pushByte_digits (n : ℕ) (byte : UInt8) :
    pushByte (Nat.digits 58 n) byte = some (Nat.digits 58 (256 * n + byte.toNat)) := by
  obtain ⟨digits, carry, hthrough, -, hdigits⟩ := carryThrough_digits (n := n) byte.toNat_lt
  rw [pushByte, hthrough]
  simp only [Option.bind_eq_bind, Option.bind_some]
  rw [pushCarry_digits, Option.bind_some, hdigits, Nat.add_comm]
  rfl

end

/-- The number that bytes stand for. -/
def bytesValue (input : List UInt8) : ℕ := bigEndian 256 (input.map UInt8.toNat)

/-- The loop ends with the digits of the number. -/
theorem foldlM_pushByte (input : List UInt8) :
    input.foldlM pushByte [] = some (Nat.digits 58 (bytesValue input)) := by
  induction input using List.reverseRecOn with
  | nil => simp [bytesValue, bigEndian]
  | append_singleton input byte ih =>
    have hvalue : bytesValue (input ++ [byte]) = 256 * bytesValue input + byte.toNat := by
      rw [bytesValue, List.map_append, List.map_singleton, bigEndian_concat, ← bytesValue]
    rw [List.foldlM_append, ih, hvalue]
    simp only [Option.bind_eq_bind, Option.bind_some, List.foldlM_cons, List.foldlM_nil]
    rw [pushByte_digits]
    rfl

/-! ### The alphabet -/

theorem alphabet_eq :
    BASE58_ALPHABET = [
      '1', '2', '3', '4', '5', '6', '7', '8', '9', 'A', 'B', 'C', 'D', 'E', 'F', 'G', 'H', 'J', 'K',
      'L', 'M', 'N', 'P', 'Q', 'R', 'S', 'T', 'U', 'V', 'W', 'X', 'Y', 'Z', 'a', 'b', 'c', 'd', 'e',
      'f', 'g', 'h', 'i', 'j', 'k', 'm', 'n', 'o', 'p', 'q', 'r', 's', 't', 'u', 'v', 'w', 'x', 'y',
      'z'] :=
  String.toList_ofList

theorem length_alphabet : BASE58_ALPHABET.length = 58 := by
  rw [alphabet_eq]
  rfl

theorem codes_alphabet : BASE58_ALPHABET.map Char.toNat =
    List.range' 49 9 ++ (List.range' 65 8 ++ (List.range' 74 5 ++ (List.range' 80 11 ++
      (List.range' 97 11 ++ List.range' 109 14)))) := by
  rw [alphabet_eq]
  rfl

theorem nodup_alphabet : BASE58_ALPHABET.Nodup := by
  refine .of_map Char.toNat ?_
  rw [codes_alphabet]
  simp only [List.nodup_append, List.mem_append, List.mem_range'_1]
  refine ⟨List.nodup_range', ⟨List.nodup_range', ⟨List.nodup_range', ⟨List.nodup_range',
    ⟨List.nodup_range', List.nodup_range', ?_⟩, ?_⟩, ?_⟩, ?_⟩, ?_⟩
  all_goals omega

/-- The character of a digit. -/
def base58Char (d : ℕ) : Char := BASE58_ALPHABET.getD d '1'

theorem base58Char_zero : base58Char 0 = '1' := by
  rw [base58Char, alphabet_eq]
  rfl

theorem base58Char_eq_get {d : ℕ} (h : d < 58) :
    base58Char d = BASE58_ALPHABET.get ⟨d, h.trans_eq length_alphabet.symm⟩ :=
  List.getD_eq_getElem _ _ _

theorem getElem?_alphabet {d : ℕ} (h : d < 58) : BASE58_ALPHABET[d]? = some (base58Char d) := by
  rw [base58Char_eq_get h]
  exact List.getElem?_eq_getElem _

theorem base58Char_inj {d e : ℕ} (hd : d < 58) (he : e < 58) (h : base58Char d = base58Char e) :
    d = e := by
  rw [base58Char_eq_get hd, base58Char_eq_get he] at h
  exact Fin.val_eq_of_eq (nodup_alphabet.get_inj_iff.mp h)

theorem mapM_alphabet {ds : List ℕ} (h : ∀ d ∈ ds, d < 58) :
    ds.mapM (fun d => BASE58_ALPHABET[d]?) = some (ds.map base58Char) := by
  induction ds with
  | nil => rfl
  | cons d ds ih =>
    rw [List.mapM_cons, getElem?_alphabet (h d List.mem_cons_self),
      ih fun e he => h e (List.mem_cons_of_mem _ he)]
    rfl

theorem map_base58Char_inj {ds ds' : List ℕ} (h : ∀ d ∈ ds, d < 58) (h' : ∀ d ∈ ds', d < 58)
    (heq : ds.map base58Char = ds'.map base58Char) : ds = ds' := by
  induction ds generalizing ds' with
  | nil => exact (List.map_eq_nil_iff.mp heq.symm).symm
  | cons d ds ih =>
    obtain ⟨e, es, rfl, hd, hds⟩ := List.map_eq_cons_iff.mp heq.symm
    rw [List.forall_mem_cons] at h h'
    rw [base58Char_inj h'.1 h.1 hd, ih h.2 h'.2 hds.symm]

/-! ### The text -/

/-- The zeros in front, each as the digit 0, and the digits of the number. -/
def base58Digits (input : List UInt8) : List ℕ :=
  List.replicate (input.takeWhile (· = 0)).length 0 ++ (Nat.digits 58 (bytesValue input)).reverse

theorem lt_of_mem_base58Digits {input : List UInt8} {d : ℕ} (h : d ∈ base58Digits input) :
    d < 58 := by
  rcases List.mem_append.mp h with hzero | hdigit
  · rw [List.eq_of_mem_replicate hzero]
    decide
  · exact Nat.digits_lt_base (by decide) (List.mem_reverse.mp hdigit)

theorem base58Encode_eq (input : List UInt8) :
    base58Encode input = some (String.ofList ((base58Digits input).map base58Char)) := by
  have hdigits : ∀ d ∈ (Nat.digits 58 (bytesValue input)).reverse, d < 58 :=
    fun d hd => lt_of_mem_base58Digits (List.mem_append_right _ hd)
  rw [base58Encode, foldlM_pushByte]
  simp only [Option.bind_eq_bind, Option.bind_some]
  rw [mapM_alphabet hdigits, Option.bind_some, base58Digits, List.map_append, List.map_replicate,
    base58Char_zero]
  rfl

/-- The zeros of the text are those of the bytes. -/
theorem leadingZeros_bytes (input : List UInt8) :
    leadingZeros (input.map UInt8.toNat) = (input.takeWhile (· = 0)).length := by
  have hzero : (fun n : ℕ => decide (n = 0)) ∘ UInt8.toNat = fun c : UInt8 => decide (c = 0) := by
    funext c
    simp [UInt8.toNat_inj.symm]
  rw [leadingZeros, List.takeWhile_map, List.length_map, hzero]

theorem base58Digits_injective : Function.Injective base58Digits := by
  intro input input' h
  have hzeros := congrArg leadingZeros h
  have hvalue := congrArg (bigEndian 58) h
  rw [base58Digits, base58Digits, leadingZeros_replicate _ (head?_reverse_digits_ne_zero _ _),
    leadingZeros_replicate _ (head?_reverse_digits_ne_zero _ _)] at hzeros
  rw [base58Digits, base58Digits, bigEndian_replicate, bigEndian_replicate, bigEndian_digits,
    bigEndian_digits] at hvalue
  have hbyte : ∀ bytes : List UInt8, ∀ d ∈ bytes.map UInt8.toNat, d < 256 := by
    intro bytes d hd
    obtain ⟨byte, -, rfl⟩ := List.mem_map.mp hd
    exact byte.toNat_lt
  refine List.map_injective_iff.mpr (fun _ _ => UInt8.toNat_inj.mp) ?_
  refine eq_of_bigEndian_eq (by decide) (hbyte input) (hbyte input') ?_ hvalue
  rw [leadingZeros_bytes, leadingZeros_bytes, hzeros]

theorem base58Encode_injective : Function.Injective base58Encode := by
  intro input input' h
  rw [base58Encode_eq, base58Encode_eq, Option.some_inj, String.ofList_inj] at h
  exact base58Digits_injective (map_base58Char_inj (fun _ => lt_of_mem_base58Digits)
    (fun _ => lt_of_mem_base58Digits) h)

/-- Every byte string is encoded, as its leading zeros and the digits of its number, which do not
    begin with a zero; no two are encoded alike, and neither are two sets of random bytes. -/
theorem base58_exact :
    (∀ input : List UInt8,
      base58Encode input = some (String.ofList
        (List.replicate (input.takeWhile (· = 0)).length '1' ++
          (Nat.digits 58 (bytesValue input)).reverse.map base58Char)) ∧
      (Nat.digits 58 (bytesValue input)).reverse.head? ≠ some 0) ∧
    Function.Injective base58Encode ∧ Function.Injective generateApiKey := by
  refine ⟨fun input => ⟨?_, head?_reverse_digits_ne_zero _ _⟩, base58Encode_injective, ?_⟩
  · rw [base58Encode_eq, base58Digits, List.map_append, List.map_replicate, base58Char_zero]
  · intro bytes bytes' h
    have hkey := Option.map_injective (fun _ _ => String.append_right_inj KEY_PREFIX |>.mp) h
    exact Subtype.ext (base58Encode_injective hkey)

end SorobanPulse.Auth
