import SorobanPulse.Lib.Decimal
import SorobanPulse.Lib.Joined
import SorobanPulse.Lib.Utf8

/-! Text formats: base64 without padding, in the URL-safe alphabet, UUIDs, RFC 3339 times,
    and `{:?}` of strings and options.

        bytes  a a a b b b c c c   ──▶   symbols  w x y z     (24 bits as 3 × 8 and as 4 × 6)
        uuid   128 bits            ──▶   8-4-4-4-12 hexadecimal digits
        time   microseconds        ──▶   1996-12-19T16:39:57.25+00:00
        {:?}   a"b                 ──▶   "a\"b"

    The first two read back what they wrote, and the last is of one value only. The readers refuse
    what no writer makes: symbols outside the alphabet, bits left over at the end of a group, groups
    of a wrong length. -/

namespace SorobanPulse.Lib

/-! ### Base64 -/

def base64Alphabet : List Char :=
  "ABCDEFGHIJKLMNOPQRSTUVWXYZabcdefghijklmnopqrstuvwxyz0123456789-_".toList

def base64Symbol (n : ℕ) : Char := base64Alphabet.getD n 'A'

def base64Value? (c : Char) : Option ℕ :=
  let i := base64Alphabet.idxOf c
  if i < 64 then some i else none

def base64Encode : List UInt8 → List Char
  | a :: b :: c :: rest =>
    let n := a.toNat * 65536 + b.toNat * 256 + c.toNat
    base64Symbol (n / 262144) :: base64Symbol (n / 4096 % 64) :: base64Symbol (n / 64 % 64) ::
      base64Symbol (n % 64) :: base64Encode rest
  | [a, b] =>
    let n := a.toNat * 1024 + b.toNat * 4
    [base64Symbol (n / 4096), base64Symbol (n / 64 % 64), base64Symbol (n % 64)]
  | [a] =>
    let n := a.toNat * 16
    [base64Symbol (n / 64), base64Symbol (n % 64)]
  | [] => []

def base64Decode : List Char → Option (List UInt8)
  | w :: x :: y :: z :: rest =>
    match base64Value? w, base64Value? x, base64Value? y, base64Value? z, base64Decode rest with
    | some w, some x, some y, some z, some bytes =>
      let n := w * 262144 + x * 4096 + y * 64 + z
      some (.ofNat (n / 65536) :: .ofNat (n / 256 % 256) :: .ofNat (n % 256) :: bytes)
    | _, _, _, _, _ => none
  | [w, x, y] =>
    match base64Value? w, base64Value? x, base64Value? y with
    | some w, some x, some y =>
      let n := w * 4096 + x * 64 + y
      if n % 4 = 0 then some [.ofNat (n / 1024), .ofNat (n / 4 % 256)] else none
    | _, _, _ => none
  | [w, x] =>
    match base64Value? w, base64Value? x with
    | some w, some x =>
      let n := w * 64 + x
      if n % 16 = 0 then some [.ofNat (n / 16)] else none
    | _, _ => none
  | [_] => none
  | [] => some []

theorem base64Alphabet_eq :
    base64Alphabet = [
      'A', 'B', 'C', 'D', 'E', 'F', 'G', 'H', 'I', 'J', 'K', 'L', 'M', 'N', 'O', 'P',
      'Q', 'R', 'S', 'T', 'U', 'V', 'W', 'X', 'Y', 'Z', 'a', 'b', 'c', 'd', 'e', 'f',
      'g', 'h', 'i', 'j', 'k', 'l', 'm', 'n', 'o', 'p', 'q', 'r', 's', 't', 'u', 'v',
      'w', 'x', 'y', 'z', '0', '1', '2', '3', '4', '5', '6', '7', '8', '9', '-', '_'] :=
  String.toList_ofList

theorem length_base64Alphabet : base64Alphabet.length = 64 := by
  rw [base64Alphabet_eq]
  rfl

theorem codes_base64Alphabet : base64Alphabet.map Char.toNat =
    List.range' 65 26 ++ (List.range' 97 26 ++ (List.range' 48 10 ++ [45, 95])) := by
  rw [base64Alphabet_eq]
  rfl

theorem nodup_base64Alphabet : base64Alphabet.Nodup := by
  refine .of_map Char.toNat ?_
  rw [codes_base64Alphabet]
  simp only [List.nodup_append, List.mem_append, List.mem_range'_1, List.mem_cons,
    List.not_mem_nil, or_false]
  refine ⟨List.nodup_range', ⟨List.nodup_range', ⟨List.nodup_range', by decide, ?_⟩, ?_⟩, ?_⟩
  · omega
  · omega
  · omega

theorem base64Value?_symbol (n : ℕ) (hn : n < 64) : base64Value? (base64Symbol n) = some n := by
  have hlt : n < base64Alphabet.length := hn.trans_eq length_base64Alphabet.symm
  rw [base64Symbol, List.getD_eq_getElem _ _ hlt, base64Value?, nodup_base64Alphabet.idxOf_getElem,
    if_pos hn]

theorem ofNat_eq_of_toNat {n : ℕ} {b : UInt8} (h : n = b.toNat) : UInt8.ofNat n = b := by
  rw [h, UInt8.ofNat_toNat]

theorem toNat_ofNat_of_lt {n : ℕ} (h : n < 256) : (UInt8.ofNat n).toNat = n := by
  rw [UInt8.toNat_ofNat', Nat.mod_eq_of_lt h]

theorem base64Decode_encode (bytes : List UInt8) :
    base64Decode (base64Encode bytes) = some bytes := by
  fun_induction base64Encode bytes with
  | case1 a b c rest n ih =>
    have ha := a.toNat_lt
    have hb := b.toNat_lt
    have hc := c.toNat_lt
    rw [base64Decode, base64Value?_symbol _ (by omega), base64Value?_symbol _ (by omega),
      base64Value?_symbol _ (by omega), base64Value?_symbol _ (by omega), ih]
    dsimp only
    rw [ofNat_eq_of_toNat (b := a) (by omega), ofNat_eq_of_toNat (b := b) (by omega),
      ofNat_eq_of_toNat (b := c) (by omega)]
  | case2 a b n =>
    have ha := a.toNat_lt
    have hb := b.toNat_lt
    rw [base64Decode, base64Value?_symbol _ (by omega), base64Value?_symbol _ (by omega),
      base64Value?_symbol _ (by omega)]
    dsimp only
    rw [if_pos (by omega), ofNat_eq_of_toNat (b := a) (by omega),
      ofNat_eq_of_toNat (b := b) (by omega)]
  | case3 a n =>
    have ha := a.toNat_lt
    rw [base64Decode, base64Value?_symbol _ (by omega), base64Value?_symbol _ (by omega)]
    dsimp only
    rw [if_pos (by omega), ofNat_eq_of_toNat (b := a) (by omega)]
  | case4 => rfl

theorem base64Symbol_of_value {c : Char} {v : ℕ} (h : base64Value? c = some v) :
    base64Symbol v = c := by
  unfold base64Value? at h
  dsimp only at h
  split at h
  · next hlt =>
    cases h
    rw [base64Symbol, List.getD_eq_getElem _ _ (hlt.trans_eq length_base64Alphabet.symm),
      List.getElem_idxOf]
  · cases h

theorem base64Value?_lt {c : Char} {v : ℕ} (h : base64Value? c = some v) : v < 64 := by
  unfold base64Value? at h
  dsimp only at h
  split at h
  · next hlt => exact Option.some.inj h ▸ hlt
  · cases h

/-- Only what was written is read: no bit of a group is left over. -/
theorem base64Encode_of_decode {cs : List Char} {bytes : List UInt8}
    (h : base64Decode cs = some bytes) : base64Encode bytes = cs := by
  fun_induction base64Decode cs generalizing bytes with
  | case1 w x y z rest v₁ v₂ v₃ v₄ tail hrest hz hy hx hw n =>  -- four symbols, three bytes
    rename_i ih
    cases h
    have := base64Value?_lt hw
    have := base64Value?_lt hx
    have := base64Value?_lt hy
    have := base64Value?_lt hz
    rw [base64Encode, ih hrest, toNat_ofNat_of_lt (by omega), toNat_ofNat_of_lt (by omega),
      toNat_ofNat_of_lt (by omega), ← base64Symbol_of_value hw, ← base64Symbol_of_value hx,
      ← base64Symbol_of_value hy, ← base64Symbol_of_value hz]
    rw [show (n / 65536 * 65536 + n / 256 % 256 * 256 + n % 256) = n by omega]
    rw [show n / 262144 = v₁ by omega, show n / 4096 % 64 = v₂ by omega,
      show n / 64 % 64 = v₃ by omega, show n % 64 = v₄ by omega]
  -- three symbols and a padding character, with two bits left over
  | case3 w x y v₁ v₂ v₃ hy hx hw n =>
    rename_i hn
    cases h
    have := base64Value?_lt hw
    have := base64Value?_lt hx
    have := base64Value?_lt hy
    rw [base64Encode, toNat_ofNat_of_lt (by omega), toNat_ofNat_of_lt (by omega),
      ← base64Symbol_of_value hw, ← base64Symbol_of_value hx, ← base64Symbol_of_value hy]
    rw [show n / 1024 * 1024 + n / 4 % 256 * 4 = n by omega]
    rw [show n / 4096 = v₁ by omega, show n / 64 % 64 = v₂ by omega, show n % 64 = v₃ by omega]
  | case6 w x v₁ v₂ hx hw n =>  -- two symbols and two padding characters, with four bits left over
    rename_i hn
    cases h
    have := base64Value?_lt hw
    have := base64Value?_lt hx
    rw [base64Encode, toNat_ofNat_of_lt (by omega), ← base64Symbol_of_value hw,
      ← base64Symbol_of_value hx]
    rw [show n / 16 * 16 / 64 = v₁ by omega, show n / 16 * 16 % 64 = v₂ by omega]
  | case10 => cases h; rfl
  | _ => cases h

/-- The base64 of a text's bytes. -/
def base64Text (s : String) : String := String.ofList (base64Encode (asBytes s))

/-- The text whose bytes these are, where they are UTF-8. -/
def base64ReadText (s : String) : Option String :=
  (base64Decode s.toList).bind fun bytes =>
    if asBytes (fromUtf8Lossy bytes) = bytes then some (fromUtf8Lossy bytes) else none

theorem base64ReadText_text (s : String) : base64ReadText (base64Text s) = some s := by
  rw [base64ReadText, base64Text, String.toList_ofList, base64Decode_encode, Option.bind_some,
    fromUtf8Lossy_asBytes, if_pos rfl]

/-! ### Hexadecimal -/

def hexDigit (n : ℕ) : Char := "0123456789abcdef".toList.getD n '0'

/-- Either case is read. -/
def hexValue? (c : Char) : Option ℕ :=
  let i := "0123456789abcdef".toList.idxOf c.toLower
  if i < 16 then some i else none

/-- The `width` low digits of `n`, the highest first. -/
def hexDigits : ℕ → ℕ → List Char
  | 0, _ => []
  | width + 1, n => hexDigits width (n / 16) ++ [hexDigit (n % 16)]

def hexNat? (cs : List Char) : Option ℕ :=
  cs.foldlM (fun n c => (hexValue? c).map fun d => n * 16 + d) 0

theorem hexValue?_digit : ∀ n < 16, hexValue? (hexDigit n) = some n := by
  decide

theorem mem_hexDigits {c : Char} {n : ℕ} (width : ℕ) (h : c ∈ hexDigits width n) :
    ∃ d < 16, c = hexDigit d := by
  induction width generalizing n with
  | zero => cases h
  | succ width ih =>
    rcases List.mem_append.mp h with hhigh | hlow
    · exact ih hhigh
    · exact ⟨n % 16, Nat.mod_lt _ (by omega), List.mem_singleton.mp hlow⟩

theorem hexValue?_of_mem_hexDigits {c : Char} {n : ℕ} (width : ℕ) (h : c ∈ hexDigits width n) :
    (hexValue? c).isSome := by
  obtain ⟨d, hd, rfl⟩ := mem_hexDigits width h
  rw [hexValue?_digit d hd]
  rfl

theorem ascii_hexDigits (width n : ℕ) : Ascii (hexDigits width n) := by
  have hdigit : ∀ d < 16, (hexDigit d).toNat < 128 := by decide
  intro c hc
  obtain ⟨d, hd, rfl⟩ := mem_hexDigits width hc
  exact hdigit d hd

theorem length_hexDigits (width : ℕ) : ∀ n, (hexDigits width n).length = width := by
  induction width with
  | zero => intro _; rfl
  | succ width ih => intro n; rw [hexDigits, List.length_append, ih, List.length_singleton]

/-- Bytes as `{:x}` prints them. -/
def lowerHex (bytes : List UInt8) : List Char := bytes.flatMap fun b => hexDigits 2 b.toNat

/-- A number as `{:x}` prints it, without leading zeros. -/
def lowerHexU64 (n : UInt64) : List Char :=
  let digits := (hexDigits 16 n.toNat).dropWhile (· = '0')
  if digits = [] then ['0'] else digits

example : lowerHexU64 0x00c0ffee = "c0ffee".toList := by decide

theorem mem_lowerHex {c : Char} {bytes : List UInt8} (h : c ∈ lowerHex bytes) :
    ∃ d < 16, c = hexDigit d := by
  obtain ⟨b, _, hc⟩ := List.mem_flatMap.mp h
  exact mem_hexDigits 2 hc

theorem length_lowerHex (bytes : List UInt8) : (lowerHex bytes).length = 2 * bytes.length := by
  induction bytes with
  | nil => rfl
  | cons b bytes ih =>
    rw [lowerHex, List.flatMap_cons, List.length_append, length_hexDigits, ← lowerHex, ih,
      List.length_cons]
    omega

theorem ascii_lowerHexU64 (n : UInt64) : Ascii (lowerHexU64 n) := by
  intro c hc
  unfold lowerHexU64 at hc
  dsimp only at hc
  split at hc
  · rw [List.mem_singleton.mp hc]
    decide
  · exact ascii_hexDigits 16 _ c ((List.dropWhile_sublist _).subset hc)

theorem length_lowerHexU64_le (n : UInt64) : (lowerHexU64 n).length ≤ 16 := by
  unfold lowerHexU64
  dsimp only
  split
  · decide
  · refine (List.length_dropWhile_le _ _).trans ?_
    rw [length_hexDigits]

theorem hexNat?_hexDigits (width : ℕ) : ∀ n, hexNat? (hexDigits width n) = some (n % 16 ^ width) := by
  induction width with
  | zero => intro n; rw [Nat.pow_zero, Nat.mod_one]; rfl
  | succ width ih =>
    intro n
    rw [hexNat?, hexDigits, List.foldlM_append]
    have hrec := ih (n / 16)
    rw [hexNat?] at hrec
    rw [hrec]
    simp only [Option.bind_eq_bind, Option.bind_some, List.foldlM_cons, List.foldlM_nil,
      hexValue?_digit _ (Nat.mod_lt _ (by omega : 0 < 16)), Option.map_some, Option.pure_def]
    rw [Nat.pow_succ', Nat.mod_mul, Nat.add_comm, Nat.mul_comm]

/-! ### UUIDs -/

/-- The five groups of digits. -/
def uuidGroups (u : BitVec 128) : List (List Char) :=
  let ds := hexDigits 32 u.toNat
  [ds.take 8, (ds.drop 8).take 4, (ds.drop 12).take 4, (ds.drop 16).take 4, ds.drop 20]

/-- The hyphenated form. -/
def uuidText (u : BitVec 128) : String := String.ofList (['-'].intercalate (uuidGroups u))

def parseHyphenated (cs : List Char) : Option (BitVec 128) :=
  let groups := cs.splitOn '-'
  if groups.map List.length = [8, 4, 4, 4, 12] then
    (hexNat? groups.flatten).map (BitVec.ofNat 128)
  else none

/-- 32 digits, or the hyphenated form, bare, in braces or as a URN. -/
def parseUuid (s : String) : Option (BitVec 128) :=
  match s.toList.length, s.toList with
  | 32, cs => (hexNat? cs).map (BitVec.ofNat 128)
  | 36, cs => parseHyphenated cs
  | 38, '{' :: cs => if cs.getLast? = some '}' then parseHyphenated cs.dropLast else none
  | 45, cs => if cs.take 9 = "urn:uuid:".toList then parseHyphenated (cs.drop 9) else none
  | _, _ => none

theorem not_mem_hexDigits {c : Char} (hc : hexValue? c = none) (width n : ℕ) :
    c ∉ hexDigits width n := by
  intro h
  have hval := hexValue?_of_mem_hexDigits width h
  rw [hc] at hval
  cases hval

theorem flatten_uuidGroups (u : BitVec 128) : (uuidGroups u).flatten = hexDigits 32 u.toNat := by
  have hdrop (k m : ℕ) (ds : List Char) : (ds.drop k).take m ++ ds.drop (k + m) = ds.drop k := by
    rw [← List.drop_drop, List.take_append_drop]
  simp only [uuidGroups, List.flatten_cons, List.flatten_nil, List.append_nil]
  rw [hdrop 16 4, hdrop 12 4, hdrop 8 4, List.take_append_drop]

theorem length_uuidGroups (u : BitVec 128) :
    (uuidGroups u).map List.length = [8, 4, 4, 4, 12] := by
  simp [uuidGroups, length_hexDigits]

theorem splitOn_uuidGroups (u : BitVec 128) :
    (['-'].intercalate (uuidGroups u)).splitOn '-' = uuidGroups u := by
  apply List.splitOn_intercalate
  · intro g hg hdash
    have hmem : '-' ∈ (uuidGroups u).flatten := List.mem_flatten.mpr ⟨g, hg, hdash⟩
    rw [flatten_uuidGroups] at hmem
    exact not_mem_hexDigits (by decide) _ _ hmem
  · rw [uuidGroups]
    exact List.cons_ne_nil _ _

theorem parseHyphenated_groups (u : BitVec 128) :
    parseHyphenated (['-'].intercalate (uuidGroups u)) = some u := by
  rw [parseHyphenated, splitOn_uuidGroups, if_pos (length_uuidGroups u), flatten_uuidGroups, hexNat?_hexDigits,
    Option.map_some, Nat.mod_eq_of_lt (lt_of_lt_of_eq u.isLt (by norm_num)), BitVec.ofNat_toNat,
    BitVec.setWidth_eq]

theorem length_uuidText (u : BitVec 128) : (['-'].intercalate (uuidGroups u)).length = 36 := by
  have h := length_uuidGroups u
  simp [uuidGroups, length_hexDigits, List.intercalate, List.intersperse]

theorem parseUuid_uuidText (u : BitVec 128) : parseUuid (uuidText u) = some u := by
  rw [parseUuid, uuidText, String.toList_ofList, length_uuidText]
  exact parseHyphenated_groups u

/-- What is read as digits has only digits. -/
theorem hexNat?_eq_none {cs : List Char} {c : Char} (hc : c ∈ cs) (hval : hexValue? c = none) :
    hexNat? cs = none := by
  have hfold : ∀ ds : List Char, c ∈ ds → ∀ n,
      ds.foldlM (fun n c => (hexValue? c).map fun d => n * 16 + d) n = none := by
    intro ds
    induction ds with
    | nil => intro h; cases h
    | cons d ds ih =>
      intro h n
      rw [List.foldlM_cons]
      rcases List.mem_cons.mp h with rfl | h
      · rw [hval]
        rfl
      · cases hexValue? d with
        | none => rfl
        | some v => exact ih h _
  exact hfold cs hc 0

/-- The pieces of a text between separators lose only the separators. -/
theorem mem_flatten_splitOn {cs : List Char} {c sep : Char} (hc : c ∈ cs) (hsep : c ≠ sep) :
    c ∈ (cs.splitOn sep).flatten := by
  have hmem : ∀ ls : List (List Char), c ∈ [sep].intercalate ls → c ∈ ls.flatten := by
    intro ls
    induction ls with
    | nil => intro h; exact h
    | cons l ls ih =>
      intro h
      cases ls with
      | nil => simpa using h
      | cons l' ls =>
        rw [List.intercalate_cons_cons] at h
        rcases List.mem_append.mp h with h | h
        · rcases List.mem_append.mp h with h | h
          · exact List.mem_append_left _ h
          · exact absurd (List.mem_singleton.mp h) hsep
        · exact List.mem_append_right _ (ih h)
  apply hmem
  rw [List.intercalate_splitOn]
  exact hc

theorem parseHyphenated_colon {cs : List Char} (hc : ':' ∈ cs) : parseHyphenated cs = none := by
  rw [parseHyphenated]
  split
  · rw [hexNat?_eq_none (mem_flatten_splitOn hc (by decide)) (by decide), Option.map_none]
  · rfl

/-- A text that starts with a digit and has a colon is no UUID: the only form with one is a URN. -/
theorem parseUuid_colon {d : Char} {cs : List Char} (hd : d.isDigit) (hc : ':' ∈ cs) :
    parseUuid (String.ofList (d :: cs)) = none := by
  have hmem : ':' ∈ d :: cs := List.mem_cons_of_mem _ hc
  rw [parseUuid, String.toList_ofList]
  split
  · rw [hexNat?_eq_none hmem (by decide), Option.map_none]
  · exact parseHyphenated_colon hmem
  · next heq => 
    rw [(List.cons.inj heq).1] at hd
    cases hd
  · rw [if_neg]
    intro htake
    rw [(List.cons.inj htake).1] at hd
    cases hd
  · rfl

/-! ### RFC 3339 -/

/-- Year, month and day of the civil calendar, `days` after 1970-01-01. -/
def civilDate (days : ℤ) : ℤ × ℕ × ℕ :=
  let z := days + 719468
  let dayOfEra := (z % 146097).toNat
  let yearOfEra := (dayOfEra - dayOfEra / 1460 + dayOfEra / 36524 - dayOfEra / 146096) / 365
  let dayOfYear := dayOfEra - (365 * yearOfEra + yearOfEra / 4 - yearOfEra / 100)
  let month := (5 * dayOfYear + 2) / 153
  let year := z / 146097 * 400 + yearOfEra
  (if month < 10 then year else year + 1, if month < 10 then month + 3 else month - 9,
    dayOfYear - (153 * month + 2) / 5 + 1)

/-- Four digits; a year outside them is signed. -/
def yearText (y : ℤ) : List Char :=
  if 0 ≤ y ∧ y ≤ 9999 then decimal 4 y.natAbs
  else (if y < 0 then '-' else '+') :: decimal 4 y.natAbs

/-- The fraction of a second, in as many groups of three digits as it needs. -/
def fractionText (micros : ℕ) : List Char :=
  if micros = 0 then []
  else if micros % 1000 = 0 then '.' :: decimal 3 (micros / 1000)
  else '.' :: decimal 6 micros

/-- Up to the first colon. -/
def rfc3339Date (t : ℤ) : List Char :=
  let date := civilDate (t / 86400000000)
  yearText date.1 ++ '-' :: decimal 2 date.2.1 ++ '-' :: decimal 2 date.2.2 ++
    'T' :: decimal 2 ((t / 3600000000 % 24).toNat)

/-- A time in microseconds since the epoch, in UTC. -/
def rfc3339 (t : ℤ) : String :=
  String.ofList (rfc3339Date t ++ ':' :: decimal 2 ((t / 60000000 % 60).toNat) ++
    ':' :: decimal 2 ((t / 1000000 % 60).toNat) ++ fractionText (t % 1000000).toNat ++ "+00:00".toList)

example : rfc3339 851013597250000 = "1996-12-19T16:39:57.250+00:00" := by decide

theorem colon_not_mem_rfc3339Date (t : ℤ) : ':' ∉ rfc3339Date t := by
  have hdigit : ∀ width n, ':' ∉ decimal width n := not_mem_decimal (by decide)
  have hyear : ∀ y, ':' ∉ yearText y := by
    intro y
    unfold yearText
    split
    · exact hdigit _ _
    · rw [List.mem_cons, not_or]
      refine ⟨?_, hdigit _ _⟩
      split <;> decide
  simp [rfc3339Date, hdigit, hyear]

/-- The hour is followed by a colon and a digit. -/
theorem rfc3339_colon (t : ℤ) : ∃ d rest,
    (rfc3339 t).toList = rfc3339Date t ++ ':' :: d :: rest ∧ d.isDigit = true := by
  rcases hmin : decimal 2 ((t / 60000000 % 60).toNat) with _ | ⟨d, ds⟩
  · exact absurd hmin (decimal_ne_nil _ _)
  · refine ⟨d, ds ++ ':' :: decimal 2 ((t / 1000000 % 60).toNat) ++
      fractionText (t % 1000000).toNat ++ "+00:00".toList, ?_, ?_⟩
    · rw [rfc3339, String.toList_ofList, hmin]
      simp only [List.append_assoc, List.cons_append]
    · exact isDigit_of_mem_decimal (hmin ▸ List.mem_cons_self : d ∈ decimal 2 _)

/-! ### `{:?}` -/

/-- Characters that a backslash and a letter stand for. -/
def debugEscapes : List (Char × Char) :=
  [(Char.ofNat 0, '0'), ('\t', 't'), ('\r', 'r'), ('\n', 'n'), ('"', '"'), ('\\', '\\')]

def debugLetter (c : Char) : Option Char := (debugEscapes.find? (·.1 = c)).map (·.2)

/-- The code point, without leading zeros. -/
def codePoint (c : Char) : List Char := (hexDigits 6 c.toNat).dropWhile (· = '0')

section
variable (printable : Char → Bool)

def debugChar (c : Char) : List Char :=
  match debugLetter c with
  | some d => ['\\', d]
  | none => if printable c then [c] else '\\' :: 'u' :: '{' :: codePoint c ++ ['}']

/-- `{:?}` of a string. -/
def debugText (s : String) : List Char := '"' :: s.toList.flatMap (debugChar printable) ++ ['"']

end

/-- `{:?}` of an option. -/
def debugOption {α : Type*} (text : α → List Char) : Option α → List Char
  | none => ['N', 'o', 'n', 'e']
  | some a => 'S' :: 'o' :: 'm' :: 'e' :: '(' :: text a ++ [')']

theorem eq_of_dropWhile_eq {α : Type*} [DecidableEq α] {a : α} {xs ys : List α}
    (hlength : xs.length = ys.length) (h : xs.dropWhile (· = a) = ys.dropWhile (· = a)) :
    xs = ys := by
  have hreplicate (zs : List α) : zs.takeWhile (· = a) =
      List.replicate (zs.length - (zs.dropWhile (· = a)).length) a := by
    have hsplit := congrArg List.length (List.takeWhile_append_dropWhile (p := (· = a)) (l := zs))
    rw [List.length_append] at hsplit
    refine List.eq_replicate_iff.mpr ⟨by omega, fun b hb => ?_⟩
    simpa using List.mem_takeWhile_imp hb
  rw [← List.takeWhile_append_dropWhile (p := (· = a)) (l := xs), hreplicate, hlength, h,
    ← hreplicate, List.takeWhile_append_dropWhile]

theorem codePoint_inj {a b : Char} (h : codePoint a = codePoint b) : a = b := by
  have hlength : (hexDigits 6 a.toNat).length = (hexDigits 6 b.toNat).length := by
    rw [length_hexDigits, length_hexDigits]
  have hdigits := eq_of_dropWhile_eq hlength h
  have hnumber := congrArg hexNat? hdigits
  rw [hexNat?_hexDigits, hexNat?_hexDigits, Option.some.injEq] at hnumber
  have hbound (c : Char) : c.toNat < 16 ^ 6 := by
    rcases c.valid with hlow | ⟨-, hhigh⟩
    · exact hlow.trans (by decide)
    · exact hhigh.trans (by decide)
  rw [Nat.mod_eq_of_lt (hbound a), Nat.mod_eq_of_lt (hbound b)] at hnumber
  exact Char.toNat_inj.mp hnumber

theorem brace_not_mem_codePoint (c : Char) : '}' ∉ codePoint c := fun h =>
  not_mem_hexDigits (by decide) 6 c.toNat (List.dropWhile_subset _ h)

variable {printable : Char → Bool}

theorem mem_of_debugLetter {c d : Char} (h : debugLetter c = some d) : (c, d) ∈ debugEscapes := by
  obtain ⟨⟨c', d'⟩, hfind, rfl⟩ := Option.map_eq_some_iff.mp h
  have hc := List.find?_some hfind
  have hmem := List.mem_of_find?_eq_some hfind
  simp only [decide_eq_true_eq] at hc
  exact hc ▸ hmem

/-- A character is escaped by a letter, stands for itself, or is escaped by its number. -/
theorem debugChar_cases (c : Char) :
    (∃ d, (c, d) ∈ debugEscapes ∧ debugChar printable c = ['\\', d]) ∨
      (c ≠ '\\' ∧ c ≠ '"' ∧ debugChar printable c = [c]) ∨
        debugChar printable c = '\\' :: 'u' :: '{' :: codePoint c ++ ['}'] := by
  rw [debugChar]
  split
  · next d hd => exact .inl ⟨d, mem_of_debugLetter hd, rfl⟩
  · next hnone =>
    split
    · refine .inr (.inl ⟨?_, ?_, rfl⟩) <;> rintro rfl <;> cases hnone
    · exact .inr (.inr rfl)

theorem debugChar_inj (a b : Char) (rest rest' : List Char)
    (h : debugChar printable a ++ rest = debugChar printable b ++ rest') :
    a = b ∧ rest = rest' := by
  have hletters : ∀ e ∈ debugEscapes, e.2 ≠ 'u' ∧ ∀ e' ∈ debugEscapes, e.2 = e'.2 → e.1 = e'.1 := by
    decide
  rcases @debugChar_cases printable a with ⟨d, hd, ha⟩ | ⟨haback, -, ha⟩ | ha <;>
    rcases @debugChar_cases printable b with ⟨e, he, hb⟩ | ⟨hbback, -, hb⟩ | hb <;>
    simp only [ha, hb, List.cons_append, List.nil_append, List.append_assoc, List.cons.injEq,
      true_and] at h
  · exact ⟨(hletters _ hd).2 _ he h.1, h.2⟩
  · exact absurd h.1.symm hbback
  · exact absurd h.1 (hletters _ hd).1
  · exact absurd h.1 haback
  · exact h
  · exact absurd h.1 haback
  · exact absurd h.1.symm (hletters _ he).1
  · exact absurd h.1.symm hbback
  · obtain ⟨hcode, hrest⟩ :=
      eq_of_append_separator (brace_not_mem_codePoint a) (brace_not_mem_codePoint b) h
    exact ⟨codePoint_inj hcode, hrest⟩

theorem debugChar_ne_quote (a : Char) (rest rest' : List Char) :
    debugChar printable a ++ rest ≠ '"' :: rest' := by
  intro h
  rcases @debugChar_cases printable a with ⟨d, -, ha⟩ | ⟨-, hquote, ha⟩ | ha
  · rw [ha] at h
    exact absurd (List.cons.inj h).1 (by decide)
  · rw [ha] at h
    exact hquote (List.cons.inj h).1
  · rw [ha] at h
    exact absurd (List.cons.inj h).1 (by decide)

theorem debugText_inj {s t : String} {rest rest' : List Char}
    (h : debugText printable s ++ rest = debugText printable t ++ rest') :
    s = t ∧ rest = rest' := by
  have hbody : s.toList.flatMap (debugChar printable) ++ '"' :: rest =
      t.toList.flatMap (debugChar printable) ++ '"' :: rest' := by
    simpa [debugText] using h
  obtain ⟨hchars, hrest⟩ := flatMap_inj debugChar_inj debugChar_ne_quote hbody
  exact ⟨String.toList_inj.mp hchars, hrest⟩

/-- An option reads off when what is in it reads off in front of the bracket. -/
theorem debugOption_inj {α : Type*} {text : α → List Char}
    (htext : ∀ a b rest rest', text a ++ ')' :: rest = text b ++ ')' :: rest' →
      a = b ∧ rest = rest')
    {x y : Option α} {rest rest' : List Char}
    (h : debugOption text x ++ rest = debugOption text y ++ rest') : x = y ∧ rest = rest' := by
  cases x with
  | none =>
    cases y with
    | none => exact ⟨rfl, by simpa [debugOption] using h⟩
    | some b => simp [debugOption] at h
  | some a =>
    cases y with
    | none => simp [debugOption] at h
    | some b =>
      obtain ⟨hab, hrest⟩ := htext a b rest rest' (by simpa [debugOption] using h)
      exact ⟨congrArg some hab, hrest⟩

end SorobanPulse.Lib
