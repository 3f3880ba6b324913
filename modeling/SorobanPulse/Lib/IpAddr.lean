import Mathlib.Data.BitVec
import SorobanPulse.Lib.Decimal

/-! IP addresses as text.

        IPv4   four octets in decimal, without leading zeros
        IPv6   eight groups of up to four hex digits, one run of zeros written `::`,
               the last two groups also as an IPv4 address

    A text with brackets is no address, and neither is one with an empty octet. -/

namespace SorobanPulse.Lib

structure Ipv4 where
  a : UInt8
  b : UInt8
  c : UInt8
  d : UInt8
  deriving DecidableEq, Repr

structure Ipv6 where
  segments : List UInt16
  length_eq : segments.length = 8
  deriving DecidableEq, Repr

inductive IpAddr where
  | v4 (ip : Ipv4)
  | v6 (ip : Ipv6)
  deriving DecidableEq, Repr

/-! ### Parsing -/

def parseOctet (cs : List Char) : Option UInt8 :=
  if cs.head? = some '0' ∧ cs.length ≠ 1 then none
  else ((digits? cs).filter (· < 256)).map UInt8.ofNat

def parseIpv4 (cs : List Char) : Option Ipv4 :=
  match (cs.splitOn '.').mapM parseOctet with
  | some [a, b, c, d] => some ⟨a, b, c, d⟩
  | _ => none

/-- The value of a digit in a radix up to 36. -/
def radixDigit (radix : ℕ) (c : Char) : Option ℕ :=
  (if c.isDigit then some (c.toNat - '0'.toNat)
    else if 'a' ≤ c ∧ c ≤ 'z' then some (c.toNat - 'a'.toNat + 10)
    else if 'A' ≤ c ∧ c ≤ 'Z' then some (c.toNat - 'A'.toNat + 10)
    else none).filter (· < radix)

/-- The value of a nonempty text of such digits. -/
def radixDigits (radix : ℕ) (cs : List Char) : Option ℕ :=
  if cs = [] then none
  else (cs.mapM (radixDigit radix)).map fun ds => ds.foldl (fun n d => n * radix + d) 0

/-- One group of an IPv6 address. -/
def parseGroup (cs : List Char) : Option UInt16 :=
  if cs.length ≤ 4 then (radixDigits 16 cs).map UInt16.ofNat else none

/-- Groups, the last of which may be written as an IPv4 address. -/
def parseGroups : List (List Char) → Option (List UInt16)
  | [] => some []
  | [last] =>
    match parseIpv4 last with
    | some ip => some [ip.a.toUInt16 <<< 8 ||| ip.b.toUInt16, ip.c.toUInt16 <<< 8 ||| ip.d.toUInt16]
    | none => (parseGroup last).map fun g => [g]
  | cs :: rest => (parseGroup cs).bind fun g => (parseGroups rest).map fun gs => g :: gs

/-- The text around the first `::`. -/
def splitDouble : List Char → Option (List Char × List Char)
  | ':' :: ':' :: rest => some ([], rest)
  | c :: rest => (splitDouble rest).map fun (head, tail) => (c :: head, tail)
  | [] => none

/-- The groups of a text that may be empty. -/
def colonSeparated (cs : List Char) : List (List Char) := if cs = [] then [] else cs.splitOn ':'

def Ipv6.ofSegments (segments : List UInt16) : Option Ipv6 :=
  if h : segments.length = 8 then some ⟨segments, h⟩ else none

def parseIpv6 (cs : List Char) : Option Ipv6 :=
  match splitDouble cs with
  | none => (parseGroups (cs.splitOn ':')).bind Ipv6.ofSegments
  | some (head, tail) =>
    ((colonSeparated head).mapM parseGroup).bind fun before =>
      (parseGroups (colonSeparated tail)).bind fun after =>
        if before.length + after.length ≤ 7 then
          Ipv6.ofSegments (before ++ List.replicate (8 - before.length - after.length) 0 ++ after)
        else none

/-- `str::parse::<IpAddr>` -/
def parseIpAddr (cs : List Char) : Option IpAddr :=
  match parseIpv4 cs with
  | some ip => some (.v4 ip)
  | none => (parseIpv6 cs).map .v6

/-! ### Printing -/

/-- `a.b.c.d` -/
def Ipv4.dotted (ip : Ipv4) : List Char :=
  ['.'].intercalate
    [Nat.toDigits 10 ip.a.toNat, Nat.toDigits 10 ip.b.toNat, Nat.toDigits 10 ip.c.toNat,
      Nat.toDigits 10 ip.d.toNat]

/-! ### What parses and what does not -/

theorem parseOctet_toDigits (n : UInt8) : parseOctet (Nat.toDigits 10 n.toNat) = some n := by
  have hdigits : digits? (Nat.toDigits 10 n.toNat) = some n.toNat := by
    simpa [decimal] using digits?_decimal 0 n.toNat
  rw [parseOctet, if_neg fun h => h.2 (length_toDigits_of_head? h.1), hdigits, Option.filter_some,
    if_pos (decide_eq_true n.toNat_lt), Option.map_some, UInt8.ofNat_toNat]

theorem dot_not_mem_toDigits (n : ℕ) : '.' ∉ Nat.toDigits 10 n := by
  intro h
  have hmem : '.' ∈ decimal 0 n := by simpa [decimal] using h
  exact absurd (isDigit_of_mem_decimal hmem) (by decide)

theorem parseIpv4_dotted (ip : Ipv4) : parseIpv4 ip.dotted = some ip := by
  rw [parseIpv4, Ipv4.dotted, List.splitOn_intercalate]
  · simp [parseOctet_toDigits]
  · simp [dot_not_mem_toDigits]
  · simp

theorem parseIpAddr_dotted (ip : Ipv4) : parseIpAddr ip.dotted = some (.v4 ip) := by
  rw [parseIpAddr, parseIpv4_dotted]

/-- An octet is a text of digits. -/
theorem all_isDigit_of_parseOctet {cs : List Char} {n : UInt8} (h : parseOctet cs = some n) :
    cs ≠ [] ∧ cs.all Char.isDigit = true := by
  unfold parseOctet at h
  split at h
  · cases h
  · obtain ⟨m, hm, _⟩ := Option.map_eq_some_iff.mp h
    have hdigits := (Option.filter_eq_some_iff.mp hm).1
    unfold digits? at hdigits
    split at hdigits
    · next hcs => exact hcs
    · cases hdigits

theorem forall_of_mapM {α β : Type*} {f : α → Option β} {l : List α} {bs : List β}
    (h : l.mapM f = some bs) : ∀ a ∈ l, ∃ b, f a = some b := by
  induction l generalizing bs with
  | nil =>
    intro a ha
    cases ha
  | cons a l ih =>
    rw [List.mapM_cons] at h
    obtain ⟨b, hb, h⟩ := Option.bind_eq_some_iff.mp h
    obtain ⟨rest, hrest, _⟩ := Option.bind_eq_some_iff.mp h
    intro a' ha'
    rcases List.mem_cons.mp ha' with rfl | hmem
    · exact ⟨b, hb⟩
    · exact ih hrest a' hmem

/-- Every part of an IPv4 address is a text of digits. -/
theorem parts_of_parseIpv4 {cs : List Char} {ip : Ipv4} (h : parseIpv4 cs = some ip) :
    ∀ part ∈ cs.splitOn '.', part ≠ [] ∧ part.all Char.isDigit = true := by
  unfold parseIpv4 at h
  split at h
  · next heq =>
    intro part hpart
    obtain ⟨n, hn⟩ := forall_of_mapM heq part hpart
    exact all_isDigit_of_parseOctet hn
  · cases h

theorem splitOn_head {c d : Char} (cs : List Char) (h : d ≠ c) :
    ∃ part rest, (d :: cs).splitOn c = (d :: part) :: rest := by
  rw [List.splitOn_cons_eq_if_modifyHead, if_neg (by simpa using h)]
  obtain ⟨part, rest, heq⟩ := List.exists_cons_of_ne_nil (List.splitOn_ne_nil c cs)
  exact ⟨part, rest, by rw [heq]; rfl⟩

theorem parseIpv4_bracket (cs : List Char) : parseIpv4 ('[' :: cs) = none := by
  rw [Option.eq_none_iff_forall_ne_some]
  intro ip h
  obtain ⟨part, rest, heq⟩ := splitOn_head cs (by decide : '[' ≠ '.')
  have hpart := parts_of_parseIpv4 h ('[' :: part) (by rw [heq]; exact List.mem_cons_self)
  have hbracket := List.all_eq_true.mp hpart.2 '[' List.mem_cons_self
  exact absurd hbracket (by decide)

/-- The part behind a trailing dot is empty. -/
theorem parseIpv4_trailing_dot (cs : List Char) : parseIpv4 (cs ++ ['.']) = none := by
  rw [Option.eq_none_iff_forall_ne_some]
  intro ip h
  have hmem : [] ∈ (cs ++ ['.']).splitOn '.' := by
    rw [List.splitOn_append_cons_self, List.splitOn_nil]
    exact List.mem_append_right _ (List.mem_singleton.mpr rfl)
  exact (parts_of_parseIpv4 h [] hmem).1 rfl

theorem parseGroup_bracket (cs : List Char) : parseGroup ('[' :: cs) = none := by
  have hdigit : radixDigit 16 '[' = none := by decide
  unfold parseGroup radixDigits
  split
  · rw [if_neg (by simp), List.mapM_cons, hdigit]
    rfl
  · rfl

theorem parseGroups_bracket (cs : List Char) (rest : List (List Char)) :
    parseGroups (('[' :: cs) :: rest) = none := by
  cases rest with
  | nil => rw [parseGroups, parseIpv4_bracket, parseGroup_bracket]; rfl
  | cons next rest =>
    rw [parseGroups, parseGroup_bracket]
    · rfl
    · simp

theorem splitDouble_bracket {cs head tail : List Char}
    (h : splitDouble ('[' :: cs) = some (head, tail)) : ∃ before, head = '[' :: before := by
  rw [splitDouble] at h
  · obtain ⟨⟨before, after⟩, _, heq⟩ := Option.map_eq_some_iff.mp h
    rw [Prod.mk.injEq] at heq
    exact ⟨before, heq.1.symm⟩
  · rintro rest ⟨⟩

theorem parseIpv6_bracket (cs : List Char) : parseIpv6 ('[' :: cs) = none := by
  unfold parseIpv6
  split
  · obtain ⟨part, rest, heq⟩ := splitOn_head cs (by decide : '[' ≠ ':')
    rw [heq, parseGroups_bracket]
    rfl
  · next head tail hsplit =>
    obtain ⟨before, rfl⟩ := splitDouble_bracket hsplit
    obtain ⟨part, rest, heq⟩ := splitOn_head before (by decide : '[' ≠ ':')
    rw [colonSeparated, if_neg (by simp), heq, List.mapM_cons, parseGroup_bracket]
    rfl

/-- A host in brackets does not parse as an address. -/
theorem parseIpAddr_bracket (cs : List Char) : parseIpAddr ('[' :: cs) = none := by
  rw [parseIpAddr, parseIpv4_bracket, parseIpv6_bracket]
  rfl

theorem splitDouble_of_no_colon {cs : List Char} (h : ':' ∉ cs) : splitDouble cs = none := by
  induction cs with
  | nil => rfl
  | cons c cs ih =>
    rw [List.mem_cons, not_or] at h
    rw [splitDouble, ih h.2]
    · rfl
    · rintro rest rfl
      exact absurd rfl h.1

theorem parseIpv6_of_no_colon {cs : List Char} (h : ':' ∉ cs) : parseIpv6 cs = none := by
  rw [parseIpv6, splitDouble_of_no_colon h]
  dsimp only
  rw [List.splitOn_eq_singleton h, parseGroups]
  split
  · rfl
  · cases parseGroup cs <;> rfl

/-- Without a colon, only IPv4 is left. -/
theorem parseIpAddr_of_no_colon {cs : List Char} (h : ':' ∉ cs) :
    parseIpAddr cs = (parseIpv4 cs).map .v4 := by
  rw [parseIpAddr, parseIpv6_of_no_colon h]
  cases parseIpv4 cs <;> rfl

/-! ### The mask of a prefix: its first bits are set, so masking keeps them and clears the others. -/

/-- `MAX << (w - p)`, and 0 for the empty prefix; none if the shift is out of range. -/
def prefixMask (w p : ℕ) : Option (BitVec w) :=
  if p = 0 then some 0
  else if p ≤ w ∧ w - p < w then some (BitVec.allOnes w <<< (w - p))
  else none

section
variable {w p : ℕ} {x y : BitVec w}

/-- No shift is out of range, and the first bits are set. -/
theorem prefixMask_spec (h : p ≤ w) :
    ∃ mask, prefixMask w p = some mask ∧ ∀ i < w, mask.getMsbD i = decide (i < p) := by
  rw [prefixMask]
  split
  · next hzero => exact ⟨0, rfl, fun i _ => by simp [hzero]⟩
  · next hpos =>
    rw [if_pos ⟨h, by omega⟩]
    refine ⟨_, rfl, fun i hi => ?_⟩
    rw [BitVec.getMsbD_shiftLeft, BitVec.getMsbD_allOnes]
    exact decide_eq_decide.mpr (by omega)

/-- Masked alike, two words agree in the bits of the prefix. -/
theorem and_eq_and_iff {mask : BitVec w} (hp : p ≤ w)
    (h : ∀ i < w, mask.getMsbD i = decide (i < p)) :
    x &&& mask = y &&& mask ↔ ∀ i < p, x.getMsbD i = y.getMsbD i := by
  constructor
  · intro heq i hi
    have hbit := congrArg (fun z => BitVec.getMsbD z i) heq
    simpa [h i (hi.trans_le hp), hi] using hbit
  · intro hagree
    refine BitVec.eq_of_getMsbD_eq fun i hi => ?_
    rw [BitVec.getMsbD_and, BitVec.getMsbD_and, h i hi]
    by_cases hlt : i < p
    · rw [hagree i hlt]
    · rw [decide_eq_false hlt, Bool.and_false, Bool.and_false]

end

end SorobanPulse.Lib
