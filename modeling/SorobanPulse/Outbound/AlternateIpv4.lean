import SorobanPulse.Outbound.SsrfGuard

/-! IPv4 addresses whose octets are written in octal or hexadecimal.

        0300 . 168 . 0x0 . 1      denotes  192.168.0.1
        192  .  0  .  0  . 0      what the loop makes of it

    The loop passes over a decimal part as "already handled", and its octet stays zero. An address
    is read as what it denotes exactly if every decimal part is zero. -/

namespace SorobanPulse.Outbound
open Lib

inductive Radix where
  | Decimal
  | Octal
  | Hexadecimal
  deriving DecidableEq

/-- The text is one of the octet in this notation. -/
def Radix.Renders (octet : UInt8) (text : List Char) : Radix → Prop
  | .Decimal => text = Nat.toDigits 10 octet.toNat
  | .Octal => ∃ ds, text = '0' :: ds ∧ radixDigits 8 ds = some octet.toNat
  | .Hexadecimal => ∃ x ds, (x = 'x' ∨ x = 'X') ∧ text = '0' :: x :: ds ∧
      radixDigits 16 ds = some octet.toNat

/-- An octet and a text of it. -/
structure OctetText where
  radix : Radix
  octet : UInt8
  text : List Char
  renders : radix.Renders octet text

/-! ### Texts of digits -/

theorem radixDigit_of_mem {r n : ℕ} {ds : List Char} (h : radixDigits r ds = some n) :
    ∀ c ∈ ds, (radixDigit r c).isSome = true := by
  unfold radixDigits at h
  split at h
  · cases h
  · obtain ⟨values, hvalues, -⟩ := Option.map_eq_some_iff.mp h
    intro c hc
    obtain ⟨v, hv⟩ := forall_of_mapM hvalues c hc
    rw [hv]
    rfl

theorem ne_nil_of_radixDigits {r n : ℕ} {ds : List Char} (h : radixDigits r ds = some n) :
    ds ≠ [] := by
  rintro rfl
  rw [radixDigits, if_pos rfl] at h
  cases h

/-- A text of digits starts with no sign. -/
theorem fromStrRadix_of_digits {r : ℕ} {octet : UInt8} {ds : List Char}
    (hplus : radixDigit r '+' = none) (h : radixDigits r ds = some octet.toNat) :
    alternatePart.fromStrRadix r ds = some octet := by
  have hhead : ds.head? ≠ some '+' := by
    intro hhead
    have := radixDigit_of_mem h '+' (List.mem_of_head? hhead)
    rw [hplus] at this
    cases this
  rw [alternatePart.fromStrRadix, if_neg hhead, h, Option.filter_some,
    if_pos (decide_eq_true octet.toNat_lt), Option.map_some, UInt8.ofNat_toNat]

/-- What the loop makes of a part. -/
def OctetText.kept (part : OctetText) : UInt8 := if part.radix = .Decimal then 0 else part.octet

theorem alternatePart_text (part : OctetText) : alternatePart part.text = some part.kept := by
  obtain ⟨radix, octet, text, hrenders⟩ := part
  cases radix with
  | Decimal =>  -- in this branch a decimal part counts as zero, whatever it says
    have hall : ∀ n < 256, alternatePart (Nat.toDigits 10 n) = some 0 := by decide +kernel
    rw [OctetText.kept, if_pos rfl, ← hall octet.toNat octet.toNat_lt]
    exact congrArg alternatePart hrenders
  | Octal =>
    obtain ⟨ds, rfl, hds⟩ := hrenders
    rw [OctetText.kept, if_neg Radix.noConfusion]
    have hne := ne_nil_of_radixDigits hds
    have hx : ¬(('0' :: ds).take 2 = ['0', 'x'] ∨ ('0' :: ds).take 2 = ['0', 'X']) := by
      cases ds with  -- a leading zero is no hexadecimal prefix, as x is no octal digit
      | nil => exact absurd rfl hne
      | cons d ds =>
        have hd := radixDigit_of_mem hds d List.mem_cons_self
        rintro (h | h)
        · cases h
          revert hd
          decide
        · cases h
          revert hd
          decide
    have hlength : 1 < ('0' :: ds).length := by
      rw [List.length_cons]
      have := List.length_pos_iff.mpr hne
      omega
    rw [alternatePart, if_neg hx, if_pos ⟨rfl, hlength⟩]
    exact fromStrRadix_of_digits (by decide) hds
  | Hexadecimal =>
    obtain ⟨x, ds, hx, rfl, hds⟩ := hrenders
    rw [OctetText.kept, if_neg Radix.noConfusion, alternatePart, if_pos]
    · exact fromStrRadix_of_digits (by decide) hds
    · rcases hx with rfl | rfl
      · exact .inl rfl
      · exact .inr rfl

/-- The characters that a part may have. -/
def isPartChar (c : Char) : Bool := (radixDigit 16 c).isSome || c == 'x' || c == 'X'

theorem isPartChar_of_digit {r : ℕ} (hr : r ≤ 16) {c : Char} (h : (radixDigit r c).isSome = true) :
    isPartChar c = true := by
  obtain ⟨v, hv⟩ := Option.isSome_iff_exists.mp h
  obtain ⟨hvalue, hlt⟩ := Option.filter_eq_some_iff.mp hv
  have : radixDigit 16 c = some v := by
    refine Option.filter_eq_some_iff.mpr ⟨hvalue, ?_⟩
    rw [decide_eq_true_eq] at hlt ⊢
    omega
  rw [isPartChar, this]
  rfl

theorem isPartChar_of_isDigit {c : Char} (h : c.isDigit = true) : isPartChar c = true := by
  have hle : c.toNat ≤ 57 := by
    rw [Char.isDigit, Bool.and_eq_true, decide_eq_true_eq, decide_eq_true_eq] at h
    exact h.2
  have hlt : c.toNat - '0'.toNat < 16 := by
    rw [show '0'.toNat = 48 from rfl]
    omega
  rw [isPartChar, radixDigit, if_pos h, Option.filter_some, if_pos (decide_eq_true hlt)]
  rfl

theorem isPartChar_of_mem (part : OctetText) : ∀ c ∈ part.text, isPartChar c = true := by
  obtain ⟨radix, octet, text, hrenders⟩ := part
  cases radix with
  | Decimal =>
    intro c hc
    have htext : text = Nat.toDigits 10 octet.toNat := hrenders
    have hdigit : c ∈ text := hc
    rw [htext] at hdigit
    exact isPartChar_of_isDigit (Nat.isDigit_of_mem_toDigits (by omega) (by omega) hdigit)
  | Octal =>
    obtain ⟨ds, rfl, hds⟩ := hrenders
    intro c hc
    rcases List.mem_cons.mp hc with rfl | hc
    · decide
    · exact isPartChar_of_digit (by omega) (radixDigit_of_mem hds c hc)
  | Hexadecimal =>
    obtain ⟨x, ds, hx, rfl, hds⟩ := hrenders
    intro c hc
    simp only [List.mem_cons] at hc
    rcases hc with rfl | rfl | hc
    · decide
    · rcases hx with rfl | rfl <;> decide
    · exact isPartChar_of_digit (le_refl _) (radixDigit_of_mem hds c hc)

/-- No decimal parser reads a part in another notation. -/
theorem parseOctet_text {part : OctetText} (h : part.radix ≠ .Decimal) :
    parseOctet part.text = none := by
  obtain ⟨radix, octet, text, hrenders⟩ := part
  have hzero : ∃ ds, ds ≠ [] ∧ text = '0' :: ds := by
    cases radix with
    | Decimal => exact absurd rfl h
    | Octal =>
      obtain ⟨ds, rfl, hds⟩ := hrenders
      exact ⟨ds, ne_nil_of_radixDigits hds, rfl⟩
    | Hexadecimal =>
      obtain ⟨x, ds, -, rfl, -⟩ := hrenders
      exact ⟨x :: ds, List.cons_ne_nil _ _, rfl⟩
  obtain ⟨ds, hne, htext⟩ := hzero
  have hlength : ('0' :: ds).length ≠ 1 := by
    simpa using hne
  change parseOctet text = none
  rw [htext, parseOctet, if_pos ⟨rfl, hlength⟩]

/-! ### Hosts of four parts -/

/-- The parts, joined with dots. -/
def hostText (p q r s : OctetText) : String :=
  String.ofList (['.'].intercalate [p.text, q.text, r.text, s.text])

/-- The address that four parts denote. -/
def denoted (p q r s : OctetText) : Ipv4 := ⟨p.octet, q.octet, r.octet, s.octet⟩

/-- The host is read as the address that it denotes, and judged as its dotted form is. -/
def ReadAsDenoted (p q r s : OctetText) : Prop :=
  tryParseAlternateIpv4 (hostText p q r s) = some (denoted p q r s) ∧
    isSsrfHostname (hostText p q r s) =
      isSsrfHostname (String.ofList (denoted p q r s).dotted)

section
variable {p q r s : OctetText}

theorem splitOn_hostText :
    (hostText p q r s).toList.splitOn '.' = [p.text, q.text, r.text, s.text] := by
  have hdot : ∀ part : OctetText, '.' ∉ part.text := by
    intro part h
    have := isPartChar_of_mem part '.' h
    revert this
    decide
  rw [hostText, String.toList_ofList, List.splitOn_intercalate]
  · simp [hdot]
  · simp

/-- The address that comes out has a zero for every decimal part. -/
theorem tryParseAlternateIpv4_hostText :
    tryParseAlternateIpv4 (hostText p q r s) = some ⟨p.kept, q.kept, r.kept, s.kept⟩ := by
  rw [tryParseAlternateIpv4, splitOn_hostText]
  simp [alternatePart_text]

theorem not_mem_hostText {c : Char} (hc : isPartChar c = false) (hdot : c ≠ '.') :
    c ∉ (hostText p q r s).toList := by
  have htext : ∀ part : OctetText, c ∉ part.text := by
    intro part h
    rw [isPartChar_of_mem part c h] at hc
    cases hc
  rw [hostText, String.toList_ofList]
  simp [htext, hdot]

theorem parseIpAddr_hostText
    (h : ∃ part ∈ [p, q, r, s], part.radix ≠ .Decimal) :
    parseIpAddr (hostText p q r s).toList = none := by
  obtain ⟨part, hpart, hradix⟩ := h
  rw [parseIpAddr_of_no_colon (not_mem_hostText (by decide) (by decide)), Option.map_eq_none_iff,
    Option.eq_none_iff_forall_ne_some]
  intro ip hip
  unfold parseIpv4 at hip
  rw [splitOn_hostText] at hip
  split at hip
  · next heq =>
    have hmem : part.text ∈ [p.text, q.text, r.text, s.text] := by
      have := List.mem_map_of_mem (f := OctetText.text) hpart
      simpa using this
    obtain ⟨n, hn⟩ := forall_of_mapM heq part.text hmem
    rw [parseOctet_text hradix] at hn
    cases hn
  · cases hip

end

/-! ### The verdict on a host -/

section
variable {host : String} {ip : Ipv4}

/-- Of the listed names, those without an `l` are addresses. -/
theorem listed_eq (hl : 'l' ∉ host.toList) (hcolon : ':' ∉ host.toList)
    (h : (isLoopbackName host || isMetadataHost host) = true) :
    host = "127.0.0.1" ∨ host = "169.254.169.254" ∨ host = "169.254.170.2" := by
  have hname : ∀ name : String, 'l' ∈ name.toList ∨ ':' ∈ name.toList → (host == name) = false := by
    intro name hname
    rw [beq_eq_false_iff_ne]
    rintro rfl
    exact hname.elim hl hcolon
  have hsuffix : ∀ suffix : String, 'l' ∈ suffix.toList → endsWith host suffix = false := by
    intro suffix hmem
    rw [endsWith, Bool.eq_false_iff, ne_eq, List.isSuffixOf_iff_suffix]
    exact fun hsuffix => hl (hsuffix.subset hmem)
  rw [isLoopbackName, isMetadataHost, hname "localhost" (by decide), hname "::1" (by decide),
    hname "metadata.google.internal" (by decide), hsuffix ".local" (by decide),
    hsuffix ".localhost" (by decide)] at h
  simp only [Bool.false_or, Bool.or_false, Bool.or_eq_true, beq_iff_eq] at h
  exact h

/-- They parse, and are private. -/
theorem parseIpAddr_of_listed (hl : 'l' ∉ host.toList) (hcolon : ':' ∉ host.toList)
    (h : (isLoopbackName host || isMetadataHost host) = true) :
    ∃ ip, parseIpAddr host.toList = some (.v4 ip) ∧ isPrivateIpOutbound (.v4 ip) = true := by
  rcases listed_eq hl hcolon h with rfl | rfl | rfl
  · exact ⟨_, parseIpAddr_dotted ⟨127, 0, 0, 1⟩, by decide⟩
  · exact ⟨_, parseIpAddr_dotted ⟨169, 254, 169, 254⟩, by decide⟩
  · exact ⟨_, parseIpAddr_dotted ⟨169, 254, 170, 2⟩, by decide⟩

/-- A host that parses as an address is judged by it. -/
theorem isSsrfHostname_of_parse (hl : 'l' ∉ host.toList) (hcolon : ':' ∉ host.toList)
    (hparse : parseIpAddr host.toList = some (.v4 ip)) :
    isSsrfHostname host = isPrivateIpOutbound (.v4 ip) := by
  by_cases hlisted : (isLoopbackName host || isMetadataHost host) = true
  · obtain ⟨_, hlistedParse, hprivate⟩ := parseIpAddr_of_listed hl hcolon hlisted
    cases hparse.symm.trans hlistedParse
    rw [isSsrfHostname, hparse]
    simp [hprivate]
  · rw [Bool.not_eq_true, Bool.or_eq_false_iff] at hlisted
    rw [isSsrfHostname, hlisted.1, hlisted.2, hparse]
    rfl

/-- A host that is read in the alternative notation only is judged by what is read. -/
theorem isSsrfHostname_of_alternate (hl : 'l' ∉ host.toList) (hcolon : ':' ∉ host.toList)
    (hparse : parseIpAddr host.toList = none) (hread : tryParseAlternateIpv4 host = some ip) :
    isSsrfHostname host = isPrivateIpOutbound (.v4 ip) := by
  have hlisted : ¬(isLoopbackName host || isMetadataHost host) = true := by
    intro h
    obtain ⟨_, hlistedParse, -⟩ := parseIpAddr_of_listed hl hcolon h
    cases hparse.symm.trans hlistedParse
  rw [Bool.not_eq_true, Bool.or_eq_false_iff] at hlisted
  rw [isSsrfHostname, hlisted.1, hlisted.2, hparse, hread]
  rfl

theorem isSsrfHostname_dotted (ip : Ipv4) :
    isSsrfHostname (String.ofList ip.dotted) = isPrivateIpOutbound (.v4 ip) := by
  have hmem : ∀ c : Char, c.isDigit = false → c ≠ '.' → c ∉ ip.dotted := by
    intro c hc hdot
    simp [Ipv4.dotted, not_mem_toDigits hc, hdot]
  apply isSsrfHostname_of_parse <;> rw [String.toList_ofList]
  · exact hmem 'l' (by decide) (by decide)
  · exact hmem ':' (by decide) (by decide)
  · exact parseIpAddr_dotted ip

end

/-- What becomes of a mixed host: its verdict is that of the address with zeros in the decimal
    places. -/
theorem isSsrfHostname_hostText {p q r s : OctetText}
    (h : ∃ part ∈ [p, q, r, s], part.radix ≠ .Decimal) :
    isSsrfHostname (hostText p q r s) =
      isPrivateIpOutbound (.v4 ⟨p.kept, q.kept, r.kept, s.kept⟩) :=
  isSsrfHostname_of_alternate (not_mem_hostText (by decide) (by decide))
    (not_mem_hostText (by decide) (by decide)) (parseIpAddr_hostText h)
    tryParseAlternateIpv4_hostText

theorem kept_eq_iff {part : OctetText} :
    part.kept = part.octet ↔ (part.radix = .Decimal → part.octet = 0) := by
  rw [OctetText.kept]
  by_cases h : part.radix = .Decimal
  · simp [h, eq_comm]
  · simp [h]

/-- A host in mixed notation is read as what it denotes exactly if its decimal parts are zero. -/
theorem readAsDenoted_iff (p q r s : OctetText)
    (h : ∃ part ∈ [p, q, r, s], part.radix ≠ .Decimal) :
    ReadAsDenoted p q r s ↔ ∀ part ∈ [p, q, r, s], part.radix = .Decimal → part.octet = 0 := by
  have hkept : (∀ part ∈ [p, q, r, s], part.radix = .Decimal → part.octet = 0) ↔
      (⟨p.kept, q.kept, r.kept, s.kept⟩ : Ipv4) = denoted p q r s := by
    simp [denoted, kept_eq_iff]
  rw [hkept, ReadAsDenoted, tryParseAlternateIpv4_hostText, Option.some.injEq]
  refine and_iff_left_of_imp fun hread => ?_
  rw [isSsrfHostname_hostText h, hread, isSsrfHostname_dotted]

def decimalText (octet : UInt8) : OctetText :=
  ⟨.Decimal, octet, Nat.toDigits 10 octet.toNat, rfl⟩

def hexZero : OctetText :=
  ⟨.Hexadecimal, 0, ['0', 'x', '0'], 'x', ['0'], .inl rfl, rfl, by decide⟩

/-- 0300, that is 192. -/
def octal192 : OctetText :=
  ⟨.Octal, 192, ['0', '3', '0', '0'], ['3', '0', '0'], rfl, by decide⟩

theorem readAsDenoted_zeros : ReadAsDenoted octal192 (decimalText 0) hexZero (decimalText 0) :=
  (readAsDenoted_iff octal192 (decimalText 0) hexZero (decimalText 0) (by decide)).mpr (by decide)

/-- `0300.168.0x0.1` is 192.168.0.1, read as 192.0.0.0 and let through. -/
theorem not_readAsDenoted_private :
    ¬ReadAsDenoted octal192 (decimalText 168) hexZero (decimalText 1) := by
  rintro ⟨hread, -⟩
  rw [tryParseAlternateIpv4_hostText] at hread
  revert hread
  decide

end SorobanPulse.Outbound
