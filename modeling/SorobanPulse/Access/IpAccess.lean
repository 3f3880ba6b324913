import SorobanPulse.Events.PaginationParams
import SorobanPulse.Lib.Decimal
import SorobanPulse.Lib.IpAddr

/-! `ip_access_control_middleware`: requests are let through by the address of the client.

        IP_DENYLIST non-empty ──▶ IpDenyListRule    blocks what is listed
        else IP_ALLOWLIST     ──▶ IpAllowListRule   blocks what is not listed
        else                  ──▶ no rule

    Of two lists only the deny list is looked at, so an address on neither is let through. -/

namespace SorobanPulse.Access
open Lib Events

/-! ### Addresses and blocks -/

/-- `u32::from(ip)` -/
def toU32 (ip : Ipv4) : BitVec 32 :=
  ip.a.toBitVec ++ ip.b.toBitVec ++ ip.c.toBitVec ++ ip.d.toBitVec

/-- `u128::from(ip)` -/
def toU128 (ip : Ipv6) : BitVec 128 :=
  ip.segments.foldl (fun n s => n <<< 16 ||| s.toBitVec.setWidth 128) 0

/-- 32 or 128, by the family. -/
def width : IpAddr → ℕ
  | .v4 _ => 32
  | .v6 _ => 128

structure IpFilterEntry where
  network : IpAddr
  prefixLen : ℕ
  prefixLen_le : prefixLen ≤ width network
  deriving DecidableEq

/-- `entry.split_once('/')` -/
def splitOnce (entry : String) : Option (String × String) :=
  let rest := entry.toList.dropWhile (· ≠ '/')
  if rest = [] then none
  else some (String.ofList (entry.toList.takeWhile (· ≠ '/')), String.ofList rest.tail)

def IpFilterEntry.parse (entry : String) : Option IpFilterEntry :=
  match splitOnce entry with
  | some (addr, len) => do
    let network ← parseIpAddr (trim addr).toList
    let prefixLen ← parseUnsigned 256 (trim len).toList
    if h : prefixLen ≤ width network then some ⟨network, prefixLen, h⟩ else none
  | none => (parseIpAddr (trim entry).toList).map fun network => ⟨network, width network, le_rfl⟩

/-- `none` is a shift that is out of range. -/
def IpFilterEntry.contains (entry : IpFilterEntry) (candidate : IpAddr) : Option Bool :=
  match entry.network, candidate with
  | .v4 net, .v4 addr =>
    (prefixMask 32 entry.prefixLen).map fun mask => toU32 net &&& mask = toU32 addr &&& mask
  | .v6 net, .v6 addr =>
    (prefixMask 128 entry.prefixLen).map fun mask => toU128 net &&& mask = toU128 addr &&& mask
  | _, _ => some false

/-- Entries that do not parse are skipped. -/
def parseIpFilterList (entries : List String) : List IpFilterEntry :=
  entries.filterMap IpFilterEntry.parse

/-- `entries.iter().any(|entry| entry.contains(candidate))` -/
def containsAny (candidate : IpAddr) : List IpFilterEntry → Option Bool
  | [] => some false
  | entry :: rest => do
    if ← entry.contains candidate then return true
    else containsAny candidate rest

/-! ### Rules -/

inductive AccessDecision where
  | allow
  | deny (reason : String)
  deriving DecidableEq

/-- `IpDenyListRule`, `IpAllowListRule` -/
inductive PolicyRule where
  | ipDenyList (denied : List IpFilterEntry)
  | ipAllowList (allowed : List IpFilterEntry)

def PolicyRule.evaluate (rule : PolicyRule) (ipAddress : String) : Option (Option AccessDecision) :=
  match rule, parseIpAddr ipAddress.toList with
  | .ipDenyList _, none => some none
  | .ipDenyList denied, some candidate => do
    if ← containsAny candidate denied then
      return some (.deny s!"IP address {ipAddress} is blocked")
    else return none
  | .ipAllowList _, none => some (some (.deny "Unparseable client IP address"))
  | .ipAllowList allowed, some candidate => do
    if ← containsAny candidate allowed then return none
    else return some (.deny s!"IP address {ipAddress} is not on the allow list")

/-! ### The middleware -/

structure Config where
  ipDenylist : List String
  ipAllowlist : List String

/-- The headers that are read, where they are text. -/
structure Headers where
  xForwardedFor : Option String := none
  xRealIp : Option String := none

def extractClientIp (headers : Headers) : String :=
  match headers.xForwardedFor, headers.xRealIp with
  | some s, _ => (commaList s).headD ""
  | none, some s => trim s
  | none, none => "unknown"

inductive Outcome where
  | next
  /-- 403, with a header. -/
  | forbidden (header : String × String)
  deriving DecidableEq

def Config.rule (cfg : Config) : Option PolicyRule :=
  if !cfg.ipDenylist.isEmpty then some (.ipDenyList (parseIpFilterList cfg.ipDenylist))
  else if !cfg.ipAllowlist.isEmpty then some (.ipAllowList (parseIpFilterList cfg.ipAllowlist))
  else none

/-- `none` is a panic. -/
def ipAccessControlMiddleware (cfg : Config) (headers : Headers) : Option Outcome :=
  match cfg.rule with
  | none => some .next
  | some rule => do
    match ← rule.evaluate (extractClientIp headers) with
    | some (.deny _) => return .forbidden ("X-Access-Denied-Reason", "ip-policy")
    | _ => return .next

/-! ### What the lists are for -/

/-- The bit of an address, the highest first. -/
def bit (a : IpAddr) (i : ℕ) : Bool :=
  match a with
  | .v4 ip => (toU32 ip).getMsbD i
  | .v6 ip => (toU128 ip).getMsbD i

/-- An address lies in a block of its family with which it agrees in the first bits. -/
def LiesIn (a : IpAddr) (entry : IpFilterEntry) : Prop :=
  width a = width entry.network ∧ ∀ i < entry.prefixLen, bit entry.network i = bit a i

def Listed (entries : List String) (a : IpAddr) : Prop :=
  ∃ entry ∈ parseIpFilterList entries, LiesIn a entry

/-- On no deny list, and on the allow list if there is one. -/
def Permitted (cfg : Config) (a : IpAddr) : Prop :=
  ¬Listed cfg.ipDenylist a ∧ (cfg.ipAllowlist ≠ [] → Listed cfg.ipAllowlist a)

/-- Each entry is an address or a block. -/
def WellFormed (entries : List String) : Prop := ∀ entry ∈ entries, (IpFilterEntry.parse entry).isSome

/-- A request of a client with this address. -/
def ClientAt (headers : Headers) (a : IpAddr) : Prop :=
  parseIpAddr (extractClientIp headers).toList = some a

def Passes (cfg : Config) (headers : Headers) : Prop :=
  ipAccessControlMiddleware cfg headers = some .next

section
variable {cfg : Config} {headers : Headers} {a : IpAddr}

/-- An entry has the addresses that lie in its block, and no shift is out of range. -/
theorem contains_spec (entry : IpFilterEntry) (a : IpAddr) :
    ∃ b, entry.contains a = some b ∧ (b = true ↔ LiesIn a entry) := by
  obtain ⟨network, prefixLen, hle⟩ := entry
  cases network with
  | v4 net =>
    cases a with
    | v4 addr =>
      have hle32 : prefixLen ≤ 32 := hle
      obtain ⟨mask, hmask, hbits⟩ := prefixMask_spec hle32
      refine ⟨_, congrArg (Option.map _) hmask, ?_⟩
      rw [decide_eq_true_iff, and_eq_and_iff hle32 hbits]
      exact (and_iff_right rfl).symm
    | v6 addr =>
      exact ⟨false, rfl, iff_of_false nofun fun h => absurd h.1 (show (128 : ℕ) ≠ 32 by decide)⟩
  | v6 net =>
    cases a with
    | v4 addr =>
      exact ⟨false, rfl, iff_of_false nofun fun h => absurd h.1 (show (32 : ℕ) ≠ 128 by decide)⟩
    | v6 addr =>
      have hle128 : prefixLen ≤ 128 := hle
      obtain ⟨mask, hmask, hbits⟩ := prefixMask_spec hle128
      refine ⟨_, congrArg (Option.map _) hmask, ?_⟩
      rw [decide_eq_true_iff, and_eq_and_iff hle128 hbits]
      exact (and_iff_right rfl).symm

theorem containsAny_spec (entries : List IpFilterEntry) (a : IpAddr) :
    ∃ b, containsAny a entries = some b ∧ (b = true ↔ ∃ entry ∈ entries, LiesIn a entry) := by
  induction entries with
  | nil => exact ⟨false, rfl, by simp⟩
  | cons entry rest ih =>
    obtain ⟨b, hb, hlies⟩ := contains_spec entry a
    obtain ⟨b', hb', hrest⟩ := ih
    rw [containsAny, hb]
    cases b with
    | true =>
      refine ⟨true, rfl, iff_of_true rfl ⟨entry, List.mem_cons_self, hlies.mp rfl⟩⟩
    | false =>
      refine ⟨b', hb', ?_⟩
      have hnot : ¬LiesIn a entry := fun h => by cases hlies.mpr h
      rw [hrest, List.exists_mem_cons_iff, or_iff_right hnot]

theorem evaluate_ipDenyList {ip : String} {denied : List IpFilterEntry} {b : Bool}
    (h : parseIpAddr ip.toList = some a) (hb : containsAny a denied = some b) :
    (PolicyRule.ipDenyList denied).evaluate ip =
      some (if b then some (.deny s!"IP address {ip} is blocked") else none) := by
  simp only [PolicyRule.evaluate, h, hb]
  cases b <;> rfl

theorem evaluate_ipAllowList {ip : String} {allowed : List IpFilterEntry} {b : Bool}
    (h : parseIpAddr ip.toList = some a) (hb : containsAny a allowed = some b) :
    (PolicyRule.ipAllowList allowed).evaluate ip =
      some (if b then none else some (.deny s!"IP address {ip} is not on the allow list")) := by
  simp only [PolicyRule.evaluate, h, hb]
  cases b <;> rfl

/-- A deny list lets through what is not on it. -/
theorem passes_denylist (hdeny : cfg.ipDenylist ≠ []) (h : ClientAt headers a) :
    Passes cfg headers ↔ ¬Listed cfg.ipDenylist a := by
  have hrule : cfg.rule = some (.ipDenyList (parseIpFilterList cfg.ipDenylist)) :=
    if_pos (by simp [hdeny])
  obtain ⟨b, hb, hlisted⟩ := containsAny_spec (parseIpFilterList cfg.ipDenylist) a
  rw [Passes, ipAccessControlMiddleware, hrule, Listed, ← hlisted]
  dsimp only
  rw [evaluate_ipDenyList h hb]
  cases b <;> simp

/-- An allow list lets through what is on it, if there is no deny list. -/
theorem passes_allowlist (hdeny : cfg.ipDenylist = []) (hallow : cfg.ipAllowlist ≠ [])
    (h : ClientAt headers a) : Passes cfg headers ↔ Listed cfg.ipAllowlist a := by
  have hrule : cfg.rule = some (.ipAllowList (parseIpFilterList cfg.ipAllowlist)) := by
    rw [Config.rule, if_neg (by simp [hdeny]), if_pos (by simp [hallow])]
  obtain ⟨b, hb, hlisted⟩ := containsAny_spec (parseIpFilterList cfg.ipAllowlist) a
  rw [Passes, ipAccessControlMiddleware, hrule, Listed, ← hlisted]
  dsimp only
  rw [evaluate_ipAllowList h hb]
  cases b <;> simp

theorem passes_no_list (hdeny : cfg.ipDenylist = []) (hallow : cfg.ipAllowlist = []) :
    Passes cfg headers := by
  rw [Passes, ipAccessControlMiddleware, Config.rule, hdeny, hallow]
  rfl

theorem not_listed_nil (a : IpAddr) : ¬Listed [] a := by
  rintro ⟨entry, hmem, -⟩
  cases hmem

/-- A client is treated as the lists say, unless there are both and it is on neither. -/
theorem passes_iff_permitted (h : ClientAt headers a) :
    (Passes cfg headers ↔ Permitted cfg a) ↔
      (cfg.ipDenylist = [] ∨ cfg.ipAllowlist = [] ∨ Listed cfg.ipDenylist a ∨
        Listed cfg.ipAllowlist a) := by
  by_cases hdeny : cfg.ipDenylist = []
  · refine iff_of_true ?_ (.inl hdeny)
    have hnot : ¬Listed cfg.ipDenylist a := by
      rw [hdeny]
      exact not_listed_nil a
    by_cases hallow : cfg.ipAllowlist = []
    · exact iff_of_true (passes_no_list hdeny hallow) ⟨hnot, fun hne => absurd hallow hne⟩
    · rw [passes_allowlist hdeny hallow h, Permitted]
      exact ⟨fun hlisted => ⟨hnot, fun _ => hlisted⟩, fun hpermitted => hpermitted.2 hallow⟩
  · rw [passes_denylist hdeny h, or_iff_right hdeny, Permitted]
    tauto

end

/-! ### More entries on the deny list -/

section
variable {cfg : Config} {headers : Headers} {a : IpAddr}

/-- Entries added to the deny list let no other client through. -/
def Monotone (cfg : Config) : Prop :=
  ∀ (more : List String) (headers : Headers) (a : IpAddr), cfg.ipDenylist ⊆ more → WellFormed more →
    ClientAt headers a → Passes { cfg with ipDenylist := more } headers → Passes cfg headers

theorem Listed.mono {entries more : List String} (hsub : entries ⊆ more) (h : Listed entries a) :
    Listed more a := by
  obtain ⟨entry, hmem, hlies⟩ := h
  obtain ⟨text, htext, hparse⟩ := List.mem_filterMap.mp hmem
  exact ⟨entry, List.mem_filterMap.mpr ⟨text, hsub htext, hparse⟩, hlies⟩

theorem listed_singleton {text : String} {entry : IpFilterEntry}
    (h : IpFilterEntry.parse text = some entry) : Listed [text] a ↔ LiesIn a entry := by
  rw [Listed, parseIpFilterList, List.filterMap_cons, h]
  simp

/-- No address lies in the blocks of two addresses. -/
theorem exists_not_listed (a : IpAddr) :
    ∃ text, (IpFilterEntry.parse text).isSome ∧ ¬Listed [text] a := by
  have hzero : IpFilterEntry.parse "0.0.0.0" = some ⟨.v4 ⟨0, 0, 0, 0⟩, 32, le_rfl⟩ := by
    decide
  have hone : IpFilterEntry.parse "0.0.0.1" = some ⟨.v4 ⟨0, 0, 0, 1⟩, 32, le_rfl⟩ := by
    decide
  by_cases hlisted : Listed ["0.0.0.1"] a
  · refine ⟨"0.0.0.0", by rw [hzero]; rfl, fun hlisted' => ?_⟩
    have hbit := ((listed_singleton hone).mp hlisted).2 31 (by decide)
    have hbit' := ((listed_singleton hzero).mp hlisted').2 31 (by decide)
    exact absurd (hbit'.trans hbit.symm) (by decide)
  · exact ⟨"0.0.0.1", by rw [hone]; rfl, hlisted⟩

/-- It is so for a deny list that has entries already; and otherwise, if there is no allow list, or
    every client is on it. -/
theorem monotone_iff : Monotone cfg ↔
    (cfg.ipDenylist ≠ [] ∨ cfg.ipAllowlist = [] ∨
      ∀ headers a, ClientAt headers a → Listed cfg.ipAllowlist a) := by
  constructor
  · intro h
    by_contra hcond
    rw [not_or, not_or, not_not] at hcond
    obtain ⟨hdeny, hallow, hclient⟩ := hcond
    obtain ⟨headers, hheaders⟩ := not_forall.mp hclient
    obtain ⟨a, ha⟩ := not_forall.mp hheaders
    obtain ⟨hat, hnot⟩ := Classical.not_imp.mp ha
    obtain ⟨entry, hparse, hother⟩ := exists_not_listed a
    have hpass : Passes { cfg with ipDenylist := [entry] } headers :=
      (passes_denylist (List.cons_ne_nil _ _) hat).mpr hother
    refine hnot ((passes_allowlist hdeny hallow hat).mp (h [entry] headers a ?_ ?_ hat hpass))
    · rw [hdeny]
      exact List.nil_subset _
    · simpa [WellFormed] using hparse
  · intro hcond more headers a hsub _ hat hpass
    by_cases hdeny : cfg.ipDenylist = []
    · rcases hcond with hne | hallow | hall
      · exact absurd hdeny hne
      · exact passes_no_list hdeny hallow
      · by_cases hallow : cfg.ipAllowlist = []
        · exact passes_no_list hdeny hallow
        · exact (passes_allowlist hdeny hallow hat).mpr (hall headers a hat)
    · have hmore : more ≠ [] := fun hnil => hdeny (List.subset_nil.mp (hnil ▸ hsub))
      have hnot : ¬Listed more a := (passes_denylist hmore hat).mp hpass
      exact (passes_denylist hdeny hat).mpr fun hlisted => hnot (hlisted.mono hsub)

end

/-- A client is let through exactly if the lists permit it, unless there are both and it is on
    neither; and entries added to the deny list let nobody else through, unless it was empty and the
    allow list has not every client. -/
theorem ipAccess_iff (cfg : Config) :
    (∀ headers a, ClientAt headers a → ((Passes cfg headers ↔ Permitted cfg a) ↔
      (cfg.ipDenylist = [] ∨ cfg.ipAllowlist = [] ∨ Listed cfg.ipDenylist a ∨
        Listed cfg.ipAllowlist a))) ∧
    (Monotone cfg ↔ (cfg.ipDenylist ≠ [] ∨ cfg.ipAllowlist = [] ∨
      ∀ headers a, ClientAt headers a → Listed cfg.ipAllowlist a)) :=
  ⟨fun _ _ => passes_iff_permitted, monotone_iff⟩

/-! ### A client on neither list -/

def bothLists : Config := ⟨["203.0.113.0/24"], ["10.0.0.0/8"]⟩

def stranger : Headers := { xForwardedFor := some "8.8.8.8" }

/-- Neither list is malformed, and the client is let through against the allow list. -/
theorem not_permitted_stranger :
    WellFormed bothLists.ipDenylist ∧ WellFormed bothLists.ipAllowlist ∧
    ClientAt stranger (.v4 ⟨8, 8, 8, 8⟩) ∧ Passes bothLists stranger ∧
    ¬Permitted bothLists (.v4 ⟨8, 8, 8, 8⟩) := by
  have hparse : IpFilterEntry.parse "10.0.0.0/8" = some ⟨.v4 ⟨10, 0, 0, 0⟩, 8, by decide⟩ := by
    decide
  refine ⟨?_, ?_, ?_, ?_, fun h => ?_⟩
  · rw [WellFormed]
    decide
  · rw [WellFormed]
    decide
  · rw [ClientAt]
    decide
  · rw [Passes]
    decide
  · have hlisted := h.2 (List.cons_ne_nil _ _)
    have hbit := ((listed_singleton hparse).mp hlisted).2 6 (by decide)
    exact absurd hbit (by decide)

end SorobanPulse.Access
