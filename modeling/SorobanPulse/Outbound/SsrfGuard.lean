import SorobanPulse.Outbound.Validators

/-! What the two validators let through.

    An accepted URL should have no internal host. Two kinds slip by: IPv6 addresses, since a text in
    brackets never parses as an address, and internal names with a trailing dot. Nor do the two
    validators agree: the outbound one knows the shared address space and a metadata name, and it
    reads four labels as an IPv4 address, where a label that does not start with 0 counts as zero:

        hooks.eu.example.com ──try_parse_alternate_ipv4──▶ 0.0.0.0 ──▶ private -/

namespace SorobanPulse.Outbound
open Events Lib

/-! ### Internal hosts -/

def InternalName (name : String) : Prop :=
  name = "localhost" ∨ endsWith name ".local" = true ∨ endsWith name ".localhost" = true

/-- Loopback, private, link-local or unspecified. -/
def InternalIpv4 (ip : Ipv4) : Prop :=
  ip.a = 127 ∨ ip.a = 10 ∨ (ip.a = 172 ∧ 16 ≤ ip.b ∧ ip.b ≤ 31) ∨ (ip.a = 192 ∧ ip.b = 168) ∨
    (ip.a = 169 ∧ ip.b = 254) ∨ ip = ⟨0, 0, 0, 0⟩

/-- The address inside `::ffff:a.b.c.d` -/
def mappedIpv4 (ip : Ipv6) : Option Ipv4 :=
  match ip.segments with
  | [0, 0, 0, 0, 0, 0xffff, high, low] =>
    some ⟨(high >>> 8).toUInt8, high.toUInt8, (low >>> 8).toUInt8, low.toUInt8⟩
  | _ => none

/-- Loopback, unspecified, link-local, unique-local, or an internal address mapped from IPv4. -/
def InternalIpv6 (ip : Ipv6) : Prop :=
  ip.segments = [0, 0, 0, 0, 0, 0, 0, 1] ∨ ip.segments = [0, 0, 0, 0, 0, 0, 0, 0] ∨
    firstSegment ip &&& 0xffc0 = 0xfe80 ∨ firstSegment ip &&& 0xfe00 = 0xfc00 ∨
    ∃ mapped, mappedIpv4 ip = some mapped ∧ InternalIpv4 mapped

/-- A name is internal with or without a trailing dot. -/
def Internal : Host → Prop
  | .domain name => InternalName name ∨ ∃ n, name = n ++ "." ∧ InternalName n
  | .ipv4 ip => InternalIpv4 ip
  | .ipv6 ip => InternalIpv6 ip

/-- An accepted URL has no internal host. -/
def Guards (crate : UrlCrate) (raw : String) (verdict : Except AppError Unit) : Prop :=
  verdict = .ok () → ∀ url host, crate.parse raw = .ok url → url.host = some host → ¬ Internal host

/-- Both validators guard every URL when no prefixes are allowed. -/
def SsrfGuarded (crate : UrlCrate) : Prop :=
  ∀ (setting : Option String) (raw : String) (env : Environment), allowedPrefixes setting = [] →
    Guards crate raw (validateCallbackUrl crate setting raw env) ∧
      Guards crate raw (validateOutboundUrlStatic crate setting raw env [])

/-- A URL that gets as far as its host has no internal IPv6 address, and no internal name with a
    trailing dot that is not refused on other grounds. -/
def NoGap (crate : UrlCrate) (raw : String) (env : Environment) (refused : String → Prop) : Prop :=
  ∀ url, crate.parse raw = .ok url → SchemeAllowed env url.scheme →
    (∀ ip, url.host = some (.ipv6 ip) → ¬ InternalIpv6 ip) ∧
      ∀ n, url.host = some (.domain (n ++ ".")) → InternalName n → refused (n ++ ".")

/-- The outbound validator reads four labels as an IPv4 address. -/
def RefusedOutbound (name : String) : Prop :=
  (∃ ip, tryParseAlternateIpv4 name = some ip ∧ isPrivateIpOutbound (.v4 ip) = true) ∨
    tryParseAlternateIpv4 name = none ∧ looksPrivate name = true

/-! ### Texts of hosts -/

section
variable {crate : UrlCrate} {url : Url} {host : Host} {name : String}

theorem hostStr_eq (h : url.host = some host) : crate.hostStr url = crate.display host := by
  rw [UrlCrate.hostStr, h]
  rfl

/-- A text that ends in a dot or a bracket is none of the listed names. -/
theorem not_listed {c : Char} (hlast : name.toList.getLast? = some c) (hc : c = '.' ∨ c = ']') :
    isLoopbackName name = false ∧ isMetadataHost name = false := by
  have hmem : name.toList.getLast? ∈ [some '.', some ']'] := by
    rcases hc with rfl | rfl
    · rw [hlast]
      exact List.mem_cons_self
    · rw [hlast]
      exact List.mem_cons_of_mem _ List.mem_cons_self
  have hne : ∀ other : String, other.toList.getLast? ∉ [some '.', some ']'] →
      (name == other) = false := by
    intro other hother
    rw [beq_eq_false_iff_ne]
    rintro rfl
    exact hother hmem
  have hend : ∀ suffix : String, suffix.toList ≠ [] →
      suffix.toList.getLast? ∉ [some '.', some ']'] → endsWith name suffix = false := by
    intro suffix hnil hsuffix
    rw [endsWith, Bool.eq_false_iff, ne_eq, List.isSuffixOf_iff_suffix]
    rintro ⟨before, heq⟩
    rw [← heq, List.getLast?_append_of_ne_nil _ hnil] at hmem
    exact hsuffix hmem
  refine ⟨?_, ?_⟩
  · rw [isLoopbackName, hne _ (by decide), hne _ (by decide), hne _ (by decide),
      hend _ (by decide) (by decide), hend _ (by decide) (by decide)]
    rfl
  · rw [isMetadataHost, hne _ (by decide), hne _ (by decide), hne _ (by decide)]
    rfl

theorem getLast?_trailing_dot (n : String) : (n ++ ".").toList.getLast? = some '.' := by
  rw [String.toList_append]
  exact List.getLast?_concat

theorem isSsrfHost_trailing_dot {n : String} (hcolon : ':' ∉ (n ++ ".").toList) :
    isSsrfHost (n ++ ".") = looksPrivate (n ++ ".") := by
  have hparse : parseIpAddr (n ++ ".").toList = none := by
    rw [parseIpAddr_of_no_colon hcolon, String.toList_append]
    exact congrArg (Option.map _) (parseIpv4_trailing_dot n.toList)
  rw [isSsrfHost, (not_listed (getLast?_trailing_dot n) (.inl rfl)).1, hparse]
  rfl

theorem isSsrfHostname_trailing_dot {n : String} (hcolon : ':' ∉ (n ++ ".").toList) :
    isSsrfHostname (n ++ ".") = true ↔ RefusedOutbound (n ++ ".") := by
  obtain ⟨hloopback, hmetadata⟩ := not_listed (getLast?_trailing_dot n) (.inl rfl)
  have hparse : parseIpAddr (n ++ ".").toList = none := by
    rw [parseIpAddr_of_no_colon hcolon, String.toList_append]
    exact congrArg (Option.map _) (parseIpv4_trailing_dot n.toList)
  have hnumber : parseUnsigned (2 ^ 32) (n ++ ".").toList = none :=
    parseUnsigned_eq_none (List.mem_of_getLast? (getLast?_trailing_dot n)) (by decide) (by decide)
  rw [isSsrfHostname, hloopback, hmetadata, hparse, hnumber, RefusedOutbound]
  cases tryParseAlternateIpv4 (n ++ ".") with
  | none => simp
  | some ip => simp

theorem toList_display_ipv6 (crate : UrlCrate) (ip : Ipv6) :
    (crate.display (.ipv6 ip)).toList = '[' :: ((crate.ipv6Text ip).toList ++ [']']) := by
  simp [UrlCrate.display]

theorem looksPrivate_bracket {cs : List Char} (h : name.toList = '[' :: cs) :
    looksPrivate name = false := by
  have hstart : ∀ start : String, start.toList.head? ≠ some '[' → start.toList ≠ [] →
      startsWith name start = false := by
    intro start hhead hnil
    rw [startsWith, h]
    cases hs : start.toList with
    | nil => exact absurd hs hnil
    | cons c rest =>
      rw [hs] at hhead
      have hne : (c == '[') = false := by
        rw [beq_eq_false_iff_ne]
        rintro rfl
        exact hhead rfl
      rw [List.isPrefixOf_cons_cons, hne]
      rfl
  rw [looksPrivate, hstart _ (by decide) (by decide), hstart _ (by decide) (by decide),
    hstart _ (by decide) (by decide), hstart _ (by decide) (by decide)]
  rfl

/-- No IPv6 address is refused. -/
theorem isSsrfHost_ipv6 (crate : UrlCrate) (ip : Ipv6) :
    isSsrfHost (crate.display (.ipv6 ip)) = false := by
  have htext := toList_display_ipv6 crate ip
  have hlast : (crate.display (.ipv6 ip)).toList.getLast? = some ']' := by
    rw [htext, ← List.cons_append]
    exact List.getLast?_concat
  rw [isSsrfHost, (not_listed hlast (.inr rfl)).1, htext, parseIpAddr_bracket,
    looksPrivate_bracket htext]
  rfl

theorem isSsrfHostname_ipv6 {crate : UrlCrate} {ip : Ipv6}
    (hdot : '.' ∉ (crate.ipv6Text ip).toList) :
    isSsrfHostname (crate.display (.ipv6 ip)) = false := by
  have htext := toList_display_ipv6 crate ip
  have hlast : (crate.display (.ipv6 ip)).toList.getLast? = some ']' := by
    rw [htext, ← List.cons_append]
    exact List.getLast?_concat
  obtain ⟨hloopback, hmetadata⟩ := not_listed hlast (.inr rfl)
  have hnone : tryParseAlternateIpv4 (crate.display (.ipv6 ip)) = none := by
    have hparts : (crate.display (.ipv6 ip)).toList.splitOn '.'
        = [(crate.display (.ipv6 ip)).toList] := by
      refine List.splitOn_eq_singleton ?_
      rw [htext]
      simpa using hdot
    rw [tryParseAlternateIpv4, hparts]
    exact if_pos (by simp)
  have hnumber : parseUnsigned (2 ^ 32) (crate.display (.ipv6 ip)).toList = none := by
    rw [htext]
    exact parseUnsigned_eq_none List.mem_cons_self (by decide) (by decide)
  rw [isSsrfHostname, hloopback, hmetadata, hnone, hnumber, htext, parseIpAddr_bracket,
    looksPrivate_bracket htext]
  rfl

theorem isLoopbackName_of_internal (h : InternalName name) : isLoopbackName name = true := by
  rcases h with rfl | h | h
  · decide
  · simp [isLoopbackName, h]
  · simp [isLoopbackName, h]

theorem privateIpv4_of_internal {ip : Ipv4} (h : InternalIpv4 ip) : privateIpv4 ip = true := by
  rcases h with h | h | ⟨h, h₁, h₂⟩ | ⟨h, h₁⟩ | ⟨h, h₁⟩ | rfl
  · simp [privateIpv4, h]
  · simp [privateIpv4, h]
  · simp [privateIpv4, h, h₁, h₂]
  · simp [privateIpv4, h, h₁]
  · simp [privateIpv4, h, h₁]
  · decide

theorem parse_display_ipv4 (crate : UrlCrate) (ip : Ipv4) :
    parseIpAddr (crate.display (.ipv4 ip)).toList = some (.v4 ip) := by
  rw [UrlCrate.display, String.toList_ofList, parseIpAddr_dotted]

/-- Internal names are refused. -/
theorem isSsrfHost_name (h : InternalName name) : isSsrfHost name = true := by
  rw [isSsrfHost, if_pos (isLoopbackName_of_internal h)]

theorem isSsrfHostname_name (h : InternalName name) : isSsrfHostname name = true := by
  rw [isSsrfHostname, if_pos (isLoopbackName_of_internal h)]

/-- And so are internal IPv4 addresses. -/
theorem isSsrfHost_ipv4 {ip : Ipv4} (h : InternalIpv4 ip) :
    isSsrfHost (crate.display (.ipv4 ip)) = true := by
  rw [isSsrfHost, parse_display_ipv4]
  split
  · rfl
  · exact privateIpv4_of_internal h

theorem isSsrfHostname_ipv4 {ip : Ipv4} (h : InternalIpv4 ip) :
    isSsrfHostname (crate.display (.ipv4 ip)) = true := by
  rw [isSsrfHostname, parse_display_ipv4]
  split
  · rfl
  · split
    · rfl
    · dsimp only
      rw [isPrivateIpOutbound, privateIpv4_of_internal h]
      rfl

/-! ### The guard -/

/-- A check that refuses internal names and IPv4 addresses, no IPv6 address, and of the names with
    a trailing dot those that `refused` says, guards exactly where there is no gap. -/
theorem guards_iff {messages : Messages} {isSsrf : String → Bool} {setting : Option String}
    {raw : String} {env : Environment} {refused : String → Prop}
    (hnone : allowedPrefixes setting = []) (hlawful : crate.Lawful)
    (hinternal : (∀ name, InternalName name → isSsrf name = true) ∧
      ∀ ip, InternalIpv4 ip → isSsrf (crate.display (.ipv4 ip)) = true)
    (hipv6 : ∀ ip, isSsrf (crate.display (.ipv6 ip)) = false)
    (hdot : ∀ n, ':' ∉ (n ++ ".").toList → (isSsrf (n ++ ".") = true ↔ refused (n ++ "."))) :
    Guards crate raw (validateUrl messages isSsrf crate setting raw env) ↔
      NoGap crate raw env refused := by
  rw [Guards, validateUrl_eq_ok hnone]
  constructor
  · intro h url hurl hscheme
    refine ⟨?_, ?_⟩
    · -- an IPv6 host is never refused, so none may be internal
      intro ip hhost hip
      have hopen : isSsrf (crate.hostStr url) = false := by rw [hostStr_eq hhost, hipv6]
      exact h ⟨url, hurl, hscheme, hopen⟩ url _ hurl hhost hip
    · -- a name with a trailing dot is refused as it is written
      intro n hhost hn
      have hcolon := hlawful.domain raw url _ hurl hhost hscheme.http_or_https
      rw [← hdot n hcolon]
      by_contra hpublic
      have hopen : isSsrf (crate.hostStr url) = false := by
        rw [hostStr_eq hhost]
        exact Bool.eq_false_iff.mpr hpublic
      exact h ⟨url, hurl, hscheme, hopen⟩ url _ hurl hhost (.inr ⟨n, rfl, hn⟩)
  · rintro h ⟨url, hurl, hscheme, hpublic⟩ url' host hurl' hhost hbad
    cases hurl.symm.trans hurl'
    rw [hostStr_eq hhost] at hpublic
    obtain ⟨hsix, hnames⟩ := h url hurl hscheme
    cases host with
    | domain name =>  -- a name that is internal as written, or without its dot
      rcases hbad with hname | ⟨n, rfl, hn⟩
      · exact absurd (hinternal.1 name hname) (by simpa [UrlCrate.display] using hpublic)
      · have hcolon := hlawful.domain raw url _ hurl hhost hscheme.http_or_https
        exact absurd ((hdot n hcolon).mpr (hnames n hhost hn))
          (by simpa [UrlCrate.display] using hpublic)
    | ipv4 ip => exact absurd (hinternal.2 ip hbad) (by simpa using hpublic)
    | ipv6 ip => exact hsix ip hhost hbad

end

/-- Without allowed prefixes, each validator guards a URL if and only if its host is no internal IPv6
    address and no internal name with a trailing dot, unless that is refused by a private-looking
    prefix or, by the outbound validator, as an address of four labels. -/
theorem ssrfGuarded_iff (crate : UrlCrate) (hlawful : crate.Lawful) (setting : Option String)
    (raw : String) (env : Environment) (hnone : allowedPrefixes setting = []) :
    (Guards crate raw (validateCallbackUrl crate setting raw env) ↔
        NoGap crate raw env fun name => looksPrivate name = true) ∧
      (Guards crate raw (validateOutboundUrlStatic crate setting raw env []) ↔
        NoGap crate raw env RefusedOutbound) := by
  refine ⟨?_, ?_⟩
  · refine guards_iff hnone hlawful ⟨fun name => isSsrfHost_name, fun ip => isSsrfHost_ipv4⟩
      (isSsrfHost_ipv6 crate) ?_
    intro n hcolon
    rw [isSsrfHost_trailing_dot hcolon]
  · refine guards_iff hnone hlawful ⟨fun name => isSsrfHostname_name, fun ip => isSsrfHostname_ipv4⟩
      (fun ip => isSsrfHostname_ipv6 (hlawful.ipv6 ip)) ?_
    exact fun n hcolon => isSsrfHostname_trailing_dot hcolon

/-! ### Agreement -/

/-- A host's text on which the two validators agree: a listed name, or one for which the shared
    address space, the metadata name, the reading of four labels and that of a decimal number make no
    difference. -/
structure SameVerdict (name : String) : Prop where
  metadata : name ≠ "metadata.google.internal"
  shared : ∀ ip, parseIpAddr name.toList = some (.v4 ip) → sharedIpv4 ip = false
  labels : parseIpAddr name.toList = none → ∀ ip, tryParseAlternateIpv4 name = some ip →
    isPrivateIpOutbound (.v4 ip) = looksPrivate name
  decimal : parseIpAddr name.toList = none → tryParseAlternateIpv4 name = none →
    ∀ n, parseUnsigned (2 ^ 32) name.toList = some n →
      isPrivateIpOutbound (.v4 (ipv4OfNat n)) = looksPrivate name

/-- The two validators accept the same URLs. -/
def ValidatorsAgree (crate : UrlCrate) : Prop :=
  ∀ (setting : Option String) (raw : String) (env : Environment),
    validateCallbackUrl crate setting raw env = .ok () ↔
      validateOutboundUrlStatic crate setting raw env [] = .ok ()

theorem not_private_of_shared {ip : Ipv4} (h : sharedIpv4 ip = true) : privateIpv4 ip = false := by
  rw [sharedIpv4, Bool.and_eq_true, beq_iff_eq] at h
  simp [privateIpv4, h.1]

/-- Of the metadata hosts only the name is new to the callback validator. -/
theorem same_ssrf_metadata {name : String} (h : isMetadataHost name = true) :
    isSsrfHost name = isSsrfHostname name ↔ SameVerdict name := by
  have haddress : ∀ ip, parseIpAddr name.toList = some (.v4 ip) → name ≠ "metadata.google.internal" →
      sharedIpv4 ip = false → SameVerdict name := by
    intro ip hparse hname hshared
    refine ⟨hname, ?_, ?_, ?_⟩
    · intro ip' hparse'
      cases hparse.symm.trans hparse'
      exact hshared
    · intro hparse'
      cases hparse.symm.trans hparse'
    · intro hparse'
      cases hparse.symm.trans hparse'
  rw [isMetadataHost, Bool.or_eq_true, Bool.or_eq_true, beq_iff_eq, beq_iff_eq, beq_iff_eq] at h
  rcases h with (rfl | rfl) | rfl
  · refine iff_of_true (by decide) (haddress ⟨169, 254, 169, 254⟩ ?_ (by decide) (by decide))
    decide
  · exact iff_of_false (by decide) fun hsame => hsame.metadata rfl
  · refine iff_of_true (by decide) (haddress ⟨169, 254, 170, 2⟩ ?_ (by decide) (by decide))
    decide

theorem same_ssrf_iff (name : String) :
    isSsrfHost name = isSsrfHostname name ↔ isLoopbackName name = true ∨ SameVerdict name := by
  cases hloopback : isLoopbackName name with
  | true => simp [isSsrfHost, isSsrfHostname, hloopback]
  | false =>
    rw [or_iff_right (by simp)]
    cases hmetadata : isMetadataHost name with
    -- a metadata host is blocked by both, or by one alone
    | true => exact same_ssrf_metadata hmetadata
    | false =>
      have hname : name ≠ "metadata.google.internal" := by
        rintro rfl
        exact absurd hmetadata (by decide)
      rw [isSsrfHost, isSsrfHostname, hloopback, hmetadata]
      simp only [Bool.false_eq_true, if_false]
      cases hparse : parseIpAddr name.toList with
      | some ip =>  -- an address that std parses
        cases ip with
        | v4 ip =>  -- the two lists of private ranges differ in the shared one only
          dsimp only [isPrivateIp, isPrivateIpOutbound]
          constructor
          · intro heq
            refine ⟨hname, ?_, by simp [hparse], by simp [hparse]⟩
            intro ip' hparse'
            cases hparse.symm.trans hparse'
            by_contra hshared
            rw [Bool.not_eq_false] at hshared
            rw [not_private_of_shared hshared, hshared] at heq
            cases heq
          · intro hsame
            rw [hsame.shared ip hparse, Bool.or_false]
        | v6 ip =>  -- both block the same IPv6 addresses
          exact iff_of_true rfl ⟨hname, by simp [hparse], by simp [hparse], by simp [hparse]⟩
      | none =>
        dsimp only
        cases hlabels : tryParseAlternateIpv4 name with
        | some ip =>  -- labels in octal, hexadecimal or fewer than four
          dsimp only
          constructor
          · intro heq
            refine ⟨hname, by simp [hparse], ?_, by simp [hlabels]⟩
            intro _ ip' hlabels'
            cases hlabels.symm.trans hlabels'
            exact heq.symm
          · exact fun hsame => (hsame.labels hparse ip hlabels).symm
        | none =>
          dsimp only
          cases hnumber : parseUnsigned (2 ^ 32) name.toList with
          | some n =>  -- one decimal number
            dsimp only
            constructor
            · intro heq
              refine ⟨hname, by simp [hparse], by simp [hlabels], ?_⟩
              intro _ _ n' hnumber'
              cases hnumber.symm.trans hnumber'
              exact heq.symm
            · exact fun hsame => (hsame.decimal hparse hlabels n hnumber).symm
          | none =>  -- no address in any notation, and neither function blocks it
            refine iff_of_true rfl ⟨hname, by simp [hparse], by simp [hlabels], ?_⟩
            intro _ _ n hn
            cases hnumber.symm.trans hn

/-- The validators agree on a URL if and only if allowed prefixes decide, it does not get as far as
    its host, or its host is one on which they agree. -/
theorem validators_agree_iff (crate : UrlCrate) (setting : Option String) (raw : String)
    (env : Environment) :
    (validateCallbackUrl crate setting raw env = .ok () ↔
        validateOutboundUrlStatic crate setting raw env [] = .ok ()) ↔
      allowedPrefixes setting ≠ [] ∨ ∀ url, crate.parse raw = .ok url →
        SchemeAllowed env url.scheme → isLoopbackName (crate.hostStr url) = true ∨
          SameVerdict (crate.hostStr url) := by
  by_cases hnone : allowedPrefixes setting = []
  · rw [or_iff_right (by simpa using hnone), validateCallbackUrl, validateOutboundUrlStatic,
      validateUrl_eq_ok hnone, validateUrl_eq_ok hnone]
    simp only [isAllowedDomain, List.any_nil, Bool.not_false, Bool.true_and, ← same_ssrf_iff]
    constructor
    · intro h url hurl hscheme
      cases hhost : isSsrfHostname (crate.hostStr url) with
      | false =>
        obtain ⟨url', hurl', _, hopen⟩ := h.mpr ⟨url, hurl, hscheme, hhost⟩
        cases hurl.symm.trans hurl'
        exact hopen
      | true =>
        by_contra hopen
        rw [Bool.not_eq_true] at hopen
        obtain ⟨url', hurl', _, hclosed⟩ := h.mp ⟨url, hurl, hscheme, hopen⟩
        cases hurl.symm.trans hurl'
        rw [hhost] at hclosed
        cases hclosed
    · intro h
      refine exists_congr fun url => and_congr_right fun hurl => and_congr_right fun hscheme => ?_
      rw [h url hurl hscheme]
  · rw [validateCallbackUrl, validateOutboundUrlStatic, validateUrl_eq_ok_of_prefixes hnone,
      validateUrl_eq_ok_of_prefixes hnone]
    exact iff_of_true Iff.rfl (.inl hnone)

/-! ### Three URLs -/

/-- A parser that knows three URLs. -/
def sampleCrate : UrlCrate where
  parse := fun raw =>
    if raw = "http://[::1]/hook" then
      .ok { scheme := "http", host := some (.ipv6 ⟨[0, 0, 0, 0, 0, 0, 0, 1], rfl⟩) }
    else if raw = "https://example.com/hook" then
      .ok { scheme := "https", host := some (.domain "example.com") }
    else if raw = "https://hooks.eu.example.com/" then
      .ok { scheme := "https", host := some (.domain "hooks.eu.example.com") }
    else .error "relative URL without a base"
  ipv6Text := fun _ => "::1"

theorem sampleCrate_lawful : sampleCrate.Lawful where
  domain := by
    intro raw url name hparse hhost _
    dsimp only [sampleCrate] at hparse
    split at hparse
    · cases hparse
      cases hhost
    · split at hparse
      · cases hparse
        cases hhost
        decide
      · split at hparse
        · cases hparse
          cases hhost
          decide
        · cases hparse
  ipv6 := by
    intro ip
    exact (by decide : '.' ∉ "::1".toList)

/-- The IPv6 loopback address is accepted. -/
theorem not_ssrfGuarded_ipv6 : ¬ SsrfGuarded sampleCrate := by
  intro h
  have haccepted : validateCallbackUrl sampleCrate none "http://[::1]/hook" .Development = .ok () := by
    decide
  exact (h none "http://[::1]/hook" .Development (by decide)).1 haccepted _ _ rfl rfl (.inl rfl)

/-- An ordinary name is guarded by both. -/
theorem guards_example :
    Guards sampleCrate "https://example.com/hook"
        (validateCallbackUrl sampleCrate none "https://example.com/hook" .Production) ∧
      Guards sampleCrate "https://example.com/hook"
        (validateOutboundUrlStatic sampleCrate none "https://example.com/hook" .Production []) := by
  have hnames : ∀ refused, NoGap sampleCrate "https://example.com/hook" .Production refused := by
    intro refused url hurl _
    have hurl' : url = { scheme := "https", host := some (.domain "example.com") } := by
      cases hurl
      rfl
    subst hurl'
    refine ⟨?_, ?_⟩
    · rintro ip ⟨⟩
    · intro n hn _
      have hlast := getLast?_trailing_dot n
      rw [← Host.domain.inj (Option.some.inj hn)] at hlast
      exact absurd hlast (by decide)
  have hiff := ssrfGuarded_iff sampleCrate sampleCrate_lawful none "https://example.com/hook"
    .Production (by decide)
  exact ⟨hiff.1.mpr (hnames _), hiff.2.mpr (hnames _)⟩

/-- Four labels are registered and never delivered to. -/
theorem not_validatorsAgree_fourLabels : ¬ ValidatorsAgree sampleCrate := by
  intro h
  have haccepted : validateCallbackUrl sampleCrate none "https://hooks.eu.example.com/" .Production
      = .ok () := by
    decide
  have hrefused : validateOutboundUrlStatic sampleCrate none "https://hooks.eu.example.com/"
      .Production [] ≠ .ok () := by
    decide
  exact hrefused ((h none "https://hooks.eu.example.com/" .Production).mp haccepted)

end SorobanPulse.Outbound
