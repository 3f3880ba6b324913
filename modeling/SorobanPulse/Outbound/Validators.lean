import SorobanPulse.Events.PaginationParams
import SorobanPulse.Lib.IpAddr

/-! The two checks of user-supplied URLs: `validate_callback_url` when a subscription is registered,
    `validate_outbound_url_static` before a request is sent.

        raw ──▶ allowed prefixes? ──▶ Url::parse ──▶ scheme ──▶ host_str ──▶ private host?

    They differ in their texts and in the last check. Both look at the text of the host, in which an
    IPv4 address is dotted and an IPv6 address stands in brackets. -/

namespace SorobanPulse.Outbound
open Events Lib

inductive Environment where
  | Development | Staging | Production
  deriving DecidableEq, Repr

def Environment.isProductionLike : Environment → Bool
  | .Staging | .Production => true
  | .Development => false

/-- `url::Host` -/
inductive Host where
  | domain (name : String)
  | ipv4 (ip : Ipv4)
  | ipv6 (ip : Ipv6)
  deriving DecidableEq, Repr

structure Url where
  scheme : String
  host : Option Host

/-- The url crate: its parser, with the text of its errors, and how it writes an IPv6 address. -/
structure UrlCrate where
  parse : String → Except String Url
  ipv6Text : Ipv6 → String

/-- Names of http and https URLs have no colon, and IPv6 addresses are written in groups only. -/
structure UrlCrate.Lawful (crate : UrlCrate) : Prop where
  domain : ∀ raw url name, crate.parse raw = .ok url → url.host = some (.domain name) →
    url.scheme = "http" ∨ url.scheme = "https" → ':' ∉ name.toList
  ipv6 : ∀ ip, '.' ∉ (crate.ipv6Text ip).toList

/-- The text of a host. -/
def UrlCrate.display (crate : UrlCrate) : Host → String
  | .domain name => name
  | .ipv4 ip => String.ofList ip.dotted
  | .ipv6 ip => "[" ++ crate.ipv6Text ip ++ "]"

/-- `url.host_str().unwrap_or("")` -/
def UrlCrate.hostStr (crate : UrlCrate) (url : Url) : String := (url.host.map crate.display).getD ""

/-! ### Hosts -/

def startsWith (s start : String) : Bool := start.toList.isPrefixOf s.toList

def endsWith (s suffix : String) : Bool := suffix.toList.isSuffixOf s.toList

/-- Loopback hostnames. -/
def isLoopbackName (host : String) : Bool :=
  host == "localhost" || host == "127.0.0.1" || host == "::1" || endsWith host ".local" ||
    endsWith host ".localhost"

/-- The prefixes that are looked for when nothing else has decided. -/
def looksPrivate (host : String) : Bool :=
  startsWith host "10." || startsWith host "192.168." || startsWith host "169.254." ||
    (startsWith host "172." &&
      (((host.toList.splitOn '.')[1]?.bind (parseUnsigned 256)).any fun o => 16 ≤ o && o ≤ 31))

/-- What both versions of `is_private_ip` count as private among IPv4 addresses. -/
def privateIpv4 (ip : Ipv4) : Bool :=
  ip.a == 127 || ip.a == 10 || (ip.a == 172 && (16 ≤ ip.b && ip.b ≤ 31)) ||
    (ip.a == 192 && ip.b == 168) || (ip.a == 169 && ip.b == 254) ||
    (ip.a == 0 && ip.b == 0 && ip.c == 0) || 224 ≤ ip.a

/-- Shared address space. -/
def sharedIpv4 (ip : Ipv4) : Bool := ip.a == 100 && (64 ≤ ip.b && ip.b ≤ 127)

def firstSegment (ip : Ipv6) : UInt16 := ip.segments.headD 0

def privateIpv6 (ip : Ipv6) : Bool :=
  ip.segments == [0, 0, 0, 0, 0, 0, 0, 1] || ip.segments == [0, 0, 0, 0, 0, 0, 0, 0] ||
    firstSegment ip &&& 0xffc0 == 0xfe80 || firstSegment ip &&& 0xfe00 == 0xfc00

/-- `is_private_ip` of the subscriptions -/
def isPrivateIp : IpAddr → Bool
  | .v4 ip => privateIpv4 ip
  | .v6 ip => privateIpv6 ip

/-- `is_private_ip` of the outbound module -/
def isPrivateIpOutbound : IpAddr → Bool
  | .v4 ip => privateIpv4 ip || sharedIpv4 ip
  | .v6 ip => privateIpv6 ip

def isSsrfHost (host : String) : Bool :=
  if isLoopbackName host then true
  else
    match parseIpAddr host.toList with
    | some ip => isPrivateIp ip
    | none => looksPrivate host

/-- A part of an alternative IPv4 text: hex, octal, or passed over as if it were zero. -/
def alternatePart (part : List Char) : Option UInt8 :=
  if part.take 2 = ['0', 'x'] ∨ part.take 2 = ['0', 'X'] then fromStrRadix 16 (part.drop 2)
  else if part.head? = some '0' ∧ 1 < part.length then fromStrRadix 8 (part.drop 1)
  else some 0
where
  /-- `u8::from_str_radix`, its `+` sign optional -/
  fromStrRadix (radix : ℕ) (cs : List Char) : Option UInt8 :=
    ((radixDigits radix (if cs.head? = some '+' then cs.tail else cs)).filter (· < 256)).map
      UInt8.ofNat

def tryParseAlternateIpv4 (host : String) : Option Ipv4 :=
  let parts := host.toList.splitOn '.'
  if parts.length ≠ 4 then none
  else
    match parts.mapM alternatePart with
    | some [a, b, c, d] => some ⟨a, b, c, d⟩
    | _ => none

/-- `u32::to_be_bytes` -/
def ipv4OfNat (n : ℕ) : Ipv4 where
  a := UInt8.ofNat (n >>> 24)
  b := UInt8.ofNat (n >>> 16)
  c := UInt8.ofNat (n >>> 8)
  d := UInt8.ofNat n

def isMetadataHost (host : String) : Bool :=
  host == "169.254.169.254" || host == "metadata.google.internal" || host == "169.254.170.2"

def isSsrfHostname (host : String) : Bool :=
  if isLoopbackName host then true
  else if isMetadataHost host then true
  else
    match parseIpAddr host.toList with
    | some ip => isPrivateIpOutbound ip
    | none =>
      match tryParseAlternateIpv4 host with
      | some ip => isPrivateIpOutbound (.v4 ip)
      | none =>
        match parseUnsigned (2 ^ 32) host.toList with
        | some n => isPrivateIpOutbound (.v4 (ipv4OfNat n))
        | none => looksPrivate host

def isAllowedDomain (hostname : String) (allowed : List String) : Bool :=
  allowed.any fun domain =>
    hostname.toLower == domain.toLower || endsWith hostname.toLower ("." ++ domain.toLower)

/-! ### The validators -/

/-- The texts of a validator's errors. -/
structure Messages where
  notAllowed : String
  notValid : String → String
  httpsRequired : String
  scheme : String → String
  ssrf : String → String

/-- The entries of SUBSCRIPTION_ALLOWED_URL_PREFIXES. -/
def allowedPrefixes (setting : Option String) : List String :=
  (commaList (setting.getD "")).filter (· ≠ "")

/-- What both validators do. -/
def validateUrl (messages : Messages) (isSsrf : String → Bool) (crate : UrlCrate)
    (setting : Option String) (raw : String) (env : Environment) : Except AppError Unit :=
  if allowedPrefixes setting ≠ [] then
    if (allowedPrefixes setting).any (startsWith raw) then .ok ()
    else .error (.Validation messages.notAllowed)
  else
    match crate.parse raw with
    | .error e => .error (.Validation (messages.notValid e))
    | .ok url =>
      if url.scheme ≠ "https" ∧ url.scheme ≠ "http" then
        .error (.Validation (messages.scheme url.scheme))
      else if url.scheme = "http" ∧ env.isProductionLike = true then
        .error (.Validation messages.httpsRequired)
      else if isSsrf (crate.hostStr url) then
        .error (.Validation (messages.ssrf (crate.hostStr url)))
      else .ok ()

def callbackMessages : Messages where
  notAllowed := "callback_url does not match any entry in SUBSCRIPTION_ALLOWED_URL_PREFIXES"
  notValid := fun e => s!"callback_url is not a valid URL: {e}"
  httpsRequired := "callback_url must use HTTPS in production"
  scheme := fun scheme => s!"callback_url scheme '{scheme}' is not permitted; use https"
  ssrf := fun _ => "callback_url points to a private, loopback, or link-local address"

def validateCallbackUrl (crate : UrlCrate) (setting : Option String) (raw : String)
    (env : Environment) : Except AppError Unit :=
  validateUrl callbackMessages isSsrfHost crate setting raw env

def outboundMessages : Messages where
  notAllowed := "URL does not match any entry in SUBSCRIPTION_ALLOWED_URL_PREFIXES"
  notValid := fun e => s!"not a valid URL: {e}"
  httpsRequired := "URL must use HTTPS in production"
  scheme := fun scheme => s!"URL scheme '{scheme}' is not permitted; use https"
  ssrf := fun host =>
    s!"URL hostname '{host}' resolves to a private, loopback, or link-local address"

def validateOutboundUrlStatic (crate : UrlCrate) (setting : Option String) (raw : String)
    (env : Environment) (allowedDomains : List String) : Except AppError Unit :=
  validateUrl outboundMessages
    (fun host => !isAllowedDomain host allowedDomains && isSsrfHostname host)
    crate setting raw env

/-! ### What is accepted -/

/-- The schemes that pass. -/
def SchemeAllowed (env : Environment) (scheme : String) : Prop :=
  scheme = "https" ∨ scheme = "http" ∧ env.isProductionLike = false

section
variable {messages : Messages} {isSsrf : String → Bool} {crate : UrlCrate}
  {setting : Option String} {raw : String} {env : Environment} {url : Url}

theorem SchemeAllowed.http_or_https {scheme : String} (h : SchemeAllowed env scheme) :
    scheme = "http" ∨ scheme = "https" := by
  rcases h with h | h
  · exact .inr h
  · exact .inl h.1

/-- Without allowed prefixes, the parsed URL decides. -/
theorem validateUrl_eq_ok (hnone : allowedPrefixes setting = []) :
    validateUrl messages isSsrf crate setting raw env = .ok () ↔
      ∃ url, crate.parse raw = .ok url ∧ SchemeAllowed env url.scheme ∧
        isSsrf (crate.hostStr url) = false := by
  rw [validateUrl, if_neg (by simp [hnone])]
  cases hparse : crate.parse raw with
  | error e =>
    constructor
    · intro h
      cases h
    · rintro ⟨url, hurl, _⟩
      cases hurl
  | ok url =>
    dsimp only
    constructor
    · intro h
      split at h
      · -- an unknown scheme, http in production, and a private host are refused, in this order
        cases h
      · next hknown =>
        split at h
        · cases h
        · next hsecure =>
          split at h
          · cases h
          · next hpublic =>
            refine ⟨url, rfl, ?_, by simpa using hpublic⟩
            by_cases hhttps : url.scheme = "https"
            · exact .inl hhttps
            · have hhttp : url.scheme = "http" := by
                by_contra hne
                exact hknown ⟨hhttps, hne⟩
              exact .inr ⟨hhttp, by simpa [hhttp] using hsecure⟩
    · rintro ⟨url', hurl, hscheme, hpublic⟩
      cases hurl
      rw [if_neg, if_neg, if_neg (by simp [hpublic])]
      · rintro ⟨hhttp, hprod⟩
        rcases hscheme with h | h  -- only https passes in production
        · rw [h] at hhttp
          exact absurd hhttp (by decide)
        · rw [h.2] at hprod
          cases hprod
      · rintro ⟨hhttps, hhttp⟩
        rcases hscheme with h | h
        · exact hhttps h
        · exact hhttp h.1

/-- With allowed prefixes, they decide. -/
theorem validateUrl_eq_ok_of_prefixes (hsome : allowedPrefixes setting ≠ []) :
    validateUrl messages isSsrf crate setting raw env = .ok () ↔
      (allowedPrefixes setting).any (startsWith raw) = true := by
  rw [validateUrl, if_pos hsome]
  split
  · next h => simp [h]
  · next h => simp [h]

end

end SorobanPulse.Outbound
