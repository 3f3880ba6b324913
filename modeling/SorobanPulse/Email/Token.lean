import SorobanPulse.Email.BounceWebhook
import SorobanPulse.Jsonb

/-! Signed tokens of the email links.

        payload   {"exp": now + ttl, "purpose": …, "sub": …}, in base64
        token     payload ++ "." ++ base64 (HMAC of the payload's text)

    A token is read from its last dot on: first the signature, then the claims. Nothing but what was
    signed is accepted. The expiry is a sum in 64 bits, and a lifetime that overflows it issues a
    token that has already expired. -/

namespace SorobanPulse.Email
open Lib

/-! ### The last dot -/

/-- `rfind`: what stands before the last separator, and after it. -/
def splitLast (sep : Char) : List Char → Option (List Char × List Char)
  | [] => none
  | c :: rest =>
    match splitLast sep rest with
    | some parts => some (c :: parts.1, parts.2)
    | none => if c = sep then some ([], rest) else none

theorem splitLast_eq_none {sep : Char} {cs : List Char} : splitLast sep cs = none ↔ sep ∉ cs := by
  induction cs with
  | nil => simp [splitLast]
  | cons c cs ih =>
    rw [splitLast]
    cases hcs : splitLast sep cs with
    | some parts =>
      rw [hcs] at ih
      simp only [reduceCtorEq, false_iff, not_not] at ih ⊢
      exact List.mem_cons_of_mem _ ih
    | none => simp [ih.mp hcs, eq_comm]

theorem splitLast_append {sep : Char} {before after : List Char} (h : sep ∉ after) :
    splitLast sep (before ++ sep :: after) = some (before, after) := by
  induction before with
  | nil =>
    rw [List.nil_append, splitLast, splitLast_eq_none.mpr h]
    exact if_pos rfl
  | cons c before ih => rw [List.cons_append, splitLast, ih]

theorem eq_of_splitLast {sep : Char} {cs before after : List Char}
    (h : splitLast sep cs = some (before, after)) : cs = before ++ sep :: after := by
  induction cs generalizing before with
  | nil => cases h
  | cons c cs ih =>
    rw [splitLast] at h
    split at h
    · next parts hparts =>
      cases h
      rw [ih hparts, List.cons_append]
    · split at h
      · next hc =>
        cases h
        rw [hc, List.nil_append]
      · cases h

/-! ### Tokens -/

inductive TokenPurpose where
  | Open
  | Click
  | Unsubscribe
  deriving DecidableEq

def TokenPurpose.asStr : TokenPurpose → String
  | .Open => "open"
  | .Click => "click"
  | .Unsubscribe => "unsubscribe"

def TokenPurpose.fromStr : String → Option TokenPurpose
  | "open" => some .Open
  | "click" => some .Click
  | "unsubscribe" => some .Unsubscribe
  | _ => none

theorem fromStr_eq_some {s : String} {purpose : TokenPurpose} :
    TokenPurpose.fromStr s = some purpose ↔ s = purpose.asStr := by
  constructor
  · intro h
    unfold TokenPurpose.fromStr at h
    split at h <;> cases h <;> rfl
  · rintro rfl
    cases purpose <;> rfl

structure TokenClaims where
  subject : String
  purpose : TokenPurpose
  expiresAt : UInt64
  deriving DecidableEq

/-- The process's environment, HMAC-SHA256 (any key will do), and serde_json. -/
structure TokenServer where
  env : String → Option String
  hmacSign : List UInt8 → List UInt8 → List UInt8
  toVec : Value → List UInt8
  fromSlice : List UInt8 → Option Value

namespace TokenServer
variable (server : TokenServer)

def resolveSecret (override : Option (List UInt8)) : Except AppError (List UInt8) :=
  match override with
  | some s => .ok s
  | none => orError (.Internal (SECRET_ENV ++ " environment variable is not set; " ++
      "email token signing is unavailable")) ((server.env SECRET_ENV).map asBytes)

/-- A `serde_json::Map` keeps its members by key. -/
def payload (subject : String) (purpose : TokenPurpose) (exp : UInt64) : Value :=
  .object [("exp", .number (.int exp.toNat)), ("purpose", .string purpose.asStr),
    ("sub", .string subject)]

def payloadB64 (subject : String) (purpose : TokenPurpose) (exp : UInt64) : List Char :=
  base64Encode (server.toVec (payload subject purpose exp))

/-- What an owner of the secret appends to a payload. -/
def signed (secret : List UInt8) (payloadB64 : List Char) : List Char :=
  payloadB64 ++ '.' :: base64Encode (server.hmacSign secret (utf8Bytes payloadB64))

/-- The sum wraps, as in a release build. -/
def issueToken (unixNow : UInt64) (subject : String) (purpose : TokenPurpose) (ttlSecs : UInt64)
    (secretOverride : Option (List UInt8)) : Except AppError String := do
  let secret ← server.resolveSecret secretOverride
  let exp := unixNow + ttlSecs
  .ok (String.ofList (server.signed secret (server.payloadB64 subject purpose exp)))

def invalidToken : AppError := .Validation "invalid token"

def verifyToken (unixNow : UInt64) (raw : String) (expectedPurpose : Option TokenPurpose)
    (secretOverride : Option (List UInt8)) : Except AppError TokenClaims := do
  let secret ← server.resolveSecret secretOverride
  let (payloadB64, sigB64) ← orError invalidToken (splitLast '.' raw.toList)
  let payloadBytes ← orError invalidToken (base64Decode payloadB64)
  let claimedSig ← orError invalidToken (base64Decode sigB64)
  let expectedSig := server.hmacSign secret (utf8Bytes payloadB64)
  if claimedSig ≠ expectedSig then .error invalidToken
  else
    let claims ← orError invalidToken (server.fromSlice payloadBytes)
    let subject ← orError invalidToken ((member claims "sub").bind Value.asStr)
    let purposeStr ← orError invalidToken ((member claims "purpose").bind Value.asStr)
    let purpose ← orError (.Validation "invalid token purpose") (TokenPurpose.fromStr purposeStr)
    let exp ← orError invalidToken ((member claims "exp").bind Value.asU64)
    if exp < unixNow.toNat then .error (.Validation "token has expired")
    else if expectedPurpose.any (· ≠ purpose) then
      .error (.Validation "token purpose mismatch")
    else .ok { subject, purpose, expiresAt := .ofNat exp.toNat }

/-! ### What is accepted -/

/-- The claims that a JSON value makes. -/
structure Claims (value : Value) (claims : TokenClaims) : Prop where
  subject : (member value "sub").bind Value.asStr = some claims.subject
  purpose : (member value "purpose").bind Value.asStr = some claims.purpose.asStr
  expiresAt : (member value "exp").bind Value.asU64 = some (claims.expiresAt.toNat : ℤ)

/-- The raw text is a signed payload, with these claims, that is still valid and of this purpose. -/
structure Accepts (secret : List UInt8) (unixNow : UInt64) (raw : String)
    (expectedPurpose : Option TokenPurpose) (claims : TokenClaims) : Prop where
  signed : ∃ payload bytes value, raw.toList = server.signed secret payload ∧
    base64Decode payload = some bytes ∧ server.fromSlice bytes = some value ∧ Claims value claims
  alive : unixNow ≤ claims.expiresAt
  own : expectedPurpose = none ∨ expectedPurpose = some claims.purpose

theorem base64Symbol_ne_dot (n : ℕ) : base64Symbol n ≠ '.' := by
  intro h
  have hmem : base64Symbol n ∈ base64Alphabet := by
    rw [base64Symbol, List.getD_eq_getElem?_getD]
    cases hn : base64Alphabet[n]? with
    | none =>
      rw [base64Alphabet_eq]
      exact List.mem_cons_self
    | some c => exact List.mem_of_getElem? hn
  rw [h, base64Alphabet_eq] at hmem
  revert hmem
  decide

theorem dot_not_mem_base64Encode (bytes : List UInt8) : '.' ∉ base64Encode bytes := by
  have hdot : ∀ n, '.' ≠ base64Symbol n := fun n h => base64Symbol_ne_dot n h.symm
  fun_induction base64Encode bytes with
  | case1 a b c rest n ih => simp [hdot, ih]
  | case2 => simp [hdot]
  | case3 => simp [hdot]
  | case4 => simp

/-- The signature is compared as bytes, and its text is the one that writes them. -/
theorem splitLast_signed {raw payload sig : List Char} {tag : List UInt8}
    (hsplit : splitLast '.' raw = some (payload, sig)) (hsig : base64Decode sig = some tag) :
    raw = payload ++ '.' :: base64Encode tag := by
  rw [eq_of_splitLast hsplit, base64Encode_of_decode hsig]

variable {server} {secret : List UInt8} {secretOverride : Option (List UInt8)} {unixNow : UInt64}
  {raw : String} {expectedPurpose : Option TokenPurpose} {claims : TokenClaims}

theorem any_ne_eq_false {purpose : TokenPurpose} :
    expectedPurpose.any (· ≠ purpose) = false ↔
      expectedPurpose = none ∨ expectedPurpose = some purpose := by
  cases expectedPurpose <;> simp

theorem ofNat_toNat_of_asU64 {v : Value} {exp : ℤ} (h : v.asU64 = some exp) :
    ((UInt64.ofNat exp.toNat).toNat : ℤ) = exp := by
  unfold Value.asU64 at h
  split at h
  · split at h
    · next hle =>
      cases h
      rw [U64_MAX] at hle
      rw [UInt64.toNat_ofNat', Nat.mod_eq_of_lt (by omega), Int.toNat_of_nonneg hle.1]
    · cases h
  · cases h

theorem verifyToken_eq_ok (hsecret : server.resolveSecret secretOverride = .ok secret) :
    server.verifyToken unixNow raw expectedPurpose secretOverride = .ok claims ↔
      server.Accepts secret unixNow raw expectedPurpose claims := by
  rw [verifyToken, hsecret]
  change (orError invalidToken (splitLast '.' raw.toList) >>= _) = .ok claims ↔ _
  simp only [bind_eq_ok_iff, orError_eq_ok, Prod.exists, ite_error_eq_ok, Except.ok.injEq, not_not,
    fromStr_eq_some, not_lt, Bool.not_eq_true, any_ne_eq_false]
  constructor
  · rintro ⟨payload, sig, hsplit, bytes, hbytes, tag, htag, rfl, value, hvalue, subject, hsubject,
      _, hpurpose, purpose, rfl, exp, hexp, halive, hown, rfl⟩
    have hexp' : ((UInt64.ofNat exp.toNat).toNat : ℤ) = exp := by
      obtain ⟨v, -, hv⟩ := Option.bind_eq_some_iff.mp hexp
      exact ofNat_toNat_of_asU64 hv
    refine ⟨⟨payload, bytes, value, splitLast_signed hsplit htag, hbytes, hvalue, hsubject,
      hpurpose, by rw [hexp, hexp']⟩, ?_, hown⟩
    change unixNow ≤ UInt64.ofNat exp.toNat
    rw [UInt64.le_iff_toNat_le]
    omega
  · rintro ⟨⟨payload, bytes, value, hraw, hbytes, hvalue, hclaims⟩, halive, hown⟩
    refine ⟨payload, _, by rw [hraw, signed, splitLast_append (dot_not_mem_base64Encode _)], bytes,
      hbytes, _, base64Decode_encode _, rfl, value, hvalue, _, hclaims.subject, _, hclaims.purpose,
      _, rfl, _, hclaims.expiresAt, ?_, hown, ?_⟩
    · rw [UInt64.le_iff_toNat_le] at halive
      omega
    · rw [Int.toNat_natCast, UInt64.ofNat_toNat]

/-! ### Issued tokens -/

variable {subject : String} {purpose : TokenPurpose} {exp issuedAt ttlSecs : UInt64}

variable (server) in
/-- serde_json reads back what it wrote, for this payload. -/
def ReadsBack (subject : String) (purpose : TokenPurpose) (exp : UInt64) : Prop :=
  server.fromSlice (server.toVec (payload subject purpose exp)) = some (payload subject purpose exp)

theorem claims_payload : Claims (payload subject purpose exp) ⟨subject, purpose, exp⟩ := by
  have hexp : (exp.toNat : ℤ) ≤ U64_MAX := by
    have := exp.toNat_lt
    rw [U64_MAX]
    omega
  refine ⟨rfl, rfl, ?_⟩
  change Value.asU64 (.number (.int exp.toNat)) = _
  rw [Value.asU64, if_pos ⟨Int.natCast_nonneg _, hexp⟩]

theorem claims_unique {value : Value} {claims' : TokenClaims} (h : Claims value claims)
    (h' : Claims value claims') : claims = claims' := by
  have hsubject := Option.some.inj (h.subject.symm.trans h'.subject)
  have hpurpose := Option.some.inj (h.purpose.symm.trans h'.purpose)
  have hexp := Option.some.inj (h.expiresAt.symm.trans h'.expiresAt)
  obtain ⟨s, p, e⟩ := claims
  obtain ⟨s', p', e'⟩ := claims'
  rw [TokenClaims.mk.injEq]
  refine ⟨hsubject, ?_, UInt64.toNat_inj.mp (Int.ofNat.inj hexp)⟩
  have := fromStr_eq_some.mpr hpurpose
  rw [fromStr_eq_some.mpr rfl] at this
  exact Option.some.inj this.symm |>.symm

theorem signed_injective {payload payload' : List Char}
    (h : server.signed secret payload = server.signed secret payload') : payload = payload' := by
  have hsplit := congrArg (splitLast '.') h
  rw [signed, signed, splitLast_append (dot_not_mem_base64Encode _),
    splitLast_append (dot_not_mem_base64Encode _)] at hsplit
  exact (Prod.mk.inj (Option.some.inj hsplit)).1

theorem accepts_issued (hread : server.ReadsBack subject purpose exp) :
    server.Accepts secret unixNow
        (String.ofList (server.signed secret (server.payloadB64 subject purpose exp)))
        expectedPurpose claims ↔
      claims = ⟨subject, purpose, exp⟩ ∧ unixNow ≤ exp ∧
        (expectedPurpose = none ∨ expectedPurpose = some purpose) := by
  constructor
  · rintro ⟨⟨payload, bytes, value, hraw, hbytes, hvalue, hclaims⟩, halive, hown⟩
    rw [String.toList_ofList] at hraw
    obtain rfl := signed_injective hraw
    rw [payloadB64, base64Decode_encode] at hbytes
    cases hbytes
    rw [hread] at hvalue
    cases hvalue
    obtain rfl := claims_unique hclaims claims_payload
    exact ⟨rfl, halive, hown⟩
  · rintro ⟨rfl, halive, hown⟩
    exact ⟨⟨_, _, _, String.toList_ofList, base64Decode_encode _, hread, claims_payload⟩, halive, hown⟩

/-- An issued token is good for its own purpose until its lifetime is over. -/
def IssuedVerifies (server : TokenServer) (secretOverride : Option (List UInt8)) (issuedAt : UInt64)
    (subject : String) (purpose : TokenPurpose) (ttlSecs : UInt64) : Prop :=
  ∃ token, server.issueToken issuedAt subject purpose ttlSecs secretOverride = .ok token ∧
    ∀ unixNow expectedPurpose,
      ((∃ claims, server.verifyToken unixNow token expectedPurpose secretOverride = .ok claims) ↔
        unixNow.toNat ≤ issuedAt.toNat + ttlSecs.toNat ∧
          (expectedPurpose = none ∨ expectedPurpose = some purpose)) ∧
      ∀ claims, server.verifyToken unixNow token expectedPurpose secretOverride = .ok claims →
        claims.subject = subject ∧ claims.purpose = purpose

/-- Whatever verifies was signed with the secret, claims what its payload says, and shares its
    signature with no other payload. -/
def OnlySignedVerify (server : TokenServer) (secretOverride : Option (List UInt8))
    (secret : List UInt8) : Prop :=
  ∀ unixNow raw expectedPurpose claims,
    server.verifyToken unixNow raw expectedPurpose secretOverride = .ok claims →
      server.Accepts secret unixNow raw expectedPurpose claims ∧
      ∀ unixNow' raw' expectedPurpose' claims',
        server.verifyToken unixNow' raw' expectedPurpose' secretOverride = .ok claims' →
        (splitLast '.' raw'.toList).map Prod.snd = (splitLast '.' raw.toList).map Prod.snd →
          raw' = raw ∧ claims' = claims

theorem issuedVerifies_iff (hsecret : server.resolveSecret secretOverride = .ok secret)
    (hread : server.ReadsBack subject purpose (issuedAt + ttlSecs)) :
    IssuedVerifies server secretOverride issuedAt subject purpose ttlSecs ↔
      issuedAt.toNat + ttlSecs.toNat < 2 ^ 64 := by
  have hissue : server.issueToken issuedAt subject purpose ttlSecs secretOverride =
      .ok (String.ofList (server.signed secret
        (server.payloadB64 subject purpose (issuedAt + ttlSecs)))) := by
    rw [issueToken, hsecret]
    rfl
  have hsum := UInt64.toNat_add issuedAt ttlSecs
  have := issuedAt.toNat_lt
  have := ttlSecs.toNat_lt
  constructor
  · rintro ⟨token, htoken, hverify⟩
    cases hissue.symm.trans htoken
    -- the moment of issue is within the lifetime
    obtain ⟨claims, hclaims⟩ := (hverify issuedAt none).1.mpr ⟨by omega, .inl rfl⟩
    rw [verifyToken_eq_ok hsecret, accepts_issued hread, UInt64.le_iff_toNat_le] at hclaims
    omega
  · intro hfits
    refine ⟨_, hissue, fun unixNow expectedPurpose => ⟨?_, ?_⟩⟩
    · simp only [verifyToken_eq_ok hsecret, accepts_issued hread, exists_eq_left,
        UInt64.le_iff_toNat_le]
      rw [hsum, Nat.mod_eq_of_lt hfits]
    · intro claims hclaims
      rw [verifyToken_eq_ok hsecret, accepts_issued hread] at hclaims
      exact ⟨by rw [hclaims.1], by rw [hclaims.1]⟩

theorem onlySignedVerify (hsecret : server.resolveSecret secretOverride = .ok secret)
    (hinj : Function.Injective (server.hmacSign secret)) :
    OnlySignedVerify server secretOverride secret := by
  intro unixNow raw expectedPurpose claims h
  rw [verifyToken_eq_ok hsecret] at h
  refine ⟨h, ?_⟩
  intro unixNow' raw' expectedPurpose' claims' h' hsig
  rw [verifyToken_eq_ok hsecret] at h'
  obtain ⟨payload, bytes, value, hraw, hbytes, hvalue, hclaims⟩ := h.signed
  obtain ⟨payload', bytes', value', hraw', hbytes', hvalue', hclaims'⟩ := h'.signed
  have hpayload : payload' = payload := by
    rw [hraw, hraw', signed, signed, splitLast_append (dot_not_mem_base64Encode _),
      splitLast_append (dot_not_mem_base64Encode _)] at hsig
    have htag := congrArg base64Decode (Option.some.inj hsig)
    simp only [base64Decode_encode, Option.some.injEq] at htag
    exact utf8Bytes_injective (hinj htag)
  subst hpayload
  refine ⟨String.toList_inj.mp (hraw'.trans hraw.symm), ?_⟩
  cases hbytes'.symm.trans hbytes
  cases hvalue'.symm.trans hvalue
  exact claims_unique hclaims' hclaims

/-- Both hold together exactly where the expiry fits into 64 bits. -/
theorem tokens_iff (server : TokenServer) (secretOverride : Option (List UInt8))
    (secret : List UInt8) (subject : String) (purpose : TokenPurpose) (ttlSecs issuedAt : UInt64)
    (hsecret : server.resolveSecret secretOverride = .ok secret)
    (hinj : Function.Injective (server.hmacSign secret))
    (hread : server.ReadsBack subject purpose (issuedAt + ttlSecs)) :
    IssuedVerifies server secretOverride issuedAt subject purpose ttlSecs ∧
        OnlySignedVerify server secretOverride secret ↔
      issuedAt.toNat + ttlSecs.toNat < 2 ^ 64 := by
  rw [issuedVerifies_iff hsecret hread]
  exact and_iff_left (onlySignedVerify hsecret hinj)

def payloadText : String :=
  "\x7b\"exp\":1700003600,\"purpose\":\"open\",\"sub\":\"email-uuid-123\"\x7d"

/-- It knows the one payload it is asked about; its HMAC appends the key. -/
def oneTokenServer (exp : UInt64) (text : String) : TokenServer where
  env _ := none
  hmacSign secret message := message ++ secret
  toVec _ := asBytes text
  fromSlice bytes :=
    if bytes = asBytes text then some (payload "email-uuid-123" .Open exp) else none

theorem oneTokenServer_readsBack {exp sum : UInt64} (text : String) (h : exp = sum) :
    (oneTokenServer exp text).ReadsBack "email-uuid-123" .Open sum := by
  rw [← h]
  exact if_pos rfl

theorem tokens_hour :
    IssuedVerifies (oneTokenServer 1700003600 payloadText) (some [7]) 1700000000
        "email-uuid-123" .Open 3600 ∧
      OnlySignedVerify (oneTokenServer 1700003600 payloadText) (some [7]) [7] :=
  (tokens_iff (oneTokenServer 1700003600 payloadText) (some [7]) [7] "email-uuid-123" .Open 3600
    1700000000 rfl (List.append_left_injective [7])
    (oneTokenServer_readsBack payloadText (by decide))).mpr (by decide)

def wrappedText : String :=
  "\x7b\"exp\":1699999999,\"purpose\":\"open\",\"sub\":\"email-uuid-123\"\x7d"

/-- A token for ever has expired when it is issued. -/
theorem not_tokens_forever :
    ¬(IssuedVerifies (oneTokenServer 1699999999 wrappedText) (some [7]) 1700000000
        "email-uuid-123" .Open 18446744073709551615 ∧
      OnlySignedVerify (oneTokenServer 1699999999 wrappedText) (some [7]) [7]) := by
  rintro ⟨hissued, -⟩
  have hfits := (issuedVerifies_iff rfl (oneTokenServer_readsBack wrappedText (by decide))).mp hissued
  revert hfits
  decide

end TokenServer
end SorobanPulse.Email
