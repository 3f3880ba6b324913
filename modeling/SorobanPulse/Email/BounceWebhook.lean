import SorobanPulse.Json
import SorobanPulse.Lib.Fallible
import SorobanPulse.Lib.TextCodecs

/-! The bounce webhook: a signature is verified before a bounce is recorded.

        X-Bounce-Provider   sns            ──▶ X-Amz-Sns-Message-Type is a known type
                            sendgrid       ──▶ both X-Twilio-… headers are there
                            anything else  ──▶ X-Bounce-Signature is the HMAC of the body

    The sender chooses the branch, and only the last one looks at the body. -/

namespace SorobanPulse.Email
open Lib

inductive AppError where
  | Validation (message : String)
  | Internal (message : String)
  deriving DecidableEq

/-- Headers in their order, the names in lower case. -/
abbrev HeaderMap := List (String × List UInt8)

/-- The first value. -/
def HeaderMap.get (headers : HeaderMap) (name : String) : Option (List UInt8) := headers.lookup name

/-- `to_str`: visible ASCII and tabs. -/
def toStr (value : List UInt8) : Option String :=
  if value.all fun b => (32 ≤ b && b < 127) || b = 9 then
    some (String.ofList (value.map fun b => Char.ofNat b.toNat))
  else none

def HeaderMap.text (headers : HeaderMap) (name : String) : Option String :=
  (headers.get name).bind toStr

/-! ### Hexadecimal bytes -/

/-- `u8::from_str_radix` of two characters; the first one may be a sign. -/
def fromStrRadix16 (c d : Char) : Option UInt8 :=
  if c = '+' then (hexValue? d).map UInt8.ofNat
  else (hexValue? c).bind fun hi => (hexValue? d).map fun lo => UInt8.ofNat (hi * 16 + lo)

def hexDecode : List Char → Option (List UInt8)
  | [] => some []
  | [_] => none
  | c :: d :: rest => (fromStrRadix16 c d).bind fun b => (hexDecode rest).map (b :: ·)

/-! ### Verification -/

inductive BounceProvider where
  | Sns
  | SendGrid
  | SharedSecret
  deriving DecidableEq

def SECRET_ENV : String := "EMAIL_TOKEN_SECRET"

def BOUNCE_SIG_REQUIRED_ENV : String := "BOUNCE_WEBHOOK_SIGNATURE_REQUIRED"

/-- The process's environment, HMAC-SHA256, serde_json, and the two functions on bounces; the latter
    say which recipients a payload names and whether one could be recorded. -/
structure BounceServer (Recipient : Type) where
  env : String → Option String
  hmacSign : List UInt8 → List UInt8 → Except AppError (List UInt8)
  fromSlice : List UInt8 → Except String Value
  extractBouncedRecipients : Value → List Recipient
  recordBounce : Recipient → Bool

/-- `strip_prefix`. -/
def stripPrefix (text pre : String) : Option (List Char) :=
  if pre.toList.isPrefixOf text.toList then some (text.toList.drop pre.toList.length) else none

def orError {α : Type} (e : AppError) : Option α → Except AppError α
  | some a => .ok a
  | none => .error e

def verifySnsSignature (headers : HeaderMap) : Except AppError Unit := do
  let msgType ← orError (.Validation "missing X-Amz-Sns-Message-Type header")
    (headers.text "x-amz-sns-message-type")
  if ["Notification", "SubscriptionConfirmation", "UnsubscribeConfirmation"].contains msgType then
    .ok ()
  else .error (.Validation "unrecognised X-Amz-Sns-Message-Type value")

def verifySendgridSignature (headers : HeaderMap) : Except AppError Unit := do
  let _ ← orError (.Validation "missing X-Twilio-Email-Event-Webhook-Signature header")
    (headers.get "x-twilio-email-event-webhook-signature")
  let _ ← orError (.Validation "missing X-Twilio-Email-Event-Webhook-Timestamp header")
    (headers.get "x-twilio-email-event-webhook-timestamp")
  .ok ()

section
variable {Recipient : Type} (server : BounceServer Recipient)

/-- `resolve_secret(None)`. -/
def resolveSecret : Except AppError (List UInt8) :=
  orError (.Internal (SECRET_ENV ++ " environment variable is not set; " ++
    "email token signing is unavailable")) ((server.env SECRET_ENV).map asBytes)

/-- The error texts of `hmac_sign` are the parameter's. -/
def verifySharedSecretSignature (headers : HeaderMap) (body : List UInt8) :
    Except AppError Unit := do
  let headerVal ← orError (.Validation "missing X-Bounce-Signature header")
    (headers.text "x-bounce-signature")
  let claimedHex ← orError (.Validation "X-Bounce-Signature must start with sha256=")
    (stripPrefix headerVal "sha256=")
  let claimed ← orError (.Validation "X-Bounce-Signature: invalid hex") (hexDecode claimedHex)
  let secret ← resolveSecret server
  let expected ← server.hmacSign secret body
  if claimed = expected then .ok ()
  else .error (.Validation "X-Bounce-Signature verification failed")

def isProd : Bool :=
  (server.env "ENVIRONMENT").any fun e => e == "production" || e == "staging"

/-- Verification can be switched off outside production and staging. -/
def VerificationRequired : Prop :=
  ¬(server.env BOUNCE_SIG_REQUIRED_ENV = some "false" ∧ isProd server = false)

instance : Decidable (VerificationRequired server) := inferInstanceAs (Decidable (¬_))

def verifyBounceSignature (provider : BounceProvider) (headers : HeaderMap) (body : List UInt8) :
    Except AppError Unit :=
  if ¬VerificationRequired server then .ok ()
  else match provider with
    | .Sns => verifySnsSignature headers
    | .SendGrid => verifySendgridSignature headers
    | .SharedSecret => verifySharedSecretSignature server headers body

/-! ### The handler -/

structure BounceRequest where
  headers : HeaderMap
  /-- `none`: reading it fails. -/
  body : Option (List UInt8)

/-- The answer and, for the record, for whom `record_bounce` was called. -/
structure BounceAnswer (Recipient : Type) where
  status : ℕ
  body : Value
  reached : List Recipient := []

def BounceRequest.provider (request : BounceRequest) : BounceProvider :=
  match (request.headers.text "x-bounce-provider").getD "shared_secret" with
  | "sns" => .Sns
  | "sendgrid" => .SendGrid
  | _ => .SharedSecret

/-- `to_bytes`, up to 1 MiB. -/
def BounceRequest.bytes (request : BounceRequest) : Option (List UInt8) :=
  request.body.filter fun bytes => decide (bytes.length ≤ 1024 * 1024)

def errorBody (message : String) : Value := .object [("error", .string message)]

def emailBounceWebhook (request : BounceRequest) : BounceAnswer Recipient :=
  match request.bytes with
  | none => { status := 400, body := errorBody "failed to read request body" }
  | some bytes =>
    match verifyBounceSignature server request.provider request.headers bytes with
    | .error _ => { status := 401, body := errorBody "invalid or missing provider signature" }
    | .ok () =>
      match server.fromSlice bytes with
      | .error e => { status := 400, body := errorBody ("invalid JSON: " ++ e) }
      | .ok payload =>
        let recipients := server.extractBouncedRecipients payload
        { status := 200
          body := .object [("received", .number (.int recipients.length)),
            ("recorded", .number (.int (recipients.countP server.recordBounce)))]
          reached := recipients }

/-! ### Signatures -/

/-- The request carries the HMAC of this body under the server's secret. -/
def SharedSecretSigned (headers : HeaderMap) (body : List UInt8) : Prop :=
  ∃ text hex secret signature, headers.text "x-bounce-signature" = some text ∧
    text.toList = "sha256=".toList ++ hex ∧ hexDecode hex = some signature ∧
    server.env SECRET_ENV = some secret ∧ server.hmacSign (asBytes secret) body = .ok signature

/-- What a bounce is recorded for is signed, with the secret or with the key of a provider. -/
def Authenticated (providerSigned : HeaderMap → List UInt8 → Prop) (request : BounceRequest) :
    Prop :=
  VerificationRequired server → (emailBounceWebhook server request).reached ≠ [] →
    ∃ bytes, request.body = some bytes ∧
      (SharedSecretSigned server request.headers bytes ∨ providerSigned request.headers bytes)

/-- A branch that never looks at the body lets the request through. -/
def BounceRequest.Waved (request : BounceRequest) : Prop :=
  request.provider = .Sns ∧ verifySnsSignature request.headers = .ok () ∨
    request.provider = .SendGrid ∧ verifySendgridSignature request.headers = .ok ()

/-- The recipients that a body names, as far as it is read. -/
def BounceRequest.recipients (request : BounceRequest) : List Recipient :=
  match request.bytes.map server.fromSlice with
  | some (.ok payload) => server.extractBouncedRecipients payload
  | _ => []

end

section
variable {Recipient : Type} {server : BounceServer Recipient} {request : BounceRequest}
  {headers : HeaderMap} {bytes : List UInt8}

theorem orError_eq_ok {α : Type} {e : AppError} {o : Option α} {a : α} :
    orError e o = .ok a ↔ o = some a := by
  cases o <;> simp [orError]

theorem stripPrefix_eq_some {text pre : String} {rest : List Char}
    (h : stripPrefix text pre = some rest) : text.toList = pre.toList ++ rest := by
  unfold stripPrefix at h
  split at h
  · next hpre =>
    obtain ⟨tail, htail⟩ := List.isPrefixOf_iff_prefix.mp hpre
    rw [← htail, List.drop_left] at h
    cases h
    exact htail.symm
  · cases h

/-- The shared secret's branch lets signed bodies through only. -/
theorem signed_of_verifySharedSecret (h : verifySharedSecretSignature server headers bytes = .ok ()) :
    SharedSecretSigned server headers bytes := by
  obtain ⟨text, htext, h⟩ := bind_eq_ok h
  obtain ⟨hex, hhex, h⟩ := bind_eq_ok h
  obtain ⟨claimed, hclaimed, h⟩ := bind_eq_ok h
  obtain ⟨key, hkey, h⟩ := bind_eq_ok h
  obtain ⟨expected, hexpected, h⟩ := bind_eq_ok h
  obtain ⟨secret, hsecret, hbytes⟩ := Option.map_eq_some_iff.mp (orError_eq_ok.mp hkey)
  split at h
  · next hsame =>
    refine ⟨text, hex, secret, claimed, orError_eq_ok.mp htext,
      stripPrefix_eq_some (orError_eq_ok.mp hhex), orError_eq_ok.mp hclaimed, hsecret, ?_⟩
    rw [hbytes, hsame]
    exact hexpected
  · cases h

/-- Which requests pass the verification. -/
theorem waved_or_signed (hreq : VerificationRequired server)
    (h : verifyBounceSignature server request.provider request.headers bytes = .ok ()) :
    request.Waved ∨ SharedSecretSigned server request.headers bytes := by
  unfold verifyBounceSignature at h
  rw [if_neg (not_not_intro hreq)] at h
  cases hprovider : request.provider with
  | Sns => exact .inl (.inl ⟨hprovider, by rwa [hprovider] at h⟩)
  | SendGrid => exact .inl (.inr ⟨hprovider, by rwa [hprovider] at h⟩)
  | SharedSecret => exact .inr (signed_of_verifySharedSecret (by rwa [hprovider] at h))

theorem verify_of_waved (hreq : VerificationRequired server) (h : request.Waved) :
    verifyBounceSignature server request.provider request.headers bytes = .ok () := by
  unfold verifyBounceSignature
  rw [if_neg (not_not_intro hreq)]
  rcases h with ⟨hprovider, h⟩ | ⟨hprovider, h⟩ <;> rwa [hprovider]

theorem body_of_bytes (h : request.bytes = some bytes) : request.body = some bytes :=
  (Option.filter_eq_some_iff.mp h).1

/-- For whom a bounce is recorded. -/
theorem reached_of_verify (hbytes : request.bytes = some bytes)
    (h : verifyBounceSignature server request.provider request.headers bytes = .ok ()) :
    (emailBounceWebhook server request).reached = request.recipients server := by
  rw [emailBounceWebhook, BounceRequest.recipients, hbytes, Option.map_some]
  simp only [h]
  cases server.fromSlice bytes <;> rfl

theorem verify_of_reached (h : (emailBounceWebhook server request).reached ≠ []) :
    ∃ bytes, request.bytes = some bytes ∧
      verifyBounceSignature server request.provider request.headers bytes = .ok () := by
  unfold emailBounceWebhook at h
  split at h
  · exact absurd rfl h
  · next bytes hbytes =>
    refine ⟨bytes, hbytes, ?_⟩
    split at h
    · exact absurd rfl h
    · next hverify => exact hverify

theorem recipients_eq_nil (h : request.bytes = none) : request.recipients server = [] := by
  rw [BounceRequest.recipients, h, Option.map_none]

/-- Recorded bounces are signed exactly where a request that is waved through names no recipient or
    is signed all the same. -/
theorem authenticated_iff (server : BounceServer Recipient)
    (providerSigned : HeaderMap → List UInt8 → Prop) (request : BounceRequest) :
    Authenticated server providerSigned request ↔
      (VerificationRequired server → request.Waved → request.recipients server ≠ [] →
        ∃ bytes, request.body = some bytes ∧
          (SharedSecretSigned server request.headers bytes ∨
            providerSigned request.headers bytes)) := by
  constructor
  · intro h hreq hwaved hne
    apply h hreq
    cases hbytes : request.bytes with
    | none => exact absurd (recipients_eq_nil hbytes) hne
    | some bytes => rwa [reached_of_verify hbytes (verify_of_waved hreq hwaved)]
  · intro h hreq hreached
    obtain ⟨bytes, hbytes, hverify⟩ := verify_of_reached hreached
    rcases waved_or_signed hreq hverify with hwaved | hsigned
    · rw [reached_of_verify hbytes hverify] at hreached
      exact h hreq hwaved hreached
    · exact ⟨bytes, body_of_bytes hbytes, .inl hsigned⟩

def bounceText : String := "\x7b\"Message-To\":\"a@b.c\"\x7d"

/-- A server that has read this one payload. -/
def productionServer : BounceServer String where
  env name := [("ENVIRONMENT", "production"), (SECRET_ENV, "secret")].lookup name
  hmacSign _ _ := .ok []
  fromSlice bytes := if bytes = asBytes bounceText then
    .ok (.object [("Message-To", .string "a@b.c")]) else .error "expected value"
  extractBouncedRecipients
    | .object [("Message-To", .string email)] => [email]
    | _ => []
  recordBounce _ := true

/-- Two headers that anyone can send. -/
def forgedBounce : BounceRequest where
  headers := [("x-bounce-provider", asBytes "sns"), ("x-amz-sns-message-type", asBytes "Notification")]
  body := some (asBytes bounceText)

theorem not_authenticated_forgedBounce :
    ¬Authenticated productionServer (fun _ _ => False) forgedBounce := by
  intro h
  obtain ⟨bytes, -, ⟨text, _, _, _, htext, -⟩ | hsigned⟩ := h (by decide) (by decide)
  · cases htext
  · exact hsigned

end

end SorobanPulse.Email
