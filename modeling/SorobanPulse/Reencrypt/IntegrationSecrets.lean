import SorobanPulse.Ingest.Encryption
import SorobanPulse.Lib.Utf8

/-! Integration credentials at rest.

        plaintext ──seal──▶ enc:v1:⟨envelope⟩ ──open──▶ plaintext
                   plain text, as before ──────open──▶ itself

    `reseal` opens what is stored and seals it again. In a channel's config all strings under a
    sensitive key are treated so, however deep they lie. -/

namespace SorobanPulse.Reencrypt
open Ingest Lib

/-- The keys of the integration credentials. -/
structure Keys where
  current : EncryptionKey
  old : Option EncryptionKey
  version : ℕ

/-- AES-GCM, and an envelope as JSON in base64. -/
structure SecretCrates where
  cipher : Cipher
  encodeEnvelope : Value → Option String
  decodeEnvelope : String → Option Value

/-- Envelopes and ciphertexts are read back. -/
structure SecretCrates.Lawful (crates : SecretCrates) : Prop where
  opens : ∀ {key nonce bytes data}, crates.cipher.encrypt key nonce bytes = some data →
    crates.cipher.decrypt key nonce data = some bytes
  reads : ∀ {data nonce version text},
    crates.encodeEnvelope (envelope data nonce version) = some text →
      crates.decodeEnvelope text = some (envelope data nonce version)

def PREFIX : String := "enc:v1:"

def isEncrypted (stored : String) : Bool := PREFIX.toList.isPrefixOf stored.toList

/-- `stored.strip_prefix(PREFIX)` -/
def stripEnvelope (stored : String) : Option String :=
  if isEncrypted stored then some (String.ofList (stored.toList.drop PREFIX.length)) else none

/-- `String::from_utf8` -/
def stringFromUtf8 (bytes : List UInt8) : Option String :=
  if asBytes (fromUtf8Lossy bytes) = bytes then some (fromUtf8Lossy bytes) else none

section
variable (crates : SecretCrates) (keys : Keys)

def encryptSecret (key : EncryptionKey) (version : ℕ) (nonce plaintext : String) : Option String := do
  let data ← crates.cipher.encrypt key nonce (asBytes plaintext)
  let text ← crates.encodeEnvelope (envelope data nonce version)
  return PREFIX ++ text

def decryptSecret (key : EncryptionKey) (oldKey : Option EncryptionKey) (stored : String) :
    Option String :=
  match stripEnvelope stored with
  | none => some stored
  | some encoded => do
    let v ← crates.decodeEnvelope encoded
    if isEnvelope v then
      let data ← (member v "data").bind Value.asStr
      let nonce ← (member v "nonce").bind Value.asStr
      let bytes ← (crates.cipher.decrypt key nonce data).or
        (oldKey.bind fun k => crates.cipher.decrypt k nonce data)
      stringFromUtf8 bytes
    else none

/-- `seal`, with the nonce that it draws for a text. -/
def sealSecret (nonce : String → String) (plaintext : String) : Option String :=
  encryptSecret crates keys.current keys.version (nonce plaintext) plaintext

/-- `open` -/
def openSecret (stored : String) : Option String :=
  if !isEncrypted stored then some stored else decryptSecret crates keys.current keys.old stored

def reseal (nonce : String → String) (stored : String) : Option String :=
  (openSecret crates keys stored).bind (sealSecret crates keys nonce)

/-! ### Channel configs -/

def SENSITIVE_CONFIG_KEYS : List String :=
  ["access_token", "api_key", "api_secret", "auth_token", "bot_token", "client_secret", "password",
    "routing_key", "secret", "signing_secret", "token", "webhook_url"]

def isSensitiveKey (key : String) : Bool := SENSITIVE_CONFIG_KEYS.contains key.toLower

mutual
/-- A value, and whether it stands under a sensitive key. -/
def mapMember (f : String → Option String) (sensitive : Bool) : Value → Option Value
  | .string s => if sensitive then (f s).map .string else some (.string s)
  | .object map => (mapMembers f map).map .object
  | .array items => (mapItems f items).map .array
  | v => some v

def mapItems (f : String → Option String) : List Value → Option (List Value)
  | [] => some []
  | v :: rest => (mapMember f false v).bind fun v' => (mapItems f rest).map (v' :: ·)

def mapMembers (f : String → Option String) :
    List (String × Value) → Option (List (String × Value))
  | [] => some []
  | (key, v) :: rest =>
    (mapMember f (isSensitiveKey key) v).bind fun v' => (mapMembers f rest).map ((key, v') :: ·)
end

/-- `map_sensitive` -/
def mapSensitive (f : String → Option String) (v : Value) : Option Value := mapMember f false v

def sealConfig (nonce : String → String) (config : Value) : Option Value :=
  mapSensitive (fun s => if isEncrypted s then some s else sealSecret crates keys nonce s) config

def openConfig (config : Value) : Option Value := mapSensitive (openSecret crates keys) config

end

mutual
/-- `PartialEq` of JSON values. -/
def sameValue : Value → Value → Bool
  | .null, .null => true
  | .bool a, .bool b => a == b
  | .number a, .number b => a == b
  | .string a, .string b => a == b
  | .array a, .array b => sameValues a b
  | .object a, .object b => sameMembers a b
  | _, _ => false

def sameValues : List Value → List Value → Bool
  | [], [] => true
  | v :: rest, v' :: rest' => sameValue v v' && sameValues rest rest'
  | _, _ => false

def sameMembers : List (String × Value) → List (String × Value) → Bool
  | [], [] => true
  | (key, v) :: rest, (key', v') :: rest' => key == key' && sameValue v v' && sameMembers rest rest'
  | _, _ => false
end

section
variable {crates : SecretCrates} {keys : Keys} {nonce : String → String} {s sealed : String}

theorem stringFromUtf8_asBytes (s : String) : stringFromUtf8 (asBytes s) = some s := by
  rw [stringFromUtf8, fromUtf8Lossy_asBytes, if_pos rfl]

theorem isEncrypted_append (text : String) : isEncrypted (PREFIX ++ text) = true := by
  rw [isEncrypted, String.toList_append, List.isPrefixOf_iff_prefix]
  exact List.prefix_append _ _

theorem stripEnvelope_append (text : String) : stripEnvelope (PREFIX ++ text) = some text := by
  rw [stripEnvelope, if_pos (isEncrypted_append text), String.toList_append, ← String.length_toList,
    List.drop_left, String.ofList_toList]

/-- What was sealed opens again. -/
theorem openSecret_sealSecret (hlawful : crates.Lawful) (h : sealSecret crates keys nonce s = some sealed) :
    openSecret crates keys sealed = some s := by
  obtain ⟨data, hdata, h⟩ := Option.bind_eq_some_iff.mp h
  obtain ⟨text, htext, h⟩ := Option.bind_eq_some_iff.mp h
  cases h
  rw [openSecret, isEncrypted_append, Bool.not_true, if_neg Bool.false_ne_true, decryptSecret,
    stripEnvelope_append]
  simp only [hlawful.reads htext, Option.bind_eq_bind, Option.bind_some, isEnvelope_envelope,
    if_true]
  simp [envelope, member, List.lookup, Value.asStr, hlawful.opens hdata, stringFromUtf8_asBytes]

theorem openSecret_reseal (hlawful : crates.Lawful) (h : reseal crates keys nonce s = some sealed) :
    openSecret crates keys sealed = openSecret crates keys s := by
  obtain ⟨plaintext, hopen, hseal⟩ := Option.bind_eq_some_iff.mp h
  rw [hopen, openSecret_sealSecret hlawful hseal]

/-- Only what is still plain is sealed. -/
theorem openSecret_sealPlain (hlawful : crates.Lawful)
    (h : (if isEncrypted s then some s else sealSecret crates keys nonce s) = some sealed) :
    openSecret crates keys sealed = openSecret crates keys s := by
  split at h
  · cases h
    rfl
  · next hplain =>
    rw [openSecret_sealSecret hlawful h, openSecret, if_pos (by simpa using hplain)]
end

section
variable {f g : String → Option String}

/-- What `f` makes of a string reads for `g` as the string did. -/
def SameReading (f g : String → Option String) : Prop := ∀ s s', f s = some s' → g s' = g s

mutual
theorem mapMember_congr (h : SameReading f g) : ∀ {sensitive : Bool} {v w : Value},
    mapMember f sensitive v = some w → mapMember g sensitive w = mapMember g sensitive v
  | sensitive, .string s, w, hw => by
    rw [mapMember] at hw
    split at hw
    · next hsensitive =>
      obtain ⟨s', hs, rfl⟩ := Option.map_eq_some_iff.mp hw
      rw [mapMember, mapMember, if_pos hsensitive, if_pos hsensitive, h s s' hs]
    · cases hw
      rfl
  | sensitive, .object map, w, hw => by
    rw [mapMember] at hw
    obtain ⟨map', hmap, rfl⟩ := Option.map_eq_some_iff.mp hw
    rw [mapMember, mapMember, mapMembers_congr h hmap]
  | sensitive, .array items, w, hw => by
    rw [mapMember] at hw
    obtain ⟨items', hitems, rfl⟩ := Option.map_eq_some_iff.mp hw
    rw [mapMember, mapMember, mapItems_congr h hitems]
  | sensitive, .null, w, hw => by
    cases hw
    rfl
  | sensitive, .bool b, w, hw => by
    cases hw
    rfl
  | sensitive, .number n, w, hw => by
    cases hw
    rfl

theorem mapItems_congr (h : SameReading f g) : ∀ {items items' : List Value},
    mapItems f items = some items' → mapItems g items' = mapItems g items
  | [], items', hitems => by
    cases hitems
    rfl
  | v :: rest, items', hitems => by
    rw [mapItems] at hitems
    obtain ⟨v', hv, hitems⟩ := Option.bind_eq_some_iff.mp hitems
    obtain ⟨rest', hrest, rfl⟩ := Option.map_eq_some_iff.mp hitems
    rw [mapItems, mapItems, mapMember_congr h hv, mapItems_congr h hrest]

theorem mapMembers_congr (h : SameReading f g) : ∀ {map map' : List (String × Value)},
    mapMembers f map = some map' → mapMembers g map' = mapMembers g map
  | [], map', hmap => by
    cases hmap
    rfl
  | (key, v) :: rest, map', hmap => by
    rw [mapMembers] at hmap
    obtain ⟨v', hv, hmap⟩ := Option.bind_eq_some_iff.mp hmap
    obtain ⟨rest', hrest, rfl⟩ := Option.map_eq_some_iff.mp hmap
    rw [mapMembers, mapMembers, mapMember_congr h hv, mapMembers_congr h hrest]
end

theorem mapSensitive_congr (h : SameReading f g) {v w : Value} (hw : mapSensitive f v = some w) :
    mapSensitive g w = mapSensitive g v := mapMember_congr h hw

end

section
variable {crates : SecretCrates} {keys : Keys} {nonce : String → String} {config sealed : Value}

/-- A config that was sealed or resealed opens as before. -/
theorem openConfig_sealConfig (hlawful : crates.Lawful)
    (h : sealConfig crates keys nonce config = some sealed) :
    openConfig crates keys sealed = openConfig crates keys config :=
  mapSensitive_congr (fun _ _ => openSecret_sealPlain hlawful) h

theorem openConfig_reseal (hlawful : crates.Lawful)
    (h : mapSensitive (reseal crates keys nonce) config = some sealed) :
    openConfig crates keys sealed = openConfig crates keys config :=
  mapSensitive_congr (fun _ _ => openSecret_reseal hlawful) h

end

/-! ### Crates in the clear -/

/-- Leaves the text as it is, under one nonce. -/
def clearCrates : SecretCrates where
  cipher :=
    { toVec := fun _ => none
      fromSlice := fun _ => none
      encrypt := fun _ _ bytes => stringFromUtf8 bytes
      decrypt := fun _ _ data => some (asBytes data) }
  encodeEnvelope v :=
    if (member v "nonce").bind Value.asStr = some "n" ∧
        (member v "key_version").bind Value.asI64 = some 1 then
      (member v "data").bind Value.asStr
    else none
  decodeEnvelope text := some (envelope text "n" 1)

theorem lawful_clearCrates : clearCrates.Lawful where
  opens := by
    intro key nonce bytes data h
    dsimp only [clearCrates, stringFromUtf8] at h ⊢
    split at h
    · next heq =>
      cases h
      rw [heq]
    · cases h
  reads := by
    intro data nonce version text h
    dsimp only [clearCrates] at h ⊢
    split at h
    · next heq =>
      simp [envelope, member, List.lookup, Value.asStr, Value.asI64] at heq h
      rw [heq.1, ← h]
      have hversion : version = 1 := by omega
      rw [hversion]
    · cases h

end SorobanPulse.Reencrypt
