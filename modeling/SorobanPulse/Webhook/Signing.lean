import SorobanPulse.Ingest.Toid
import SorobanPulse.Lib.TextCodecs
import SorobanPulse.Lib.Utf8

/-! Signing webhook requests, with several keys and their rotation.

        sign     newest active key ──▶ sha256=hex(HMAC(secret, "timestamp.payload"))
        verify   key of the request's key id, active or not, within the allowed skew

    A rotation leaves the old keys in the set, inactive: they sign no more, and verify until they
    are removed. HMAC is a parameter over keys of one block, to which secrets are brought first. -/

namespace SorobanPulse.Webhook
open Lib Ingest

structure SigningKey where
  id : String
  secret : List UInt8
  createdAt : ℕ
  active : Bool
  deriving DecidableEq, Repr

inductive SigningError where
  | unknownKeyId (keyId : String)
  | noActiveKey
  | invalidFormat
  | mismatch
  | timestampSkew
  deriving DecidableEq, Repr

structure SignedRequest where
  signatureHeader : String
  keyId : String
  timestamp : ℕ
  algorithm : String
  deriving DecidableEq, Repr

/-- The keys, in the order in which they came; no two have one id. -/
structure WebhookKeyManager where
  keys : List SigningKey
  unique : (keys.map (·.id)).Nodup

/-! ### The keys -/

/-- The key at the end, in the place of any of its id. -/
def withKey (keys : List SigningKey) (key : SigningKey) : List SigningKey :=
  keys.filter (·.id ≠ key.id) ++ [key]

theorem nodup_withKey {keys : List SigningKey} (h : (keys.map (·.id)).Nodup) (key : SigningKey) :
    ((withKey keys key).map (·.id)).Nodup := by
  rw [withKey, List.map_append, List.nodup_append]
  refine ⟨h.sublist (List.filter_sublist.map _), by simp, ?_⟩
  rintro _ ha _ hb rfl
  obtain ⟨other, hother, hid⟩ := List.mem_map.mp ha
  have hne := (List.mem_filter.mp hother).2
  simp_all

def deactivated (key : SigningKey) : SigningKey := { key with active := false }

def WebhookKeyManager.new : WebhookKeyManager := ⟨[], .nil⟩

def WebhookKeyManager.addKey (manager : WebhookKeyManager) (key : SigningKey) :
    WebhookKeyManager where
  keys := withKey manager.keys key
  unique := nodup_withKey manager.unique key

/-- The new key becomes the only active one. -/
def WebhookKeyManager.rotate (manager : WebhookKeyManager) (newKey : SigningKey) :
    WebhookKeyManager where
  keys := withKey (manager.keys.map deactivated) newKey
  unique := nodup_withKey (by simpa [deactivated, Function.comp_def] using manager.unique) newKey

def WebhookKeyManager.removeKey (manager : WebhookKeyManager) (keyId : String) :
    WebhookKeyManager where
  keys := manager.keys.filter (·.id ≠ keyId)
  unique := manager.unique.sublist (List.filter_sublist.map _)

/-- The active key that came last. -/
def WebhookKeyManager.activeKey (manager : WebhookKeyManager) : Option SigningKey :=
  manager.keys.reverse.find? (·.active)

def WebhookKeyManager.findKey (manager : WebhookKeyManager) (keyId : String) : Option SigningKey :=
  manager.keys.find? (·.id = keyId)

inductive KeyOp where
  | add (key : SigningKey)
  | rotate (key : SigningKey)
  | remove (keyId : String)

def WebhookKeyManager.apply (manager : WebhookKeyManager) : KeyOp → WebhookKeyManager
  | .add key => manager.addKey key
  | .rotate key => manager.rotate key
  | .remove keyId => manager.removeKey keyId

/-! ### Signatures -/

/-- SHA-256, and HMAC-SHA256 with a key of one block. -/
structure MacLibrary where
  sha256 : List UInt8 → List UInt8
  hmac : List UInt8 → List UInt8 → List UInt8

def SHA256_BLOCK_SIZE : ℕ := 64

/-- The block of a key: hashed if it is longer than one, then padded with zeros. -/
def MacLibrary.block (lib : MacLibrary) (key : List UInt8) : List UInt8 :=
  (if SHA256_BLOCK_SIZE < key.length then lib.sha256 key else key).rightpad SHA256_BLOCK_SIZE 0

/-- `{timestamp}.{payload}`. -/
def signedMaterial (timestamp : ℕ) (payload : List UInt8) : List UInt8 :=
  asBytes (toString timestamp) ++ 46 :: payload

/-- The hex digest of the MAC. -/
def computeSignature (lib : MacLibrary) (secret : List UInt8) (timestamp : ℕ)
    (payload : List UInt8) : List Char :=
  lowerHex (lib.hmac (lib.block secret) (signedMaterial timestamp payload))

def WebhookKeyManager.sign (lib : MacLibrary) (manager : WebhookKeyManager) (now : ℕ)
    (payload : List UInt8) : Except SigningError SignedRequest :=
  match manager.activeKey with
  | none => .error .noActiveKey
  | some key =>
    .ok {
      signatureHeader :=
        "sha256=" ++ String.ofList (computeSignature lib key.secret now payload)
      keyId := key.id
      timestamp := now
      algorithm := "hmac-sha256" }

def WebhookKeyManager.verify (lib : MacLibrary) (manager : WebhookKeyManager) (now : ℕ)
    (keyId : String) (timestamp : ℕ) (payload : List UInt8) (providedSignature : String)
    (maxSkewSecs : ℕ) : Except SigningError Unit :=
  match manager.findKey keyId with
  | none => .error (.unknownKeyId keyId)
  | some key =>
    if maxSkewSecs < Nat.dist now timestamp then .error .timestampSkew
    else
      match splitOnce '=' providedSignature.toList with
      | none => .error .invalidFormat
      | some (algo, provided) =>
        if algo ≠ "sha256".toList then .error .invalidFormat
        else if computeSignature lib key.secret timestamp payload = provided then .ok ()
        else .error .mismatch

/-! ### What becomes of a key -/

/-- The secret under an id after one operation. -/
def KeyOp.secretAfter (keyId : String) (secret : Option (List UInt8)) : KeyOp → Option (List UInt8)
  | .add key => if key.id = keyId then some key.secret else secret
  | .rotate key => if key.id = keyId then some key.secret else secret
  | .remove removed => if removed = keyId then none else secret

/-- The secret under an id after some operations. -/
def secretAfter (keyId : String) (secret : Option (List UInt8)) (ops : List KeyOp) :
    Option (List UInt8) :=
  ops.foldl (KeyOp.secretAfter keyId) secret

section
variable {manager : WebhookKeyManager} {keys : List SigningKey} {key : SigningKey}
  {keyId : String}

/-- Leaving out an id hides its key and no other. -/
theorem find?_without (keys : List SigningKey) (removed keyId : String) :
    (keys.filter (·.id ≠ removed)).find? (·.id = keyId) =
      if removed = keyId then none else keys.find? (·.id = keyId) := by
  induction keys with
  | nil => simp
  | cons first rest ih =>
    by_cases hremoved : first.id = removed
    · by_cases hid : removed = keyId <;> simp_all
    · rw [List.filter_cons_of_pos (by simpa using hremoved)]
      by_cases hid : first.id = keyId
      · rw [List.find?_cons_of_pos (by simpa using hid),
          List.find?_cons_of_pos (by simpa using hid),
          if_neg fun heq => hremoved (hid.trans heq.symm)]
      · rw [List.find?_cons_of_neg (by simpa using hid),
          List.find?_cons_of_neg (by simpa using hid), ih]

theorem find?_withKey :
    (withKey keys key).find? (·.id = keyId) =
      if key.id = keyId then some key else keys.find? (·.id = keyId) := by
  rw [withKey, List.find?_append, find?_without]
  split
  · next hid => simp [hid]
  · next hid => simp [hid]

theorem find?_deactivated :
    (keys.map deactivated).find? (·.id = keyId) =
      (keys.find? (·.id = keyId)).map deactivated := by
  rw [List.find?_map]
  rfl

/-- One operation, under the id. -/
theorem secret_apply (manager : WebhookKeyManager) (op : KeyOp) (keyId : String) :
    ((manager.apply op).findKey keyId).map (·.secret) =
      op.secretAfter keyId ((manager.findKey keyId).map (·.secret)) := by
  cases op with
  | add key =>
    simp only [WebhookKeyManager.apply, WebhookKeyManager.addKey, WebhookKeyManager.findKey,
      find?_withKey, KeyOp.secretAfter]
    split <;> rfl
  | rotate key =>
    simp only [WebhookKeyManager.apply, WebhookKeyManager.rotate, WebhookKeyManager.findKey,
      find?_withKey, find?_deactivated, KeyOp.secretAfter]
    split
    · rfl
    · rw [Option.map_map]
      rfl
  | remove removed =>
    simp only [WebhookKeyManager.apply, WebhookKeyManager.removeKey, WebhookKeyManager.findKey,
      KeyOp.secretAfter, find?_without]
    split <;> rfl

/-- Any operations, under the id. -/
theorem secret_foldl (manager : WebhookKeyManager) (ops : List KeyOp) (keyId : String) :
    ((ops.foldl WebhookKeyManager.apply manager).findKey keyId).map (·.secret) =
      secretAfter keyId ((manager.findKey keyId).map (·.secret)) ops := by
  induction ops generalizing manager with
  | nil => rfl
  | cons op ops ih =>
    rw [List.foldl_cons, ih, secret_apply]
    rfl

/-- The active key is found under its id. -/
theorem findKey_activeKey (h : manager.activeKey = some key) :
    manager.findKey key.id = some key := by
  have hmem : key ∈ manager.keys := List.mem_reverse.mp (List.mem_of_find?_eq_some h)
  have hunique := manager.unique
  rw [WebhookKeyManager.findKey]
  generalize manager.keys = keys at hmem hunique
  induction keys with
  | nil => cases hmem
  | cons first rest ih =>
    obtain ⟨hfresh, hrest⟩ := List.nodup_cons.mp hunique
    rcases List.mem_cons.mp hmem with rfl | hmem
    · simp
    · have hne : first.id ≠ key.id := fun heq =>
        hfresh (List.mem_map.mpr ⟨key, hmem, heq.symm⟩)
      simpa [hne] using ih hmem hrest

/-! ### What a signature says -/

theorem lowerHex_injective : Function.Injective lowerHex := by
  intro a
  induction a with
  | nil =>
    intro b h
    have hlength := congrArg List.length h
    rw [length_lowerHex, length_lowerHex] at hlength
    exact (List.eq_nil_of_length_eq_zero (by simpa using hlength.symm)).symm
  | cons x xs ih =>
    intro b h
    cases b with
    | nil =>
      have hlength := congrArg List.length h
      simp [length_lowerHex] at hlength
    | cons y ys =>
      rw [lowerHex, lowerHex, List.flatMap_cons, List.flatMap_cons] at h
      obtain ⟨hfirst, hrest⟩ := List.append_inj h (by simp [length_hexDigits])
      have hnat := congrArg hexNat? hfirst
      rw [hexNat?_hexDigits, hexNat?_hexDigits] at hnat
      have hx := x.toNat_lt
      have hy := y.toNat_lt
      have hxy : x.toNat = y.toNat := by
        have hmod := Option.some.inj hnat
        omega
      rw [UInt8.toNat_inj.mp hxy, ih hrest]

theorem dot_not_mem_timestamp (timestamp : ℕ) : (46 : UInt8) ∉ asBytes (toString timestamp) := by
  rw [asBytes, utf8Bytes_of_ascii (ascii_toString timestamp), List.mem_map]
  rintro ⟨c, hc, hdot⟩
  rw [toList_toString_nat] at hc
  have hdigit : 48 ≤ c.toNat ∧ c.toNat ≤ 57 :=
    Char.isDigit_iff_toNat.mp (Nat.isDigit_of_mem_toDigits (by decide) (by decide) hc)
  have hnat := congrArg UInt8.toNat hdot
  rw [UInt32.toNat_toUInt8] at hnat
  change c.toNat % 256 = 46 at hnat
  omega

/-- The timestamp and the payload can be read back from what is signed. -/
theorem signedMaterial_injective {timestamp timestamp' : ℕ} {payload payload' : List UInt8}
    (h : signedMaterial timestamp payload = signedMaterial timestamp' payload') :
    timestamp = timestamp' ∧ payload = payload' := by
  obtain ⟨hbytes, hpayload⟩ :=
    eq_of_append_separator (dot_not_mem_timestamp _) (dot_not_mem_timestamp _) h
  have htext := utf8Bytes_injective hbytes
  rw [toList_toString_nat, toList_toString_nat] at htext
  exact ⟨toDigits_injective htext, hpayload⟩

/-- What `sign` writes is in the format that `verify` reads. -/
theorem splitOnce_signature (digest : List Char) :
    splitOnce '=' ("sha256=" ++ String.ofList digest).toList = some ("sha256".toList, digest) := by
  have htext : ("sha256=" ++ String.ofList digest).toList = "sha256".toList ++ '=' :: digest := by
    simp
  have hhex : '=' ∉ "sha256".toList := by decide
  rw [htext, splitOnce_append hhex]

end

section
variable {lib : MacLibrary} {manager : WebhookKeyManager} {timestamp : ℕ} {payload : List UInt8}
  {request : SignedRequest}

theorem sign_ok (h : manager.sign lib timestamp payload = .ok request) :
    ∃ key, manager.activeKey = some key ∧ request.keyId = key.id ∧
      request.signatureHeader =
        "sha256=" ++ String.ofList (computeSignature lib key.secret timestamp payload) := by
  rw [WebhookKeyManager.sign] at h
  split at h
  · cases h
  · next key hactive =>
    cases h
    exact ⟨key, hactive, rfl, rfl⟩

/-- Two secrets sign alike just where the MACs are alike. -/
theorem computeSignature_eq_iff {secret secret' : List UInt8} {timestamp' : ℕ}
    {payload' : List UInt8} :
    computeSignature lib secret' timestamp' payload' =
        computeSignature lib secret timestamp payload ↔
      lib.hmac (lib.block secret') (signedMaterial timestamp' payload') =
        lib.hmac (lib.block secret) (signedMaterial timestamp payload) :=
  lowerHex_injective.eq_iff

/-- The request of a signing, after any operations on the keys. -/
theorem verify_foldl (h : manager.sign lib timestamp payload = .ok request) (ops : List KeyOp)
    (now timestamp' : ℕ) (payload' : List UInt8) (skew : ℕ) :
    ∃ key, manager.activeKey = some key ∧ request.keyId = key.id ∧
      ((ops.foldl WebhookKeyManager.apply manager).verify lib now request.keyId timestamp' payload'
          request.signatureHeader skew = .ok () ↔
        ∃ secret, secretAfter request.keyId (some key.secret) ops = some secret ∧
          Nat.dist now timestamp' ≤ skew ∧
          lib.hmac (lib.block secret) (signedMaterial timestamp' payload') =
            lib.hmac (lib.block key.secret) (signedMaterial timestamp payload)) := by
  obtain ⟨key, hactive, hid, hheader⟩ := sign_ok h
  refine ⟨key, hactive, hid, ?_⟩
  have hkey : manager.findKey request.keyId = some key := hid ▸ findKey_activeKey hactive
  have hsecret := secret_foldl manager ops request.keyId
  rw [hkey, Option.map_some] at hsecret
  rw [← hsecret, WebhookKeyManager.verify, hheader]
  cases hfound : (ops.foldl WebhookKeyManager.apply manager).findKey request.keyId with
  | none => simp
  | some found =>
    by_cases hskew : skew < Nat.dist now timestamp'
    · simp [hskew, Nat.not_le.mpr hskew]
    · have hle : Nat.dist now timestamp' ≤ skew := by omega
      simp only [if_neg hskew, splitOnce_signature, ne_eq, not_true_eq_false, if_false,
        computeSignature_eq_iff, Option.map_some, Option.some.injEq, exists_eq_left', hle, true_and]
      split <;> simp_all

/-- Keys of other ids come and go without a trace. -/
theorem secretAfter_of_untouched {keyId : String} {ops : List KeyOp}
    (h : ∀ op ∈ ops, ∀ key, op = .add key ∨ op = .rotate key → key.id ≠ keyId)
    (secret : Option (List UInt8)) :
    (KeyOp.remove keyId ∉ ops → secretAfter keyId secret ops = secret) ∧
      (KeyOp.remove keyId ∈ ops → secretAfter keyId secret ops = none) := by
  induction ops generalizing secret with
  | nil => simp [secretAfter]
  | cons op ops ih =>
    have hop := h op (List.mem_cons_self ..)
    have ih := ih fun op hmem => h op (List.mem_cons_of_mem _ hmem)
    cases op with
    | add key => simpa [secretAfter, KeyOp.secretAfter, hop key (.inl rfl)] using ih secret
    | rotate key => simpa [secretAfter, KeyOp.secretAfter, hop key (.inr rfl)] using ih secret
    | remove removed =>
      by_cases hid : removed = keyId
      · have hnone := ih none
        have hafter : secretAfter keyId none ops = none := by
          by_cases hmem : KeyOp.remove keyId ∈ ops
          · exact hnone.2 hmem
          · exact hnone.1 hmem
        simpa [secretAfter, KeyOp.secretAfter, hid] using hafter
      · simpa [secretAfter, KeyOp.secretAfter, hid, Ne.symm hid] using ih secret

/-- One key gives two different texts one MAC: an accident of the MAC, not of the text. -/
def MacLibrary.Collision (lib : MacLibrary) (secret : List UInt8) (timestamp timestamp' : ℕ)
    (payload payload' : List UInt8) : Prop :=
  signedMaterial timestamp' payload' ≠ signedMaterial timestamp payload ∧
    lib.hmac (lib.block secret) (signedMaterial timestamp' payload') =
      lib.hmac (lib.block secret) (signedMaterial timestamp payload)

/-- Whatever comes to the other keys, in particular through rotations: a signed request is accepted
    until its key is removed, near its time, and with no other timestamp or payload. -/
theorem WebhookKeyManager.verify_iff
    (hsign : manager.sign lib timestamp payload = .ok request) {ops : List KeyOp}
    (hops : ∀ op ∈ ops, ∀ key, op = .add key ∨ op = .rotate key → key.id ≠ request.keyId)
    (now timestamp' : ℕ) (payload' : List UInt8) (skew : ℕ) :
    ∃ key, manager.activeKey = some key ∧ request.keyId = key.id ∧
      ((ops.foldl WebhookKeyManager.apply manager).verify lib now request.keyId timestamp' payload'
          request.signatureHeader skew = .ok () ↔
        .remove request.keyId ∉ ops ∧ Nat.dist now timestamp' ≤ skew ∧
          ((timestamp', payload') = (timestamp, payload) ∨
            lib.Collision key.secret timestamp timestamp' payload payload')) := by
  obtain ⟨key, hactive, hid, hverify⟩ := verify_foldl hsign ops now timestamp' payload' skew
  obtain ⟨hkept, hremoved⟩ := secretAfter_of_untouched hops (some key.secret)
  refine ⟨key, hactive, hid, hverify.trans ?_⟩
  have hmac : lib.hmac (lib.block key.secret) (signedMaterial timestamp' payload') =
        lib.hmac (lib.block key.secret) (signedMaterial timestamp payload) ↔
      (timestamp', payload') = (timestamp, payload) ∨
        lib.Collision key.secret timestamp timestamp' payload payload' := by
    by_cases hsame : (timestamp', payload') = (timestamp, payload)
    · cases hsame
      simp
    · have hmaterial : signedMaterial timestamp' payload' ≠ signedMaterial timestamp payload := by
        intro h
        obtain ⟨rfl, rfl⟩ := signedMaterial_injective h
        exact hsame rfl
      simp [hsame, hmaterial, MacLibrary.Collision]
  by_cases hmem : KeyOp.remove request.keyId ∈ ops
  · simp [hremoved hmem, hmem]
  · simp [hkept hmem, hmem, hmac]

/-- A MAC for trying out: the message behind the key. -/
def sampleMac : MacLibrary := ⟨id, fun block message => block ++ message⟩

def sampleKey (id : String) (secret : List UInt8) : SigningKey := ⟨id, secret, 0, true⟩

def sampleRequest : SignedRequest :=
  ((WebhookKeyManager.new.addKey (sampleKey "old" [1, 2])).sign sampleMac 7 [5]).toOption.getD
    ⟨"", "", 0, ""⟩

theorem verify_iff_rotated :
    (WebhookKeyManager.new.addKey (sampleKey "old" [1, 2])).sign sampleMac 7 [5] =
        .ok sampleRequest ∧
      ∃ key, (WebhookKeyManager.new.addKey (sampleKey "old" [1, 2])).activeKey = some key ∧
        sampleRequest.keyId = key.id ∧
          (([.rotate (sampleKey "new" [3])].foldl WebhookKeyManager.apply
              (WebhookKeyManager.new.addKey (sampleKey "old" [1, 2]))).verify sampleMac 9
                sampleRequest.keyId 7 [5] sampleRequest.signatureHeader 300 = .ok () ↔
            .remove sampleRequest.keyId ∉ [KeyOp.rotate (sampleKey "new" [3])] ∧
              Nat.dist 9 7 ≤ 300 ∧
                ((7, [5]) = (7, [(5 : UInt8)]) ∨
                  sampleMac.Collision key.secret 7 7 [5] [5])) :=
  ⟨rfl, WebhookKeyManager.verify_iff rfl (by
    intro op hop key hkey
    rcases List.mem_singleton.mp hop with rfl
    rcases hkey with hkey | hkey
    · cases hkey
    · cases hkey
      decide) 9 7 [5] 300⟩

end

end SorobanPulse.Webhook
