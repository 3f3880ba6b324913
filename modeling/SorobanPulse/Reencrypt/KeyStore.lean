import SorobanPulse.Reencrypt.RotateCredentials

/-! The key store: versioned keys, and the two keys that `decrypt` tries.

        rotate k₂   keys  1 ↦ k₁  2 ↦ k₂            encrypt ──▶ {data, nonce, key_version: 2}
        rotate k₃   keys  1 ↦ k₁  2 ↦ k₂  3 ↦ k₃    decrypt ──▶ tries k₃, then k₂

    The store keeps every key and each envelope names its version, but `decrypt` looks at neither:
    what was made with `k₁` is lost with the second rotation. -/

namespace SorobanPulse.Reencrypt
open Ingest Lib

/-- `KeyStore`; the current version always has a key. -/
structure KeyStore where
  currentVersion : UInt32
  keys : UInt32 → Option EncryptionKey
  hasCurrent : (keys currentVersion).isSome

namespace KeyStore

def new (initialKey : EncryptionKey) : KeyStore where
  currentVersion := 1
  keys := Function.update (fun _ => none) 1 (some initialKey)
  hasCurrent := by rw [Function.update_self]; rfl

/-- The version is a `u32` and wraps. -/
def rotate (s : KeyStore) (newKey : EncryptionKey) : KeyStore where
  currentVersion := s.currentVersion + 1
  keys := Function.update s.keys (s.currentVersion + 1) (some newKey)
  hasCurrent := by rw [Function.update_self]; rfl

def getKey (s : KeyStore) (version : UInt32) : Option EncryptionKey := s.keys version

def getCurrentKey (s : KeyStore) : EncryptionKey := (s.keys s.currentVersion).get s.hasCurrent

end KeyStore

/-- `mod inner`, which the feature compiles, while the store is at this version. -/
def inner (d : Deployment) (version : UInt32) : Deployment :=
  { d with encryptionFeature := true, keyVersion := version.toNat }

/-- An envelope and, for the record, what it was made of. -/
structure Sealed where
  key : EncryptionKey
  version : UInt32
  plaintext : Value
  envelope : Value

/-- `KEY_STORE` and, for the record, the key before the last rotation and the envelopes so far. -/
structure KeyState where
  store : Option KeyStore := none
  previous : Option EncryptionKey := none
  produced : List Sealed := []

/-- `KEY_STORE.get_or_init`, with a key of zeros. -/
def KeyState.getOrInit (s : KeyState) : KeyStore := s.store.getD (.new 0)

def KeyState.currentKey (s : KeyState) : EncryptionKey := s.getOrInit.getCurrentKey

inductive KeyAction where
  | initKeyStore (initialKey : EncryptionKey)
  | rotateEncryptionKey (newKey : EncryptionKey)
  /-- With the key that is current, and the nonce that is drawn. -/
  | encrypt (nonce : String) (plaintext : Value)

section
variable (d : Deployment)

def KeyState.step (s : KeyState) : KeyAction → Option KeyState
  -- `OnceLock::set`, whose result is dropped
  | .initKeyStore initialKey => some { s with store := some (s.store.getD (.new initialKey)) }
  | .rotateEncryptionKey newKey =>
    some { s with store := some (s.getOrInit.rotate newKey), previous := some s.currentKey }
  | .encrypt nonce plaintext =>
    let version := s.getOrInit.currentVersion
    match encrypt (inner d version) s.currentKey nonce plaintext with
    | none => some s
    | some envelope =>
      some { s with
        store := some s.getOrInit
        produced := { key := s.currentKey, version, plaintext, envelope } :: s.produced }

/-- The current key and the one before it open every envelope, and its version names its key. -/
structure Survives (s : KeyState) : Prop where
  readable : ∀ e ∈ s.produced, decrypt (inner d s.getOrInit.currentVersion) s.currentKey s.previous
    e.envelope = some e.plaintext
  identified : ∀ e ∈ s.produced, ∃ version : UInt32,
    member e.envelope "key_version" = some (.number (.int version.toNat)) ∧
      s.getOrInit.getKey version = some e.key

/-- After every sequence of calls. -/
def AlwaysSurvives : Prop :=
  ∀ actions t, AnyRun (KeyState.step d) {} actions t → Survives d t

/-- A rotation leaves no envelope two keys behind and gives out no version that an envelope has, and
    serde_json reads back what is encrypted. -/
def Harmless (s : KeyState) : KeyAction → Prop
  | .initKeyStore _ => True
  | .rotateEncryptionKey newKey => ∀ e ∈ s.produced,
    (e.key = newKey ∨ e.key = s.currentKey) ∧
      (e.version = s.getOrInit.currentVersion + 1 → e.key = newKey)
  | .encrypt nonce plaintext => ∀ bytes, d.cipher.toVec plaintext = some bytes →
    (d.cipher.encrypt s.currentKey nonce bytes).isSome → d.cipher.fromSlice bytes = some plaintext

end

section
variable {d : Deployment} {s t : KeyState} {action : KeyAction} {store : KeyStore} {e : Sealed}
  {key newKey : EncryptionKey} {old : Option EncryptionKey} {version : UInt32}

/-! ### Keys and versions -/

@[simp] theorem getCurrentKey_rotate (store : KeyStore) (newKey : EncryptionKey) :
    (store.rotate newKey).getCurrentKey = newKey := by
  simp [KeyStore.getCurrentKey, KeyStore.rotate]

theorem getKey_current (store : KeyStore) :
    store.getKey store.currentVersion = some store.getCurrentKey :=
  (Option.some_get store.hasCurrent).symm

theorem getKey_rotate_self : (store.rotate newKey).getKey (store.currentVersion + 1) = some newKey :=
  Function.update_self ..

theorem getKey_rotate_of_ne (h : version ≠ store.currentVersion + 1) :
    (store.rotate newKey).getKey version = store.getKey version :=
  Function.update_of_ne h ..

/-! ### What the keys open -/

/-- How an envelope was made. -/
def Sealed.MadeBy (d : Deployment) (e : Sealed) (bytes : List UInt8) : Prop :=
  d.cipher.toVec e.plaintext = some bytes ∧ ∃ nonce data,
    d.cipher.encrypt e.key nonce bytes = some data ∧
      e.envelope = Ingest.envelope data nonce e.version.toNat

theorem inner_feature : (inner d version).encryptionFeature = true := rfl

theorem madeBy_of_encrypt {nonce : String} {plaintext sealedValue : Value}
    (h : encrypt (inner d version) key nonce plaintext = some sealedValue) :
    ∃ bytes, Sealed.MadeBy d ⟨key, version, plaintext, sealedValue⟩ bytes ∧
      (d.cipher.encrypt key nonce bytes).isSome := by
  rw [encrypt, if_pos inner_feature] at h
  obtain ⟨bytes, hbytes, h⟩ := Option.bind_eq_some_iff.mp h
  obtain ⟨data, hdata, h⟩ := Option.bind_eq_some_iff.mp h
  cases h
  exact ⟨bytes, ⟨hbytes, nonce, data, hdata, rfl⟩, Option.isSome_of_eq_some hdata⟩

theorem decrypt_inner (data nonce : String) (n : ℕ) :
    decrypt (inner d version) key old (envelope data nonce n) =
      ((d.cipher.decrypt key nonce data).or
        (old.bind fun k => d.cipher.decrypt k nonce data)).bind d.cipher.fromSlice := by
  rw [decrypt, isEnvelope_envelope, Bool.and_true, if_pos inner_feature]
  simp [envelope, member, List.lookup, Value.asStr, inner]

/-- Of the two keys that are tried, one is the key of the envelope. -/
theorem decrypt_madeBy (hauth : Authentic d.cipher) {bytes : List UInt8} (h : e.MadeBy d bytes)
    (hkey : e.key = key ∨ old = some e.key) :
    decrypt (inner d version) key old e.envelope = d.cipher.fromSlice bytes := by
  obtain ⟨-, nonce, data, hdata, henvelope⟩ := h
  rw [henvelope, decrypt_inner]
  by_cases hown : e.key = key
  · rw [← hown, hauth.opens hdata]
    rfl
  · rw [hauth.rejects hdata (Ne.symm hown), hkey.resolve_left hown, Option.none_or,
      Option.bind_some, hauth.opens hdata]
    rfl

/-- Neither of them is. -/
theorem decrypt_other (hauth : Authentic d.cipher) {bytes : List UInt8} (h : e.MadeBy d bytes)
    (hkey : e.key ≠ key) (hold : old ≠ some e.key) :
    decrypt (inner d version) key old e.envelope = none := by
  obtain ⟨-, nonce, data, hdata, henvelope⟩ := h
  rw [henvelope, decrypt_inner, hauth.rejects hdata hkey.symm, Option.none_or]
  cases old with
  | none => rfl
  | some k =>
    rw [Option.bind_some, hauth.rejects hdata (fun hk => hold (congrArg some hk))]
    rfl

/-! ### The invariant -/

/-- Every envelope was made with one of the two keys, and the store has it under its version. -/
structure KeyState.Inv (d : Deployment) (s : KeyState) : Prop where
  made : ∀ e ∈ s.produced, ∃ bytes, e.MadeBy d bytes ∧ d.cipher.fromSlice bytes = some e.plaintext
  recent : ∀ e ∈ s.produced, e.key = s.currentKey ∨ s.previous = some e.key
  kept : ∀ e ∈ s.produced, s.getOrInit.getKey e.version = some e.key
  started : s.produced ≠ [] → s.store.isSome

theorem survives_of_inv (hauth : Authentic d.cipher) (hinv : s.Inv d) : Survives d s := by
  refine ⟨?_, ?_⟩
  · intro e he
    obtain ⟨bytes, hmade, hreads⟩ := hinv.made e he
    rw [decrypt_madeBy hauth hmade (hinv.recent e he), hreads]
  · intro e he
    obtain ⟨bytes, ⟨-, nonce, data, -, henvelope⟩, -⟩ := hinv.made e he
    refine ⟨e.version, ?_, hinv.kept e he⟩
    rw [henvelope]
    rfl

/-- A second initialisation changes nothing, and a first one comes before every envelope. -/
theorem KeyState.Inv.init (hinv : s.Inv d) (initialKey : EncryptionKey) :
    KeyState.Inv d { s with store := some (s.store.getD (.new initialKey)) } := by
  cases hstore : s.store with
  | some store =>
    have hsame : { s with store := some store } = s := by rw [← hstore]
    rw [Option.getD_some, hsame]
    exact hinv
  | none =>
    have hnil : s.produced = [] := by
      by_contra hne
      have hsome := hinv.started hne
      rw [hstore] at hsome
      cases hsome
    refine ⟨?_, ?_, ?_, fun _ => rfl⟩
    all_goals
      intro e he
      dsimp only at he
      rw [hnil] at he
      cases he

theorem KeyState.Inv.rotate (hinv : s.Inv d) (hP : Harmless d s (.rotateEncryptionKey newKey)) :
    KeyState.Inv d { s with
      store := some (s.getOrInit.rotate newKey)
      previous := some s.currentKey } := by
  refine ⟨hinv.made, ?_, ?_, fun _ => rfl⟩
  · intro e he
    rcases (hP e he).1 with hkey | hkey
    · exact .inl (hkey.trans (getCurrentKey_rotate s.getOrInit newKey).symm)
    · exact .inr (congrArg some hkey.symm)
  · intro e he
    change (s.getOrInit.rotate newKey).getKey e.version = some e.key
    by_cases hversion : e.version = s.getOrInit.currentVersion + 1
    · rw [hversion, getKey_rotate_self, (hP e he).2 hversion]
    · rw [getKey_rotate_of_ne hversion]
      exact hinv.kept e he

theorem KeyState.Inv.encrypt (hinv : s.Inv d) {bytes : List UInt8}
    (hmade : e.MadeBy d bytes) (hreads : d.cipher.fromSlice bytes = some e.plaintext)
    (hkey : e.key = s.currentKey) (hversion : e.version = s.getOrInit.currentVersion) :
    KeyState.Inv d { s with store := some s.getOrInit, produced := e :: s.produced } := by
  refine ⟨?_, ?_, ?_, fun _ => rfl⟩
  · exact List.forall_mem_cons.mpr ⟨⟨bytes, hmade, hreads⟩, hinv.made⟩
  · exact List.forall_mem_cons.mpr ⟨.inl hkey, hinv.recent⟩
  · refine List.forall_mem_cons.mpr ⟨?_, hinv.kept⟩
    rw [hversion, hkey]
    exact getKey_current s.getOrInit

/-- What a step can do. -/
theorem keyStep_cases (h : s.step d action = some t) :
    (∃ initialKey, action = .initKeyStore initialKey ∧
      t = { s with store := some (s.store.getD (.new initialKey)) }) ∨
    (∃ newKey, action = .rotateEncryptionKey newKey ∧ t = { s with
      store := some (s.getOrInit.rotate newKey)
      previous := some s.currentKey }) ∨
    (∃ nonce plaintext, action = .encrypt nonce plaintext ∧ t = s ∧
      encrypt (inner d s.getOrInit.currentVersion) s.currentKey nonce plaintext = none) ∨
    ∃ nonce plaintext bytes e, action = .encrypt nonce plaintext ∧ e.MadeBy d bytes ∧
      e.key = s.currentKey ∧ e.version = s.getOrInit.currentVersion ∧ e.plaintext = plaintext ∧
      (d.cipher.encrypt s.currentKey nonce bytes).isSome ∧
      t = { s with store := some s.getOrInit, produced := e :: s.produced } := by
  cases action with
  | initKeyStore initialKey =>
    cases h
    exact .inl ⟨initialKey, rfl, rfl⟩
  | rotateEncryptionKey newKey =>
    cases h
    exact .inr (.inl ⟨newKey, rfl, rfl⟩)
  | encrypt nonce plaintext =>
    rw [KeyState.step] at h
    split at h
    · next hnone =>
      cases h
      exact .inr (.inr (.inl ⟨nonce, plaintext, rfl, rfl, hnone⟩))
    · next sealedValue hsome =>
      cases h
      obtain ⟨bytes, hmade, hopen⟩ := madeBy_of_encrypt hsome
      exact .inr (.inr (.inr ⟨nonce, plaintext, bytes, _, rfl, hmade, rfl, rfl, rfl, hopen, rfl⟩))

theorem inv_keyStep (hP : Harmless d s action) (h : s.step d action = some t) (hinv : s.Inv d) :
    t.Inv d := by
  obtain ⟨initialKey, rfl, rfl⟩ | ⟨newKey, rfl, rfl⟩ | ⟨nonce, plaintext, rfl, rfl, -⟩ |
    ⟨nonce, plaintext, bytes, e, rfl, hmade, hkey, hversion, rfl, hopen, rfl⟩ := keyStep_cases h
  · exact hinv.init initialKey
  · exact hinv.rotate hP
  · exact hinv
  · exact hinv.encrypt hmade (hP bytes hmade.1 hopen) hkey hversion

/-- A step after which every envelope survives was harmless. -/
theorem harmless_of_survives (hauth : Authentic d.cipher) (h : s.step d action = some t)
    (hinv : s.Inv d) (ht : Survives d t) : Harmless d s action := by
  obtain ⟨initialKey, rfl, rfl⟩ | ⟨newKey, rfl, rfl⟩ | ⟨nonce, plaintext, rfl, rfl, hnone⟩ |
    ⟨nonce, plaintext, bytes, e, rfl, hmade, hkey, hversion, rfl, hopen, rfl⟩ := keyStep_cases h
  · trivial
  · intro e he
    obtain ⟨bytes, hmade, -⟩ := hinv.made e he
    refine ⟨?_, ?_⟩
    · -- an envelope under neither of the two keys would not open any more
      by_contra hneither
      rw [not_or] at hneither
      have hcurrent : e.key ≠ (s.getOrInit.rotate newKey).getCurrentKey := by
        rw [getCurrentKey_rotate]
        exact hneither.1
      have hold : some s.currentKey ≠ some e.key :=
        fun hold => hneither.2 (Option.some.inj hold).symm
      cases (decrypt_other hauth hmade hcurrent hold).symm.trans (ht.readable e he)
    · -- the version that the envelope names must give its key
      intro hversion
      obtain ⟨version, hmember, hgets⟩ := ht.identified e he
      obtain ⟨-, nonce, data, -, henvelope⟩ := hmade
      rw [henvelope] at hmember
      have hint : Value.number (.int e.version.toNat) = .number (.int version.toNat) :=
        Option.some.inj hmember
      have hsame : e.version = version := by
        simpa [UInt32.toNat_inj] using hint
      rw [← hsame, hversion] at hgets
      exact (Option.some.inj (getKey_rotate_self.symm.trans hgets)).symm
  · -- an encryption that returns nothing cannot have had a plaintext to seal
    intro bytes hbytes hopen
    obtain ⟨data, hdata⟩ := Option.isSome_iff_exists.mp hopen
    rw [encrypt, if_pos inner_feature] at hnone
    simp [inner, hbytes, hdata] at hnone
  · intro bytes' hbytes' _
    cases hmade.1.symm.trans hbytes'
    have hopened := ht.readable e List.mem_cons_self
    exact (decrypt_madeBy hauth hmade (.inl hkey)).symm.trans hopened

theorem inv_empty : KeyState.Inv d {} where
  made := fun _ he => absurd he List.not_mem_nil
  recent := fun _ he => absurd he List.not_mem_nil
  kept := fun _ he => absurd he List.not_mem_nil
  started := fun hne => absurd rfl hne

end

/-- In a run every envelope survives at every moment if and only if every call was harmless. -/
theorem survives_iff {d : Deployment} {actions : List KeyAction} {t : KeyState}
    (hauth : Authentic d.cipher) (hrun : AnyRun (KeyState.step d) {} actions t) :
    Throughout (KeyState.step d) (Survives d) {} actions ↔
      Run (KeyState.step d) (Harmless d) {} actions t :=
  hrun.throughout_iff (fun hinv => survives_of_inv hauth hinv)
    (fun hP hs hinv => inv_keyStep hP hs hinv)
    (fun hs hinv ht => harmless_of_survives hauth hs hinv ht) inv_empty

/-! ### One rotation and two -/

def tokenCalls (rotations : List KeyAction) : List KeyAction :=
  .initKeyStore 0 :: .encrypt "n" (.string "token") :: rotations

/-- With the second rotation the first key's envelopes are lost. -/
theorem not_alwaysSurvives_rotateTwice : ¬ AlwaysSurvives tokenDeployment := by
  intro h
  obtain ⟨t, ht⟩ := Option.isSome_iff_exists.mp (by decide +kernel :
    (exec (KeyState.step tokenDeployment) {}
      (tokenCalls [.rotateEncryptionKey 1, .rotateEncryptionKey 2])).isSome = true)
  have hlost : ∀ u ∈ exec (KeyState.step tokenDeployment) {}
      (tokenCalls [.rotateEncryptionKey 1, .rotateEncryptionKey 2]),
      ∃ e ∈ u.produced, decrypt (inner tokenDeployment u.getOrInit.currentVersion) u.currentKey
        u.previous e.envelope = none := by
    decide +kernel
  obtain ⟨e, he, hnone⟩ := hlost t ht
  have hreadable := (h _ t (anyRun_iff_exec.mpr ht)).readable e he
  rw [hnone] at hreadable
  cases hreadable

/-- The first one does no harm. -/
theorem survives_rotateOnce :
    Throughout (KeyState.step tokenDeployment) (Survives tokenDeployment) {}
      (tokenCalls [.rotateEncryptionKey 1]) := by
  obtain ⟨t, ht⟩ := Option.isSome_iff_exists.mp (by decide +kernel :
    (exec (KeyState.step tokenDeployment) {} (tokenCalls [.rotateEncryptionKey 1])).isSome = true)
  have hrun := anyRun_iff_exec.mpr ht
  refine (survives_iff authentic_tokenCipher hrun).mpr ?_
  cases ht
  refine .cons trivial rfl (.cons ?_ rfl (.cons ?_ rfl (.nil _)))
  · intro bytes hbytes _
    cases hbytes
    rfl
  · intro e he
    cases List.mem_singleton.mp he
    exact ⟨.inr rfl, by decide⟩

end SorobanPulse.Reencrypt
