import SorobanPulse.Ingest.Encryption
import SorobanPulse.Lib.Run

/-! `rotate_credentials`: new keys for the stored credentials.

    A run walks the table in the order of the ids, a batch at a time; each batch commits together
    with the checkpoint:

        start ──▶ count ──▶ select ids > last_id ──▶ rotate the batch, save last_id ──┐
          │                  ▲      │ none                                            │
          └── unfinished ────┤      └──▶ finish, Ok                                   │
              checkpoint     └────────────────────────────────────────────────────────┘

    The checkpoint does not say which keys the run had, and what is inserted behind `last_id` is not
    seen again. -/

namespace SorobanPulse.Reencrypt
open Ingest Lib

/-- A row of credentials. -/
structure Credential where
  id : ℕ
  encryptedData : Option Value

structure RotationCheckpoint where
  lastProcessedId : Option ℕ
  totalRows : ℤ
  completedRows : ℤ
  finished : Bool

def ROTATION_BATCH_SIZE : ℕ := 100

/-- Where a run is: `rotating` has selected a batch, `finishing` has found none. -/
inductive Phase where
  | counting
  | scanning (lastId : Option ℕ) (total completed : ℤ)
  | rotating (ids : List ℕ) (total completed : ℤ)
  | finishing (lastId : Option ℕ) (total completed : ℤ)

/-- A run of `rotate_credentials` and, for the record, the credentials that it misses. -/
structure RotationRun where
  oldKey : EncryptionKey
  newKey : EncryptionKey
  phase : Phase
  missed : List ℕ := []

/-- The tables, the run that is under way and, for the record, the keys used so far and what was in
    the table whenever a run returned Ok. -/
structure RotationState where
  credentials : List Credential
  checkpoint : Option RotationCheckpoint
  keys : List EncryptionKey
  run : Option RotationRun := none
  returned : List (EncryptionKey × List Credential) := []

inductive RotationAction where
  /-- A credential is inserted, encrypted with the key that is in use then. -/
  | insert (id : ℕ) (key : EncryptionKey) (nonce : String)
  | start (oldKey newKey : EncryptionKey)
  | count
  | select
  /-- A batch with the nonces that are drawn; an error ends the run. -/
  | rotate (nonce : ℕ → String)
  | finish
  /-- The run fails or its process ends; an open transaction is rolled back. -/
  | interrupt

/-! ### Batches -/

/-- `$1::uuid IS NULL OR id > $1` -/
def isAfter (lastId : Option ℕ) (id : ℕ) : Bool := lastId.all (· < id)

def selectIds (credentials : List Credential) (lastId : Option ℕ) : List ℕ :=
  (((credentials.filter fun row => row.encryptedData.isSome && isAfter lastId row.id).map
    (·.id)).insertionSort (· ≤ ·)).take ROTATION_BATCH_SIZE

def countEncrypted (credentials : List Credential) : ℤ :=
  (credentials.countP (·.encryptedData.isSome) : ℕ)

def updateCredential (credentials : List Credential) (id : ℕ) (data : Value) : List Credential :=
  credentials.map fun row => if row.id = id then { row with encryptedData := some data } else row

section
variable (d : Deployment)

/-- Decrypted with the old key or else the new one, and encrypted with the new one. -/
def reencrypted (oldKey newKey : EncryptionKey) (nonce : String) (data : Value) : Option Value :=
  ((decrypt d oldKey none data).or (decrypt d newKey none data)).bind (encrypt d newKey nonce)

/-- The rows of a batch in turn, and how many were rotated. -/
def rotateBatch (oldKey newKey : EncryptionKey) (nonce : ℕ → String) :
    List Credential → List ℕ → Option (List Credential × ℤ)
  | credentials, [] => some (credentials, 0)
  | credentials, id :: ids =>
    match credentials.find? (·.id = id) with
    | none => none
    | some row =>
      match row.encryptedData with
      | none => rotateBatch oldKey newKey nonce credentials ids
      | some data =>
        match reencrypted d oldKey newKey (nonce id) data with
        | none => none
        | some data' =>
          (rotateBatch oldKey newKey nonce (updateCredential credentials id data') ids).map
            fun (credentials', rotated) => (credentials', rotated + 1)

/-! ### Runs -/

/-- The run will still come to this id. -/
def Phase.toCome : Phase → ℕ → Bool
  | .counting, _ => true
  | .scanning lastId _ _, id => isAfter lastId id
  | .rotating ids _ _, id => ids.contains id || isAfter ids.getLast? id
  | .finishing _ _ _, _ => false

/-- A key opens a credential; there may be nothing in it to open. -/
def opens (key : EncryptionKey) (row : Credential) : Bool :=
  row.encryptedData.all fun data => (decrypt d key none data).isSome

/-- The credentials that a run in this phase does not come to and its new key does not open. -/
def missedBy (newKey : EncryptionKey) (phase : Phase) (rows : List Credential) : List ℕ :=
  (rows.filter fun row => !opens d newKey row && !phase.toCome row.id).map (·.id)

/-- A run resumes from an unfinished checkpoint, whatever its keys were. -/
def startPhase : Option RotationCheckpoint → Phase
  | some checkpoint =>
    if checkpoint.finished then .counting
    else .scanning checkpoint.lastProcessedId checkpoint.totalRows checkpoint.completedRows
  | none => .counting

variable (original : ℕ → Value)

/-- One step, where `original` is the plaintext of each credential. -/
def RotationState.step (s : RotationState) : RotationAction → Option RotationState
  | .insert id key nonce =>
    if id ∈ s.credentials.map (·.id) then none
    else
      (encrypt d key nonce (original id)).map fun data =>
        let row : Credential := { id, encryptedData := some data }
        { s with
          credentials := s.credentials ++ [row]
          keys := key :: s.keys
          run := s.run.map fun run =>
            { run with missed := run.missed ++ missedBy d run.newKey run.phase [row] } }
  | .start oldKey newKey =>
    if s.run.isSome then none
    else
      let phase := startPhase s.checkpoint
      some { s with
        keys := oldKey :: newKey :: s.keys
        run := some { oldKey, newKey, phase, missed := missedBy d newKey phase s.credentials } }
  | .count =>
    s.run.bind fun run =>
      match run.phase with
      | .counting =>
        some { s with
          run := some { run with phase := .scanning none (countEncrypted s.credentials) 0 } }
      | _ => none
  | .select =>
    s.run.bind fun run =>
      match run.phase with
      | .scanning lastId total completed =>
        let ids := selectIds s.credentials lastId
        let phase := if ids = [] then .finishing lastId total completed
          else .rotating ids total completed
        some { s with run := some { run with phase } }
      | _ => none
  | .rotate nonce =>
    s.run.bind fun run =>
      match run.phase with
      | .rotating ids total completed =>
        match rotateBatch d run.oldKey run.newKey nonce s.credentials ids with
        | none => some { s with run := none }
        | some (credentials, rotated) =>
          some { s with
            credentials
            checkpoint := some {
              lastProcessedId := ids.getLast?
              totalRows := total
              completedRows := completed + rotated
              finished := total ≤ completed + rotated }
            run := some { run with phase := .scanning ids.getLast? total (completed + rotated) } }
      | _ => none
  | .finish =>
    s.run.bind fun run =>
      match run.phase with
      | .finishing lastId total completed =>
        some { s with
          checkpoint := some {
            lastProcessedId := lastId
            totalRows := total
            completedRows := completed
            finished := true }
          run := none
          returned := (run.newKey, s.credentials) :: s.returned }
      | _ => none
  | .interrupt => if s.run.isSome then some { s with run := none } else none

/-! ### Complete and resumable -/

/-- Every credential decrypts to its plaintext under a key used so far, and whenever a run returned
    Ok, every credential did under its new key. -/
structure RotationSound (s : RotationState) : Prop where
  readable : ∀ row ∈ s.credentials, ∀ data ∈ row.encryptedData,
    ∃ key ∈ s.keys, decrypt d key none data = some (original row.id)
  complete : ∀ newKey rows, (newKey, rows) ∈ s.returned → ∀ row ∈ rows, ∀ data ∈ row.encryptedData,
    decrypt d newKey none data = some (original row.id)

/-- The plaintext as it is, or encrypted under one of the keys. -/
def Stored (keys : List EncryptionKey) (id : ℕ) (data : Value) : Prop :=
  ∃ key ∈ keys, isEnvelope data = false ∧ data = original id ∨
    ∃ nonce, encrypt d key nonce (original id) = some data

/-- A table of credentials under these keys. -/
structure CredentialTable (keys : List EncryptionKey) (credentials : List Credential) : Prop where
  ids : (credentials.map (·.id)).Nodup
  stored : ∀ row ∈ credentials, ∀ data ∈ row.encryptedData, Stored d original keys row.id data

/-- In every run, from any table and checkpoint. -/
def RotationAlwaysSound : Prop :=
  ∀ (credentials : List Credential) (checkpoint : Option RotationCheckpoint)
    (keys : List EncryptionKey) (actions : List RotationAction) (t : RotationState),
    CredentialTable d original keys credentials →
      AnyRun (RotationState.step d original) { credentials, checkpoint, keys } actions t →
        RotationSound d original t

/-- A run that returns Ok has missed nothing. -/
def NothingMissed (s : RotationState) : RotationAction → Prop
  | .finish => ∀ run ∈ s.run, run.missed = []
  | _ => True

/-- AES-GCM opens what it sealed, under no other key. -/
structure Authentic (cipher : Cipher) : Prop where
  opens : ∀ {key nonce bytes data}, cipher.encrypt key nonce bytes = some data →
    cipher.decrypt key nonce data = some bytes
  rejects : ∀ {key key' nonce bytes data}, cipher.encrypt key nonce bytes = some data →
    key' ≠ key → cipher.decrypt key' nonce data = none

/-- serde_json reads back the plaintext of every credential. -/
def ReadsBack (cipher : Cipher) : Prop :=
  ∀ id bytes, cipher.toVec (original id) = some bytes → cipher.fromSlice bytes = some (original id)

end

section
variable {d : Deployment} {original : ℕ → Value} {keys keys' : List EncryptionKey}
  {key oldKey newKey : EncryptionKey} {nonce : String} {data data' v : Value} {id : ℕ}
  {row row' : Credential} {credentials credentials' : List Credential} {ids : List ℕ}
  {lastId : Option ℕ} {phase : Phase} {s t : RotationState} {action : RotationAction}

/-! ### What the keys open -/

theorem decrypt_envelope (hfeature : d.encryptionFeature = true) (key : EncryptionKey)
    (text nonce : String) : decrypt d key none (envelope text nonce d.keyVersion) =
      (d.cipher.decrypt key nonce text).bind d.cipher.fromSlice := by
  rw [decrypt, hfeature, isEnvelope_envelope, Bool.and_true, if_pos rfl]
  simp [envelope, member, List.lookup, Value.asStr]

/-- A ciphertext opens under its key, and under other keys to nothing else. -/
theorem decrypt_encrypt (hauth : Authentic d.cipher) (hreads : ReadsBack original d.cipher)
    (h : encrypt d key nonce (original id) = some data) :
    decrypt d key none data = some (original id) ∧
      ∀ other v, decrypt d other none data = some v → v = original id := by
  rw [encrypt] at h
  split at h
  · next hfeature =>
    obtain ⟨bytes, hbytes, h⟩ := Option.bind_eq_some_iff.mp h
    obtain ⟨text, htext, h⟩ := Option.bind_eq_some_iff.mp h
    cases h
    have hown : decrypt d key none (envelope text nonce d.keyVersion) = some (original id) := by
      rw [decrypt_envelope hfeature, hauth.opens htext, Option.bind_some, hreads id bytes hbytes]
    refine ⟨hown, ?_⟩
    intro other v hv
    by_cases hkey : other = key
    · rw [hkey, hown] at hv
      exact (Option.some.inj hv).symm
    · rw [decrypt_envelope hfeature, hauth.rejects htext hkey] at hv
      cases hv
  · next hfeature =>
    cases h
    have hplain : ∀ other, decrypt d other none (original id) = some (original id) := by
      intro other
      rw [decrypt, if_neg (by simp [hfeature])]
    refine ⟨hplain key, ?_⟩
    intro other v hv
    rw [hplain other] at hv
    exact (Option.some.inj hv).symm

theorem Stored.mono (h : Stored d original keys id data) (hkeys : ∀ key ∈ keys, key ∈ keys') :
    Stored d original keys' id data := by
  obtain ⟨key, hkey, hdata⟩ := h
  exact ⟨key, hkeys key hkey, hdata⟩

/-- What is stored is readable, and whatever opens it shows the plaintext. -/
theorem Stored.decrypt (hauth : Authentic d.cipher) (hreads : ReadsBack original d.cipher)
    (h : Stored d original keys id data) :
    (∃ key ∈ keys, Ingest.decrypt d key none data = some (original id)) ∧
      ∀ key v, Ingest.decrypt d key none data = some v → v = original id := by
  obtain ⟨key, hkey, ⟨hplain, rfl⟩ | ⟨nonce, hsealed⟩⟩ := h
  · have hall : ∀ key, Ingest.decrypt d key none (original id) = some (original id) :=
      fun key => decrypt_of_not_envelope hplain
    refine ⟨⟨key, hkey, hall key⟩, ?_⟩
    intro other v hv
    rw [hall other] at hv
    exact (Option.some.inj hv).symm
  · obtain ⟨hown, hothers⟩ := decrypt_encrypt hauth hreads hsealed
    exact ⟨⟨key, hkey, hown⟩, hothers⟩

theorem opens_iff (hauth : Authentic d.cipher) (hreads : ReadsBack original d.cipher)
    (hstored : ∀ data ∈ row.encryptedData, Stored d original keys row.id data) :
    opens d key row = true ↔
      ∀ data ∈ row.encryptedData, decrypt d key none data = some (original row.id) := by
  rw [opens, Option.all_eq_true]
  constructor
  · intro h data hdata
    obtain ⟨v, hv⟩ := Option.isSome_iff_exists.mp (h data hdata)
    rw [hv, ((hstored data hdata).decrypt hauth hreads).2 key v hv]
  · intro h data hdata
    rw [h data hdata]
    rfl

/-- What is rotated is sealed with the new key. -/
theorem encrypt_of_reencrypted (hauth : Authentic d.cipher) (hreads : ReadsBack original d.cipher)
    (hstored : Stored d original keys id data)
    (h : reencrypted d oldKey newKey nonce data = some data') :
    encrypt d newKey nonce (original id) = some data' := by
  obtain ⟨v, hv, hencrypt⟩ := Option.bind_eq_some_iff.mp h
  rcases Option.or_eq_some_iff.mp hv with hold | ⟨_, hnew⟩
  · rwa [(hstored.decrypt hauth hreads).2 oldKey v hold] at hencrypt
  · rwa [(hstored.decrypt hauth hreads).2 newKey v hnew] at hencrypt

/-! ### One batch -/

theorem CredentialTable.mono (h : CredentialTable d original keys credentials)
    (hkeys : ∀ key ∈ keys, key ∈ keys') : CredentialTable d original keys' credentials where
  ids := h.ids
  stored := fun row hrow data hdata => (h.stored row hrow data hdata).mono hkeys

theorem ids_updateCredential : (updateCredential credentials id data).map (·.id) =
    credentials.map (·.id) := by
  rw [updateCredential, List.map_map]
  refine List.map_congr_left fun row _ => ?_
  rw [Function.comp_apply]
  split
  · rfl
  · rfl

theorem mem_updateCredential : row' ∈ updateCredential credentials id data ↔
    ∃ row ∈ credentials, (if row.id = id then { row with encryptedData := some data } else row) =
      row' := List.mem_map

theorem table_updateCredential (h : CredentialTable d original keys credentials)
    (hdata : Stored d original keys id data) :
    CredentialTable d original keys (updateCredential credentials id data) where
  ids := by
    rw [ids_updateCredential]
    exact h.ids
  stored := by
    intro row' hrow' data' hdata'
    obtain ⟨row, hrow, heq⟩ := mem_updateCredential.mp hrow'
    split at heq
    · next hid =>
      subst heq
      cases hdata'
      exact hid ▸ hdata
    · subst heq
      exact h.stored row hrow data' hdata'

/-- A batch rotates its rows and leaves the others. -/
structure BatchDone (d : Deployment) (newKey : EncryptionKey) (ids : List ℕ)
    (before after : List Credential) : Prop where
  sameIds : after.map (·.id) = before.map (·.id)
  opened : ∀ row ∈ after, row.id ∈ ids → opens d newKey row = true
  same : ∀ row ∈ after, row.id ∉ ids → row ∈ before

/-- A row with nothing in it is skipped. -/
theorem BatchDone.skip (h : BatchDone d newKey ids credentials credentials')
    (hnodup : (credentials.map (·.id)).Nodup) (hrow : row ∈ credentials)
    (hnull : row.encryptedData = none) :
    BatchDone d newKey (row.id :: ids) credentials credentials' := by
  refine ⟨h.sameIds, ?_, fun row' hrow' hout =>
    h.same row' hrow' fun hin => hout (List.mem_cons_of_mem _ hin)⟩
  intro row' hrow' hin
  by_cases hlater : row'.id ∈ ids
  · exact h.opened row' hrow' hlater
  · have hself : row'.id = row.id := (List.mem_cons.mp hin).resolve_right hlater
    cases List.inj_on_of_nodup_map hnodup (h.same row' hrow' hlater) hrow hself
    rw [opens, hnull]
    rfl

/-- A row is rewritten under the new key, and the rest of the batch follows. -/
theorem BatchDone.rewrite (h : BatchDone d newKey ids (updateCredential credentials id data) credentials')
    (hopens : (decrypt d newKey none data).isSome) :
    BatchDone d newKey (id :: ids) credentials credentials' := by
  refine ⟨h.sameIds.trans ids_updateCredential, ?_, ?_⟩
  · intro row' hrow' hin
    by_cases hlater : row'.id ∈ ids
    · exact h.opened row' hrow' hlater
    · obtain ⟨old, _, heq⟩ := mem_updateCredential.mp (h.same row' hrow' hlater)
      have hself := (List.mem_cons.mp hin).resolve_right hlater
      split at heq
      · subst heq
        exact hopens
      · next hother =>
        subst heq
        exact absurd hself hother
  · intro row' hrow' hout
    obtain ⟨old, hold, heq⟩ := mem_updateCredential.mp
      (h.same row' hrow' fun hin => hout (List.mem_cons_of_mem _ hin))
    split at heq
    · next hhit =>
      subst heq
      exact absurd (List.mem_cons.mpr (.inl hhit)) hout
    · exact heq ▸ hold

theorem rotateBatch_spec (hauth : Authentic d.cipher) (hreads : ReadsBack original d.cipher)
    (hkey : newKey ∈ keys) {nonce : ℕ → String} {rotated : ℤ}
    (htable : CredentialTable d original keys credentials)
    (h : rotateBatch d oldKey newKey nonce credentials ids = some (credentials', rotated)) :
    CredentialTable d original keys credentials' ∧
      BatchDone d newKey ids credentials credentials' := by
  -- on the ids of the batch, with the table as the statements before have left it
  induction ids generalizing credentials credentials' rotated with
  | nil =>
    cases h
    exact ⟨htable, rfl, fun _ _ hid => absurd hid List.not_mem_nil, fun _ hrow _ => hrow⟩
  | cons id ids ih =>
    rw [rotateBatch] at h
    split at h
    · cases h
    · next row hfind =>
      have hrow := List.mem_of_find?_eq_some hfind
      have hid : row.id = id := by simpa using List.find?_some hfind
      subst hid
      split at h
      · -- nothing is encrypted in the row
        next hnull =>
        obtain ⟨htable', hdone⟩ := ih htable h
        exact ⟨htable', hdone.skip htable.ids hrow hnull⟩
      · next data hdata =>  -- opened with neither of the two keys, the row fails the batch
        split at h
        · cases h
        · next data' hdata' =>
          obtain ⟨⟨after, rotated'⟩, hrest, hpair⟩ := Option.map_eq_some_iff.mp h
          cases hpair
          -- the row is now under the new key, which opens it
          have hsealed := encrypt_of_reencrypted hauth hreads
            (htable.stored row hrow data hdata) hdata'
          have hmid := table_updateCredential htable ⟨newKey, hkey, .inr ⟨_, hsealed⟩⟩
          obtain ⟨htable', hdone⟩ := ih hmid hrest
          refine ⟨htable', hdone.rewrite ?_⟩
          rw [(decrypt_encrypt hauth hreads hsealed).1]
          rfl

/-! ### Selection -/

theorem mem_selectIds (h : id ∈ selectIds credentials lastId) : isAfter lastId id = true := by
  have hmem := List.mem_of_mem_take h
  rw [List.mem_insertionSort, List.mem_map] at hmem
  obtain ⟨row, hrow, rfl⟩ := hmem
  simp only [List.mem_filter, Bool.and_eq_true] at hrow
  exact hrow.2.2

/-- An element of a sorted list is among the first ones, or comes after the last of those. -/
theorem mem_take_or_lt {l : List ℕ} {n x : ℕ} (hsorted : l.Pairwise (· ≤ ·)) (hn : 0 < n)
    (hx : x ∈ l) : x ∈ l.take n ∨ ∃ last, (l.take n).getLast? = some last ∧ last < x := by
  by_cases hin : x ∈ l.take n
  · exact .inl hin
  · right
    rw [← List.take_append_drop n l] at hsorted hx
    have hlater := (List.mem_append.mp hx).resolve_left hin
    cases hlast : (l.take n).getLast? with
    | none =>
      rcases List.take_eq_nil_iff.mp (List.getLast?_eq_none_iff.mp hlast) with hzero | hnil
      · omega
      · rw [hnil] at hlater
        cases List.mem_of_mem_drop hlater
    | some last =>
      have hmem := List.mem_of_getLast? hlast
      refine ⟨last, rfl, lt_of_le_of_ne ?_ ?_⟩
      · exact (List.pairwise_append.mp hsorted).2.2 last hmem x hlater
      · rintro rfl
        exact hin hmem

/-- A credential after the last id is selected, or comes after the last one selected. -/
theorem selectIds_or_after (hrow : row ∈ credentials) (hsome : row.encryptedData.isSome = true)
    (hafter : isAfter lastId row.id = true) : row.id ∈ selectIds credentials lastId ∨
      ∃ last, (selectIds credentials lastId).getLast? = some last ∧ last < row.id := by
  refine mem_take_or_lt (List.pairwise_insertionSort (· ≤ ·) _) (by decide) ?_
  rw [List.mem_insertionSort]
  exact List.mem_map_of_mem (List.mem_filter.mpr ⟨hrow, by simp [hsome, hafter]⟩)

/-! ### One step -/

/-- A run that is under way: every credential is open to its new key, still to come, or missed for
    good. -/
structure RotationRun.Inv (d : Deployment) (run : RotationRun) (keys : List EncryptionKey)
    (credentials : List Credential) : Prop where
  newKey_mem : run.newKey ∈ keys
  covered : ∀ row ∈ credentials, opens d run.newKey row = true ∨
    run.phase.toCome row.id = true ∨ row.id ∈ run.missed
  missed : ∀ id ∈ run.missed, run.phase.toCome id = false ∧
    ∃ row ∈ credentials, row.id = id ∧ opens d run.newKey row = false

structure RotationState.Inv (d : Deployment) (original : ℕ → Value) (s : RotationState) : Prop where
  table : CredentialTable d original s.keys s.credentials
  run : ∀ run ∈ s.run, run.Inv d s.keys s.credentials

theorem mem_missedBy {rows : List Credential} : id ∈ missedBy d newKey phase rows ↔
    ∃ row ∈ rows, row.id = id ∧ opens d newKey row = false ∧ phase.toCome id = false := by
  simp only [missedBy, List.mem_map, List.mem_filter, Bool.and_eq_true, Bool.not_eq_true']
  constructor
  · rintro ⟨row, ⟨hrow, hshut, hpast⟩, rfl⟩
    exact ⟨row, hrow, rfl, hshut, hpast⟩
  · rintro ⟨row, hrow, rfl, hshut, hpast⟩
    exact ⟨row, ⟨hrow, hshut, hpast⟩, rfl⟩

/-- What a phase does not come to and the key does not open is missed. -/
theorem covered_missedBy {rows : List Credential} (hrow : row ∈ rows) :
    opens d newKey row = true ∨ phase.toCome row.id = true ∨
      row.id ∈ missedBy d newKey phase rows := by
  by_cases hopen : opens d newKey row = true
  · exact .inl hopen
  · by_cases hcome : phase.toCome row.id = true
    · exact .inr (.inl hcome)
    · rw [Bool.not_eq_true] at hopen hcome
      exact .inr (.inr (mem_missedBy.mpr ⟨row, hrow, rfl, hopen, hcome⟩))

/-- Another phase that still comes to what the run had still to come to. -/
theorem RotationRun.Inv.next {run : RotationRun} (h : run.Inv d keys credentials)
    (hcome : ∀ row ∈ credentials, run.phase.toCome row.id = true →
      opens d run.newKey row = true ∨ phase.toCome row.id = true)
    (hpast : ∀ id, run.phase.toCome id = false → phase.toCome id = false) :
    RotationRun.Inv d { run with phase } keys credentials where
  newKey_mem := h.newKey_mem
  covered := by
    intro row hrow
    rcases h.covered row hrow with hopen | hlater | hmissed
    · exact .inl hopen
    · exact (hcome row hrow hlater).imp_right .inl
    · exact .inr (.inr hmissed)
  missed := by
    intro id hid
    obtain ⟨hlater, hrow⟩ := h.missed id hid
    exact ⟨hpast id hlater, hrow⟩

theorem inv_insert (hinv : s.Inv d original) (hnew : id ∉ s.credentials.map (·.id))
    (hdata : encrypt d key nonce (original id) = some data) : RotationState.Inv d original { s with
      credentials := s.credentials ++ [⟨id, some data⟩]
      keys := key :: s.keys
      run := s.run.map fun run => { run with
        missed := run.missed ++ missedBy d run.newKey run.phase [⟨id, some data⟩] } } := by
  have hold := hinv.table.mono fun k hk => List.mem_cons_of_mem key hk
  refine ⟨⟨?_, ?_⟩, ?_⟩
  · rw [List.map_append, List.nodup_append]
    refine ⟨hold.ids, List.nodup_singleton _, ?_⟩
    rintro other hmem last hlast rfl
    cases List.mem_singleton.mp hlast
    exact hnew hmem
  · intro row hrow data' hdata'
    rcases List.mem_append.mp hrow with hrow | hrow
    · exact hold.stored row hrow data' hdata'
    · cases List.mem_singleton.mp hrow
      cases hdata'
      exact ⟨key, List.mem_cons_self, .inr ⟨nonce, hdata⟩⟩
  · -- a run under way takes the new row as missed, unless it is still to come
    rintro _ hmem
    obtain ⟨run, hrun, rfl⟩ := Option.mem_map.mp hmem
    obtain ⟨hkey, hcovered, hmissed⟩ := hinv.run run hrun
    refine ⟨List.mem_cons_of_mem _ hkey, ?_, ?_⟩
    · intro row hrow
      rcases List.mem_append.mp hrow with hrow | hrow
      · exact (hcovered row hrow).imp_right (Or.imp_right (List.mem_append_left _))
      · exact (covered_missedBy hrow).imp_right (Or.imp_right (List.mem_append_right _))
    · intro other hother
      rcases List.mem_append.mp hother with hother | hother
      · obtain ⟨hpast, row, hrow, hrest⟩ := hmissed other hother
        exact ⟨hpast, row, List.mem_append_left _ hrow, hrest⟩
      · obtain ⟨row, hrow, hid, hshut, hpast⟩ := mem_missedBy.mp hother
        exact ⟨hpast, row, List.mem_append_right _ hrow, hid, hshut⟩

theorem inv_start (hinv : s.Inv d original) (oldKey newKey : EncryptionKey) (phase : Phase) :
    RotationState.Inv d original { s with
      keys := oldKey :: newKey :: s.keys
      run := some { oldKey, newKey, phase, missed := missedBy d newKey phase s.credentials } } := by
  refine ⟨hinv.table.mono fun k hk => List.mem_cons_of_mem _ (List.mem_cons_of_mem _ hk), ?_⟩
  rintro _ ⟨⟩
  refine ⟨List.mem_cons_of_mem _ List.mem_cons_self, fun row hrow => covered_missedBy hrow, ?_⟩
  intro id hid
  obtain ⟨row, hrow, heq, hshut, hpast⟩ := mem_missedBy.mp hid
  exact ⟨hpast, row, hrow, heq, hshut⟩

theorem inv_select {run : RotationRun} {total completed : ℤ}
    (h : run.Inv d keys credentials) (hphase : run.phase = .scanning lastId total completed) :
    RotationRun.Inv d { run with
      phase := (if selectIds credentials lastId = [] then .finishing lastId total completed
        else .rotating (selectIds credentials lastId) total completed) } keys credentials := by
  -- what was still to come is open, or in the new batch, or behind it
  have hlater : ∀ row ∈ credentials, run.phase.toCome row.id = true →
      opens d run.newKey row = true ∨ row.id ∈ selectIds credentials lastId ∨
        ∃ last, (selectIds credentials lastId).getLast? = some last ∧ last < row.id := by
    intro row hrow hcome
    rw [hphase] at hcome
    cases hdata : row.encryptedData with
    | none =>  -- nothing is encrypted in the row
      left
      rw [opens, hdata]
      rfl
    | some data => exact .inr (selectIds_or_after hrow (by rw [hdata]; rfl) hcome)
  split
  · -- an empty batch means that nothing is left to come
    next hnil =>
    apply h.next
    · intro row hrow hcome
      rcases hlater row hrow hcome with hopen | hin | ⟨last, hlast, _⟩
      · exact .inl hopen
      · rw [hnil] at hin
        cases hin
      · rw [hnil] at hlast
        cases hlast
    · exact fun _ _ => rfl
  · next hsome =>
    apply h.next
    · intro row hrow hcome
      rcases hlater row hrow hcome with hopen | hin | ⟨last, hlast, hlt⟩
      · exact .inl hopen
      · exact .inr (by simp [Phase.toCome, hin])
      · exact .inr (by simp [Phase.toCome, isAfter, hlast, hlt])
    · -- what lay before the batch is passed for good
      intro id hpast
      rw [hphase] at hpast
      cases lastId with
      | none => cases hpast
      | some l =>
        have hle : id ≤ l := by simpa [Phase.toCome, isAfter] using hpast
        have hselected : ∀ other ∈ selectIds credentials (some l), id < other := by
          intro other hother
          have hlt : l < other := by simpa [isAfter] using mem_selectIds hother
          omega
        rw [Phase.toCome, Bool.or_eq_false_iff]
        refine ⟨?_, ?_⟩
        · rw [Bool.eq_false_iff, ne_eq, List.contains_iff_mem]
          exact fun hin => absurd (hselected id hin) (lt_irrefl _)
        · cases hlast : (selectIds credentials (some l)).getLast? with
          | none => exact absurd (List.getLast?_eq_none_iff.mp hlast) hsome
          | some last =>
            have hlt := hselected last (List.mem_of_getLast? hlast)
            simp [isAfter]
            omega

theorem inv_rotate (hauth : Authentic d.cipher) (hreads : ReadsBack original d.cipher)
    {run : RotationRun} {nonce : ℕ → String} {rotated total completed completed' : ℤ}
    (htable : CredentialTable d original keys credentials) (hinv : run.Inv d keys credentials)
    (hphase : run.phase = .rotating ids total completed)
    (h : rotateBatch d run.oldKey run.newKey nonce credentials ids =
      some (credentials', rotated)) :
    CredentialTable d original keys credentials' ∧
      RotationRun.Inv d { run with phase := .scanning ids.getLast? total completed' } keys
        credentials' := by
  obtain ⟨htable', hids, hopened, hsame⟩ := rotateBatch_spec hauth hreads hinv.newKey_mem htable h
  refine ⟨htable', hinv.newKey_mem, ?_, ?_⟩
  · intro row hrow
    by_cases hin : row.id ∈ ids
    · exact .inl (hopened row hrow hin)
    · refine (hinv.covered row (hsame row hrow hin)).imp_right (Or.imp_left fun hcome => ?_)
      rw [hphase, Phase.toCome, Bool.or_eq_true, List.contains_iff_mem] at hcome
      exact hcome.resolve_left hin
  · intro id hid
    obtain ⟨hpast, row, hrow, heq, hshut⟩ := hinv.missed id hid
    rw [hphase, Phase.toCome, Bool.or_eq_false_iff, Bool.eq_false_iff, ne_eq,
      List.contains_iff_mem] at hpast
    refine ⟨hpast.2, row, ?_, heq, hshut⟩
    -- the row with its id is still there, and it is this one
    have hmem : row.id ∈ credentials'.map (·.id) := hids ▸ List.mem_map_of_mem hrow
    obtain ⟨row', hrow', hid'⟩ := List.mem_map.mp hmem
    have hold := hsame row' hrow' (by rw [hid', heq]; exact hpast.1)
    exact List.inj_on_of_nodup_map htable.ids hold hrow hid' ▸ hrow'

/-- The invariant, and what a run returns. -/
theorem rotation_step (hauth : Authentic d.cipher) (hreads : ReadsBack original d.cipher)
    (h : s.step d original action = some t) (hinv : s.Inv d original) :
    t.Inv d original ∧ (t.returned = s.returned ∧ NothingMissed s action ∨
      ∃ run ∈ s.run, (∀ id, run.phase.toCome id = false) ∧
        t.returned = (run.newKey, s.credentials) :: s.returned ∧
        (NothingMissed s action ↔ run.missed = [])) := by
  cases action with
  | insert id key nonce =>
    rw [RotationState.step, Option.ite_none_left_eq_some] at h
    obtain ⟨hnew, h⟩ := h
    obtain ⟨data, hdata, rfl⟩ := Option.map_eq_some_iff.mp h
    exact ⟨inv_insert hinv hnew hdata, .inl ⟨rfl, trivial⟩⟩
  | start oldKey newKey =>
    rw [RotationState.step, Option.ite_none_left_eq_some] at h
    cases h.2
    exact ⟨inv_start hinv oldKey newKey _, .inl ⟨rfl, trivial⟩⟩
  | count =>
    obtain ⟨run, hrun, h⟩ := Option.bind_eq_some_iff.mp h
    split at h
    · next hphase =>
      cases h
      refine ⟨⟨hinv.table, ?_⟩, .inl ⟨rfl, trivial⟩⟩
      rintro _ ⟨⟩
      -- from the first row on nothing has been passed yet
      refine (hinv.run run hrun).next (fun _ _ _ => .inr rfl) ?_
      intro id hpast
      rw [hphase] at hpast
      cases hpast
    · cases h
  | select =>
    obtain ⟨run, hrun, h⟩ := Option.bind_eq_some_iff.mp h
    split at h
    · next hphase =>
      cases h
      refine ⟨⟨hinv.table, ?_⟩, .inl ⟨rfl, trivial⟩⟩
      rintro _ ⟨⟩
      exact inv_select (hinv.run run hrun) hphase
    · cases h
  | rotate nonce =>
    obtain ⟨run, hrun, h⟩ := Option.bind_eq_some_iff.mp h
    split at h
    · next hphase =>
      split at h
      · cases h
        refine ⟨⟨hinv.table, ?_⟩, .inl ⟨rfl, trivial⟩⟩
        rintro _ ⟨⟩  -- an error rolls the batch back, and the run is over
      · next hbatch =>
        cases h
        obtain ⟨htable, hnext⟩ :=
          inv_rotate hauth hreads hinv.table (hinv.run run hrun) hphase hbatch
        refine ⟨⟨htable, ?_⟩, .inl ⟨rfl, trivial⟩⟩
        rintro _ ⟨⟩
        exact hnext
    · cases h
  | finish =>
    obtain ⟨run, hrun, h⟩ := Option.bind_eq_some_iff.mp h
    split at h
    · next hphase =>
      cases h
      refine ⟨⟨hinv.table, ?_⟩, .inr ⟨run, hrun, ?_, rfl, ?_⟩⟩
      · rintro _ ⟨⟩
      · -- nothing is to come once a batch was empty
        intro id
        rw [hphase]
        rfl
      · simp only [NothingMissed, Option.mem_def, hrun, Option.some.injEq, forall_eq']
    · cases h
  | interrupt =>
    rw [RotationState.step, Option.ite_none_right_eq_some] at h
    cases h.2
    refine ⟨⟨hinv.table, ?_⟩, .inl ⟨rfl, trivial⟩⟩
    rintro _ ⟨⟩

/-! ### Runs -/

/-- What `RotationSound` says of the runs that returned. -/
def Complete (d : Deployment) (original : ℕ → Value) (s : RotationState) : Prop :=
  ∀ newKey rows, (newKey, rows) ∈ s.returned → ∀ row ∈ rows, ∀ data ∈ row.encryptedData,
    decrypt d newKey none data = some (original row.id)

theorem complete_step (hauth : Authentic d.cipher) (hreads : ReadsBack original d.cipher)
    (h : s.step d original action = some t) (hinv : s.Inv d original) :
    Complete d original t ↔ Complete d original s ∧ NothingMissed s action := by
  obtain ⟨_, ⟨hsame, hnone⟩ | ⟨run, hrun, hpast, hreturned, hiff⟩⟩ :=
    rotation_step hauth hreads h hinv
  · rw [Complete, hsame, Complete, and_iff_left hnone]
  · have hopens : (∀ row ∈ s.credentials, ∀ data ∈ row.encryptedData,
        decrypt d run.newKey none data = some (original row.id)) ↔ run.missed = [] := by
      obtain ⟨_, hcovered, hmissed⟩ := hinv.run run hrun
      rw [List.eq_nil_iff_forall_not_mem]
      constructor
      · intro hall id hid
        obtain ⟨_, row, hrow, _, hshut⟩ := hmissed id hid
        rw [(opens_iff hauth hreads (hinv.table.stored row hrow)).mpr (hall row hrow)] at hshut
        cases hshut
      · intro hnone row hrow
        refine (opens_iff hauth hreads (hinv.table.stored row hrow)).mp ?_
        rcases hcovered row hrow with hopen | hcome | hmiss
        · exact hopen
        · rw [hpast] at hcome
          cases hcome
        · exact absurd hmiss (hnone _)
    rw [hiff, ← hopens, Complete, Complete, hreturned, and_comm]
    constructor
    · intro hall
      exact ⟨hall _ _ List.mem_cons_self,
        fun newKey rows hmem => hall newKey rows (List.mem_cons_of_mem _ hmem)⟩
    · rintro ⟨hnow, hbefore⟩ newKey rows hmem
      rcases List.mem_cons.mp hmem with heq | hold
      · cases heq
        exact hnow
      · exact hbefore newKey rows hold

theorem rotationSound_iff_complete (hauth : Authentic d.cipher)
    (hreads : ReadsBack original d.cipher) (hinv : s.Inv d original) :
    RotationSound d original s ↔ Complete d original s := by
  constructor
  · exact fun h => h.complete
  · refine fun h => ⟨?_, h⟩
    intro row hrow data hdata
    exact ((hinv.table.stored row hrow data hdata).decrypt hauth hreads).1

end

/-- In every run each credential stays readable, and the runs that return Ok have rotated all of them
    if and only if they have missed none. -/
theorem rotationSound_iff {d : Deployment} {original : ℕ → Value} {credentials : List Credential}
    {checkpoint : Option RotationCheckpoint} {keys : List EncryptionKey}
    {actions : List RotationAction} {t : RotationState} (hauth : Authentic d.cipher)
    (hreads : ReadsBack original d.cipher) (htable : CredentialTable d original keys credentials)
    (hrun : AnyRun (RotationState.step d original) { credentials, checkpoint, keys } actions t) :
    RotationSound d original t ↔
      Run (RotationState.step d original) NothingMissed { credentials, checkpoint, keys } actions t := by
  have hinit : RotationState.Inv d original { credentials, checkpoint, keys } := by
    refine ⟨htable, ?_⟩
    rintro _ ⟨⟩
  have hkeep : ∀ {s a t}, RotationState.step d original s a = some t → s.Inv d original →
      t.Inv d original := fun h hs => (rotation_step hauth hreads h hs).1
  have hinv : t.Inv d original := hrun.invariant (fun _ h hs => hkeep h hs) hinit
  rw [rotationSound_iff_complete hauth hreads hinv]
  refine hrun.final_iff hkeep (complete_step hauth hreads) hinit ?_
  rintro _ _ ⟨⟩

/-! ### Two credentials -/

/-- Knows one plaintext and two keys. -/
def tokenCipher : Cipher where
  toVec v :=
    match v with
    | .string "token" => some [7]
    | _ => none
  fromSlice bytes := if bytes = [7] then some (.string "token") else none
  encrypt key _ bytes :=
    if bytes = [7] then if key = 0 then some "zero" else if key = 1 then some "one" else none
    else none
  decrypt key _ data :=
    if key = 0 ∧ data = "zero" then some [7] else if key = 1 ∧ data = "one" then some [7] else none

def tokenDeployment : Deployment := { symbolDeployment true with cipher := tokenCipher }

theorem authentic_tokenCipher : Authentic tokenCipher where
  opens := by
    intro key nonce bytes data h
    dsimp only [tokenCipher] at h ⊢
    split at h
    · next hbytes =>
      split at h
      · next hkey =>
        cases h
        rw [hkey, hbytes]
        rfl
      · split at h
        · next hkey =>
          cases h
          rw [hkey, hbytes]
          rfl
        · cases h
    · cases h
  rejects := by
    intro key key' nonce bytes data h hne
    dsimp only [tokenCipher] at h ⊢
    split at h
    · split at h
      · next hkey =>
        cases h
        rw [if_neg (fun hboth => hne (hboth.1.trans hkey.symm)),
          if_neg (fun hboth => absurd hboth.2 (by decide))]
      · split at h
        · next hkey =>
          cases h
          rw [if_neg (fun hboth => absurd hboth.2 (by decide)),
            if_neg (fun hboth => hne (hboth.1.trans hkey.symm))]
        · cases h
    · cases h

theorem readsBack_tokenCipher : ReadsBack (fun _ => .string "token") tokenCipher := by
  intro id bytes h
  cases h
  rfl

/-- A token under the key. -/
def tokenData (text : String) : Value := envelope text "n" 1

/-- Credentials that hold the token under the first key. -/
def tokens (ids : List ℕ) : List Credential := ids.map fun id => ⟨id, some (tokenData "zero")⟩

theorem table_tokens {ids : List ℕ} (h : ids.Nodup) :
    CredentialTable tokenDeployment (fun _ => .string "token") [0] (tokens ids) where
  ids := by
    rw [tokens, List.map_map]
    exact (List.map_id ids).symm ▸ h
  stored := by
    intro row hrow data hdata
    obtain ⟨id, -, rfl⟩ := List.mem_map.mp hrow
    cases hdata
    exact ⟨0, List.mem_cons_self, .inr ⟨"n", rfl⟩⟩

/-- A credential inserted behind the run, under the key that it replaces, is missed. -/
theorem not_rotationAlwaysSound_insert :
    ¬ RotationAlwaysSound tokenDeployment fun _ => .string "token" := by
  intro h
  have hrun : AnyRun (RotationState.step tokenDeployment fun _ => .string "token")
      { credentials := [⟨5, some (tokenData "zero")⟩], checkpoint := none, keys := [0] }
      [.start 0 1, .count, .select, .rotate fun _ => "n", .insert 3 0 "n", .select, .finish]
      { credentials := [⟨5, some (tokenData "one")⟩, ⟨3, some (tokenData "zero")⟩]
        checkpoint := some ⟨some 5, 1, 1, true⟩
        keys := [0, 0, 1, 0]
        returned := [(1, [⟨5, some (tokenData "one")⟩, ⟨3, some (tokenData "zero")⟩])] } :=
    anyRun_iff_exec.mpr rfl
  have hopen := (h _ _ _ _ _ (table_tokens (List.nodup_singleton 5)) hrun).complete 1 _ List.mem_cons_self ⟨3, _⟩
    (List.mem_cons_of_mem _ List.mem_cons_self) _ rfl
  cases hopen

/-- One inserted ahead of it is rotated with the others. -/
theorem rotationSound_threeTokens : RotationSound tokenDeployment (fun _ => .string "token") {
    credentials := [5, 6, 9].map fun id => ⟨id, some (tokenData "one")⟩
    checkpoint := some ⟨some 9, 2, 3, true⟩
    keys := [0, 0, 1, 0]
    returned := [(1, [5, 6, 9].map fun id => ⟨id, some (tokenData "one")⟩)] } := by
  have hrun : Run (RotationState.step tokenDeployment fun _ => .string "token") NothingMissed
      { credentials := tokens [5, 6], checkpoint := none, keys := [0] }
      [.start 0 1, .count, .select, .rotate fun _ => "n", .insert 9 0 "n", .select,
        .rotate fun _ => "n", .select, .finish]
      { credentials := [5, 6, 9].map fun id => ⟨id, some (tokenData "one")⟩
        checkpoint := some ⟨some 9, 2, 3, true⟩
        keys := [0, 0, 1, 0]
        returned := [(1, [5, 6, 9].map fun id => ⟨id, some (tokenData "one")⟩)] } := by
    refine .cons trivial rfl (.cons trivial rfl (.cons trivial rfl (.cons trivial rfl
      (.cons trivial rfl (.cons trivial rfl (.cons trivial rfl (.cons trivial rfl
        (.cons ?_ rfl (.nil _)))))))))
    rintro _ ⟨⟩
    rfl
  exact (rotationSound_iff authentic_tokenCipher readsBack_tokenCipher
    (table_tokens (by decide)) (anyRun_iff_exec.mpr rfl)).mpr hrun

end SorobanPulse.Reencrypt
