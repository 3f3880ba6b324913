import SorobanPulse.Reencrypt.IntegrationSecrets
import SorobanPulse.Reencrypt.RotateCredentials

/-! Re-encryption beside other writers.

    `rewrite_all` and `run_reencrypt_job` read a batch of rows and then write them back one by one,
    by id and whatever the row holds by then:

        job      SELECT a batch ────────────────────── UPDATE the row ──▶  with what was read
        others                  ── UPDATE the row ──                       is lost

    A write-back does no harm as long as the row's last update wrote what the job has read. -/

namespace SorobanPulse.Reencrypt
open Ingest Lib

/-- A column that is re-encrypted. -/
inductive Place where
  | credential (table column : String)
  | channelConfig
  | eventData
  deriving DecidableEq, Repr

def CREDENTIAL_COLUMNS : List (String × String) :=
  [("github_integrations", "access_token"), ("discord_integrations", "webhook_url"),
    ("slack_integrations", "webhook_url"), ("slack_integrations", "bot_token"),
    ("slack_integrations", "signing_secret"), ("telegram_integrations", "bot_token"),
    ("pagerduty_integrations", "routing_key"), ("pagerduty_integrations", "api_key")]

inductive Content where
  | text (stored : Option String)
  | json (v : Value)

/-- A column of a row. -/
structure Cell where
  place : Place
  id : ℕ
  content : Content

/-- The keys of integrations and events, and the libraries. -/
structure Vault where
  crates : SecretCrates
  keys : Keys
  deployment : Deployment
  eventKey : EncryptionKey
  oldEventKey : EncryptionKey

structure Vault.Lawful (vault : Vault) : Prop where
  secrets : vault.crates.Lawful
  events : ∀ {key nonce bytes data}, vault.deployment.cipher.encrypt key nonce bytes = some data →
    vault.deployment.cipher.decrypt key nonce data = some bytes

/-- The nonces that are drawn, for the texts of credentials and for an event. -/
structure Nonces where
  secret : String → String
  event : String

/-! ### Rewriting a cell -/

section
variable (vault : Vault)

/-- What is read from a cell. -/
def plaintext : Place → Content → Option Content
  | .credential _ _, .text none => some (.text none)
  | .credential _ _, .text (some stored) =>
    (openSecret vault.crates vault.keys stored).map fun s => .text (some s)
  | .channelConfig, .json v => (openConfig vault.crates vault.keys v).map .json
  | .eventData, .json v =>
    (decrypt vault.deployment vault.eventKey (some vault.oldEventKey) v).map .json
  | _, _ => none

/-- What is written back of a cell, if anything. -/
def rewritten (onlyPlaintext : Bool) (nonces : Nonces) : Place → Content → Option Content
  | .credential _ _, .text (some stored) =>
    (reseal vault.crates vault.keys nonces.secret stored).map fun s => .text (some s)
  | .channelConfig, .json config =>
    let result := if onlyPlaintext then sealConfig vault.crates vault.keys nonces.secret config
      else mapSensitive (reseal vault.crates vault.keys nonces.secret) config
    result.bind fun sealed => if sameValue sealed config then none else some (.json sealed)
  | .eventData, .json v =>
    (decrypt vault.deployment vault.eventKey (some vault.oldEventKey) v).bind fun p =>
      (encrypt vault.deployment vault.eventKey nonces.event p).map .json
  | _, _ => none

/-- A plaintext after it was written back: an event's is read by serde_json again. -/
def readAgain : Place → Content → Option Content
  | .eventData, .json p =>
    if vault.deployment.encryptionFeature then
      ((vault.deployment.cipher.toVec p).bind vault.deployment.cipher.fromSlice).map .json
    else some (.json p)
  | _, content => some content

end

/-! ### The jobs -/

/-- A job: the columns that it has still to go through, and the rows of its batch that it has still
    to write back. -/
structure Job where
  onlyPlaintext : Bool
  batchSize : ℕ
  places : List Place
  lastId : ℕ := 0
  offset : ℕ := 0
  pending : List Cell := []

def rewriteAll (batchSize : ℕ) (onlyPlaintext : Bool) : Job where
  onlyPlaintext := onlyPlaintext
  batchSize := batchSize
  places := CREDENTIAL_COLUMNS.map (fun c => .credential c.1 c.2) ++ [.channelConfig]

def runReencryptJob (batchSize : ℕ) : Job where
  onlyPlaintext := false
  batchSize := batchSize
  places := [.eventData]

/-- `event_data->>'encrypted' = 'true'` -/
def markedEncrypted (v : Value) : Bool :=
  match member v "encrypted" with
  | some (.bool b) => b
  | some (.string s) => s == "true"
  | _ => false

/-- The WHERE clauses. -/
def Job.wants (job : Job) (cell : Cell) : Bool :=
  match cell.place, cell.content with
  | .credential _ _, .text (some stored) =>
    (!job.onlyPlaintext || !isEncrypted stored) && job.lastId < cell.id
  | .channelConfig, .json _ => job.lastId < cell.id
  | .eventData, .json v => markedEncrypted v
  | _, _ => false

/-- A batch: of the events by offset, of the others by the last id. -/
def Job.select (job : Job) (place : Place) (cells : List Cell) : List Cell :=
  let rows := (cells.filter fun cell => cell.place = place && job.wants cell).insertionSort
    fun a b => a.id ≤ b.id
  (if place = .eventData then rows.drop job.offset else rows).take job.batchSize

/-- The table's cells, the jobs and, for the record, the plaintext last written to each cell. -/
structure RewriteState where
  cells : List Cell
  jobs : ℕ → Option Job := fun _ => none
  written : Place → ℕ → Option Content

inductive RewriteAction where
  | rewriteAll (i batchSize : ℕ) (onlyPlaintext : Bool)
  | runReencryptJob (i batchSize : ℕ)
  | select (i : ℕ)
  | writeBack (i : ℕ) (nonces : Nonces)
  /-- The statement fails: `rewrite_all` ends, `run_reencrypt_job` goes on. -/
  | writeFails (i : ℕ)
  | stop (i : ℕ)
  /-- Another writer's update: a credential is saved, an event anonymized. -/
  | update (place : Place) (id : ℕ) (content : Content)

def setCell (cells : List Cell) (place : Place) (id : ℕ) (content : Content) : List Cell :=
  cells.map fun cell => if cell.place = place ∧ cell.id = id then { cell with content } else cell

def RewriteState.setJob (s : RewriteState) (i : ℕ) (job : Option Job) : RewriteState :=
  { s with jobs := Function.update s.jobs i job }

section
variable (vault : Vault)

def RewriteState.step (s : RewriteState) : RewriteAction → Option RewriteState
  | .rewriteAll i batchSize onlyPlaintext =>
    if (s.jobs i).isSome then none else some (s.setJob i (rewriteAll batchSize onlyPlaintext))
  | .runReencryptJob i batchSize =>
    if (s.jobs i).isSome then none else some (s.setJob i (runReencryptJob batchSize))
  | .select i =>
    (s.jobs i).bind fun job =>
      match job.pending, job.places with
      | [], [] => some (s.setJob i none)
      | [], place :: places =>
        let rows := job.select place s.cells
        match rows.getLast? with
        | none => some (s.setJob i (some { job with places, lastId := 0 }))
        | some last =>
          some (s.setJob i (some { job with
            pending := rows, lastId := last.id, offset := job.offset + job.batchSize }))
      | _ :: _, _ => none
  | .writeBack i nonces =>
    (s.jobs i).bind fun job =>
      match job.pending with
      | [] => none
      | cell :: rest =>
        let s' := s.setJob i (some { job with pending := rest })
        match rewritten vault job.onlyPlaintext nonces cell.place cell.content with
        | none => some s'
        | some content => some { s' with cells := setCell s.cells cell.place cell.id content }
  | .writeFails i =>
    (s.jobs i).bind fun job =>
      match job.pending with
      | [] => none
      | cell :: rest =>
        if cell.place = .eventData then some (s.setJob i (some { job with pending := rest }))
        else some (s.setJob i none)
  | .stop i => if (s.jobs i).isSome then some (s.setJob i none) else none
  | .update place id content =>
    some { s with
      cells := setCell s.cells place id content
      written := fun p k => if p = place ∧ k = id then plaintext vault place content else s.written p k }

end

/-! ### No write is lost -/

section
variable (vault : Vault)

/-- Every cell has the plaintext that was last written to it. -/
def WritesKept (s : RewriteState) : Prop :=
  ∀ cell ∈ s.cells, plaintext vault cell.place cell.content = s.written cell.place cell.id

/-- In every run, in every state. -/
def NoWriteLost : Prop :=
  ∀ (s : RewriteState) (actions : List RewriteAction) (t : RewriteState),
    WritesKept vault s → AnyRun (RewriteState.step vault) s actions t →
      Throughout (RewriteState.step vault) (WritesKept vault) s actions

/-- What a job writes back it has read after the last update of the cell, or that update wrote the
    same plaintext; and the plaintext of an event is read again unchanged. -/
def Fresh (s : RewriteState) : RewriteAction → Prop
  | .writeBack i nonces => ∀ job ∈ s.jobs i, ∀ cell, job.pending.head? = some cell →
      (rewritten vault job.onlyPlaintext nonces cell.place cell.content).isSome = true →
        (∃ row ∈ s.cells, row.place = cell.place ∧ row.id = cell.id) →
          (plaintext vault cell.place cell.content).bind (readAgain vault cell.place) =
            s.written cell.place cell.id
  | _ => True

end

section
variable {vault : Vault} {s t : RewriteState} {action : RewriteAction} {place : Place}
  {content content' : Content} {nonces : Nonces} {onlyPlaintext : Bool} {cells : List Cell} {id : ℕ}

theorem decrypt_encrypt_event (hlawful : vault.Lawful) {p v : Value} {nonce : String}
    (h : encrypt vault.deployment vault.eventKey nonce p = some v) :
    (decrypt vault.deployment vault.eventKey (some vault.oldEventKey) v).map Content.json =
      readAgain vault .eventData (.json p) := by
  rw [encrypt] at h
  rw [readAgain]
  split at h
  · next hfeature =>
    obtain ⟨bytes, hbytes, h⟩ := Option.bind_eq_some_iff.mp h
    obtain ⟨text, htext, h⟩ := Option.bind_eq_some_iff.mp h
    cases h
    rw [if_pos hfeature, hbytes, Option.bind_some, decrypt, hfeature, isEnvelope_envelope,
      Bool.and_true, if_pos rfl]
    simp [envelope, member, List.lookup, Value.asStr, hlawful.events htext]
  · next hfeature =>
    cases h
    rw [if_neg hfeature, decrypt, if_neg (by simp [hfeature])]
    rfl

/-- A rewritten cell is read as before. -/
theorem plaintext_rewritten (hlawful : vault.Lawful)
    (h : rewritten vault onlyPlaintext nonces place content = some content') :
    plaintext vault place content' =
      (plaintext vault place content).bind (readAgain vault place) := by
  cases place with
  | credential table column =>
    cases content with
    | json v => cases h
    | text stored =>
      cases stored with
      | none => cases h
      | some stored =>
        obtain ⟨sealed, hsealed, rfl⟩ := Option.map_eq_some_iff.mp h
        -- sealed again under the new key, it opens as before
        rw [plaintext, plaintext, openSecret_reseal hlawful.secrets hsealed]
        cases openSecret vault.crates vault.keys stored with
        | none => rfl
        | some s => rfl
  | channelConfig =>
    cases content with
    | text stored => cases h
    | json config =>
      obtain ⟨sealed, hsealed, h⟩ := Option.bind_eq_some_iff.mp h
      -- plaintext is sealed for the first time, an envelope again
      have hopen : openConfig vault.crates vault.keys sealed =
          openConfig vault.crates vault.keys config := by
        split at hsealed
        · exact openConfig_sealConfig hlawful.secrets hsealed
        · exact openConfig_reseal hlawful.secrets hsealed
      split at h
      · cases h
      · cases h
        rw [plaintext, plaintext, hopen]
        cases openConfig vault.crates vault.keys config with
        | none => rfl
        | some s => rfl
  | eventData =>
    cases content with
    | text stored => cases h
    | json v =>
      obtain ⟨p, hp, h⟩ := Option.bind_eq_some_iff.mp h
      obtain ⟨v', hv', rfl⟩ := Option.map_eq_some_iff.mp h
      -- the codec may change the payload, but the reader sees what it wrote
      rw [plaintext, plaintext, hp, decrypt_encrypt_event hlawful hv']
      rfl

theorem mem_setCell {cell : Cell} (h : cell ∈ setCell cells place id content) :
    (cell.place = place ∧ cell.id = id ∧ cell.content = content ∧
      ∃ row ∈ cells, row.place = place ∧ row.id = id) ∨
    (cell ∈ cells ∧ ¬(cell.place = place ∧ cell.id = id)) := by
  obtain ⟨row, hrow, rfl⟩ := List.mem_map.mp h
  split
  · next hhit => exact .inl ⟨hhit.1, hhit.2, rfl, row, hrow, hhit⟩
  · next hmiss => exact .inr ⟨hrow, hmiss⟩

theorem setCell_mem {row : Cell} (hrow : row ∈ cells) (hplace : row.place = place)
    (hid : row.id = id) : { row with content } ∈ setCell cells place id content :=
  List.mem_map.mpr ⟨row, hrow, if_pos ⟨hplace, hid⟩⟩

/-- What a step does to the cells: nothing, or a write-back, or an update. -/
theorem rewrite_cases (h : s.step vault action = some t) :
    (t.cells = s.cells ∧ t.written = s.written ∧ Fresh vault s action) ∨
    (∃ i nonces job cell rest content, action = .writeBack i nonces ∧ s.jobs i = some job ∧
      job.pending = cell :: rest ∧
      rewritten vault job.onlyPlaintext nonces cell.place cell.content = some content ∧
      t.cells = setCell s.cells cell.place cell.id content ∧ t.written = s.written) ∨
    ∃ place id content, action = .update place id content ∧
      t.cells = setCell s.cells place id content ∧
      t.written = fun p k =>
        if p = place ∧ k = id then plaintext vault place content else s.written p k := by
  cases action with
  | rewriteAll i batchSize onlyPlaintext =>
    rw [RewriteState.step, Option.ite_none_left_eq_some] at h
    cases h.2
    exact .inl ⟨rfl, rfl, trivial⟩
  | runReencryptJob i batchSize =>
    rw [RewriteState.step, Option.ite_none_left_eq_some] at h
    cases h.2
    exact .inl ⟨rfl, rfl, trivial⟩
  | select i =>
    obtain ⟨job, hjob, h⟩ := Option.bind_eq_some_iff.mp h
    split at h
    · cases h
      exact .inl ⟨rfl, rfl, trivial⟩
    · dsimp only at h
      split at h  -- the page is empty and the table done, or there is one more page to rewrite
      · cases h
        exact .inl ⟨rfl, rfl, trivial⟩
      · cases h
        exact .inl ⟨rfl, rfl, trivial⟩
    · cases h
  | writeBack i nonces =>
    obtain ⟨job, hjob, h⟩ := Option.bind_eq_some_iff.mp h
    split at h
    · cases h
    · next cell rest hpending =>
      dsimp only at h
      split at h
      · next hnone =>
        cases h
        -- nothing to write back: the cell was not readable, or is not to be touched
        refine .inl ⟨rfl, rfl, ?_⟩
        intro job' hjob' cell' hcell' hsome
        cases hjob.symm.trans hjob'
        rw [hpending] at hcell'
        cases hcell'
        rw [hnone] at hsome
        cases hsome
      · next content hcontent =>
        cases h
        exact .inr (.inl ⟨i, nonces, job, cell, rest, content, rfl, hjob, hpending, hcontent, rfl, rfl⟩)
  | writeFails i =>
    obtain ⟨job, hjob, h⟩ := Option.bind_eq_some_iff.mp h
    split at h
    · cases h
    · split at h
      · cases h
        exact .inl ⟨rfl, rfl, trivial⟩
      · cases h
        exact .inl ⟨rfl, rfl, trivial⟩
  | stop i =>
    rw [RewriteState.step, Option.ite_none_right_eq_some] at h
    cases h.2
    exact .inl ⟨rfl, rfl, trivial⟩
  | update place id content =>
    cases h
    exact .inr (.inr ⟨place, id, content, rfl, rfl, rfl⟩)

/-- A step keeps the writes if and only if it is fresh. -/
theorem writesKept_step (hlawful : vault.Lawful) (h : s.step vault action = some t)
    (hkept : WritesKept vault s) : WritesKept vault t ↔ Fresh vault s action := by
  obtain ⟨hcells, hwritten, hfresh⟩ | ⟨i, nonces, job, cell, rest, content, rfl, hjob, hpending,
    hcontent, hcells, hwritten⟩ | ⟨place, id, content, rfl, hcells, hwritten⟩ := rewrite_cases h
  · -- a step that touches no cell
    refine iff_of_true ?_ hfresh
    rw [WritesKept, hcells, hwritten]
    exact hkept
  · -- the write-back of a cell
    have hplain := plaintext_rewritten hlawful hcontent
    constructor
    · intro hafter job' hjob' cell' hcell' _ hrow
      cases hjob.symm.trans hjob'
      rw [hpending] at hcell'
      cases hcell'
      -- the row is there, so it reads as what was written to it last
      obtain ⟨row, hrow, hplace, hid⟩ := hrow
      have hnew := hafter { row with content } (hcells ▸ setCell_mem hrow hplace hid)
      rw [hwritten] at hnew
      dsimp only at hnew
      rw [hplace, hid, hplain] at hnew
      exact hnew
    · intro hfresh other hother
      rw [hcells] at hother
      rw [hwritten]
      -- the cell that was written back, or another one
      rcases mem_setCell hother with ⟨hplace, hid, hnew, hrow⟩ | ⟨hold, _⟩
      · rw [hplace, hid, hnew, hplain]
        exact hfresh job hjob cell (by rw [hpending]; rfl) (by rw [hcontent]; rfl) hrow
      · exact hkept other hold
  · -- an update is itself the last write
    refine iff_of_true ?_ trivial
    intro other hother
    rw [hcells] at hother
    rw [hwritten]
    dsimp only
    rcases mem_setCell hother with ⟨hplace, hid, hnew, _⟩ | ⟨hold, hmiss⟩
    · rw [if_pos ⟨hplace, hid⟩, hplace, hnew]
    · rw [if_neg hmiss]
      exact hkept other hold

end

/-- No write is lost in a run, and no plaintext changed by a job, if and only if every write-back is
    fresh. -/
theorem writesKept_iff {vault : Vault} (hlawful : vault.Lawful) {s t : RewriteState}
    {actions : List RewriteAction} (hkept : WritesKept vault s)
    (hrun : AnyRun (RewriteState.step vault) s actions t) :
    Throughout (RewriteState.step vault) (WritesKept vault) s actions ↔
      Run (RewriteState.step vault) (Fresh vault) s actions t := by
  have hgood : ∀ {s}, WritesKept vault s → WritesKept vault s := id
  exact hrun.throughout_iff hgood (fun hfresh h hs => (writesKept_step hlawful h hs).mpr hfresh)
    (fun h hs ht => (writesKept_step hlawful h hs).mp ht) hkept

/-! ### One token -/

def clearVault : Vault where
  crates := clearCrates
  keys := { current := 0, old := none, version := 1 }
  deployment := tokenDeployment
  eventKey := 0
  oldEventKey := 1

theorem lawful_clearVault : clearVault.Lawful where
  secrets := lawful_clearCrates
  events := authentic_tokenCipher.opens

def githubToken : Place := .credential "github_integrations" "access_token"

/-- One GitHub token. -/
def tokenState (stored plain : String) : RewriteState where
  cells := [⟨githubToken, 1, .text (some stored)⟩]
  written := fun _ _ => some (.text (some plain))

theorem writesKept_tokenState : WritesKept clearVault (tokenState "old" "old") := by
  intro cell hcell
  cases List.mem_singleton.mp hcell
  rfl

/-- A new token is saved between the job's SELECT and its UPDATE. -/
theorem not_noWriteLost_token : ¬ NoWriteLost clearVault := by
  intro h
  have hall := h _ [.rewriteAll 0 10 true, .select 0,
    .update githubToken 1 (.text (some "enc:v1:new")), .writeBack 0 ⟨fun _ => "n", "n"⟩] _
    writesKept_tokenState (anyRun_iff_exec.mpr rfl)
  have hlast := (((hall.2 _ rfl).2 _ rfl).2 _ rfl).2 _ rfl
  have hold : some (Content.text (some "old")) = some (Content.text (some "new")) :=
    hlast _ List.mem_cons_self
  injection hold with hold
  injection hold with hold
  exact absurd hold (by decide)

/-- It is saved after the UPDATE. -/
theorem writesKept_token : Throughout (RewriteState.step clearVault) (WritesKept clearVault)
    (tokenState "old" "old") [.rewriteAll 0 10 true, .select 0,
      .writeBack 0 ⟨fun _ => "n", "n"⟩, .update githubToken 1 (.text (some "enc:v1:new"))] := by
  refine (writesKept_iff lawful_clearVault writesKept_tokenState (anyRun_iff_exec.mpr rfl)).mpr ?_
  refine .cons trivial rfl (.cons trivial rfl (.cons ?_ rfl (.cons trivial rfl (.nil _))))
  rintro _ ⟨⟩ _ ⟨⟩ _ _
  rfl

end SorobanPulse.Reencrypt
