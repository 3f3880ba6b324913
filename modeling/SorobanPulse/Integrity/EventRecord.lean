import SorobanPulse.Ingest.SorobanEvent

/-! The row checks of the integrity scan: `validate_event_record`.

        contract_id   56 alphanumerics, the first one `C`      Critical
        tx_hash       64 hexadecimal digits                    Critical
        ledger        positive                                 Critical
        timestamp     not before the genesis of the network    Critical
                      at most five minutes ahead of now        Warning
        event_data    an object, its "value" an object or      Critical
                      null, its "topic" an array or null

    A row without a critical issue is `Healthy`; of its payload this asks for the kinds of two
    members, and no more. -/

namespace SorobanPulse.Integrity

/-- `2015-09-30T00:00:00Z`, in nanoseconds since the epoch. -/
def STELLAR_GENESIS : ℤ := 1443571200 * 1000000000

def MAX_FUTURE_SKEW_MINUTES : ℤ := 5

inductive IntegritySeverity where
  | Critical
  | Warning
  | Info
  deriving DecidableEq, Repr

structure IntegrityIssue where
  table : String
  checkName : String
  severity : IntegritySeverity
  description : String
  rowIdentifier : Option String
  deriving DecidableEq, Repr

/-- The view of a row that is checked. -/
structure EventRecordRef where
  id : String
  contractId : String
  txHash : String
  ledger : ℤ
  timestamp : ℤ
  eventData : Value

/-- How the descriptions print a time, and a value for debugging. -/
structure Formats where
  displayTime : ℤ → String
  debugValue : Value → String

def isValidContractId (contractId : String) : Bool :=
  contractId.utf8ByteSize == 56 && contractId.toList.head? == some 'C' &&
    contractId.toList.all Char.isAlphanum

def isValidTxHash (txHash : String) : Bool :=
  txHash.utf8ByteSize == 64 && txHash.toList.all Ingest.isAsciiHexDigit

/-! ### The kind of a value -/

inductive Kind where
  | null
  | bool
  | number
  | string
  | array
  | object
  deriving DecidableEq, Repr

def kindOf : Value → Kind
  | .null => .null
  | .bool _ => .bool
  | .number _ => .number
  | .string _ => .string
  | .array _ => .array
  | .object _ => .object

/-- The kinds of an object's members, by key. -/
abbrev Layout := String → Option Kind

def layoutOf (map : List (String × Value)) : Layout := fun key => (map.lookup key).map kindOf

/-- Is the member null, of this kind, or not there? -/
def Nullable (kind : Kind) (found : Option Kind) : Prop :=
  ∀ k ∈ found, k = .null ∨ k = kind

instance (kind : Kind) (found : Option Kind) : Decidable (Nullable kind found) :=
  match found with
  | none => .isTrue (by simp [Nullable])
  | some k => decidable_of_iff (k = .null ∨ k = kind) (by simp [Nullable])

/-- The two members of a payload that the checks look at. -/
def Layout.Tidy (layout : Layout) : Prop :=
  Nullable .object (layout "value") ∧ Nullable .array (layout "topic")

instance (layout : Layout) : Decidable layout.Tidy := inferInstanceAs (Decidable (_ ∧ _))

/-! ### The checks -/

/-- An issue of a row of `events`. -/
def EventRecordRef.issue (record : EventRecordRef) (checkName : String)
    (severity : IntegritySeverity) (description : String) : IntegrityIssue :=
  { table := "events", checkName, severity, description, rowIdentifier := some record.id }

/-- The checks of `event_data`. -/
def eventDataIssues (formats : Formats) (record : EventRecordRef) : List IntegrityIssue :=
  match record.eventData with
  | .object map =>
    (match map.lookup "value" with
      | some v =>
        if kindOf v ≠ .null ∧ kindOf v ≠ .object then
          [record.issue "event_data_value_shape" .Critical
            "event_data.value must be an object or null"]
        else []
      | none => []) ++
    match map.lookup "topic" with
    | some t =>
      if kindOf t ≠ .null ∧ kindOf t ≠ .array then
        [record.issue "event_data_topic_shape" .Critical "event_data.topic must be an array or null"]
      else []
    | none => []
  | other =>
    [record.issue "event_data_not_object" .Critical
      ("event_data must be a JSON object, found " ++ formats.debugValue other)]

def timestampIssues (formats : Formats) (now : ℤ) (record : EventRecordRef) :
    List IntegrityIssue :=
  if record.timestamp < STELLAR_GENESIS then
    [record.issue "timestamp_before_genesis" .Critical
      ("timestamp " ++ formats.displayTime record.timestamp
        ++ " predates the Stellar mainnet genesis")]
  else if now + MAX_FUTURE_SKEW_MINUTES * 60 * 1000000000 < record.timestamp then
    [record.issue "timestamp_in_future" .Warning
      ("timestamp " ++ formats.displayTime record.timestamp ++ " is more than "
        ++ toString MAX_FUTURE_SKEW_MINUTES ++ " minutes ahead of now ("
        ++ formats.displayTime now ++ ")")]
  else []

def validateEventRecord (formats : Formats) (now : ℤ) (record : EventRecordRef) :
    List IntegrityIssue :=
  (if isValidContractId record.contractId then []
    else [record.issue "contract_id_format" .Critical
      ("contract_id '" ++ record.contractId ++ "' is not a valid 56-character Strkey")]) ++
  (if isValidTxHash record.txHash then []
    else [record.issue "tx_hash_format" .Critical
      ("tx_hash '" ++ record.txHash ++ "' is not a 64-character hex digest")]) ++
  (if record.ledger ≤ 0 then
    [record.issue "non_positive_ledger" .Critical
      ("ledger " ++ toString record.ledger ++ " must be positive")]
    else []) ++
  timestampIssues formats now record ++ eventDataIssues formats record

/-! ### Rows without a critical issue -/

/-- An object whose "value" and "topic" have the kinds they should. -/
def Shaped (data : Value) : Prop := ∃ map, data = .object map ∧ (layoutOf map).Tidy

structure EventRecordRef.Healthy (record : EventRecordRef) : Prop where
  contractId : isValidContractId record.contractId = true
  txHash : isValidTxHash record.txHash = true
  ledger : 0 < record.ledger
  timestamp : STELLAR_GENESIS ≤ record.timestamp
  eventData : Shaped record.eventData

/-- None of these issues is critical. -/
def NoCritical (issues : List IntegrityIssue) : Prop := ∀ issue ∈ issues, issue.severity ≠ .Critical

section
variable {formats : Formats} {now : ℤ} {record : EventRecordRef} {issues more : List IntegrityIssue}

@[simp] theorem noCritical_nil : NoCritical [] := by
  intro issue hissue
  cases hissue

@[simp] theorem noCritical_append :
    NoCritical (issues ++ more) ↔ NoCritical issues ∧ NoCritical more :=
  List.forall_mem_append

@[simp] theorem noCritical_issue {checkName description : String} {severity : IntegritySeverity} :
    NoCritical [record.issue checkName severity description] ↔ severity ≠ .Critical := by
  simp [NoCritical, EventRecordRef.issue]

theorem noCritical_timestamp :
    NoCritical (timestampIssues formats now record) ↔ STELLAR_GENESIS ≤ record.timestamp := by
  unfold timestampIssues
  split
  · next hearly => simpa using hearly
  · next hdated =>
    split
    · simpa using hdated
    · simpa using hdated

theorem noCritical_eventData :
    NoCritical (eventDataIssues formats record) ↔ Shaped record.eventData := by
  unfold eventDataIssues Shaped
  cases record.eventData with
  | object map =>
    simp only [noCritical_append, Value.object.injEq, exists_eq_left', Layout.Tidy, layoutOf]
    refine and_congr ?_ ?_
    · cases map.lookup "value" with
      | none => simp [Nullable]
      | some v => cases v <;> simp [Nullable, kindOf]
    · cases map.lookup "topic" with
      | none => simp [Nullable]
      | some v => cases v <;> simp [Nullable, kindOf]
  | null => simp
  | bool b => simp
  | number n => simp
  | string s => simp
  | array items => simp

/-- At whatever time the row is checked. -/
theorem noCritical_iff : NoCritical (validateEventRecord formats now record) ↔ record.Healthy := by
  simp only [validateEventRecord, noCritical_append, noCritical_timestamp, noCritical_eventData]
  constructor
  · rintro ⟨⟨⟨⟨hcontract, htx⟩, hledger⟩, htimestamp⟩, hdata⟩
    refine ⟨?_, ?_, ?_, htimestamp, hdata⟩
    · by_contra hbad
      simp [hbad] at hcontract
    · by_contra hbad
      simp [hbad] at htx
    · by_contra hbad
      rw [if_pos (by omega)] at hledger
      simp at hledger
  · rintro ⟨hcontract, htx, hledger, htimestamp, hdata⟩
    have hpositive : ¬ record.ledger ≤ 0 := by omega
    simp [hcontract, htx, hpositive, htimestamp, hdata]

end

end SorobanPulse.Integrity
