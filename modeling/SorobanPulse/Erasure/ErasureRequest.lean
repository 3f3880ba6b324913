import Mathlib.Data.List.Basic
import SorobanPulse.Sse.Replay

/-! Right to erasure: six DELETE statements in one transaction, and the report.

        begin ──▶ delete ──▶ … ──▶ delete ──▶ commit ──▶ fully_erased: true
                    │ fails
                    ▼
                 aborted: later statements fail too and COMMIT rolls back

    A failed statement counts as zero rows and COMMIT reports no error, so the report is the same
    whether the rows are gone or all still there. -/

namespace SorobanPulse.Erasure

/-- The six tables, each row by the columns that the statements compare. -/
structure SubjectDb where
  /-- `subscription_id` -/
  deliveryLogs : List (Option Sse.Uuid)
  /-- `owner_email` -/
  webhooks : List (Option String)
  /-- `id` and `email` -/
  subscriptions : List (Sse.Uuid × Option String)
  /-- `recipient` -/
  emailDeliveries : List String
  /-- `recipient` -/
  notificationAuditLog : List String
  /-- `subject_email` -/
  gdprConsentRecords : List String

structure ErasureResult where
  subjectEmail : String
  subscriptionsDeleted : ℕ
  webhooksDeleted : ℕ
  deliveryLogsDeleted : ℕ
  consentRecordsDeleted : ℕ
  emailDeliveriesDeleted : ℕ
  notificationAuditDeleted : ℕ
  fullyErased : Bool

/-- Which calls to the database fail. -/
structure ErasureFaults where
  begins : Bool := false
  deliveryLogs : Bool := false
  webhooks : Bool := false
  subscriptions : Bool := false
  emailDeliveries : Bool := false
  notificationAudit : Bool := false
  consentRecords : Bool := false
  commit : Bool := false

/-! ### Statements -/

section
variable (email : String) (db : SubjectDb)

/-- `SELECT id FROM subscriptions WHERE email = $1`. -/
def SubjectDb.subscriptionIds : List Sse.Uuid :=
  (db.subscriptions.filter fun row => row.2 == some email).map Prod.fst

def deleteDeliveryLogs : SubjectDb × ℕ :=
  let ids := db.subscriptionIds email
  ({ db with deliveryLogs := db.deliveryLogs.filter fun id => !id.any ids.contains },
    db.deliveryLogs.countP fun id => id.any ids.contains)

def deleteWebhooks : SubjectDb × ℕ :=
  ({ db with webhooks := db.webhooks.filter fun owner => !owner == some email },
    db.webhooks.countP fun owner => owner == some email)

def deleteSubscriptions : SubjectDb × ℕ :=
  ({ db with subscriptions := db.subscriptions.filter fun row => !row.2 == some email },
    db.subscriptions.countP fun row => row.2 == some email)

def deleteEmailDeliveries : SubjectDb × ℕ :=
  ({ db with emailDeliveries := db.emailDeliveries.filter fun recipient => !recipient == email },
    db.emailDeliveries.countP fun recipient => recipient == email)

def deleteNotificationAudit : SubjectDb × ℕ :=
  ({ db with
      notificationAuditLog := db.notificationAuditLog.filter fun recipient => !recipient == email },
    db.notificationAuditLog.countP fun recipient => recipient == email)

def deleteConsentRecords : SubjectDb × ℕ :=
  ({ db with gdprConsentRecords := db.gdprConsentRecords.filter fun subject => !subject == email },
    db.gdprConsentRecords.countP fun subject => subject == email)

end

/-- The transaction's view of the database, and whether a statement has failed. -/
structure SubjectTx where
  db : SubjectDb
  aborted : Bool := false

/-- One statement, its error replaced by zero rows. -/
def SubjectTx.statement (tx : SubjectTx) (fails : Bool) (delete : SubjectDb → SubjectDb × ℕ) :
    SubjectTx × ℕ :=
  if tx.aborted || fails then ({ tx with aborted := true }, 0)
  else ({ tx with db := (delete tx.db).1 }, (delete tx.db).2)

/-- The six statements, and the report on them. -/
def eraseRows (faults : ErasureFaults) (email : String) (db : SubjectDb) :
    SubjectTx × ErasureResult :=
  let tx : SubjectTx := { db }
  let (tx, deliveryLogs) := tx.statement faults.deliveryLogs (deleteDeliveryLogs email)
  let (tx, webhooks) := tx.statement faults.webhooks (deleteWebhooks email)
  let (tx, subscriptions) := tx.statement faults.subscriptions (deleteSubscriptions email)
  let (tx, emailDeliveries) := tx.statement faults.emailDeliveries (deleteEmailDeliveries email)
  let (tx, notificationAudit) :=
    tx.statement faults.notificationAudit (deleteNotificationAudit email)
  let (tx, consentRecords) := tx.statement faults.consentRecords (deleteConsentRecords email)
  (tx,
    { subjectEmail := email
      subscriptionsDeleted := subscriptions
      webhooksDeleted := webhooks
      deliveryLogsDeleted := deliveryLogs
      consentRecordsDeleted := consentRecords
      emailDeliveriesDeleted := emailDeliveries
      notificationAuditDeleted := notificationAudit
      fullyErased := true })

/-- The database afterwards, and the answer; COMMIT rolls an aborted transaction back. -/
def executeErasureRequest (faults : ErasureFaults) (email : String) (db : SubjectDb) :
    SubjectDb × Except Unit ErasureResult :=
  if faults.begins then (db, .error ())
  else
    let (tx, result) := eraseRows faults email db
    if faults.commit then (db, .error ())
    else (if tx.aborted then db else tx.db, .ok result)

/-! ### The truth -/

/-- No row refers to the email, or is a delivery log of one of these subscriptions. -/
structure SubjectForgotten (email : String) (ids : List Sse.Uuid) (db : SubjectDb) : Prop where
  deliveryLogs : ∀ id ∈ db.deliveryLogs, id.any ids.contains = false
  webhooks : ∀ owner ∈ db.webhooks, owner ≠ some email
  subscriptions : ∀ row ∈ db.subscriptions, row.2 ≠ some email
  emailDeliveries : ∀ recipient ∈ db.emailDeliveries, recipient ≠ email
  notificationAuditLog : ∀ recipient ∈ db.notificationAuditLog, recipient ≠ email
  gdprConsentRecords : ∀ subject ∈ db.gdprConsentRecords, subject ≠ email

/-- The counts are the rows that are gone. -/
structure Counted (before after : SubjectDb) (r : ErasureResult) : Prop where
  deliveryLogs : after.deliveryLogs.length + r.deliveryLogsDeleted = before.deliveryLogs.length
  webhooks : after.webhooks.length + r.webhooksDeleted = before.webhooks.length
  subscriptions : after.subscriptions.length + r.subscriptionsDeleted = before.subscriptions.length
  emailDeliveries :
    after.emailDeliveries.length + r.emailDeliveriesDeleted = before.emailDeliveries.length
  notificationAuditLog : after.notificationAuditLog.length + r.notificationAuditDeleted =
    before.notificationAuditLog.length
  gdprConsentRecords :
    after.gdprConsentRecords.length + r.consentRecordsDeleted = before.gdprConsentRecords.length

/-- A confirmed erasure has removed every row and counted it; otherwise there is an error and
    nothing was removed. -/
def Truthful (faults : ErasureFaults) (email : String) (db : SubjectDb) : Prop :=
  match executeErasureRequest faults email db with
  | (after, .ok r) =>
    r.fullyErased = true ∧ SubjectForgotten email (db.subscriptionIds email) after ∧ Counted db after r
  | (after, .error _) => after = db

def ErasureFaults.anyStatement (faults : ErasureFaults) : Bool :=
  faults.deliveryLogs || faults.webhooks || faults.subscriptions || faults.emailDeliveries ||
    faults.notificationAudit || faults.consentRecords

section
variable {email : String} {db : SubjectDb} {faults : ErasureFaults} {tx : SubjectTx} {fails : Bool}
  {delete : SubjectDb → SubjectDb × ℕ}

/-! ### Statements that go through, and statements that do not -/

theorem statement_aborted : (tx.statement fails delete).1.aborted = (tx.aborted || fails) := by
  unfold SubjectTx.statement
  cases h : tx.aborted || fails with
  | true => rfl
  | false => exact (Bool.or_eq_false_iff.mp h).1

theorem statement_ok (h : tx.aborted = false) : tx.statement false delete =
    ({ db := (delete tx.db).1 }, (delete tx.db).2) := by
  rw [SubjectTx.statement, h]
  rfl

/-- A statement that finds no row. -/
theorem statement_idle {aborted : Bool} (h : delete db = (db, 0)) :
    SubjectTx.statement ⟨db, aborted⟩ fails delete = (⟨db, aborted || fails⟩, 0) := by
  unfold SubjectTx.statement
  simp only [h]
  cases haborted : aborted || fails with
  | true => rfl
  | false => rw [(Bool.or_eq_false_iff.mp haborted).1]; rfl

theorem length_filter_add_countP {α : Type} (p : α → Bool) (rows : List α) :
    (rows.filter fun row => !p row).length + rows.countP p = rows.length := by
  rw [← List.countP_eq_length_filter, Nat.add_comm]
  simpa using (List.length_eq_countP_add_countP p (l := rows)).symm

theorem filter_of_none {α : Type} {p : α → Bool} {rows : List α} (h : ∀ row ∈ rows, p row = false) :
    (rows.filter fun row => !p row) = rows ∧ rows.countP p = 0 := by
  refine ⟨List.filter_eq_self.mpr fun row hrow => ?_, List.countP_eq_zero.mpr fun row hrow => ?_⟩
  · rw [h row hrow]
    rfl
  · rw [h row hrow]
    exact Bool.false_ne_true

/-! ### The six statements -/

theorem eraseRows_aborted : (eraseRows faults email db).1.aborted = faults.anyStatement := by
  simp only [eraseRows, statement_aborted, Bool.false_or, ErasureFaults.anyStatement]

/-- Without a failure the transaction removes the rows and counts them. -/
theorem eraseRows_ok (h : faults.anyStatement = false) :
    SubjectForgotten email (db.subscriptionIds email) (eraseRows faults email db).1.db ∧
      Counted db (eraseRows faults email db).1.db (eraseRows faults email db).2 := by
  simp only [ErasureFaults.anyStatement, Bool.or_eq_false_iff] at h
  obtain ⟨⟨⟨⟨⟨h₁, h₂⟩, h₃⟩, h₄⟩, h₅⟩, h₆⟩ := h
  simp only [eraseRows, h₁, h₂, h₃, h₄, h₅, h₆, statement_ok]
  constructor
  · constructor <;> intro row hrow <;> simpa using (List.mem_filter.mp hrow).2
  · constructor <;> exact length_filter_add_countP _ _

/-- Where no row refers to the email, the report is right whatever fails. -/
theorem eraseRows_idle (h : SubjectForgotten email (db.subscriptionIds email) db) :
    Counted db db (eraseRows faults email db).2 := by
  obtain ⟨hlogs, hlogs'⟩ := filter_of_none h.deliveryLogs
  obtain ⟨hwebhooks, hwebhooks'⟩ := filter_of_none (p := fun owner => owner == some email)
    fun owner howner => beq_false_of_ne (h.webhooks owner howner)
  obtain ⟨hsubs, hsubs'⟩ := filter_of_none (p := fun row : Sse.Uuid × Option String =>
    row.2 == some email) fun row hrow => beq_false_of_ne (h.subscriptions row hrow)
  obtain ⟨hmails, hmails'⟩ := filter_of_none (p := fun recipient => recipient == email)
    fun recipient hmem => beq_false_of_ne (h.emailDeliveries recipient hmem)
  obtain ⟨haudit, haudit'⟩ := filter_of_none (p := fun recipient => recipient == email)
    fun recipient hmem => beq_false_of_ne (h.notificationAuditLog recipient hmem)
  obtain ⟨hconsent, hconsent'⟩ := filter_of_none (p := fun subject => subject == email)
    fun subject hmem => beq_false_of_ne (h.gdprConsentRecords subject hmem)
  have h₁ : deleteDeliveryLogs email db = (db, 0) := by
    simp only [deleteDeliveryLogs, hlogs, hlogs']
  have h₂ : deleteWebhooks email db = (db, 0) := by simp only [deleteWebhooks, hwebhooks, hwebhooks']
  have h₃ : deleteSubscriptions email db = (db, 0) := by
    simp only [deleteSubscriptions, hsubs, hsubs']
  have h₄ : deleteEmailDeliveries email db = (db, 0) := by
    simp only [deleteEmailDeliveries, hmails, hmails']
  have h₅ : deleteNotificationAudit email db = (db, 0) := by
    simp only [deleteNotificationAudit, haudit, haudit']
  have h₆ : deleteConsentRecords email db = (db, 0) := by
    simp only [deleteConsentRecords, hconsent, hconsent']
  simp only [eraseRows, statement_idle h₁, statement_idle h₂, statement_idle h₃, statement_idle h₄,
    statement_idle h₅, statement_idle h₆]
  constructor <;> rfl

/-- The report tells the truth exactly if the transaction cannot begin or commit, if no statement
    fails, or if there was nothing to erase. -/
theorem truthful_iff (faults : ErasureFaults) (email : String) (db : SubjectDb) :
    Truthful faults email db ↔
      faults.begins = true ∨ faults.commit = true ∨ faults.anyStatement = false ∨
        SubjectForgotten email (db.subscriptionIds email) db := by
  unfold Truthful executeErasureRequest
  cases hbegins : faults.begins with
  | true => simp
  | false =>
    cases hcommit : faults.commit with
    | true => simp
    | false =>
      cases hany : faults.anyStatement with
      | false =>
        have hok : SubjectForgotten email (db.subscriptionIds email)
            (eraseRows faults email db).1.db ∧
              Counted db (eraseRows faults email db).1.db (eraseRows faults email db).2 :=
          eraseRows_ok hany
        obtain ⟨hforgotten, hcounted⟩ := hok
        simp only [Bool.false_eq_true, if_false, eraseRows_aborted, hany]
        exact iff_of_true ⟨rfl, hforgotten, hcounted⟩ (.inr (.inr (.inl trivial)))
      | true =>
        simp only [Bool.false_eq_true, if_false, eraseRows_aborted, hany, if_true, false_or]
        constructor
        · rintro ⟨-, hforgotten, -⟩
          exact .inr hforgotten
        · rintro (hok | hforgotten)
          · exact absurd hok Bool.noConfusion
          · exact ⟨rfl, hforgotten, eraseRows_idle hforgotten⟩

/-- A subscriber, in a database whose first statement fails. -/
def oneSubscriber : SubjectDb where
  deliveryLogs := []
  webhooks := []
  subscriptions := [(1, some "a@b.c")]
  emailDeliveries := []
  notificationAuditLog := []
  gdprConsentRecords := []

theorem not_truthful_oneSubscriber : ¬Truthful { deliveryLogs := true } "a@b.c" oneSubscriber := by
  rintro ⟨-, hforgotten, -⟩
  exact hforgotten.subscriptions (1, some "a@b.c") List.mem_cons_self rfl

end

end SorobanPulse.Erasure
