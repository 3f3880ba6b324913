import SorobanPulse.Integrity.Writers

/-! Masking: `mask_event_data` on a payload, and the job over the table.

        payload without a string under an address key   ──▶  the same payload
        payload with one                                ──▶  a panic, which ends the job

    Either way the table is what it was. The job reads the first 1000 rows only, by id, and takes no
    notice of what is behind them; it does not come to that. -/

namespace SorobanPulse.Integrity
open Batch Erasure Ingest Lib

/-! ### What masking is for -/

mutual
/-- The second value is the first with every string of an address replaced by another, and nothing
    else changed. -/
def Masked : Value → Value → Prop
  | .object map, w => ∃ map', w = .object map' ∧ MaskedMembers map map'
  | .array items, w => ∃ items', w = .array items' ∧ MaskedItems items items'
  | v, w => w = v

def MaskedMembers : List (String × Value) → List (String × Value) → Prop
  | [], map' => map' = []
  | (key, v) :: map, map' => ∃ w rest, map' = (key, w) :: rest ∧ MaskedMembers map rest ∧
    if holdsAddress key v then w ≠ v ∧ w.asStr.isSome = true else Masked v w

def MaskedItems : List Value → List Value → Prop
  | [], items' => items' = []
  | v :: items, items' => ∃ w rest, items' = w :: rest ∧ Masked v w ∧ MaskedItems items rest
end

/-- The function returns, and what it returns is the masked payload. -/
def MasksRight (deterministicHash : String → UInt64) (data : Value) : Prop :=
  ∃ masked, maskEventData deterministicHash data = some masked ∧ Masked data masked

/-- Every event of the requested contracts has its payload masked. -/
def LeavesNoneUnmasked (contractIds : Option (List String)) (db db' : Db) : Prop :=
  ∀ r ∈ db.events, selectedForMasking contractIds r = true →
    ∃ r' ∈ db'.events, r'.id = r.id ∧ Masked r.eventData r'.eventData

/-! ### Payloads with nothing to mask -/

mutual
/-- A payload is its own masked payload if there is nothing to mask, and only then. -/
theorem masked_self_iff : ∀ {v : Value}, Masked v v ↔ NoAddress v
  | .object map => by
    rw [← maskedMembers_self_iff]
    simp [Masked]
  | .array items => by
    rw [← maskedItems_self_iff]
    simp [Masked]
  | .null | .bool _ | .number _ | .string _ => by
    simp only [Masked, true_iff]
    intro s h
    cases h

theorem maskedMembers_self_iff : ∀ {map : List (String × Value)},
    MaskedMembers map map ↔ NoAddress (.object map)
  | [] => iff_of_true rfl noAddress_object_nil
  | (key, v) :: map => by
    rw [noAddress_object_cons, ← masked_self_iff, ← maskedMembers_self_iff, MaskedMembers]
    cases holdsAddress key v <;> simp [and_comm]

theorem maskedItems_self_iff : ∀ {items : List Value},
    MaskedItems items items ↔ NoAddress (.array items)
  | [] => iff_of_true rfl noAddress_array_nil
  | v :: items => by
    rw [noAddress_array_cons, ← masked_self_iff, ← maskedItems_self_iff, MaskedItems]
    simp
end

/-! ### The function -/

theorem masksRight_iff {deterministicHash : String → UInt64} {data : Value} :
    MasksRight deterministicHash data ↔ NoAddress data := by
  constructor
  · rintro ⟨masked, hmasked, -⟩
    exact (maskEventData_eq_some_iff.mp hmasked).2
  · intro h
    exact ⟨data, maskEventData_eq_some_iff.mpr ⟨rfl, h⟩, masked_self_iff.mpr h⟩

/-! ### The job -/

/-- A table that stays as it is had nothing to mask. -/
theorem leavesNoneUnmasked_self_iff {db : Db} {contractIds : Option (List String)} :
    LeavesNoneUnmasked contractIds db db ↔
      ∀ r ∈ db.events, selectedForMasking contractIds r = true → NoAddress r.eventData := by
  constructor
  · intro h r hr hsel
    obtain ⟨r', hr', hid, hmasked⟩ := h r hr hsel
    rw [Db.eq_of_id hr' hr hid] at hmasked
    exact masked_self_iff.mp hmasked
  · intro h r hr hsel
    exact ⟨r, hr, rfl, masked_self_iff.mpr (h r hr hsel)⟩

/-- Masking does what it is for exactly where there is nothing to do: on a payload without a string
    under an address key, and on a table whose requested contracts have only such payloads. -/
theorem masking_iff (deterministicHash : String → UInt64) (data : Value) (admits : Value → Bool)
    (faults : Faults) (db : Db) (contractIds : Option (List String)) :
    (MasksRight deterministicHash data ↔ NoAddress data) ∧
      (LeavesNoneUnmasked contractIds db
          (maskEventsBackground deterministicHash admits faults db contractIds) ↔
        ∀ r ∈ db.events, selectedForMasking contractIds r = true → NoAddress r.eventData) := by
  rw [maskEventsBackground_eq]
  exact ⟨masksRight_iff, leavesNoneUnmasked_self_iff⟩

/-! ### An event with an account -/

/-- The payload `{"account":"GABC"}`. -/
def accountData : Value := .object [("account", .string "GABC")]

def accountRecord : EventRecord := { indexedRecord none with eventData := accountData }

theorem not_noAddress_account : ¬NoAddress accountData := by
  intro h
  exact h "GABC" (.here (by decide +kernel) List.mem_cons_self)

/-- The function panics on the payload, and the job leaves the event as it was. -/
theorem not_masked_account :
    ¬MasksRight (fun _ => 0) accountData ∧
      ¬LeavesNoneUnmasked none (oneRow accountRecord)
        (maskEventsBackground (fun _ => 0) (fun _ => true) {} (oneRow accountRecord) none) := by
  refine ⟨fun h => not_noAddress_account (masksRight_iff.mp h), fun h => ?_⟩
  rw [maskEventsBackground_eq, leavesNoneUnmasked_self_iff] at h
  exact not_noAddress_account (h accountRecord List.mem_cons_self rfl)

end SorobanPulse.Integrity
