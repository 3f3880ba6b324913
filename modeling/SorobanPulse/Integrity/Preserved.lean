import SorobanPulse.Integrity.Effects
import SorobanPulse.Integrity.Pipeline

/-! No writer of `events` makes a row that the integrity scan calls critical, but one.

        store       only what `validate_event_data` accepts           ✓
        anonymize   a digest, and a payload without the two members   ✓
        mask        what was there                                    ✓
        tag         `_tags` only                                      ✓
        transform   whatever the pipeline makes of the layout         if that is tidy, or a CHECK
                                                                      guards the table

    Every payload is left as it was, or becomes the whole result of the write. -/

namespace SorobanPulse.Integrity
open Batch Erasure Ingest Lib

/-- No row of the table has a critical issue at this time. -/
def Intact (formats : Formats) (now : ℤ) (db : Db) : Prop :=
  ∀ r ∈ db.events, NoCritical (validateEventRecord formats now (recordRef r))

variable (writers : Writers)

/-- The table stays intact, and what becomes of a payload is the whole result or nothing. -/
structure Sound (formats : Formats) (now : ℤ) (s : ReingestState) (w : Write writers.libraries) :
    Prop where
  intact : Intact formats now (write writers s w).db
  payload : ∀ r ∈ s.db.events, ∃ r' ∈ (write writers s w).db.events, r'.id = r.id ∧
    (r'.eventData = r.eventData ∨ w.payload writers r.eventData = some r'.eventData)

/-- The kinds of a payload's members; none, if it is no object. -/
def payloadLayout : Value → Layout
  | .object map => layoutOf map
  | _ => fun _ => none

/-- A transformation of an unguarded table leads each row it updates to a tidy layout. -/
def Fits (s : ReingestState) : Write writers.libraries → Prop
  | .store _ => True
  | .anonymize _ => True
  | .mask _ _ => True
  | .tag _ _ => True
  | .transform ids pipeline faults =>
    writers.eventDataCheck = false → faults.select = false → (∀ step ∈ pipeline, Accepted step) →
      ∀ r ∈ s.db.events, r.id ∈ ids → faults.update r.id = false →
        (trackPipeline pipeline (payloadLayout r.eventData)).Tidy

/-! ### The shape of a payload -/

section
variable {writers} {formats : Formats} {before now : ℤ} {s : ReingestState} {db : Db}
  {f : EventRecord → Value} {data data' : Value} {r : EventRecord}

theorem intact_iff : Intact formats now db ↔ ∀ r ∈ db.events, (recordRef r).Healthy := by
  simp only [Intact, noCritical_iff]

theorem shaped_tagData {tags : Value} {replace : Bool} (h : tagData tags replace data = some data')
    (hdata : Shaped data) : Shaped data' := by
  obtain ⟨map, rfl, hvalue, htopic⟩ := hdata
  unfold tagData jsonbSet at h
  cases h
  refine ⟨_, rfl, ?_⟩
  rw [layoutOf_insertMember]
  exact ⟨by simpa [Layout.set] using hvalue, by simpa [Layout.set] using htopic⟩

/-- The CHECK keeps an object tidy. -/
theorem tidy_of_check {map : List (String × Value)}
    (h : checkEventDataStructure (.object map) = true) : (layoutOf map).Tidy := by
  simp only [checkEventDataStructure, member, Bool.and_eq_true, Option.all_eq_true,
    decide_eq_true_eq] at h
  obtain ⟨hvalue, htopic⟩ := h
  refine ⟨?_, ?_⟩
  · rintro k hk
    obtain ⟨v, hv, rfl⟩ := Option.map_eq_some_iff.mp hk
    exact .inr (hvalue v hv)
  · rintro k hk
    obtain ⟨t, ht, rfl⟩ := Option.map_eq_some_iff.mp hk
    exact .inr (htopic t ht)

/-- A row's update goes through if its statement does and the CHECK, if any, holds. -/
theorem transformFaults_update (pipeline : List TransformStep) (faults : Faults)
    (hr : r ∈ db.events) : (transformFaults writers db pipeline faults).update r.id = false ↔
      faults.update r.id = false ∧
        (applyPipeline pipeline r.eventData).toOption.all writers.admits = true := by
  simp only [transformFaults, Bool.or_eq_false_iff, List.any_eq_false, Bool.and_eq_true,
    decide_eq_true_eq, Bool.not_eq_true', not_and, Bool.not_eq_false]
  refine and_congr_right fun _ => ⟨fun h => h r hr rfl, ?_⟩
  intro h q hq hid
  rw [Db.eq_of_id hq hr hid]
  exact h

theorem shaped_transformed_iff (ids : List Uuid) (pipeline : List TransformStep) (faults : Faults)
    (hr : r ∈ db.events) (hdata : Shaped r.eventData) :
    Shaped (transformed ids pipeline (transformFaults writers db pipeline faults) r) ↔
      (writers.eventDataCheck = false → (∀ step ∈ pipeline, Accepted step) → r.id ∈ ids →
        faults.update r.id = false → (trackPipeline pipeline (payloadLayout r.eventData)).Tidy) := by
  obtain ⟨map, hmap, _⟩ := id hdata
  simp only [transformed_eq, transformFaults_update pipeline faults hr]
  by_cases hall : ∀ step ∈ pipeline, Accepted step
  · obtain ⟨map', hok, hlayout⟩ := applyPipeline_ok hall map
    rw [hmap] at hdata ⊢
    rw [hok, payloadLayout, ← hlayout]
    have hshaped : Shaped (.object map') ↔ (layoutOf map').Tidy := by
      simp [Shaped]
    cases hcheck : writers.eventDataCheck with
    | true =>
      refine iff_of_true ?_ (by simp)
      split
      · next hupdate =>
        -- the CHECK let the new payload through
        have hadmits := hupdate.2.2
        rw [Except.toOption, Option.all_some, Writers.admits, hcheck] at hadmits
        exact hshaped.mpr (tidy_of_check hadmits)
      · exact hdata
    | false =>
      have hadmits : writers.admits (.object map') = true := by
        rw [Writers.admits, hcheck]
        rfl
      rw [Except.toOption, Option.all_some, hadmits, Option.getD_some]
      split
      · next hupdate =>
        rw [hshaped]
        exact ⟨fun htidy _ _ _ _ => htidy, fun h => h rfl hall hupdate.1 hupdate.2.1⟩
      · next hupdate =>
        refine iff_of_true hdata fun _ _ hin hfault => ?_
        exact absurd ⟨hin, hfault, rfl⟩ hupdate
  · obtain ⟨msg, herror⟩ := applyPipeline_error hall r.eventData
    refine iff_of_true ?_ fun _ hall' => absurd hall' hall
    rw [herror]
    exact (ite_self (c := _) r.eventData).symm ▸ hdata

/-! ### Writes -/

theorem intact_setEventData_iff (h : Intact formats before db) :
    Intact formats now (setEventData db f) ↔ ∀ r ∈ db.events, Shaped (f r) := by
  rw [intact_iff] at h ⊢
  rw [setEventData, List.forall_mem_map]
  exact forall₂_congr fun r hr => healthy_setData_iff (h r hr)

/-- Only a transformation may leave a row in another shape. -/
theorem Rewritten.healthy {w : Write writers.libraries} {r' : EventRecord}
    (hrow : Rewritten writers w r r') (h : (recordRef r).Healthy)
    (hw : ∀ ids pipeline faults, w ≠ .transform ids pipeline faults) : (recordRef r').Healthy := by
  cases hrow with
  | kept => exact h
  | anonymized text _ => exact healthy_anonymize h text
  | set hdata =>
    rw [healthy_setData_iff h]
    cases w with
    | store call => cases hdata
    | anonymize id =>
      cases hdata
      exact shaped_anonymized
    | mask contractIds faults =>
      rw [(maskEventData_eq_some_iff.mp hdata).1]
      exact h.eventData
    | tag req faults => exact shaped_tagData hdata h.eventData
    | transform ids pipeline faults => exact absurd rfl (hw ids pipeline faults)

theorem intact_write (h : Intact formats before s.db) {w : Write writers.libraries}
    (hw : ∀ ids pipeline faults, w ≠ .transform ids pipeline faults) :
    Intact formats now (write writers s w).db := by
  rw [intact_iff] at h ⊢
  rcases write_cases s w with ⟨record, hrecord, heq⟩ | ⟨f, heq, hf⟩
  · rw [heq, List.forall_mem_append, List.forall_mem_singleton]
    exact ⟨h, hrecord⟩
  · rw [heq, List.forall_mem_map]
    exact fun r hr => (hf r).healthy (h r hr) hw

theorem intact_transform_iff (h : Intact formats before s.db) (ids : List Uuid)
    (pipeline : List TransformStep) (faults : Faults) :
    Intact formats now (write writers s (.transform ids pipeline faults)).db ↔
      Fits writers s (.transform ids pipeline faults) := by
  have hrows := intact_iff.mp h
  rw [write, transform_db]
  change Intact _ _ (if faults.select then _ else _) ↔ _
  cases hselect : faults.select with
  | true => exact iff_of_true (intact_iff.mpr hrows) fun _ hfalse => by cases hselect ▸ hfalse
  | false =>
    rw [if_neg Bool.false_ne_true, intact_setEventData_iff h]
    constructor
    · intro hall hcheck _ haccepted r hr
      exact (shaped_transformed_iff ids pipeline faults hr (hrows r hr).eventData).mp (hall r hr)
        hcheck haccepted
    · intro hfits r hr
      refine (shaped_transformed_iff ids pipeline faults hr (hrows r hr).eventData).mpr ?_
      exact fun hcheck haccepted => hfits hcheck hselect haccepted r hr

/-- A write keeps the table intact if and only if it fits. -/
theorem intact_write_iff (h : Intact formats before s.db) (w : Write writers.libraries) :
    Intact formats now (write writers s w).db ↔ Fits writers s w := by
  cases w with
  | transform ids pipeline faults => exact intact_transform_iff h ids pipeline faults
  | store call => exact iff_of_true (intact_write h (by simp)) trivial
  | anonymize id => exact iff_of_true (intact_write h (by simp)) trivial
  | mask contractIds faults => exact iff_of_true (intact_write h (by simp)) trivial
  | tag req faults => exact iff_of_true (intact_write h (by simp)) trivial

theorem Rewritten.id_eq {w : Write writers.libraries} {r' : EventRecord}
    (h : Rewritten writers w r r') : r'.id = r.id := by
  cases h <;> rfl

theorem Rewritten.payload {w : Write writers.libraries} {r' : EventRecord}
    (h : Rewritten writers w r r') :
    r'.eventData = r.eventData ∨ w.payload writers r.eventData = some r'.eventData := by
  cases h with
  | kept => exact .inl rfl
  | anonymized text hw =>
    subst hw
    exact .inr rfl
  | set hdata => exact .inr hdata

/-- A payload stays as it was, or becomes what the whole write makes of it. -/
theorem payload_write (s : ReingestState) (w : Write writers.libraries) (hr : r ∈ s.db.events) :
    ∃ r' ∈ (write writers s w).db.events, r'.id = r.id ∧
      (r'.eventData = r.eventData ∨ w.payload writers r.eventData = some r'.eventData) := by
  rcases write_cases s w with ⟨record, _, heq⟩ | ⟨f, heq, hf⟩
  · rw [heq]
    exact ⟨r, List.mem_append_left _ hr, rfl, .inl rfl⟩
  · rw [heq]
    exact ⟨f r, List.mem_map_of_mem hr, (hf r).id_eq, (hf r).payload⟩

end

/-- Through a run of writes the table is intact if and only if every write of it fits. -/
theorem intact_throughout_iff (formats : Formats) (now : ℤ) {s t : ReingestState}
    {ws : List (Write writers.libraries)} (h : Intact formats now s.db)
    (hrun : AnyRun (fun s w => some (write writers s w)) s ws t) :
    Throughout (fun s w => some (write writers s w)) (fun s => Intact formats now s.db) s ws ↔
      Run (fun s w => some (write writers s w)) (Fits writers) s ws t := by
  have hgood : ∀ {s : ReingestState}, Intact formats now s.db → Intact formats now s.db := id
  refine hrun.throughout_iff hgood ?_ ?_ h
  · rintro s w _ hfits ⟨⟩ hs
    exact (intact_write_iff hs w).mpr hfits
  · rintro s w _ ⟨⟩ hs ht
    exact (intact_write_iff hs w).mp ht

/-- No write to an intact table is other than sound. -/
def NoWriterCorrupts : Prop :=
  ∀ (formats : Formats) (before now : ℤ) (s : ReingestState) (w : Write writers.libraries),
    Intact formats before s.db → Sound writers formats now s w

/-- A write to an intact table is sound if and only if it fits. -/
theorem sound_iff_fits (formats : Formats) (before now : ℤ) (s : ReingestState)
    (w : Write writers.libraries) (h : Intact formats before s.db) :
    Sound writers formats now s w ↔ Fits writers s w := by
  constructor
  · intro hsound
    exact (intact_write_iff h w).mp hsound.intact
  · intro hfits
    exact ⟨(intact_write_iff h w).mpr hfits, fun r hr => payload_write s w hr⟩

/-! ### A masked value -/

/-- The SHA-256 digest of the sample transaction's hash. -/
def sampleDigest : Vector UInt8 32 :=
  #v[0x9a, 0xb8, 0x83, 0x0e, 0xe8, 0xc5, 0x13, 0x92, 0xc8, 0xaa, 0x50, 0xaf, 0x7e, 0x0d, 0xb2, 0x2d,
    0x79, 0x96, 0x5b, 0x6b, 0x79, 0xb3, 0x3b, 0xb4, 0x94, 0x92, 0x81, 0xc9, 0xe8, 0x4d, 0xd5, 0x76]

/-- With the table that the last migrations leave. -/
def sampleWriters : Writers where
  config := {}
  libraries := Ingest.sampleLibraries
  enrichment :=
    { sampleEnrichment with sha256 := fun _ => String.ofList (lowerHex sampleDigest.toList) }
  casts := sampleCasts
  digest := fun _ => sampleDigest
  sha256_eq := fun _ => rfl
  deterministicHash := fun _ => 0
  eventDataCheck := false

/-- One stored event, its value null and its topics an empty list. -/
def sampleState : ReingestState where
  db := oneRow (indexedRecord (some []))
  filters := { session := none, bloom := none }
  origin := fun _ => Erasure.sampleEvent (some [])

def sampleFormats : Formats where
  displayTime := fun _ => "2024-01-01 00:00:00 UTC"
  debugValue := fun _ => "Null"

/-- `2024-01-01T00:00:00Z` -/
def sampleNow : ℤ := 1704067200 * 1000000000

theorem intact_sampleState : Intact sampleFormats sampleNow sampleState.db := by
  rw [intact_iff]
  intro r hr
  rw [List.mem_singleton.mp hr]
  refine ⟨by decide, by decide, by decide, by decide, ?_⟩
  exact shaped_eventData (.inl rfl)

/-- The row's topics are dropped. -/
def dropTopic : Write sampleWriters.libraries :=
  .transform [7] [{ op := "drop_field", field := "topic", value := none }] {}

theorem sound_dropTopic : Sound sampleWriters sampleFormats sampleNow sampleState dropTopic := by
  refine (sound_iff_fits sampleWriters sampleFormats sampleNow sampleNow sampleState dropTopic
    intact_sampleState).mpr ?_
  intro _ _ _ r hr _ _
  rw [List.mem_singleton.mp hr]
  decide

/-- The row's value is replaced by a text. -/
def maskValue : Write sampleWriters.libraries :=
  .transform [7] [{ op := "mask_field", field := "value", value := none }] {}

theorem not_noWriterCorrupts_maskValue : ¬ NoWriterCorrupts sampleWriters := by
  intro h
  have hsound := h sampleFormats sampleNow sampleNow sampleState maskValue intact_sampleState
  have hfits := (intact_write_iff intact_sampleState maskValue).mp hsound.intact
  have htidy := hfits rfl rfl (by decide) (indexedRecord (some []))
    (List.mem_singleton.mpr rfl) (by decide) rfl
  revert htidy
  decide

end SorobanPulse.Integrity
