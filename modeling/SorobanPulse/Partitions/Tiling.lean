import SorobanPulse.Partitions.Creation

/-! Runs of ingestion and rotation.

        rotate at 0           [0, R) [R, 2R) [2R, 3R)
        ingest up to R / 2
        rotate at R / 2       [R/2, 3R/2) overlaps [0, R), and is rejected

    The ranges start at the highest ledger, wherever that is. The attached partitions tile the ledgers
    ahead exactly when each rotation finds its three ranges attached and kept, or free. -/

namespace SorobanPulse.Partitions

/-! ### Runs -/

inductive Step where
  | ingest (ledger : Fin (2 ^ 63))
  | rotate

/-- An empty table without partitions. -/
def noPartitions : Events := { partitions := [], maxLedger := 0 }

def Events.ingest (events : Events) (ledger : Fin (2 ^ 63)) : Events :=
  { events with maxLedger := max events.maxLedger ledger }

section
variable (config : LedgerPartitionConfig)

/-- The rotations of a run, each with the table before it. -/
def rotations : Events → List Step → List (Events × Rotation)
  | _, [] => []
  | events, .ingest ledger :: steps => rotations (events.ingest ledger) steps
  | events, .rotate :: steps =>
    let rotation := rotateLedgerPartitions config events
    (events, rotation) :: rotations rotation.events steps

/-- After a rotation the partitions are disjoint and named for their ranges, those of the next two
    ranges of ledgers are there, nothing was rejected, and the quota was met. -/
structure Tiled (before : Events) (rotation : Rotation) : Prop where
  disjoint : rotation.events.partitions.Pairwise LedgerPartition.Apart
  ahead : ∀ ledger : ℤ, before.maxLedger.val + 1 ≤ ledger →
    ledger ≤ before.maxLedger.val + 2 * config.ledgerRangePerPartition.toInt →
      ∃ p ∈ rotation.events.partitions, p.start ≤ ledger ∧ ledger < p.stop
  accepted : rotation.rejected = []
  named : ∀ p ∈ rotation.events.partitions,
    parseLedgerPartitionRange p.name = some (p.start, p.stop)
  quota : rotation.listed ≤ config.maxPartitionsBeforeArchival.toNat

def LedgersTiled (steps : List Step) : Prop :=
  ∀ x ∈ rotations config noPartitions steps, Tiled config x.1 x.2

/-- A rotation finds room: it creates partitions, their arithmetic stays in range, the number of
    listed partitions fits its type, and each range is either that of a partition that is listed and
    among the newest that stay, or overlaps nothing attached. -/
structure Fits (events : Events) : Prop where
  auto : config.autoCreatePartitions = true
  inRange : events.maxLedger.val + 3 * config.ledgerRangePerPartition.toInt < 2 ^ 63
  few : events.partitions.countP (·.listed) < 2 ^ 32
  room : ∀ i < 3, (Attached events.partitions (nextRange config events i).1
        (nextRange config events i).2 ∧
      newerCount events.partitions (nextRange config events i).1 ≤
        config.maxPartitionsBeforeArchival.toNat) ∨
    Free events.partitions (nextRange config events i).1 (nextRange config events i).2

end

/-! ### One rotation -/

section
variable {config : LedgerPartitionConfig} {events : Events} {a b : ℤ}

theorem length_active (h : Coherent events.partitions) :
    (activePartitions events).length = events.partitions.countP (·.listed) := by
  rw [activePartitions_eq h, List.length_map, List.countP_eq_length_filter]

theorem free_archive_iff (h : Coherent events.partitions) :
    Free (archiveLedgerPartitions config events).partitions a b ↔ Free events.partitions a b := by
  rw [archive_eq h, Free, List.forall_mem_map]
  refine forall₂_congr fun p _ => ?_
  rw [archivedBy_start, archivedBy_stop]

/-- A range keeps its name if its partition is among the newest. -/
theorem attached_archive_iff (h : Coherent events.partitions)
    (hfew : (activePartitions events).length < 2 ^ 32) (ha : 0 ≤ a) (hb : 0 ≤ b) :
    Attached (archiveLedgerPartitions config events).partitions a b ↔
      Attached events.partitions a b ∧
        newerCount events.partitions a ≤ config.maxPartitionsBeforeArchival.toNat := by
  have hkept : ∀ p ∈ events.partitions, p.name = partitionName a b →
      (p.name ∉ oldestNames config events ↔
        newerCount events.partitions a ≤ config.maxPartitionsBeforeArchival.toNat) := by
    intro p hp hname
    obtain ⟨hstart, hstop⟩ := h.start_of_name hp ha hb hname
    have hlisted : p.listed = true := (h.listed_iff hp).mpr (by rw [hstart, hstop, hname])
    rw [name_mem_oldestNames_iff h hfew hp hlisted, hstart, Nat.not_lt]
  rw [archive_eq h]
  constructor
  · rintro ⟨q, hq, hname⟩
    obtain ⟨p, hp, rfl⟩ := List.mem_map.mp hq
    rw [archivedBy] at hname
    split at hname
    · next hmem =>
      obtain ⟨a', b', hold⟩ := partitionNames_oldestNames h p.name hmem
      rw [hold] at hname
      exact absurd hname archiveName_ne_partitionName
    · next hnot => exact ⟨⟨p, hp, hname⟩, (hkept p hp hname).mp hnot⟩
  · rintro ⟨⟨p, hp, hname⟩, hnewer⟩
    refine ⟨archivedBy (oldestNames config events) p, List.mem_map_of_mem hp, ?_⟩
    rw [archivedBy, if_neg ((hkept p hp hname).mpr hnewer), hname]

theorem maxLedger_archive (h : Coherent events.partitions) :
    (archiveLedgerPartitions config events).maxLedger = events.maxLedger := by
  rw [archive_eq h]

theorem nextRange_archive (h : Coherent events.partitions) (i : ℕ) :
    nextRange config (archiveLedgerPartitions config events) i = nextRange config events i := by
  rw [nextRange, nextRange, maxLedger_archive h]

/-- The archived state has room for the three ranges exactly when the state before has. -/
theorem available_archive_iff (h : Coherent events.partitions)
    (hR : 1 ≤ config.ledgerRangePerPartition.toInt)
    (hfew : (activePartitions events).length < 2 ^ 32) (i : ℕ) :
    Available config (archiveLedgerPartitions config events) i ↔
      InRange config events i ∧ ((Attached events.partitions (nextRange config events i).1
          (nextRange config events i).2 ∧
        newerCount events.partitions (nextRange config events i).1 ≤
          config.maxPartitionsBeforeArchival.toNat) ∨
      Free events.partitions (nextRange config events i).1 (nextRange config events i).2) := by
  obtain ⟨ha, hab⟩ := nextRange_bounds events hR i
  rw [Available, InRange, InRange, nextRange_archive h, free_archive_iff h,
    attached_archive_iff h hfew ha (by omega)]

theorem forall_inRange_iff (hR : 1 ≤ config.ledgerRangePerPartition.toInt) :
    (∀ i < 3, InRange config events i) ↔
      events.maxLedger.val + 3 * config.ledgerRangePerPartition.toInt < 2 ^ 63 := by
  constructor
  · intro h
    have hlast := h 2 (by omega)
    rw [InRange, nextRange] at hlast
    dsimp only at hlast
    omega
  · intro h i hi
    have hle : ((i : ℤ) + 1) * config.ledgerRangePerPartition.toInt ≤
        3 * config.ledgerRangePerPartition.toInt :=
      Int.mul_le_mul_of_nonneg_right (by omega) (by omega)
    rw [InRange, nextRange]
    dsimp only
    omega

/-- The three ranges reach two ranges ahead. -/
theorem ahead_of_extends {old new : List LedgerPartition}
    (h : Extends old new ((List.range 3).map (nextRange config events))) (ledger : ℤ)
    (hlo : events.maxLedger.val + 1 ≤ ledger)
    (hhi : ledger ≤ events.maxLedger.val + 2 * config.ledgerRangePerPartition.toInt) :
    ∃ p ∈ new, p.start ≤ ledger ∧ ledger < p.stop := by
  have hcover : ∃ i < 3, (nextRange config events i).1 ≤ ledger ∧
      ledger < (nextRange config events i).2 := by
    rcases lt_or_ge ledger (nextRange config events 0).2 with h0 | h0
    · refine ⟨0, by omega, ?_, h0⟩
      rw [nextRange]
      dsimp only
      omega
    · rcases lt_or_ge ledger (nextRange config events 1).2 with h1 | h1
      · refine ⟨1, by omega, ?_, h1⟩
        rw [nextRange] at h0 ⊢
        dsimp only at h0 ⊢
        omega
      · refine ⟨2, by omega, ?_, ?_⟩
        · rw [nextRange] at h1 ⊢
          dsimp only at h1 ⊢
          omega
        · rw [nextRange]
          dsimp only
          omega
  obtain ⟨i, hi, hstart, hstop⟩ := hcover
  obtain ⟨p, hp, hrange⟩ := h.attached _ (List.mem_map_of_mem (List.mem_range.mpr hi))
  rw [← hrange] at hstart hstop
  exact ⟨p, hp, hstart, hstop⟩

theorem rotate_of_auto (events : Events) (h : config.autoCreatePartitions = true) :
    rotateLedgerPartitions config events =
      { events := (createFutureLedgerPartitions config 3 (archiveLedgerPartitions config events)).1
        rejected := (createFutureLedgerPartitions config 3 (archiveLedgerPartitions config events)).2
        listed := (activePartitions (archiveLedgerPartitions config events)).length } := by
  rw [rotateLedgerPartitions, h]
  rfl

theorem rotate_of_not_auto (h : config.autoCreatePartitions = false) :
    rotateLedgerPartitions config events =
      { events := archiveLedgerPartitions config events
        rejected := []
        listed := (activePartitions (archiveLedgerPartitions config events)).length } := by
  rw [rotateLedgerPartitions, h]
  rfl

theorem coherent_rotate (h : Coherent events.partitions) :
    Coherent (rotateLedgerPartitions config events).events.partitions := by
  cases hauto : config.autoCreatePartitions with
  | true =>
    rw [rotate_of_auto _ hauto]
    exact (coherent_createFuture config (coherent_archive h) 3).1
  | false =>
    rw [rotate_of_not_auto hauto]
    exact coherent_archive h

/-- A state of a run: without automatic creation there is no partition at all. -/
structure RunState (config : LedgerPartitionConfig) (events : Events) : Prop where
  coherent : Coherent events.partitions
  empty : config.autoCreatePartitions = false → events.partitions = []

theorem runState_rotate (h : RunState config events) :
    RunState config (rotateLedgerPartitions config events).events := by
  refine ⟨coherent_rotate h.coherent, fun hauto => ?_⟩
  rw [rotate_of_not_auto hauto]
  dsimp only
  rw [archive_eq h.coherent, h.empty hauto]
  rfl

/-- A rotation leaves the ledgers tiled exactly when it finds room. -/
theorem tiled_iff_fits (h : RunState config events)
    (hR : 1 ≤ config.ledgerRangePerPartition.toInt) :
    Tiled config events (rotateLedgerPartitions config events) ↔ Fits config events := by
  have harchived : Coherent (archiveLedgerPartitions config events).partitions :=
    coherent_archive h.coherent
  have hafter : Coherent (rotateLedgerPartitions config events).events.partitions :=
    coherent_rotate h.coherent
  have hmax : (archiveLedgerPartitions config events).maxLedger = events.maxLedger :=
    maxLedger_archive h.coherent
  cases hauto : config.autoCreatePartitions with
  | false =>
    -- nothing is ever created, so the ledgers ahead have no partition
    refine iff_of_false (fun htiled => ?_) fun hfits => ?_
    · obtain ⟨p, hp, -⟩ := htiled.ahead (events.maxLedger.val + 1) (Int.le_refl _) (by omega)
      rw [(runState_rotate h).empty hauto] at hp
      cases hp
    · rw [hfits.auto] at hauto
      cases hauto
  | true =>
    obtain ⟨hiff, hextends⟩ := createFuture_spec harchived hR 3
    have hquota : (activePartitions (archiveLedgerPartitions config events)).length ≤
        config.maxPartitionsBeforeArchival.toNat ↔ (activePartitions events).length < 2 ^ 32 :=
      length_active_archive_le_iff h.coherent
    have hrotate := rotate_of_auto events hauto
    constructor
    · intro htiled
      have hlisted := htiled.quota
      have haccepted := htiled.accepted
      rw [hrotate] at hlisted haccepted
      have hfew := hquota.mp hlisted
      have havailable : ∀ i < 3, _ := fun i hi =>
        (available_archive_iff h.coherent hR hfew i).mp (hiff.mp haccepted i hi)
      exact ⟨hauto, (forall_inRange_iff hR).mp fun i hi => (havailable i hi).1,
        length_active h.coherent ▸ hfew, fun i hi => (havailable i hi).2⟩
    · intro hfits
      have hfew : (activePartitions events).length < 2 ^ 32 := by
        rw [length_active h.coherent]
        exact hfits.few
      have hrange := (forall_inRange_iff hR).mpr hfits.inRange
      have hnil := hiff.mpr fun i hi => (available_archive_iff h.coherent hR hfew i).mpr
        ⟨hrange i hi, hfits.room i hi⟩
      refine ⟨hafter.disjoint, ?_, ?_, fun p hp => hafter.parse_name hp, ?_⟩
      · rw [hrotate, ← hmax]
        exact ahead_of_extends (hextends hnil)
      · rw [hrotate]
        exact hnil
      · rw [hrotate]
        exact hquota.mpr hfew

end

/-! ### Whole runs -/

section
variable {config : LedgerPartitionConfig}

/-- Each rotation of a run starts from such a state. -/
theorem runState_of_mem_rotations : ∀ {steps : List Step} {events : Events},
    RunState config events → ∀ x ∈ rotations config events steps,
      RunState config x.1 ∧ x.2 = rotateLedgerPartitions config x.1
  | [], events, _, x, hx => absurd hx List.not_mem_nil
  | .ingest ledger :: steps, events, h, x, hx => by
    rw [rotations] at hx
    have hingest : RunState config (events.ingest ledger) := ⟨h.coherent, h.empty⟩
    exact runState_of_mem_rotations hingest x hx
  | .rotate :: steps, events, h, x, hx => by
    rw [rotations] at hx
    rcases List.mem_cons.mp hx with rfl | hx
    · exact ⟨h, rfl⟩
    · exact runState_of_mem_rotations (runState_rotate h) x hx

theorem runState_noPartitions : RunState config noPartitions := ⟨coherent_nil, fun _ => rfl⟩

/-- The partitions tile the ledger axis over a run exactly when each of its rotations finds room. -/
theorem ledgersTiled_iff (hR : 1 ≤ config.ledgerRangePerPartition.toInt) (steps : List Step) :
    LedgersTiled config steps ↔
      ∀ x ∈ rotations config noPartitions steps, Fits config x.1 := by
  refine forall₂_congr fun x hx => ?_
  obtain ⟨hstate, hrotate⟩ := runState_of_mem_rotations runState_noPartitions x hx
  rw [hrotate]
  exact tiled_iff_fits hstate hR

end

/-! ### Two rotations -/

instance (partitions : List LedgerPartition) (a b : ℤ) : Decidable (Attached partitions a b) :=
  inferInstanceAs (Decidable (∃ p ∈ partitions, p.name = partitionName a b))

instance (partitions : List LedgerPartition) (a b : ℤ) : Decidable (Free partitions a b) :=
  inferInstanceAs (Decidable (∀ p ∈ partitions, p.stop ≤ a ∨ b ≤ p.start))

instance (config : LedgerPartitionConfig) (events : Events) : Decidable (Fits config events) :=
  decidable_of_iff (config.autoCreatePartitions = true ∧
    events.maxLedger.val + 3 * config.ledgerRangePerPartition.toInt < 2 ^ 63 ∧
    events.partitions.countP (·.listed) < 2 ^ 32 ∧
    ∀ i < 3, (Attached events.partitions (nextRange config events i).1
          (nextRange config events i).2 ∧
        newerCount events.partitions (nextRange config events i).1 ≤
          config.maxPartitionsBeforeArchival.toNat) ∨
      Free events.partitions (nextRange config events i).1 (nextRange config events i).2)
    ⟨fun h => ⟨h.1, h.2.1, h.2.2.1, h.2.2.2⟩, fun h => ⟨h.auto, h.inRange, h.few, h.room⟩⟩

def defaultConfig : LedgerPartitionConfig where
  ledgerRangePerPartition := 1000000
  autoCreatePartitions := true
  maxPartitionsBeforeArchival := 12

/-- One range after the first rotation, the second finds two of its ranges attached. -/
theorem ledgersTiled_whole :
    LedgersTiled defaultConfig [.rotate, .ingest 1000000, .rotate] :=
  (ledgersTiled_iff (by decide) _).mpr (by decide +kernel)

/-- Half a range after the first rotation, the second is rejected. -/
theorem not_ledgersTiled_half :
    ¬LedgersTiled defaultConfig [.rotate, .ingest 500000, .rotate] := by
  intro h
  have haccepted : ((rotations defaultConfig noPartitions
      [.rotate, .ingest 500000, .rotate]).all fun x => x.2.rejected.isEmpty) = true := by
    rw [List.all_eq_true]
    intro x hx
    rw [(h x hx).accepted]
    rfl
  revert haccepted
  decide +kernel

end SorobanPulse.Partitions
