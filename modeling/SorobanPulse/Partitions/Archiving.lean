import Mathlib.Data.List.Pairwise
import SorobanPulse.Partitions.LedgerPartitions

/-! Archiving the oldest partitions.

    Archiving changes names only. The ranges stay attached, and so in the way of new ones; the listing
    goes by the name, and no longer shows them. -/

namespace SorobanPulse.Partitions
open Lib

/-- The partition shows in the listing. -/
def LedgerPartition.listed (p : LedgerPartition) : Bool := likeStart ledgerPrefix p.name

def LedgerPartition.Apart (p q : LedgerPartition) : Prop := p.stop ≤ q.start ∨ q.stop ≤ p.start

instance : Std.Symm LedgerPartition.Apart := ⟨fun _ _ => Or.symm⟩

/-- Attached partitions hold ranges of ledgers, are named for them, and do not overlap. -/
structure Coherent (partitions : List LedgerPartition) : Prop where
  nonneg : ∀ p ∈ partitions, 0 ≤ p.start
  ordered : ∀ p ∈ partitions, p.start < p.stop
  bounded : ∀ p ∈ partitions, p.stop < 2 ^ 63
  named : ∀ p ∈ partitions, p.name = partitionName p.start p.stop ∨
    p.name = archiveName (partitionName p.start p.stop)
  disjoint : partitions.Pairwise LedgerPartition.Apart

section
variable {events : Events} {partitions : List LedgerPartition} {p q : LedgerPartition} {a b : ℤ}

theorem coherent_nil : Coherent [] :=
  ⟨fun _ h => absurd h List.not_mem_nil, fun _ h => absurd h List.not_mem_nil,
    fun _ h => absurd h List.not_mem_nil, fun _ h => absurd h List.not_mem_nil, .nil⟩

namespace Coherent

theorem eq_of_start_eq (h : Coherent partitions) (hp : p ∈ partitions) (hq : q ∈ partitions)
    (hstart : p.start = q.start) : p = q := by
  by_contra hne
  have hp' := h.ordered p hp
  have hq' := h.ordered q hq
  rcases h.disjoint.forall hp hq hne with hdisjoint | hdisjoint <;> omega

theorem nodup (h : Coherent partitions) : partitions.Nodup := by
  refine h.disjoint.imp_of_mem fun {p q} hp _ hapart => ?_
  rintro rfl
  have hordered := h.ordered p hp
  rcases hapart with hapart | hapart <;> omega

theorem start_of_name (h : Coherent partitions) (hp : p ∈ partitions) (ha : 0 ≤ a) (hb : 0 ≤ b)
    (hname : p.name = partitionName a b) : p.start = a ∧ p.stop = b := by
  have hstart := h.nonneg p hp
  have hordered := h.ordered p hp
  rcases h.named p hp with hown | hown
  · exact partitionName_inj hstart (by omega) ha hb (hown.symm.trans hname)
  · exact absurd (hown.symm.trans hname) archiveName_ne_partitionName

theorem listed_iff (h : Coherent partitions) (hp : p ∈ partitions) :
    p.listed = true ↔ p.name = partitionName p.start p.stop := by
  rw [LedgerPartition.listed]
  rcases h.named p hp with hname | hname
  · rw [hname, likeStart_partitionName]
    exact iff_of_true rfl rfl
  · rw [hname, likeStart_archiveName]
    exact iff_of_false Bool.false_ne_true archiveName_ne_partitionName

theorem parse_name (h : Coherent partitions) (hp : p ∈ partitions) :
    parseLedgerPartitionRange p.name = some (p.start, p.stop) := by
  have hstart := h.nonneg p hp
  have hordered := h.ordered p hp
  have hstop := h.bounded p hp
  rcases h.named p hp with hname | hname
  · rw [hname]
    exact parse_partitionName hstart (by omega) (by omega) hstop
  · rw [hname]
    exact parse_archiveName hstart (by omega) (by omega) hstop

end Coherent

/-! ### The listing -/

def LedgerPartition.info (p : LedgerPartition) : LedgerPartitionInfo :=
  { partitionName := p.name, startLedger := p.start, endLedger := p.stop, isArchived := false }

/-- The renamed ones are not listed, so none is listed as archived. -/
theorem activePartitions_eq (h : Coherent events.partitions) :
    activePartitions events = (events.partitions.filter (·.listed)).map (·.info) := by
  have hlist : listLedgerPartitions events =
      (events.partitions.filter (·.listed)).map (·.info) := by
    rw [← List.filterMap_eq_map]
    refine List.filterMap_congr fun p hp => ?_
    obtain ⟨hp, hlisted⟩ := List.mem_filter.mp hp
    have hname := (h.listed_iff hp).mp hlisted
    have harchived : archivePrefix.isPrefixOf p.name = false := by
      rw [hname]
      rfl
    rw [h.parse_name hp, Option.bind_eq_bind, Option.bind_some, harchived]
    rfl
  rw [activePartitions, hlist, List.filter_eq_self]
  intro info hinfo
  obtain ⟨p, -, rfl⟩ := List.mem_map.mp hinfo
  rfl

/-! ### Archiving -/

/-- The partition after the ones with these names are renamed. -/
def archivedBy (names : List (List Char)) (p : LedgerPartition) : LedgerPartition :=
  if p.name ∈ names then { p with name := archiveName p.name } else p

@[simp] theorem archivedBy_start (names : List (List Char)) (p : LedgerPartition) :
    (archivedBy names p).start = p.start := by
  rw [archivedBy]
  split <;> rfl

@[simp] theorem archivedBy_stop (names : List (List Char)) (p : LedgerPartition) :
    (archivedBy names p).stop = p.stop := by
  rw [archivedBy]
  split <;> rfl

/-- These are names of partitions that are not archived. -/
def PartitionNames (names : List (List Char)) : Prop :=
  ∀ name ∈ names, ∃ a b, name = partitionName a b

theorem Coherent.archivedBy (h : Coherent partitions) {names : List (List Char)}
    (hnames : PartitionNames names) : Coherent (partitions.map (archivedBy names)) := by
  refine ⟨?_, ?_, ?_, ?_, ?_⟩
  · rw [List.forall_mem_map]
    intro p hp
    rw [archivedBy_start]
    exact h.nonneg p hp
  · rw [List.forall_mem_map]
    intro p hp
    rw [archivedBy_start, archivedBy_stop]
    exact h.ordered p hp
  · rw [List.forall_mem_map]
    intro p hp
    rw [archivedBy_stop]
    exact h.bounded p hp
  · rw [List.forall_mem_map]
    intro p hp
    rw [archivedBy_start, archivedBy_stop, Partitions.archivedBy]
    split
    · next hmem =>
      obtain ⟨a, b, hab⟩ := hnames _ hmem
      refine .inr (congrArg archiveName ((h.named p hp).resolve_right fun hname => ?_))
      exact archiveName_ne_partitionName (hname.symm.trans hab)
    · exact h.named p hp
  · rw [List.pairwise_map]
    refine h.disjoint.imp fun {p q} hapart => ?_
    rw [LedgerPartition.Apart, archivedBy_start, archivedBy_start, archivedBy_stop, archivedBy_stop]
    exact hapart

/-- The new name is free, unless the partition is archived already. -/
theorem renamePartition_eq (h : Coherent events.partitions) (ha : 0 ≤ a) (hb : 0 ≤ b) :
    renamePartition events (partitionName a b) =
      { events with partitions := events.partitions.map (archivedBy [partitionName a b]) } := by
  rw [renamePartition]
  split
  · next htaken =>
    obtain ⟨q, hq, hqname⟩ := List.any_eq_true.mp htaken
    rw [beq_iff_eq] at hqname
    have hqown := (h.named q hq).resolve_left fun hname =>
      archiveName_ne_partitionName (hqname.symm.trans hname)
    have hstart := h.nonneg q hq
    have hordered := h.ordered q hq
    obtain ⟨hqa, -⟩ := partitionName_inj hstart (by omega) ha hb
      (List.append_cancel_left (hqown.symm.trans hqname))
    have hid : events.partitions.map (archivedBy [partitionName a b]) = events.partitions := by
      refine (List.map_congr_left fun p hp => ?_).trans (List.map_id _)
      refine if_neg fun hmem => ?_
      -- the range is that of the archived one
      have hpname := List.mem_singleton.mp hmem
      have hpq := h.eq_of_start_eq hp hq ((h.start_of_name hp ha hb hpname).1.trans hqa.symm)
      rw [hpq, hqname] at hpname
      exact archiveName_ne_partitionName hpname
    rw [hid]
  · congr 1
    refine List.map_congr_left fun p _ => ?_
    rw [archivedBy]
    split
    · next hname => rw [if_pos (List.mem_singleton.mpr hname), hname]
    · next hname => rw [if_neg fun hmem => hname (List.mem_singleton.mp hmem)]

theorem foldl_renamePartition : ∀ {infos : List LedgerPartitionInfo} {events : Events},
    Coherent events.partitions →
    (∀ info ∈ infos, ∃ a b, 0 ≤ a ∧ 0 ≤ b ∧ info.partitionName = partitionName a b) →
    infos.foldl (fun events p => renamePartition events p.partitionName) events =
      { events with
        partitions := events.partitions.map (archivedBy (infos.map (·.partitionName))) }
  | [], events, _, _ => by
    have hid : events.partitions.map (archivedBy []) = events.partitions :=
      (List.map_congr_left fun p _ => if_neg List.not_mem_nil).trans (List.map_id _)
    rw [List.map_nil, hid]
    rfl
  | info :: infos, events, h, hnames => by
    obtain ⟨a, b, ha, hb, hname⟩ := hnames info List.mem_cons_self
    have hrest := fun i hi => hnames i (List.mem_cons_of_mem _ hi)
    have hone : PartitionNames [partitionName a b] := by  -- one rename is the archiving of one name
      intro name hmem
      exact ⟨a, b, List.mem_singleton.mp hmem⟩
    rw [List.foldl_cons, hname, renamePartition_eq h ha hb,
      foldl_renamePartition (h.archivedBy hone) hrest]
    congr 1
    rw [List.map_map]
    refine List.map_congr_left fun p _ => ?_
    rw [Function.comp_apply, List.map_cons, hname]
    by_cases hp : p.name = partitionName a b  -- is the row the one that is renamed first?
    · -- then its new name is none of those that are still to be renamed
      have hnot : archiveName p.name ∉ infos.map (·.partitionName) := by
        intro hmem
        obtain ⟨i, hi, hiname⟩ := List.mem_map.mp hmem
        obtain ⟨a', b', -, -, hi⟩ := hrest i hi
        rw [hi, hp] at hiname
        exact archiveName_ne_partitionName hiname.symm
      rw [archivedBy, archivedBy, archivedBy, if_pos (List.mem_singleton.mpr hp), if_neg hnot,
        if_pos (by rw [hp]; exact List.mem_cons_self)]
    · rw [archivedBy, archivedBy, archivedBy, if_neg fun hmem => hp (List.mem_singleton.mp hmem)]
      exact if_congr (by rw [List.mem_cons, or_iff_right hp]) rfl rfl

/-! ### The oldest -/

def sortedActive (events : Events) : List LedgerPartitionInfo :=
  (activePartitions events).mergeSort fun p q => decide (p.startLedger ≤ q.startLedger)

/-- How many partitions a rotation archives. -/
def toArchive (config : LedgerPartitionConfig) (events : Events) : ℕ :=
  (activePartitions events).length % 2 ^ 32 - config.maxPartitionsBeforeArchival.toNat

def oldestNames (config : LedgerPartitionConfig) (events : Events) : List (List Char) :=
  ((sortedActive events).take (toArchive config events)).map (·.partitionName)

variable {config : LedgerPartitionConfig}

theorem sortedActive_perm (events : Events) : (sortedActive events).Perm (activePartitions events) :=
  List.mergeSort_perm _ _

theorem mem_sortedActive (h : Coherent events.partitions) {info : LedgerPartitionInfo} :
    info ∈ sortedActive events ↔ ∃ p ∈ events.partitions, p.listed = true ∧ p.info = info := by
  rw [(sortedActive_perm events).mem_iff, activePartitions_eq h, List.mem_map]
  simp only [List.mem_filter, and_assoc]

theorem archive_eq (h : Coherent events.partitions) : archiveLedgerPartitions config events =
    { events with partitions := events.partitions.map (archivedBy (oldestNames config events)) } := by
  have hnames : ∀ info ∈ (sortedActive events).take (toArchive config events),
      ∃ a b, 0 ≤ a ∧ 0 ≤ b ∧ info.partitionName = partitionName a b := by
    intro info hinfo
    obtain ⟨p, hp, hlisted, rfl⟩ := (mem_sortedActive h).mp (List.mem_of_mem_take hinfo)
    have hstart := h.nonneg p hp
    have hordered := h.ordered p hp
    exact ⟨p.start, p.stop, hstart, by omega, (h.listed_iff hp).mp hlisted⟩
  rw [oldestNames, ← foldl_renamePartition h hnames, archiveLedgerPartitions]
  dsimp only
  have hlen : (UInt32.ofNat (activePartitions events).length).toNat =
      (activePartitions events).length % 2 ^ 32 := UInt32.toNat_ofNat'
  split
  · next hlt =>
    rw [UInt32.lt_iff_toNat_lt, hlen] at hlt
    rw [UInt32.toNat_sub_of_le _ _ (UInt32.le_iff_toNat_le.mpr (by rw [hlen]; omega)), hlen]
    rfl
  · next hle =>
    rw [UInt32.lt_iff_toNat_lt, hlen] at hle
    rw [toArchive, Nat.sub_eq_zero_of_le (by omega), List.take_zero]
    rfl

theorem partitionNames_oldestNames (h : Coherent events.partitions) :
    PartitionNames (oldestNames config events) := by
  intro name hname
  obtain ⟨info, hinfo, rfl⟩ := List.mem_map.mp hname
  obtain ⟨p, hp, hlisted, rfl⟩ := (mem_sortedActive h).mp (List.mem_of_mem_take hinfo)
  exact ⟨p.start, p.stop, (h.listed_iff hp).mp hlisted⟩

theorem coherent_archive (h : Coherent events.partitions) :
    Coherent (archiveLedgerPartitions config events).partitions := by
  rw [archive_eq h]
  exact h.archivedBy (partitionNames_oldestNames h)

theorem sortedActive_pairwise (h : Coherent events.partitions) :
    (sortedActive events).Pairwise fun p q => p.startLedger < q.startLedger := by
  have hsorted : (sortedActive events).Pairwise fun p q => p.startLedger ≤ q.startLedger := by
    refine (List.pairwise_mergeSort (fun p q r => ?_) (fun p q => ?_) _).imp fun hle => ?_
    · simp only [decide_eq_true_eq]
      exact Int.le_trans
    · simp only [Bool.or_eq_true, decide_eq_true_eq]
      exact Int.le_total _ _
    · exact of_decide_eq_true hle
  have hstarts : ((sortedActive events).map (·.startLedger)).Nodup := by
    rw [((sortedActive_perm events).map _).nodup_iff, activePartitions_eq h, List.map_map]
    refine (h.nodup.filter _).map_on fun p hp q hq hstart => ?_
    exact h.eq_of_start_eq (List.mem_of_mem_filter hp) (List.mem_of_mem_filter hq) hstart
  refine hsorted.imp₂ (fun p q hle hne => ?_) (List.pairwise_map.mp hstarts)
  exact lt_of_le_of_ne hle hne

/-- The listed partitions that are not before this one. -/
def newerCount (partitions : List LedgerPartition) (start : ℤ) : ℕ :=
  partitions.countP fun q => q.listed && decide (start ≤ q.start)

theorem countP_sortedActive (h : Coherent events.partitions) (start : ℤ) :
    ((sortedActive events).countP fun q => start ≤ q.startLedger) =
      newerCount events.partitions start := by
  rw [(sortedActive_perm events).countP_eq, activePartitions_eq h, List.countP_map,
    List.countP_filter, newerCount]
  refine List.countP_congr fun q _ => ?_
  rw [Function.comp_apply, Bool.and_comm]
  rfl

theorem name_mem_oldestNames_iff (h : Coherent events.partitions)
    (hfew : (activePartitions events).length < 2 ^ 32) (hp : p ∈ events.partitions)
    (hlisted : p.listed = true) : p.name ∈ oldestNames config events ↔
      config.maxPartitionsBeforeArchival.toNat < newerCount events.partitions p.start := by
  have hmem : p.info ∈ sortedActive events := (mem_sortedActive h).mpr ⟨p, hp, hlisted, rfl⟩
  have hlen := (sortedActive_perm events).length_eq
  rw [← countP_sortedActive h]
  refine Iff.trans ?_ (mem_take_sub_iff (sortedActive_pairwise h) hmem _)
  rw [oldestNames, toArchive, Nat.mod_eq_of_lt hfew, hlen, List.mem_map]
  constructor
  · rintro ⟨info, hinfo, hname⟩
    obtain ⟨q, hq, hqlisted, rfl⟩ := (mem_sortedActive h).mp (List.mem_of_mem_take hinfo)
    have hstart := h.nonneg p hp
    have hordered := h.ordered p hp
    have hsame := h.start_of_name hq hstart (by omega)
      (hname.trans ((h.listed_iff hp).mp hlisted))
    rwa [h.eq_of_start_eq hq hp hsame.1] at hinfo
  · exact fun hinfo => ⟨p.info, hinfo, rfl⟩

theorem listed_archivedBy {names : List (List Char)} (hnames : PartitionNames names) :
    (archivedBy names p).listed = (p.listed && decide (p.name ∉ names)) := by
  rw [archivedBy]
  split
  · next hmem =>
    obtain ⟨a, b, hname⟩ := hnames _ hmem
    rw [LedgerPartition.listed, hname, likeStart_archiveName, ← hname,
      decide_eq_false (not_not.mpr hmem), Bool.and_false]
  · next hmem => rw [decide_eq_true hmem, Bool.and_true]

/-- What is archived is no longer listed. -/
theorem length_active_archive (h : Coherent events.partitions) :
    (activePartitions (archiveLedgerPartitions config events)).length =
      (activePartitions events).length - toArchive config events := by
  have hnames : PartitionNames (oldestNames config events) := partitionNames_oldestNames h
  have hleft : (activePartitions (archiveLedgerPartitions config events)).length =
      (sortedActive events).countP fun info =>
        decide (info.partitionName ∉ oldestNames config events) := by
    rw [activePartitions_eq (coherent_archive h), List.length_map, ← List.countP_eq_length_filter,
      archive_eq h, List.countP_map, (sortedActive_perm events).countP_eq, activePartitions_eq h,
      List.countP_map, List.countP_filter]
    -- archiving takes a partition off the list, and leaves the others on it
    refine List.countP_congr fun p _ => ?_
    rw [Function.comp_apply, listed_archivedBy hnames, Bool.and_comm]
    rfl
  have hsplit := List.take_append_drop (toArchive config events) (sortedActive events)
  -- all of the oldest are gone
  have htake : ((sortedActive events).take (toArchive config events)).countP
      (fun info => decide (info.partitionName ∉ oldestNames config events)) = 0 := by
    rw [List.countP_eq_zero]
    intro info hinfo
    rw [decide_eq_true_iff, not_not]
    exact List.mem_map_of_mem hinfo
  -- and none of the later ones, as their names differ with their starts
  have hdrop : ((sortedActive events).drop (toArchive config events)).countP
      (fun info => decide (info.partitionName ∉ oldestNames config events)) =
        ((sortedActive events).drop (toArchive config events)).length := by
    rw [List.countP_eq_length]
    intro info hinfo
    rw [decide_eq_true_iff]
    intro hmem
    obtain ⟨old, hold, hname⟩ := List.mem_map.mp hmem
    have hlt := (List.pairwise_append.mp (hsplit ▸ sortedActive_pairwise h)).2.2 old hold info hinfo
    obtain ⟨p, hp, hplisted, rfl⟩ := (mem_sortedActive h).mp (List.mem_of_mem_take hold)
    obtain ⟨q, hq, hqlisted, rfl⟩ := (mem_sortedActive h).mp (List.mem_of_mem_drop hinfo)
    have hstart := h.nonneg q hq
    have hordered := h.ordered q hq
    have hsame := h.start_of_name hp hstart (by omega) (hname.trans ((h.listed_iff hq).mp hqlisted))
    exact absurd hsame.1 (ne_of_lt hlt)
  rw [hleft, ← hsplit, List.countP_append, htake, hdrop, List.length_drop,
    (sortedActive_perm events).length_eq, Nat.zero_add]

/-- The listing is within the quota unless its length wraps around. -/
theorem length_active_archive_le_iff (h : Coherent events.partitions) :
    (activePartitions (archiveLedgerPartitions config events)).length ≤
        config.maxPartitionsBeforeArchival.toNat ↔ (activePartitions events).length < 2 ^ 32 := by
  have hmax := config.maxPartitionsBeforeArchival.toNat_lt
  rw [length_active_archive h, toArchive]
  omega

end

end SorobanPulse.Partitions
