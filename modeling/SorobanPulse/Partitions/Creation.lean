import SorobanPulse.Partitions.Archiving

/-! Creating partitions from the highest ledger on.

        M        M+R      M+2R     M+3R
        ├────────┼────────┼────────┤       a `CREATE` goes through exactly when its range is attached
                                           under its own name or overlaps nothing -/

namespace SorobanPulse.Partitions

section
variable {events : Events} {partitions : List LedgerPartition} {p q : LedgerPartition} {a b : ℤ}
  {config : LedgerPartitionConfig}

/-! ### One statement -/

/-- The range is attached under its own name. -/
def Attached (partitions : List LedgerPartition) (a b : ℤ) : Prop :=
  ∃ p ∈ partitions, p.name = partitionName a b

/-- The range overlaps no attached one. -/
def Free (partitions : List LedgerPartition) (a b : ℤ) : Prop :=
  ∀ p ∈ partitions, p.stop ≤ a ∨ b ≤ p.start

theorem create_eq_none_of_neg (h : a < 0 ∨ b < 0) : createLedgerPartition events a b = none := by
  have hname : (partitionName a b).all isIdentifierChar = false := by
    rw [Bool.eq_false_iff, Ne, all_isIdentifierChar_iff]
    omega
  rw [createLedgerPartition, hname]
  rfl

theorem any_name_iff : (events.partitions.any (·.name == partitionName a b)) = true ↔
    Attached events.partitions a b := by
  rw [List.any_eq_true, Attached]
  refine exists_congr fun p => and_congr_right fun _ => beq_iff_eq

theorem any_overlaps_iff : (events.partitions.any (·.overlaps a b)) = false ↔
    Free events.partitions a b := by
  rw [List.any_eq_false, Free]
  refine forall₂_congr fun p _ => ?_
  rw [LedgerPartition.overlaps, Bool.and_eq_true, decide_eq_true_iff, decide_eq_true_iff]
  omega

theorem create_of_attached (ha : 0 ≤ a) (hb : 0 ≤ b) (h : Attached events.partitions a b) :
    createLedgerPartition events a b = some events := by
  rw [createLedgerPartition, all_isIdentifierChar_iff.mpr ⟨ha, hb⟩, Bool.not_true,
    if_neg Bool.false_ne_true, if_pos (any_name_iff.mpr h)]

theorem create_of_not_attached (ha : 0 ≤ a) (hab : a < b) (h : ¬Attached events.partitions a b) :
    createLedgerPartition events a b =
      if events.partitions.any (·.overlaps a b) then none
      else some { events with
        partitions :=
          events.partitions ++ [{ name := partitionName a b, start := a, stop := b }] } := by
  rw [createLedgerPartition, all_isIdentifierChar_iff.mpr ⟨ha, by omega⟩, Bool.not_true,
    if_neg Bool.false_ne_true, if_neg fun hany => h (any_name_iff.mp hany), if_neg (by omega)]

theorem create_isSome_iff (ha : 0 ≤ a) (hab : a < b) :
    (createLedgerPartition events a b).isSome = true ↔
      Attached events.partitions a b ∨ Free events.partitions a b := by
  by_cases h : Attached events.partitions a b
  · rw [create_of_attached ha (by omega) h]
    exact iff_of_true rfl (.inl h)
  · rw [create_of_not_attached ha hab h, ← any_overlaps_iff, or_iff_right h]
    cases events.partitions.any (·.overlaps a b) with
    | false => exact iff_of_true rfl rfl
    | true => exact iff_of_false Bool.false_ne_true Bool.noConfusion

/-- The new partitions are the old ones, and these ranges are attached. -/
structure Extends (old new : List LedgerPartition) (ranges : List (ℤ × ℤ)) : Prop where
  coherent : Coherent new
  kept : old ⊆ new
  only : ∀ q ∈ new, q ∈ old ∨ (q.start, q.stop) ∈ ranges
  attached : ∀ r ∈ ranges, ∃ q ∈ new, (q.start, q.stop) = r

theorem Extends.trans {old mid new : List LedgerPartition} {rs rs' : List (ℤ × ℤ)}
    (h : Extends old mid rs) (h' : Extends mid new rs') : Extends old new (rs ++ rs') := by
  refine ⟨h'.coherent, fun q hq => h'.kept (h.kept hq), fun q hq => ?_, fun r hr => ?_⟩
  · rcases h'.only q hq with hmid | hr
    · exact (h.only q hmid).imp_right (List.mem_append_left _)
    · exact .inr (List.mem_append_right _ hr)
  · rcases List.mem_append.mp hr with hr | hr
    · obtain ⟨q, hq, hrange⟩ := h.attached r hr
      exact ⟨q, h'.kept hq, hrange⟩
    · exact h'.attached r hr

theorem Coherent.concat (h : Coherent partitions) (ha : 0 ≤ a) (hab : a < b) (hb : b < 2 ^ 63)
    (hfree : Free partitions a b) :
    Coherent (partitions ++ [{ name := partitionName a b, start := a, stop := b }]) := by
  have hall : ∀ {P : LedgerPartition → Prop}, (∀ p ∈ partitions, P p) →
      P { name := partitionName a b, start := a, stop := b } →
      ∀ p ∈ partitions ++ [{ name := partitionName a b, start := a, stop := b }], P p := by
    intro P hold hnew p hp
    rcases List.mem_append.mp hp with hp | hp
    · exact hold p hp
    · rw [List.mem_singleton.mp hp]
      exact hnew
  refine ⟨hall h.nonneg ha, hall h.ordered hab, hall h.bounded hb, hall h.named (.inl rfl), ?_⟩
  rw [List.pairwise_append]
  refine ⟨h.disjoint, List.pairwise_singleton _ _, fun p hp q hq => ?_⟩
  rw [List.mem_singleton.mp hq]
  exact hfree p hp

/-- What a `CREATE` does that goes through. -/
theorem create_some {events' : Events} (h : Coherent events.partitions) (hb : b < 2 ^ 63)
    (hcreate : createLedgerPartition events a b = some events') :
    events'.maxLedger = events.maxLedger ∧
      Extends events.partitions events'.partitions [(a, b)] := by
  have hnonneg : 0 ≤ a ∧ 0 ≤ b := by  -- an identifier has no minus sign
    by_contra hneg
    rw [create_eq_none_of_neg (by omega)] at hcreate
    cases hcreate
  obtain ⟨ha, hb'⟩ := hnonneg
  -- IF NOT EXISTS: the name is taken, and the table is left as it is
  by_cases hattached : Attached events.partitions a b
  · rw [create_of_attached ha hb' hattached] at hcreate
    cases hcreate
    refine ⟨rfl, h, List.Subset.refl _, fun q hq => .inl hq, fun r hr => ?_⟩
    obtain ⟨p, hp, hname⟩ := hattached
    obtain ⟨hstart, hstop⟩ := h.start_of_name hp ha hb' hname
    rw [List.mem_singleton.mp hr]
    exact ⟨p, hp, Prod.ext hstart hstop⟩
  · -- an empty range would be an error, and so would one that overlaps
    have hab : a < b := by
      by_contra hle
      rw [createLedgerPartition, all_isIdentifierChar_iff.mpr ⟨ha, hb'⟩, Bool.not_true,
        if_neg Bool.false_ne_true, if_neg fun hany => hattached (any_name_iff.mp hany),
        if_pos (by omega)] at hcreate
      cases hcreate
    rw [create_of_not_attached ha hab hattached] at hcreate
    split_ifs at hcreate with hoverlap
    have hfree := any_overlaps_iff.mp (Bool.eq_false_of_not_eq_true hoverlap)
    cases hcreate
    refine ⟨rfl, h.concat ha hab hb hfree, List.subset_append_left _ _, fun q hq => ?_,
      fun r hr => ?_⟩
    · refine (List.mem_append.mp hq).imp_right fun hq => ?_
      rw [List.mem_singleton.mp hq]
      exact List.mem_singleton.mpr rfl
    · rw [List.mem_singleton.mp hr]
      exact ⟨_, List.mem_append_right _ (List.mem_singleton.mpr rfl), rfl⟩

/-! ### The loop -/

/-- The `i`-th range from the highest ledger on, as far as it is meant. -/
def nextRange (config : LedgerPartitionConfig) (events : Events) (i : ℕ) : ℤ × ℤ :=
  (events.maxLedger.val + i * config.ledgerRangePerPartition.toInt,
    events.maxLedger.val + (i + 1) * config.ledgerRangePerPartition.toInt)

/-- The arithmetic on the `i`-th range stays in range. -/
def InRange (config : LedgerPartitionConfig) (events : Events) (i : ℕ) : Prop :=
  (nextRange config events i).2 < 2 ^ 63

theorem i64_of_lt {n : ℤ} (h : -2 ^ 63 ≤ n) (h' : n < 2 ^ 63) : i64 n = n := by
  rw [i64]
  omega

theorem i64_lt (n : ℤ) : i64 n < 2 ^ 63 := by
  rw [i64]
  omega

theorem futureRange_of_inRange {i : ℕ} (hR : 1 ≤ config.ledgerRangePerPartition.toInt)
    (h : InRange config events i) :
    futureRange config events.maxLedger.val i = nextRange config events i := by
  rw [InRange, nextRange] at h
  rw [futureRange, nextRange]
  have hi : 0 ≤ (i : ℤ) * config.ledgerRangePerPartition.toInt :=
    Int.mul_nonneg (Int.natCast_nonneg i) (by omega)
  rw [Int.add_mul, Int.one_mul] at h ⊢
  rw [i64_of_lt (n := i * _) (by omega) (by omega), i64_of_lt (by omega) (by omega),
    i64_of_lt (by omega) (by omega), Int.add_assoc]

/-- The first range whose end overflows ends below zero. -/
theorem futureRange_of_overflow {i : ℕ} (hR : 1 ≤ config.ledgerRangePerPartition.toInt)
    (hlt : (nextRange config events i).1 < 2 ^ 63) (h : ¬InRange config events i) :
    (futureRange config events.maxLedger.val i).2 < 0 := by
  rw [InRange, nextRange] at h
  rw [nextRange] at hlt
  rw [futureRange]
  have hmax := config.ledgerRangePerPartition.toInt_lt
  have hi : 0 ≤ (i : ℤ) * config.ledgerRangePerPartition.toInt :=
    Int.mul_nonneg (Int.natCast_nonneg i) (by omega)
  rw [Int.add_mul, Int.one_mul] at h
  rw [i64_of_lt (n := i * _) (by omega) (by omega), i64_of_lt (by omega) (by omega), i64]
  omega

/-- The `i`-th range can be attached, or is. -/
def Available (config : LedgerPartitionConfig) (events : Events) (i : ℕ) : Prop :=
  InRange config events i ∧
    (Attached events.partitions (nextRange config events i).1 (nextRange config events i).2 ∨
      Free events.partitions (nextRange config events i).1 (nextRange config events i).2)

/-- Ranges below do not change what happens above them. -/
theorem Extends.available_iff {old new : List LedgerPartition} {ranges : List (ℤ × ℤ)}
    (h : Extends old new ranges) (ha : 0 ≤ a) (hab : a < b) (hbelow : ∀ r ∈ ranges, r.2 ≤ a) :
    Attached new a b ∨ Free new a b ↔ Attached old a b ∨ Free old a b := by
  refine or_congr ⟨fun hattached => ?_, fun hattached => ?_⟩
    ⟨fun hfree p hp => ?_, fun hfree p hp => ?_⟩
  · obtain ⟨p, hp, hname⟩ := hattached
    obtain ⟨-, hstop⟩ := h.coherent.start_of_name hp ha (by omega) hname
    rcases h.only p hp with hold | hr
    · exact ⟨p, hold, hname⟩
    · exact absurd (hbelow _ hr) (by dsimp only; omega)
  · obtain ⟨p, hp, hname⟩ := hattached
    exact ⟨p, h.kept hp, hname⟩
  · exact hfree p (h.kept hp)
  · rcases h.only p hp with hold | hr
    · exact hfree p hold
    · exact .inl (hbelow _ hr)

theorem createFuture_succ (n : ℕ) : createFutureLedgerPartitions config (n + 1) events =
    createNext config events.maxLedger.val (createFutureLedgerPartitions config n events) n := by
  rw [createFutureLedgerPartitions, List.range_succ, List.foldl_append]
  rfl

/-- One step of the loop. -/
theorem createNext_cases (config : LedgerPartitionConfig) (M : ℤ) (acc : Events × List (ℤ × ℤ))
    (i : ℕ) :
    (∃ events, createLedgerPartition acc.1 (futureRange config M i).1 (futureRange config M i).2 =
        some events ∧ createNext config M acc i = (events, acc.2)) ∨
      (createLedgerPartition acc.1 (futureRange config M i).1 (futureRange config M i).2 = none ∧
        createNext config M acc i = (acc.1, acc.2 ++ [futureRange config M i])) := by
  rw [createNext]
  dsimp only
  cases createLedgerPartition acc.1 (futureRange config M i).1 (futureRange config M i).2 with
  | some events => exact .inl ⟨events, rfl, rfl⟩
  | none => exact .inr ⟨rfl, rfl⟩

/-- Rejected or not, the partitions stay coherent. -/
theorem coherent_createFuture (config : LedgerPartitionConfig) (h : Coherent events.partitions)
    (n : ℕ) :
    Coherent (createFutureLedgerPartitions config n events).1.partitions ∧
      (createFutureLedgerPartitions config n events).1.maxLedger = events.maxLedger := by
  induction n with
  | zero => exact ⟨h, rfl⟩
  | succ n ih =>
    rw [createFuture_succ]
    rcases createNext_cases config events.maxLedger.val
      (createFutureLedgerPartitions config n events) n with ⟨events', hsome, hnext⟩ | ⟨-, hnext⟩
    · obtain ⟨hmax, hextends⟩ := create_some ih.1 (i64_lt _) hsome
      rw [hnext]
      exact ⟨hextends.coherent, hmax.trans ih.2⟩
    · rw [hnext]
      exact ih

/-- The ends of the ranges so far are not above the start of the next. -/
theorem nextRange_le {n : ℕ} (hR : 1 ≤ config.ledgerRangePerPartition.toInt) :
    ∀ r ∈ (List.range n).map (nextRange config events), r.2 ≤ (nextRange config events n).1 := by
  intro r hr
  obtain ⟨i, hi, rfl⟩ := List.mem_map.mp hr
  have hle : ((i : ℤ) + 1) * config.ledgerRangePerPartition.toInt ≤
      n * config.ledgerRangePerPartition.toInt :=
    Int.mul_le_mul_of_nonneg_right (by have := List.mem_range.mp hi; omega) (by omega)
  exact Int.add_le_add_left hle _

theorem nextRange_bounds (events : Events) (hR : 1 ≤ config.ledgerRangePerPartition.toInt) (n : ℕ) :
    0 ≤ (nextRange config events n).1 ∧
      (nextRange config events n).1 < (nextRange config events n).2 := by
  have hn : 0 ≤ (n : ℤ) * config.ledgerRangePerPartition.toInt :=
    Int.mul_nonneg (Int.natCast_nonneg n) (by omega)
  rw [nextRange, Int.add_mul, Int.one_mul]
  dsimp only
  omega

theorem nextRange_start_lt {n : ℕ} (h : ∀ i < n, Available config events i) :
    (nextRange config events n).1 < 2 ^ 63 := by
  cases n with
  | zero =>
    have hmax := events.maxLedger.isLt
    rw [nextRange, Nat.cast_zero, Int.zero_mul]
    dsimp only
    omega
  | succ n => exact (h n (Nat.lt_succ_self n)).1

/-- The `CREATE` of an available range goes through, and of no other. -/
theorem create_next_isSome_iff {acc : Events × List (ℤ × ℤ)} {n : ℕ}
    (hR : 1 ≤ config.ledgerRangePerPartition.toInt)
    (hextends : Extends events.partitions acc.1.partitions
      ((List.range n).map (nextRange config events)))
    (hstart : (nextRange config events n).1 < 2 ^ 63) :
    (createLedgerPartition acc.1 (futureRange config events.maxLedger.val n).1
      (futureRange config events.maxLedger.val n).2).isSome = true ↔ Available config events n := by
  obtain ⟨ha, hab⟩ := nextRange_bounds events hR n
  by_cases hrange : InRange config events n
  · rw [futureRange_of_inRange hR hrange, create_isSome_iff ha hab,
      hextends.available_iff ha hab (nextRange_le hR), Available, and_iff_right hrange]
  · rw [create_eq_none_of_neg (.inr (futureRange_of_overflow hR hstart hrange))]
    exact iff_of_false Bool.false_ne_true fun havailable => hrange havailable.1

/-- Nothing is rejected exactly when all ranges are available, and then all are attached. -/
theorem createFuture_spec (h : Coherent events.partitions)
    (hR : 1 ≤ config.ledgerRangePerPartition.toInt) : ∀ n,
    ((createFutureLedgerPartitions config n events).2 = [] ↔ ∀ i < n, Available config events i) ∧
      ((createFutureLedgerPartitions config n events).2 = [] → Extends events.partitions
        (createFutureLedgerPartitions config n events).1.partitions
        ((List.range n).map (nextRange config events)))
  | 0 => ⟨iff_of_true rfl fun i hi => absurd hi (Nat.not_lt_zero i), fun _ =>
      ⟨h, List.Subset.refl _, fun q hq => .inl hq, fun r hr => absurd hr List.not_mem_nil⟩⟩
  | n + 1 => by
    obtain ⟨hiff, hextends⟩ := createFuture_spec h hR n
    obtain ⟨hcoherent, -⟩ := coherent_createFuture config h n
    have hsplit : (∀ i < n + 1, Available config events i) ↔
        (∀ i < n, Available config events i) ∧ Available config events n := by
      refine ⟨fun h => ⟨fun i hi => h i (by omega), h n (Nat.lt_succ_self n)⟩, fun h i hi => ?_⟩
      rcases Nat.lt_succ_iff_lt_or_eq.mp hi with hi | rfl
      · exact h.1 i hi
      · exact h.2
    rw [createFuture_succ, hsplit, ← hiff]
    rcases createNext_cases config events.maxLedger.val
      (createFutureLedgerPartitions config n events) n with ⟨events', hsome, hnext⟩ | ⟨hnone, hnext⟩
    · -- the first n have attached their ranges, and the next one is available as it was created
      have havailable : (createFutureLedgerPartitions config n events).2 = [] →
          Available config events n := by
        intro hnil
        refine (create_next_isSome_iff hR (hextends hnil) (nextRange_start_lt (hiff.mp hnil))).mp ?_
        rw [hsome]
        rfl
      rw [hnext]
      refine ⟨⟨fun hnil => ⟨hnil, havailable hnil⟩, And.left⟩, fun hnil => ?_⟩
      obtain ⟨-, hone⟩ := create_some hcoherent (i64_lt _) hsome
      rw [List.range_succ, List.map_append, List.map_cons, List.map_nil,
        ← futureRange_of_inRange hR (havailable hnil).1]
      exact (hextends hnil).trans hone
    · -- the next one is rejected, so its range was not available
      rw [hnext]
      dsimp only
      have hne : (createFutureLedgerPartitions config n events).2 ++
          [futureRange config events.maxLedger.val n] ≠ [] :=
        List.append_ne_nil_of_right_ne_nil _ (List.cons_ne_nil _ _)
      refine ⟨iff_of_false hne fun ⟨hnil, havailable⟩ => ?_, fun hnil => absurd hnil hne⟩
      rw [← create_next_isSome_iff hR (hextends hnil) (nextRange_start_lt (hiff.mp hnil)),
        hnone] at havailable
      cases havailable

end

end SorobanPulse.Partitions
