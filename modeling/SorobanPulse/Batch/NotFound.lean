import SorobanPulse.Batch.Operations

/-! The `not_found` lists of the batch endpoints, and the pages of a retrieval.

        transform      the ids that are on no row                  always right
        delete, tag    the ids behind the first k, for k rows      right when the ids found come first
        retrieve       the ids that are not on the page            right when the page has all rows

    The pages of a retrieval hold each row once when no page ends among events of one `created_at`. -/

namespace SorobanPulse.Batch
open Lib OffsetPages Keyset

/-- The requested ids that are on no row, and no others. -/
def NamesMissing (existing ids notFound : List Uuid) : Prop :=
  ∀ id, id ∈ notFound ↔ id ∈ ids ∧ id ∉ existing

/-- A list that is returned is right exactly when `P`. -/
def RightWhen (returned : Option (List Uuid)) (existing ids : List Uuid) (P : Prop) : Prop :=
  ∀ notFound, returned = some notFound → (NamesMissing existing ids notFound ↔ P)

def RetrieveOutcome.notFound? : RetrieveOutcome → Option (List Uuid)
  | .retrieved resp => some resp.notFound
  | _ => none

def BatchResponse.notFound? : BatchResponse → Option (List Uuid)
  | .deleted _ notFound _ _ | .tagged _ notFound | .transformed _ _ notFound _ => some notFound
  | _ => none

def Database.ids (db : Database) : List Uuid := db.events.map (·.id)

/-! ### What is asked of a request -/

/-- No id is found, or the page has them all. -/
def AllOnPage (overflowChecks : Bool) (table : EventsTable) (req : BatchRetrievalRequest) : Prop :=
  table.matching req.ids = [] ∨
    req.offset overflowChecks = some 0 ∧ ((table.matching req.ids).length : ℤ) ≤ req.pageLimit

/-- First ids of rows, each once; then ids of no row. -/
def FoundFirst (existing ids : List Uuid) : Prop :=
  ∃ found missing, ids = found ++ missing ∧ found.Nodup ∧ (∀ id ∈ found, id ∈ existing) ∧
    ∀ id ∈ missing, id ∉ existing

/-- Ids that are accepted, and the limit of all pages. -/
structure Retrieval where
  ids : List Uuid
  accepted : rejectIds ids BATCH_RETRIEVE_MAX_IDS = none
  limit : Option ℤ := none

def Retrieval.pageLimit (r : Retrieval) : ℤ :=
  ({ ids := r.ids, limit := r.limit } : BatchRetrievalRequest).pageLimit

/-- As many pages as it takes, of orders of their own, have each event once. -/
def ReturnsOnce (overflowChecks : Bool) (table : EventsTable) (r : Retrieval) : Prop :=
  ∀ (arrangement : ℕ → Arrangement (table.matching r.ids)) (n : ℕ),
    ((table.matching r.ids).length : ℤ) ≤ n * r.pageLimit → n * r.pageLimit < 2 ^ 63 →
      ∃ events, retrievePages overflowChecks table r.ids r.limit arrangement n = some events ∧
        events.Perm (table.matching r.ids)

/-- All events can be read, and no page ends among events of one `created_at`. -/
def Pageable (table : EventsTable) (r : Retrieval) : Prop :=
  (∀ row ∈ table.matching r.ids, row.decodes) ∧
    Untied latestFirst r.pageLimit.toNat (table.matching r.ids)

/-! ### Lists by position -/

section
variable {existing ids : List Uuid}

/-- Skipping as many ids as there are rows leaves the missing ones. -/
theorem namesMissing_drop_iff (hnd : existing.Nodup) :
    NamesMissing existing ids (ids.drop (existing.countP (· ∈ ids))) ↔ FoundFirst existing ids := by
  rw [List.countP_eq_length_filter]
  set found := existing.filter (· ∈ ids) with hfound
  have hmem (id : Uuid) : id ∈ found ↔ id ∈ existing ∧ id ∈ ids := by
    rw [hfound, List.mem_filter, decide_eq_true_eq]
  have hfoundnd : found.Nodup := hnd.filter _
  constructor
  · intro h
    -- the skipped ids are as many as the rows, so each of them must be one
    have hrest : ∀ id ∈ ids.drop found.length, id ∉ existing := fun id hid => ((h id).mp hid).2
    have hsub : found ⊆ ids.take found.length := by
      intro id hid
      have hids : id ∈ ids := ((hmem id).mp hid).2
      rw [← List.take_append_drop found.length ids, List.mem_append] at hids
      exact hids.resolve_right fun hlate => hrest id hlate ((hmem id).mp hid).1
    have hperm : found.Perm (ids.take found.length) :=
      (hfoundnd.subperm hsub).perm_of_length_le (List.length_take_le _ _)
    refine ⟨ids.take found.length, ids.drop found.length, (List.take_append_drop _ _).symm,
      hperm.nodup_iff.mp hfoundnd, ?_, hrest⟩
    intro id hid
    exact ((hmem id).mp (hperm.mem_iff.mpr hid)).1
  · rintro ⟨front, missing, rfl, hfrontnd, hfront, hmissing⟩
    have hperm : found.Perm front := by  -- the front is the rows that were found, in another order
      rw [List.perm_ext_iff_of_nodup hfoundnd hfrontnd]
      intro id
      rw [hmem, List.mem_append]
      constructor
      · rintro ⟨hexists, hid | hid⟩
        · exact hid
        · exact absurd hexists (hmissing id hid)
      · intro hid
        exact ⟨hfront id hid, .inl hid⟩
    rw [List.drop_left' hperm.length_eq.symm]
    intro id
    rw [List.mem_append]
    constructor
    · intro hid
      exact ⟨.inr hid, hmissing id hid⟩
    · rintro ⟨hid | hid, hnot⟩
      · exact absurd (hfront id hid) hnot
      · exact hid

/-- Leaving out what was found leaves the missing ids, when all that exist were found. -/
theorem namesMissing_filter_iff {found : List Uuid} :
    NamesMissing existing ids (ids.filter fun id => id ∉ found) ↔
      ∀ id ∈ ids, id ∈ found ↔ id ∈ existing := by
  have hmem (id : Uuid) : id ∈ ids.filter (fun id => id ∉ found) ↔ id ∈ ids ∧ id ∉ found := by
    rw [List.mem_filter, decide_eq_true_eq]
  constructor
  · intro h id hid
    have hiff := h id
    rw [hmem, and_congr_right_iff] at hiff
    exact not_iff_not.mp (hiff hid)
  · intro h id
    rw [hmem, and_congr_right_iff]
    exact fun hid => not_congr (h id hid)

end

/-! ### Delete, tag and transform -/

theorem Database.countP_ids (db : Database) (ids : List Uuid) :
    db.events.countP (fun r => r.id ∈ ids) = db.ids.countP (· ∈ ids) := by
  rw [Database.ids, List.countP_map]
  rfl

/-- Nothing is left to skip when there are no more ids than rows. -/
theorem ite_drop_eq {ids : List Uuid} {k : ℕ} {fewer : Prop} [Decidable fewer]
    (hfewer : fewer ↔ k < ids.length) : (if fewer then ids.drop k else []) = ids.drop k := by
  split_ifs with h
  · rfl
  · rw [List.drop_of_length_le (Nat.le_of_not_lt (mt hfewer.mpr h))]

theorem rightWhen_delete (db : Database) (req : BatchDeleteRequest) (faults : Faults) (auditId : Uuid)
    (now : ℤ) :
    RightWhen (batchDeleteEvents db req faults auditId now).2.notFound? db.ids req.ids
      (FoundFirst db.ids req.ids) := by
  intro notFound h
  have hdrop : notFound = req.ids.drop (db.ids.countP (· ∈ req.ids)) := by
    unfold batchDeleteEvents at h
    split at h
    · cases h
    by_cases hselect : faults.select
    · rw [if_pos hselect] at h
      cases h
    by_cases hwrite : faults.write
    · rw [if_neg hselect, if_pos hwrite] at h
      cases h
    rw [if_neg hselect, if_neg hwrite] at h
    rw [← db.countP_ids, ← Option.some.inj h]
    exact ite_drop_eq Iff.rfl
  rw [hdrop]
  exact namesMissing_drop_iff db.ids_nodup

theorem rightWhen_tag (db : Database) (req : BatchTagRequest) (faults : Faults) :
    RightWhen (batchTagEvents db req faults).2.notFound? db.ids req.ids
      (FoundFirst db.ids req.ids) := by
  intro notFound h
  have hdrop : notFound = req.ids.drop (db.ids.countP (· ∈ req.ids)) := by
    unfold batchTagEvents at h
    split at h
    · cases h
    by_cases hwrite : faults.write
    · rw [if_pos hwrite] at h
      cases h
    rw [if_neg hwrite] at h
    split at h
    · cases h
    · rw [← db.countP_ids, ← Option.some.inj h]
      exact ite_drop_eq Nat.sub_pos_iff_lt
  rw [hdrop]
  exact namesMissing_drop_iff db.ids_nodup

theorem rightWhen_transform (db : Database) (req : BatchTransformRequest) (faults : Faults) :
    RightWhen (batchTransformEvents db req faults).2.notFound? db.ids req.ids True := by
  intro notFound h
  have hfound : notFound = req.ids.filter fun id =>
      id ∉ (db.events.filter fun r => r.id ∈ req.ids).map (·.id) := by
    unfold batchTransformEvents at h
    split at h
    · cases h
    by_cases hselect : faults.select
    · rw [if_pos hselect] at h
      cases h
    rw [if_neg hselect] at h
    exact (Option.some.inj h).symm
  rw [hfound, iff_true, namesMissing_filter_iff]
  intro id hid
  rw [Database.ids, List.mem_map, List.mem_map]
  constructor
  · rintro ⟨r, hr, rfl⟩
    exact ⟨r, List.mem_of_mem_filter hr, rfl⟩
  · rintro ⟨r, hr, rfl⟩
    exact ⟨r, List.mem_filter.mpr ⟨hr, decide_eq_true hid⟩, rfl⟩

/-! ### A page of a retrieval -/

section
variable {overflowChecks : Bool} {table : EventsTable}

theorem pageLimit_pos (req : BatchRetrievalRequest) : 1 ≤ req.pageLimit := Int.le_max_left ..

theorem pageLimit_le (req : BatchRetrievalRequest) : req.pageLimit ≤ 500 :=
  max_le (by decide) (min_le_left _ _)

theorem mem_matching {ids : List Uuid} {row : StoredEvent} :
    row ∈ table.matching ids ↔ row ∈ table.rows ∧ row.id ∈ ids := by
  rw [EventsTable.matching, List.mem_filter, List.contains_iff_mem]

theorem nodup_matching (table : EventsTable) (ids : List Uuid) :
    ((table.matching ids).map (·.id)).Nodup :=
  table.ids_nodup.sublist (List.filter_sublist.map _)

theorem length_le_of_accepted {ids : List Uuid} {max : ℕ} (h : rejectIds ids max = none) :
    ids.length ≤ max := by
  unfold rejectIds at h
  split_ifs at h with hempty hmany
  exact Nat.le_of_not_lt hmany

/-- What a call that returns has done. -/
theorem retrieved_cases {req : BatchRetrievalRequest} {faults : Faults}
    {arrangement : Arrangement (table.matching req.ids)} {resp : BatchRetrievalResponse}
    (h : batchRetrieveEvents overflowChecks table req arrangement faults = .retrieved resp) :
    ∃ offset, req.offset overflowChecks = some offset ∧ 0 ≤ offset ∧
      resp.data = (arrangement.arranged.drop offset.toNat).take req.pageLimit.toNat ∧
      resp.notFound = req.ids.filter fun id => id ∉ resp.data.map (·.id) := by
  unfold batchRetrieveEvents at h
  split at h
  · cases h
  split at h
  · cases h
  next offset hoffset =>
    refine ⟨offset, hoffset, ?_⟩
    split_ifs at h with hselect
    split at h
    · cases h
    next events hpage =>
      cases h
      unfold selectPage at hpage
      dsimp only at hpage
      split_ifs at hpage with hneg
      exact ⟨not_lt.mp hneg, (Option.some.inj hpage).symm, rfl⟩

/-- A page has all rows when there are none, or when it starts with the first and is long enough. -/
theorem length_page_iff {rows : List StoredEvent} {offset limit : ℤ} (hoffset : 0 ≤ offset)
    (hlimit : 1 ≤ limit) :
    rows.length ≤ ((rows.drop offset.toNat).take limit.toNat).length ↔
      rows = [] ∨ offset = 0 ∧ (rows.length : ℤ) ≤ limit := by
  rw [List.length_take, List.length_drop, ← List.length_eq_zero_iff]
  omega

theorem rightWhen_retrieve (req : BatchRetrievalRequest)
    (arrangement : Arrangement (table.matching req.ids)) (faults : Faults) :
    RightWhen (batchRetrieveEvents overflowChecks table req arrangement faults).notFound? table.ids
      req.ids (AllOnPage overflowChecks table req) := by
  intro notFound h
  cases hout : batchRetrieveEvents overflowChecks table req arrangement faults with
  | badRequest error | databaseError | panicked =>
    rw [hout] at h
    cases h
  | retrieved resp =>
    rw [hout] at h
    obtain ⟨offset, hoffset, hnonneg, hdata, hnotFound⟩ := retrieved_cases hout
    have hperm := arrangement.ordered.perm
    -- as a page is part of the matching rows, it has them all if it is as long
    have hall : AllOnPage overflowChecks table req ↔
        (table.matching req.ids).length ≤ resp.data.length := by
      rw [hdata, ← hperm.length_eq, length_page_iff hnonneg (pageLimit_pos req), AllOnPage, hoffset,
        Option.some.injEq, hperm.length_eq]
      refine or_congr_left ?_
      rw [← List.length_eq_zero_iff, ← List.length_eq_zero_iff, hperm.length_eq]
    have hsub : resp.data.Subperm (table.matching req.ids) := by
      rw [hdata]
      exact ((List.take_sublist _ _).trans (List.drop_sublist _ _)).subperm.trans hperm.subperm
    rw [← Option.some.inj h, hnotFound, namesMissing_filter_iff, hall]
    constructor  -- ids apart: the missing ones are right if every matching row is on the page
    · intro hids
      have hincl : (table.matching req.ids).map (·.id) ⊆ resp.data.map (·.id) := by
        intro id hid
        rcases List.mem_map.mp hid with ⟨row, hrow, rfl⟩
        obtain ⟨hrow, hmem⟩ := mem_matching.mp hrow
        exact (hids row.id hmem).mpr (List.mem_map_of_mem hrow)
      have hlen := ((nodup_matching table req.ids).subperm hincl).length_le
      rwa [List.length_map, List.length_map] at hlen
    · intro hlen id hid
      have hdataperm := hsub.perm_of_length_le hlen
      rw [EventsTable.ids, List.mem_map, List.mem_map]
      constructor
      · rintro ⟨row, hrow, rfl⟩
        exact ⟨row, (mem_matching.mp (hsub.subset hrow)).1, rfl⟩
      · rintro ⟨row, hrow, rfl⟩
        exact ⟨row, hdataperm.mem_iff.mpr (mem_matching.mpr ⟨hrow, hid⟩), rfl⟩

/-! ### The pages of a retrieval -/

/-- A page that is within range has its rows, when all of them can be read. -/
theorem data?_page (r : Retrieval) (n : ℕ) (arrangement : Arrangement (table.matching r.ids))
    (hn : n * r.pageLimit < 2 ^ 63) :
    (batchRetrieveEvents overflowChecks table { ids := r.ids, page := some (n + 1), limit := r.limit }
        arrangement {}).data? =
      if (page r.pageLimit.toNat n arrangement.arranged).all StoredEvent.decodes then
        some (page r.pageLimit.toNat n arrangement.arranged) else none := by
  have hlimit : 1 ≤ r.pageLimit := pageLimit_pos _
  have hnonneg : 0 ≤ n * r.pageLimit := Int.mul_nonneg (Int.natCast_nonneg n) (by omega)
  have hnumber : max ((n : ℤ) + 1) 1 - 1 = n := by omega
  have hoffset : BatchRetrievalRequest.offset overflowChecks
      { ids := r.ids, page := some ((n : ℤ) + 1), limit := r.limit } = some (n * r.pageLimit) := by
    rw [BatchRetrievalRequest.offset, BatchRetrievalRequest.pageNumber, Option.getD_some, hnumber]
    exact if_pos hn
  have htoNat : (n * r.pageLimit).toNat = n * r.pageLimit.toNat := by
    rw [Int.toNat_mul (Int.natCast_nonneg n) (by omega), Int.toNat_natCast]
  have hdata : (batchRetrieveEvents overflowChecks table
      { ids := r.ids, page := some (n + 1), limit := r.limit } arrangement {}).data? =
        selectPage arrangement.arranged r.pageLimit (n * r.pageLimit) := by
    unfold batchRetrieveEvents
    rw [r.accepted, hoffset]
    dsimp only
    rw [if_neg Bool.false_ne_true]
    split
    · next hpage => exact hpage.symm
    · next hpage => exact hpage.symm
  rw [hdata, selectPage, if_neg (not_lt.mpr hnonneg), htoNat]
  rfl

theorem retrievePages_eq_some (r : Retrieval) (arrangement : ℕ → Arrangement (table.matching r.ids))
    {n : ℕ} (hn : n * r.pageLimit < 2 ^ 63) (events : List StoredEvent) :
    retrievePages overflowChecks table r.ids r.limit arrangement n = some events ↔
      pages r.pageLimit.toNat n (fun p => (arrangement p).arranged) = events ∧
        ∀ row ∈ events, row.decodes := by
  have hlimit : 1 ≤ r.pageLimit := pageLimit_pos _
  induction n generalizing events with
  | zero =>
    rw [retrievePages, Option.some.injEq]
    constructor
    · rintro rfl
      exact ⟨rfl, fun row hrow => absurd hrow List.not_mem_nil⟩
    · rintro ⟨hevents, -⟩
      exact hevents
  | succ n ih =>  -- the offset of the page before this one fits an i64, too
    have hbefore : n * r.pageLimit < 2 ^ 63 := by
      rw [Nat.cast_succ, Int.add_mul] at hn
      omega
    rw [retrievePages, Option.bind_eq_bind, Option.bind_eq_some_iff, pages_succ,
      data?_page r n (arrangement n) hbefore]
    constructor
    · rintro ⟨before, hsome, hrest⟩
      obtain ⟨rfl, hread⟩ := (ih hbefore before).mp hsome
      split_ifs at hrest with hall  -- the row that does not decode fails the whole call
      · cases hrest
        refine ⟨rfl, ?_⟩
        intro row hrow
        rcases List.mem_append.mp hrow with hrow | hrow
        · exact hread row hrow
        · exact List.all_eq_true.mp hall row hrow
      · cases hrest
    · rintro ⟨rfl, hread⟩
      have hfirst := (ih hbefore _).mpr ⟨rfl, fun row hrow => hread row (List.mem_append_left _ hrow)⟩
      refine ⟨_, hfirst, ?_⟩
      rw [if_pos (List.all_eq_true.mpr fun row hrow => hread row (List.mem_append_right _ hrow))]
      rfl

theorem returnsOnce_iff (r : Retrieval) : ReturnsOnce overflowChecks table r ↔ Pageable table r := by
  have hlimit : 1 ≤ r.pageLimit := pageLimit_pos _
  have hcast (n : ℕ) : (n * r.pageLimit.toNat : ℕ) = (n * r.pageLimit : ℤ) := by
    rw [Nat.cast_mul, Int.toNat_of_nonneg (by omega)]
  have hnd : (table.matching r.ids).Nodup := (nodup_matching table r.ids).of_map _
  constructor
  · intro h
    -- as many pages as there are rows are enough
    have hrows : (table.matching r.ids).length ≤ 500 := by
      have hsub : (table.matching r.ids).map (·.id) ⊆ r.ids := by
        intro id hid
        rcases List.mem_map.mp hid with ⟨row, hrow, rfl⟩
        exact (mem_matching.mp hrow).2
      have hlen := ((nodup_matching table r.ids).subperm hsub).length_le
      rw [List.length_map] at hlen
      exact hlen.trans (length_le_of_accepted r.accepted)
    have hcover : (table.matching r.ids).length ≤
        (table.matching r.ids).length * r.pageLimit.toNat := Nat.le_mul_of_pos_right _ (by omega)
    have hrange : (table.matching r.ids).length * r.pageLimit.toNat ≤ 500 * 500 :=
      Nat.mul_le_mul hrows (by have : r.pageLimit ≤ 500 := pageLimit_le _; omega)
    have hn := hcast (table.matching r.ids).length
    have honce (order : ℕ → List StoredEvent)
        (horder : ∀ p, Ordered latestFirst (table.matching r.ids) (order p)) :
        (pages r.pageLimit.toNat (table.matching r.ids).length order).Perm (table.matching r.ids) ∧
          ∀ row ∈ pages r.pageLimit.toNat (table.matching r.ids).length order, row.decodes := by
      obtain ⟨events, hevents, hperm⟩ :=
        h (fun p => ⟨order p, horder p⟩) (table.matching r.ids).length (by omega) (by omega)
      obtain ⟨rfl, hread⟩ := (retrievePages_eq_some r _ (by omega) events).mp hevents
      exact ⟨hperm, hread⟩
    refine ⟨?_, (pages_perm_iff hnd hcover).mp fun order horder => (honce order horder).1⟩
    intro row hrow
    obtain ⟨hperm, hread⟩ := honce (fun _ => sortOn latestFirst (table.matching r.ids))
      fun _ => ordered_sortOn _ _
    exact hread row (hperm.mem_iff.mpr hrow)
  · rintro ⟨hdecodes, huntied⟩ arrangement n hcover hn
    have hcover' : (table.matching r.ids).length ≤ n * r.pageLimit.toNat := by
      have := hcast n
      omega
    have hperm := (pages_perm_iff hnd hcover').mpr huntied (fun p => (arrangement p).arranged)
      fun p => (arrangement p).ordered
    refine ⟨_, (retrievePages_eq_some r arrangement hn _).mpr ⟨rfl, ?_⟩, hperm⟩
    intro row hrow
    exact hdecodes row (hperm.mem_iff.mp hrow)

end

/-- When the missing ids are named, and when the pages give each event once. -/
theorem missing_ids_iff (overflowChecks : Bool) :
    (∀ (table : EventsTable) (req : BatchRetrievalRequest)
      (arrangement : Arrangement (table.matching req.ids)) (faults : Faults),
      RightWhen (batchRetrieveEvents overflowChecks table req arrangement faults).notFound? table.ids
        req.ids (AllOnPage overflowChecks table req)) ∧
    (∀ (db : Database) (req : BatchDeleteRequest) (faults : Faults) (auditId : Uuid) (now : ℤ),
      RightWhen (batchDeleteEvents db req faults auditId now).2.notFound? db.ids req.ids
        (FoundFirst db.ids req.ids)) ∧
    (∀ (db : Database) (req : BatchTagRequest) (faults : Faults),
      RightWhen (batchTagEvents db req faults).2.notFound? db.ids req.ids
        (FoundFirst db.ids req.ids)) ∧
    (∀ (db : Database) (req : BatchTransformRequest) (faults : Faults),
      RightWhen (batchTransformEvents db req faults).2.notFound? db.ids req.ids True) ∧
    ∀ (table : EventsTable) (r : Retrieval),
      ReturnsOnce overflowChecks table r ↔ Pageable table r :=
  ⟨fun _ => rightWhen_retrieve, rightWhen_delete, rightWhen_tag, rightWhen_transform,
    fun _ => returnsOnce_iff⟩

def loneEvent : Database where
  events := [⟨1, none, .object []⟩]
  ids_nodup := by decide
  auditLogs := []

/-- Of a missing id and the id of a row, in this order, the second is reported. -/
theorem not_namesMissing_foundLast :
    ¬∀ notFound, (batchDeleteEvents loneEvent { ids := [2, 1] } {} 7 0).2.notFound? = some notFound →
      NamesMissing loneEvent.ids [2, 1] notFound := by
  intro h
  have hnames : NamesMissing loneEvent.ids [2, 1] [1] := h [1] rfl
  exact ((hnames 1).mp (by decide)).2 (by decide)

end SorobanPulse.Batch
