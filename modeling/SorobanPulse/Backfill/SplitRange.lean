import SorobanPulse.Backfill.Datastore
import SorobanPulse.Lib.Consecutive

/-! A range of ledgers, split into chunks for the workers.

        split_range(1, 10, 4)   ──▶   (1, 4) (5, 8) (9, 10)

    The loop runs to the very top of the `u32` ledgers: after a chunk that ends there it breaks
    instead of going on at the next ledger, of which there is none. -/

namespace SorobanPulse.Backfill
open Lib

/-- `e`, the end of the chunk that begins at `s`. -/
def chunkEnd (s last chunk : UInt32) : UInt32 := min (saturatingAdd s (chunk - 1)) last

theorem toNat_min (a b : UInt32) : (min a b).toNat = min a.toNat b.toNat := by
  change (if a ≤ b then a else b).toNat = _
  split
  · next hle => exact (Nat.min_eq_left (UInt32.le_iff_toNat_le.mp hle)).symm
  · next hle =>
    have hlt := Nat.lt_of_not_le fun h => hle (UInt32.le_iff_toNat_le.mpr h)
    exact (Nat.min_eq_right (Nat.le_of_lt hlt)).symm

theorem toNat_max (a b : UInt32) : (max a b).toNat = max a.toNat b.toNat := by
  change (if a ≤ b then b else a).toNat = _
  split
  · next hle => exact (Nat.max_eq_right (UInt32.le_iff_toNat_le.mp hle)).symm
  · next hle =>
    have hlt := Nat.lt_of_not_le fun h => hle (UInt32.le_iff_toNat_le.mpr h)
    exact (Nat.max_eq_left (Nat.le_of_lt hlt)).symm

theorem toNat_chunkEnd (s last chunk : UInt32) :
    (chunkEnd s last chunk).toNat = min (s.toNat + (chunk - 1).toNat) last.toNat := by
  have hlast := toNat_le_U32_MAX last
  rw [chunkEnd, toNat_min, toNat_saturatingAdd]
  omega

/-- A chunk is not empty, so the next one begins behind it. -/
theorem le_chunkEnd {s last : UInt32} (h : s ≤ last) (chunk : UInt32) :
    s.toNat ≤ (chunkEnd s last chunk).toNat := by
  have hle := UInt32.le_iff_toNat_le.mp h
  rw [toNat_chunkEnd]
  omega

/-- Behind a chunk that does not end at `u32::MAX` there is a next ledger. -/
theorem toNat_add_one {e : UInt32} (h : e.toNat ≠ U32_MAX) : (e + 1).toNat = e.toNat + 1 := by
  have hle := toNat_le_U32_MAX e
  rw [U32_MAX] at h hle
  rw [UInt32.toNat_add, show (1 : UInt32).toNat = 1 from rfl]
  omega

def splitLoop (s last chunk : UInt32) : List (UInt32 × UInt32) :=
  if s ≤ last then
    let e := chunkEnd s last chunk
    if e.toNat = U32_MAX then [(s, e)] else (s, e) :: splitLoop (e + 1) last chunk
  else []
termination_by last.toNat + 1 - s.toNat
decreasing_by
  next hs he =>
  have hnext : (chunkEnd s last chunk + 1).toNat = _ := toNat_add_one he
  have hend := le_chunkEnd hs chunk
  have hlast := UInt32.le_iff_toNat_le.mp hs
  omega

/-- Split an inclusive range into chunks of at most `chunk` ledgers. -/
def splitRange (start last chunk : UInt32) : List (UInt32 × UInt32) :=
  splitLoop start last (max chunk 1)

/-! ### The chunks -/

def ledgers (c : UInt32 × UInt32) : ℕ × ℕ := (c.1.toNat, c.2.toNat)

section
variable {s last chunk : UInt32} {c : UInt32 × UInt32}

/-- From wherever the loop is entered, it goes on to the end of the range. -/
theorem consecutive_splitLoop (h : s.toNat ≤ last.toNat + 1) :
    Consecutive s.toNat ((splitLoop s last chunk).map ledgers) (last.toNat + 1) := by
  fun_induction splitLoop s last chunk with
  | case1 s hs e he =>
    have hend : e.toNat ≤ last.toNat := by
      rw [toNat_chunkEnd]
      omega
    have hlast := toNat_le_U32_MAX last
    refine ⟨rfl, le_chunkEnd hs chunk, ?_⟩
    change e.toNat + 1 = last.toNat + 1
    omega
  | case2 s hs e he ih =>
    have hend : e.toNat ≤ last.toNat := by
      rw [toNat_chunkEnd]
      omega
    rw [toNat_add_one he] at ih
    exact ⟨rfl, le_chunkEnd hs chunk, ih (Nat.succ_le_succ hend)⟩
  | case3 s hs =>
    have hlt := Nat.lt_of_not_le fun h => hs (UInt32.le_iff_toNat_le.mpr h)
    change s.toNat = last.toNat + 1
    omega

theorem size_of_mem_splitLoop (hc : c ∈ splitLoop s last chunk) :
    c.2.toNat ≤ c.1.toNat + (chunk - 1).toNat := by
  fun_induction splitLoop s last chunk with
  | case1 s hs e he =>
    obtain rfl := List.mem_singleton.mp hc
    change e.toNat ≤ _
    rw [toNat_chunkEnd]
    exact Nat.min_le_left _ _
  | case2 s hs e he ih =>
    rcases List.mem_cons.mp hc with rfl | hc
    · change e.toNat ≤ _
      rw [toNat_chunkEnd]
      exact Nat.min_le_left _ _
    · exact ih hc
  | case3 s hs => cases hc

end

/-- Nothing is split off an empty range. Of any other the chunks are what is left of the range when
    it is cut after every `max(chunk, 1)` ledgers. -/
theorem splitRange_partitions (start last chunk : UInt32) :
    (splitRange start last chunk = [] ↔ last < start) ∧
      (start ≤ last →
        Consecutive start.toNat ((splitRange start last chunk).map ledgers) (last.toNat + 1) ∧
        (splitRange start last chunk).Pairwise (fun c d => c.2 < d.1) ∧
        (splitRange start last chunk).IsChain (fun c d => d.1.toNat = c.2.toNat + 1) ∧
        (∀ c ∈ splitRange start last chunk,
          c.1 ≤ c.2 ∧ c.2.toNat - c.1.toNat + 1 ≤ max chunk.toNat 1) ∧
        ∀ n : UInt32, (∃ c ∈ splitRange start last chunk, c.1 ≤ n ∧ n ≤ c.2) ↔
          start ≤ n ∧ n ≤ last) := by
  have hconsecutive : start.toNat ≤ last.toNat + 1 →
      Consecutive start.toNat ((splitRange start last chunk).map ledgers) (last.toNat + 1) :=
    consecutive_splitLoop
  refine ⟨⟨?_, ?_⟩, fun h => ?_⟩
  · -- chunks that tile a range are none only where the ends meet
    intro hnil
    by_contra hlt
    have hle := UInt32.le_iff_toNat_le.mp (UInt32.not_lt.mp hlt)
    have hends := (hconsecutive (by omega)).eq_nil_iff.mp (by rw [hnil]; rfl)
    omega
  · intro hlt
    rw [splitRange, splitLoop, if_neg (UInt32.not_le.mpr hlt)]
  · have hle := UInt32.le_iff_toNat_le.mp h
    have hall := hconsecutive (by omega)
    -- the chunk size is at least 1, so subtracting 1 does not wrap
    have hpos : (1 : UInt32) ≤ max chunk 1 := by
      rw [UInt32.le_iff_toNat_le, toNat_max]
      exact Nat.le_max_right _ _
    have hsize : (max chunk 1 - 1).toNat + 1 = max chunk.toNat 1 := by
      rw [UInt32.toNat_sub_of_le _ _ hpos, toNat_max, show (1 : UInt32).toNat = 1 from rfl,
        Nat.sub_add_cancel (Nat.le_max_right _ _)]
    refine ⟨hall, ?_, ?_, ?_, ?_⟩
    · have hpairs := hall.pairwise
      rw [List.pairwise_map] at hpairs
      exact hpairs.imp fun hcd => UInt32.lt_iff_toNat_lt.mpr hcd
    · have hchain := hall.isChain
      rw [List.isChain_map] at hchain
      exact hchain
    · intro c hc
      have hne := (hall.bounds (List.mem_map_of_mem hc)).2.1
      have hwidth := size_of_mem_splitLoop hc
      exact ⟨UInt32.le_iff_toNat_le.mpr hne, by omega⟩
    · -- the tiling is of the ledgers as numbers, and u32 order is the order of the numbers
      intro n
      have hcovers := hall.covers_iff (n := n.toNat)
      rw [Nat.lt_succ_iff, ← UInt32.le_iff_toNat_le, ← UInt32.le_iff_toNat_le] at hcovers
      rw [← hcovers]
      simp [ledgers, UInt32.le_iff_toNat_le]

/-- Six ledgers up to `u32::MAX`. -/
theorem splitRange_partitions_top :
    Consecutive 4294967290 ((splitRange 4294967290 4294967295 4).map ledgers) 4294967296 :=
  ((splitRange_partitions 4294967290 4294967295 4).2 (by decide)).1

end SorobanPulse.Backfill
