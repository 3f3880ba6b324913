import SorobanPulse.Events.CursorWalk
import SorobanPulse.Events.TenantReads

/-! What becomes of a cursor on its way to the client and back.

        tag : value : id   ──base64──▶   cursor   ──▶   splitn(3, ':')
        ledger : id        ──base64──▶   cursor   ──▶   split_once(':')

    The second kind always comes back. The first comes back when its value has no separator in it:
    a ledger has none, an RFC 3339 time has several. -/

namespace SorobanPulse.Events
open Lib

/-- `encode_cursor`. -/
def encodeCursor (libs : Libraries) (ledger : ℤ) (id : Uuid) : String :=
  libs.base64Encode (i64Text ledger ++ ":" ++ libs.uuidText id)

/-- A text that `get_events` puts into a cursor. -/
inductive CursorValue (libs : Libraries) : String → Prop
  | ledger {v : ℤ} : I64_MIN ≤ v → v ≤ I64_MAX → CursorValue libs (i64Text v)
  | time (t : Timestamp) : CursorValue libs (libs.toRfc3339 t)

/-- Both decoders give back what was encoded. -/
def CursorsComeBack (libs : Libraries) (sortBy : SortBy) (value : String) (ledger : ℤ) (id : Uuid) :
    Prop :=
  decodeCursorTagged libs (encodeCursorTagged libs sortBy.asTag value id) =
      .ok ⟨sortBy.asTag, value, id⟩ ∧
    decodeCursor libs (encodeCursor libs ledger id) = .ok (ledger, id)

variable {libs : Libraries}

section
variable (hlibs : libs.ReadBack)
include hlibs

theorem colon_mem_time (t : Timestamp) : ':' ∈ (libs.toRfc3339 t).toList := by
  obtain ⟨date, d, rest, htext, -⟩ := hlibs.rfc3339 t
  rw [htext]
  exact List.mem_append_right _ List.mem_cons_self

theorem decodeCursor_encode {ledger : ℤ} {id : Uuid} (hid : isRandomUuid id = true)
    (hlow : 1 ≤ ledger) (hhigh : ledger ≤ 4294967295) :
    decodeCursor libs (encodeCursor libs ledger id) = .ok (ledger, id) := by
  have hbounds : I64_MIN ≤ ledger ∧ ledger ≤ I64_MAX := by
    rw [I64_MIN, I64_MAX]
    omega
  have htext : (i64Text ledger ++ ":" ++ libs.uuidText id).toList =
      (i64Text ledger).toList ++ ':' :: (libs.uuidText id).toList := by
    simp [String.toList_append]
  have hsplit := Ingest.splitOnce_append (colon_not_mem_i64Text ledger) (libs.uuidText id).toList
  have hpos : 0 < ledger := by omega
  simp only [decodeCursor, encodeCursor, hlibs.base64, htext, hsplit, String.ofList_toList,
    parseI64_i64Text hbounds, hlibs.uuid, hpos, hhigh, hid, Option.bind_eq_bind, Option.bind_some,
    and_self, if_true]

theorem decodeCursorTagged_encode_iff {sortBy : SortBy} {value : String} {id : Uuid}
    (hvalue : CursorValue libs value) (hid : isRandomUuid id = true) :
    decodeCursorTagged libs (encodeCursorTagged libs sortBy.asTag value id) =
        .ok ⟨sortBy.asTag, value, id⟩ ↔
      ':' ∉ value.toList := by
  constructor
  · intro h hcolon
    cases hvalue with
    | ledger => exact colon_not_mem_i64Text _ hcolon
    | time t =>
      rw [decodeCursorTagged_time hlibs t id] at h
      cases h
  · exact fun hcolon => decodeCursorTagged_encode hlibs hcolon hid

end

/-- Cursors come back exactly if the value is a ledger. -/
theorem cursorsComeBack_iff (hlibs : libs.ReadBack) {sortBy : SortBy} {value : String} {ledger : ℤ}
    {id : Uuid} (hvalue : CursorValue libs value) (hid : isRandomUuid id = true)
    (hlow : 1 ≤ ledger) (hhigh : ledger ≤ 4294967295) :
    CursorsComeBack libs sortBy value ledger id ↔
      ∃ v, I64_MIN ≤ v ∧ v ≤ I64_MAX ∧ value = i64Text v := by
  rw [CursorsComeBack, decodeCursorTagged_encode_iff hlibs hvalue hid,
    and_iff_left (decodeCursor_encode hlibs hid hlow hhigh)]
  constructor
  · intro hcolon
    cases hvalue with
    | @ledger v hmin hmax => exact ⟨v, hmin, hmax, rfl⟩
    | time t => exact absurd (colon_mem_time hlibs t) hcolon
  · rintro ⟨v, -, -, rfl⟩
    exact colon_not_mem_i64Text v

/-- A random UUID. -/
def anyId : Uuid := 0x550e8400e29b41d4a716446655440000

theorem cursorsComeBack_ledger :
    CursorsComeBack plainLibraries .Ledger (i64Text 1234567) 1234567 anyId :=
  (cursorsComeBack_iff readBack_plainLibraries (.ledger (by decide) (by decide)) (by decide)
    (by decide) (by decide)).mpr ⟨1234567, by decide, by decide, rfl⟩

/-- 1996-12-19T16:39:57.250+00:00. -/
theorem not_cursorsComeBack_time : ¬CursorsComeBack plainLibraries .Timestamp
    (plainLibraries.toRfc3339 851013597250000) 1234567 anyId := by
  rintro ⟨htagged, -⟩
  rw [decodeCursorTagged_time readBack_plainLibraries] at htagged
  cases htagged

end SorobanPulse.Events
