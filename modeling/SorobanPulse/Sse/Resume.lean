import SorobanPulse.Lib.Run
import SorobanPulse.Sse.Replay

/-! Resuming an SSE stream while the indexer goes on: `stream_events_internal` without filters.

        indexer   begin ──▶ store ──▶ send ──▶ store ──▶ send ──▶ … ──▶ finish      page by page
        handler   lookup ──▶ query ──▶ subscribe ──▶ recv ──▶ recv ──▶ …
                     └─ something to replay ─▶┘

    A store inserts the row, created at the time its transaction began, and pushes the event; a send
    broadcasts it. Of what is sent before the subscription, the client gets what it was replayed:
    nothing is missing or doubled if that is exactly what was sent after its last event. -/

namespace SorobanPulse.Sse
open Events Lib
open Ingest (SorobanEvent)

/-- An event in the ring buffer, and its row. -/
structure Announced where
  ringId : Uuid
  event : SorobanEvent
  row : EventRow

def Announced.slot (a : Announced) : Slot SorobanEvent := ⟨a.ringId, a.event⟩

/-- The id is that of its slot, which live frames carry, or that of its row, which replayed rows do. -/
def Announced.names (lastId : Uuid) (a : Announced) : Bool := a.ringId = lastId || a.row.id = lastId

/-- The frame is this event, as it was broadcast or as its row. -/
def Announced.Shown (a : Announced) (frame : Frame) : Prop :=
  frame = .published a.event ∨ frame = .stored a.row

/-- A page's transaction: its `NOW()` and what it has inserted. -/
structure OpenPage where
  now : Timestamp
  rows : List EventRow

structure ResumeConfig where
  /-- `sse_replay_limit` -/
  replayLimit : ℕ
  /-- Of the broadcast channel. -/
  channelCapacity : ℕ

inductive Handler where
  | idle
  /-- The ring buffer had nothing to replay. -/
  | lookedUp (lastId : Uuid)
  | ready (lastId : Uuid) (replay : List Frame)
  /-- Subscribed; `pos` messages of the channel are behind the receiver. -/
  | streaming (lastId : Uuid) (emitted : List Frame) (pos : ℕ)
  /-- The client was told that it lags, or the stream was closed. -/
  | ended (lastId : Uuid) (emitted : List Frame) (pos : ℕ)

structure World where
  /-- All that was ever broadcast, by earlier processes too. -/
  sent : List Announced
  /-- Pushed, but not sent yet. -/
  inFlight : Option Announced
  ring : SseRingBuffer SorobanEvent
  page : Option OpenPage
  table : List EventRow
  handler : Handler

inductive ResumeAction where
  | begin (now : Timestamp)
  | store (ringId : Uuid) (row : EventRow) (event : SorobanEvent)
  | send
  | finish (committed : Bool)
  /-- A request with this `Last-Event-ID` looks it up in the ring buffer. -/
  | lookup (lastId : Uuid)
  /-- The database query, how it orders rows of one time, and whether it fails. -/
  | query (tie : Uuid → ℕ) (fails : Bool)
  | subscribe
  | recv
  /-- Shutdown, or the client goes away. -/
  | close

namespace World

def pushed (s : World) : List Announced := s.sent ++ s.inFlight.toList

def ids (s : World) : List Uuid :=
  s.pushed.map (·.ringId) ++ s.pushed.map (·.row.id) ++ s.table.map (·.id) ++
    s.page.elim [] fun page => page.rows.map (·.id)

/-- A process that has just started, after any number of events: no id is used twice. -/
structure Started (s : World) : Prop where
  inFlight : s.inFlight = none
  ring : s.ring.inner = []
  page : s.page = none
  handler : s.handler = .idle
  ringIds : (s.sent.map (·.ringId)).Nodup
  rowIds : ∀ a ∈ s.sent, ∀ b ∈ s.sent, a.ringId ≠ b.row.id

/-- What was sent after the event with this id. -/
def sentAfter (s : World) (lastId : Uuid) : List Announced := after (·.names lastId) s.sent

end World

/-- The columns in which an event and its row agree. -/
def rowOf (row : EventRow) (event : SorobanEvent) : Bool :=
  row.contractId = event.contractId && row.eventType = event.eventType &&
    row.txHash = event.txHash && row.ledger = event.ledger.toNat && row.tenantId = event.tenantId

def unfiltered : StreamFilter := {}

section
variable (cfg : ResumeConfig)

def resumeStep (s : World) : ResumeAction → Option World
  | .begin now => if s.page.isNone then some { s with page := some ⟨now, []⟩ } else none
  | .store ringId row event =>
    match s.page, s.inFlight with
    | some page, none =>
      if ringId ∉ s.ids ∧ row.id ∉ s.ids ∧ ringId ≠ row.id ∧ row.createdAt = page.now ∧
          rowOf row event then
        some { s with
          page := some { page with rows := page.rows ++ [row] }
          ring := s.ring.push ringId event
          inFlight := some ⟨ringId, event, row⟩ }
      else none
    | _, _ => none
  | .send => s.inFlight.map fun a => { s with sent := s.sent ++ [a], inFlight := none }
  | .finish committed =>
    match s.page, s.inFlight with
    | some page, none =>
      some { s with page := none, table := if committed then s.table ++ page.rows else s.table }
    | _, _ => none
  | .lookup lastId =>
    match s.handler with
    | .idle =>
      if s.sent.any (·.names lastId) then
        let replay := unfiltered.ringReplay cfg.replayLimit s.ring lastId
        some { s with
          handler :=
            if replay.isEmpty then .lookedUp lastId else .ready lastId (replay.map .published) }
      else none
    | _ => none
  | .query tie fails =>
    match s.handler with
    | .lookedUp lastId =>
      let rows :=
        if fails then [] else unfiltered.internalReplay tie cfg.replayLimit s.table lastId
      some { s with handler := .ready lastId (rows.map .stored) }
    | _ => none
  | .subscribe =>
    match s.handler with
    | .ready lastId replay => some { s with handler := .streaming lastId replay s.sent.length }
    | _ => none
  | .recv =>
    match s.handler with
    | .streaming lastId emitted pos =>
      if cfg.channelCapacity < s.sent.length - pos then
        some { s with handler := .ended lastId emitted pos }
      else
        s.sent[pos]?.map fun a =>
          let frames := if unfiltered.liveKeeps a.event then [Frame.published a.event] else []
          { s with handler := .streaming lastId (emitted ++ frames) (pos + 1) }
    | _ => none
  | .close =>
    match s.handler with
    | .streaming lastId emitted pos => some { s with handler := .ended lastId emitted pos }
    | _ => none

/-- What the client has got are the events broadcast after its last one, once each and in order, as far
    as its receiver has come. -/
def GapFree (s : World) : Prop :=
  match s.handler with
  | .streaming lastId emitted pos | .ended lastId emitted pos =>
    List.Forall₂ Announced.Shown (after (·.names lastId) (s.sent.take pos)) emitted
  | _ => True

/-- The rows created after the named one are those of the first events sent after it, and the database
    gives them in that order. -/
def InTurn (s : World) (lastId : Uuid) (tie : Uuid → ℕ) : Prop :=
  ∃ n, let rows := ((s.sentAfter lastId).take n).map (·.row)
    (laterRows s.table lastId).Perm rows ∧ rows.Pairwise fun a b => createdKey tie a < createdKey tie b

/-- A query that succeeds finds the rows in turn, and at the subscription as many events have been sent
    after the last one as there are to replay. -/
def Clean (s : World) : ResumeAction → Prop
  | .query tie fails => fails = false → ∀ lastId, s.handler = .lookedUp lastId → InTurn s lastId tie
  | .subscribe => ∀ lastId replay, s.handler = .ready lastId replay →
      (s.sentAfter lastId).length = replay.length
  | _ => True

end

/-! ### What stays true -/

/-- What the handler knows, given what was sent and what was pushed. -/
def Handler.Good (sent pushed : List Announced) : Handler → Prop
  | .idle => True
  | .lookedUp lastId => ∃ a ∈ sent, a.names lastId
  | .ready lastId replay => (∃ a ∈ sent, a.names lastId) ∧
      ∃ known, known <+: after (·.names lastId) pushed ∧ List.Forall₂ Announced.Shown known replay
  | .streaming lastId emitted pos | .ended lastId emitted pos =>
      pos ≤ sent.length ∧ (∃ a ∈ sent.take pos, a.names lastId) ∧
        List.Forall₂ Announced.Shown (after (·.names lastId) (sent.take pos)) emitted

/-- The ring buffer holds the last of what was pushed, and no id is used twice. -/
structure Consistent (s : World) : Prop where
  ring : s.ring.inner <:+ s.pushed.map Announced.slot
  ringIds : (s.pushed.map (·.ringId)).Nodup
  rowIds : ∀ a ∈ s.pushed, ∀ b ∈ s.pushed, a.ringId ≠ b.row.id
  handler : s.handler.Good s.sent s.pushed

section
variable {cfg : ResumeConfig} {s t : World} {lastId : Uuid}

theorem Consistent.gapFree (h : Consistent s) : GapFree s := by
  have hgood := h.handler
  unfold GapFree
  cases hs : s.handler with
  | idle => trivial
  | lookedUp lastId => trivial
  | ready lastId replay => trivial
  | streaming lastId emitted pos =>
    rw [hs] at hgood
    exact hgood.2.2
  | ended lastId emitted pos =>
    rw [hs] at hgood
    exact hgood.2.2

/-- The handler's knowledge survives what the indexer does. -/
theorem Handler.Good.mono {handler : Handler} {sent sent' pushed pushed' : List Announced}
    (h : handler.Good sent pushed) (hle : sent <+: pushed) (hsent : sent <+: sent')
    (hpushed : pushed <+: pushed') : handler.Good sent' pushed' := by
  have hmem {lastId : Uuid} (hnamed : ∃ a ∈ sent, a.names lastId) : ∃ a ∈ sent', a.names lastId := by
    obtain ⟨a, ha, hname⟩ := hnamed
    exact ⟨a, hsent.subset ha, hname⟩
  have htake {pos : ℕ} (hpos : pos ≤ sent.length) : sent'.take pos = sent.take pos := by
    obtain ⟨more, rfl⟩ := hsent
    rw [List.take_append_of_le_length hpos]
  cases handler with
  | idle => trivial
  | lookedUp lastId => exact hmem h
  | ready lastId replay =>
    obtain ⟨hnamed, known, hknown, hshown⟩ := h
    obtain ⟨a, ha, hname⟩ := hnamed
    exact ⟨hmem ⟨a, ha, hname⟩, known,
      hknown.trans (after_inits (hle.subset ha) hname hpushed), hshown⟩
  | streaming lastId emitted pos =>
    obtain ⟨hpos, hnamed, hshown⟩ := h
    rw [Handler.Good, htake hpos]
    exact ⟨hpos.trans hsent.length_le, hnamed, hshown⟩
  | ended lastId emitted pos =>
    obtain ⟨hpos, hnamed, hshown⟩ := h
    rw [Handler.Good, htake hpos]
    exact ⟨hpos.trans hsent.length_le, hnamed, hshown⟩

theorem sent_prefix_pushed (s : World) : s.sent <+: s.pushed := List.prefix_append _ _

/-! ### Lookups -/

@[simp] theorem unfiltered_ringKeeps (event : SorobanEvent) : unfiltered.ringKeeps event = true := rfl

theorem shown_published (known : List Announced) :
    List.Forall₂ Announced.Shown known ((known.map (·.event)).map .published) := by
  rw [List.map_map, List.forall₂_map_right_iff, List.forall₂_same]
  exact fun a _ => .inl rfl

theorem shown_stored (known : List Announced) :
    List.Forall₂ Announced.Shown known ((known.map (·.row)).map .stored) := by
  rw [List.map_map, List.forall₂_map_right_iff, List.forall₂_same]
  exact fun a _ => .inr rfl

/-- A beginning of a mapped list is the map of a beginning. -/
theorem prefix_map_iff {α β : Type} {f : α → β} {l : List α} {m : List β} (h : m <+: l.map f) :
    ∃ k, k <+: l ∧ m = k.map f := by
  rw [List.prefix_iff_eq_take] at h
  exact ⟨l.take m.length, List.take_prefix _ _, by rw [h, List.map_take]; simp⟩

/-- A slot that is still there has after it what was pushed after its event. -/
theorem Consistent.eventsSince (h : Consistent s) {events : List SorobanEvent}
    (hfound : s.ring.eventsSince lastId = some events) :
    events = (after (·.names lastId) s.pushed).map (·.event) := by
  obtain ⟨old, hold⟩ := h.ring
  have hslot : ∃ slot ∈ s.ring.inner, slot.id = lastId := by
    obtain ⟨pos, hpos, _⟩ := Option.map_eq_some_iff.mp hfound
    have hlt := List.findIdx?_eq_some_iff_getElem.mp hpos
    exact ⟨_, List.getElem_mem hlt.1, by simpa using hlt.2.1⟩
  obtain ⟨slot, hslot, hid⟩ := hslot
  have hids : ((old ++ s.ring.inner).map (·.id)).Nodup := by
    rw [hold, List.map_map]
    exact h.ringIds
  -- no slot before those of the buffer has the id
  have hbefore : ∀ other ∈ old, decide (other.id = lastId) = false := by
    intro other hother
    rw [List.map_append, List.nodup_append] at hids
    have hne := hids.2.2 _ (List.mem_map_of_mem hother) _ (List.mem_map_of_mem hslot)
    simpa [hid] using hne
  -- and no row has it
  have hnames : ∀ a ∈ s.pushed, a.names lastId = decide (a.slot.id = lastId) := by
    intro a ha
    have hmem : slot ∈ s.pushed.map Announced.slot := hold ▸ List.mem_append_right _ hslot
    obtain ⟨b, hb, rfl⟩ := List.mem_map.mp hmem
    have hne := h.rowIds b hb a ha
    rw [show b.ringId = lastId from hid] at hne
    rw [Announced.names, decide_eq_false (Ne.symm hne), Bool.or_false]
    rfl
  rw [SseRingBuffer.eventsSince_eq hfound, ← after_append_of_not hbefore, hold, after_map,
    List.map_map]
  rw [after_congr hnames]
  rfl

/-- What the ring buffer has to replay is the beginning of what was pushed. -/
theorem Consistent.ringReplay (h : Consistent s) (limit : ℕ)
    (hne : unfiltered.ringReplay limit s.ring lastId ≠ []) :
    ∃ known, known <+: after (·.names lastId) s.pushed ∧
      unfiltered.ringReplay limit s.ring lastId = known.map (·.event) := by
  unfold StreamFilter.ringReplay at hne ⊢
  cases hfound : s.ring.eventsSince lastId with
  | none =>
    rw [hfound] at hne
    exact absurd (by simp) hne
  | some events =>
    have hkeep : events.filter unfiltered.ringKeeps = events :=
      List.filter_eq_self.mpr fun event _ => unfiltered_ringKeeps event
    rw [Option.getD_some, hkeep, h.eventsSince hfound]
    exact prefix_map_iff (List.take_prefix _ _)

/-- Rows in turn are those of the first events sent after the named one. -/
theorem InTurn.internalReplay {tie : Uuid → ℕ} (h : InTurn s lastId tie) (limit : ℕ) :
    ∃ known, known <+: s.sentAfter lastId ∧
      unfiltered.internalReplay tie limit s.table lastId = known.map (·.row) := by
  obtain ⟨n, hperm, hsorted⟩ := h
  have hkeep : (laterRows s.table lastId).filter (fun row => unfiltered.keepsContract row.contractId) =
      laterRows s.table lastId := List.filter_eq_self.mpr fun row _ => rfl
  have hnodup : ((((s.sentAfter lastId).take n).map (·.row)).map (createdKey tie)).Nodup :=
    List.pairwise_map.mpr (hsorted.imp fun hlt => hlt.ne)
  have hdistinct : Keyset.Distinct (createdKey tie) (((s.sentAfter lastId).take n).map (·.row)) := by
    intro a ha b hb hab
    exact List.inj_on_of_nodup_map hnodup ha hb hab
  have hsort : Keyset.sortOn (createdKey tie) (laterRows s.table lastId) =
      ((s.sentAfter lastId).take n).map (·.row) := by
    have hsame := hperm.symm.trans (Keyset.perm_sortOn (createdKey tie) _).symm
    exact (hdistinct.eq_of_perm hsame (hsorted.imp fun hlt => hlt.le)
      (Keyset.pairwise_sortOn (createdKey tie) _)).symm
  obtain ⟨known, hknown, heq⟩ : ∃ known, known <+: (s.sentAfter lastId).take n ∧
      unfiltered.internalReplay tie limit s.table lastId = known.map (·.row) := by
    apply prefix_map_iff
    rw [← hsort, ← hkeep]
    exact dbReplay_prefix
  exact ⟨known, hknown.trans (List.take_prefix _ _), heq⟩

/-! ### Steps -/

theorem suffix_push {buf : SseRingBuffer SorobanEvent} {slots : List (Slot SorobanEvent)}
    (h : buf.inner <:+ slots) (id : Uuid) (event : SorobanEvent) :
    (buf.push id event).inner <:+ slots ++ [⟨id, event⟩] := by
  obtain ⟨old, rfl⟩ := h
  unfold SseRingBuffer.push
  split
  · refine ⟨old ++ buf.inner.take 1, ?_⟩
    rw [List.append_assoc, ← List.append_assoc (buf.inner.take 1), ← List.append_assoc]
    congr 2
    cases buf.inner <;> rfl
  · exact ⟨old, by rw [List.append_assoc]⟩

/-- What the handler does touches nothing else. -/
theorem Consistent.move (h : Consistent s) {handler : Handler}
    (hgood : handler.Good s.sent s.pushed) : Consistent { s with handler } :=
  ⟨h.ring, h.ringIds, h.rowIds, hgood⟩

theorem consistent_store (h : Consistent s) {page : OpenPage} {ringId : Uuid} {row : EventRow}
    {event : SorobanEvent} (hnone : s.inFlight = none) (hring : ringId ∉ s.ids) (hrow : row.id ∉ s.ids)
    (hne : ringId ≠ row.id) :
    Consistent { s with
      page := some page
      ring := s.ring.push ringId event
      inFlight := some ⟨ringId, event, row⟩ } := by
  -- nothing was in flight, so what is pushed now comes right behind what was sent
  have hpushed : s.pushed = s.sent := by rw [World.pushed, hnone, Option.toList_none, List.append_nil]
  have hfresh {id : Uuid} (hid : id ∉ s.ids) : ∀ a ∈ s.sent, a.ringId ≠ id ∧ a.row.id ≠ id := by
    intro a ha
    simp only [World.ids, hpushed, List.mem_append, not_or] at hid
    constructor
    · rintro rfl
      exact hid.1.1.1 (List.mem_map_of_mem ha)
    · rintro rfl
      exact hid.1.1.2 (List.mem_map_of_mem ha)
  have hgood := h.handler
  obtain ⟨hsuffix, hnodup, hapart, -⟩ := h
  rw [hpushed] at hsuffix hnodup hapart hgood
  refine ⟨?_, ?_, ?_, ?_⟩  -- the ring, then its ids, then those of the rows
  · change (s.ring.push ringId event).inner <:+ (s.sent ++ [_]).map Announced.slot
    rw [List.map_append]
    exact suffix_push hsuffix ringId event
  · change ((s.sent ++ [(⟨ringId, event, row⟩ : Announced)]).map (·.ringId)).Nodup
    rw [List.map_append, List.nodup_append]
    refine ⟨hnodup, List.nodup_singleton _, ?_⟩
    intro id hid other hother
    obtain ⟨a, ha, rfl⟩ := List.mem_map.mp hid
    rw [List.mem_singleton.mp hother]
    exact (hfresh hring a ha).1
  · intro a ha b hb
    rcases List.mem_append.mp ha with ha | ha <;> rcases List.mem_append.mp hb with hb | hb
    · exact hapart a ha b hb
    · rw [List.mem_singleton.mp hb]
      exact (hfresh hrow a ha).1
    · rw [List.mem_singleton.mp ha]
      exact ((hfresh hring b hb).2).symm
    · rw [List.mem_singleton.mp ha, List.mem_singleton.mp hb]
      exact hne
  · -- the handler has seen a part of what is now longer
    exact hgood.mono (List.prefix_refl _) (List.prefix_refl _) (List.prefix_append _ _)

theorem consistent_send (h : Consistent s) {a : Announced} (ha : s.inFlight = some a) :
    Consistent { s with sent := s.sent ++ [a], inFlight := none } := by
  have hpushed : s.pushed = (s.sent ++ [a]) ++ [] := by
    rw [World.pushed, ha, Option.toList_some, List.append_nil]
  have hgood := h.handler.mono (sent_prefix_pushed s) (List.prefix_append _ [a]) (List.prefix_refl _)
  obtain ⟨hsuffix, hnodup, hapart, -⟩ := h
  rw [hpushed] at hsuffix hnodup hapart hgood
  exact ⟨hsuffix, hnodup, hapart, hgood⟩

/-- The ring buffer's replay, or nothing as yet. -/
theorem good_lookup (h : Consistent s) (hnamed : ∃ a ∈ s.sent, a.names lastId) (limit : ℕ) :
    (if (unfiltered.ringReplay limit s.ring lastId).isEmpty then Handler.lookedUp lastId
      else .ready lastId ((unfiltered.ringReplay limit s.ring lastId).map .published)).Good
      s.sent s.pushed := by
  split
  · exact hnamed
  · next hne =>
    rw [List.isEmpty_iff] at hne
    obtain ⟨known, hknown, heq⟩ := h.ringReplay limit hne
    rw [heq]
    exact ⟨hnamed, known, hknown, shown_published known⟩

/-- A query that fails replays nothing, one that finds its rows in turn the first events of them. -/
theorem good_query {tie : Uuid → ℕ} {fails : Bool}
    (hnamed : (Handler.lookedUp lastId).Good s.sent s.pushed)
    (hturn : fails = false → InTurn s lastId tie) (limit : ℕ) :
    (Handler.ready lastId ((if fails then []
      else unfiltered.internalReplay tie limit s.table lastId).map .stored)).Good
      s.sent s.pushed := by
  cases fails with
  | true => exact ⟨hnamed, [], List.nil_prefix, .nil⟩
  | false =>
    obtain ⟨a, ha, hname⟩ := hnamed
    obtain ⟨known, hknown, heq⟩ := (hturn rfl).internalReplay limit
    refine ⟨⟨a, ha, hname⟩, known, ?_, ?_⟩
    · exact hknown.trans (after_inits ha hname (sent_prefix_pushed s))
    · rw [if_neg (by simp), heq]
      exact shown_stored known

/-- As many were sent as are replayed: they are the same events. -/
theorem good_subscribe {replay : List Frame} (h : (Handler.ready lastId replay).Good s.sent s.pushed)
    (hlen : (s.sentAfter lastId).length = replay.length) :
    (Handler.streaming lastId replay s.sent.length).Good s.sent s.pushed := by
  obtain ⟨⟨a, ha, hname⟩, known, hknown, hshown⟩ := h
  have hsent : s.sentAfter lastId <+: after (·.names lastId) s.pushed :=
    after_inits ha hname (sent_prefix_pushed s)
  have heq : s.sentAfter lastId = known :=
    eq_of_prefixes hsent hknown (hlen.trans hshown.length_eq.symm)
  rw [Handler.Good, List.take_length]
  refine ⟨Nat.le_refl _, ⟨a, ha, hname⟩, ?_⟩
  change List.Forall₂ Announced.Shown (s.sentAfter lastId) replay
  rw [heq]
  exact hshown

theorem good_recv {emitted : List Frame} {pos : ℕ} {a : Announced}
    (h : (Handler.streaming lastId emitted pos).Good s.sent s.pushed) (ha : s.sent[pos]? = some a) :
    (Handler.streaming lastId (emitted ++ [.published a.event]) (pos + 1)).Good s.sent s.pushed := by
  obtain ⟨-, ⟨b, hb, hname⟩, hshown⟩ := h
  have hlt := (List.getElem?_eq_some_iff.mp ha).1
  have htake : s.sent.take (pos + 1) = s.sent.take pos ++ [a] := by
    rw [List.take_add_one, ha, Option.toList_some]
  rw [Handler.Good, htake]
  refine ⟨hlt, ⟨b, List.mem_append_left _ hb, hname⟩, ?_⟩
  rw [after_append_of_mem hb hname]
  exact List.rel_append hshown (.cons (.inl rfl) .nil)

/-- A clean step keeps the handler's knowledge right. -/
theorem consistent_step {a : ResumeAction} (hP : Clean s a) (hs : resumeStep cfg s a = some t)
    (h : Consistent s) : Consistent t := by
  cases a with
  | begin now =>
    rw [resumeStep] at hs
    split at hs
    · rw [← Option.some.inj hs]
      exact ⟨h.ring, h.ringIds, h.rowIds, h.handler⟩
    · cases hs
  | store ringId row event =>
    rw [resumeStep] at hs
    split at hs
    · next page hpage hnone =>
      split at hs
      · next hfresh =>
        rw [← Option.some.inj hs]
        exact consistent_store h hnone hfresh.1 hfresh.2.1 hfresh.2.2.1
      · cases hs
    · cases hs
  | send =>
    rw [resumeStep] at hs
    obtain ⟨a, ha, rfl⟩ := Option.map_eq_some_iff.mp hs
    exact consistent_send h ha
  | finish committed =>
    rw [resumeStep] at hs
    split at hs
    · rw [← Option.some.inj hs]
      exact ⟨h.ring, h.ringIds, h.rowIds, h.handler⟩
    · cases hs
  | lookup lastId =>
    rw [resumeStep] at hs
    split at hs
    · split at hs
      · next hnamed =>
        rw [← Option.some.inj hs]
        -- the ring names the id, so its rest is the replay
        exact h.move (good_lookup h (List.any_eq_true.mp hnamed) cfg.replayLimit)
      · cases hs
    · cases hs
  | query tie fails =>
    rw [resumeStep] at hs
    split at hs
    · next lastId hlooked =>
      have hgood := h.handler
      rw [hlooked] at hgood
      rw [← Option.some.inj hs]
      -- the condition says that the query of an id outside the ring does not fail
      exact h.move (good_query hgood (fun hfails => hP hfails lastId hlooked) cfg.replayLimit)
    · cases hs
  | subscribe =>
    rw [resumeStep] at hs
    split at hs
    · next lastId replay hready =>
      have hgood := h.handler
      rw [hready] at hgood
      rw [← Option.some.inj hs]
      -- and that nothing is stored between the replay and the subscription
      exact h.move (good_subscribe hgood (hP lastId replay hready))
    · cases hs
  | recv =>
    rw [resumeStep] at hs
    split at hs
    · next lastId emitted pos hstreaming =>
      have hgood := h.handler
      rw [hstreaming] at hgood
      split at hs
      · rw [← Option.some.inj hs]
        exact h.move hgood  -- the event was replayed already, and the stream skips it
      · obtain ⟨a, ha, rfl⟩ := Option.map_eq_some_iff.mp hs
        exact h.move (good_recv hgood ha)
    · cases hs
  | close =>
    rw [resumeStep] at hs
    split at hs
    · next lastId emitted pos hstreaming =>
      have hgood := h.handler
      rw [hstreaming] at hgood
      rw [← Option.some.inj hs]
      exact h.move hgood
    · cases hs

theorem World.Started.consistent (h : s.Started) : Consistent s := by
  have hpushed : s.pushed = s.sent := by rw [World.pushed, h.inFlight, Option.toList_none, List.append_nil]
  refine ⟨?_, ?_, ?_, ?_⟩
  · rw [h.ring]
    exact List.nil_suffix
  · rw [hpushed]
    exact h.ringIds
  · rw [hpushed]
    exact h.rowIds
  · rw [h.handler]
    trivial

/-- Where each query finds its rows in turn and each subscription comes when as many events have been
    sent as are replayed, the stream is without gap and without duplicate. -/
theorem run_gapFree {actions : List ResumeAction} {u : World} (hstart : s.Started)
    (hrun : Run (resumeStep cfg) Clean s actions u) : GapFree u :=
  (hrun.invariant (fun hP hs h => consistent_step hP hs h) hstart.consistent).gapFree

end

/-! ### A client that comes back -/

def plainEvent (txHash : String) : SorobanEvent where
  contractId := "C1"
  eventType := "contract"
  txHash := txHash
  ledger := 7
  ledgerClosedAt := "2024-01-01T00:00:00Z"
  value := .null

def plainRow (id : Uuid) (txHash : String) : EventRow where
  id := id
  contractId := "C1"
  eventType := "contract"
  txHash := txHash
  ledger := 7
  timestamp := 0
  eventData := .null
  createdAt := 0

def firstStart : World where
  sent := []
  inFlight := none
  ring := .new 100
  page := none
  table := []
  handler := .idle

theorem firstStart_started : firstStart.Started :=
  ⟨rfl, rfl, rfl, rfl, List.nodup_nil, fun _ h => absurd h List.not_mem_nil⟩

def defaultResume : ResumeConfig := ⟨100, 256⟩

/-- The second event is sent, replayed, and the third comes live. -/
theorem gapFree_replayed : ∃ u, u.handler = .streaming 1
    [.published (plainEvent "b"), .published (plainEvent "c")] 3 ∧ GapFree u := by
  have hrun : Run (resumeStep defaultResume) Clean firstStart
      [.begin 0, .store 1 (plainRow 11 "a") (plainEvent "a"), .send,
        .store 2 (plainRow 12 "b") (plainEvent "b"), .send, .lookup 1, .subscribe,
        .store 3 (plainRow 13 "c") (plainEvent "c"), .send, .finish true, .recv] _ :=
    .cons trivial rfl (.cons trivial rfl (.cons trivial rfl (.cons trivial rfl (.cons trivial rfl
      (.cons trivial rfl (.cons (fun lastId replay h => by cases h; rfl) rfl (.cons trivial rfl
        (.cons trivial rfl (.cons trivial rfl (.cons trivial rfl (.nil _)))))))))))
  exact ⟨_, rfl, run_gapFree firstStart_started hrun⟩

/-- The second event is sent between the query and the subscription: it never arrives, and the client
    is not told. -/
theorem not_gapFree_sentBeforeSubscribe : ¬∀ (cfg : ResumeConfig) (s u : World)
    (actions : List ResumeAction), s.Started → AnyRun (resumeStep cfg) s actions u → GapFree u := by
  intro h
  have hrun : AnyRun (resumeStep defaultResume) firstStart
      [.begin 0, .store 1 (plainRow 11 "a") (plainEvent "a"), .send, .lookup 1, .query (fun _ => 0) false,
        .store 2 (plainRow 12 "b") (plainEvent "b"), .send, .subscribe] _ :=
    anyRun_iff_exec.mpr rfl
  have hlost := h defaultResume firstStart _ _ firstStart_started hrun
  cases hlost

end SorobanPulse.Sse
