import SorobanPulse.JsonText
import SorobanPulse.Streaming.ResponseFlow

/-! What the body of a streamed response says of the stream.

        row  row  err  row          [ row , row , row ]        complete, one database error counted
        row  row  (cancel)  row     [ row , row ]              complete, cancelled
        row  row  (client gone)     [ row , ro…                not an array

    The rows are those that were serialised. An error and a row that was skipped leave no trace in the
    body, and a cancelled response is closed like any other: only the counters tell. A body that is
    left off before its closing bracket is not a complete array. -/

namespace SorobanPulse.Streaming
open Lib

section
variable {T : Type} {toVec : T → Except String (List Char)} {options : StreamingOptions}
variable {items₀ : List (Except String T)} {r : Response T}

/-! ### What the client can tell -/

/-- The items that the response is about: all of them, or those before the one at which the producer
    saw that the caller had cancelled. -/
def Response.reached (items₀ : List (Except String T)) (r : Response T) : List (Except String T) :=
  if r.noticed then r.taken else items₀

/-- With the closing bracket, everything is written. -/
theorem Flows.written_closed (h : Flows toVec items₀ r) (hb : r.bracketed = true) :
    r.written toVec = arrayText (rowTexts toVec (r.reached items₀)) := by
  have hreached : r.reached items₀ = r.taken := by
    rw [Response.reached]
    split
    · rfl
    · next hn =>
      rw [Bool.not_eq_true] at hn
      have hitems : r.items = [] := (h.closing hb).resolve_left (Bool.eq_false_iff.1 hn)
      rw [← h.source hn, hitems, List.append_nil]
  rw [Response.written, hb, hreached]
  rfl

theorem Flows.written_open (h : Flows toVec items₀ r) (hb : r.bracketed = false) :
    r.written toVec <+: openText (rowTexts toVec (r.reached items₀)) := by
  have hn : r.noticed = false := by
    rw [← Bool.not_eq_true]
    intro hn
    exact Bool.false_ne_true (hb.symm.trans (h.noticed hn).1)
  have hreached : r.reached items₀ = items₀ := by
    rw [Response.reached, hn]
    rfl
  obtain ⟨more, hmore⟩ := h.cut
  rw [Response.written, hb, hreached, ← hmore, rowTexts, rowTexts, List.filterMap_append]
  exact openText_prefix _ _

theorem Flows.body_prefix (h : Flows toVec items₀ r) :
    r.body <+: arrayText (rowTexts toVec (r.reached items₀)) := by
  cases hb : r.bracketed with
  | true => exact h.written_closed hb ▸ h.carries.left
  | false => exact (h.carries.left.trans (h.written_open hb)).trans (List.prefix_append _ _)

/-- What is left in nobody's hands when the producer is done and the channel is empty. -/
theorem Flows.body_of_returned (h : Flows toVec items₀ r) (hphase : r.phase = .returned)
    (hopen : r.closed = false) (hqueue : r.queue = []) :
    r.body = arrayText (rowTexts toVec (r.reached items₀)) := by
  have hb : r.bracketed = true := by
    rw [Response.bracketed, hphase]
    exact (h.returns hphase).resolve_right (Bool.eq_false_iff.1 hopen)
  have hbuffer : r.buffer = [] := h.carries.parked (by rw [hphase]; exact Phase.noConfusion)
  have hwhole := h.carries.whole hopen
  rw [h.written_closed hb, hqueue, Response.pending, hphase] at hwhole
  dsimp only at hwhole
  rwa [hbuffer, List.flatten_nil, List.append_nil, List.append_nil] at hwhole

theorem Flows.bracketed_of_body (h : Flows toVec items₀ r)
    (hbody : r.body = arrayText (rowTexts toVec (r.reached items₀))) : r.bracketed = true := by
  rw [← Bool.not_eq_false]
  intro hb
  have hlen := (h.carries.left.trans (h.written_open hb)).length_le
  rw [hbody, arrayText, List.length_append, List.length_singleton] at hlen
  omega

/-- No errors and no cancellation: every item was a row that was serialised. -/
theorem Flows.all_rows (h : Flows toVec items₀ r) (hb : r.bracketed = true)
    (hlength : items₀.length < 2 ^ 64)
    (herrors : r.stats.errors = 0) (hcancelled : r.stats.cancelled = false) :
    ∀ item ∈ items₀, (json? toVec item).isSome := by
  have hn : r.noticed = false := by
    rw [← Bool.not_eq_true]
    intro hn
    exact Bool.false_ne_true (hcancelled.symm.trans (h.noticed hn).2)
  have hitems : r.items = [] := (h.closing hb).resolve_left (Bool.eq_false_iff.1 hn)
  have htaken : r.taken = items₀ := by rw [← h.source hn, hitems, List.append_nil]
  -- fewer than `2 ^ 64` items cannot make the counter come back to zero
  have hcounted := congrArg UInt64.toNat (herrors.symm.trans h.counted)
  have hle : skipped toVec r.taken ≤ items₀.length := htaken ▸ List.countP_le_length
  rw [UInt64.toNat_zero, UInt64.toNat_ofNat_of_lt' (Nat.lt_of_le_of_lt hle hlength), htaken] at hcounted
  intro item hitem
  have hnot := List.countP_eq_zero.mp hcounted.symm item hitem
  rwa [Bool.not_eq_true, Option.isNone_eq_false_iff] at hnot

end

section
variable {T : Type} (double : UInt64 → String) (serialize : T → Except String Value)

theorem level_rowTexts (hdouble : PlainDoubles double) (items : List (Except String T)) :
    ∀ text ∈ rowTexts (serdeToVec double serialize) items, Level text := by
  intro text htext
  obtain ⟨item, _, hitem⟩ := List.mem_filterMap.1 htext
  cases item with
  | error e => cases hitem
  | ok row =>
    rw [json?, serdeToVec] at hitem
    cases hvalue : serialize row with
    | error e =>
      rw [hvalue] at hitem
      cases hitem
    | ok v =>
      rw [hvalue] at hitem
      obtain rfl : jsonChars double v = text := Option.some.inj hitem
      exact level_jsonChars hdouble v

/-- Whatever the sizes, the speeds and the order of events: the client reads a beginning of the array
    of the rows that were serialised, up to a cancellation. It reads the whole array or none that is
    closed; and when the counters tell of no error and no cancellation, a closed array is that of the
    whole stream, if that has fewer than `2 ^ 64` items. -/
theorem truncation_visible (hdouble : PlainDoubles double) (options : StreamingOptions)
    (items : List (Except String T)) {acts : List Act} {r : Response T}
    (hrun : AnyRun (step (serdeToVec double serialize) options) (.start items) acts r) :
    r.taken <+: items ∧
    r.body <+: arrayText (rowTexts (serdeToVec double serialize) (r.reached items)) ∧
    (r.phase = .returned → r.closed = false → r.queue = [] →
      r.body = arrayText (rowTexts (serdeToVec double serialize) (r.reached items))) ∧
    (ClosedArray r.body →
      r.body = arrayText (rowTexts (serdeToVec double serialize) (r.reached items)) ∧
      (items.length < 2 ^ 64 → r.stats.errors = 0 → r.stats.cancelled = false →
        ∀ item ∈ items, (json? (serdeToVec double serialize) item).isSome)) := by
  have h := flows_run hrun
  refine ⟨h.cut, h.body_prefix, h.body_of_returned, fun hclosed => ?_⟩
  have hlevel := Level.intercalate (level_rowTexts double serialize hdouble (r.reached items))
  have hbody : r.body = arrayText (rowTexts (serdeToVec double serialize) (r.reached items)) :=
    eq_of_closedArray hlevel h.body_prefix hclosed
  exact ⟨hbody, h.all_rows (h.bracketed_of_body hbody)⟩

end

/-! ### An error in the middle -/

def flags : List (Except String Bool) := [.ok true, .error "connection reset", .ok false]

def ofFlag (b : Bool) : Except String Value := .ok (.bool b)

def halfText (_ : UInt64) : String := "0.5"

theorem plainDoubles_halfText : PlainDoubles halfText := by
  simp [PlainDoubles, halfText, Plain]

def readAll : List Act := [.next, .next, .next, .next, .recv]

/-- What comes of it when the client reads one chunk. -/
def flagsRead : Response Bool :=
  (exec (step (serdeToVec halfText ofFlag) ⟨8192, 4⟩) (.start flags) readAll).getD (.start flags)

theorem run_flags :
    AnyRun (step (serdeToVec halfText ofFlag) ⟨8192, 4⟩) (.start flags) readAll flagsRead :=
  anyRun_iff_exec.2 rfl

theorem truncation_visible_flags :
    flagsRead.taken <+: flags ∧
    flagsRead.body <+: arrayText (rowTexts (serdeToVec halfText ofFlag) (flagsRead.reached flags)) ∧
    (flagsRead.phase = .returned → flagsRead.closed = false → flagsRead.queue = [] →
      flagsRead.body =
        arrayText (rowTexts (serdeToVec halfText ofFlag) (flagsRead.reached flags))) ∧
    (ClosedArray flagsRead.body →
      flagsRead.body =
        arrayText (rowTexts (serdeToVec halfText ofFlag) (flagsRead.reached flags)) ∧
      (flags.length < 2 ^ 64 → flagsRead.stats.errors = 0 → flagsRead.stats.cancelled = false →
        ∀ item ∈ flags, (json? (serdeToVec halfText ofFlag) item).isSome)) :=
  truncation_visible halfText ofFlag plainDoubles_halfText ⟨8192, 4⟩ flags run_flags

/-- The stream failed after its first row, nobody cancelled, and the body is a closed array. -/
theorem closed_after_error :
    AnyRun (step (serdeToVec halfText ofFlag) ⟨8192, 4⟩) (.start flags) readAll flagsRead ∧
      flagsRead.body = "[true,false]".toList ∧ ClosedArray flagsRead.body ∧
      ¬∀ item ∈ flags, (json? (serdeToVec halfText ofFlag) item).isSome := by
  refine ⟨run_flags, rfl, ?_, fun h => ?_⟩
  · have hbody : flagsRead.body = "[true,false]".toList := rfl
    rw [hbody]
    decide
  · cases h (.error "connection reset") (by simp [flags])

end SorobanPulse.Streaming
