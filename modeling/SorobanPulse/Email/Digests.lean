import Mathlib.Data.List.Perm.Basic
import SorobanPulse.Email.Schedule
import SorobanPulse.Ingest.SorobanEvent
import SorobanPulse.Lib.Run

/-! The loop of the email notifier: events are buffered, ticks flush the buffer.

        recv ──▶ critical?  ──yes──▶ sent          tick ──▶ due and not in quiet hours ──▶ sent
                     └──no──▶ buffer                  └──▶ otherwise the buffer waits

    No event is dropped. But a tick that comes too late for its instant, after the second of a cron
    expression or after the midnight that follows a daily one, leaves the digest for the next. -/

namespace SorobanPulse.Email
open Lib

/-- Bounds in minutes since midnight. -/
structure QuietHours where
  startMin : ℕ
  endMin : ℕ

/-- The window may wrap past midnight. -/
def QuietHours.contains (q : QuietHours) (now : ℤ) : Bool :=
  let minuteOfDay := hourOf now * 60 + minuteOf now
  if q.startMin < q.endMin then
    decide (minuteOfDay ≥ q.startMin) && decide (minuteOfDay < q.endMin)
  else
    decide (minuteOfDay ≥ q.startMin) || decide (minuteOfDay < q.endMin)

structure EmailNotifier where
  contractFilter : List String
  schedule : Schedule
  quietHours : Option QuietHours
  /-- By the rules that the notifier was built with. -/
  evaluatePriority : Ingest.SorobanEvent → String

/-- The variables of the loop and, for the record, what it sent and when it last ticked. -/
structure LoopState where
  eventsBuffer : List Ingest.SorobanEvent := []
  lastSent : ℤ
  lastTick : ℤ
  running : Bool := true
  sent : List Ingest.SorobanEvent := []

inductive LoopAction where
  | tick (now : ℤ)
  | recv (event : Ingest.SorobanEvent)
  /-- The channel dropped `n` events before the notifier saw them. -/
  | lagged (n : ℕ)
  | closed

/-- The state in which `spawn` enters the loop. -/
def spawn (now : ℤ) : LoopState where
  lastSent := now
  lastTick := now

section
variable (cal : Calendar) (notifier : EmailNotifier)

def EmailNotifier.quiet (now : ℤ) : Bool := notifier.quietHours.any (·.contains now)

def LoopState.tick (now : ℤ) (s : LoopState) : LoopState :=
  if s.eventsBuffer.isEmpty || !notifier.schedule.isDue cal now s.lastSent then s
  else if notifier.quiet now then s
  else { s with sent := s.sent ++ s.eventsBuffer, eventsBuffer := [], lastSent := now }

def EmailNotifier.accepts (event : Ingest.SorobanEvent) : Bool :=
  notifier.contractFilter.isEmpty || notifier.contractFilter.contains event.contractId

def LoopState.recv (event : Ingest.SorobanEvent) (s : LoopState) : LoopState :=
  if !notifier.accepts event then s
  else if notifier.evaluatePriority event = "critical" then { s with sent := s.sent ++ [event] }
  else { s with eventsBuffer := s.eventsBuffer ++ [event] }

/-- Ticks are at most 60 seconds apart. -/
def LoopState.step (s : LoopState) (action : LoopAction) : Option LoopState :=
  if !s.running then none
  else match action with
    | .tick now =>
      if s.lastTick ≤ now ∧ now ≤ s.lastTick + 60 * SECOND then
        some { s.tick cal notifier now with lastTick := now }
      else none
    | .recv event => some (s.recv notifier event)
    | .lagged _ => some s
    | .closed => some { s with sent := s.sent ++ s.eventsBuffer, eventsBuffer := [], running := false }

/-- What an action brings the notifier. -/
def EmailNotifier.accepted : LoopAction → Option Ingest.SorobanEvent
  | .recv event => if notifier.accepts event then some event else none
  | _ => none

/-- A tick outside quiet hours sends the buffer when a scheduled instant has passed since the last
    flush. -/
def Timely (s : LoopState) : LoopAction → Prop
  | .tick now => notifier.quiet now = false → notifier.schedule.Passed cal now s.lastSent →
    (s.tick cal notifier now).eventsBuffer = [] ∧
      (s.tick cal notifier now).sent = s.sent ++ s.eventsBuffer
  | _ => True

/-- A tick outside quiet hours, with events in the buffer, overlooks no scheduled instant. -/
def InSight (s : LoopState) : LoopAction → Prop
  | .tick now => notifier.quiet now = false → s.eventsBuffer ≠ [] →
    ¬notifier.schedule.Overlooks cal now s.lastSent
  | _ => True

end

section
variable {cal : Calendar} {notifier : EmailNotifier} {s t : LoopState} {now start : ℤ}
  {action : LoopAction}

/-! ### One tick -/

theorem tick_of_empty (h : s.eventsBuffer = []) : s.tick cal notifier now = s := by
  simp [LoopState.tick, h]

theorem tick_of_not_due (h : notifier.schedule.isDue cal now s.lastSent = false) :
    s.tick cal notifier now = s := by
  simp [LoopState.tick, h]

theorem tick_of_due (hne : s.eventsBuffer ≠ [])
    (h : notifier.schedule.isDue cal now s.lastSent = true) (hquiet : notifier.quiet now = false) :
    s.tick cal notifier now =
      { s with sent := s.sent ++ s.eventsBuffer, eventsBuffer := [], lastSent := now } := by
  simp [LoopState.tick, hne, h, hquiet]

/-- A tick outside quiet hours is in time exactly if it finds an empty buffer or overlooks nothing. -/
theorem timely_iff_inSight : Timely cal notifier s action ↔ InSight cal notifier s action := by
  cases action with
  | recv _ | lagged _ | closed => exact Iff.rfl
  | tick now =>
    refine imp_congr_right fun hquiet => ?_
    by_cases hempty : s.eventsBuffer = []
    · rw [tick_of_empty hempty]
      exact iff_of_true (fun _ => ⟨hempty, by rw [hempty, List.append_nil]⟩) fun h => absurd hempty h
    rw [← isDue_of_passed_iff]
    constructor
    · intro htimely _ hpassed
      cases hdue : notifier.schedule.isDue cal now s.lastSent with
      | true => rfl
      | false =>
        have hbuffer := (htimely hpassed).1
        rw [tick_of_not_due hdue] at hbuffer
        exact absurd hbuffer hempty
    · intro hsight hpassed
      rw [tick_of_due hempty (hsight hempty hpassed) hquiet]
      exact ⟨rfl, rfl⟩

/-! ### Nothing is lost -/

theorem perm_tick :
    ((s.tick cal notifier now).sent ++ (s.tick cal notifier now).eventsBuffer).Perm
      (s.sent ++ s.eventsBuffer) := by
  unfold LoopState.tick
  split
  · exact .refl _
  · split
    · exact .refl _
    · rw [List.append_nil]

theorem perm_recv (event : Ingest.SorobanEvent) :
    ((s.recv notifier event).sent ++ (s.recv notifier event).eventsBuffer).Perm
      (s.sent ++ s.eventsBuffer ++ (notifier.accepted (.recv event)).toList) := by
  simp only [LoopState.recv, EmailNotifier.accepted]
  cases notifier.accepts event with
  | false => simp
  | true =>
    by_cases hcritical : notifier.evaluatePriority event = "critical"
    · simp only [Bool.not_true, Bool.false_eq_true, if_false, if_pos hcritical, if_true,
        Option.toList_some]
      rw [List.append_assoc, List.append_assoc]
      exact List.perm_append_comm.append_left s.sent
    · simp [hcritical]

/-- What a step accepts is sent or in the buffer after it. -/
theorem perm_step (h : s.step cal notifier action = some t) :
    (t.sent ++ t.eventsBuffer).Perm
      (s.sent ++ s.eventsBuffer ++ (notifier.accepted action).toList) := by
  unfold LoopState.step at h
  split at h
  · cases h
  cases action with
  | tick now =>
    simp only at h
    split at h
    · cases h
      simpa [EmailNotifier.accepted] using perm_tick
    · cases h
  | recv event =>
    cases h
    exact perm_recv event
  | lagged n =>
    cases h
    simp [EmailNotifier.accepted]
  | closed =>
    cases h
    simp [EmailNotifier.accepted]

theorem perm_run {actions : List LoopAction}
    (hrun : AnyRun (LoopState.step cal notifier) s actions t) :
    (t.sent ++ t.eventsBuffer).Perm
      (s.sent ++ s.eventsBuffer ++ actions.filterMap notifier.accepted) := by
  induction hrun with
  | nil s => simp
  | @cons s t u action actions _ hs _ ih =>
    refine ih.trans (((perm_step hs).append_right _).trans ?_)
    rw [List.append_assoc]
    cases h : notifier.accepted action <;> simp [h]

/-! ### Digests -/

/-- The day of an era of 400 years. -/
def dayOfEra (date : ℤ) : ℤ := (date + 719468) % 146097

/-- Only the last century of an era has its leap day in the end. -/
def centuryOfEra (date : ℤ) : ℤ := min (dayOfEra date / 36524) 3

def dayOfCentury (date : ℤ) : ℤ := dayOfEra date - centuryOfEra date * 36524

/-- Of four years, the last one has 366 days. -/
def yearOfFour (date : ℤ) : ℤ := min (dayOfCentury date % 1461 / 365) 3

/-- The day of a year that starts in March. -/
def dayOfYear (date : ℤ) : ℤ := dayOfCentury date % 1461 - yearOfFour date * 365

/-- The month, from March on, which is 0. -/
def monthOfYear (date : ℤ) : ℤ := (5 * dayOfYear date + 2) / 153

theorem dayOfYear_bounds (date : ℤ) : 0 ≤ dayOfYear date ∧ dayOfYear date ≤ 365 := by
  unfold dayOfYear yearOfFour
  omega

/-- The calendar after 1970-01-01, a Thursday. -/
def gregorian : Calendar where
  day date := (dayOfYear date - (153 * monthOfYear date + 2) / 5 + 1).toNat
  month date := (if monthOfYear date < 10 then monthOfYear date + 3 else monthOfYear date - 9).toNat
  year date :=
    ((date + 719468) / 146097 * 400 + centuryOfEra date * 100 + dayOfCentury date / 1461 * 4 +
      yearOfFour date + if monthOfYear date < 10 then 0 else 1).toNat
  numDaysFromMonday date := ((date + 3) % 7).toNat
  day_bounds date := by
    have hday := dayOfYear_bounds date
    unfold monthOfYear
    omega
  month_bounds date := by
    have hday := dayOfYear_bounds date
    unfold monthOfYear
    split <;> omega

/-- A digest at the top of every hour. -/
def topOfTheHour : EmailNotifier where
  contractFilter := []
  schedule := .CustomCron "0 0 * * * *"
  quietHours := none
  evaluatePriority _ := "medium"

/-- 2026-06-25T09:00:00Z. -/
def nineOClock : ℤ := 1782378000 * SECOND

def anEvent : Ingest.SorobanEvent where
  contractId := "C"
  eventType := "contract"
  txHash := "ab"
  ledger := 1
  ledgerClosedAt := "2026-06-25T08:59:45Z"
  value := .null

theorem passed_topOfTheHour : topOfTheHour.schedule.Passed gregorian (nineOClock + 30 * SECOND)
    (nineOClock - 30 * SECOND) := by
  exact ⟨nineOClock, ⟨by decide, by decide⟩, by decide, by decide⟩

theorem not_due_topOfTheHour : topOfTheHour.schedule.isDue gregorian (nineOClock + 30 * SECOND)
    (nineOClock - 30 * SECOND) = false := by
  decide

end

end SorobanPulse.Email
