import SorobanPulse.Ingest.Checkpoint

/-! The events of the network, as `getEvents` pages through them.

        events    e₀ e₁ e₂ │ e₃ e₄ e₅ e₆ │ e₇ …
                           ▲             ▲
              before startLedger     upTo latestLedger

    The server holds the events in the order of their ledgers and names the positions between them
    by cursors. An answer begins at the cursor it was asked for, or else at the first event of the
    start ledger; it stays below the latest ledger it reports; the cursor it returns is the position
    after its last event, and it returns none once it has reached the latest ledger. -/

namespace SorobanPulse.Rpc
open Ingest

structure EventServer where
  events : List SorobanEvent
  cursorText : ℕ → String
  ordered : events.Pairwise (·.ledger ≤ ·.ledger)
  cursorText_injective : Function.Injective cursorText

/-- The position of the first event from this ledger on. -/
def EventServer.before (server : EventServer) (ledger : UInt64) : ℕ :=
  server.events.countP (·.ledger < ledger)

/-- The position after the last event up to this ledger. -/
def EventServer.upTo (server : EventServer) (ledger : UInt64) : ℕ :=
  server.events.countP (·.ledger ≤ ledger)

/-- Where an answer begins. -/
def EventServer.Begins (server : EventServer) (startLedger : UInt64) (cursor : Option String)
    (position : ℕ) : Prop :=
  match cursor with
  | some c => c = server.cursorText position
  | none => position = server.before startLedger

/-- An answer that begins at a position. -/
structure EventServer.AnswersAt (server : EventServer) (position : ℕ) (result : GetEventsResult) :
    Prop where
  events : result.events <+: server.events.drop position
  visible : result.events = [] ∨
    position + result.events.length ≤ server.upTo result.latestLedger
  next : ∀ c ∈ result.rpcCursor, c = server.cursorText (position + result.events.length)
  last : result.rpcCursor = none →
    server.upTo result.latestLedger ≤ position + result.events.length

def EventServer.Answers (server : EventServer) (startLedger : UInt64) (cursor : Option String)
    (result : GetEventsResult) : Prop :=
  ∃ position, server.Begins startLedger cursor position ∧ server.AnswersAt position result

/-! ### Positions and ledgers -/

section
variable {server : EventServer} {event : SorobanEvent} {ledger : UInt64}

/-- In an ordered list the elements below a downward closed bound come first. -/
theorem take_countP_of_ordered {events : List SorobanEvent} {below : SorobanEvent → Bool}
    (hordered : events.Pairwise (·.ledger ≤ ·.ledger))
    (hdown : ∀ a b : SorobanEvent, a.ledger ≤ b.ledger → below b = true → below a = true) :
    events.take (events.countP below) = events.filter below := by
  induction events with
  | nil => rfl
  | cons a as ih =>
    obtain ⟨ha, has⟩ := List.pairwise_cons.mp hordered
    cases hbelow : below a with
    | true => simp [hbelow, ih has]
    | false =>
      have hnone : ∀ b ∈ as, ¬ below b = true := by
        intro b hb hbelow'
        rw [hdown a b (ha b hb) hbelow'] at hbelow
        cases hbelow
      simp [hbelow, List.countP_eq_zero.mpr hnone, List.filter_eq_nil_iff.mpr hnone]

/-- And the others come after them. -/
theorem drop_countP_of_ordered {events : List SorobanEvent} {below : SorobanEvent → Bool}
    (hordered : events.Pairwise (·.ledger ≤ ·.ledger))
    (hdown : ∀ a b : SorobanEvent, a.ledger ≤ b.ledger → below b = true → below a = true) :
    events.drop (events.countP below) = events.filter fun event => !below event := by
  induction events with
  | nil => rfl
  | cons a as ih =>
    obtain ⟨ha, has⟩ := List.pairwise_cons.mp hordered
    cases hbelow : below a with
    | true => simp [hbelow, ih has]
    | false =>
      have hnone : ∀ b ∈ as, below b = false := by
        intro b hb
        by_contra hbelow'
        rw [hdown a b (ha b hb) (by simpa using hbelow')] at hbelow
        cases hbelow
      have hcount : as.countP below = 0 := List.countP_eq_zero.mpr (by simpa using hnone)
      have hall : as.filter (fun event => !below event) = as :=
        List.filter_eq_self.mpr (by simpa using hnone)
      simp [hbelow, hcount, hall]

@[simp] theorem mem_take_before :
    event ∈ server.events.take (server.before ledger) ↔
      event ∈ server.events ∧ event.ledger < ledger := by
  rw [EventServer.before, take_countP_of_ordered server.ordered]
  · simp
  · intro a b hab hb
    simp only [decide_eq_true_eq] at hb ⊢
    exact UInt64.lt_of_le_of_lt hab hb

@[simp] theorem mem_drop_before :
    event ∈ server.events.drop (server.before ledger) ↔
      event ∈ server.events ∧ ledger ≤ event.ledger := by
  rw [EventServer.before, drop_countP_of_ordered server.ordered]
  · simp
  · intro a b hab hb
    simp only [decide_eq_true_eq] at hb ⊢
    exact UInt64.lt_of_le_of_lt hab hb

@[simp] theorem mem_take_upTo :
    event ∈ server.events.take (server.upTo ledger) ↔
      event ∈ server.events ∧ event.ledger ≤ ledger := by
  rw [EventServer.upTo, take_countP_of_ordered server.ordered]
  · simp
  · intro a b hab hb
    simp only [decide_eq_true_eq] at hb ⊢
    exact UInt64.le_trans hab hb

/-- The ledgers before the next one are those up to this one; `latest + 1` may wrap to zero. -/
theorem before_succ_le : server.before (ledger + 1) ≤ server.upTo ledger := by
  refine List.countP_mono_left ?_
  intro event _ hlt
  simp only [decide_eq_true_eq, UInt64.lt_iff_toNat_lt, UInt64.le_iff_toNat_le,
    UInt64.toNat_add] at hlt ⊢
  have hone : (1 : UInt64).toNat = 1 := rfl
  have hmod := Nat.mod_le (ledger.toNat + (1 : UInt64).toNat) (2 ^ 64)
  omega

/-- The events before the end of an answer are those before its beginning and its own. -/
theorem EventServer.AnswersAt.take {position : ℕ} {result : GetEventsResult}
    (h : server.AnswersAt position result) :
    server.events.take (position + result.events.length) ⊆
      server.events.take position ++ result.events := by
  obtain ⟨rest, hrest⟩ := h.events
  rw [List.take_add, ← hrest, List.take_left]
  exact List.Subset.refl _

/-- An answer stays below its latest ledger. -/
theorem EventServer.AnswersAt.le_latest {position : ℕ} {result : GetEventsResult}
    (h : server.AnswersAt position result) (hevent : event ∈ result.events) :
    event.ledger ≤ result.latestLedger := by
  rcases h.visible with hnil | hle
  · rw [hnil] at hevent
    cases hevent
  · refine (mem_take_upTo.mp (?_ : event ∈ server.events.take _)).2
    obtain ⟨rest, hrest⟩ := h.events
    refine List.take_subset_take_left _ hle ?_
    rw [List.take_add, ← hrest, List.take_left]
    exact List.mem_append_right _ hevent

/-- One that begins at a ledger is of events from there on. -/
theorem EventServer.AnswersAt.start_le {result : GetEventsResult}
    (h : server.AnswersAt (server.before ledger) result) (hevent : event ∈ result.events) :
    ledger ≤ event.ledger :=
  (mem_drop_before.mp (h.events.subset hevent)).2

theorem EventServer.AnswersAt.subset {position : ℕ} {result : GetEventsResult}
    (h : server.AnswersAt position result) : result.events ⊆ server.events :=
  fun _ hevent => List.mem_of_mem_drop (h.events.subset hevent)

end

/-! ### A server -/

/-- One event, in ledger 100. -/
def sampleServer : EventServer where
  events := [sampleEvent]
  cursorText := fun position => String.ofList (List.replicate position '0')
  ordered := by simp
  cursorText_injective := by
    intro m n h
    have hlength := congrArg (fun text : String => text.toList.length) h
    simpa using hlength

def sampleAnswer : GetEventsResult where
  events := [sampleEvent]
  latestLedger := 101
  rpcCursor := none

theorem sampleAnswer_answersAt : sampleServer.AnswersAt 0 sampleAnswer :=
  ⟨List.prefix_rfl, .inr (by decide), by rintro _ ⟨⟩, fun _ => by decide⟩

end SorobanPulse.Rpc
