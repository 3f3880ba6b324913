import Mathlib

/-! The SSE replay buffer: the most recent `capacity` events, oldest first.

    A push evicts the oldest slot of a full buffer and appends the new one under a fresh id. -/

namespace SorobanPulse.Sse

/-- A UUID; `push` is given the fresh one it would draw. -/
abbrev Uuid := BitVec 128

structure Slot (Event : Type*) where
  id : Uuid
  event : Event

structure SseRingBuffer (Event : Type*) where
  inner : List (Slot Event)
  capacity : ℕ
  overflowCount : ℕ

variable {Event : Type*}

def SseRingBuffer.new (capacity : ℕ) : SseRingBuffer Event :=
  { inner := [], capacity, overflowCount := 0 }

def SseRingBuffer.push (buf : SseRingBuffer Event) (id : Uuid) (event : Event) :
    SseRingBuffer Event :=
  if buf.capacity ≤ buf.inner.length then
    { buf with inner := buf.inner.tail ++ [⟨id, event⟩], overflowCount := buf.overflowCount + 1 }
  else { buf with inner := buf.inner ++ [⟨id, event⟩] }

/-- The events in the buffer, oldest first. -/
def SseRingBuffer.events (buf : SseRingBuffer Event) : List Event := buf.inner.map (·.event)

/-- A push adds only the event it is given. -/
theorem SseRingBuffer.mem_push {buf : SseRingBuffer Event} {id : Uuid} {event e : Event}
    (h : e ∈ (buf.push id event).events) : e = event ∨ e ∈ buf.events := by
  have htail : ∀ slot ∈ buf.inner.tail, slot.event ∈ buf.events := by
    intro slot hslot
    exact List.mem_map_of_mem (List.mem_of_mem_tail hslot)
  obtain ⟨slot, hslot, rfl⟩ := List.mem_map.mp h
  unfold push at hslot
  split at hslot <;> rcases List.mem_append.mp hslot with hold | hnew
  · exact .inr (htail slot hold)
  · rw [List.mem_singleton.mp hnew]
    exact .inl rfl
  · exact .inr (List.mem_map_of_mem hold)
  · rw [List.mem_singleton.mp hnew]
    exact .inl rfl

end SorobanPulse.Sse
