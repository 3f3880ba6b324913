import SorobanPulse.JsonText
import SorobanPulse.Lib.Run

/-! A streamed JSON response: the task that serialises the rows, the bounded channel, and the body
    that the client reads.

        stream ──▶ buffer ──(buffer_size)──▶ channel ──(recv)──▶ body
                     [                          full: the producer parks
                     row , row , …              closed: it gives up
                     ]                          (at the end, or when it sees a cancellation)

    A row that cannot be serialised and an error of the stream are counted and skipped. The bytes are
    those of the identity encoding, in which a chunk is sent as it is. -/

namespace SorobanPulse.Streaming
open Lib

structure StreamingOptions where
  bufferSize : ℕ
  channelCapacity : ℕ

/-- A point-in-time copy of a stream's counters. -/
structure StreamingStats where
  itemsSent : UInt64
  chunksSent : UInt64
  bytesBeforeEncoding : UInt64
  bytesAfterEncoding : UInt64
  serializationErrors : UInt64
  databaseErrors : UInt64
  backpressureWaits : UInt64
  completed : Bool
  cancelled : Bool

def StreamingStats.errors (s : StreamingStats) : UInt64 := s.serializationErrors + s.databaseErrors

/-- Where the producer is: at the next item, waiting for room for a chunk (the last one or another),
    or done. -/
inductive Phase where
  | pulling
  | parked (chunk : List Char) (last : Bool)
  | returned
  deriving DecidableEq

/-- The producer, the channel and the client. `taken` are the items that were gone through, and
    `noticed` says that the producer has seen that the caller cancelled. -/
structure Response (T : Type) where
  items : List (Except String T)
  first : Bool
  buffer : List Char
  phase : Phase
  queue : List (List Char)
  closed : Bool
  cancel : Bool
  stats : StreamingStats
  received : List (List Char)
  taken : List (Except String T)
  noticed : Bool

def Response.start {T : Type} (items : List (Except String T)) : Response T :=
  ⟨items, true, ['['], .pulling, [], false, false, ⟨0, 0, 0, 0, 0, 0, 0, false, false⟩, [], [], false⟩

/-- `Vec::len` of the text's bytes. -/
def byteLen (text : List Char) : ℕ := (text.map Char.utf8Size).sum

/-- `serde_json::to_vec`: the text of the value that a row serialises to. -/
def serdeToVec {T : Type} (double : UInt64 → String) (serialize : T → Except String Value) (row : T) :
    Except String (List Char) :=
  (serialize row).map (jsonChars double)

variable {T : Type} (toVec : T → Except String (List Char)) (options : StreamingOptions)

/-- A chunk is in the channel. -/
def sent (chunk : List Char) (r : Response T) : Response T :=
  { r with
    queue := r.queue ++ [chunk]
    stats := { r.stats with
      bytesBeforeEncoding := r.stats.bytesBeforeEncoding + UInt64.ofNat (byteLen chunk)
      bytesAfterEncoding := r.stats.bytesAfterEncoding + UInt64.ofNat (byteLen chunk)
      chunksSent := r.stats.chunksSent + 1 } }

/-- How the producer goes on after a flush. -/
def flushed (last delivered : Bool) (r : Response T) : Response T :=
  if last then { r with phase := .returned, stats := { r.stats with completed := true } }
  else if delivered then { r with phase := .pulling }
  else { r with phase := .returned, stats := { r.stats with cancelled := true } }

/-- `flush!()`, with `send_chunk` as far as it comes without waiting. -/
def flush (last : Bool) (r : Response T) : Response T :=
  if r.buffer.isEmpty then flushed last true r
  else
    let chunk := r.buffer
    let r := { r with buffer := [] }
    if r.closed then flushed last false r
    else if r.queue.length < options.channelCapacity then flushed last true (sent chunk r)
    else
      { r with
        phase := .parked chunk last
        stats := { r.stats with backpressureWaits := r.stats.backpressureWaits + 1 } }

/-- The closing bracket, and the last flush. -/
def finish (r : Response T) : Response T := flush options true { r with buffer := r.buffer ++ [']'] }

/-- A row's text in the buffer, after a comma unless it is the first. -/
def append (json : List Char) (r : Response T) : Response T :=
  { r with
    buffer := if r.first then r.buffer ++ json else r.buffer ++ ',' :: json
    first := false
    stats := { r.stats with itemsSent := r.stats.itemsSent + 1 } }

/-- An item that was not cancelled. -/
def pull (item : Except String T) (r : Response T) : Response T :=
  let r := { r with taken := r.taken ++ [item] }
  match item with
  | .ok row =>
    match toVec row with
    | .ok json =>
      let r := append json r
      if byteLen r.buffer ≥ options.bufferSize then flush options false r else r
    | .error _ =>
      { r with stats := { r.stats with serializationErrors := r.stats.serializationErrors + 1 } }
  | .error _ => { r with stats := { r.stats with databaseErrors := r.stats.databaseErrors + 1 } }

/-- The stream yields its next item, or ends. -/
def next (r : Response T) : Response T :=
  match r.items with
  | [] => finish options r
  | item :: rest =>
    let r := { r with items := rest }
    if r.cancel then
      finish options { r with noticed := true, stats := { r.stats with cancelled := true } }
    else pull toVec options item r

/-- What the parties do: the producer goes on, or finds room (or the channel closed); the client reads
    a chunk or goes away; the caller cancels. -/
inductive Act where
  | next | resume | recv | drop | cancel
  deriving DecidableEq

def step (r : Response T) : Act → Option (Response T)
  | .next => if r.phase = .pulling then some (next toVec options r) else none
  | .resume =>
    match r.phase with
    | .parked chunk last =>
      if r.closed then some (flushed last false r)
      else if r.queue.length < options.channelCapacity then some (flushed last true (sent chunk r))
      else none
    | _ => none
  | .recv =>
    match r.queue with
    | chunk :: rest => some { r with queue := rest, received := r.received ++ [chunk] }
    | [] => none
  | .drop => some { r with closed := true, queue := [] }
  | .cancel => some { r with cancel := true }

/-- What the client has read. -/
def Response.body (r : Response T) : List Char := r.received.flatten

end SorobanPulse.Streaming
