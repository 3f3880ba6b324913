import SorobanPulse.Streaming.StreamingResponse

/-! Where the text of a streamed response is.

        read ++ in the channel ++ parked or buffered  =  [ row , row , …        while items are pulled
                                                      =  [ row , … , row ]      once it is closed

    A flush moves text and changes none, and so do the client and the caller. When the client goes
    away, what it has read is a beginning of what is written from then on. -/

namespace SorobanPulse.Streaming
open Lib

/-! ### Bodies -/

/-- An array without its closing bracket. -/
def openText (rows : List (List Char)) : List Char := '[' :: [','].intercalate rows

def arrayText (rows : List (List Char)) : List Char := openText rows ++ [']']

theorem intercalate_concat (row : List Char) : ∀ {rows : List (List Char)}, rows ≠ [] →
    [','].intercalate (rows ++ [row]) = [','].intercalate rows ++ ',' :: row
  | [], h => absurd rfl h
  | [first], _ => by simp
  | first :: second :: rest, _ => by
    have ih := intercalate_concat row (List.cons_ne_nil second rest)
    rw [List.cons_append, List.cons_append, List.intercalate_cons_cons, List.intercalate_cons_cons,
      ← List.cons_append, ih, List.append_assoc _ _ (',' :: row)]

/-- One more row, with a comma unless it is the first. -/
theorem openText_concat (rows : List (List Char)) (row : List Char) :
    openText (rows ++ [row]) =
      if rows.isEmpty then openText rows ++ row else openText rows ++ ',' :: row := by
  cases rows with
  | nil => simp [openText]
  | cons first rest =>
    rw [openText, intercalate_concat row (List.cons_ne_nil first rest)]
    rfl

theorem openText_prefix (rows more : List (List Char)) : openText rows <+: openText (rows ++ more) := by
  induction more using List.reverseRecOn with
  | nil => rw [List.append_nil]
  | append_singleton more row ih =>
    refine ih.trans ?_
    rw [← List.append_assoc, openText_concat]
    split
    · exact List.prefix_append _ _
    · exact List.prefix_append _ _

section
variable {T : Type} (toVec : T → Except String (List Char))

/-- The text of an item, if it is a row that can be serialised. -/
def json? : Except String T → Option (List Char)
  | .ok row => (toVec row).toOption
  | .error _ => none

def rowTexts (items : List (Except String T)) : List (List Char) := items.filterMap (json? toVec)

theorem rowTexts_concat_ok {row : T} {json : List Char} (h : toVec row = .ok json)
    (items : List (Except String T)) :
    rowTexts toVec (items ++ [.ok row]) = rowTexts toVec items ++ [json] := by
  simp [rowTexts, json?, h, Except.toOption]

/-- What cannot be serialised, and errors, leave no trace. -/
theorem rowTexts_concat_skipped {item : Except String T} (h : json? toVec item = none)
    (items : List (Except String T)) :
    rowTexts toVec (items ++ [item]) = rowTexts toVec items := by
  simp [rowTexts, h]

/-- The items that leave no trace. -/
def skipped (items : List (Except String T)) : ℕ := items.countP fun item => (json? toVec item).isNone

theorem skipped_concat (items : List (Except String T)) (item : Except String T) :
    skipped toVec (items ++ [item]) =
      skipped toVec items + if (json? toVec item).isNone then 1 else 0 := by
  rw [skipped, skipped, List.countP_append, List.countP_singleton]

/-! ### What has been written -/

/-- The closing bracket is written. -/
def Response.bracketed (r : Response T) : Bool :=
  match r.phase with
  | .pulling => false
  | .parked _ last => last
  | .returned => r.stats.completed

/-- What the producer has written. -/
def Response.written (r : Response T) : List Char :=
  if r.bracketed then arrayText (rowTexts toVec r.taken) else openText (rowTexts toVec r.taken)

/-- What is not yet in the channel. -/
def Response.pending (r : Response T) : List Char :=
  match r.phase with
  | .parked chunk _ => chunk
  | _ => r.buffer

/-- The text `w` is on its way: what the client has read, what is in the channel, and what is not
    there yet; of a closed channel, what the client has read. -/
structure Carries (r : Response T) (w : List Char) : Prop where
  whole : r.closed = false → r.body ++ (r.queue.flatten ++ r.pending) = w
  left : r.body <+: w
  dropped : r.closed = true → r.queue = []
  parked : r.phase ≠ .pulling → r.buffer = []

/-- Everything but the buffer, the channel and what follows from a flush. -/
structure SameBut (r r' : Response T) : Prop where
  items : r'.items = r.items
  first : r'.first = r.first
  taken : r'.taken = r.taken
  noticed : r'.noticed = r.noticed
  closed : r'.closed = r.closed
  received : r'.received = r.received
  errors : r'.stats.errors = r.stats.errors
  cancelled : r.stats.cancelled = true → r'.stats.cancelled = true

variable (options : StreamingOptions)

/-- What a flush can come to. -/
inductive Flushes (last : Bool) (r : Response T) : Response T → Prop
  | empty : r.buffer = [] → Flushes last r (flushed last true r)
  | gone : r.closed = true → Flushes last r (flushed last false { r with buffer := [] })
  | room : r.closed = false →
      Flushes last r (flushed last true (sent r.buffer { r with buffer := [] }))
  | full : r.closed = false → Flushes last r { r with
      buffer := []
      phase := .parked r.buffer last
      stats := { r.stats with backpressureWaits := r.stats.backpressureWaits + 1 } }

theorem flushes (last : Bool) (r : Response T) : Flushes last r (flush options last r) := by
  rw [flush]
  split
  · next hempty => exact .empty (List.isEmpty_iff.1 hempty)
  dsimp only
  split
  · next hclosed => exact .gone hclosed
  next hopen =>
  rw [Bool.not_eq_true] at hopen
  split
  · exact .room hopen
  · exact .full hopen

theorem SameBut.refl (r : Response T) : SameBut r r := ⟨rfl, rfl, rfl, rfl, rfl, rfl, rfl, id⟩

theorem SameBut.flushed {r r' : Response T} (h : SameBut r r') (last delivered : Bool) :
    SameBut r (flushed last delivered r') := by
  obtain ⟨hitems, hfirst, htaken, hnoticed, hclosed, hreceived, herrors, hcancelled⟩ := h
  cases last with
  | true => exact ⟨hitems, hfirst, htaken, hnoticed, hclosed, hreceived, herrors, hcancelled⟩
  | false =>
    cases delivered with
    | true => exact ⟨hitems, hfirst, htaken, hnoticed, hclosed, hreceived, herrors, hcancelled⟩
    | false => exact ⟨hitems, hfirst, htaken, hnoticed, hclosed, hreceived, herrors, fun _ => rfl⟩

theorem sameBut_flush (last : Bool) (r : Response T) : SameBut r (flush options last r) := by
  have h := flushes options last r
  generalize flush options last r = r' at h ⊢
  cases h with
  | empty _ => exact (SameBut.refl r).flushed last true
  | gone _ =>
    have hsame : SameBut r { r with buffer := [] } := ⟨rfl, rfl, rfl, rfl, rfl, rfl, rfl, id⟩
    exact hsame.flushed last false
  | room _ =>
    have hsame : SameBut r (sent r.buffer { r with buffer := [] }) :=
      ⟨rfl, rfl, rfl, rfl, rfl, rfl, rfl, id⟩
    exact hsame.flushed last true
  | full _ => exact ⟨rfl, rfl, rfl, rfl, rfl, rfl, rfl, id⟩

theorem carries_flushed {r : Response T} {w : List Char} (last delivered : Bool)
    (hbuffer : r.buffer = []) (hwhole : r.closed = false → r.body ++ r.queue.flatten = w)
    (hleft : r.body <+: w) (hdropped : r.closed = true → r.queue = []) :
    Carries (flushed last delivered r) w := by
  have hsame := (SameBut.refl r).flushed last delivered
  have hbody : (flushed last delivered r).body = r.body := congrArg List.flatten hsame.received
  have hqueue : (flushed last delivered r).queue = r.queue := by
    cases last <;> cases delivered <;> rfl
  have hnil : (flushed last delivered r).buffer = [] := by
    cases last <;> cases delivered <;> exact hbuffer
  have hpending : (flushed last delivered r).pending = [] := by
    cases last <;> cases delivered <;> exact hbuffer
  rw [← hsame.closed] at hwhole hdropped
  rw [← hbody, ← hqueue] at hwhole
  rw [← hbody] at hleft
  rw [← hqueue] at hdropped
  refine ⟨fun h => ?_, hleft, hdropped, fun _ => hnil⟩
  rw [hpending, List.append_nil]
  exact hwhole h

theorem carries_sent {r : Response T} {chunk w : List Char} (last : Bool) (hopen : r.closed = false)
    (hbuffer : r.buffer = []) (hwhole : r.body ++ (r.queue.flatten ++ chunk) = w)
    (hleft : r.body <+: w) : Carries (flushed last true (sent chunk r)) w := by
  refine carries_flushed last true hbuffer (fun _ => ?_) hleft fun h => ?_
  · dsimp only [sent, Response.body] at hwhole ⊢
    rw [List.flatten_concat]
    exact hwhole
  · exact absurd (hopen.symm.trans h) Bool.false_ne_true

/-- A flush changes where the text is, not what it is. -/
theorem carries_flush {r : Response T} {w : List Char} (last : Bool)
    (hpulling : r.phase = .pulling) (h : Carries r w) : Carries (flush options last r) w := by
  obtain ⟨hwhole, hleft, hdropped, -⟩ := h
  rw [Response.pending, hpulling] at hwhole
  dsimp only at hwhole
  have h := flushes options last r
  generalize flush options last r = r' at h ⊢
  cases h with
  | empty hempty =>
    refine carries_flushed last true hempty (fun h => ?_) hleft hdropped
    rw [← hwhole h, hempty, List.append_nil]
  | gone hclosed =>
    refine carries_flushed last false rfl (fun h => ?_) hleft hdropped
    exact absurd (h.symm.trans hclosed) Bool.false_ne_true
  | room hopen => exact carries_sent last hopen rfl (hwhole hopen) hleft
  | full hopen => exact ⟨hwhole, hleft, hdropped, fun _ => rfl⟩

theorem bracketed_flushed {r : Response T} (last delivered : Bool)
    (h : last = false → r.stats.completed = false) :
    (flushed last delivered r).bracketed = last := by
  cases last with
  | true => rfl
  | false =>
    cases delivered with
    | true => rfl
    | false => exact h rfl

theorem bracketed_flush {r : Response T} (last : Bool) (hrun : r.stats.completed = false) :
    (flush options last r).bracketed = last := by
  have h := flushes options last r
  generalize flush options last r = r' at h ⊢
  cases h with
  | empty _ => exact bracketed_flushed last true fun _ => hrun
  | gone _ => exact bracketed_flushed last false fun _ => hrun
  | room _ => exact bracketed_flushed last true fun _ => hrun
  | full _ => rfl

theorem completed_flushed (delivered : Bool) (r : Response T) :
    (flushed false delivered r).stats.completed = r.stats.completed := by
  cases delivered <;> rfl

theorem completed_flush (r : Response T) :
    (flush options false r).stats.completed = r.stats.completed := by
  have h := flushes options false r
  generalize flush options false r = r' at h ⊢
  cases h with
  | empty _ => exact completed_flushed true r
  | gone _ => exact completed_flushed false { r with buffer := [] }
  | room _ => exact completed_flushed true (sent r.buffer { r with buffer := [] })
  | full _ => rfl

/-- The producer ends with the closing bracket, unless the client is gone. -/
def Response.Returns (r : Response T) : Prop :=
  r.phase = .returned → r.stats.completed = true ∨ r.closed = true

theorem returns_flushed {r : Response T} (last delivered : Bool)
    (h : delivered = false → r.closed = true) : (flushed last delivered r).Returns := by
  cases last with
  | true => exact fun _ => .inl rfl
  | false =>
    cases delivered with
    | true => exact fun h => (by cases h)
    | false => exact fun _ => .inr (h rfl)

theorem returns_flush (last : Bool) (r : Response T) : (flush options last r).Returns := by
  have h := flushes options last r
  generalize flush options last r = r' at h ⊢
  cases h with
  | empty _ => exact returns_flushed last true fun h => (by cases h)
  | gone hclosed => exact returns_flushed last false fun _ => hclosed
  | room _ => exact returns_flushed last true fun h => (by cases h)
  | full _ => exact fun h => (by cases h)

/-! ### What holds throughout -/

/-- A response of the stream `items₀`. -/
structure Flows (items₀ : List (Except String T)) (r : Response T) : Prop where
  carries : Carries r (r.written toVec)
  running : r.bracketed = false → r.stats.completed = false
  returns : r.Returns
  first : r.first = (rowTexts toVec r.taken).isEmpty
  source : r.noticed = false → r.taken ++ r.items = items₀
  cut : r.taken <+: items₀
  closing : r.bracketed = true → r.noticed = true ∨ r.items = []
  noticed : r.noticed = true → r.bracketed = true ∧ r.stats.cancelled = true
  counted : r.stats.errors = UInt64.ofNat (skipped toVec r.taken)

theorem flows_start (items : List (Except String T)) : Flows toVec items (.start items) where
  carries := ⟨fun _ => rfl, List.nil_prefix, fun h => (by cases h), fun h => absurd rfl h⟩
  running _ := rfl
  returns h := by cases h
  first := rfl
  source _ := rfl
  cut := List.nil_prefix
  closing h := by cases h
  noticed h := by cases h
  counted := rfl

variable {toVec options} {items₀ : List (Except String T)} {r : Response T}

/-- Before the closing bracket, an item is still in the stream or gone through. -/
theorem Flows.pulling (h : Flows toVec items₀ r) (hphase : r.phase = .pulling) :
    r.written toVec = openText (rowTexts toVec r.taken) ∧ r.stats.completed = false ∧
      r.noticed = false := by
  have hopen : r.bracketed = false := by rw [Response.bracketed, hphase]
  refine ⟨?_, h.running hopen, ?_⟩
  · rw [Response.written, hopen]
    rfl
  · rw [← Bool.not_eq_true]
    intro hnoticed
    rw [(h.noticed hnoticed).1] at hopen
    cases hopen

/-- More text in the buffer. -/
theorem Carries.write {r' : Response T} {w w' more : List Char} (h : Carries r w)
    (hphase : r.phase = .pulling) (hphase' : r'.phase = .pulling) (hclosed : r'.closed = r.closed)
    (hreceived : r'.received = r.received) (hqueue : r'.queue = r.queue)
    (hbuffer : r'.buffer = r.buffer ++ more) (hw : w' = w ++ more) : Carries r' w' := by
  obtain ⟨hwhole, hleft, hdropped, -⟩ := h
  have hbody : r'.body = r.body := congrArg List.flatten hreceived
  refine ⟨fun hopen => ?_, ?_, ?_, fun hne => absurd hphase' hne⟩
  · rw [hclosed] at hopen
    have hwas := hwhole hopen
    rw [Response.pending, hphase] at hwas
    rw [Response.pending, hphase', hbody, hqueue, hw, ← hwas]
    dsimp only
    rw [hbuffer]
    simp only [List.append_assoc]
  · rw [hbody, hw]
    exact hleft.trans (List.prefix_append w more)
  · rw [hclosed, hqueue]
    exact hdropped

/-- A flush keeps everything, once the text is where it belongs. -/
theorem SameBut.flows {r' : Response T} {last : Bool} (hsame : SameBut r r')
    (hbracketed : r'.bracketed = last) (hrun : last = false → r'.stats.completed = false)
    (hreturns : r'.Returns)
    (hcarries : Carries r' (if last then arrayText (rowTexts toVec r.taken)
      else openText (rowTexts toVec r.taken)))
    (hfirst : r.first = (rowTexts toVec r.taken).isEmpty)
    (hsource : r.noticed = false → r.taken ++ r.items = items₀) (hcut : r.taken <+: items₀)
    (hclosing : last = true → r.noticed = true ∨ r.items = [])
    (hnoticed : r.noticed = true → last = true ∧ r.stats.cancelled = true)
    (hcounted : r.stats.errors = UInt64.ofNat (skipped toVec r.taken)) :
    Flows toVec items₀ r' := by
  refine ⟨?_, fun h => hrun (hbracketed.symm.trans h), hreturns, ?_, ?_, ?_, fun h => ?_,
    fun h => ?_, ?_⟩
  · rw [Response.written, hbracketed, hsame.taken]
    exact hcarries
  · rw [hsame.first, hsame.taken]
    exact hfirst
  · rw [hsame.noticed, hsame.taken, hsame.items]
    exact hsource
  · rw [hsame.taken]
    exact hcut
  · rw [hsame.noticed, hsame.items]
    exact hclosing (hbracketed.symm.trans h)
  · rw [hsame.noticed] at h
    exact ⟨hbracketed.trans (hnoticed h).1, hsame.cancelled (hnoticed h).2⟩
  · rw [hsame.errors, hsame.taken]
    exact hcounted

/-- A flush, with the closing bracket or without. -/
theorem flows_flush (last : Bool) (hphase : r.phase = .pulling)
    (hcarries : Carries r (if last then arrayText (rowTexts toVec r.taken)
      else openText (rowTexts toVec r.taken)))
    (hrun : r.stats.completed = false) (hfirst : r.first = (rowTexts toVec r.taken).isEmpty)
    (hsource : r.noticed = false → r.taken ++ r.items = items₀) (hcut : r.taken <+: items₀)
    (hclosing : last = true → r.noticed = true ∨ r.items = [])
    (hnoticed : r.noticed = true → last = true ∧ r.stats.cancelled = true)
    (hcounted : r.stats.errors = UInt64.ofNat (skipped toVec r.taken)) :
    Flows toVec items₀ (flush options last r) := by
  have hopen : last = false → (flush options last r).stats.completed = false := by
    rintro rfl
    exact (completed_flush options r).trans hrun
  exact (sameBut_flush options last r).flows (bracketed_flush options last hrun) hopen
    (returns_flush options last r) (carries_flush options last hphase hcarries) hfirst hsource hcut
    hclosing hnoticed hcounted

theorem flows_pulling (hphase : r.phase = .pulling)
    (hcarries : Carries r (openText (rowTexts toVec r.taken))) (hrun : r.stats.completed = false)
    (hfirst : r.first = (rowTexts toVec r.taken).isEmpty) (hnoticed : r.noticed = false)
    (hsource : r.taken ++ r.items = items₀)
    (hcounted : r.stats.errors = UInt64.ofNat (skipped toVec r.taken)) :
    Flows toVec items₀ r := by
  have hopen : r.bracketed = false := by rw [Response.bracketed, hphase]
  refine ⟨?_, fun _ => hrun, fun h => ?_, hfirst, fun _ => hsource, ⟨r.items, hsource⟩, fun h => ?_,
    fun h => ?_, hcounted⟩
  · rw [Response.written, hopen]
    exact hcarries
  · cases hphase.symm.trans h
  · cases hopen.symm.trans h
  · cases hnoticed.symm.trans h

/-- An item that is counted as an error and skipped. -/
theorem flows_skip {r' : Response T} (hphase' : r'.phase = .pulling) {item : Except String T}
    (htaken : r'.taken = r.taken ++ [item]) (hjson : json? toVec item = none)
    (hcarries : Carries r' (openText (rowTexts toVec r.taken)))
    (hrun : r'.stats.completed = false) (hfirst : r'.first = (rowTexts toVec r.taken).isEmpty)
    (hnoticed : r'.noticed = false) (hsource : r'.taken ++ r'.items = items₀)
    (hcounted : r.stats.errors = UInt64.ofNat (skipped toVec r.taken))
    (herrors : r'.stats.errors = r.stats.errors + 1) : Flows toVec items₀ r' := by
  have hrows : rowTexts toVec r'.taken = rowTexts toVec r.taken := by
    rw [htaken, rowTexts_concat_skipped toVec hjson]
  rw [← hrows] at hcarries hfirst
  refine flows_pulling hphase' hcarries hrun hfirst hnoticed hsource ?_
  rw [herrors, htaken, skipped_concat, hjson, hcounted, Option.isNone_none, if_pos rfl,
    UInt64.ofNat_add]
  rfl

theorem flows_pull (h : Flows toVec items₀ r) (hphase : r.phase = .pulling)
    {item : Except String T} {rest : List (Except String T)} (hitems : r.items = item :: rest) :
    Flows toVec items₀ (pull toVec options item { r with items := rest }) := by
  obtain ⟨hwritten, hrun, hnoticed⟩ := h.pulling hphase
  have hcarries := h.carries
  rw [hwritten] at hcarries
  have hsource : (r.taken ++ [item]) ++ rest = items₀ := by
    rw [List.append_assoc, List.singleton_append, ← hitems]
    exact h.source hnoticed
  rw [pull.eq_def]
  dsimp only
  split
  · next row =>
    split
    · -- the row's text is behind those that were written before
      next json hjson =>
      have hrows := rowTexts_concat_ok toVec hjson r.taken
      have hsome : json? toVec (.ok row) = some json := by
        rw [json?, hjson]
        rfl
      have hcounted : r.stats.errors = UInt64.ofNat (skipped toVec (r.taken ++ [.ok row])) := by
        rw [skipped_concat, hsome, h.counted]
        rfl
      have hfirst : false = (rowTexts toVec (r.taken ++ [.ok row])).isEmpty := by
        rw [hrows, List.isEmpty_eq_false_iff.2 (List.concat_ne_nil _ _)]
      have hwrite : Carries (append json { r with items := rest, taken := r.taken ++ [.ok row] })
          (openText (rowTexts toVec (r.taken ++ [.ok row]))) := by
        rw [hrows, openText_concat, ← h.first]
        rw [append]
        dsimp only
        cases r.first with
        | true => exact hcarries.write hphase hphase rfl rfl rfl rfl rfl
        | false => exact hcarries.write hphase hphase rfl rfl rfl rfl rfl
      split  -- the buffer is full and is flushed, or the loop goes on
      · exact flows_flush false hphase hwrite hrun hfirst (fun _ => hsource) ⟨rest, hsource⟩
          (fun hlast => Bool.noConfusion hlast)
          (fun hn => absurd (hnoticed.symm.trans hn) Bool.false_ne_true) hcounted
      · exact flows_pulling hphase hwrite hrun hfirst hnoticed hsource hcounted
    · -- a row that does not serialize is left out and counted
      next e hjson =>
      have hnone : json? toVec (.ok row) = none := by
        rw [json?, hjson]
        rfl
      refine flows_skip (r := r) hphase rfl hnone ?_ hrun h.first hnoticed hsource h.counted ?_
      · exact ⟨hcarries.whole, hcarries.left, hcarries.dropped, hcarries.parked⟩
      · simp only [StreamingStats.errors]
        rw [UInt64.add_assoc, UInt64.add_comm 1, ← UInt64.add_assoc]
  · -- so is an error of the database
    next e =>
    refine flows_skip (r := r) hphase rfl rfl ?_ hrun h.first hnoticed hsource h.counted ?_
    · exact ⟨hcarries.whole, hcarries.left, hcarries.dropped, hcarries.parked⟩
    · exact (UInt64.add_assoc ..).symm

theorem flows_next (h : Flows toVec items₀ r) (hphase : r.phase = .pulling) :
    Flows toVec items₀ (next toVec options r) := by
  obtain ⟨hwritten, hrun, hnoticed⟩ := h.pulling hphase
  have hcarries := h.carries
  rw [hwritten] at hcarries
  rw [next]
  split
  · next hitems =>
    refine flows_flush true hphase ?_ hrun h.first h.source h.cut (fun _ => .inr hitems)
      (fun hn => ⟨rfl, (h.noticed hn).2⟩) h.counted
    exact hcarries.write hphase hphase rfl rfl rfl rfl rfl
  next item rest hitems =>
  dsimp only
  split
  · refine flows_flush true hphase ?_ hrun h.first (fun hn => Bool.noConfusion hn) h.cut
      (fun _ => .inl rfl) (fun _ => ⟨rfl, rfl⟩) h.counted
    exact hcarries.write hphase hphase rfl rfl rfl rfl rfl
  · exact flows_pull h hphase hitems

/-- A parked producer that goes on: with its chunk in the channel, or without a client. -/
theorem flows_flushed {r' : Response T} {last delivered : Bool} (h : Flows toVec items₀ r)
    (hbracketed : r.bracketed = last) (hsame : SameBut r r')
    (hcompleted : r'.stats.completed = r.stats.completed) (hgone : delivered = false → r.closed = true)
    (hcarries : Carries (flushed last delivered r') (r.written toVec)) :
    Flows toVec items₀ (flushed last delivered r') := by
  have hrun : last = false → r'.stats.completed = false := fun hlast =>
    hcompleted.trans (h.running (hbracketed.trans hlast))
  have hopen : last = false → (flushed last delivered r').stats.completed = false := by
    rintro rfl
    exact (completed_flushed delivered r').trans (hrun rfl)
  rw [Response.written, hbracketed] at hcarries
  exact (hsame.flushed last delivered).flows (bracketed_flushed last delivered hrun) hopen
    (returns_flushed last delivered fun hd => hsame.closed.trans (hgone hd)) hcarries h.first
    h.source h.cut (fun hlast => h.closing (hbracketed.trans hlast))
    (fun hn => ⟨hbracketed.symm.trans (h.noticed hn).1, (h.noticed hn).2⟩) h.counted

theorem flows_resume {chunk : List Char} {last : Bool} {r' : Response T} (h : Flows toVec items₀ r)
    (hphase : r.phase = .parked chunk last)
    (hs : step toVec options r .resume = some r') : Flows toVec items₀ r' := by
  obtain ⟨hwhole, hleft, hdropped, hparked⟩ := h.carries
  have hbuffer : r.buffer = [] := hparked (by rw [hphase]; exact Phase.noConfusion)
  have hbracketed : r.bracketed = last := by rw [Response.bracketed, hphase]
  rw [Response.pending, hphase] at hwhole
  rw [step, hphase] at hs
  dsimp only at hs hwhole
  split at hs
  · next hclosed =>
    cases hs
    refine flows_flushed h hbracketed (.refl r) rfl (fun _ => hclosed) ?_
    refine carries_flushed last false hbuffer (fun hopen => ?_) hleft hdropped
    exact absurd (hopen.symm.trans hclosed) Bool.false_ne_true
  next hopen =>
  rw [Bool.not_eq_true] at hopen
  split at hs
  · cases hs
    have hsame : SameBut r (sent chunk r) := ⟨rfl, rfl, rfl, rfl, rfl, rfl, rfl, id⟩
    exact flows_flushed h hbracketed hsame rfl (fun hd => Bool.noConfusion hd)
      (carries_sent last hopen hbuffer (hwhole hopen) hleft)
  · cases hs

theorem flows_step {a : Act} {r' : Response T} (h : Flows toVec items₀ r)
    (hs : step toVec options r a = some r') : Flows toVec items₀ r' := by
  cases a with
  | next =>
    rw [step, Option.ite_none_right_eq_some] at hs
    obtain ⟨hphase, hr⟩ := hs
    cases hr
    exact flows_next h hphase
  | resume =>  -- only a parked task has something to resume
    cases hphase : r.phase with
    | parked chunk last => exact flows_resume h hphase hs
    | pulling =>
      rw [step, hphase] at hs
      cases hs
    | returned =>
      rw [step, hphase] at hs
      cases hs
  | recv =>
    rw [step] at hs
    split at hs
    · next chunk rest hqueue =>
      cases hs
      obtain ⟨hwhole, hleft, hdropped, hparked⟩ := h.carries
      have hopen : r.closed = false := by  -- a chunk was waiting, so the client is still there
        rw [← Bool.not_eq_true]
        intro hclosed
        rw [hdropped hclosed] at hqueue
        cases hqueue
      have hbody : (r.received ++ [chunk]).flatten = r.body ++ chunk := List.flatten_concat
      have hrest : r.body ++ chunk ++ (rest.flatten ++ r.pending) = r.written toVec := by
        have hw := hwhole hopen
        rw [hqueue, List.flatten_cons] at hw
        simpa only [List.append_assoc] using hw
      refine ⟨⟨fun _ => ?_, ?_, fun hclosed => ?_, hparked⟩, h.running, h.returns, h.first, h.source,
        h.cut, h.closing, h.noticed, h.counted⟩
      · rw [Response.body, hbody]
        exact hrest
      · rw [Response.body, hbody]
        exact ⟨_, hrest⟩
      · exact absurd (hopen.symm.trans hclosed) Bool.false_ne_true
    · cases hs
  | drop =>
    cases hs
    -- what the client has received stays received
    refine ⟨⟨fun hopen => ?_, h.carries.left, fun _ => rfl, h.carries.parked⟩, h.running,
      fun _ => .inr rfl, h.first, h.source, h.cut, h.closing, h.noticed, h.counted⟩
    cases hopen
  | cancel =>
    cases hs
    obtain ⟨hwhole, hleft, hdropped, hparked⟩ := h.carries
    exact ⟨⟨hwhole, hleft, hdropped, hparked⟩, h.running, h.returns, h.first, h.source, h.cut,
      h.closing, h.noticed, h.counted⟩

theorem flows_run {acts : List Act} (hrun : AnyRun (step toVec options) (.start items₀) acts r) :
    Flows toVec items₀ r :=
  hrun.invariant (fun _ hs h => flows_step h hs) (flows_start toVec items₀)

end

end SorobanPulse.Streaming
