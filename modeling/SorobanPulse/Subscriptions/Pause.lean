import SorobanPulse.Lib.Run
import SorobanPulse.Subscriptions.DeliverPending

/-! Pausing and resuming a subscription.

    Only the column pause_until says that a subscription is paused, and NULL stands for two states:

        pause with pause_seconds     pause_until = now + seconds     paused until then
        pause without them           pause_until = NULL              paused until it is resumed
        resume, auto-resume          pause_until = NULL              not paused

    `resume_subscription` takes NULL as not paused, and `deliver_pending` does not look. -/

namespace SorobanPulse.Subscriptions
open Events Lib

structure PauseSubscriptionRequest where
  pauseSeconds : Option ℤ := none
  reason : Option String := none

/-- The JSON of an answer. -/
structure PauseAnswer where
  subscriptionId : ℕ
  status : String
  pauseUntil : Option Time := none
  reason : Option String

/-- The earliest timestamp of Postgres, the latest one of chrono. -/
def minTime : Time := -210866803200000000

def maxTime : Time := 8210266876799999999

/-- `Utc::now() + Duration::seconds(secs)`; out of range, the request fails. -/
def pauseEnd (now : Time) : Option ℤ → Option (Option Time)
  | none => some none
  | some secs =>
    let pauseUntil := now + secs * 1000000
    if minTime ≤ pauseUntil ∧ pauseUntil ≤ maxTime then some (some pauseUntil) else none

/-- UPDATE subscriptions SET … WHERE … -/
def Tables.updateSubscriptions (t : Tables) (p : Subscription → Bool)
    (f : Subscription → Subscription) : Tables :=
  { t with subscriptions := t.subscriptions.map fun sub => if p sub then f sub else sub }

def Subscription.paused (now : Time) (pauseUntil : Option Time) (reason : Option String)
    (sub : Subscription) : Subscription :=
  { sub with pauseUntil, pauseReason := reason, pausedAt := some now }

def Subscription.resumed (sub : Subscription) : Subscription :=
  { sub with pauseUntil := none, pauseReason := none }

def pauseSubscription (t : Tables) (now : Time) (id : ℕ) (pauseUntil : Option Time)
    (reason : Option String) : Except AppError (Tables × PauseAnswer) :=
  if t.subscriptions.any fun sub => sub.id = id ∧ sub.status = .active then
    .ok (t.updateSubscriptions (fun sub => sub.id = id ∧ sub.status = .active)
        (Subscription.paused now pauseUntil reason),
      { subscriptionId := id, status := "paused", pauseUntil, reason })
  else .error .NotFound

def resumeSubscription (t : Tables) (id : ℕ) (reason : Option String) :
    Except AppError (Tables × PauseAnswer) :=
  if t.subscriptions.any fun sub => sub.id = id ∧ sub.pauseUntil.isSome = true then
    .ok (t.updateSubscriptions (fun sub => sub.id = id ∧ sub.pauseUntil.isSome = true)
        Subscription.resumed,
      { subscriptionId := id, status := "active", reason })
  else .error .NotFound

/-- The UPDATE of `run_auto_resume_worker`. -/
def autoResume (t : Tables) (now : Time) : Tables :=
  t.updateSubscriptions (fun sub => sub.pauseUntil.any (· ≤ now)) Subscription.resumed

/-! ### Runs -/

/-- What is seen from outside: the answers, and the requests for each subscription. -/
inductive Entry where
  | paused (id : ℕ) (pauseUntil : Option Time)
  | resume (id : ℕ) (time : Time) (succeeded : Bool)
  | post (id : ℕ) (time : Time)
  deriving DecidableEq, Repr

/-- The tables, the clock and what has been seen, the latest first. -/
structure PauseState where
  tables : Tables
  now : Time
  log : List Entry := []

inductive PauseAction where
  | pause (time : Time) (id : ℕ) (body : PauseSubscriptionRequest)
  | resume (time : Time) (id : ℕ) (reason : Option String)
  | autoResume (time : Time)
  /-- A cycle: the order in which rows are found, that of the groups, the replies. -/
  | deliver (time : Time) (scan : List Row) (groups : List (List Row)) (reply : Post → Reply)

def PauseAction.time : PauseAction → Time
  | .pause time _ _ => time
  | .resume time _ _ => time
  | .autoResume time => time
  | .deliver time _ _ _ => time

def PauseState.pause (s : PauseState) (time : Time) (id : ℕ) (body : PauseSubscriptionRequest) :
    PauseState :=
  match pauseEnd time body.pauseSeconds with
  | none => { s with now := time }
  | some pauseUntil =>
    match pauseSubscription s.tables time id pauseUntil body.reason with
    | .ok (tables, _) => { tables, now := time, log := .paused id pauseUntil :: s.log }
    | .error _ => { s with now := time }

def PauseState.resume (s : PauseState) (time : Time) (id : ℕ) (reason : Option String) :
    PauseState :=
  match resumeSubscription s.tables id reason with
  | .ok (tables, _) => { tables, now := time, log := .resume id time true :: s.log }
  | .error _ => { s with now := time, log := .resume id time false :: s.log }

def PauseState.deliver (s : PauseState) (time : Time) (requests : List Post) (reply : Post → Reply) :
    PauseState where
  tables := (s.tables.deliver time requests reply).1
  now := time
  log := (requests.reverse.map fun post => .post post.subscriptionId time) ++ s.log

/-- Time does not go back. -/
def PauseState.step (s : PauseState) (action : PauseAction) : Option PauseState :=
  if action.time < s.now then none
  else
    match action with
    | .pause time id body => some (s.pause time id body)
    | .resume time id reason => some (s.resume time id reason)
    | .autoResume time => some { s with tables := Subscriptions.autoResume s.tables time, now := time }
    | .deliver time scan groups reply =>
      if scan.Perm (s.tables.due time) ∧
          groups.Perm (batchGroups ((selected scan).filter isBatch)) then
        some (s.deliver time (posts (selected scan) groups) reply)
      else none

/-! ### Pause means pause -/

/-- The latest pause of a subscription, unless it was resumed since. -/
def pauseOf : List Entry → ℕ → Option (Option Time)
  | [], _ => none
  | .paused other pauseUntil :: older, id =>
    if other = id then some pauseUntil else pauseOf older id
  | .resume other _ succeeded :: older, id =>
    if other = id ∧ succeeded = true then none else pauseOf older id
  | .post _ _ :: older, id => pauseOf older id

/-- A subscription is paused: without an end, or its end is still to come. -/
def PausedAt (log : List Entry) (id : ℕ) (time : Time) : Prop :=
  ∃ pauseUntil, pauseOf log id = some pauseUntil ∧ ∀ stop ∈ pauseUntil, time < stop

/-- No request is sent for a paused subscription, and to resume it succeeds. -/
def GoodEntry (older : List Entry) : Entry → Prop
  | .paused _ _ => True
  | .resume id time succeeded => PausedAt older id time → succeeded = true
  | .post id time => ¬ PausedAt older id time

def GoodLog : List Entry → Prop
  | [] => True
  | entry :: older => GoodEntry older entry ∧ GoodLog older

/-- The latest pause of a subscription has ended with a resume. -/
def Resumed : List Entry → ℕ → Prop
  | [], _ => False
  | .paused other _ :: older, id => other ≠ id ∧ Resumed older id
  | .resume other time succeeded :: older, id =>
    (other = id ∧ succeeded = true ∧ PausedAt older id time) ∨ Resumed older id
  | .post _ _ :: older, id => Resumed older id

/-- Its pending items are selected when they are due. -/
def Released (t : Tables) (id : ℕ) : Prop :=
  ∀ item ∈ t.deliveryQueue, item.subscriptionId = id → item.status = .pending →
    ∀ now, item.nextAttemptAt ≤ now → ∃ row ∈ t.due now, row.item = item

/-- Pause means pause. -/
structure PauseHolds (s : PauseState) : Prop where
  log : GoodLog s.log
  released : ∀ id, Resumed s.log id → Released s.tables id

/-- In every run, from consistent tables. -/
def PauseMeansPause : Prop :=
  ∀ (tables : Tables) (now : Time) (actions : List PauseAction) (t : PauseState),
    tables.Consistent → AnyRun PauseState.step { tables, now } actions t → PauseHolds t

/-- A resume finds no pause without an end, and a cycle selects no item of a paused subscription. -/
def Spared (s : PauseState) : PauseAction → Prop
  | .resume _ id _ => pauseOf s.log id ≠ some none
  | .deliver time scan _ _ => ∀ row ∈ selected scan, ¬ PausedAt s.log row.sub.id time
  | _ => True

/-- What holds in every run: a subscription that is paused is active, and its column has the end of
    the pause, or NULL after it. -/
structure PauseState.Inv (s : PauseState) : Prop where
  keys : s.tables.Consistent
  active : ∀ id pauseUntil, .paused id pauseUntil ∈ s.log →
    ∃ sub ∈ s.tables.subscriptions, sub.id = id ∧ sub.status = .active
  column : ∀ id pauseUntil, pauseOf s.log id = some pauseUntil →
    ∀ sub ∈ s.tables.subscriptions, sub.id = id →
      sub.pauseUntil = pauseUntil ∨ sub.pauseUntil = none ∧ ∃ stop ∈ pauseUntil, stop ≤ s.now

section
variable {s t : PauseState} {tables : Tables} {action : PauseAction} {log older : List Entry}
  {id : ℕ} {time now : Time} {p : Subscription → Bool} {f : Subscription → Subscription}
  {sub : Subscription}

/-! ### Updates -/

theorem mem_updateSubscriptions : sub ∈ (tables.updateSubscriptions p f).subscriptions ↔
    ∃ old ∈ tables.subscriptions, (if p old then f old else old) = sub := List.mem_map

/-- An update that leaves ids and statuses alone. -/
def Mild (f : Subscription → Subscription) : Prop :=
  ∀ sub, (f sub).id = sub.id ∧ (f sub).status = sub.status

theorem mild_paused (now : Time) (pauseUntil : Option Time) (reason : Option String) :
    Mild (Subscription.paused now pauseUntil reason) := fun _ => ⟨rfl, rfl⟩

theorem mild_resumed : Mild Subscription.resumed := fun _ => ⟨rfl, rfl⟩

theorem Mild.ite (hf : Mild f) (p : Subscription → Bool) (sub : Subscription) :
    (if p sub then f sub else sub).id = sub.id ∧
      (if p sub then f sub else sub).status = sub.status := by
  split
  · exact hf sub
  · exact ⟨rfl, rfl⟩

/-- A row after an update comes from one with its id. -/
theorem Mild.exists_of_mem (hf : Mild f)
    (h : sub ∈ (tables.updateSubscriptions p f).subscriptions) :
    ∃ old ∈ tables.subscriptions, old.id = sub.id ∧
      (p old = true ∧ sub = f old ∨ p old = false ∧ sub = old) := by
  obtain ⟨old, hold, rfl⟩ := mem_updateSubscriptions.mp h
  refine ⟨old, hold, (hf.ite p old).1.symm, ?_⟩
  cases hp : p old with
  | true => exact .inl ⟨rfl, if_pos rfl⟩
  | false => exact .inr ⟨rfl, if_neg (by decide)⟩

theorem Mild.consistent (hf : Mild f) (h : tables.Consistent) :
    (tables.updateSubscriptions p f).Consistent := by
  refine ⟨?_, h.eventIds, h.itemIds, h.itemId_lt, ?_, h.event⟩
  · have hids : (tables.updateSubscriptions p f).subscriptions.map (·.id) =
        tables.subscriptions.map (·.id) := by
      rw [Tables.updateSubscriptions, List.map_map]
      exact List.map_congr_left fun sub _ => (hf.ite p sub).1
    rw [hids]
    exact h.subscriptionIds
  · intro item hitem
    obtain ⟨sub, hsub, hid⟩ := h.subscription item hitem
    exact ⟨_, mem_updateSubscriptions.mpr ⟨sub, hsub, rfl⟩, (hf.ite p sub).1.trans hid⟩

theorem Mild.active (hf : Mild f)
    (h : ∃ sub ∈ tables.subscriptions, sub.id = id ∧ sub.status = .active) :
    ∃ sub ∈ (tables.updateSubscriptions p f).subscriptions, sub.id = id ∧ sub.status = .active := by
  obtain ⟨sub, hsub, hid, hactive⟩ := h
  obtain ⟨hsame, hstatus⟩ := hf.ite p sub
  exact ⟨_, mem_updateSubscriptions.mpr ⟨sub, hsub, rfl⟩, hsame.trans hid, hstatus.trans hactive⟩

/-! ### The log -/

theorem mem_of_pauseOf {pauseUntil : Option Time} (h : pauseOf log id = some pauseUntil) :
    .paused id pauseUntil ∈ log := by
  induction log with
  | nil => cases h
  | cons entry older ih =>
    cases entry with
    | paused other stop =>
      rw [pauseOf] at h
      split at h
      · next heq =>
        cases h
        exact heq ▸ List.mem_cons_self
      · exact List.mem_cons_of_mem _ (ih h)
    | resume other _ succeeded =>
      rw [pauseOf] at h
      split at h
      · cases h
      · exact List.mem_cons_of_mem _ (ih h)
    | post other _ => exact List.mem_cons_of_mem _ (ih h)

theorem exists_mem_of_resumed (h : Resumed log id) : ∃ pauseUntil, .paused id pauseUntil ∈ log := by
  induction log with
  | nil => cases h
  | cons entry older ih =>
    have holder : (∃ pauseUntil, .paused id pauseUntil ∈ older) →
        ∃ pauseUntil, .paused id pauseUntil ∈ entry :: older := by
      rintro ⟨pauseUntil, hmem⟩
      exact ⟨pauseUntil, List.mem_cons_of_mem _ hmem⟩
    cases entry with
    | paused other stop => exact holder (ih h.2)
    | resume other _ succeeded =>
      rcases h with ⟨_, _, pauseUntil, hpause, _⟩ | h
      · exact holder ⟨pauseUntil, mem_of_pauseOf hpause⟩
      · exact holder (ih h)
    | post other _ => exact holder (ih h)

/-- Requests neither pause nor resume. -/
theorem pauseOf_posts (requests : List Post) : pauseOf
    ((requests.map fun post => Entry.post post.subscriptionId time) ++ log) id = pauseOf log id := by
  induction requests with
  | nil => rfl
  | cons post requests ih => exact ih

theorem goodLog_posts {requests : List Post} : GoodLog
    ((requests.map fun post => Entry.post post.subscriptionId time) ++ log) ↔
      (∀ post ∈ requests, ¬ PausedAt log post.subscriptionId time) ∧ GoodLog log := by
  induction requests with
  | nil => simp
  | cons post requests ih =>
    rw [List.map_cons, List.cons_append, GoodLog, ih, GoodEntry, List.forall_mem_cons, and_assoc,
      PausedAt, pauseOf_posts, ← PausedAt]

/-! ### One step -/

theorem pause_cases (s : PauseState) (time : Time) (id : ℕ) (body : PauseSubscriptionRequest) :
    s.pause time id body = { s with now := time } ∨
    ∃ pauseUntil, (∃ sub ∈ s.tables.subscriptions, sub.id = id ∧ sub.status = .active) ∧
      s.pause time id body = {
        tables := s.tables.updateSubscriptions (fun sub => sub.id = id ∧ sub.status = .active)
          (Subscription.paused time pauseUntil body.reason)
        now := time
        log := .paused id pauseUntil :: s.log } := by
  rw [PauseState.pause]
  cases pauseEnd time body.pauseSeconds with
  | none => exact .inl rfl
  | some pauseUntil =>
    by_cases hany : s.tables.subscriptions.any fun sub => sub.id = id ∧ sub.status = .active
    · refine .inr ⟨pauseUntil, by simpa using hany, ?_⟩
      dsimp only
      rw [pauseSubscription, if_pos hany]
    · dsimp only
      rw [pauseSubscription, if_neg hany]
      exact .inl rfl

theorem resume_cases (s : PauseState) (time : Time) (id : ℕ) (reason : Option String) :
    ((∃ sub ∈ s.tables.subscriptions, sub.id = id ∧ sub.pauseUntil.isSome = true) ∧
      s.resume time id reason = {
        tables := s.tables.updateSubscriptions
          (fun sub => sub.id = id ∧ sub.pauseUntil.isSome = true) Subscription.resumed
        now := time
        log := .resume id time true :: s.log }) ∨
    ((∀ sub ∈ s.tables.subscriptions, sub.id = id → sub.pauseUntil = none) ∧
      s.resume time id reason = { s with now := time, log := .resume id time false :: s.log }) := by
  rw [PauseState.resume, resumeSubscription]
  by_cases hany : s.tables.subscriptions.any fun sub => sub.id = id ∧ sub.pauseUntil.isSome = true
  · rw [if_pos hany]
    exact .inl ⟨by simpa using hany, rfl⟩
  · rw [if_neg hany]
    exact .inr ⟨by simpa using hany, rfl⟩

/-- What a step does. -/
theorem pauseStep_cases (h : s.step action = some t) : s.now ≤ action.time ∧
    ((∃ time id body, action = .pause time id body ∧ t = s.pause time id body) ∨
    (∃ time id reason, action = .resume time id reason ∧ t = s.resume time id reason) ∨
    (∃ time, action = .autoResume time ∧
      t = { s with tables := Subscriptions.autoResume s.tables time, now := time }) ∨
    ∃ time scan groups reply, action = .deliver time scan groups reply ∧
      scan.Perm (s.tables.due time) ∧ groups.Perm (batchGroups ((selected scan).filter isBatch)) ∧
      t = s.deliver time (posts (selected scan) groups) reply) := by
  unfold PauseState.step at h
  rw [Option.ite_none_left_eq_some] at h
  obtain ⟨htime, h⟩ := h
  refine ⟨not_lt.mp htime, ?_⟩
  cases action with
  | pause time id body => exact .inl ⟨time, id, body, rfl, (Option.some.inj h).symm⟩
  | resume time id reason => exact .inr (.inl ⟨time, id, reason, rfl, (Option.some.inj h).symm⟩)
  | autoResume time => exact .inr (.inr (.inl ⟨time, rfl, (Option.some.inj h).symm⟩))
  | deliver time scan groups reply =>
    dsimp only at h
    rw [Option.ite_none_right_eq_some] at h
    exact .inr (.inr (.inr ⟨time, scan, groups, reply, rfl, h.1.1, h.1.2,
      (Option.some.inj h.2).symm⟩))

/-- The clock goes on. -/
theorem PauseState.Inv.mono (hinv : s.Inv) (h : s.now ≤ time) :
    PauseState.Inv { s with now := time } where
  keys := hinv.keys
  active := hinv.active
  column := by
    intro id pauseUntil hpause sub hsub hid
    rcases hinv.column id pauseUntil hpause sub hsub hid with heq | ⟨hnull, stop, hstop, hle⟩
    · exact .inl heq
    · exact .inr ⟨hnull, stop, hstop, hle.trans h⟩

theorem inv_pause (hinv : s.Inv) (h : s.now ≤ time) (body : PauseSubscriptionRequest) :
    (s.pause time id body).Inv := by
  rcases pause_cases s time id body with heq | ⟨pauseUntil, ⟨sub, hsub, hid, hactive⟩, heq⟩
  · rw [heq]
    exact hinv.mono h
  · have hmild := mild_paused time pauseUntil body.reason
    rw [heq]
    refine ⟨hmild.consistent hinv.keys, ?_, ?_⟩
    · intro other stop hmem
      apply hmild.active
      rcases List.mem_cons.mp hmem with hnew | hold
      · cases hnew
        exact ⟨sub, hsub, hid, hactive⟩
      · exact hinv.active other stop hold
    · intro other stop hpause new hnew hother
      obtain ⟨old, hold, hsame, hupdate⟩ := hmild.exists_of_mem hnew
      rw [← hsame] at hother
      rw [pauseOf] at hpause
      split at hpause
      · next hnow =>
        cases hpause
        cases List.inj_on_of_nodup_map hinv.keys.subscriptionIds hold hsub
          (hother.trans (hnow.symm.trans hid.symm))
        rcases hupdate with ⟨_, rfl⟩ | ⟨hskip, _⟩
        · exact .inl rfl
        · simp [hid, hactive] at hskip
      · next hdiff =>
        rcases hupdate with ⟨hhit, _⟩ | ⟨_, rfl⟩
        · exact absurd ((of_decide_eq_true hhit).1.symm.trans hother) hdiff
        · exact (hinv.mono h).column other stop hpause new hold hother

theorem inv_resume (hinv : s.Inv) (h : s.now ≤ time) (reason : Option String) :
    (s.resume time id reason).Inv := by
  rcases resume_cases s time id reason with ⟨_, heq⟩ | ⟨_, heq⟩
  · rw [heq]
    refine ⟨mild_resumed.consistent hinv.keys, ?_, ?_⟩
    · intro other stop hmem
      rcases List.mem_cons.mp hmem with hnew | hold
      · cases hnew
      · exact mild_resumed.active (hinv.active other stop hold)
    · intro other stop hpause new hnew hother
      obtain ⟨old, hold, hsame, hupdate⟩ := mild_resumed.exists_of_mem hnew
      rw [← hsame] at hother
      rw [pauseOf] at hpause
      split at hpause
      · cases hpause
      · next hdiff =>
        rcases hupdate with ⟨hhit, _⟩ | ⟨_, rfl⟩
        · exact absurd ⟨(of_decide_eq_true hhit).1.symm.trans hother, rfl⟩ hdiff
        · exact (hinv.mono h).column other stop hpause new hold hother
  · rw [heq]
    refine ⟨hinv.keys, ?_, ?_⟩
    · intro other stop hmem
      rcases List.mem_cons.mp hmem with hnew | hold
      · cases hnew
      · exact hinv.active other stop hold
    · intro other stop hpause
      exact (hinv.mono h).column other stop (by simpa [pauseOf] using hpause)

theorem inv_autoResume (hinv : s.Inv) (h : s.now ≤ time) : PauseState.Inv
    { s with tables := Subscriptions.autoResume s.tables time, now := time } := by
  refine ⟨mild_resumed.consistent hinv.keys, ?_, ?_⟩
  · exact fun id stop hmem => mild_resumed.active (hinv.active id stop hmem)
  · intro id pauseUntil hpause new hnew hid
    obtain ⟨old, hold, hsame, hupdate⟩ := mild_resumed.exists_of_mem hnew
    rw [← hsame] at hid
    have hcolumn := (hinv.mono h).column id pauseUntil hpause old hold hid
    rcases hupdate with ⟨hdue, rfl⟩ | ⟨_, rfl⟩
    · refine .inr ⟨rfl, ?_⟩
      rcases hcolumn with heq | ⟨_, hpast⟩
      · rw [heq, Option.any_eq_true] at hdue
        obtain ⟨stop, hstop, hle⟩ := hdue
        exact ⟨stop, hstop, by simpa using hle⟩
      · exact hpast
    · exact hcolumn

theorem inv_deliver (hinv : s.Inv) (h : s.now ≤ time) (requests : List Post)
    (reply : Post → Reply) : (s.deliver time requests reply).Inv := by
  have hsame : SameKeys s.tables (s.tables.deliver time requests reply).1 := sameKeys_deliver _ _
  refine ⟨hsame.consistent hinv.keys, ?_, ?_⟩
  · intro id stop hmem
    rw [PauseState.deliver] at hmem ⊢
    rw [hsame.subscriptions]
    rcases List.mem_append.mp hmem with hpost | hold
    · obtain ⟨_, _, heq⟩ := List.mem_map.mp hpost
      cases heq
    · exact hinv.active id stop hold
  · intro id pauseUntil hpause sub hsub
    rw [PauseState.deliver, pauseOf_posts] at hpause
    rw [PauseState.deliver, hsame.subscriptions] at hsub
    exact (hinv.mono h).column id pauseUntil hpause sub hsub

theorem pauseInv_step (h : s.step action = some t) (hinv : s.Inv) : t.Inv := by
  obtain ⟨htime, ⟨time, id, body, rfl, rfl⟩ | ⟨time, id, reason, rfl, rfl⟩ | ⟨time, rfl, rfl⟩ |
    ⟨time, scan, groups, reply, rfl, _, _, rfl⟩⟩ := pauseStep_cases h
  · exact inv_pause hinv htime body
  · exact inv_resume hinv htime reason
  · exact inv_autoResume hinv htime
  · exact inv_deliver hinv htime _ reply

/-! ### Runs -/

/-- The column tells a pause with an end from no pause, but not one without an end. -/
theorem goodEntry_resume_true (hinv : s.Inv)
    (hfound : ∃ sub ∈ s.tables.subscriptions, sub.id = id ∧ sub.pauseUntil.isSome = true) :
    pauseOf s.log id ≠ some none := by
  intro hpause
  obtain ⟨sub, hsub, hid, hsome⟩ := hfound
  rcases hinv.column id none hpause sub hsub hid with hnull | ⟨hnull, _⟩
  · rw [hnull] at hsome
    cases hsome
  · rw [hnull] at hsome
    cases hsome

theorem goodEntry_resume_false (hinv : s.Inv) (htime : s.now ≤ time)
    (hnull : ∀ sub ∈ s.tables.subscriptions, sub.id = id → sub.pauseUntil = none) :
    GoodEntry s.log (.resume id time false) ↔ pauseOf s.log id ≠ some none := by
  rw [GoodEntry]
  constructor
  · intro hgood hpause
    cases hgood ⟨none, hpause, by rintro _ ⟨⟩⟩
  · rintro hend ⟨pauseUntil, hpause, hlater⟩
    cases pauseUntil with
    | none => exact absurd hpause hend
    | some stop =>
      obtain ⟨sub, hsub, hid, _⟩ := hinv.active id _ (mem_of_pauseOf hpause)
      have hlt : time < stop := hlater stop rfl
      rcases hinv.column id _ hpause sub hsub hid with heq | ⟨_, _, ⟨⟩, hle⟩
      · rw [hnull sub hsub hid] at heq
        cases heq
      · exact absurd hle (not_le.mpr (htime.trans_lt hlt))

/-- Selected rows of one queue row have one subscription. -/
theorem keyed_selected (hkeys : tables.Consistent) {scan : List Row}
    (hscan : scan.Perm (tables.due time)) : Keyed (selected scan) := by
  intro row hrow other hother hid
  obtain ⟨hitem, _, _, _, hdue⟩ := mem_due.mp (hscan.mem_iff.mp (mem_of_mem_selected hrow))
  obtain ⟨hitem', _, _, _, hdue'⟩ := mem_due.mp (hscan.mem_iff.mp (mem_of_mem_selected hother))
  have hsame : other.item = row.item :=
    List.inj_on_of_nodup_map hkeys.itemIds hitem' hitem hid
  rw [hdue.1, hdue'.1, hsame]

/-- A step leaves the log good if and only if it spares what is paused. -/
theorem goodLog_step (h : s.step action = some t) (hinv : s.Inv) :
    GoodLog t.log ↔ GoodLog s.log ∧ Spared s action := by
  obtain ⟨htime, ⟨time, id, body, rfl, rfl⟩ | ⟨time, id, reason, rfl, rfl⟩ | ⟨time, rfl, rfl⟩ |
    ⟨time, scan, groups, reply, rfl, hscan, hgroups, rfl⟩⟩ := pauseStep_cases h
  · rcases pause_cases s time id body with heq | ⟨pauseUntil, _, heq⟩
    · simp only [heq, Spared, and_true]
    · simp only [heq, Spared, GoodLog, GoodEntry, true_and, and_true]
  · rw [Spared, and_comm]
    rcases resume_cases s time id reason with ⟨hfound, heq⟩ | ⟨hnull, heq⟩
    · rw [heq, GoodLog]
      exact and_congr_left fun _ => iff_of_true (fun _ => rfl) (goodEntry_resume_true hinv hfound)
    · rw [heq, GoodLog]
      exact and_congr_left fun _ => goodEntry_resume_false hinv htime hnull
  · simp only [Spared, and_true]
  · rw [PauseState.deliver, goodLog_posts, Spared, and_comm]
    refine and_congr_right fun _ => ?_
    simp only [List.mem_reverse]
    constructor
    · intro hfree row hrow
      obtain ⟨post, hpost, hid⟩ :=
        exists_post_of_mem (keyed_selected hinv.keys hscan) hgroups hrow
      exact hid ▸ hfree post hpost
    · intro hfree post hpost
      obtain ⟨row, hrow, hid⟩ := exists_row_of_mem_posts hgroups hpost
      exact hid ▸ hfree row hrow

/-- What was resumed is active. -/
theorem released_of_resumed (hinv : s.Inv) (h : Resumed s.log id) : Released s.tables id := by
  intro item hitem hid hpending now hdue
  obtain ⟨pauseUntil, hmem⟩ := exists_mem_of_resumed h
  obtain ⟨sub, hsub, hsame, hactive⟩ := hinv.active id pauseUntil hmem
  obtain ⟨event, hevent, heq⟩ := hinv.keys.event item hitem
  refine ⟨⟨item, sub, event⟩, mem_due.mpr ⟨hitem, hsub, hevent, heq, ?_⟩, rfl⟩
  exact ⟨hsame.trans hid.symm, hpending, hdue, hactive⟩

theorem pauseHolds_iff_log (hinv : s.Inv) : PauseHolds s ↔ GoodLog s.log := by
  constructor
  · exact fun h => h.log
  · exact fun h => ⟨h, fun _ => released_of_resumed hinv⟩

theorem pauseInv_init (hkeys : tables.Consistent) : PauseState.Inv { tables, now } where
  keys := hkeys
  active := by
    rintro _ _ ⟨⟩
  column := by
    rintro _ _ ⟨⟩

end

/-- Pause means pause in a run if and only if no cycle selects an item of a paused subscription and
    no resume finds a pause without an end. -/
theorem pauseHolds_iff {tables : Tables} {now : Time} {actions : List PauseAction} {t : PauseState}
    (hkeys : tables.Consistent) (hrun : AnyRun PauseState.step { tables, now } actions t) :
    PauseHolds t ↔ Run PauseState.step Spared { tables, now } actions t := by
  have hinv := hrun.invariant (fun _ h hs => pauseInv_step h hs) (pauseInv_init hkeys)
  rw [pauseHolds_iff_log hinv]
  exact hrun.final_iff pauseInv_step goodLog_step (pauseInv_init hkeys) trivial

/-! ### One paused subscription -/

/-- An active subscription with a pending item. -/
def sampleTables : Tables where
  subscriptions := [sampleSubscription]
  events := [sampleEvent]
  deliveryQueue := [sampleItem 0 0]
  nextItemId := 1

theorem consistent_sampleTables : sampleTables.Consistent where
  subscriptionIds := by decide
  eventIds := by decide
  itemIds := by decide
  itemId_lt := by decide
  subscription := by decide
  event := by decide

/-- Paused for an hour. -/
def samplePaused : Subscription := sampleSubscription.paused 0 (some 3600000000) none

/-- A cycle a second after the pause delivers. -/
theorem not_pauseMeansPause_deliver : ¬ PauseMeansPause := by
  intro h
  have hrun : AnyRun PauseState.step { tables := sampleTables, now := 0 }
      [.pause 0 1 { pauseSeconds := some 3600 },
        .deliver 1000000 [⟨sampleItem 0 0, samplePaused, sampleEvent⟩] [] fun _ => .success]
      { tables := { sampleTables with
          subscriptions := [samplePaused]
          deliveryQueue := [{ sampleItem 0 0 with status := .delivered }] }
        now := 1000000
        log := [.post 1 1000000, .paused 1 (some 3600000000)] } := anyRun_iff_exec.mpr rfl
  refine (h _ _ _ _ consistent_sampleTables hrun).log.1 ⟨some 3600000000, rfl, ?_⟩
  rintro _ ⟨⟩
  decide

/-- Resumed after a second, it is delivered. -/
theorem pauseHolds_resumed : PauseHolds {
    tables := { sampleTables with
      subscriptions := [samplePaused.resumed]
      deliveryQueue := [{ sampleItem 0 0 with status := .delivered }] }
    now := 2000000
    log := [.post 1 2000000, .resume 1 1000000 true, .paused 1 (some 3600000000)] } := by
  have hrun : Run PauseState.step Spared { tables := sampleTables, now := 0 }
      [.pause 0 1 { pauseSeconds := some 3600 }, .resume 1000000 1 none,
        .deliver 2000000 [⟨sampleItem 0 0, samplePaused.resumed, sampleEvent⟩] [] fun _ => .success]
      { tables := { sampleTables with
          subscriptions := [samplePaused.resumed]
          deliveryQueue := [{ sampleItem 0 0 with status := .delivered }] }
        now := 2000000
        log := [.post 1 2000000, .resume 1 1000000 true, .paused 1 (some 3600000000)] } := by
    refine .cons trivial rfl (.cons ?_ rfl (.cons ?_ rfl (.nil _)))
    · intro h
      cases h
    · rintro row hrow ⟨_, hpause, _⟩
      cases List.mem_singleton.mp (mem_of_mem_selected hrow)
      cases hpause
  exact (pauseHolds_iff consistent_sampleTables (anyRun_iff_exec.mpr rfl)).mpr hrun

end SorobanPulse.Subscriptions
