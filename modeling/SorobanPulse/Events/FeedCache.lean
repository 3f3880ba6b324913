import SorobanPulse.Events.Aggregations
import SorobanPulse.Events.AtomFeed
import SorobanPulse.Lib.TimedCache

/-! `get_events_feed`: the feed of a filter, kept for 60 seconds.

        {tenant_id:?}:{contract_id:?}:{event_type:?}:{from_ledger:?}:{to_ledger:?}:{limit:?}

    The handler locks the cache to look and once more to insert. The table is read in between, while
    other requests do the same and others write. The parts of the key can be read back, whatever is
    in the texts, so a request gets no feed of another filter or tenant. -/

namespace SorobanPulse.Events
open Lib

/-- The parameters, and the tenant of the `TenantId` extension. -/
structure FeedRequest extends PaginationParams where
  tenantId : Option String := none

/-- `Duration::from_secs(60)`, in milliseconds. -/
def FEED_TTL : ℤ := 60000

/-- `Debug` of `EventType`. -/
def EventType.debug : EventType → List Char
  | .Contract => "Contract".toList
  | .Diagnostic => "Diagnostic".toList
  | .System => "System".toList

/-! ### The handler -/

section
variable (r : FeedRequest)

/-- The checks of `get_events_feed`. -/
def checkFeed : Except AppError Unit := do
  r.contractId.forM validateContractId
  r.fromLedger.forM (validateLedgerParam "from_ledger")
  r.toLedger.forM (validateLedgerParam "to_ledger")
  validateRange "from_ledger must be <= to_ledger" r.fromLedger r.toLedger

/-- The `WHERE` clause. -/
def FeedRequest.selects (row : EventRow) : Bool :=
  r.contractId.all (row.contractId = ·) && r.eventType.all (row.eventType = ·.toString) &&
    r.fromLedger.all (· ≤ row.ledger) && r.toLedger.all (row.ledger ≤ ·) &&
    r.tenantId.all (row.tenantId = some ·)

/-- `ORDER BY ledger DESC, tx_index DESC NULLS LAST, … LIMIT …`. -/
def feedRows (events : List EventRow) : List EventRow :=
  (Keyset.sortOn (toidKey .Desc) (events.filter r.selects)).take (min r.effectiveLimit 100)

end

/-- The `format!` of the key. -/
def feedCacheKey (printable : Char → Bool) (r : FeedRequest) : String :=
  let text := debugOption (debugText printable)
  let number := debugOption fun v => (i64Text v).toList
  String.ofList (text r.tenantId ++ ':' :: (text r.contractId ++ ':' ::
    (debugOption EventType.debug r.eventType ++ ':' :: (number r.fromLedger ++ ':' ::
      (number r.toLedger ++ ':' :: (number r.limit ++ []))))))

abbrev FeedState := TimedCache.State FeedRequest String (List EventRow) (Option Timestamp) String
abbrev FeedAction := TimedCache.Action FeedRequest (List EventRow) (Option Timestamp)
abbrev FeedAnswer := TimedCache.Answer FeedRequest String

section
variable (double : UInt64 → String) (printable : Char → Bool)

/-- A moment is a clock, or none where the statement fails. -/
def feedSpec : TimedCache.Spec FeedRequest String (List EventRow) (Option Timestamp) String where
  key := feedCacheKey printable
  accepts r := (checkFeed r).isOk
  compute events now r := now.map fun now => renderAtomFeed double now (feedRows r events)
  ttl := FEED_TTL
  ttl_pos := by decide

/-- `get_events_feed`, with the writes to the table. -/
def feedStep : FeedState → FeedAction → Option FeedState :=
  TimedCache.step (feedSpec double printable)

/-- The answer is the feed of the request's rows, as a table was that there was, and was put into
    the cache less than a minute before. -/
structure ServesFeed (s : FeedState) (a : FeedAnswer) : Prop where
  accepted : checkFeed a.request = .ok ()
  feed : ∃ events ∈ s.stores, ∃ now,
    a.result = renderAtomFeed double now (feedRows a.request events)
  recent : ∃ insertedAt, (feedCacheKey printable a.request, a.result, insertedAt) ∈ s.inserts ∧
    a.now < insertedAt + FEED_TTL

end

/-! ### The key -/

/-- What the key is made of. -/
structure SameFeed (r q : FeedRequest) : Prop where
  tenantId : r.tenantId = q.tenantId
  contractId : r.contractId = q.contractId
  eventType : r.eventType = q.eventType
  fromLedger : r.fromLedger = q.fromLedger
  toLedger : r.toLedger = q.toLedger
  limit : r.limit = q.limit

section
variable {printable : Char → Bool} {r q : FeedRequest}

theorem bracket_not_mem_i64Text (v : ℤ) : ')' ∉ (i64Text v).toList := by
  have hdigit : ')' ∉ decimal 1 v.natAbs := not_mem_decimal (by decide) _ _
  rw [i64Text, String.toList_ofList]
  split
  · rw [List.mem_cons, not_or]
    exact ⟨by decide, hdigit⟩
  · exact hdigit

theorem debugNumber_inj {x y : Option ℤ} {rest rest' : List Char}
    (h : debugOption (fun v => (i64Text v).toList) x ++ rest =
      debugOption (fun v => (i64Text v).toList) y ++ rest') : x = y ∧ rest = rest' := by
  refine debugOption_inj (fun v w rest rest' heq => ?_) h
  obtain ⟨htext, hrest⟩ :=
    eq_of_append_separator (bracket_not_mem_i64Text v) (bracket_not_mem_i64Text w) heq
  exact ⟨i64Text_injective (String.toList_inj.mp htext), hrest⟩

theorem debugEventType_inj {x y : Option EventType} {rest rest' : List Char}
    (h : debugOption EventType.debug x ++ rest = debugOption EventType.debug y ++ rest') :
    x = y ∧ rest = rest' := by
  refine debugOption_inj (fun v w rest rest' heq => ?_) h
  have hbracket (t : EventType) : ')' ∉ t.debug := by cases t <;> decide
  obtain ⟨htext, hrest⟩ := eq_of_append_separator (hbracket v) (hbracket w) heq
  refine ⟨?_, hrest⟩
  cases v <;> cases w <;> first | rfl | exact absurd htext (by decide)

theorem debugString_inj {x y : Option String} {rest rest' : List Char}
    (h : debugOption (debugText printable) x ++ rest =
      debugOption (debugText printable) y ++ rest') : x = y ∧ rest = rest' := by
  refine debugOption_inj (fun v w rest rest' heq => ?_) h
  obtain ⟨htext, hrest⟩ := debugText_inj heq
  exact ⟨htext, (List.cons.inj hrest).2⟩

/-- The parts of the key can be read back. -/
theorem feedCacheKey_eq_iff :
    feedCacheKey printable r = feedCacheKey printable q ↔ SameFeed r q := by
  constructor
  · intro h
    have hlist := congrArg String.toList h
    rw [feedCacheKey, feedCacheKey, String.toList_ofList, String.toList_ofList] at hlist
    obtain ⟨htenant, hlist⟩ := debugString_inj hlist
    obtain ⟨hcontract, hlist⟩ := debugString_inj (List.cons.inj hlist).2
    obtain ⟨htype, hlist⟩ := debugEventType_inj (List.cons.inj hlist).2
    obtain ⟨hfrom, hlist⟩ := debugNumber_inj (List.cons.inj hlist).2
    obtain ⟨hto, hlist⟩ := debugNumber_inj (List.cons.inj hlist).2
    obtain ⟨hlimit, -⟩ := debugNumber_inj (List.cons.inj hlist).2
    exact ⟨htenant, hcontract, htype, hfrom, hto, hlimit⟩
  · rintro ⟨htenant, hcontract, htype, hfrom, hto, hlimit⟩
    rw [feedCacheKey, feedCacheKey, htenant, hcontract, htype, hfrom, hto, hlimit]

/-- Requests of one key are answered with the same rows. -/
theorem SameFeed.feedRows_eq (h : SameFeed r q) (events : List EventRow) :
    feedRows r events = feedRows q events := by
  have hselects : r.selects = q.selects := by
    funext row
    rw [FeedRequest.selects, FeedRequest.selects, h.tenantId, h.contractId, h.eventType,
      h.fromLedger, h.toLedger]
  have hlimit : r.effectiveLimit = q.effectiveLimit := by
    rw [PaginationParams.effectiveLimit, PaginationParams.effectiveLimit, h.limit]
  rw [feedRows, feedRows, hselects, hlimit]

end

/-! ### Runs -/

section
variable {double : UInt64 → String} {printable : Char → Bool} {events : List EventRow}
  {actions : List FeedAction} {s : FeedState}

/-- Whatever the requests and the writes, and in whatever order: an answer is the feed of the
    request's own rows; and the parts of a key can be read back. -/
theorem feed_served (hrun : AnyRun (feedStep double printable) (.start events) actions s) :
    (∀ a ∈ s.answers, ServesFeed double printable s a) ∧
      ∀ r q, feedCacheKey printable r = feedCacheKey printable q ↔ SameFeed r q := by
  refine ⟨?_, fun r q => feedCacheKey_eq_iff⟩
  intro a ha
  obtain ⟨⟨fill, hmem, hkey, hstore, hcompute⟩, haccepts, hrecent⟩ := TimedCache.answered hrun a ha
  refine ⟨?_, ?_, hrecent⟩
  · change (checkFeed a.request).isOk = true at haccepts
    cases hcheck : checkFeed a.request with
    | error e => rw [hcheck] at haccepts; cases haccepts
    | ok => rfl
  · obtain ⟨now, -, hfeed⟩ := Option.map_eq_some_iff.mp hcompute
    refine ⟨fill.store, hstore, now, ?_⟩
    rw [← hfeed, (feedCacheKey_eq_iff.mp hkey).feedRows_eq]

end

def feedRequest : FeedRequest := { limit := some 10, tenantId := some "a" }

/-- The table changes between the two requests, and the second one gets the entry of the first. -/
def twoFeeds : List FeedAction :=
  [.request feedRequest 0, .compute 0 (some 0), .insert 0 5, .write [], .request feedRequest 60004]

def feedTable : List EventRow := [{ feedRow with tenantId := some "a" }]

def afterFeeds : FeedState :=
  (exec (feedStep bitsText fun _ => true) (.start feedTable) twoFeeds).get (by decide)

theorem run_twoFeeds :
    AnyRun (feedStep bitsText fun _ => true) (.start feedTable) twoFeeds afterFeeds :=
  anyRun_iff_exec.mpr (Option.some_get _).symm

def cachedFeed : FeedAnswer := afterFeeds.answers.head (by decide)

theorem feed_served_cachedFeed :
    cachedFeed.now = 60004 ∧ ServesFeed bitsText (fun _ => true) afterFeeds cachedFeed :=
  ⟨by decide, (feed_served run_twoFeeds).1 cachedFeed (List.head_mem _)⟩

end SorobanPulse.Events
