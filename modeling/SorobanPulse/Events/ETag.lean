import SorobanPulse.Events.CursorWalk

/-! The entity tag of `/v1/events`, and the 304 it answers.

    The tag is eight bytes of a SHA-256 over the first row's `id` and `created_at` and the total; the
    body has every requested column of every row.

        row 1   id  created_at │ other columns
        row 2   id  …          │                    the tag covers the left upper corner
        …                      │
        last row ──▶ next_cursor

    A page without rows has no tag, an offset page in NDJSON does not carry it. -/

namespace SorobanPulse.Events
open Lib

/-! ### The tag -/

/-- `Uuid::as_bytes` -/
def uuidBytes (id : Uuid) : List UInt8 :=
  (List.range 16).map fun i => .ofBitVec (id.extractLsb' (8 * (15 - i)) 8)

/-- `i64::to_le_bytes` -/
def leBytes (n : ℤ) : List UInt8 :=
  (List.range 8).map fun i => .ofBitVec ((BitVec.ofInt 64 n).extractLsb' (8 * i) 8)

/-- `timestamp_nanos_opt`, `none` outside the range of an `i64`. -/
def timestampNanosOpt (t : Timestamp) : Option ℤ :=
  if I64_MIN ≤ t * 1000 ∧ t * 1000 ≤ I64_MAX then some (t * 1000) else none

/-- What is hashed. -/
def etagBytes (lastId : Uuid) (lastCreatedAt : Timestamp) (total : Option ℤ) : List UInt8 :=
  uuidBytes lastId ++ leBytes ((timestampNanosOpt lastCreatedAt).getD 0) ++ leBytes (total.getD 0)

def computeEtag (sha256 : List UInt8 → List UInt8) (lastId : Uuid) (lastCreatedAt : Timestamp)
    (total : Option ℤ) : String :=
  let digest := sha256 (etagBytes lastId lastCreatedAt total)
  "\"" ++ String.ofList (base64Encode (digest.take 8)) ++ "\""

/-! ### The response -/

/-- How values are shown: chrono's serde form, and `event_data` decrypted and in its format. -/
structure Rendering where
  time : Timestamp → String
  eventData : Option String → Bool → Value → Except AppError Value

inductive Body where
  | json (data : List Value) (nextCursor : Option String) (total : Option ℤ)
  | ndjson (data : List Value)

inductive Response where
  | notModified (tag : String)
  | full (body : Body) (tag : Option String)

section
variable (libs : Libraries) (pg : Pg) (view : Rendering)
  (sha256 : List UInt8 → List UInt8)

/-- What a column shows of a row; other names show nothing. -/
def columnValue (p : PaginationParams) (col : String) : Option (EventRow → Except AppError Value) :=
  match col with
  | "id" => some fun row => .ok (.string (libs.uuidText row.id))
  | "contract_id" => some fun row => .ok (.string row.contractId)
  | "event_type" => some fun row => .ok (.string row.eventType)
  | "tx_hash" => some fun row => .ok (.string row.txHash)
  | "ledger" => some fun row => .ok (.number (.int row.ledger))
  | "timestamp" => some fun row => .ok (.string (view.time row.timestamp))
  | "event_data" => some fun row =>
    -- only the cursor path renders in the requested format
    view.eventData (if p.cursor.isSome then p.format else none) (p.compact.getD false) row.eventData
  | "event_data_normalized" => some fun row => .ok (row.eventDataNormalized.getD .null)
  | "event_data_decoded" => some fun row => .ok (row.eventDataDecoded.getD .null)
  | "ledger_hash" => some fun row => .ok ((row.ledgerHash.map .string).getD .null)
  | "in_successful_call" => some fun row => .ok (.bool row.inSuccessfulCall)
  | "created_at" => some fun row => .ok (.string (view.time row.createdAt))
  | "schema_version" => some fun row => .ok (.number (.int row.schemaVersion))
  | "anonymized" => some fun row => .ok (.bool row.anonymized)
  | _ => none

/-- The member a column adds to a rendered row. -/
def columnMember (p : PaginationParams) (row : EventRow) (col : String) :
    Except AppError (List (String × Value)) :=
  match columnValue libs view p col with
  | none => .ok []
  | some f => do
    let v ← f row
    return [(col, v)]

/-- A row as JSON; a column that is named twice is one member of the map. -/
def renderRow (r : Request) (row : EventRow) : Except AppError Value := do
  let members ← r.columnsList.dedup.mapM (columnMember libs view r.toPaginationParams row)
  return .object members.flatten

/-- The tag of a page: of its first row, though it is called the last. A page without rows has none. -/
def Listing.etag (l : Listing) : Option String :=
  l.rows.head?.map fun row => computeEtag sha256 row.id row.createdAt (l.total.map (·.1))

/-- What the response is made of; NDJSON is the rows alone. -/
def Listing.body (l : Listing) (ndjson : Bool) (data : List Value) : Body :=
  if ndjson then .ndjson data else .json data l.nextCursor (l.total.map (·.1))

/-- `get_events` up to its response: `ifNoneMatch` is the header, `ndjson` what `Accept` asks for.
    An offset response in NDJSON carries no tag. -/
def respond (db : Database) (isAdmin : Bool) (tenantId : Option String) (ndjson : Bool)
    (p : PaginationParams) (ifNoneMatch : Option String) : Except AppError Response := do
  let r ← validate libs.parseTimestamp isAdmin tenantId p
  let l ← listEvents libs pg db r
  let data ← l.rows.mapM (renderRow libs view r)
  match l.etag sha256 with
  | none => return .full (l.body ndjson data) none
  | some e =>
    if ifNoneMatch = some e then return .notModified e
    else return .full (l.body ndjson data) (if ndjson && p.cursor.isNone then none else some e)

variable (isAdmin : Bool) (tenantId : Option String) (ndjson : Bool) (p : PaginationParams)

/-- A tag from the first state that is answered 304 in the second stands for the same body. -/
def NeverStale (db₁ db₂ : Database) : Prop :=
  ∀ e body₁ body₂ t,
    respond libs pg view sha256 db₁ isAdmin tenantId ndjson p none = .ok (.full body₁ (some e)) →
    respond libs pg view sha256 db₂ isAdmin tenantId ndjson p (some e) = .ok (.notModified e) →
    respond libs pg view sha256 db₂ isAdmin tenantId ndjson p none = .ok (.full body₂ t) →
    body₂ = body₁

/-- The page of a state, where it can be rendered. -/
def Page (db : Database) (r : Request) (l : Listing) (data : List Value) : Prop :=
  validate libs.parseTimestamp isAdmin tenantId p = .ok r ∧ listEvents libs pg db r = .ok l ∧
    l.rows.mapM (renderRow libs view r) = .ok data

/-- Both rows show the same in these columns. -/
def SameColumns (r : Request) (cols : List String) (a b : EventRow) : Prop :=
  ∀ col ∈ cols, ∀ f ∈ columnValue libs view r.toPaginationParams col, f a = f b

/-- What is not hashed: the other columns of the first row, the other rows, and the row the next
    cursor is made of. -/
structure SameUncovered (r : Request) (l₁ l₂ : Listing) : Prop where
  rows : List.Forall₂ (SameColumns libs view r r.columnsList) l₁.rows.tail l₂.rows.tail
  first : ∀ a ∈ l₁.rows.head?, ∀ b ∈ l₂.rows.head?,
    SameColumns libs view r (r.columnsList.filter (· ≠ "id")) a b
  last : ndjson = false → l₁.rows.length = r.effectiveLimit →
    ∀ a ∈ l₁.rows.getLast?, ∀ b ∈ l₂.rows.getLast?,
      rowCursor libs r.sortColumn a = rowCursor libs r.sortColumn b

/-- And what is hashed, where it is shown; only eight bytes that collide tell these pages apart. -/
structure SameShown (r : Request) (l₁ l₂ : Listing) : Prop
    extends SameUncovered libs view ndjson r l₁ l₂ where
  id : "id" ∈ r.columnsList → ∀ a ∈ l₁.rows.head?, ∀ b ∈ l₂.rows.head?,
    libs.uuidText a.id = libs.uuidText b.id
  total : ndjson = false → l₁.total.map (·.1) = l₂.total.map (·.1)

/-- Where the two pages have one tag, and the response one to carry it, they show the same. -/
def TagSuffices (db₁ db₂ : Database) : Prop :=
  ∀ r l₁ data₁ l₂ data₂ e, Page libs pg view isAdmin tenantId p db₁ r l₁ data₁ →
    Page libs pg view isAdmin tenantId p db₂ r l₂ data₂ → l₁.etag sha256 = some e →
    l₂.etag sha256 = some e → (ndjson && p.cursor.isNone) = false →
    SameShown libs view ndjson r l₁ l₂

end

/-! ### Rendered rows -/

theorem mapM_ok_iff {ε α β : Type} {f : α → Except ε β} {l : List α} {out : List β} :
    l.mapM f = .ok out ↔ List.Forall₂ (fun a b => f a = .ok b) l out := by
  induction l generalizing out with
  | nil =>
    rw [List.mapM_nil, List.forall₂_nil_left_iff]
    exact ⟨fun h => (Except.ok.inj h).symm, fun h => h ▸ rfl⟩
  | cons a l ih =>
    rw [List.mapM_cons]
    constructor
    · intro h
      rcases bind_eq_ok h with ⟨b, hb, h⟩
      rcases bind_eq_ok h with ⟨bs, hbs, h⟩
      rw [← Except.ok.inj h]
      exact .cons hb (ih.mp hbs)
    · rintro (_ | ⟨hb, hbs⟩)
      rw [hb, ok_bind, ih.mpr hbs]
      rfl

section
variable {libs : Libraries} {pg : Pg} {view : Rendering} {r : Request}

theorem columnMember_of_none {p : PaginationParams} {a : EventRow} {col : String}
    {m : List (String × Value)} (hcol : columnValue libs view p col = none)
    (h : columnMember libs view p a col = .ok m) : m = [] := by
  rw [columnMember, hcol] at h
  exact (Except.ok.inj h).symm

theorem columnMember_of_some {p : PaginationParams} {a : EventRow} {col : String}
    {m : List (String × Value)} {f : EventRow → Except AppError Value}
    (hcol : columnValue libs view p col = some f) (h : columnMember libs view p a col = .ok m) :
    ∃ v, f a = .ok v ∧ m = [(col, v)] := by
  rw [columnMember, hcol] at h
  rcases bind_eq_ok h with ⟨v, hv, h⟩
  exact ⟨v, hv, (Except.ok.inj h).symm⟩

/-- Whether a column shows anything does not depend on the row. -/
theorem length_columnMember {p : PaginationParams} {a b : EventRow} {col : String}
    {m n : List (String × Value)} (ha : columnMember libs view p a col = .ok m)
    (hb : columnMember libs view p b col = .ok n) : m.length = n.length := by
  cases hcol : columnValue libs view p col with
  | none => rw [columnMember_of_none hcol ha, columnMember_of_none hcol hb]
  | some f =>
    rcases columnMember_of_some hcol ha with ⟨v, -, rfl⟩
    rcases columnMember_of_some hcol hb with ⟨w, -, rfl⟩
    rfl

/-- Members are alike when the column shows the same. -/
theorem columnMember_eq_iff {p : PaginationParams} {a b : EventRow} {col : String}
    {m n : List (String × Value)} (ha : columnMember libs view p a col = .ok m)
    (hb : columnMember libs view p b col = .ok n) :
    m = n ↔ ∀ f ∈ columnValue libs view p col, f a = f b := by
  cases hcol : columnValue libs view p col with
  | none => simp [columnMember_of_none hcol ha, columnMember_of_none hcol hb]
  | some f =>
    rcases columnMember_of_some hcol ha with ⟨v, hv, rfl⟩
    rcases columnMember_of_some hcol hb with ⟨w, hw, rfl⟩
    simp [hv, hw]

/-- Column by column. -/
theorem flatten_members_eq_iff {p : PaginationParams} {a b : EventRow} {cols : List String}
    {ms ns : List (List (String × Value))}
    (ha : List.Forall₂ (fun col m => columnMember libs view p a col = .ok m) cols ms)
    (hb : List.Forall₂ (fun col n => columnMember libs view p b col = .ok n) cols ns) :
    ms.flatten = ns.flatten ↔ ∀ col ∈ cols, ∀ f ∈ columnValue libs view p col, f a = f b := by
  induction ha generalizing ns with
  | nil =>
    cases hb
    simp
  | cons hm _ ih =>
    rcases hb with _ | ⟨hn, hb⟩
    rw [List.flatten_cons, List.flatten_cons, List.forall_mem_cons, ← columnMember_eq_iff hm hn, ← ih hb]
    constructor
    · exact fun h => List.append_inj h (length_columnMember hm hn)
    · rintro ⟨rfl, h⟩
      rw [h]

theorem renderRow_eq_iff {a b : EventRow} {x y : Value} (ha : renderRow libs view r a = .ok x)
    (hb : renderRow libs view r b = .ok y) : x = y ↔ SameColumns libs view r r.columnsList a b := by
  rcases bind_eq_ok ha with ⟨ms, hms, ha⟩
  rcases bind_eq_ok hb with ⟨ns, hns, hb⟩
  rw [← Except.ok.inj ha, ← Except.ok.inj hb, Value.object.injEq,
    flatten_members_eq_iff (mapM_ok_iff.mp hms) (mapM_ok_iff.mp hns)]
  simp only [List.mem_dedup]
  rfl

/-- Two pages show the same data when their rows do, one by one. -/
theorem data_eq_iff {rows₁ rows₂ : List EventRow} {data₁ data₂ : List Value}
    (h₁ : rows₁.mapM (renderRow libs view r) = .ok data₁)
    (h₂ : rows₂.mapM (renderRow libs view r) = .ok data₂) :
    data₁ = data₂ ↔ List.Forall₂ (SameColumns libs view r r.columnsList) rows₁ rows₂ := by
  rw [mapM_ok_iff] at h₁ h₂
  induction h₁ generalizing rows₂ data₂ with
  | nil =>
    cases h₂ with
    | nil => exact ⟨fun _ => .nil, fun _ => rfl⟩
    | cons _ _ => exact ⟨nofun, nofun⟩
  | cons ha _ ih =>
    cases h₂ with
    | nil => exact ⟨nofun, nofun⟩
    | cons hb h₂ =>
      rw [List.cons.injEq, List.forall₂_cons, ih h₂, renderRow_eq_iff ha hb]

/-! ### The tag's page -/

/-- The first row's `id`, and its other columns. -/
theorem sameColumns_first {a b : EventRow} :
    SameColumns libs view r r.columnsList a b ↔
      SameColumns libs view r (r.columnsList.filter (· ≠ "id")) a b ∧
        ("id" ∈ r.columnsList → libs.uuidText a.id = libs.uuidText b.id) := by
  constructor
  · intro h
    refine ⟨fun col hcol => h col (List.mem_of_mem_filter hcol), fun hid => ?_⟩
    have hshown := h "id" hid _ rfl
    exact Value.string.inj (Except.ok.inj hshown)
  · rintro ⟨hother, hid⟩ col hcol
    by_cases hc : col = "id"
    · rw [hc]
      rintro f ⟨⟩
      dsimp only
      rw [hid (hc ▸ hcol)]
    · exact hother col (List.mem_filter.mpr ⟨hcol, by simpa using hc⟩)

/-- The next cursor is made from the rows, and there is a total exactly on the offset path. -/
theorem listEvents_answer {db : Database} {l : Listing} (h : listEvents libs pg db r = .ok l) :
    l.nextCursor = nextCursor libs r.sortColumn r.effectiveLimit l.rows ∧
      l.total.isSome = r.cursor.isNone := by
  rw [listEvents] at h
  split at h
  · next hcursor =>
    iterate 4 rcases bind_eq_ok h with ⟨_, -, h⟩
    rcases bind_eq_ok h with ⟨_, -, h⟩
    rw [← Except.ok.inj h, hcursor]
    exact ⟨rfl, rfl⟩
  · next hcursor =>
    iterate 3 rcases bind_eq_ok h with ⟨_, -, h⟩
    rw [← Except.ok.inj h, hcursor]
    exact ⟨rfl, rfl⟩

theorem nextCursor_eq_iff {sortBy : SortBy} {limit : ℕ} {rows₁ rows₂ : List EventRow}
    (hlen : rows₁.length = rows₂.length) :
    nextCursor libs sortBy limit rows₁ = nextCursor libs sortBy limit rows₂ ↔
      (rows₁.length = limit → ∀ a ∈ rows₁.getLast?, ∀ b ∈ rows₂.getLast?,
        rowCursor libs sortBy a = rowCursor libs sortBy b) := by
  rw [nextCursor, nextCursor, ← hlen]
  split
  · next hfull =>
    rw [forall_prop_of_true hfull]
    rcases List.eq_nil_or_concat rows₁ with rfl | ⟨init₁, a, rfl⟩
    · rw [List.length_nil, eq_comm, List.length_eq_zero_iff] at hlen
      rw [hlen]
      simp
    · rcases List.eq_nil_or_concat rows₂ with rfl | ⟨init₂, b, rfl⟩
      · simp at hlen
      · simp only [List.concat_eq_append, List.getLast?_concat, Option.map_some, Option.mem_def,
          Option.some.injEq, forall_eq']
        rfl
  · next hfull => exact ⟨fun _ h => absurd h hfull, fun _ => rfl⟩

/-- Of pages with a first row, the bodies are equal when all that they show is. -/
theorem body_eq_iff {db₁ db₂ : Database} {isAdmin ndjson : Bool} {tenantId : Option String}
    {p : PaginationParams} {l₁ l₂ : Listing} {data₁ data₂ : List Value} {a b : EventRow}
    (h₁ : Page libs pg view isAdmin tenantId p db₁ r l₁ data₁)
    (h₂ : Page libs pg view isAdmin tenantId p db₂ r l₂ data₂)
    (ha : l₁.rows.head? = some a) (hb : l₂.rows.head? = some b) :
    l₂.body ndjson data₂ = l₁.body ndjson data₁ ↔ SameShown libs view ndjson r l₁ l₂ := by
  rcases List.head?_eq_some_iff.mp ha with ⟨t₁, ht₁⟩
  rcases List.head?_eq_some_iff.mp hb with ⟨t₂, ht₂⟩
  have hdata : data₂ = data₁ ↔ (SameColumns libs view r (r.columnsList.filter (· ≠ "id")) a b ∧
      ("id" ∈ r.columnsList → libs.uuidText a.id = libs.uuidText b.id)) ∧
      List.Forall₂ (SameColumns libs view r r.columnsList) t₁ t₂ := by
    rw [eq_comm, data_eq_iff h₁.2.2 h₂.2.2, ht₁, ht₂, List.forall₂_cons, sameColumns_first]
  have hlen : List.Forall₂ (SameColumns libs view r r.columnsList) t₁ t₂ →
      l₁.rows.length = l₂.rows.length := by
    intro h
    rw [ht₁, ht₂, List.length_cons, List.length_cons, h.length_eq]
  have hnext := fun h => @nextCursor_eq_iff libs r.sortColumn r.effectiveLimit _ _ (hlen h)
  rw [← (listEvents_answer h₁.2.1).1, ← (listEvents_answer h₂.2.1).1] at hnext
  constructor
  · intro hbody
    -- a full JSON page shows three things, NDJSON the rows alone
    have hsame : data₂ = data₁ ∧ (ndjson = false →
        l₂.nextCursor = l₁.nextCursor ∧ l₂.total.map (·.1) = l₁.total.map (·.1)) := by
      cases ndjson with
      | true => exact ⟨Body.ndjson.inj hbody, nofun⟩
      | false => exact ⟨(Body.json.inj hbody).1, fun _ => (Body.json.inj hbody).2⟩
    rcases hdata.mp hsame.1 with ⟨⟨hfirst, hid⟩, htail⟩
    refine ⟨⟨?_, ?_, ?_⟩, ?_, ?_⟩
    · rw [ht₁, ht₂]
      exact htail
    · rw [ha, hb]
      rintro _ ⟨⟩ _ ⟨⟩
      exact hfirst
    · intro hjson
      exact (hnext htail).mp (hsame.2 hjson).1.symm
    · rw [ha, hb]
      rintro hcol _ ⟨⟩ _ ⟨⟩
      exact hid hcol
    · exact fun hjson => (hsame.2 hjson).2.symm
  · rintro ⟨⟨hrows, hfirst, hlast⟩, hid, htotal⟩
    rw [ht₁, ht₂] at hrows
    have hsame := hdata.mpr ⟨⟨hfirst a ha b hb, fun hcol => hid hcol a ha b hb⟩, hrows⟩
    cases ndjson with
    | true => exact congrArg Body.ndjson hsame
    | false =>
      have hcursor := (hnext hrows).mpr (hlast rfl)
      rw [Listing.body, Listing.body, if_neg Bool.false_ne_true, if_neg Bool.false_ne_true, hsame,
        hcursor, htotal rfl]

end

/-! ### 304 -/

section
variable {libs : Libraries} {pg : Pg} {view : Rendering} {sha256 : List UInt8 → List UInt8}
  {isAdmin ndjson : Bool} {tenantId : Option String} {p : PaginationParams}

theorem respond_page {db : Database} {r : Request} {l : Listing} {data : List Value}
    (h : Page libs pg view isAdmin tenantId p db r l data) (ifNoneMatch : Option String) :
    respond libs pg view sha256 db isAdmin tenantId ndjson p ifNoneMatch =
      match l.etag sha256 with
      | none => .ok (.full (l.body ndjson data) none)
      | some e =>
        if ifNoneMatch = some e then .ok (.notModified e)
        else .ok (.full (l.body ndjson data) (if ndjson && p.cursor.isNone then none else some e)) := by
  rw [respond, h.1, ok_bind, h.2.1, ok_bind, h.2.2, ok_bind]
  cases l.etag sha256 with
  | none => rfl
  | some e => split <;> rfl

theorem page_of_respond {db : Database} {ifNoneMatch : Option String} {x : Response}
    (h : respond libs pg view sha256 db isAdmin tenantId ndjson p ifNoneMatch = .ok x) :
    ∃ r l data, Page libs pg view isAdmin tenantId p db r l data := by
  rcases bind_eq_ok h with ⟨r, hr, h⟩
  rcases bind_eq_ok h with ⟨l, hl, h⟩
  rcases bind_eq_ok h with ⟨data, hdata, -⟩
  exact ⟨r, l, data, hr, hl, hdata⟩

/-- The response to a request without `If-None-Match`. -/
theorem respond_none {db : Database} {r : Request} {l : Listing} {data : List Value} {e : String}
    (h : Page libs pg view isAdmin tenantId p db r l data) (he : l.etag sha256 = some e) :
    respond libs pg view sha256 db isAdmin tenantId ndjson p none =
      .ok (.full (l.body ndjson data) (if ndjson && p.cursor.isNone then none else some e)) := by
  rw [respond_page h, he]
  rfl

/-- 304 is answered to the page's own tag only. -/
theorem respond_notModified {db : Database} {r : Request} {l : Listing} {data : List Value}
    {e e' : String} (h : Page libs pg view isAdmin tenantId p db r l data) :
    respond libs pg view sha256 db isAdmin tenantId ndjson p (some e) = .ok (.notModified e') ↔
      e = e' ∧ l.etag sha256 = some e := by
  rw [respond_page h]
  cases l.etag sha256 with
  | none => exact ⟨nofun, fun h => nomatch h.2⟩
  | some own =>
    dsimp only
    by_cases he : e = own
    · rw [he, if_pos rfl]
      constructor
      · rintro ⟨⟩
        exact ⟨rfl, rfl⟩
      · rintro ⟨rfl, -⟩
        rfl
    · rw [if_neg (fun h => he (Option.some.inj h))]
      exact ⟨nofun, fun h => absurd (Option.some.inj h.2).symm he⟩

/-- A page with a tag has a first row. -/
theorem head_of_etag {l : Listing} {e : String} (h : l.etag sha256 = some e) :
    ∃ a, l.rows.head? = some a := by
  rcases Option.map_eq_some_iff.mp h with ⟨a, ha, -⟩
  exact ⟨a, ha⟩

theorem tagSuffices_of_neverStale {db₁ db₂ : Database}
    (h : NeverStale libs pg view sha256 isAdmin tenantId ndjson p db₁ db₂) :
    TagSuffices libs pg view sha256 isAdmin tenantId ndjson p db₁ db₂ := by
  intro r l₁ data₁ l₂ data₂ e h₁ h₂ he₁ he₂ hcarried
  have hfirst : respond libs pg view sha256 db₁ isAdmin tenantId ndjson p none = _ :=
    respond_none h₁ he₁
  have hsecond : respond libs pg view sha256 db₂ isAdmin tenantId ndjson p none = _ :=
    respond_none h₂ he₂
  have hnot : respond libs pg view sha256 db₂ isAdmin tenantId ndjson p (some e) =
      .ok (.notModified e) := (respond_notModified h₂).mpr ⟨rfl, he₂⟩
  rw [hcarried] at hfirst hsecond
  rcases head_of_etag he₁ with ⟨a, ha⟩
  rcases head_of_etag he₂ with ⟨b, hb⟩
  exact (body_eq_iff h₁ h₂ ha hb).mp (h _ _ _ _ hfirst hnot hsecond)

/-- A 304 is never stale exactly when pages with one tag show the same. -/
theorem neverStale_iff {db₁ db₂ : Database} :
    NeverStale libs pg view sha256 isAdmin tenantId ndjson p db₁ db₂ ↔
      TagSuffices libs pg view sha256 isAdmin tenantId ndjson p db₁ db₂ := by
  constructor
  · exact tagSuffices_of_neverStale
  · intro h e body₁ body₂ t hfirst hnot hsecond
    rcases page_of_respond hfirst with ⟨r, l₁, data₁, h₁⟩
    rcases page_of_respond hnot with ⟨r', l₂, data₂, h₂⟩
    obtain rfl : r = r' := Except.ok.inj (h₁.1.symm.trans h₂.1)
    have he₂ := ((respond_notModified h₂).mp hnot).2
    cases he₁ : l₁.etag sha256 with
    | none =>
      rw [respond_page h₁, he₁] at hfirst
      cases hfirst
    | some own =>
      rw [respond_none h₁ he₁, Except.ok.injEq, Response.full.injEq] at hfirst
      rw [respond_none h₂ he₂, Except.ok.injEq, Response.full.injEq] at hsecond
      -- NDJSON of the offset path would have carried no tag to ask with
      have hcarried : (ndjson && p.cursor.isNone) = false := by
        by_contra hc
        rw [if_pos (by simpa using hc)] at hfirst
        cases hfirst.2
      rw [hcarried] at hfirst
      rw [Option.some.inj hfirst.2] at he₁
      rcases head_of_etag he₁ with ⟨a, ha⟩
      rcases head_of_etag he₂ with ⟨b, hb⟩
      rw [← hfirst.1, ← hsecond.1]
      exact (body_eq_iff h₁ h₂ ha hb).mpr (h r l₁ data₁ l₂ data₂ e h₁ h₂ he₁ he₂ hcarried)

end

/-! ### One event, before and after it is anonymized -/

def plainRendering : Rendering where
  time := Lib.rfc3339
  eventData _ _ v := .ok v

/-- `anonymize_event`: the payload is replaced, and the hash of the transaction by its own. -/
def anonymizeEvent (sha256 : List UInt8 → List UInt8) (row : EventRow) : EventRow :=
  { row with
    anonymized := true
    eventData := .object [("anonymized", .bool true)]
    txHash := String.ofList (lowerHex (sha256 (asBytes row.txHash))) }

/-- The table with one event; `pg_class` has counted it. -/
def oneEvent (row : EventRow) : Database := ⟨[row], 1⟩

def defaultRequest : Request :=
  { contractIdsList := [], fromTs := none, toTs := none, columnsList := ALLOWED_FIELDS, tenantId := none }

theorem page_oneEvent (row : EventRow) : ∃ data, Page plainLibraries plainPg plainRendering false none {}
    (oneEvent row) defaultRequest ⟨[row], none, some (1, true)⟩ data := ⟨_, rfl, rfl, rfl⟩

/-- One update under the tag's eyes: the answer to the old tag is a 304, whatever SHA-256 makes of it. -/
theorem neverStale_anonymized_refuted :
    ¬∃ sha256, NeverStale plainLibraries plainPg plainRendering sha256 false none false {}
      (oneEvent mainnetEvent) (oneEvent (anonymizeEvent sha256 mainnetEvent)) := by
  rintro ⟨sha256, h⟩
  rcases page_oneEvent mainnetEvent with ⟨data₁, h₁⟩
  rcases page_oneEvent (anonymizeEvent sha256 mainnetEvent) with ⟨data₂, h₂⟩
  have hsame := tagSuffices_of_neverStale h _ _ _ _ _ _ h₁ h₂ rfl rfl rfl
  have hcolumn := hsame.first mainnetEvent rfl _ rfl "anonymized" (by decide) _ rfl
  cases hcolumn

end SorobanPulse.Events
