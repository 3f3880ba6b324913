import SorobanPulse.Lib.Csv
import SorobanPulse.Events.FilterPaths

/-! `export_events`: the selected events as CSV or as JSON lines.

        checks ──▶ rows by (ledger, id), LIMIT ──▶ field_map ──▶ COUNT ─┬─ jsonl   an empty loop
                                                                       └─ csv     header and lines

    A value of a CSV row is quoted where it has to be; a header name, which the client may choose by
    `field_map`, never is. The loop over the rows for JSON lines has no body. There is no `parquet`
    feature to switch on, and that format gets the CSV. -/

namespace SorobanPulse.Events
open Lib

/-- Source field names and the names they are given. -/
abbrev FieldMap := List (String × String)

structure ExportRequest extends ExportParams where
  format : Option String := none
  fieldMap : Option String := none

structure ExportConfig where
  apiKeys : List String
  exportMaxRows : ℕ

/-- `default_cols`. -/
inductive ExportColumn where
  | id | contract_id | event_type | tx_hash | ledger | timestamp | event_data | created_at
  deriving DecidableEq, Repr

def defaultCols : List ExportColumn :=
  [.id, .contract_id, .event_type, .tx_hash, .ledger, .timestamp, .event_data, .created_at]

def ExportColumn.name : ExportColumn → String
  | .id => "id"
  | .contract_id => "contract_id"
  | .event_type => "event_type"
  | .tx_hash => "tx_hash"
  | .ledger => "ledger"
  | .timestamp => "timestamp"
  | .event_data => "event_data"
  | .created_at => "created_at"

/-! ### Bodies -/

/-- `csv_escape_field`. -/
def csvEscapeField (value : String) : String :=
  if value.toList.any Csv.isSpecial then
    String.ofList ('"' :: (Csv.doubleQuotes value.toList ++ ['"']))
  else value

/-- The name of a column in the header. -/
def headerName (fieldMap : Option FieldMap) (c : ExportColumn) : String :=
  (fieldMap.bind (·.lookup c.name)).getD c.name

def headerNames (fieldMap : Option FieldMap) : List String := defaultCols.map (headerName fieldMap)

def csvLine (values : List String) : String := ",".intercalate values ++ "\n"

section
variable (libs : Libraries)

/-- The value of a column, as a text. -/
def ExportColumn.value (row : EventRow) : ExportColumn → String
  | .id => libs.uuidText row.id
  | .contract_id => row.contractId
  | .event_type => row.eventType
  | .tx_hash => row.txHash
  | .ledger => i64Text row.ledger
  | .timestamp => libs.toRfc3339 row.timestamp
  | .event_data => libs.jsonText row.eventData
  | .created_at => libs.toRfc3339 row.createdAt

/-- The value in a CSV line; the ledger number is not escaped. -/
def ExportColumn.csv (row : EventRow) : ExportColumn → String
  | .ledger => i64Text row.ledger
  | c => csvEscapeField (c.value libs row)

def csvBody (fieldMap : Option FieldMap) (rows : List EventRow) : String :=
  rows.foldl (fun csvData row => csvData ++ csvLine (defaultCols.map (ExportColumn.csv libs row)))
    (csvLine (headerNames fieldMap))

/-- The loop goes over the rows and does nothing. -/
def jsonlBody (rows : List EventRow) : String := rows.foldl (fun jsonl _ => jsonl) ""

/-! ### The handler -/

inductive ExportFormat where
  | csv | parquet | jsonl
  deriving DecidableEq, Repr

def exportFormat (format : Option String) : Except AppError ExportFormat :=
  let fmt := format.getD "csv"
  if fmt = "csv" ∨ fmt = "" then .ok .csv
  else if fmt = "parquet" then .ok .parquet
  else if fmt = "jsonl" ∨ fmt = "ndjson" then .ok .jsonl
  else .error (.Validation s!"unsupported format '{fmt}': use 'csv', 'parquet', or 'jsonl'")

/-- What the response is written from. -/
structure Export where
  format : ExportFormat
  fieldMap : Option FieldMap
  rows : List EventRow
  totalCount : ℕ

structure ExportResponse where
  contentType : String
  contentDisposition : String
  contentRange : String
  body : String

def Export.contentRange (x : Export) : String :=
  let last := i64Text ((x.rows.length : ℤ) - 1)
  let total := i64Text x.totalCount
  s!"items 0-{last}/{total}"

def Export.respond (x : Export) : ExportResponse :=
  match x.format with
  | .jsonl =>
    { contentType := "application/x-ndjson"
      contentDisposition := "attachment; filename=\"events.jsonl\""
      contentRange := x.contentRange
      body := jsonlBody x.rows }
  | .csv | .parquet =>
    { contentType := "text/csv"
      contentDisposition := "attachment; filename=\"events.csv\""
      contentRange := x.contentRange
      body := csvBody libs x.fieldMap x.rows }

variable (readFieldMap : String → Option FieldMap) (cfg : ExportConfig) (pg : Pg) (db : Database)

/-- The map of the request: a JSON object of strings, whose keys are event fields. -/
def exportFieldMap (fieldMap : Option String) : Except AppError (Option FieldMap) :=
  match fieldMap with
  | none => .ok none
  | some fm =>
    match readFieldMap fm with
    | none => .error (.Validation
        "field_map must be a JSON object mapping source field names to target field names")
    | some m => do
      m.forM fun entry =>
        rejectIf (!ALLOWED_FIELDS.contains entry.1)
          (.Validation s!"unknown source field in field_map: {entry.1}")
      return some m

/-- `export_events`, as far as the counts. -/
def prepareExport (p : ExportRequest) : Except AppError Export := do
  rejectIf cfg.apiKeys.isEmpty (.Validation "export endpoint requires API key authentication")
  validateRange "from_ledger must be <= to_ledger" p.fromLedger p.toLedger
  p.fromLedger.forM (validateLedgerParam "from_ledger")
  p.toLedger.forM (validateLedgerParam "to_ledger")
  match p.fromTimestamp, p.toTimestamp with
  | some fromTs, some toTs =>
    rejectIf (decide (toTs ≤ fromTs)) (.Validation "from_timestamp must be < to_timestamp")
  | _, _ => .ok ()
  let format ← exportFormat p.format
  -- `as i64` is negative from here on, which `LIMIT` refuses
  rejectIf (decide (2 ^ 63 ≤ cfg.exportMaxRows)) .Database
  let selected ← (exportQuery p.toExportParams cfg.exportMaxRows).select pg .Ledger .Asc db.events
  let rows := (offsetOrder .Ledger .Asc selected).take cfg.exportMaxRows
  let fieldMap ← exportFieldMap readFieldMap p.fieldMap
  let counted ← (exportCountQuery p.toExportParams).select pg .Ledger .Asc db.events
  return { format, fieldMap, rows, totalCount := counted.length }

def exportEvents (p : ExportRequest) : Except AppError ExportResponse := do
  let x ← prepareExport readFieldMap cfg pg db p
  return x.respond libs

end

/-! ### What a reader makes of the bodies -/

/-- The mapped names, and a record of eight fields for each row. -/
def exportRecords (libs : Libraries) (x : Export) : List (List Csv.Field) :=
  (headerNames x.fieldMap).map String.toList ::
    x.rows.map fun row => defaultCols.map fun c => (c.value libs row).toList

/-- The value of a column in JSON. -/
def ExportColumn.json (libs : Libraries) (row : EventRow) : ExportColumn → Value
  | .ledger => .number (.int row.ledger)
  | .event_data => row.eventData
  | c => .string (c.value libs row)

/-- The lines of a body that have something on them. -/
def jsonLines (body : String) : List String :=
  ((body.toList.splitOn '\n').filter (· ≠ [])).map String.ofList

/-- The line is an object with the eight fields of the row. -/
def CarriesRow (libs : Libraries) (readJson : String → Option Value) (fieldMap : Option FieldMap)
    (row : EventRow) (text : String) : Prop :=
  ∃ map, readJson text = some (.object map) ∧
    ∀ c ∈ defaultCols, map.lookup (headerName fieldMap c) = some (c.json libs row)

/-- The body says what was exported. -/
def Export.Faithful (libs : Libraries) (readJson : String → Option Value) (x : Export)
    (body : String) : Prop :=
  match x.format with
  | .jsonl => List.Forall₂ (CarriesRow libs readJson x.fieldMap) x.rows (jsonLines body)
  | .csv | .parquet => Csv.parse body.toList = some (exportRecords libs x)

/-- The header names need no quotes, and no row is asked for in JSON lines. -/
def Export.Harmless (x : Export) : Prop :=
  match x.format with
  | .jsonl => x.rows = []
  | .csv | .parquet => ∀ c ∈ defaultCols, Csv.Plain (headerName x.fieldMap c).toList

/-! ### CSV -/

theorem csvEscapeField_encodes (value : String) :
    Csv.Encodes value.toList (csvEscapeField value).toList := by
  rw [csvEscapeField]
  split
  · rw [String.toList_ofList]
    exact .quoted _
  · next h =>
    refine .plain fun c hc => ?_
    rw [Bool.not_eq_true, List.any_eq_false] at h
    exact Bool.eq_false_iff.mpr (h c hc)

theorem i64Text_plain (v : ℤ) : Csv.Plain (i64Text v).toList := by
  have hdigits : Csv.Plain (decimal 1 v.natAbs) := by
    intro c hc
    have hdigit := isDigit_of_mem_decimal hc
    rw [Csv.isSpecial]
    by_contra hspecial
    simp only [Bool.not_eq_false, Bool.or_eq_true, beq_iff_eq] at hspecial
    rcases hspecial with ((rfl | rfl) | rfl) | rfl <;> exact absurd hdigit (by decide)
  rw [i64Text, String.toList_ofList]
  split
  · intro c hc
    rcases List.mem_cons.mp hc with rfl | hc
    · rfl
    · exact hdigits c hc
  · exact hdigits

theorem csv_encodes (libs : Libraries) (row : EventRow) (c : ExportColumn) :
    Csv.Encodes (c.value libs row).toList (c.csv libs row).toList := by
  cases c with
  | ledger => exact .plain (i64Text_plain _)
  | id | contract_id | event_type | tx_hash | timestamp | event_data | created_at =>
    exact csvEscapeField_encodes _

theorem toList_csvLine (values : List String) :
    (csvLine values).toList = Csv.line (values.map String.toList) := by
  rw [csvLine, Csv.line, String.toList_append, String.toList_intercalate]
  rfl

/-- The texts of a row. -/
def csvTexts (libs : Libraries) (row : EventRow) : List (List Char) :=
  defaultCols.map fun c => (c.csv libs row).toList

/-- The body is the header and the rows one after the other. -/
theorem toList_csvBody (libs : Libraries) (fieldMap : Option FieldMap) (rows : List EventRow) :
    (csvBody libs fieldMap rows).toList =
      Csv.line ((headerNames fieldMap).map String.toList) ++
        (rows.map (csvTexts libs)).flatMap Csv.line := by
  rw [csvBody, ← toList_csvLine]
  generalize csvLine (headerNames fieldMap) = csvData
  induction rows generalizing csvData with
  | nil => simp
  | cons row rows ih =>
    rw [List.foldl_cons, ih, String.toList_append, toList_csvLine, List.map_map, List.map_cons,
      List.flatMap_cons, List.append_assoc]
    rfl

theorem rows_read (libs : Libraries) (rows : List EventRow) :
    Csv.parse ((rows.map (csvTexts libs)).flatMap Csv.line) =
      some (rows.map fun row => defaultCols.map fun c => (c.value libs row).toList) := by
  apply Csv.parse_lines
  · rw [List.forall₂_map_left_iff, List.forall₂_map_right_iff, List.forall₂_same]
    intro row _
    rw [csvTexts, List.forall₂_map_left_iff, List.forall₂_map_right_iff, List.forall₂_same]
    exact fun c _ => csv_encodes libs row c
  · intro r hr
    obtain ⟨row, -, rfl⟩ := List.mem_map.mp hr
    exact List.cons_ne_nil _ _

theorem csvBody_read_iff (libs : Libraries) (x : Export) :
    Csv.parse (csvBody libs x.fieldMap x.rows).toList = some (exportRecords libs x) ↔
      ∀ c ∈ defaultCols, Csv.Plain (headerName x.fieldMap c).toList := by
  have hne : (headerNames x.fieldMap).map String.toList ≠ [] := List.cons_ne_nil _ _
  rw [toList_csvBody, exportRecords, Csv.parse_line_iff hne (rows_read libs x.rows)]
  simp [headerNames]

/-! ### JSON lines -/

theorem jsonLines_body (rows : List EventRow) : jsonLines (jsonlBody rows) = [] := by
  have hbody : jsonlBody rows = "" := by
    rw [jsonlBody]
    induction rows with
    | nil => rfl
    | cons _ rows ih => exact ih
  rw [hbody]
  rfl

theorem respond_faithful_iff (libs : Libraries) (readJson : String → Option Value) (x : Export) :
    x.Faithful libs readJson (x.respond libs).body ↔ x.Harmless := by
  rw [Export.Faithful, Export.respond, Export.Harmless]
  cases x.format with
  | csv | parquet => exact csvBody_read_iff libs x
  | jsonl =>
    show List.Forall₂ _ x.rows (jsonLines (jsonlBody x.rows)) ↔ x.rows = []
    rw [jsonLines_body, List.forall₂_nil_right_iff]

theorem exportEvents_eq (libs : Libraries) {readFieldMap : String → Option FieldMap}
    {cfg : ExportConfig} {pg : Pg} {db : Database} {p : ExportRequest} {x : Export}
    (h : prepareExport readFieldMap cfg pg db p = .ok x) :
    exportEvents libs readFieldMap cfg pg db p = .ok (x.respond libs) := by
  rw [exportEvents, h]
  rfl

/-- A request that is accepted is answered; the answer can be read as what was exported exactly if
    the mapped names need no quotes in CSV, and in JSON lines if there is nothing to export. -/
theorem exportEvents_faithful_iff (libs : Libraries) (readJson : String → Option Value)
    {readFieldMap : String → Option FieldMap} {cfg : ExportConfig}
    {pg : Pg} {db : Database} {p : ExportRequest} {x : Export}
    (h : prepareExport readFieldMap cfg pg db p = .ok x) :
    ∃ res, exportEvents libs readFieldMap cfg pg db p = .ok res ∧
      (x.Faithful libs readJson res.body ↔ x.Harmless) :=
  ⟨x.respond libs, exportEvents_eq libs h, respond_faithful_iff libs readJson x⟩

/-! ### One event, and three requests for it -/

/-- Reads the field maps of the requests below. -/
def sampleFieldMap (fm : String) : Option FieldMap :=
  if fm = "\x7b\"event_data\":\"raw_data\"\x7d" then some [("event_data", "raw_data")]
  else if fm = "\x7b\"id\":\"event,id\"\x7d" then some [("id", "event,id")]
  else none

def sampleExportConfig : ExportConfig := { apiKeys := ["key"], exportMaxRows := 10000 }

/-- The contract id has a comma and quotes. -/
def quotedEvent : EventRow where
  id := 7
  contractId := "C,\"A\""
  eventType := "contract"
  txHash := "ab"
  ledger := 12
  timestamp := 0
  eventData := .string "x"
  createdAt := 0

def sampleDatabase : Database := { events := [quotedEvent] }

/-- `?field_map={"event_data":"raw_data"}`. -/
def renamed : ExportRequest := { fieldMap := some "\x7b\"event_data\":\"raw_data\"\x7d" }

/-- `?field_map={"id":"event,id"}`. -/
def renamedWithComma : ExportRequest := { fieldMap := some "\x7b\"id\":\"event,id\"\x7d" }

theorem exportEvents_faithful_renamed :
    ∃ x res, prepareExport sampleFieldMap sampleExportConfig plainPg sampleDatabase renamed = .ok x ∧
      exportEvents plainLibraries sampleFieldMap sampleExportConfig plainPg sampleDatabase renamed =
        .ok res ∧
      x.Faithful plainLibraries (fun _ => none) res.body := by
  have hprepare : prepareExport sampleFieldMap sampleExportConfig plainPg sampleDatabase renamed =
      .ok ⟨.csv, some [("event_data", "raw_data")], [quotedEvent], 1⟩ := by
    rfl
  obtain ⟨res, hres, hiff⟩ := exportEvents_faithful_iff plainLibraries (fun _ => none) hprepare
  refine ⟨_, res, hprepare, hres, hiff.mpr ?_⟩
  show ∀ c ∈ defaultCols, _
  simp [defaultCols, headerName, ExportColumn.name, Csv.Plain, Csv.isSpecial, List.lookup]

/-- A header of nine names over records of eight fields, and no line for one event. -/
theorem exportEvents_not_faithful :
    (∃ x res,
      prepareExport sampleFieldMap sampleExportConfig plainPg sampleDatabase renamedWithComma
        = .ok x ∧
      exportEvents plainLibraries sampleFieldMap sampleExportConfig plainPg sampleDatabase
        renamedWithComma = .ok res ∧
      ¬x.Faithful plainLibraries (fun _ => none) res.body) ∧
    ∀ readJson, ∃ x res,
      prepareExport sampleFieldMap sampleExportConfig plainPg sampleDatabase
        { format := some "jsonl" } = .ok x ∧
      exportEvents plainLibraries sampleFieldMap sampleExportConfig plainPg sampleDatabase
        { format := some "jsonl" } = .ok res ∧
      ¬x.Faithful plainLibraries readJson res.body := by
  have hcomma : prepareExport sampleFieldMap sampleExportConfig plainPg sampleDatabase
      renamedWithComma = .ok ⟨.csv, some [("id", "event,id")], [quotedEvent], 1⟩ := by
    rfl
  have hjsonl : prepareExport sampleFieldMap sampleExportConfig plainPg sampleDatabase
      { format := some "jsonl" } = .ok ⟨.jsonl, none, [quotedEvent], 1⟩ := by
    rfl
  refine ⟨⟨_, _, hcomma, exportEvents_eq _ hcomma, ?_⟩, fun readJson =>
    ⟨_, _, hjsonl, exportEvents_eq _ hjsonl, ?_⟩⟩
  · rw [respond_faithful_iff]
    intro h
    have hid := h .id List.mem_cons_self
    simp [headerName, ExportColumn.name, Csv.Plain, Csv.isSpecial] at hid
  · rw [respond_faithful_iff]
    intro h
    cases h

end SorobanPulse.Events
