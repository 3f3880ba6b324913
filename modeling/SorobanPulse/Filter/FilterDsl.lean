import SorobanPulse.Json

/-! The event filter DSL: expression trees, their validator, the SQL transpiler and the optimiser.

    An expression is a tree of `and` / `or` / `not` over comparisons of allowed columns. The
    validator collects every rule violation, the transpiler prints a `WHERE` fragment and appends
    one bind value for each placeholder it prints, and the optimiser flattens nested `and` / `or`,
    unwraps single children and removes double negations.

        validate_dsl ──Ok──▶ optimize_dsl ──▶ dsl_to_sql ──▶ ("… $1 … $2 …", [v₁, v₂, …]) -/

namespace SorobanPulse.Filter

/-- The column names that callers may filter on. -/
def ALLOWED_FIELDS : List String :=
  ["contract_id", "event_type", "ledger", "timestamp", "tx_hash", "schema_version",
    "in_successful_call", "tenant_id"]

/-- Map a DSL field name to the SQL column expression. -/
def fieldToSql : String → Option String
  | "contract_id" => some "contract_id"
  | "event_type" => some "event_type::text"
  | "ledger" => some "ledger"
  | "timestamp" => some "timestamp"
  | "tx_hash" => some "tx_hash"
  | "schema_version" => some "schema_version"
  | "in_successful_call" => some "in_successful_call"
  | "tenant_id" => some "tenant_id"
  | _ => none

inductive DslExpr where
  | and (filters : List DslExpr)
  | or (filters : List DslExpr)
  | not (filter : DslExpr)
  | eq (field : String) (value : Value)
  | gt (field : String) (value : Value)
  | lt (field : String) (value : Value)
  | contains (field : String) (value : String)
  | in_ (field : String) (values : List Value)
  | between (field : String) (min max : Value)
  | exists_ (field : String)

inductive DslError where
  | parseError (message : String)
  | validationErrors (errors : List String)
  | tooDeep (max : ℕ)
  | empty

/-- Induction over expression trees: the children of a node satisfy the motive. -/
theorem DslExpr.induct {motive : DslExpr → Prop}
    (and : ∀ filters, (∀ f ∈ filters, motive f) → motive (.and filters))
    (or : ∀ filters, (∀ f ∈ filters, motive f) → motive (.or filters))
    (not : ∀ filter, motive filter → motive (.not filter))
    (eq : ∀ field value, motive (.eq field value)) (gt : ∀ field value, motive (.gt field value))
    (lt : ∀ field value, motive (.lt field value))
    (contains : ∀ field value, motive (.contains field value))
    (in_ : ∀ field values, motive (.in_ field values))
    (between : ∀ field min max, motive (.between field min max))
    (exists_ : ∀ field, motive (.exists_ field)) : ∀ e, motive e
  | .and filters => and filters fun f _ =>
      induct and or not eq gt lt contains in_ between exists_ f
  | .or filters => or filters fun f _ =>
      induct and or not eq gt lt contains in_ between exists_ f
  | .not filter => not filter (induct and or not eq gt lt contains in_ between exists_ filter)
  | .eq field value => eq field value
  | .gt field value => gt field value
  | .lt field value => lt field value
  | .contains field value => contains field value
  | .in_ field values => in_ field values
  | .between field min max => between field min max
  | .exists_ field => exists_ field

/-! ### Validator -/

/-- What the validator asks of `f64`: `Value::as_f64`, `>` and `Display`. -/
structure F64 (F : Type) where
  asF64 : Value → Option F
  gt : F → F → Bool
  display : F → String

/-- The Debug form of a list of plain names. -/
def debugNames (names : List String) : String :=
  "[" ++ ", ".intercalate (names.map fun n => "\"" ++ n ++ "\"") ++ "]"

def notAllowed (field : String) : List String :=
  if field ∈ ALLOWED_FIELDS then [] else ["field '" ++ field ++ "' is not allowed"]

def notAllowedListing (field : String) : List String :=
  if field ∈ ALLOWED_FIELDS then []
  else ["field '" ++ field ++ "' is not allowed; allowed: " ++ debugNames ALLOWED_FIELDS]

section
variable {F : Type} (num : F64 F)

def betweenErrors (field : String) (min max : Value) : List String :=
  match num.asF64 min, num.asF64 max with
  | some lo, some hi =>
    if num.gt lo hi then
      ["Between '" ++ field ++ "': min (" ++ num.display lo ++ ") must not be greater than max ("
        ++ num.display hi ++ ")"]
    else []
  | _, _ => []

mutual
/-- Append the violations of `expr` to `errors`. -/
def validateRecursive (expr : DslExpr) (errors : List String) (depth maxDepth : ℕ) : List String :=
  if maxDepth < depth then
    errors ++ ["expression exceeds maximum nesting depth of " ++ toString maxDepth]
  else
    match expr with
    | .and filters | .or filters =>
      let errors :=
        if filters.isEmpty then errors ++ ["And/Or expressions must have at least one child"]
        else errors
      validateChildren filters errors (depth + 1) maxDepth
    | .not filter => validateRecursive filter errors (depth + 1) maxDepth
    | .eq field _ | .gt field _ | .lt field _ | .exists_ field => errors ++ notAllowedListing field
    | .contains field _ => errors ++ notAllowed field
    | .in_ field values =>
      let errors := errors ++ notAllowed field
      if values.isEmpty then
        errors ++ ["In expression for field '" ++ field ++ "' must have at least one value"]
      else errors
    | .between field min max => errors ++ notAllowed field ++ betweenErrors num field min max

def validateChildren (filters : List DslExpr) (errors : List String) (depth maxDepth : ℕ) :
    List String :=
  match filters with
  | [] => errors
  | child :: rest =>
    validateChildren rest (validateRecursive child errors depth maxDepth) depth maxDepth
end

def validateDsl (expr : DslExpr) : Except (List String) Unit :=
  let errors := validateRecursive num expr [] 0 10
  if errors.isEmpty then .ok () else .error errors

end

/-! ### SQL transpiler -/

/-- Append a value to the params and return its 1-based index. -/
def pushParam (params : List Value) (value : Value) : ℕ × List Value :=
  let params := params ++ [value]
  (params.length, params)

def placeholder (idx : ℕ) : String := "$" ++ toString idx

/-- The placeholders of an `IN` list, in order. -/
def pushAll : List Value → List Value → List String × List Value
  | [], params => ([], params)
  | v :: values, params =>
    let (idx, params) := pushParam params v
    let (placeholders, params) := pushAll values params
    (placeholder idx :: placeholders, params)

def columnSql (field : String) : Except DslError String :=
  match fieldToSql field with
  | some col => .ok col
  | none => .error (.validationErrors ["unknown field: " ++ field])

/-- A binary comparison: the operator's text stands between the column and the placeholder. -/
def comparisonSql (field op : String) (value : Value) (params : List Value) :
    Except DslError (String × List Value) :=
  (columnSql field).map fun col =>
    let (idx, params) := pushParam params value
    (col ++ op ++ placeholder idx, params)

mutual
def transpileRecursive (expr : DslExpr) (params : List Value) (depth maxDepth : ℕ) :
    Except DslError (String × List Value) :=
  if maxDepth < depth then .error (.tooDeep maxDepth)
  else
    match expr with
    | .and filters =>
      if filters.isEmpty then .error .empty
      else
        (transpileParts filters params (depth + 1) maxDepth).map fun (parts, params) =>
          ("(" ++ " AND ".intercalate parts ++ ")", params)
    | .or filters =>
      if filters.isEmpty then .error .empty
      else
        (transpileParts filters params (depth + 1) maxDepth).map fun (parts, params) =>
          ("(" ++ " OR ".intercalate parts ++ ")", params)
    | .not filter =>
      (transpileRecursive filter params (depth + 1) maxDepth).map fun (inner, params) =>
        ("NOT " ++ inner, params)
    | .eq field value => comparisonSql field " = " value params
    | .gt field value => comparisonSql field " > " value params
    | .lt field value => comparisonSql field " < " value params
    | .contains field value => comparisonSql field " ILIKE " (.string ("%" ++ value ++ "%")) params
    | .in_ field values =>
      (columnSql field).map fun col =>
        let (placeholders, params) := pushAll values params
        (col ++ " IN (" ++ ", ".intercalate placeholders ++ ")", params)
    | .between field min max =>
      (columnSql field).map fun col =>
        let (lo, params) := pushParam params min
        let (hi, params) := pushParam params max
        (col ++ " BETWEEN " ++ placeholder lo ++ " AND " ++ placeholder hi, params)
    | .exists_ field => (columnSql field).map fun col => (col ++ " IS NOT NULL", params)

def transpileParts (filters : List DslExpr) (params : List Value) (depth maxDepth : ℕ) :
    Except DslError (List String × List Value) :=
  match filters with
  | [] => .ok ([], params)
  | f :: rest =>
    (transpileRecursive f params depth maxDepth).bind fun (sql, params) =>
      (transpileParts rest params depth maxDepth).map fun (parts, params) => (sql :: parts, params)
end

def dslToSql (expr : DslExpr) : Except DslError (String × List Value) :=
  transpileRecursive expr [] 0 10

/-! ### Optimizer -/

/-- What an optimised child contributes to a flattened `and`. -/
def spliceAnd : DslExpr → List DslExpr
  | .and inner => inner
  | other => [other]

def spliceOr : DslExpr → List DslExpr
  | .or inner => inner
  | other => [other]

mutual
def optimizeDsl : DslExpr → DslExpr
  | .and filters =>
    match (optimizeChildren filters).flatMap spliceAnd with
    | [f] => f
    | flat => .and flat
  | .or filters =>
    match (optimizeChildren filters).flatMap spliceOr with
    | [f] => f
    | flat => .or flat
  | .not filter =>
    match optimizeDsl filter with
    | .not inner => inner
    | other => .not other
  | leaf => leaf

def optimizeChildren : List DslExpr → List DslExpr
  | [] => []
  | child :: rest => optimizeDsl child :: optimizeChildren rest
end

theorem optimizeChildren_eq_map (filters : List DslExpr) :
    optimizeChildren filters = filters.map optimizeDsl := by
  induction filters with
  | nil => rfl
  | cons f rest ih => rw [optimizeChildren, ih, List.map_cons]

example : (dslToSql (optimizeDsl (.not (.not (.and [.eq "ledger" (.number (.int 7)),
    .and [.exists_ "event_type"]]))))).toOption.map (·.1) =
      some "(ledger = $1 AND event_type::text IS NOT NULL)" := by
  decide +kernel

end SorobanPulse.Filter
