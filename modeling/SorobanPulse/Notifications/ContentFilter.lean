import SorobanPulse.Events.PaginationParams
import SorobanPulse.JsonLocations
import SorobanPulse.JsonText
import SorobanPulse.Lib.FloatText
import SorobanPulse.Lib.Trim

/-! Content filters: one predicate over the JSON data of an event, checked before a notification is
    delivered.

        $.transfer['to'][0]   Gt   "1000000"

    The path selects a value, which is compared with the text of the filter: as `f64`s if both sides
    are numbers, else as texts. The regex crate is a parameter, and so are the digits of a double. -/

namespace SorobanPulse.Notifications
open Lib
open Events (isWhitespace)

inductive FilterOp where
  | Eq | Ne | Gt | Lt | Gte | Lte | Contains | Matches
  deriving DecidableEq, Repr

structure ContentFilter where
  path : String
  op : FilterOp
  value : String

/-! ### Paths -/

/-- `Segment::Key` selects a member, `Segment::Index` an element. -/
abbrev Segment := Step

def isQuote (c : Char) : Bool := c = '\'' || c = '"'

/-- What stands between `[` and `]`. -/
def bracketSegment (inner : List Char) : Option Segment :=
  let inner := trimMatches isWhitespace inner
  match parseUnsigned (2 ^ 64) inner with
  | some idx => some (.element idx)
  | none =>
    let key := trimMatches isQuote inner
    if key = [] then none else some (.member (String.ofList key))

/-- The loop of `parse_path`. -/
def parseSegments : List Char → Option (List Segment)
  | [] => some []
  | c :: rest =>
    if c = '.' then
      let isEnd : Char → Bool := fun c => c = '.' || c = '['
      let key := rest.takeWhile fun c => !isEnd c
      if key = [] then none
      else
        (parseSegments (rest.dropWhile fun c => !isEnd c)).map (.member (String.ofList key) :: ·)
    else if c = '[' then
      let inner := rest.takeWhile (· ≠ ']')
      match _h : rest.dropWhile (· ≠ ']') with
      | [] => none
      | _ :: behind =>
        (bracketSegment inner).bind fun segment => (parseSegments behind).map (segment :: ·)
    else none
termination_by cs => cs.length
decreasing_by
  · exact Nat.lt_succ_of_le (length_dropWhile_le _ _)
  · have hle := length_dropWhile_le (· ≠ ']') rest
    rw [_h] at hle
    exact Nat.lt_succ_of_lt hle

/-- Nothing for malformed input. -/
def parsePath (path : String) : Option (List Segment) :=
  match path.toList with
  | '$' :: rest => parseSegments rest
  | _ => none

/-- Walk `data` along the segments. -/
def resolve (data : Value) (segments : List Segment) : Option Value := data.locate segments

/-- `Regex::new`: a matcher, or the reason why there is none. -/
abbrev RegexNew := String → Except String (String → Bool)

def ContentFilter.validate (regexNew : RegexNew) (f : ContentFilter) : Except String Unit :=
  if f.path.toList.head? ≠ some '$' then
    .error ("content_filter path must start with '$' (got '" ++ f.path ++ "')")
  else if (parsePath f.path).elim true List.isEmpty then
    .error ("content_filter path '" ++ f.path ++ "' does not select a field")
  else if f.op = .Matches then
    match regexNew f.value with
    | .error e => .error ("content_filter value is not a valid regex: " ++ e)
    | .ok _ => .ok ()
  else .ok ()

/-! ### Comparison -/

/-- `s.trim().parse::<f64>().ok()` -/
def parseNumber (s : String) : Option F64 := parseF64 (trimMatches isWhitespace s.toList)

def asNumber : Value → Option F64
  | .number (.int n) => some (.ofRat n)
  | .number (.float bits) => some (.ofBits bits)
  | .string s => parseNumber s
  | _ => none

/-- `s.parse::<bool>().ok()` -/
def parseBool (s : String) : Option Bool :=
  if s = "true" then some true else if s = "false" then some false else none

section
variable (double : UInt64 → String)

/-- A scalar as text; objects and arrays in their compact form. -/
def scalarToString : Value → String
  | .string s => s
  | .null => "null"
  | other => jsonText double other

def valuesEqual (target : Value) (expected : String) : Bool :=
  match asNumber target, parseNumber expected with
  | some a, some b => a.eq b
  | _, _ =>
    match target, parseBool expected with
    | .bool b, some eb => b == eb
    | _, _ => scalarToString double target == expected

/-- `partial_cmp` of two numbers, else `cmp` of two texts. -/
def ordering (target : Value) (expected : String) : Option Ordering :=
  match asNumber target, parseNumber expected with
  | some a, some b => a.partialCmp b
  | _, _ => some (compare (scalarToString double target) expected)

def orderedCompare (target : Value) (op : FilterOp) (expected : String) : Bool :=
  match ordering double target expected with
  | none => false
  | some ord =>
    match op with
    | .Gt => ord.isGT
    | .Lt => ord.isLT
    | .Gte => ord.isGE
    | .Lte => ord.isLE
    | _ => false -- not reached

def contains (target : Value) (expected : String) : Bool :=
  match target with
  | .array items => items.any fun item => valuesEqual double item expected
  | .string s => expected.toList <:+: s.toList
  | other => expected.toList <:+: (scalarToString double other).toList

variable (regexNew : RegexNew)

/-- The value at the path against the value of the filter. -/
def ContentFilter.compare (target : Value) (op : FilterOp) (expected : String) : Bool :=
  match op with
  | .Eq => valuesEqual double target expected
  | .Ne => !valuesEqual double target expected
  | .Gt | .Lt | .Gte | .Lte => orderedCompare double target op expected
  | .Contains => contains double target expected
  | .Matches =>
    match regexNew expected with
    | .ok re => re (scalarToString double target)
    | .error _ => false

/-- Whether the notification is delivered. -/
def ContentFilter.evaluate (f : ContentFilter) (data : Value) : Bool :=
  match parsePath f.path with
  | none => false
  | some segments =>
    match resolve data segments with
    | none => f.op = .Ne -- an absent field is not equal to the value
    | some target => ContentFilter.compare double regexNew target f.op f.value

end

end SorobanPulse.Notifications
