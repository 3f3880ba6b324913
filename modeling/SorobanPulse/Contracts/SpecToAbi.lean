import SorobanPulse.Jsonb
import SorobanPulse.Lib.Utf8

/-! On-chain contract specs as ABI entries.

    `spec_to_abi` turns the entries of a contract's spec into one JSON array: events first, each
    under its first topic, then functions and types in their order. -/

namespace SorobanPulse.Contracts
open Lib

inductive ScSpecTypeDef where
  | val | bool | void | error
  | u32 | i32 | u64 | i64 | timepoint | duration | u128 | i128 | u256 | i256
  | bytes | string | symbol | address | muxedAddress
  | option (valueType : ScSpecTypeDef)
  | result (okType errorType : ScSpecTypeDef)
  | vec (elementType : ScSpecTypeDef)
  | map (keyType valueType : ScSpecTypeDef)
  | tuple (valueTypes : List ScSpecTypeDef)
  | bytesN (n : UInt32)
  | udt (name : List UInt8)

mutual
/-- Human-readable Rust-like name of a spec type. -/
def typeName : ScSpecTypeDef → String
  | .val => "Val"
  | .bool => "bool"
  | .void => "()"
  | .error => "Error"
  | .u32 => "u32"
  | .i32 => "i32"
  | .u64 => "u64"
  | .i64 => "i64"
  | .timepoint => "Timepoint"
  | .duration => "Duration"
  | .u128 => "u128"
  | .i128 => "i128"
  | .u256 => "u256"
  | .i256 => "i256"
  | .bytes => "Bytes"
  | .string => "String"
  | .symbol => "Symbol"
  | .address => "Address"
  | .muxedAddress => "MuxedAddress"
  | .option t => "Option<" ++ typeName t ++ ">"
  | .result ok err => "Result<" ++ typeName ok ++ ", " ++ typeName err ++ ">"
  | .vec t => "Vec<" ++ typeName t ++ ">"
  | .map k v => "Map<" ++ typeName k ++ ", " ++ typeName v ++ ">"
  | .tuple ts => "(" ++ String.intercalate ", " (typeNames ts) ++ ")"
  | .bytesN n => "BytesN<" ++ toString n ++ ">"
  | .udt name => fromUtf8Lossy name

def typeNames : List ScSpecTypeDef → List String
  | [] => []
  | t :: ts => typeName t :: typeNames ts
end

inductive ParamLocation where
  | Data
  | TopicList
  deriving DecidableEq

inductive DataFormat where
  | SingleValue
  | Vec
  | Map
  deriving DecidableEq

/-- `name().to_lowercase()`. -/
def DataFormat.name : DataFormat → String
  | .SingleValue => "singlevalue"
  | .Vec => "vec"
  | .Map => "map"

structure SpecField where
  name : List UInt8
  type : ScSpecTypeDef

structure EventParam extends SpecField where
  location : ParamLocation

structure SpecEvent where
  doc : List UInt8 := []
  name : List UInt8
  prefixTopics : List (List UInt8)
  params : List EventParam
  dataFormat : DataFormat

structure SpecFunction where
  doc : List UInt8 := []
  name : List UInt8
  inputs : List SpecField
  outputs : List ScSpecTypeDef

structure SpecStruct where
  doc : List UInt8 := []
  name : List UInt8
  fields : List SpecField

/-- The cases with their types; a case without types is a unit case. -/
structure SpecUnion where
  doc : List UInt8 := []
  name : List UInt8
  cases : List (List UInt8 × List ScSpecTypeDef)

structure SpecEnum where
  doc : List UInt8 := []
  name : List UInt8
  cases : List (List UInt8 × UInt32)

inductive ScSpecEntry where
  | EventV0 (e : SpecEvent)
  | FunctionV0 (f : SpecFunction)
  | UdtStructV0 (s : SpecStruct)
  | UdtUnionV0 (u : SpecUnion)
  | UdtEnumV0 (e : SpecEnum)
  | UdtErrorEnumV0 (e : SpecEnum)

/-- The topic that names an event: the first fixed one or, without any, the event's own name. -/
def SpecEvent.firstTopic (e : SpecEvent) : List UInt8 := e.prefixTopics.head?.getD e.name

def EventParam.isData (p : EventParam) : Bool := p.location = .Data

/-- The params carried in the event data, in order. -/
def SpecEvent.inputs (e : SpecEvent) : List SpecField :=
  (e.params.filter (·.isData)).map (·.toSpecField)

section
-- how the crate prints strings and symbols
variable (text : List UInt8 → String)

/-! ### The JSON of an entry -/

def field (f : SpecField) : List (String × Value) :=
  [("name", .string (text f.name)), ("type", .string (typeName f.type))]

def SpecEvent.toAbi (e : SpecEvent) : Value :=
  .object [("kind", .string "event"), ("name", .string (text e.firstTopic)),
    ("event_name", .string (text e.name)), ("doc", .string (text e.doc)),
    ("prefix_topics", .array (e.prefixTopics.map fun t => .string (text t))),
    ("data_format", .string e.dataFormat.name),
    ("inputs", .array (e.inputs.map fun f => .object (field text f))),
    ("params", .array (e.params.map fun p => .object (field text p.toSpecField ++
      [("location", .string (if p.isData then "data" else "topic"))])))]

def SpecFunction.toAbi (f : SpecFunction) : Value :=
  .object [("kind", .string "function"), ("name", .string (text f.name)),
    ("doc", .string (text f.doc)),
    ("inputs", .array (f.inputs.map fun i => .object (field text i))),
    ("outputs", .array (f.outputs.map fun t => .string (typeName t)))]

def SpecStruct.toAbi (s : SpecStruct) : Value :=
  .object [("kind", .string "struct"), ("name", .string (text s.name)), ("doc", .string (text s.doc)),
    ("fields", .array (s.fields.map fun f => .object (field text f)))]

def SpecUnion.toAbi (u : SpecUnion) : Value :=
  .object [("kind", .string "union"), ("name", .string (text u.name)), ("doc", .string (text u.doc)),
    ("cases", .array (u.cases.map fun c => .object [("name", .string (text c.1)),
      ("types", .array (c.2.map fun t => .string (typeName t)))]))]

def SpecEnum.toAbi (kind : String) (e : SpecEnum) : Value :=
  .object [("kind", .string kind), ("name", .string (text e.name)), ("doc", .string (text e.doc)),
    ("cases", .array (e.cases.map fun c => .object [("name", .string (text c.1)),
      ("value", .number (.int c.2.toNat))]))]

def ScSpecEntry.toAbi : ScSpecEntry → Value
  | .EventV0 e => e.toAbi text
  | .FunctionV0 f => f.toAbi text
  | .UdtStructV0 s => s.toAbi text
  | .UdtUnionV0 u => u.toAbi text
  | .UdtEnumV0 e => e.toAbi text "enum"
  | .UdtErrorEnumV0 e => e.toAbi text "error_enum"

def ScSpecEntry.isEvent : ScSpecEntry → Bool
  | .EventV0 _ => true
  | _ => false

/-- Events come first. -/
def abiOrder (entries : List ScSpecEntry) : List ScSpecEntry :=
  entries.filter (·.isEvent) ++ entries.filter fun entry => !entry.isEvent

def specToAbi (entries : List ScSpecEntry) : Value :=
  .array ((abiOrder entries).map (·.toAbi text))

/-! ### Names and inputs -/

/-- The name under which an entry is listed. -/
def ScSpecEntry.abiName : ScSpecEntry → String
  | .EventV0 e => text e.firstTopic
  | .FunctionV0 f => text f.name
  | .UdtStructV0 s => text s.name
  | .UdtUnionV0 u => text u.name
  | .UdtEnumV0 e => text e.name
  | .UdtErrorEnumV0 e => text e.name

/-- Events and functions have inputs, types have none. -/
def ScSpecEntry.inputs : ScSpecEntry → Option (List SpecField)
  | .EventV0 e => some e.inputs
  | .FunctionV0 f => some f.inputs
  | _ => none

end

section
variable {text : List UInt8 → String} {entries : List ScSpecEntry} {entry : ScSpecEntry}

theorem member_name_toAbi (entry : ScSpecEntry) :
    member (entry.toAbi text) "name" = some (.string (entry.abiName text)) := by
  cases entry <;> rfl

theorem member_inputs_toAbi (entry : ScSpecEntry) : member (entry.toAbi text) "inputs" =
    entry.inputs.map fun fields => .array (fields.map fun f => .object (field text f)) := by
  cases entry <;> rfl

end

end SorobanPulse.Contracts
