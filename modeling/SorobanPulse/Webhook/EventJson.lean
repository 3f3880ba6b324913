import SorobanPulse.Ingest.SorobanEvent
import SorobanPulse.Sse.RingBuffer

/-! Events as JSON, the form in which webhook tables keep them.

    Two fields share the name `id`: the ring buffer's id is written and never read, the RPC id is read
    and never written. The tenant is read and never written:

        id (UUID)    -- written as "id" -->      read back as the RPC id
        rpc_id       -- not written -->          lost
        tenant_id    -- not written -->          lost

    `fromValue_toValue` says what is left of an event. -/

namespace SorobanPulse.Webhook
open Ingest Sse

/-- An event as it is delivered, with the id that the ring buffer gave it. -/
structure StreamedEvent extends SorobanEvent where
  id : Option Uuid := none

/-- A UUID in hyphenated hex. -/
def hyphenated (id : Uuid) : String :=
  let hex := (Nat.toDigits 16 id.toNat).leftpad 32 '0'
  String.ofList (hex.take 8 ++ '-' :: (hex.drop 8).take 4 ++ '-' :: (hex.drop 12).take 4 ++
    '-' :: (hex.drop 16).take 4 ++ '-' :: hex.drop 20)

/-- `Option<String>` as JSON. -/
def optString : Option String → Value
  | none => .null
  | some s => .string s

/-- `serde_json::to_value` of an event. -/
def toValue (event : StreamedEvent) : Value :=
  .object <| (event.id.map fun id => ("id", Value.string (hyphenated id))).toList ++
    [("contractId", .string event.contractId), ("type", .string event.eventType),
      ("txHash", .string event.txHash), ("ledger", .number (.int event.ledger.toNat)),
      ("ledgerClosedAt", .string event.ledgerClosedAt), ("ledgerHash", optString event.ledgerHash),
      ("inSuccessfulContractCall", .bool event.inSuccessfulCall), ("value", event.value),
      ("topic", (event.topic.map Value.array).getD .null)]

/-- An optional text member: absent and null both read as `None`. -/
def readOptString : Option Value → Option (Option String)
  | none | some .null => some none
  | some (.string s) => some (some s)
  | some _ => none

/-- `serde_json::from_value` of an event, of an object; unknown members are ignored. -/
def fromValue : Value → Option StreamedEvent
  | .object map => do
    let rpcId ← readOptString (map.lookup "id")
    let contractId ← (map.lookup "contractId").bind Value.asStr
    let eventType ← (map.lookup "type").bind Value.asStr
    let txHash ← (map.lookup "txHash").bind Value.asStr
    let ledger ← (map.lookup "ledger").bind Value.asU64
    let ledgerClosedAt ← (map.lookup "ledgerClosedAt").bind Value.asStr
    let ledgerHash ← readOptString (map.lookup "ledgerHash")
    let inSuccessfulCall ←
      match map.lookup "inSuccessfulContractCall" with
      | none => some true
      | some (.bool b) => some b
      | some _ => none
    let value ← map.lookup "value"
    let topic ←
      match map.lookup "topic" with
      | none | some .null => some none
      | some (.array items) => some (some items)
      | some _ => none
    let tenantId ← readOptString (map.lookup "tenant_id")
    some
      { id := none, rpcId, contractId, eventType, txHash, ledger := UInt64.ofNat ledger.toNat,
        ledgerClosedAt, ledgerHash, inSuccessfulCall, value, topic, tenantId }
  | _ => none

/-- What an event has become once it was written and read back. -/
def StreamedEvent.reread (event : StreamedEvent) : StreamedEvent :=
  { event with id := none, rpcId := event.id.map hyphenated, tenantId := none }

/-- The event has none of the fields that JSON does not carry. -/
structure StreamedEvent.Plain (event : StreamedEvent) : Prop where
  id : event.id = none
  rpcId : event.rpcId = none
  tenantId : event.tenantId = none

@[simp] theorem readOptString_optString (s : Option String) :
    readOptString (some (optString s)) = some s := by
  cases s <;> rfl

@[simp] theorem readOptString_none : readOptString none = some none := rfl

@[simp] theorem readOptString_string (s : String) :
    readOptString (some (.string s)) = some (some s) := rfl

@[simp] theorem asU64_ledger (ledger : UInt64) :
    Value.asU64 (.number (.int ledger.toNat)) = some (ledger.toNat : ℤ) := by
  have hlt := ledger.toNat_lt
  rw [Value.asU64, if_pos ⟨by omega, by rw [U64_MAX]; omega⟩]

section
variable (id : Option Uuid) (rest : List (String × Value))

/-- The optional member `id`, in front of the others. -/
theorem lookup_id (hrest : rest.lookup "id" = none) :
    ((id.map fun id => ("id", Value.string (hyphenated id))).toList ++ rest).lookup "id" =
      id.map fun id => .string (hyphenated id) := by
  cases id with
  | none => exact hrest
  | some id => rfl

theorem lookup_after_id (key : String) (hkey : (key == "id") = false) :
    ((id.map fun id => ("id", Value.string (hyphenated id))).toList ++ rest).lookup key =
      rest.lookup key := by
  cases id with
  | none => rfl
  | some id => simp [List.lookup, hkey]

@[simp] theorem readOptString_id :
    readOptString (id.map fun id => .string (hyphenated id)) = some (id.map hyphenated) := by
  cases id <;> rfl

end

theorem fromValue_toValue (event : StreamedEvent) :
    fromValue (toValue event) = some event.reread := by
  obtain ⟨⟨_, _, _, _, _, _, _, _, _, topic, _⟩, id⟩ := event
  rw [toValue, fromValue, lookup_id _ _ rfl, lookup_after_id _ _ "contractId" rfl,
    lookup_after_id _ _ "type" rfl, lookup_after_id _ _ "txHash" rfl,
    lookup_after_id _ _ "ledger" rfl, lookup_after_id _ _ "ledgerClosedAt" rfl,
    lookup_after_id _ _ "ledgerHash" rfl, lookup_after_id _ _ "inSuccessfulContractCall" rfl,
    lookup_after_id _ _ "value" rfl, lookup_after_id _ _ "topic" rfl,
    lookup_after_id _ _ "tenant_id" rfl]
  simp [StreamedEvent.reread, List.lookup, Value.asStr]
  cases topic <;> rfl

/-- Reading back changes every event that is not plain. -/
theorem reread_eq_iff {event : StreamedEvent} : event.reread = event ↔ event.Plain := by
  constructor
  · intro h
    have hid : event.id = none := (congrArg StreamedEvent.id h).symm
    have hrpc : event.id.map hyphenated = event.rpcId := congrArg (·.rpcId) h
    rw [hid, Option.map_none] at hrpc
    exact ⟨hid, hrpc.symm, (congrArg (·.tenantId) h).symm⟩
  · rintro ⟨hid, hrpc, htenant⟩
    obtain ⟨event, id⟩ := event
    obtain rfl := hid
    obtain ⟨⟩ := event
    dsimp only at hrpc htenant
    subst hrpc htenant
    rfl

end SorobanPulse.Webhook
