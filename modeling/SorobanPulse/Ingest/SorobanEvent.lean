import SorobanPulse.Xdr.ScvalFormat

/-! Events as the indexer receives them, and the checks they pass before they are stored.

    `validate_event_data` asks for a JSON object or null as the value, a C-type strkey, a hex
    transaction hash, and a value and topics that decode as ScVals. -/

namespace SorobanPulse.Ingest
open Xdr

/-- An RPC event; the ring buffer's `id` is assigned on broadcast and is no part of it here. -/
structure SorobanEvent where
  /-- Raw RPC event id (TOID and event index). -/
  rpcId : Option String := none
  contractId : String
  eventType : String
  txHash : String
  ledger : UInt64
  ledgerClosedAt : String
  ledgerHash : Option String := none
  inSuccessfulCall : Bool := true
  value : Value
  topic : Option (List Value) := none
  /-- Set by the indexer in multi-tenant mode. -/
  tenantId : Option String := none

/-! ### Validation -/

/-- A C-type strkey: 56 base32 characters, the first one `C`. -/
def validateContractId (contractId : String) : Bool :=
  contractId.utf8ByteSize == 56 && contractId.toList.head? == some 'C' &&
    contractId.toList.all fun c => ('A' ≤ c && c ≤ 'Z') || ('2' ≤ c && c ≤ '7')

/-- `char::is_ascii_hexdigit`. -/
def isAsciiHexDigit (c : Char) : Bool :=
  c.isDigit || ('a' ≤ c && c ≤ 'f') || ('A' ≤ c && c ≤ 'F')

def validateTxHash (txHash : String) : Bool :=
  txHash.utf8ByteSize == 64 && txHash.toList.all isAsciiHexDigit

def isValidScVal (codec : XdrCodec) (v : Value) : Bool := (codec.decodeScval v).isSome

def validateXdr (codec : XdrCodec) (txHash contractId : String) (value : Value)
    (topic : Option (List Value)) : Bool :=
  if !validateContractId contractId then false
  else if !validateTxHash txHash then false
  else if !value.isNull && !isValidScVal codec value then false
  else (topic.getD []).all (isValidScVal codec)

def validateEventData (codec : XdrCodec) (event : SorobanEvent) : Bool :=
  match event.value with
  | .object _ | .null =>
    validateXdr codec event.txHash event.contractId event.value event.topic
  | _ => false

/-- Only an object or null passes as an event's value. -/
theorem validateEventData_value {codec : XdrCodec} {event : SorobanEvent}
    (h : validateEventData codec event = true) :
    event.value = .null ∨ ∃ map, event.value = .object map := by
  rw [validateEventData] at h
  split at h
  · next map hmap => exact .inr ⟨map, hmap⟩
  · next hnull => exact .inl hnull
  · cases h

end SorobanPulse.Ingest
