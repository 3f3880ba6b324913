import SorobanPulse.Json

/-! Soroban values, as `stellar_xdr::curr::ScVal` holds them.

    An address is kept by its strkey rendering (`to_string`); strings and symbols are the bytes the
    XDR carries, which need not be UTF-8. The crate's decoders are the fields of `XdrCodec`. -/

namespace SorobanPulse.Xdr

/-- A 32-byte hash. -/
def Hash := { bytes : List UInt8 // bytes.length = 32 }
  deriving DecidableEq, Repr

structure ScAddress where
  strkey : String
  deriving DecidableEq, Repr

inductive ContractExecutable where
  | wasm (hash : Hash)
  | stellarAsset
  deriving DecidableEq, Repr

inductive ScVal where
  | bool (b : Bool)
  | void
  | error (kind code : UInt32)
  | u32 (n : UInt32)
  | i32 (n : Int32)
  | u64 (n : UInt64)
  | i64 (n : Int64)
  | timepoint (n : UInt64)
  | duration (n : UInt64)
  | u128 (hi lo : UInt64)
  | i128 (hi : Int64) (lo : UInt64)
  | u256 (hiHi hiLo loHi loLo : UInt64)
  | i256 (hiHi : Int64) (hiLo loHi loLo : UInt64)
  | bytes (b : List UInt8)
  | string (s : List UInt8)
  | symbol (s : List UInt8)
  | vec (items : Option (List ScVal))
  | map (entries : Option (List (ScVal × ScVal)))
  | address (a : ScAddress)
  | contractInstance (executable : ContractExecutable) (storage : Option (List (ScVal × ScVal)))
  | ledgerKeyContractInstance
  | ledgerKeyNonce (nonce : Int64)
  deriving Repr

/-- The decoders of the crate: `ScVal::from_xdr_base64` and serde's `from_value::<ScVal>`. -/
structure XdrCodec where
  fromXdrBase64 : String → Option ScVal
  fromValue : Value → Option ScVal

/-- `str::from_utf8(s).ok()`. -/
def fromUtf8 (bytes : List UInt8) : Option String := String.fromUTF8? ⟨bytes.toArray⟩

def hexDigit (n : UInt8) : Char :=
  if n < 10 then Char.ofNat (48 + n.toNat) else Char.ofNat (87 + n.toNat)

/-- `hex::encode`. -/
def hexEncode (bytes : List UInt8) : String :=
  String.ofList (bytes.flatMap fun b => [hexDigit (b / 16), hexDigit (b % 16)])

example : hexEncode [0xab, 0x07] = "ab07" := by decide

end SorobanPulse.Xdr
