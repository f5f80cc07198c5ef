import EosEvm.Types

/-! `bridge.hpp`: the decoder of messages sent from the EVM to native accounts. The
payload is read in sequence; offsets are compared with their expected values. -/

namespace EosEvm.Bridge

open Abort Words

/-- `datastream::read`: the bytes read and the stream after them. -/
def read (size : Nat) (stream : Bytes) : Outcome (Bytes × Bytes) := do
  check (size ≤ stream.length) "datastream attempted to read past the end"
  return (stream.take size, stream.drop size)

def load (bytes : Bytes) : Nat := bytes.foldl (fun value byte => value * 256 + byte.toNat) 0

/-- `operator>>(datastream, uint256)`. -/
def readUint256 (stream : Bytes) : Outcome (Nat × Bytes) := do
  let word ← read 32 stream
  return (load word.1, word.2)

/-- `max_size` of a vector of bytes where addresses are 32 bits wide. -/
def maxSize : Nat := 2 ^ 31 - 1

/-- `resize` of a string or vector: cut or padded with zeros, up to the largest size. -/
def resize (limit : Nat) (bytes : Bytes) (size : Nat) : Outcome Bytes := do
  check (size ≤ limit) "length_error"
  return bytes.take size ++ List.replicate (size - bytes.length) 0

structure MessageV0 where
  account : Bytes
  forceAtomic : Bool
  data : Bytes
  deriving DecidableEq, Repr

/-- `message_v0::get_account_as_name`. -/
def MessageV0.getAccountAsName (message : MessageV0) : Outcome Name := do
  let name ← nameOf message.account
  check (nameToBytes name = message.account) "invalid account name"
  return name

/-- The selector `f781185b` as it stands in the message. -/
def messageV0Id : Bytes := [0xf7, 0x81, 0x18, 0x5b]

/-- The lambda `get_length` of `decode_message_v0`. -/
def getLength (stream : Bytes) : Outcome (Nat × Bytes) := do
  let length ← readUint256 stream
  check (length.1 < 2 ^ 32 - 1) "invalid length"
  return length

/-- A length followed by that many bytes, padded to whole words. The field is made as long as
the padded bytes, filled, and cut. -/
def readDynamic (limit : Nat) (stream : Bytes) : Outcome (Bytes × Bytes) := do
  let length ← getLength stream
  let padded := u32 (length.1 + 31) / 32 * 32
  let _ ← resize limit [] padded
  let bytes ← read padded length.2
  let field ← resize limit bytes.1 length.1
  return (field, bytes.2)

def decodeMessageV0 (limit : Nat) (stream : Bytes) : Outcome MessageV0 := do
  let offset1 ← readUint256 stream
  check (offset1.1 = 0x60) "invalid p1 offset"
  let value2 ← readUint256 offset1.2
  check (value2.1 ≤ 1) "invalid p2 value"
  let offset3 ← readUint256 value2.2
  check (offset3.1 = 0xA0) "invalid p3 offset"
  let account ← readDynamic limit offset3.2
  let data ← readDynamic limit account.2
  return { account := account.1, forceAtomic := value2.1 != 0, data := data.1 }

/-- `decode_message`: nothing for an unknown selector. -/
def decodeMessage (limit : Nat) (message : Bytes) : Outcome (Option MessageV0) := do
  let selector ← read 4 message
  if selector.1 = messageV0Id then
    let decoded ← decodeMessageV0 limit selector.2
    return some decoded
  else return none

end EosEvm.Bridge
