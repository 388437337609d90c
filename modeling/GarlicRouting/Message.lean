import GarlicRouting.Cipher.Sha256
import GarlicRouting.Clock
import GarlicRouting.Decoder

/-! Network messages: a header of sixteen octets with a check octet, and a payload by type. -/
namespace GarlicRouting

inductive Payload where
  /-- Tells that the message with the given id arrived. -/
  | status (id : UInt32) (timestamp : UInt64)
  /-- Encrypted garlic. -/
  | garlic (data : Bytes)
  /-- Application data. -/
  | data (data : Bytes)
  /-- Any other type, kept as it is. -/
  | other (type : UInt8) (data : Bytes)
deriving DecidableEq

namespace Payload

def type : Payload → UInt8
  | status .. => 10
  | garlic _ => 11
  | data _ => 20
  | other type _ => type

def encodedLength : Payload → Nat
  | status .. => 12
  | garlic bs | data bs => 4 + bs.length
  | other _ bs => bs.length

def encode : Payload → Bytes
  | status id timestamp => bigEndian 4 id.toNat ++ bigEndian 8 timestamp.toNat
  | garlic bs | data bs => bigEndian 4 bs.length ++ bs
  | other _ bs => bs

/-- A string preceded by its length in four octets. -/
def prefixed : Decoder Bytes := do
  let length ← Decoder.uint32 .lengthOfBody
  Decoder.bytes length.toNat .body

/-- Octets after a status or a prefixed string are dropped. -/
def decode (type : UInt8) (body : Bytes) : Except Fault Payload :=
  if type = 10 then
    Decoder.front (do
      let id ← Decoder.uint32 .statusId
      let timestamp ← Decoder.uint64 .statusTimestamp
      return .status id timestamp) body
  else if type = 11 then (prefixed.front body).map .garlic
  else if type = 20 then (prefixed.front body).map .data
  else .ok (.other type body)

end Payload

structure Message where
  id : UInt32
  /-- Milliseconds since the epoch. -/
  expiration : UInt64
  payload : Payload
deriving DecidableEq

namespace Message

/-- A message that lives for the default time. -/
def fresh (id : UInt32) (clock : UInt64) (payload : Payload) : Message :=
  ⟨id, defaultExpiration clock, payload⟩

/-- Tells at the given time that the message `acknowledged` arrived. -/
def status (id : UInt32) (clock : UInt64) (acknowledged : UInt32) : Message :=
  fresh id clock (.status acknowledged clock)

def encodedLength (m : Message) : Nat := 16 + m.payload.encodedLength

/-- The first octet of the payload's digest. -/
def checkOctet (body : Bytes) : UInt8 := (sha256 body).head

def encode (m : Message) : Except Fault Bytes :=
  let length := m.payload.encodedLength
  if 65535 < length then .error (.tooLarge .messagePayload length)
  else
    let body := m.payload.encode
    .ok (m.payload.type :: bigEndian 4 m.id.toNat ++ bigEndian 8 m.expiration.toNat ++
      bigEndian 2 length ++ checkOctet body :: body)

def decode : Decoder Message := do
  let type ← Decoder.uint8 .messageType
  let id ← Decoder.uint32 .messageId
  let expiration ← Decoder.uint64 .messageExpiration
  let size ← Decoder.uint16 .messageSize
  let header ← Decoder.uint8 .messageChecksum
  let body ← Decoder.bytes size.toNat .messagePayload
  let computed := checkOctet body
  if computed ≠ header then throw (.checksum header computed)
  let payload ← Payload.decode type body
  return { id, expiration, payload }

end Message

end GarlicRouting
