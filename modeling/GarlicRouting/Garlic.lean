import GarlicRouting.Instruction
import GarlicRouting.Message

/-! Cloves, and garlics that bundle them. -/
namespace GarlicRouting

/-- A message with its delivery instructions. -/
structure Clove where
  instruction : Instruction
  message : Message
  id : UInt32
  /-- Milliseconds since the epoch. -/
  expiration : UInt64
deriving DecidableEq

/-- The certificate that says nothing, the only one that is written. -/
def nullCertificate : Bytes := [0, 0, 0]

/-- Skips a certificate of any type and length. -/
def skipCertificate : Decoder Unit := do
  let _ ← Decoder.uint8 .certificateType
  let length ← Decoder.uint16 .certificateLength
  let _ ← Decoder.bytes length.toNat .certificateBody

namespace Clove

/-- A clove that lives for the default time. -/
def fresh (id : UInt32) (clock : UInt64) (instruction : Instruction) (message : Message) : Clove :=
  ⟨instruction, message, id, defaultExpiration clock⟩

def encodedLength (c : Clove) : Nat := c.instruction.encodedLength + c.message.encodedLength + 15

def encode (c : Clove) : Except Fault Bytes := do
  let message ← c.message.encode
  return c.instruction.encode ++ message ++ bigEndian 4 c.id.toNat ++
    bigEndian 8 c.expiration.toNat ++ nullCertificate

def decode : Decoder Clove := do
  let instruction ← Instruction.decode
  let message ← Message.decode
  let id ← Decoder.uint32 .cloveId
  let expiration ← Decoder.uint64 .cloveExpiration
  skipCertificate
  return { instruction, message, id, expiration }

end Clove

structure Garlic where
  cloves : List Clove
  id : UInt32
  /-- Milliseconds since the epoch. -/
  expiration : UInt64
deriving DecidableEq

namespace Garlic

def encodedLength (g : Garlic) : Nat := 1 + g.cloves.foldr (fun c n => c.encodedLength + n) 0 + 15

/-- The number of cloves is checked before any clove is written. -/
def encode (g : Garlic) : Except Fault Bytes := do
  if 255 < g.cloves.length then throw (.tooLarge .cloveCount g.cloves.length)
  let cloves ← g.cloves.mapM Clove.encode
  return .ofNat g.cloves.length :: cloves.flatten ++ nullCertificate ++ bigEndian 4 g.id.toNat ++
    bigEndian 8 g.expiration.toNat

def decode : Decoder Garlic := do
  let count ← Decoder.uint8 .cloveCount
  let cloves ← Decoder.repeated count.toNat Clove.decode
  skipCertificate
  let id ← Decoder.uint32 .garlicId
  let expiration ← Decoder.uint64 .garlicExpiration
  return { cloves, id, expiration }

end Garlic

end GarlicRouting
