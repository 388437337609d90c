import GarlicRouting.Identity
import GarlicRouting.Decoder

/-! Delivery instructions: where a clove goes, with an optional key and delay. -/
namespace GarlicRouting

inductive Target where
  /-- The router that decrypts the garlic. -/
  | here
  | destination (recipient : Identity)
  | router (recipient : Identity)
  | tunnel (gateway : Identity) (id : TunnelId)
deriving DecidableEq

namespace Target

/-- The two bits that tell the kind of a target. -/
def code : Target → UInt8
  | here => 0
  | destination _ => 1
  | router _ => 2
  | tunnel .. => 3

def encodedLength : Target → Nat
  | here => 0
  | destination _ | router _ => 32
  | tunnel .. => 36

def encode : Target → Bytes
  | here => []
  | destination recipient | router recipient => recipient.octets.toList
  | tunnel gateway id => gateway.octets.toList ++ bigEndian 4 id.number.toNat

def decode (code : UInt8) : Decoder Target := do
  if code = 0 then return .here
  let hash ← Decoder.octets 32 .instructionHash
  if code = 1 then return .destination ⟨hash⟩
  if code = 2 then return .router ⟨hash⟩
  return .tunnel ⟨hash⟩ ⟨← Decoder.uint32 .instructionTunnel⟩

end Target

structure Instruction where
  target : Target
  key : Option SessionKey := none
  delay : Option UInt32 := none
deriving DecidableEq

namespace Instruction

/-- One octet: a key follows (bit 7), the kind of target (bits 6 and 5), a delay follows (bit 4). -/
def flag (i : Instruction) : UInt8 :=
  (i.target.code <<< 5) ||| (if i.key.isSome then 0x80 else 0) |||
    (if i.delay.isSome then 0x10 else 0)

def encodedLength (i : Instruction) : Nat :=
  1 + (if i.key.isSome then 32 else 0) + i.target.encodedLength +
    (if i.delay.isSome then 4 else 0)

def encode (i : Instruction) : Bytes :=
  i.flag :: (i.key.elim [] fun k => k.octets.toList) ++ i.target.encode ++
    i.delay.elim [] fun d => bigEndian 4 d.toNat

/-- The low four bits of the flag are not looked at. -/
def decode : Decoder Instruction := do
  let flag ← Decoder.uint8 .instructionFlag
  let key ← Decoder.optional (flag &&& 0x80 ≠ 0) (Decoder.octets 32 .instructionKey)
  let target ← Target.decode ((flag >>> 5) &&& 3)
  let delay ← Decoder.optional (flag &&& 0x10 ≠ 0) (Decoder.uint32 .instructionDelay)
  return { target, key := key.map .mk, delay }

end Instruction

end GarlicRouting
