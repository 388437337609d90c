import GarlicRouting.Cipher.Chaining
import GarlicRouting.Identity
import GarlicRouting.Decoder

/-! The symmetrically encrypted part of a message: fresh session tags and a payload with its digest. -/
namespace GarlicRouting

structure TagBlock where
  tags : List SessionTag
  newKey : Option SessionKey := none
  payload : Bytes
deriving DecidableEq

namespace TagBlock

def unpaddedLength (b : TagBlock) : Nat :=
  39 + 32 * b.tags.length + (if b.newKey.isSome then 32 else 0) + b.payload.length

def encodeUnpadded (b : TagBlock) : Except Fault Bytes :=
  if 65535 < b.tags.length then .error (.tooLarge .tagCount b.tags.length)
  else if 4294967295 < b.payload.length then .error (.tooLarge .blockPayload b.payload.length)
  else
    .ok (bigEndian 2 b.tags.length ++ (b.tags.flatMap fun t => t.octets.toList) ++
      bigEndian 4 b.payload.length ++ (sha256 b.payload).toList ++
      (b.newKey.elim [0] fun k => 1 :: k.octets.toList) ++ b.payload)

/-- Filled up to whole cipher blocks with the first octets of `filler`. -/
def encode (b : TagBlock) (filler : Octets 15) : Except Fault Bytes := do
  let bs ← b.encodeUnpadded
  return bs ++ filler.toList.take ((16 - bs.length % 16) % 16)

def decode : Decoder TagBlock := do
  let count ← Decoder.uint16 .tagCount
  Decoder.require (32 * count.toNat) .sessionTags
  let tags ← Decoder.repeated count.toNat (Decoder.octets 32 .sessionTags)
  let size ← Decoder.uint32 .payloadSize
  let transmitted ← Decoder.octets 32 .payloadDigest
  let flag ← Decoder.uint8 .blockFlag
  let newKey ← Decoder.optional (flag &&& 1 ≠ 0) (Decoder.octets 32 .newSessionKey)
  let payload ← Decoder.bytes size.toNat .blockPayload
  let computed := sha256 payload
  if computed ≠ transmitted then throw (.digest computed transmitted)
  return { tags := tags.map .mk, newKey := newKey.map .mk, payload }

def encrypt (b : TagBlock) (key : SessionKey) (seed : Octets 32) (filler : Octets 15) :
    Except Fault Bytes := do
  Chaining.encrypt key.octets (deriveIv seed) (← b.encode filler)

def decrypt (key : SessionKey) (seed : Octets 32) (ciphertext : Bytes) : Except Fault TagBlock := do
  decode.front (← Chaining.decrypt key.octets (deriveIv seed) ciphertext)

end TagBlock

end GarlicRouting
