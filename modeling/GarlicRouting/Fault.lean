import GarlicRouting.Octets

/-! What can be wrong with encoded data, and how it is told. -/
namespace GarlicRouting

/-- A field of an encoded structure, as a reader names it when the data ends too early. -/
inductive Field where
  | messageType | messageId | messageExpiration | messageSize | messageChecksum | messagePayload
  | statusId | statusTimestamp | lengthOfBody | body
  | instructionFlag | instructionKey | instructionHash | instructionTunnel | instructionDelay
  | cloveCount | cloveId | cloveExpiration
  | certificateType | certificateLength | certificateBody | garlicId | garlicExpiration
  | tagCount | sessionTags | payloadSize | payloadDigest | blockFlag | newSessionKey | blockPayload
  | elGamalBlock
deriving DecidableEq

def Field.name : Field → String
  | messageType => "i2np type"
  | messageId => "i2np message id"
  | messageExpiration => "i2np expiration"
  | messageSize => "i2np size"
  | messageChecksum => "i2np checksum"
  | messagePayload => "i2np payload"
  | statusId => "delivery status id"
  | statusTimestamp => "delivery status timestamp"
  | lengthOfBody => "length prefix"
  | body => "length-prefixed body"
  | instructionFlag => "delivery flag"
  | instructionKey => "delivery session key"
  | instructionHash => "delivery hash"
  | instructionTunnel => "delivery tunnel id"
  | instructionDelay => "delivery delay"
  | cloveCount => "clove count"
  | cloveId => "clove id"
  | cloveExpiration => "clove expiration"
  | certificateType => "certificate type"
  | certificateLength => "certificate length"
  | certificateBody => "certificate body"
  | garlicId => "garlic message id"
  | garlicExpiration => "garlic expiration"
  | tagCount => "tag count"
  | sessionTags => "session tags"
  | payloadSize => "payload size"
  | payloadDigest => "payload digest"
  | blockFlag => "aes block flag"
  | newSessionKey => "new session key"
  | blockPayload => "aes block payload"
  | elGamalBlock => "elgamal block"

/-- A quantity that its length field cannot hold. -/
inductive Oversize where
  | messagePayload | cloveCount | tagCount | blockPayload
deriving DecidableEq

def Oversize.name : Oversize → String
  | messagePayload => "i2np payload"
  | cloveCount => "clove count"
  | tagCount => "tag count"
  | blockPayload => "aes block payload"

/-- Why a public-key block does not decrypt. -/
inductive ElGamalFault where
  | component | privateKey | plaintext | marker | hash
deriving DecidableEq

def ElGamalFault.message : ElGamalFault → String
  | component => "component out of range"
  | privateKey => "private key out of range"
  | plaintext => "plaintext out of range"
  | marker => "bad marker byte"
  | hash => "hash mismatch"

inductive Fault where
  /-- The data ends inside a field. -/
  | truncated (field : Field) (needed available : Nat)
  | checksum (header computed : UInt8)
  | digest (computed transmitted : Octets 32)
  | tooLarge (what : Oversize) (size : Nat)
  | unaligned (length : Nat)
  | elGamal (reason : ElGamalFault)
deriving DecidableEq

def Fault.message : Fault → String
  | truncated field needed available =>
    s!"truncated {field.name}: need {needed} bytes, have {available}"
  | checksum header computed =>
    "i2np checksum mismatch: header 0x" ++ hex [header] ++ " != computed 0x" ++ hex [computed]
  | digest computed transmitted =>
    "payload digest mismatch: computed " ++ hex computed.toList ++ " != transmitted " ++
      hex transmitted.toList
  | tooLarge what size => s!"{what.name} too large: {size} bytes"
  | unaligned length => s!"ciphertext length {length} is not a multiple of 16"
  | elGamal reason => s!"elgamal decryption failed: {reason.message}"

end GarlicRouting
