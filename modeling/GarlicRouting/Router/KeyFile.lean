import GarlicRouting.Cipher.ElGamal
import GarlicRouting.Identity

/-! Files that keep the keys of an identity. -/
namespace GarlicRouting

structure Keys where
  identity : Identity
  pair : ElGamal.KeyPair
deriving DecidableEq

inductive KeyFormatFault where
  /-- The file ends inside a field. -/
  | endOfData
  /-- A length does not end within ten octets of seven bits. -/
  | length
  /-- A key has not 256 octets. -/
  | keySize
deriving DecidableEq

def KeyFormatFault.message : KeyFormatFault → String
  | endOfData => "Hit the end of buffer, expected more data"
  | length => "Found a varint that didn't terminate. Is the usize too big for this platform?"
  | keySize => "Serde Deserialization Error"

inductive KeyFault where
  | notFound
  | format (fault : KeyFormatFault)
  /-- The identity is not the digest of the public key. -/
  | corrupt
deriving DecidableEq

namespace Keys

def ofPair (pair : ElGamal.KeyPair) : Keys := ⟨.ofPublic pair.publicKey.octets.toList, pair⟩

/-- Reads from the front of a file and leaves what follows. -/
abbrev Reader := StateT Bytes (Except KeyFormatFault)

/-- A number in octets of seven bits, lowest first; every octet but the last has its high bit set. -/
def encodeLength (n : Nat) : Bytes :=
  if n < 128 then [.ofNat n] else .ofNat (n % 128 + 128) :: encodeLength (n / 128)

/-- Reads the digits of a length that may take `left` more octets; `place` is the weight of the next
digit. Only one bit fits into the tenth octet. -/
def readLengthFrom (sum place : Nat) : (left : Nat) → Reader Nat
  | 0, _ => .error .length
  | left + 1, bs =>
    match bs with
    | [] => .error .endOfData
    | b :: rest =>
      let sum := sum + place * (b.toNat % 128)
      if 128 ≤ b.toNat then readLengthFrom sum (128 * place) left rest
      else if left = 0 && 1 < b.toNat then .error .length
      else .ok (sum, rest)

def readLength : Reader Nat := readLengthFrom 0 1 10

def readOctets (n : Nat) : Reader Bytes := fun bs =>
  if (bs.take n).length = n then .ok (bs.take n, bs.drop n) else .error .endOfData

/-- Reads a key; its length is looked at when its octets have been read. -/
def readKey : Reader (Octets 256) := do
  let bs ← readOctets (← readLength)
  match Octets.ofList? 256 bs with
  | some key => return key
  | none => throw .keySize

def read : Reader Keys := do
  let identity ← readOctets 32
  let publicKey ← readKey
  let privateKey ← readKey
  return ⟨⟨.ofList 32 identity⟩, ⟨publicKey⟩, ⟨privateKey⟩⟩

/-- The identity, and both keys behind their lengths. -/
def encode (k : Keys) : Bytes :=
  k.identity.octets.toList ++
    encodeLength 256 ++ k.pair.publicKey.octets.toList ++
    encodeLength 256 ++ k.pair.privateKey.octets.toList

/-- Octets after the keys are passed over. -/
def decode (file : Bytes) : Except KeyFault Keys :=
  match read file with
  | .error fault => .error (.format fault)
  | .ok (k, _) =>
    if Identity.ofPublic k.pair.publicKey.octets.toList = k.identity then .ok k else .error .corrupt

def load (file : Option Bytes) : Except KeyFault Keys := file.elim (.error .notFound) decode

/-- Keys of a file, or those of `fresh` and what is to be written if there is no file. -/
def loadOrGenerate (file : Option Bytes) (fresh : ElGamal.KeyPair) :
    Except KeyFault (Keys × Option Bytes) :=
  match file with
  | some file => (decode file).map (·, none)
  | none => .ok (ofPair fresh, some (ofPair fresh).encode)

end Keys

end GarlicRouting
