import GarlicRouting.Cipher.ElGamal
import GarlicRouting.Garlic

/-! Random values: what one encryption draws, and a supply of such draws. -/
namespace GarlicRouting

/-- Ids of a fresh clove and of the message in it. -/
structure CloveIds where
  clove : UInt32
  message : UInt32
deriving DecidableEq

/-- All random values that one encryption may use. -/
structure Draw where
  sessionKey : SessionKey
  tags : Nat → SessionTag
  /-- Ids of the acknowledgments of new tags and of the message. -/
  (refreshAck explicitAck : UInt32)
  (refreshIds explicitIds : CloveIds)
  /-- Ids of a clove that the caller makes. -/
  dataIds : CloveIds
  garlicId : UInt32
  /-- Choices of entries from a pool. -/
  picks : Nat → Nat
  /-- The seed of the initialisation vector, and what fills a handshake up. -/
  preIv : Octets 32
  noise : Octets 158
  /-- The exponent of a handshake, before it is brought into range. -/
  exponent : Nat
  filler : Octets 15

/-- Draws one after the other. -/
structure Supply where
  draw : Nat → Draw
  used : Nat := 0

def Supply.next (s : Supply) : Draw × Supply := (s.draw s.used, { s with used := s.used + 1 })

namespace Draw

def batch (d : Draw) (count : Nat) : List SessionTag := (List.range count).map d.tags

/-- The digest of a seed with the place it is used at. -/
def expand (seed : Bytes) (purpose index : Nat) : Octets 32 :=
  sha256 (seed ++ bigEndian 8 purpose ++ bigEndian 8 index)

def expandBytes (seed : Bytes) (purpose count : Nat) : Bytes :=
  ((List.range ((count + 31) / 32)).flatMap fun i => (expand seed purpose i).toList).take count

def word (seed : Bytes) (purpose index : Nat) : UInt32 :=
  .ofNat (expand seed purpose index).toNat

/-- An id other than zero, which stands for no id. -/
def ackId (seed : Bytes) (purpose : Nat) : UInt32 :=
  .ofNat ((expand seed purpose 0).toNat % 4294967295 + 1)

def cloveIds (seed : Bytes) (purpose : Nat) : CloveIds := ⟨word seed purpose 0, word seed purpose 1⟩

/-- A draw from a seed that nobody else knows. -/
def ofSeed (seed : Bytes) : Draw where
  sessionKey := ⟨expand seed 0 0⟩
  tags i := ⟨expand seed 1 i⟩
  refreshAck := ackId seed 2
  explicitAck := ackId seed 3
  refreshIds := cloveIds seed 4
  explicitIds := cloveIds seed 5
  dataIds := cloveIds seed 6
  garlicId := word seed 7 0
  picks i := (expand seed 8 i).toNat
  preIv := expand seed 9 0
  noise := .ofList 158 (expandBytes seed 10 158)
  exponent := ofBigEndian (expandBytes seed 11 256)
  filler := .ofList 15 (expandBytes seed 12 15)

end Draw

/-- Draws from one seed, each with its own number. -/
def Supply.ofSeed (seed : Bytes) : Supply := ⟨fun n => .ofSeed (seed ++ bigEndian 8 n), 0⟩

/-- A key pair from a random number. -/
def ElGamal.KeyPair.ofRandom (n : Nat) : ElGamal.KeyPair := .ofExponent (exponentOf n)

end GarlicRouting
