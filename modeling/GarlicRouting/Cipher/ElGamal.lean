import GarlicRouting.Cipher.Sha256
import GarlicRouting.Fault

/-! ElGamal encryption over a 2048-bit prime field, with the digest of the plaintext inside. -/
namespace GarlicRouting

/-- The bits of a number, most significant first. -/
def bitsOf (n : Nat) : List Bool := (List.range (n.log2 + 1)).reverse.map n.testBit

/-- `base ^ exponent` modulo `modulus`, by squaring along the bits of the exponent. -/
def powMod (modulus base exponent : Nat) : Nat :=
  (bitsOf exponent).foldl (fun acc bit =>
    let square := acc * acc % modulus
    if bit then square * base % modulus else square) (1 % modulus)

namespace ElGamal

/-- A safe prime of 2048 bits. -/
def prime : Nat :=
  0xFFFFFFFFFFFFFFFFC90FDAA22168C234C4C6628B80DC1CD129024E088A67CC74020BBEA63B139B22514A08798E3404DDEF9519B3CD3A431B302B0A6DF25F14374FE1356D6D51C245E485B576625E7EC6F44C42E9A637ED6B0BFF5CB6F406B7EDEE386BFB5A899FA5AE9F24117C4B1FE649286651ECE45B3DC2007CB8A163BF0598DA48361C55D39A69163FA8FD24CF5F83655D23DCA3AD961C62F356208552BB9ED529077096966D670C354E4ABC9804F1746C08CA18217C32905E462E36CE3BE39E772C180E86039B2783A2EC07A28FB5C55DF06F4C52C9DE2BCBF6955817183995497CEA956AE515D2261898FA051015728E5A8AACAA68FFFFFFFFFFFFFFFF

def generator : Nat := 2

/-- An exponent between 1 and `prime - 2` from any number. -/
def exponentOf (n : Nat) : Nat := n % (prime - 2) + 1

structure PublicKey where
  octets : Octets 256
deriving DecidableEq

structure PrivateKey where
  octets : Octets 256
deriving DecidableEq

structure KeyPair where
  publicKey : PublicKey
  privateKey : PrivateKey
deriving DecidableEq

def PublicKey.describe (k : PublicKey) : String :=
  "ElGamalPublicKey(" ++ hex (k.octets.toList.take 8) ++ "..)"

/-- A private key is never shown. -/
def PrivateKey.describe (_ : PrivateKey) : String := "ElGamalPrivateKey(..)"

def KeyPair.describe (k : KeyPair) : String :=
  "ElGamalKeyPair \x7b public: " ++ k.publicKey.describe ++ ", .. \x7d"

/-- The public value belonging to an exponent. -/
def publicValue (x : Nat) : Nat := powMod prime generator x

def KeyPair.ofExponent (x : Nat) : KeyPair :=
  ⟨⟨.ofNat 256 (publicValue x)⟩, ⟨.ofNat 256 x⟩⟩

/-- A marker octet, the digest of the data, and the data. -/
def plaintext (data : Octets 222) : Octets 255 :=
  (⟨[0xff], rfl⟩ : Octets 1) ++ sha256 data.toList ++ data

/-- Both components of a block are preceded by a zero octet. -/
def encrypt (key : PublicKey) (exponent : Nat) (data : Octets 222) : Octets 514 :=
  let m := (plaintext data).toNat
  let a := powMod prime generator exponent
  let b := powMod prime key.octets.toNat exponent * m % prime
  (⟨[0], rfl⟩ : Octets 1) ++ Octets.ofNat 256 a ++ (⟨[0], rfl⟩ : Octets 1) ++ Octets.ofNat 256 b

/-- The data of a plaintext whose marker and digest are right. -/
def verify (plain : Octets 255) : Except Fault (Octets 222) :=
  let data := plain.slice 33 222
  if plain.head ≠ 0xff then .error (.elGamal .marker)
  else if sha256 data.toList ≠ plain.slice 1 32 then .error (.elGamal .hash)
  else .ok data

/-- The octets before each component, and all that follow the block, are not looked at. -/
def decrypt (key : PrivateKey) (block : Bytes) : Except Fault (Octets 222) :=
  if block.length < 514 then .error (.truncated .elGamalBlock 514 block.length)
  else
    let a := ofBigEndian ((block.drop 1).take 256)
    let b := ofBigEndian ((block.drop 258).take 256)
    let x := key.octets.toNat
    if prime ≤ a ∨ prime ≤ b then .error (.elGamal .component)
    else if prime - 1 ≤ x then .error (.elGamal .privateKey)
    else
      let m := b * powMod prime a (prime - 1 - x) % prime
      if Nat.pow 256 255 ≤ m then .error (.elGamal .plaintext)
      else verify (.ofNat 255 m)

end ElGamal

end GarlicRouting
