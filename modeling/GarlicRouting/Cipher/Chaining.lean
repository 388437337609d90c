import GarlicRouting.Cipher.Aes
import GarlicRouting.Fault

/-! AES-256 in cipher block chaining mode, without padding. -/
namespace GarlicRouting.Chaining

open Aes

/-- Each block is added to the ciphertext before it and encrypted. -/
def encryptBlocks (cipher : Block → Block) (iv : Block) (bs : List Block) : List Block :=
  (bs.foldl (fun (prev, acc) b => let c := cipher (b.xor prev); (c, c :: acc)) (iv, [])).2.reverse

/-- Each block is decrypted and added to the ciphertext before it. -/
def decryptBlocks (cipher : Block → Block) (iv : Block) (bs : List Block) : List Block :=
  List.zipWith (fun b prev => (cipher b).xor prev) bs (iv :: bs)

/-- Runs a block transformation over a string of whole blocks. -/
def overBlocks (f : List Block → List Block) (data : Bytes) : Except Fault Bytes :=
  if data.length % 16 = 0 then .ok ((f (Block.split data)).flatMap Block.toList)
  else .error (.unaligned data.length)

def encrypt (key : Octets 32) (iv : Octets 16) (data : Bytes) : Except Fault Bytes :=
  overBlocks (encryptBlocks (encryptBlock (roundKeys key)) (.ofOctets iv)) data

def decrypt (key : Octets 32) (iv : Octets 16) (data : Bytes) : Except Fault Bytes :=
  overBlocks (decryptBlocks (decryptBlock (roundKeys key)) (.ofOctets iv)) data

end GarlicRouting.Chaining
