import GarlicRouting.Octets

/-! The SHA-256 digest. -/
namespace GarlicRouting

/-- The eight chaining words of SHA-256. -/
structure Sha256 where
  (a b c d e f g h : UInt32)

namespace Sha256

def initial : Sha256 :=
  ⟨0x6a09e667, 0xbb67ae85, 0x3c6ef372, 0xa54ff53a, 0x510e527f, 0x9b05688c, 0x1f83d9ab, 0x5be0cd19⟩

def roundConstants : Array UInt32 := #[
  0x428a2f98, 0x71374491, 0xb5c0fbcf, 0xe9b5dba5, 0x3956c25b, 0x59f111f1, 0x923f82a4, 0xab1c5ed5,
  0xd807aa98, 0x12835b01, 0x243185be, 0x550c7dc3, 0x72be5d74, 0x80deb1fe, 0x9bdc06a7, 0xc19bf174,
  0xe49b69c1, 0xefbe4786, 0x0fc19dc6, 0x240ca1cc, 0x2de92c6f, 0x4a7484aa, 0x5cb0a9dc, 0x76f988da,
  0x983e5152, 0xa831c66d, 0xb00327c8, 0xbf597fc7, 0xc6e00bf3, 0xd5a79147, 0x06ca6351, 0x14292967,
  0x27b70a85, 0x2e1b2138, 0x4d2c6dfc, 0x53380d13, 0x650a7354, 0x766a0abb, 0x81c2c92e, 0x92722c85,
  0xa2bfe8a1, 0xa81a664b, 0xc24b8b70, 0xc76c51a3, 0xd192e819, 0xd6990624, 0xf40e3585, 0x106aa070,
  0x19a4c116, 0x1e376c08, 0x2748774c, 0x34b0bcb5, 0x391c0cb3, 0x4ed8aa4a, 0x5b9cca4f, 0x682e6ff3,
  0x748f82ee, 0x78a5636f, 0x84c87814, 0x8cc70208, 0x90befffa, 0xa4506ceb, 0xbef9a3f7, 0xc67178f2]

def rotateRight (x : UInt32) (n : UInt32) : UInt32 := (x >>> n) ||| (x <<< (32 - n))

/-- The sixteen words of a 64-octet block. -/
def words : Bytes → Array UInt32
  | b₀ :: b₁ :: b₂ :: b₃ :: rest =>
    let w := (b₀.toUInt32 <<< 24) ||| (b₁.toUInt32 <<< 16) ||| (b₂.toUInt32 <<< 8) ||| b₃.toUInt32
    #[w] ++ words rest
  | _ => #[]

/-- The message schedule: sixteen given words extended to sixty-four. -/
def schedule (block : Bytes) : Array UInt32 :=
  (List.range 48).foldl (fun w t =>
    let x := w.getD (t + 1) 0
    let y := w.getD (t + 14) 0
    let s₀ := rotateRight x 7 ^^^ rotateRight x 18 ^^^ (x >>> 3)
    let s₁ := rotateRight y 17 ^^^ rotateRight y 19 ^^^ (y >>> 10)
    w.push (w.getD t 0 + s₀ + w.getD (t + 9) 0 + s₁)) (words block)

def round (s : Sha256) (k w : UInt32) : Sha256 :=
  let s₁ := rotateRight s.e 6 ^^^ rotateRight s.e 11 ^^^ rotateRight s.e 25
  let choice := (s.e &&& s.f) ^^^ ((~~~s.e) &&& s.g)
  let t₁ := s.h + s₁ + choice + k + w
  let s₀ := rotateRight s.a 2 ^^^ rotateRight s.a 13 ^^^ rotateRight s.a 22
  let majority := (s.a &&& s.b) ^^^ (s.a &&& s.c) ^^^ (s.b &&& s.c)
  ⟨t₁ + s₀ + majority, s.a, s.b, s.c, s.d + t₁, s.e, s.f, s.g⟩

def add (s t : Sha256) : Sha256 :=
  ⟨s.a + t.a, s.b + t.b, s.c + t.c, s.d + t.d, s.e + t.e, s.f + t.f, s.g + t.g, s.h + t.h⟩

def compress (s : Sha256) (block : Bytes) : Sha256 :=
  let w := schedule block
  s.add ((List.range 64).foldl (fun s t => s.round (roundConstants.getD t 0) (w.getD t 0)) s)

/-- Compresses the given number of 64-octet blocks. -/
def absorb (s : Sha256) : (blocks : Nat) → Bytes → Sha256
  | 0, _ => s
  | blocks + 1, bs => (s.compress (bs.take 64)).absorb blocks (bs.drop 64)

/-- A one bit, zeros up to 8 octets short of a block, and the length in bits. -/
def padding (length : Nat) : Bytes :=
  0x80 :: List.replicate ((119 - length % 64) % 64) 0 ++ bigEndian 8 (8 * length)

def digest (s : Sha256) : Octets 32 :=
  Octets.ofNat 4 s.a.toNat ++ Octets.ofNat 4 s.b.toNat ++ Octets.ofNat 4 s.c.toNat ++
    Octets.ofNat 4 s.d.toNat ++ Octets.ofNat 4 s.e.toNat ++ Octets.ofNat 4 s.f.toNat ++
    Octets.ofNat 4 s.g.toNat ++ Octets.ofNat 4 s.h.toNat

end Sha256

/-- The SHA-256 digest of an octet string. -/
def sha256 (bs : Bytes) : Octets 32 :=
  let padded := bs ++ Sha256.padding bs.length
  (Sha256.initial.absorb (padded.length / 64) padded).digest

theorem half_digest : 0 + 16 ≤ 32 := by decide

/-- The initialisation vector belonging to a tag or to the seed of a handshake. -/
def deriveIv (seed : Octets 32) : Octets 16 := (sha256 seed.toList).slice 0 16 half_digest

end GarlicRouting
