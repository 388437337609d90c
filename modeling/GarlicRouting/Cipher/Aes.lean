import GarlicRouting.Octets

/-! The AES block cipher with 256-bit keys. -/
namespace GarlicRouting.Aes

/-- Values of the substitution box. -/
def substitutions : Array UInt8 := #[
  0x63, 0x7c, 0x77, 0x7b, 0xf2, 0x6b, 0x6f, 0xc5, 0x30, 0x01, 0x67, 0x2b, 0xfe, 0xd7, 0xab, 0x76,
  0xca, 0x82, 0xc9, 0x7d, 0xfa, 0x59, 0x47, 0xf0, 0xad, 0xd4, 0xa2, 0xaf, 0x9c, 0xa4, 0x72, 0xc0,
  0xb7, 0xfd, 0x93, 0x26, 0x36, 0x3f, 0xf7, 0xcc, 0x34, 0xa5, 0xe5, 0xf1, 0x71, 0xd8, 0x31, 0x15,
  0x04, 0xc7, 0x23, 0xc3, 0x18, 0x96, 0x05, 0x9a, 0x07, 0x12, 0x80, 0xe2, 0xeb, 0x27, 0xb2, 0x75,
  0x09, 0x83, 0x2c, 0x1a, 0x1b, 0x6e, 0x5a, 0xa0, 0x52, 0x3b, 0xd6, 0xb3, 0x29, 0xe3, 0x2f, 0x84,
  0x53, 0xd1, 0x00, 0xed, 0x20, 0xfc, 0xb1, 0x5b, 0x6a, 0xcb, 0xbe, 0x39, 0x4a, 0x4c, 0x58, 0xcf,
  0xd0, 0xef, 0xaa, 0xfb, 0x43, 0x4d, 0x33, 0x85, 0x45, 0xf9, 0x02, 0x7f, 0x50, 0x3c, 0x9f, 0xa8,
  0x51, 0xa3, 0x40, 0x8f, 0x92, 0x9d, 0x38, 0xf5, 0xbc, 0xb6, 0xda, 0x21, 0x10, 0xff, 0xf3, 0xd2,
  0xcd, 0x0c, 0x13, 0xec, 0x5f, 0x97, 0x44, 0x17, 0xc4, 0xa7, 0x7e, 0x3d, 0x64, 0x5d, 0x19, 0x73,
  0x60, 0x81, 0x4f, 0xdc, 0x22, 0x2a, 0x90, 0x88, 0x46, 0xee, 0xb8, 0x14, 0xde, 0x5e, 0x0b, 0xdb,
  0xe0, 0x32, 0x3a, 0x0a, 0x49, 0x06, 0x24, 0x5c, 0xc2, 0xd3, 0xac, 0x62, 0x91, 0x95, 0xe4, 0x79,
  0xe7, 0xc8, 0x37, 0x6d, 0x8d, 0xd5, 0x4e, 0xa9, 0x6c, 0x56, 0xf4, 0xea, 0x65, 0x7a, 0xae, 0x08,
  0xba, 0x78, 0x25, 0x2e, 0x1c, 0xa6, 0xb4, 0xc6, 0xe8, 0xdd, 0x74, 0x1f, 0x4b, 0xbd, 0x8b, 0x8a,
  0x70, 0x3e, 0xb5, 0x66, 0x48, 0x03, 0xf6, 0x0e, 0x61, 0x35, 0x57, 0xb9, 0x86, 0xc1, 0x1d, 0x9e,
  0xe1, 0xf8, 0x98, 0x11, 0x69, 0xd9, 0x8e, 0x94, 0x9b, 0x1e, 0x87, 0xe9, 0xce, 0x55, 0x28, 0xdf,
  0x8c, 0xa1, 0x89, 0x0d, 0xbf, 0xe6, 0x42, 0x68, 0x41, 0x99, 0x2d, 0x0f, 0xb0, 0x54, 0xbb, 0x16]

/-- Values of the inverse substitution box. -/
def inverseSubstitutions : Array UInt8 := #[
  0x52, 0x09, 0x6a, 0xd5, 0x30, 0x36, 0xa5, 0x38, 0xbf, 0x40, 0xa3, 0x9e, 0x81, 0xf3, 0xd7, 0xfb,
  0x7c, 0xe3, 0x39, 0x82, 0x9b, 0x2f, 0xff, 0x87, 0x34, 0x8e, 0x43, 0x44, 0xc4, 0xde, 0xe9, 0xcb,
  0x54, 0x7b, 0x94, 0x32, 0xa6, 0xc2, 0x23, 0x3d, 0xee, 0x4c, 0x95, 0x0b, 0x42, 0xfa, 0xc3, 0x4e,
  0x08, 0x2e, 0xa1, 0x66, 0x28, 0xd9, 0x24, 0xb2, 0x76, 0x5b, 0xa2, 0x49, 0x6d, 0x8b, 0xd1, 0x25,
  0x72, 0xf8, 0xf6, 0x64, 0x86, 0x68, 0x98, 0x16, 0xd4, 0xa4, 0x5c, 0xcc, 0x5d, 0x65, 0xb6, 0x92,
  0x6c, 0x70, 0x48, 0x50, 0xfd, 0xed, 0xb9, 0xda, 0x5e, 0x15, 0x46, 0x57, 0xa7, 0x8d, 0x9d, 0x84,
  0x90, 0xd8, 0xab, 0x00, 0x8c, 0xbc, 0xd3, 0x0a, 0xf7, 0xe4, 0x58, 0x05, 0xb8, 0xb3, 0x45, 0x06,
  0xd0, 0x2c, 0x1e, 0x8f, 0xca, 0x3f, 0x0f, 0x02, 0xc1, 0xaf, 0xbd, 0x03, 0x01, 0x13, 0x8a, 0x6b,
  0x3a, 0x91, 0x11, 0x41, 0x4f, 0x67, 0xdc, 0xea, 0x97, 0xf2, 0xcf, 0xce, 0xf0, 0xb4, 0xe6, 0x73,
  0x96, 0xac, 0x74, 0x22, 0xe7, 0xad, 0x35, 0x85, 0xe2, 0xf9, 0x37, 0xe8, 0x1c, 0x75, 0xdf, 0x6e,
  0x47, 0xf1, 0x1a, 0x71, 0x1d, 0x29, 0xc5, 0x89, 0x6f, 0xb7, 0x62, 0x0e, 0xaa, 0x18, 0xbe, 0x1b,
  0xfc, 0x56, 0x3e, 0x4b, 0xc6, 0xd2, 0x79, 0x20, 0x9a, 0xdb, 0xc0, 0xfe, 0x78, 0xcd, 0x5a, 0xf4,
  0x1f, 0xdd, 0xa8, 0x33, 0x88, 0x07, 0xc7, 0x31, 0xb1, 0x12, 0x10, 0x59, 0x27, 0x80, 0xec, 0x5f,
  0x60, 0x51, 0x7f, 0xa9, 0x19, 0xb5, 0x4a, 0x0d, 0x2d, 0xe5, 0x7a, 0x9f, 0x93, 0xc9, 0x9c, 0xef,
  0xa0, 0xe0, 0x3b, 0x4d, 0xae, 0x2a, 0xf5, 0xb0, 0xc8, 0xeb, 0xbb, 0x3c, 0x83, 0x53, 0x99, 0x61,
  0x17, 0x2b, 0x04, 0x7e, 0xba, 0x77, 0xd6, 0x26, 0xe1, 0x69, 0x14, 0x63, 0x55, 0x21, 0x0c, 0x7d]

def substitute (x : UInt8) : UInt8 := substitutions.getD x.toNat 0

def unsubstitute (x : UInt8) : UInt8 := inverseSubstitutions.getD x.toNat 0

/-- Multiplication by the field element `x`. -/
def double (x : UInt8) : UInt8 := (x <<< 1) ^^^ (if x < 128 then 0 else 0x1b)

/-- One column of the cipher's state, or one word of its key schedule. -/
structure Column where
  (a b c d : UInt8)
deriving DecidableEq

namespace Column

def map (f : UInt8 → UInt8) (w : Column) : Column := ⟨f w.a, f w.b, f w.c, f w.d⟩

def xor (v w : Column) : Column := ⟨v.a ^^^ w.a, v.b ^^^ w.b, v.c ^^^ w.c, v.d ^^^ w.d⟩

def rotate (w : Column) : Column := ⟨w.b, w.c, w.d, w.a⟩

/-- Multiplication by the circulant matrix with first row 2, 3, 1, 1. -/
def mix (w : Column) : Column :=
  let all := w.a ^^^ w.b ^^^ w.c ^^^ w.d
  ⟨w.a ^^^ all ^^^ double (w.a ^^^ w.b), w.b ^^^ all ^^^ double (w.b ^^^ w.c),
    w.c ^^^ all ^^^ double (w.c ^^^ w.d), w.d ^^^ all ^^^ double (w.d ^^^ w.a)⟩

/-- Multiplication by the inverse matrix, which is the matrix of `mix` times the circulant one
with first row 5, 0, 4, 0. -/
def unmix (w : Column) : Column :=
  let u := double (double (w.a ^^^ w.c))
  let v := double (double (w.b ^^^ w.d))
  mix ⟨w.a ^^^ u, w.b ^^^ v, w.c ^^^ u, w.d ^^^ v⟩

def toList (w : Column) : Bytes := [w.a, w.b, w.c, w.d]

end Column

/-- The state of the cipher: sixteen octets in four columns. -/
structure Block where
  (p q r s : Column)
deriving DecidableEq

namespace Block

def map (f : Column → Column) (b : Block) : Block := ⟨f b.p, f b.q, f b.r, f b.s⟩

def xor (b c : Block) : Block := ⟨b.p.xor c.p, b.q.xor c.q, b.r.xor c.r, b.s.xor c.s⟩

def shiftRows (b : Block) : Block :=
  ⟨⟨b.p.a, b.q.b, b.r.c, b.s.d⟩, ⟨b.q.a, b.r.b, b.s.c, b.p.d⟩,
    ⟨b.r.a, b.s.b, b.p.c, b.q.d⟩, ⟨b.s.a, b.p.b, b.q.c, b.r.d⟩⟩

def unshiftRows (b : Block) : Block :=
  ⟨⟨b.p.a, b.s.b, b.r.c, b.q.d⟩, ⟨b.q.a, b.p.b, b.s.c, b.r.d⟩,
    ⟨b.r.a, b.q.b, b.p.c, b.s.d⟩, ⟨b.s.a, b.r.b, b.q.c, b.p.d⟩⟩

def substituteShift (b : Block) : Block := (b.map (Column.map substitute)).shiftRows

def unshiftSubstitute (b : Block) : Block := b.unshiftRows.map (Column.map unsubstitute)

def toList (b : Block) : Bytes := b.p.toList ++ b.q.toList ++ b.r.toList ++ b.s.toList

/-- Splits a string into blocks, onto the reversed `acc`; an incomplete block at the end is left
out. -/
def splitOnto (acc : List Block) : Bytes → List Block
  | a₀ :: a₁ :: a₂ :: a₃ :: b₀ :: b₁ :: b₂ :: b₃ :: c₀ :: c₁ :: c₂ :: c₃ ::
      d₀ :: d₁ :: d₂ :: d₃ :: rest =>
    splitOnto (⟨⟨a₀, a₁, a₂, a₃⟩, ⟨b₀, b₁, b₂, b₃⟩, ⟨c₀, c₁, c₂, c₃⟩, ⟨d₀, d₁, d₂, d₃⟩⟩ :: acc) rest
  | _ => acc.reverse

def split (bs : Bytes) : List Block := splitOnto [] bs

def zero : Block := ⟨⟨0, 0, 0, 0⟩, ⟨0, 0, 0, 0⟩, ⟨0, 0, 0, 0⟩, ⟨0, 0, 0, 0⟩⟩

def ofOctets (a : Octets 16) : Block := (split a.toList).headD zero

end Block

/-- Round keys in pairs, continued from the last pair made. -/
def schedule : (constants : Bytes) → (low high : Block) → List Block
  | [], low, high => [low, high]
  | constant :: constants, low, high =>
    let p := (low.p.xor (high.s.rotate.map substitute)).xor ⟨constant, 0, 0, 0⟩
    let q := low.q.xor p
    let r := low.r.xor q
    let s := low.s.xor r
    let p' := high.p.xor (s.map substitute)
    let q' := high.q.xor p'
    let r' := high.r.xor q'
    low :: high :: schedule constants ⟨p, q, r, s⟩ ⟨p', q', r', high.s.xor r'⟩

/-- The fifteen round keys of a 256-bit key. -/
def roundKeys (key : Octets 32) : List Block :=
  (schedule [1, 2, 4, 8, 16, 32, 64] (.ofOctets (key.slice 0 16)) (.ofOctets (key.slice 16 16))).take 15

/-- The rounds after the first key addition; the last one does not mix columns. -/
def rounds : List Block → Block → Block
  | [], b => b
  | [k], b => b.substituteShift.xor k
  | k :: ks, b => rounds ks ((b.substituteShift.map Column.mix).xor k)

def unrounds : List Block → Block → Block
  | [], b => b
  | [k], b => (b.xor k).unshiftSubstitute
  | k :: ks, b => (((unrounds ks b).xor k).map Column.unmix).unshiftSubstitute

def encryptBlock : (keys : List Block) → Block → Block
  | [], b => b
  | k :: ks, b => rounds ks (b.xor k)

def decryptBlock : (keys : List Block) → Block → Block
  | [], b => b
  | k :: ks, b => (unrounds ks b).xor k

end GarlicRouting.Aes
