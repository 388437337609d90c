/-! Octet strings, their fixed-length form, big-endian numbers and hexadecimal text. -/
namespace GarlicRouting

abbrev Bytes := List UInt8

/-- The last `width` base-256 digits of a number, most significant first. -/
def bigEndian : (width value : Nat) → Bytes
  | 0, _ => []
  | width + 1, value => bigEndian width (value / 256) ++ [UInt8.ofNat value]

/-- The number whose base-256 digits are given, most significant first. -/
def ofBigEndian (bs : Bytes) : Nat :=
  bs.foldl (fun n b => 256 * n + b.toNat) 0

@[simp] theorem length_bigEndian (width value : Nat) : (bigEndian width value).length = width := by
  induction width generalizing value with
  | zero => rfl
  | succ width ih => simp [bigEndian, ih]

@[simp] theorem ofBigEndian_append_singleton (bs : Bytes) (b : UInt8) :
    ofBigEndian (bs ++ [b]) = 256 * ofBigEndian bs + b.toNat := by
  simp [ofBigEndian]

/-- An octet string of a known length. -/
structure Octets (n : Nat) where
  toList : Bytes
  length_toList : toList.length = n
deriving DecidableEq

namespace Octets

attribute [simp] length_toList

@[ext] theorem ext {n : Nat} {a b : Octets n} (h : a.toList = b.toList) : a = b := by
  cases a; cases b; simp_all

instance (n : Nat) : Ord (Octets n) := ⟨fun a b => compare a.toList b.toList⟩

/-- The first `n` octets of a string, filled up with zeros. -/
def ofList (n : Nat) (bs : Bytes) : Octets n where
  toList := bs.take n ++ List.replicate (n - bs.length) 0
  length_toList := by simp; omega

/-- A string of exactly `n` octets. -/
def ofList? (n : Nat) (bs : Bytes) : Option (Octets n) :=
  if h : bs.length = n then some ⟨bs, h⟩ else none

def ofNat (n value : Nat) : Octets n := ⟨bigEndian n value, length_bigEndian n value⟩

def toNat {n : Nat} (a : Octets n) : Nat := ofBigEndian a.toList

def append {m n : Nat} (a : Octets m) (b : Octets n) : Octets (m + n) :=
  ⟨a.toList ++ b.toList, by simp⟩

instance {m n : Nat} : HAppend (Octets m) (Octets n) (Octets (m + n)) := ⟨append⟩

/-- The `len` octets that follow the first `start`. -/
def slice {n : Nat} (a : Octets n) (start len : Nat) (h : start + len ≤ n := by decide) :
    Octets len :=
  ⟨(a.toList.drop start).take len, by simp; omega⟩

/-- The first octet. -/
def head {n : Nat} (a : Octets (n + 1)) : UInt8 :=
  a.toList.head (by intro h; simpa [h] using a.length_toList)

end Octets

/-- Lower-case hexadecimal digit of a number below 16. -/
def hexDigit (n : Nat) : Char :=
  if n < 10 then Char.ofNat (n + 48) else Char.ofNat (n + 87)

/-- Two lower-case digits an octet. -/
def hex (bs : Bytes) : String :=
  String.ofList (bs.flatMap fun b => [hexDigit (b.toNat / 16), hexDigit (b.toNat % 16)])

/-- The value of a hexadecimal digit of either case. -/
def hexValue? (c : Char) : Option Nat :=
  if '0' ≤ c ∧ c ≤ '9' then some (c.toNat - 48)
  else if 'a' ≤ c ∧ c ≤ 'f' then some (c.toNat - 87)
  else if 'A' ≤ c ∧ c ≤ 'F' then some (c.toNat - 55)
  else none

/-- Reads pairs of hexadecimal digits onto the front of `acc`, which is in reverse. -/
def ofHexDigits? (acc : Bytes) : List Char → Option Bytes
  | [] => some acc.reverse
  | [_] => none
  | c :: d :: rest =>
    match hexValue? c, hexValue? d with
    | some x, some y => ofHexDigits? (UInt8.ofNat (16 * x + y) :: acc) rest
    | _, _ => none

def ofHex? (text : String) : Option Bytes := ofHexDigits? [] text.toList

end GarlicRouting
