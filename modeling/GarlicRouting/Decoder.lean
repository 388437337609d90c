import GarlicRouting.Fault

/-! Reading values off the front of an octet string. -/
namespace GarlicRouting

/-- Reads a value and leaves the octets after it, or tells what is wrong. -/
abbrev Decoder := StateT Bytes (Except Fault)

namespace Decoder

/-- Succeeds without reading when `n` octets are there. -/
def require (n : Nat) (field : Field) : Decoder Unit := fun bs =>
  if (bs.take n).length = n then .ok ((), bs) else .error (.truncated field n bs.length)

def octets (n : Nat) (field : Field) : Decoder (Octets n) := fun bs =>
  if h : (bs.take n).length = n then .ok (⟨bs.take n, h⟩, bs.drop n)
  else .error (.truncated field n bs.length)

def bytes (n : Nat) (field : Field) : Decoder Bytes := return (← octets n field).toList

def uint8 (field : Field) : Decoder UInt8 := return (← octets 1 field).head

def uint16 (field : Field) : Decoder UInt16 := return .ofNat (← octets 2 field).toNat

def uint32 (field : Field) : Decoder UInt32 := return .ofNat (← octets 4 field).toNat

def uint64 (field : Field) : Decoder UInt64 := return .ofNat (← octets 8 field).toNat

/-- Reads `d` only if the condition holds. -/
def optional {α : Type} (condition : Bool) (d : Decoder α) : Decoder (Option α) :=
  if condition then return some (← d) else return none

/-- Reads `count` values onto the reversed `acc`. -/
def repeatOnto {α : Type} (d : Decoder α) (acc : List α) : (count : Nat) → Decoder (List α)
  | 0, bs => .ok (acc.reverse, bs)
  | count + 1, bs =>
    match d bs with
    | .ok (a, rest) => repeatOnto d (a :: acc) count rest
    | .error e => .error e

/-- Reads `count` values one after the other. -/
def repeated {α : Type} (count : Nat) (d : Decoder α) : Decoder (List α) := repeatOnto d [] count

/-- The value at the front of a string, whatever follows it. -/
def front {α : Type} (d : Decoder α) (bs : Bytes) : Except Fault α := (d bs).map Prod.fst

end Decoder

end GarlicRouting
