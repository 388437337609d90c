/-! Finite tables in order of insertion. -/
namespace GarlicRouting

/-- Pairs of a key and a value, in the order in which the keys came in. -/
structure Table (κ α : Type) where
  toList : List (κ × α) := []

namespace Table

variable {κ α : Type} [DecidableEq κ]

def empty : Table κ α := ⟨[]⟩

def size (t : Table κ α) : Nat := t.toList.length

def values (t : Table κ α) : List α := t.toList.map Prod.snd

def find? (t : Table κ α) (k : κ) : Option α :=
  (t.toList.find? fun p => p.1 = k).map Prod.snd

def contains (t : Table κ α) (k : κ) : Bool := (t.find? k).isSome

/-- A key that is there keeps its place. -/
def insert (t : Table κ α) (k : κ) (a : α) : Table κ α :=
  if t.contains k then ⟨t.toList.map fun p => if p.1 = k then (k, a) else p⟩
  else ⟨t.toList ++ [(k, a)]⟩

def erase (t : Table κ α) (k : κ) : Table κ α := ⟨t.toList.filter fun p => p.1 ≠ k⟩

/-- Changes the value of a key that is there. -/
def modify (t : Table κ α) (k : κ) (f : α → α) : Table κ α :=
  ⟨t.toList.map fun p => if p.1 = k then (p.1, f p.2) else p⟩

/-- Keeps the entries whose value passes. -/
def filter (t : Table κ α) (keep : α → Bool) : Table κ α := ⟨t.toList.filter fun p => keep p.2⟩

end Table

end GarlicRouting
