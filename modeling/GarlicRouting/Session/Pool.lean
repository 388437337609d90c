import Std.Data.TreeMap.Basic

/-! Pools of single-use keys that lose their entries with age. -/
namespace GarlicRouting

structure PoolEntry (κ α : Type) where
  key : κ
  value : α
  created : Nat

/-- Entries in a dense array, for picks by position, and the position of every key. -/
structure Pool (κ α : Type) [Ord κ] where
  /-- An entry is live up to this age. -/
  lifetime : Nat
  entries : Array (PoolEntry κ α) := #[]
  index : Std.TreeMap κ Nat := ∅

namespace Pool

variable {κ α : Type} [Ord κ]

def isLive (p : Pool κ α) (now : Nat) (e : PoolEntry κ α) : Bool := now - e.created ≤ p.lifetime

/-- An entry with the same key is replaced. -/
def insert (p : Pool κ α) (key : κ) (value : α) (created : Nat) : Pool κ α :=
  match p.index[key]? with
  | some i => { p with entries := p.entries.setIfInBounds i ⟨key, value, created⟩ }
  | none =>
    let i := p.entries.size
    { p with entries := p.entries.push ⟨key, value, created⟩, index := p.index.insert key i }

/-- Takes out the entry at a position; the last entry moves there. -/
def removeAt (p : Pool κ α) (i : Nat) (h : i < p.entries.size) : PoolEntry κ α × Pool κ α :=
  let entry := p.entries[i]
  let entries := (p.entries.swap i (p.entries.size - 1)).pop
  let index := p.index.erase entry.key
  let index := match entries[i]? with
    | some moved => index.insert moved.key i
    | none => index
  (entry, { p with entries, index })

/-- Takes out a key; its value is returned if the entry was live. -/
def remove (p : Pool κ α) (key : κ) (now : Nat) : Option α × Pool κ α :=
  match p.index[key]? with
  | none => (none, p)
  | some i =>
    if h : i < p.entries.size then
      let (entry, p) := p.removeAt i h
      (if p.isLive now entry then some entry.value else none, p)
    else (none, p)

/-- Takes out entries at the positions that `picks` tells, until one is live or all is gone or
`tries` are used up. -/
def pickWithin (now : Nat) (picks : Nat → Nat) : (tries : Nat) → Pool κ α → Option (κ × α) × Pool κ α
  | 0, p => (none, p)
  | tries + 1, p =>
    if h : 0 < p.entries.size then
      let (entry, p) := p.removeAt (picks tries % p.entries.size) (Nat.mod_lt _ h)
      if p.isLive now entry then (some (entry.key, entry.value), p)
      else pickWithin now picks tries p
    else (none, p)

/-- Takes out a live entry, and stale ones met on the way. -/
def pick (p : Pool κ α) (now : Nat) (picks : Nat → Nat) : Option (κ × α) × Pool κ α :=
  pickWithin now picks p.entries.size p

def contains (p : Pool κ α) (key : κ) (now : Nat) : Bool :=
  match p.index[key]? with
  | none => false
  | some i => p.entries[i]?.any (p.isLive now)

def count (p : Pool κ α) (now : Nat) : Nat := p.entries.countP (p.isLive now)

def indexOf (entries : Array (PoolEntry κ α)) : Std.TreeMap κ Nat :=
  (entries.foldl (fun (i, index) e => (i + 1, index.insert e.key i)) (0, ∅)).2

/-- Takes out all stale entries and tells how many there were. -/
def purge (p : Pool κ α) (now : Nat) : Nat × Pool κ α :=
  let entries := p.entries.filter (p.isLive now)
  if entries.size = p.entries.size then (0, p)
  else (p.entries.size - entries.size, { p with entries, index := indexOf entries })

def clear (p : Pool κ α) : Pool κ α := { p with entries := #[], index := ∅ }

def size (p : Pool κ α) : Nat := p.entries.size

def isEmpty (p : Pool κ α) : Bool := p.entries.isEmpty

end Pool

end GarlicRouting
