import GarlicRouting.Identity

/-! Leases: the inbound tunnels of a destination, each until a wall-clock time. -/
namespace GarlicRouting

structure Lease where
  gateway : Identity
  tunnel : TunnelId
  /-- Milliseconds since the epoch, negative before it. -/
  ending : Int
deriving DecidableEq

def Lease.isExpired (l : Lease) (clock : UInt64) : Bool := l.ending ≤ clock.toNat

structure LeaseSet where
  destination : Identity
  leases : List Lease
deriving DecidableEq

namespace LeaseSet

def live (s : LeaseSet) (clock : UInt64) : List Lease := s.leases.filter (!·.isExpired clock)

/-- A lease set is usable while a lease is live. -/
def isUsable (s : LeaseSet) (clock : UInt64) : Bool := !(s.live clock).isEmpty

end LeaseSet

end GarlicRouting
