/-! Spans of time, and the two clocks that operations read. -/
namespace GarlicRouting

structure Span where
  seconds : Nat
  nanos : Nat
deriving DecidableEq

namespace Span

/-- Whole milliseconds. -/
def milliseconds (s : Span) : Nat := 1000 * s.seconds + s.nanos / 1000000

def nanoseconds (s : Span) : Nat := 1000000000 * s.seconds + s.nanos

def ofSeconds (n : Nat) : Span := ⟨n, 0⟩

/-- A fourth of a span, down to whole nanoseconds. -/
def quarter (s : Span) : Span :=
  let nanos := s.nanoseconds / 4
  ⟨nanos / 1000000000, nanos % 1000000000⟩

end Span

/-- The readings of both clocks at one time. -/
structure Moment where
  /-- Nanoseconds of the clock that ages are measured by. -/
  instant : Nat
  /-- Milliseconds since the epoch by the wall clock. -/
  clock : UInt64
deriving DecidableEq

/-- The wall-clock time a span ahead, at most the largest one; the span's milliseconds are taken
modulo `2 ^ 64`. -/
def expirationIn (clock : UInt64) (span : Span) : UInt64 :=
  .ofNat (min (clock.toNat + span.milliseconds % 18446744073709551616) 18446744073709551615)

/-- Messages, cloves and garlics live for a minute. -/
def defaultExpiration (clock : UInt64) : UInt64 := expirationIn clock (.ofSeconds 60)

end GarlicRouting
