/-!
Clock readings. Ticks are monotonic nanoseconds since an anchor moment, wall time is nanoseconds
since 1970, and ticks become wall time by adding the anchor, up to the largest 64-bit value.
-/
namespace SpanRelay

abbrev Ticks := UInt64

/-- A length of time in nanoseconds. -/
abbrev Nanos := Nat

namespace Nanos

def ofMillis (n : Nat) : Nanos := n * 1000000

def ofSeconds (n : Nat) : Nanos := n * 1000000000

/-- The longest length of time that can be asked for. -/
def longest : Nanos := ofSeconds (UInt64.size - 1) + 999999999

/-- The length as a 64-bit number, the largest one if it does not fit. -/
def saturated (n : Nanos) : UInt64 := UInt64.ofNat (min n (UInt64.size - 1))

end Nanos

/-- The sum, or the largest value if it does not fit. -/
def saturatingSum (a b : UInt64) : UInt64 := UInt64.ofNat (min (a.toNat + b.toNat) (UInt64.size - 1))

def saturatingDifference (a b : UInt64) : UInt64 := UInt64.ofNat (a.toNat - b.toNat)

structure Clock where
  ticks : Ticks
  wall : UInt64
  anchor : UInt64
  deriving DecidableEq, Repr, Inhabited

namespace Clock

def toUnixNanos (c : Clock) (t : Ticks) : UInt64 := saturatingSum c.anchor t

def wallMillis (c : Clock) : Int64 := Int64.ofNat (c.wall.toNat / 1000000)

/-- Both readings move on by the same length of time. -/
def advance (c : Clock) (elapsed : Nanos) : Clock :=
  { c with ticks := c.ticks + UInt64.ofNat elapsed, wall := c.wall + UInt64.ofNat elapsed }

end Clock
end SpanRelay
