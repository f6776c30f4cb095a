import SpanRelay.Clock
import SpanRelay.Number.Binary64

/-!
Which spans are kept. A probability holds for good (fixed) or until it expires, after which the
fallback holds again; without a probability everything is discarded.
-/
namespace SpanRelay

structure ProbabilitySampler where
  fallback : Binary64
  isFixed : Bool
  current : Binary64
  /-- Last millisecond since 1970 at which `current` holds. -/
  expiry : Int64
  expireAfter : Nanos
  deriving DecidableEq, Repr

namespace ProbabilitySampler

def standardExpiry : Nanos := Nanos.ofSeconds (24 * 60 * 60)

/-- The nearest probability; a NaN stands for one. -/
def clampProbability (p : Binary64) : Binary64 :=
  if p.isNaN then .one else if p.lt .zero then .zero else if Binary64.one.lt p then .one else p

def adaptive (fallback : Binary64) : ProbabilitySampler :=
  ⟨clampProbability fallback, false, clampProbability fallback, 0, standardExpiry⟩

def fixed (p : Binary64) : ProbabilitySampler := { adaptive p with isFixed := true }

/-- Takes over a stored probability and its expiry. -/
def restore (s : ProbabilitySampler) (p : Binary64) (expiry : Int64) : ProbabilitySampler :=
  { s with current := clampProbability p, expiry }

def isValid (s : ProbabilitySampler) (now : Int64) : Bool := s.isFixed || decide (now ≤ s.expiry)

def probability (s : ProbabilitySampler) (now : Int64) : Binary64 :=
  if s.isFixed || !s.isValid now then s.fallback else s.current

/-- The sum in milliseconds, or the largest moment if it lies beyond. -/
def expiryAfter (now : Int64) (length : Nanos) : Int64 :=
  let most : Int := Int64.maxValue.toInt
  let millis : Int := (length / 1000000 : Nat)
  Int64.ofInt (min (now.toInt + min millis most) most)

/-- Sets a new probability; only an adaptive sampler takes one, and only from [0, 1]. -/
def update? (s : ProbabilitySampler) (p : Binary64) (now : Int64) : Option ProbabilitySampler :=
  if s.isFixed || !p.inUnitInterval then none
  else some { s with current := p, expiry := expiryAfter now s.expireAfter }

end ProbabilitySampler

inductive Sampler where
  | discarding
  | probability (s : ProbabilitySampler)
  deriving DecidableEq, Repr

def Sampler.probability? : Sampler → Option ProbabilitySampler
  | discarding => none
  | probability s => some s

/-- Whether a sampling value in [0, 1] is kept at a probability. -/
def Binary64.keeps (p value : Binary64) : Bool := Binary64.zero.lt p && value.le p

end SpanRelay
