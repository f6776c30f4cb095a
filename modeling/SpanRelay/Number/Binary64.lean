/-!
Doubles as 64-bit words. A finite word is `significand * 2 ^ exponent` with a sign, its order is
the order of an integer key, and `ofRatio` rounds a ratio of naturals to the nearest double with
ties to the even significand. No runtime floating point is involved.
-/
namespace SpanRelay

structure Binary64 where
  bits : UInt64
  deriving DecidableEq, Repr, Inhabited

namespace Binary64

def signBit : Nat := 1 <<< 63

/-- The leading bit of a normal significand, which is not written. -/
def hiddenBit : Nat := 1 <<< 52

def infinityBits : Nat := 2047 * hiddenBit

def negative (x : Binary64) : Bool := decide (signBit ≤ x.bits.toNat)

def magnitudeBits (x : Binary64) : Nat := x.bits.toNat % signBit

def isNaN (x : Binary64) : Bool := decide (infinityBits < x.magnitudeBits)

def isFinite (x : Binary64) : Bool := decide (x.magnitudeBits < infinityBits)

def isInfinite (x : Binary64) : Bool := decide (x.magnitudeBits = infinityBits)

def make (negative : Bool) (magnitude : Nat) : Binary64 :=
  ⟨UInt64.ofNat (magnitude + if negative then signBit else 0)⟩

def zero : Binary64 := make false 0
def one : Binary64 := make false (1023 * hiddenBit)
def nan : Binary64 := make false (infinityBits + hiddenBit / 2)
def infinity (negative : Bool) : Binary64 := make negative infinityBits

def significand (x : Binary64) : Nat :=
  let field : Nat := x.magnitudeBits / hiddenBit
  let fraction : Nat := x.magnitudeBits % hiddenBit
  if field = 0 then fraction else hiddenBit + fraction

def exponent (x : Binary64) : Int :=
  let field : Nat := x.magnitudeBits / hiddenBit
  if field = 0 then -1074 else (field : Int) - 1075

/-! ## Order -/

/-- The two zeros have one key. -/
def key (x : Binary64) : Int :=
  if x.negative then -(x.magnitudeBits : Int) else x.magnitudeBits

def le (x y : Binary64) : Bool := !x.isNaN && !y.isNaN && decide (x.key ≤ y.key)

def lt (x y : Binary64) : Bool := !x.isNaN && !y.isNaN && decide (x.key < y.key)

/-- Numeric equality: the zeros are equal and a NaN equals nothing. -/
def equal (x y : Binary64) : Bool := !x.isNaN && !y.isNaN && decide (x.key = y.key)

/-- Orders all words: negative NaNs first, then by value with -0 before 0, NaNs last. -/
def totalKey (x : Binary64) : Int :=
  if x.negative then -(x.magnitudeBits : Int) - 1 else x.magnitudeBits

def inUnitInterval (x : Binary64) : Bool := zero.le x && x.le one

/-! ## Rounding -/

/-- Quotient rounded to nearest, a half to the even neighbour. -/
def roundHalfEven (num den : Nat) : Nat :=
  let quotient := num / den
  let rest := num % den
  if 2 * rest < den then quotient
  else if den < 2 * rest then quotient + 1
  else quotient + quotient % 2

/-- Floor of the binary logarithm of a positive ratio. -/
def floorLog2 (num den : Nat) : Int :=
  let guess : Int := (num.log2 : Int) - den.log2
  if den <<< guess.toNat ≤ num <<< (-guess).toNat then guess else guess - 1

def roundMagnitude (num den : Nat) : Nat :=
  if num = 0 then 0
  else
    let unit : Int := max (floorLog2 num den - 52) (-1074)
    let m := roundHalfEven (num <<< (-unit).toNat) (den <<< unit.toNat)
    min ((unit + 1074).toNat * hiddenBit + m) infinityBits

def ofRatio (negative : Bool) (num den : Nat) : Binary64 := make negative (roundMagnitude num den)

def ofNat (n : Nat) : Binary64 := ofRatio false n 1

/-- Product of two finite doubles. -/
def mulFinite (x y : Binary64) : Binary64 :=
  let unit := x.exponent + y.exponent
  ofRatio (x.negative != y.negative) ((x.significand * y.significand) <<< unit.toNat)
    (1 <<< (-unit).toNat)

/-- Quotient of two finite doubles, the second not zero. -/
def divFinite (x y : Binary64) : Binary64 :=
  let unit := x.exponent - y.exponent
  ofRatio (x.negative != y.negative) (x.significand <<< unit.toNat)
    (y.significand <<< (-unit).toNat)

def powerOfTen (n : Nat) : Binary64 := ofNat (Nat.pow 10 n)

end Binary64
end SpanRelay
