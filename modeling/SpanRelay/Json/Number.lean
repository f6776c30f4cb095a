import SpanRelay.Json.Reader

/-!
What a number literal denotes. Digits are taken into a 64-bit significand while they fit; the
others of the whole part only raise the exponent. The double is the nearest one to the significand,
multiplied or divided once by the nearest double of a power of ten, which for long literals is not
always the nearest double to the literal.
-/
namespace SpanRelay.Json

structure NumberParts where
  negative : Bool
  whole : Bytes
  fraction : Bytes
  /-- Sign and digits after an exponent mark. -/
  exponent : Option (Bool × Bytes)
  /-- A point or an exponent mark is there. -/
  fractional : Bool
  deriving DecidableEq, Repr

def NumberParts.ofLiteral (literal : Bytes) : NumberParts :=
  let (negative, rest) := match literal with
    | 0x2d :: r => (true, r)
    | r => (false, r)
  let (whole, rest) := rest.span isDigitByte
  let (fraction, rest, pointed) := match rest with
    | 0x2e :: r => ((r.span isDigitByte).1, (r.span isDigitByte).2, true)
    | r => ([], r, false)
  match rest with
  | _ :: 0x2d :: digits => ⟨negative, whole, fraction, some (true, digits), true⟩
  | _ :: 0x2b :: digits => ⟨negative, whole, fraction, some (false, digits), true⟩
  | _ :: digits => ⟨negative, whole, fraction, some (false, digits), true⟩
  | [] => ⟨negative, whole, fraction, none, pointed⟩

def digitOf (b : UInt8) : Nat := b.toNat - 0x30

/-- The digits that fit below `2 ^ 64` after `start`, and how many do not. -/
def significandOf (start : Nat) : Bytes → Nat × Nat
  | [] => (start, 0)
  | b :: rest =>
    if start * 10 + digitOf b < UInt64.size then significandOf (start * 10 + digitOf b) rest
    else (start, (b :: rest).length)

/-- Scales by a power of ten; none when the result is not finite. -/
def scaled? : Nat → Binary64 → Int → Option Binary64
  | 0, x, _ => some x
  | fuel + 1, x, e =>
    if e.natAbs ≤ 308 then
      if 0 ≤ e then
        let y := x.mulFinite (.powerOfTen e.toNat)
        if y.isFinite then some y else none
      else some (x.divFinite (.powerOfTen e.natAbs))
    else if x.significand = 0 then some x
    else if 0 ≤ e then none
    else scaled? fuel (x.divFinite (.powerOfTen 308)) (e + 308)

namespace NumberParts

def withSign (n : NumberParts) (x : Binary64) : Binary64 :=
  .make n.negative x.magnitudeBits

def toDouble? (n : NumberParts) : Option Binary64 :=
  let (partialSum, skipped) := significandOf 0 n.whole
  let (significand, dropped) := significandOf partialSum n.fraction
  let start : Int := skipped - (n.fraction.length - dropped : Nat)
  let scale := fun (e : Int) =>
    (scaled? (e.natAbs / 308 + 1) (.ofNat significand) e).map n.withSign
  match n.exponent with
  | none => scale start
  | some (down, digits) =>
    let size := digits.foldl (fun e b => if e < 1 <<< 31 then e * 10 + digitOf b else e) 0
    if 1 <<< 31 ≤ size then
      if significand ≠ 0 ∧ !down then none else some (.make n.negative 0)
    else scale (if down then start - size else start + size)

/-- A whole number of 64 bits with sign; minus zero is none. -/
def toInteger? (n : NumberParts) : Option Int :=
  if n.fractional then none
  else
    let (size, skipped) := significandOf 0 n.whole
    if skipped ≠ 0 then none
    else if n.negative then if 0 < size ∧ size ≤ 1 <<< 63 then some (-(size : Int)) else none
    else if size < 1 <<< 63 then some size else none

end NumberParts

def asDouble? : Json → Option Binary64
  | .number literal => (NumberParts.ofLiteral literal).toDouble?
  | _ => none

def asInteger? : Json → Option Int
  | .number literal => (NumberParts.ofLiteral literal).toInteger?
  | _ => none

end SpanRelay.Json
