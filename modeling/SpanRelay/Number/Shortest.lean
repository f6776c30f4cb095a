import SpanRelay.Number.Binary64

/-!
The fewest decimal digits that read back as a given double. For 1, 2, … 17 digits the two decimals
next to the value are tested against the interval of reals that round to it; the first length with
a hit wins, of two hits the nearer, and an exact tie goes as `Tie` says.
-/
namespace SpanRelay

inductive Tie where
  | toEven | up
  deriving DecidableEq, Repr

/-- `digits * 10 ^ exponent`. -/
structure DecimalDigits where
  digits : Nat
  exponent : Int
  deriving DecidableEq, Repr

namespace DecimalDigits

/-- Drops zeros at the end, at most `fuel` of them. -/
def stripped : Nat → DecimalDigits → DecimalDigits
  | 0, d => d
  | fuel + 1, d =>
    if d.digits ≠ 0 ∧ d.digits % 10 = 0 then stripped fuel ⟨d.digits / 10, d.exponent + 1⟩ else d

end DecimalDigits

namespace Shortest

/-- The reals `low … high` that round to `value`, as numerators over one denominator; the ends
belong to it when `closed`. -/
structure Interval where
  low : Nat
  value : Nat
  high : Nat
  denominator : Nat
  closed : Bool

def Interval.of (significand : Nat) (exponent : Int) : Interval :=
  let unit := exponent - 2
  let scale := 1 <<< unit.toNat
  let below := if significand = Binary64.hiddenBit ∧ -1074 < exponent then 1 else 2
  { low := (4 * significand - below) * scale
    value := 4 * significand * scale
    high := (4 * significand + 2) * scale
    denominator := 1 <<< (-unit).toNat
    closed := significand % 2 == 0 }

/-- How often a positive value below one must be multiplied by ten to reach one. -/
def leadingZeros (den : Nat) : Nat → Nat → Nat
  | 0, _ => 0
  | fuel + 1, num => if den ≤ num then 0 else leadingZeros den fuel (num * 10) + 1

/-- The `e` with `10 ^ (e - 1) ≤ value < 10 ^ e`. -/
def Interval.decimalLength (i : Interval) : Int :=
  if i.denominator ≤ i.value then (Nat.toDigits 10 (i.value / i.denominator)).length
  else 1 - (leadingZeros i.denominator 400 i.value : Int)

/-- A decimal with the grid `10 ^ grid` in the interval and nearest to the value, if any. -/
def Interval.onGrid? (i : Interval) (tie : Tie) (grid : Int) : Option Nat :=
  let lift := Nat.pow 10 (-grid).toNat
  let den := i.denominator * Nat.pow 10 grid.toNat
  let down := i.value * lift / den
  let rest := i.value * lift % den
  let downHit := if i.closed then decide (i.low * lift ≤ down * den)
    else decide (i.low * lift < down * den)
  let upHit := if i.closed then decide ((down + 1) * den ≤ i.high * lift)
    else decide ((down + 1) * den < i.high * lift)
  let preferUp := decide (den < 2 * rest) || (decide (den = 2 * rest) &&
    (tie == .up || down % 2 == 1))
  if downHit && !(upHit && preferUp) then some down
  else if upHit then some (down + 1)
  else none

def Interval.search (i : Interval) (tie : Tie) (length : Int) : Nat → Nat → DecimalDigits
  | 0, _ => ⟨i.value / i.denominator, 0⟩
  | fuel + 1, count =>
    match i.onGrid? tie (length - count) with
    | some d => DecimalDigits.stripped 20 ⟨d, length - count⟩
    | none => i.search tie length fuel (count + 1)

end Shortest

/-- The shortest digits of a finite magnitude; zero has the digit zero. -/
def Binary64.shortest (tie : Tie) (x : Binary64) : DecimalDigits :=
  if x.significand = 0 then ⟨0, 0⟩
  else
    let i := Shortest.Interval.of x.significand x.exponent
    i.search tie i.decimalLength 17 1

end SpanRelay
