import SpanRelay.Number.Shortest

/-!
How the digits of a double are laid out as text. One `Layout` value per output format: where
positional notation ends, whether an integer keeps a point, how the exponent is signed.
-/
namespace SpanRelay

structure Layout where
  tie : Tie
  /-- Positional notation for scientific exponents in this range, always when absent. -/
  positional : Option (Int × Int)
  pointZero : Bool
  exponentPlus : Bool

namespace Layout

def zeros (n : Nat) : List Char := List.replicate n '0'

/-- Positional text of `digits * 10 ^ exponent`. -/
def positionalText (pointZero : Bool) (digits : List Char) (exponent : Int) : List Char :=
  let pointAt : Int := digits.length + exponent
  if 0 ≤ exponent then
    digits ++ zeros exponent.toNat ++ if pointZero then ['.', '0'] else []
  else if 0 < pointAt then
    digits.take pointAt.toNat ++ '.' :: digits.drop pointAt.toNat
  else '0' :: '.' :: zeros (-pointAt).toNat ++ digits

def scientificText (exponentPlus : Bool) (digits : List Char) (scientific : Int) : List Char :=
  let mantissa := match digits with
    | d :: e :: more => d :: '.' :: e :: more
    | short => short
  let sign := if scientific < 0 then ['-'] else if exponentPlus then ['+'] else []
  mantissa ++ 'e' :: sign ++ Nat.toDigits 10 scientific.natAbs

def magnitudeText (l : Layout) (x : Binary64) : List Char :=
  let d := x.shortest l.tie
  let digits := Nat.toDigits 10 d.digits
  let scientific : Int := digits.length + d.exponent - 1
  let inRange := match l.positional with
    | none => true
    | some (low, high) => d.digits == 0 || (decide (low ≤ scientific) && decide (scientific ≤ high))
  if inRange then positionalText l.pointZero digits d.exponent
  else scientificText l.exponentPlus digits scientific

def text (l : Layout) (x : Binary64) : List Char :=
  let signed := fun body => if x.negative then '-' :: body else body
  if x.isNaN then ['N', 'a', 'N']
  else if x.isInfinite then signed ['i', 'n', 'f']
  else signed (l.magnitudeText x)

end Layout

/-- Plain text of a value: never an exponent, no point for integers. -/
def Layout.plain : Layout := ⟨.up, none, false, false⟩

/-- Numbers in a JSON body: `1.0`, `0.00001`, `1e-7`, `1e+16`. -/
def Layout.json : Layout := ⟨.toEven, some (-5, 15), true, true⟩

/-- Probabilities in the sampling header: `1.0`, `0.0001`, `1e-5`. -/
def Layout.header : Layout := ⟨.up, some (-4, 15), true, false⟩

end SpanRelay
