import SpanRelay.Number.Binary64

/-!
Decimal numbers as text: an optional sign, digits with at most one point, an optional exponent, or
one of the names of infinity and NaN. The value is the nearest double.
-/
namespace SpanRelay

namespace DecimalText

def digitValue (digits : List Char) : Nat :=
  digits.foldl (fun n c => n * 10 + (c.toNat - '0'.toNat)) 0

/-- No point halfway between two neighbouring doubles has as many significant digits as this. -/
def decisiveDigits : Nat := 800

/-- Nearest double of the digits times `10 ^ exponent`. Far exponents are decided without the power,
and of the digits after the decisive ones it only counts whether they are all zero. -/
def nearest (negative : Bool) (digits : List Char) (exponent : Int) : Binary64 :=
  let digits := digits.dropWhile (· == '0')
  let size : Int := digits.length
  if digits.isEmpty then .make negative 0
  else if 400 < exponent + size then .infinity negative
  else if exponent + size < -400 then .make negative 0
  else
    let rest := digits.drop decisiveDigits
    let last := if rest.all (· == '0') then 0 else 1
    let exponent := exponent + rest.length - 1
    .ofRatio negative
      ((digitValue (digits.take decisiveDigits) * 10 + last) * Nat.pow 10 exponent.toNat)
      (Nat.pow 10 (-exponent).toNat)

/-- The size of an exponent; once it is beyond all use the digits that follow are passed over. -/
def exponentSize (digits : List Char) : Nat :=
  digits.foldl (fun n c => if n < 65536 then n * 10 + (c.toNat - '0'.toNat) else n) 0

def exponent? (text : List Char) : Option Int :=
  let (negative, digits) := match text with
    | '-' :: r => (true, r)
    | '+' :: r => (false, r)
    | r => (false, r)
  if digits.isEmpty || !digits.all Char.isDigit then none
  else
    let size : Int := exponentSize digits
    some (if negative then -size else size)

/-- A magnitude without its sign. -/
def magnitude? (negative : Bool) (text : List Char) : Option Binary64 :=
  let lower := text.map Char.toLower
  if lower == ['i', 'n', 'f'] || lower == ['i', 'n', 'f', 'i', 'n', 'i', 't', 'y'] then
    some (.infinity negative)
  else if lower == ['n', 'a', 'n'] then some .nan
  else
    let (whole, rest) := text.span Char.isDigit
    let (fraction, rest) := match rest with
      | '.' :: r => r.span Char.isDigit
      | r => ([], r)
    if whole.isEmpty && fraction.isEmpty then none
    else
      let digits := whole ++ fraction
      match rest with
      | [] => some (nearest negative digits (-(fraction.length : Int)))
      | c :: r =>
        if c == 'e' || c == 'E' then
          (exponent? r).map fun e => nearest negative digits (e - fraction.length)
        else none

def parse? : List Char → Option Binary64
  | '-' :: r => magnitude? true r
  | '+' :: r => magnitude? false r
  | r => magnitude? false r

end DecimalText
end SpanRelay
