/-! Lower-case hexadecimal text of a fixed width. -/
namespace SpanRelay.Hex

def digit (n : Nat) : Char := (Nat.toDigits 16 (n % 16)).headD '0'

/-- The last `width` hexadecimal digits of `n`, leading zeros kept. -/
def padded : Nat → Nat → List Char
  | 0, _ => []
  | width + 1, n => padded width (n / 16) ++ [digit n]

theorem length_padded (width n : Nat) : (padded width n).length = width := by
  induction width generalizing n with
  | zero => rfl
  | succ w ih => simp [padded, ih]

def digitValue (c : Char) : Nat :=
  if c.isDigit then c.toNat - '0'.toNat
  else if 'a' ≤ c then c.toNat - 'a'.toNat + 10
  else c.toNat - 'A'.toNat + 10

/-- The number that hexadecimal digits of either case denote. -/
def value (digits : List Char) : Nat := digits.foldl (fun n c => 16 * n + digitValue c) 0

def pairs : List Char → List UInt8
  | a :: b :: rest => UInt8.ofNat (value [a, b]) :: pairs rest
  | _ => []

def bytes (data : List UInt8) : List Char := data.flatMap fun b => padded 2 b.toNat

end SpanRelay.Hex
