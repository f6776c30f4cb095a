/-!
White space by the Unicode property: twenty-five code points, of which core's class has four.
-/
namespace SpanRelay.Blank

def ranges : List (Nat × Nat) :=
  [(0x09, 0x0d), (0x20, 0x20), (0x85, 0x85), (0xa0, 0xa0), (0x1680, 0x1680), (0x2000, 0x200a),
   (0x2028, 0x2029), (0x202f, 0x202f), (0x205f, 0x205f), (0x3000, 0x3000)]

def isBlank (c : Char) : Bool := ranges.any fun r => decide (r.1 ≤ c.toNat ∧ c.toNat ≤ r.2)

def trimStart (text : List Char) : List Char := text.dropWhile isBlank

def trim (text : List Char) : List Char := (trimStart (trimStart text).reverse).reverse

theorem trimStart_eq_self {c : Char} {text : List Char} (h : isBlank c = false) :
    trimStart (c :: text) = c :: text := by
  simp [trimStart, List.dropWhile, h]

end SpanRelay.Blank
