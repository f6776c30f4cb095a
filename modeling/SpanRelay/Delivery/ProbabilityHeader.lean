import SpanRelay.Number.DecimalText
import SpanRelay.Text.Blank
import SpanRelay.Text.Bytes

/-! The probability that a response may carry in a header. -/
namespace SpanRelay.ProbabilityHeader

def name : String := "Bugsnag-Sampling-Probability"

/-- Visible ASCII, spaces and tabs can be read as text. -/
def isReadable (b : UInt8) : Bool := b == 0x09 || decide (0x20 ≤ b ∧ b ≤ 0x7e)

/-- A decimal number in [0, 1], with white space around it. -/
def ofValue? (value : Bytes) : Option Binary64 :=
  if value.all isReadable then
    (DecimalText.parse? (Blank.trim (value.map fun b => Char.ofNat b.toNat))).filter
      Binary64.inUnitInterval
  else none

/-- The first header of the name counts. -/
def find? (headers : List (String × Bytes)) : Option Binary64 :=
  let lower := fun (s : String) => s.toList.map Char.toLower
  match headers.find? fun h => lower h.1 == lower name with
  | some (_, value) => ofValue? value
  | none => none

end SpanRelay.ProbabilityHeader
