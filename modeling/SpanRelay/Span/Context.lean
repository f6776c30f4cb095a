import SpanRelay.Number.Binary64
import SpanRelay.Text.Hex

/-!
Identity of a span: the trace it belongs to and its own number. The trace number fixes the value
in [0, 1] by which a whole trace is sampled in or out.
-/
namespace SpanRelay

abbrev TraceId := BitVec 128

abbrev SpanId := BitVec 64

structure SpanContext where
  trace : TraceId
  span : SpanId
  deriving DecidableEq, Repr, Inhabited

namespace SpanContext

def invalid : SpanContext := ⟨0, 0⟩

def isValid (c : SpanContext) : Bool := c.trace != 0 && c.span != 0

end SpanContext

namespace TraceId

def text (t : TraceId) : List Char := Hex.padded 32 t.toNat

/-- The upper 63 bits, relative to the largest 63-bit number. -/
def samplingValue (t : TraceId) : Binary64 :=
  let upper := t.toNat >>> 65
  if upper = 0 then .zero else (Binary64.ofNat upper).divFinite (.ofNat ((1 <<< 63) - 1))

end TraceId

def SpanId.text (s : SpanId) : List Char := Hex.padded 16 s.toNat

/-- Random numbers drawn for a new span, zero being drawn again. -/
structure FreshIds where
  trace : TraceId
  span : SpanId
  trace_ne_zero : trace ≠ 0
  span_ne_zero : span ≠ 0

/-- Given numbers, with ones in their place if one of them is zero. -/
def FreshIds.ofNumbers (trace : TraceId) (span : SpanId) : FreshIds :=
  if h : trace ≠ 0 ∧ span ≠ 0 then ⟨trace, span, h.1, h.2⟩
  else ⟨1, 1, by decide, by decide⟩

end SpanRelay
