import SpanRelay.Json.Printer
import SpanRelay.Span.Basic

/-!
The document that describes a batch: resource attributes once, then the spans in order. Times are
wall times in decimal text, identifiers are hexadecimal text of a fixed width, a parent and a
dropped-attribute count are left out when they are zero.
-/
namespace SpanRelay.Wire

def decimal (n : Nat) : String := String.ofList (Nat.toDigits 10 n)

mutual

def value : AttributeValue → Json
  | .text s => .record [("stringValue", .ofText s)]
  | .int n => .record [("intValue", .ofText (String.ofList (AttributeValue.integerText n.toInt)))]
  | .double x => .record [("doubleValue", .ofDouble x)]
  | .bool b => .record [("boolValue", .bool b)]
  | .array items => .record [("arrayValue", .record [("values", .array (values items))])]

def values : List AttributeValue → List Json
  | [] => []
  | v :: rest => value v :: values rest

end

def entry (e : String × AttributeValue) : Json :=
  .record [("key", .ofText e.1), ("value", value e.2)]

def attributes (a : Attributes) : Json := .array (a.entries.map entry)

/-- The time at which a span ended; its start if it has no end. -/
def endOf (s : Span) : Ticks := s.endTime?.getD s.start

def time (c : Clock) (t : Ticks) : Json := .ofText (decimal (c.toUnixNanos t).toNat)

def span (c : Clock) (s : Span) : Json :=
  .record ([
    ("name", .ofText s.name),
    ("kind", .ofNat s.kind.ordinal),
    ("spanId", .ofText (String.ofList (SpanId.text s.context.span))),
    ("traceId", .ofText (String.ofList (TraceId.text s.context.trace)))] ++
    (if s.parent = 0 then [] else
      [("parentSpanId", .ofText (String.ofList (SpanId.text s.parent)))]) ++ [
    ("startTimeUnixNano", time c s.start),
    ("endTimeUnixNano", time c (endOf s)),
    ("attributes", attributes s.attributes)] ++
    (if s.dropped = 0 then [] else [("droppedAttributesCount", .ofNat s.dropped.toNat)]))

def document (c : Clock) (spans : List Span) (resource : Attributes) : Json :=
  .record [("resourceSpans", .array [.record [
    ("resource", .record [("attributes", attributes resource)]),
    ("scopeSpans", .array [.record [("spans", .array (spans.map (span c)))]])]])]

/-- The document without any batch, by which a client asks for the probability. -/
def emptyDocument : Json := .record [("resourceSpans", .array [])]

end SpanRelay.Wire
