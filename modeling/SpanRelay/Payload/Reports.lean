import SpanRelay.Json.Reader
import SpanRelay.Number.DecimalText
import SpanRelay.Payload.Wire

/-!
What a document tells of a batch, read without knowing how it was written: members by the texts of
their names, numbers from their digits, doubles as the nearest ones.
-/
namespace SpanRelay

namespace Json

/-- The members of an object under the texts that their names denote, of which none stands twice. -/
def fields? : Json → Option (List (String × Json))
  | .object members =>
    (members.mapM fun m => (text? m.1).map (·, m.2)).filter fun fields =>
      decide (fields.map Prod.fst).Nodup
  | _ => none

def member? (name : String) (j : Json) : Option Json := j.fields?.bind (List.lookup name)

/-- A member that may be missing. -/
def optional? {α : Type} (name : String) (read : Json → Option α) (j : Json) :
    Option (Option α) :=
  match j.member? name with
  | none => some none
  | some k => (read k).map some

def asBool? : Json → Option Bool
  | .bool b => some b
  | _ => none

def asList? : Json → Option (List Json)
  | .array items => some items
  | _ => none

/-- The only item of an array. -/
def single? : Json → Option Json
  | .array [j] => some j
  | _ => none

end Json

open Json

namespace Wire

/-! ## Texts of numbers -/

def natural? (text : List Char) : Option Nat :=
  if text ≠ [] ∧ text.all Char.isDigit then some (DecimalText.digitValue text) else none

/-- A 64-bit integer with its sign. -/
def integer? : List Char → Option Int64
  | '-' :: digits =>
    ((natural? digits).filter (· ≤ 1 <<< 63)).map fun n : Nat => Int64.ofInt (-(n : Int))
  | digits => ((natural? digits).filter (· < 1 <<< 63)).map Int64.ofNat

def isHexDigit (c : Char) : Bool := c.isDigit || (decide ('a' ≤ c) && decide (c ≤ 'f'))

/-- Exactly so many hexadecimal digits. -/
def hex? (width : Nat) (text : List Char) : Option Nat :=
  if text.length = width ∧ text.all isHexDigit then some (Hex.value text) else none

/-- The nearest double of a number literal; null is a double that is none. -/
def double? : Json → Option Binary64
  | .null => some .nan
  | .number literal => (Bytes.toString? literal).bind fun s => DecimalText.parse? s.toList
  | _ => none

def count? : Json → Option Nat
  | .number literal => (Bytes.toString? literal).bind fun s => natural? s.toList
  | _ => none

def time? (j : Json) : Option Nat := (asText? j).bind fun s => natural? s.toList

def spanId? (j : Json) : Option SpanId :=
  (asText? j).bind fun s => (hex? 16 s.toList).map (BitVec.ofNat 64)

def traceId? (j : Json) : Option TraceId :=
  (asText? j).bind fun s => (hex? 32 s.toList).map (BitVec.ofNat 128)

/-! ## Attributes -/

mutual

def value? : Json → Option AttributeValue
  | .object [(tag, .object [(name, .array items)])] =>
    if text? tag = some "arrayValue" ∧ text? name = some "values" then
      (values? items).map .array
    else none
  | .object [(tag, j)] =>
    match text? tag with
    | some "stringValue" => (asText? j).map .text
    | some "intValue" => (asText? j).bind fun s => (integer? s.toList).map .int
    | some "doubleValue" => (double? j).map .double
    | some "boolValue" => (asBool? j).map .bool
    | _ => none
  | _ => none

def values? : List Json → Option (List AttributeValue)
  | [] => some []
  | j :: rest => (value? j).bind fun v => (values? rest).map (v :: ·)

end

def attribute? (j : Json) : Option (String × AttributeValue) := do
  let key ← j.member? "key" >>= asText?
  let value ← j.member? "value" >>= value?
  return (key, value)

def attributes? (j : Json) : Option (List (String × AttributeValue)) :=
  j.asList? >>= List.mapM attribute?

/-! ## Spans -/

/-- What a document tells of one span. -/
structure Report where
  name : String
  kind : Nat
  span : SpanId
  trace : TraceId
  parent? : Option SpanId
  start : Nat
  finish : Nat
  attributes : List (String × AttributeValue)
  dropped? : Option Nat

def report? (j : Json) : Option Report := do
  let name ← j.member? "name" >>= asText?
  let kind ← j.member? "kind" >>= count?
  let span ← j.member? "spanId" >>= spanId?
  let trace ← j.member? "traceId" >>= traceId?
  let parent? ← j.optional? "parentSpanId" spanId?
  let start ← j.member? "startTimeUnixNano" >>= time?
  let finish ← j.member? "endTimeUnixNano" >>= time?
  let attributes ← j.member? "attributes" >>= attributes?
  let dropped? ← j.optional? "droppedAttributesCount" count?
  return { name, kind, span, trace, parent?, start, finish, attributes, dropped? }

/-- What a document tells of a batch: one resource with one list of spans. -/
structure Account where
  resource : List (String × AttributeValue)
  reports : List Report

def account? (j : Json) : Option Account := do
  let batch ← j.member? "resourceSpans" >>= single?
  let resource ← batch.member? "resource" >>= member? "attributes" >>= attributes?
  let scope ← batch.member? "scopeSpans" >>= single?
  let reports ← scope.member? "spans" >>= asList? >>= List.mapM report?
  return { resource, reports }

end Wire
end SpanRelay
