import SpanRelay.Payload.Basic
import SpanRelay.Payload.Wire
import SpanRelay.Text.Hex

/-!
Payloads with the headers that describe them. Long bodies are packed; length and digest are those
of the body as it is sent; the sampling header counts the spans of each probability. How bodies are
packed and digested is a parameter.
-/
namespace SpanRelay

structure Codec where
  /-- Gzip. -/
  pack : Bytes → Bytes
  /-- SHA-1. -/
  digest : Bytes → Bytes

/-- What the codec packs is got back by `unpack`. -/
def Codec.UnpackedBy (codec : Codec) (unpack : Bytes → Option Bytes) : Prop :=
  ∀ data, unpack (codec.pack data) = some data

namespace Payload

def isPacked (p : Payload) : Bool := p.header? "Content-Encoding" == some "gzip"

/-- The body as it was before it was packed. -/
def rawBody? (unpack : Bytes → Option Bytes) (p : Payload) : Option Bytes :=
  if p.isPacked then unpack p.body else some p.body

/-- Length and digest of a body as it is sent. -/
def headersOf (codec : Codec) (body : Bytes) : List (String × String) :=
  [("Content-Length", Wire.decimal body.length),
    ("Bugsnag-Integrity", "sha1 " ++ String.ofList (Hex.bytes (codec.digest body)))]

/-- The headers that fit the body of a payload. -/
def bodyHeaders (codec : Codec) (p : Payload) : List (String × String) := headersOf codec p.body

end Payload

structure Encoder where
  apiKey : String
  reportsSampling : Bool
  codec : Codec

namespace Encoder

def packingThreshold : Nat := 128

/-- Adds a span to the count of its probability. -/
def tally (p : Binary64) : List (Binary64 × Nat) → List (Binary64 × Nat)
  | [] => [(p, 1)]
  | (q, n) :: rest => if q.equal p then (q, n + 1) :: rest else (q, n) :: tally p rest

def probabilityCounts (probabilities : List Binary64) : List (Binary64 × Nat) :=
  (probabilities.foldl (fun counts p => tally p counts) []).mergeSort
    fun a b => decide (a.1.totalKey ≤ b.1.totalKey)

def countText (e : Binary64 × Nat) : String :=
  String.ofList (Layout.header.text e.1 ++ ':' :: Nat.toDigits 10 e.2)

/-- One entry for each probability, in ascending order. -/
def samplingText (spans : List Span) : String :=
  String.intercalate ";" ((probabilityCounts (spans.map Span.probability)).map countText)

def finish (e : Encoder) (now : UInt64) (raw : Bytes) (sampling : Option String) : Payload :=
  let packs := decide (packingThreshold ≤ raw.length)
  let body := if packs then e.codec.pack raw else raw
  { timestamp := now
    body
    headers :=
      [("Bugsnag-Api-Key", e.apiKey), ("Content-Type", "application/json")] ++
      (if packs then [("Content-Encoding", "gzip")] else []) ++
      Payload.headersOf e.codec body ++
      (sampling.map fun s => ("Bugsnag-Span-Sampling", s)).toList }

/-- The body of a batch before it is packed. -/
def rawBody (c : Clock) (spans : List Span) (resource : Attributes) : Bytes :=
  (Wire.document c spans resource).render

def encode (e : Encoder) (c : Clock) (spans : List Span) (resource : Attributes) : Payload :=
  e.finish c.wall (rawBody c spans resource)
    (if e.reportsSampling then some (samplingText spans) else none)

/-- An empty payload that asks for the current probability. -/
def probabilityRequest (e : Encoder) (c : Clock) : Payload :=
  e.finish c.wall Wire.emptyDocument.render (some "1.0:0")

end Encoder
end SpanRelay
