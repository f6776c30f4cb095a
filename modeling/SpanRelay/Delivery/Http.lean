import SpanRelay.Config
import SpanRelay.Delivery.Outcome
import SpanRelay.Delivery.ProbabilityHeader
import SpanRelay.Payload.Encoder

/-!
Delivery by HTTP requests. How a request is exchanged for a response is a parameter: a function that
answers nothing when there is no connection. A response may tell a new probability.
-/
namespace SpanRelay

structure HttpRequest where
  endpoint : String
  headers : List (String × String)
  body : Bytes
  deriving DecidableEq, Repr

structure HttpResponse where
  status : Nat
  headers : List (String × Bytes)
  deriving DecidableEq, Repr

abbrev Exchange := HttpRequest → Option HttpResponse

structure HttpAnswer where
  status : Nat
  probability : Option Binary64
  deriving DecidableEq, Repr

structure HttpDelivery where
  endpoint : String
  encoder : Encoder
  /-- Probabilities are told to somebody. -/
  listening : Bool
  /-- Those told so far. -/
  told : List Binary64

namespace HttpDelivery

def create (codec : Codec) (endpoint apiKey : String) (reportsSampling : Bool) : HttpDelivery :=
  ⟨endpoint, ⟨apiKey, reportsSampling, codec⟩, false, []⟩

/-- With a fixed probability there is nothing to report about sampling. -/
def ofConfig (codec : Codec) (c : RelayConfig) : HttpDelivery :=
  create codec c.endpoint c.apiKey c.probability.isNone

def isTokenChar (c : Char) : Bool :=
  c.isAlphanum || "!#$%&*+-.^_|~".contains c || c.toNat == 0x27 ||
  c.toNat == 0x60

def allowsName (name : String) : Bool := !name.isEmpty && name.all isTokenChar

/-- Control characters other than the tab are not allowed. -/
def allowsValue (value : String) : Bool :=
  value.all fun c => c.toNat == 0x09 || (decide (0x20 ≤ c.toNat) && c.toNat != 0x7f)

/-- The request for a payload; its length is left to the exchange. -/
def request? (d : HttpDelivery) (p : Payload) : Option HttpRequest :=
  let headers := p.headers.filter fun h =>
    Payload.asciiLower h.1 != Payload.asciiLower "Content-Length"
  if headers.all fun h => allowsName h.1 && allowsValue h.2 then
    some ⟨d.endpoint, headers, p.body⟩
  else none

/-- Posts a payload; no answer when it could not be sent or no response came. -/
def send (exchange : Exchange) (d : HttpDelivery) (p : Payload) :
    Option HttpAnswer × HttpDelivery :=
  match (d.request? p).bind exchange with
  | none => (none, d)
  | some response =>
    let probability := ProbabilityHeader.find? response.headers
    let told := if d.listening then d.told ++ probability.toList else d.told
    (some ⟨response.status, probability⟩, { d with told })

/-- Without an answer the payload can be sent again. -/
def deliverPayload (exchange : Exchange) (d : HttpDelivery) (p : Payload) :
    DeliveryResult × HttpDelivery :=
  match d.send exchange p with
  | (some answer, d) => ((ResponseClass.ofStatus answer.status).resultFor p, d)
  | (none, d) => (.failed (some p) true, d)

def deliverSpans (exchange : Exchange) (d : HttpDelivery) (c : Clock) (spans : List Span)
    (resource : Attributes) : DeliveryResult × HttpDelivery :=
  d.deliverPayload exchange (d.encoder.encode c spans resource)

def fetchProbability (exchange : Exchange) (d : HttpDelivery) (c : Clock) : HttpDelivery :=
  (d.send exchange (d.encoder.probabilityRequest c)).2

end HttpDelivery
end SpanRelay
