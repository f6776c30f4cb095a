import SpanRelay.Relay.Basic

/-!
Delivering batches and payloads: directly, with payloads kept for a later try, or to nobody. What
is kept is the payload of an attempt that failed and may be tried again.
-/
namespace SpanRelay

inductive Route where
  | direct
  | retrying
  | nowhere
  deriving DecidableEq, Repr

namespace Relay

/-- The next reply of the remote end; it accepts when none is left. -/
def takeReply (y : Relay) : Reply × Relay :=
  match y.remote.replies with
  | [] => (.status 200, y)
  | reply :: rest => (reply, { y with remote := { y.remote with replies := rest } })

def emit (y : Relay) (e : Event) : Relay := { y with recorder := y.recorder.emit e }

def encode (y : Relay) (spans : List SpanRef) (resource : Attributes) : Payload :=
  y.remote.encoder.encode y.recorder.clock (spans.filterMap y.recorder.span?) resource

def attemptSpans (y : Relay) (spans : List SpanRef) (resource : Attributes) :
    DeliveryResult × Relay :=
  let p := y.encode spans resource
  let (reply, y) := y.takeReply
  (reply.resultFor p, y.emit (.spansSent spans resource p reply))

def attemptPayload (y : Relay) (p : Payload) : DeliveryResult × Relay :=
  let (reply, y) := y.takeReply
  (reply.resultFor p, y.emit (.payloadSent p reply))

/-- Keeps the payload of a result that can be tried again; one that cannot be stored is lost. -/
def keepForRetry (y : Relay) (result : DeliveryResult) : Relay :=
  match result.retryablePayload? with
  | none => y
  | some p =>
    match y.enqueuePayload p with
    | .ok y => { y with queued := y.queued + 1 }
    | .error _ => y

/-- An empty batch is not sent along the retrying route. -/
def deliverSpans (y : Relay) (route : Route) (spans : List SpanRef) (resource : Attributes) :
    DeliveryResult × Relay :=
  match route with
  | .nowhere => (.success, y)
  | .direct => y.attemptSpans spans resource
  | .retrying =>
    if spans.isEmpty then (.success, y)
    else
      let (result, y) := y.attemptSpans spans resource
      (result, y.keepForRetry result)

def deliverPayload (y : Relay) (route : Route) (p : Payload) : DeliveryResult × Relay :=
  match route with
  | .nowhere => (.success, y)
  | .direct => y.attemptPayload p
  | .retrying =>
    let (result, y) := y.attemptPayload p
    (result, y.keepForRetry result)

/-- Asks the remote end for its probability, which it tells to a sampler that listens. -/
def fetchProbability (y : Relay) : Relay :=
  let y := y.emit .probabilityAsked
  match y.remote.offer with
  | some p => if y.remote.listening then y.updateProbability p else y
  | none => y

def listen (y : Relay) : Relay := { y with remote := { y.remote with listening := true } }

end Relay
end SpanRelay
