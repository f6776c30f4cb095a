import SpanRelay.Relay.Delivery
import SpanRelay.Worker.Machine

/-!
The work of a relay in the background: sending the next batch, replaying a stored payload, and
asking for a probability once the last one has expired. Each answers whether it did work, so that
the worker comes back at once.
-/
namespace SpanRelay.Relay

/-- Lets the batcher wake the worker from now on. -/
def bindWorker (y : Relay) : Relay :=
  { y with recorder := { y.recorder with batcher := { y.recorder.batcher with bound := true } } }

def sendBatch (route : Route) (y : Relay) : Bool × Relay :=
  match y.record Recorder.collectNextBatch with
  | (none, y) => (false, y)
  | (some spans, y) =>
    if spans.isEmpty then (false, y)
    else
      let (result, y) := y.deliverSpans route spans y.resource
      (result.isSuccess, y)

/-- Tries the newest stored payload and deletes its file unless it can be tried again. -/
def replay (y : Relay) : Bool × Relay :=
  if !y.connected then (false, y)
  else
    match y.nextPayload with
    | (none, y) => (false, y)
    | (some p, y) =>
      match y.deliverPayload .direct p with
      | (.success, y) => (true, y.removePayload p.timestamp)
      | (.failed _ false, y) => (false, y.removePayload p.timestamp)
      | (.failed _ true, y) => (false, y)

def refreshIfExpired (y : Relay) : Relay :=
  match y.recorder.sampler with
  | .discarding => y
  | .probability s =>
    if s.isValid y.recorder.clock.wallMillis then y else y.fetchProbability

def attachSampler (y : Relay) : Relay := y.listen.restoreProbability.refreshIfExpired

def sendTask (route : Route) : Task Relay where
  attach := bindWorker
  execute y := let (worked, y) := y.sendBatch route; (.done worked, y)
  detach := id

def replayTask : Task Relay where
  attach := id
  execute y := let (worked, y) := y.replay; (.done worked, y)
  detach := id

def samplerTask : Task Relay where
  attach := attachSampler
  execute y := (.done false, y.refreshIfExpired)
  detach := id

end SpanRelay.Relay
