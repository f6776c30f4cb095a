import SpanRelay.Recorder.Moves
import SpanRelay.Relay.Tasks

/-!
Runs of a relay, each with what it is looked at for. Works are what becomes of the payloads: whole
turns of the tasks, and the connection. Dispatches are deliveries along one route, each with its
answer. Probability moves are what happens to the sampler and its file. In between, spans are
recorded by moves of the recorder.
-/
namespace SpanRelay

/-! ## Works -/

namespace Event

/-- An attempt to deliver a payload, with the class of its answer. -/
def tried? : Event → Option (Payload × ResponseClass)
  | .spansSent _ _ p (.status code) | .payloadSent p (.status code) => some (p, .ofStatus code)
  | _ => none

/-- A payload that was delivered as such, not as a batch of spans. -/
def resent? : Event → Option Payload
  | .payloadSent p _ => some p
  | _ => none

end Event

namespace Relay

/-- What happens to a relay: one of its tasks is executed, the connection comes or goes, or
something is recorded. -/
inductive Work where
  | send
  | replay
  | connect (connected : Bool)
  | record (m : Recorder.Move)

def work (y : Relay) : Work → Relay
  | .send => ((sendTask .retrying).execute y).2
  | .replay => (replayTask.execute y).2
  | .connect connected => { y with connected }
  | .record m => { y with recorder := y.recorder.move m }

def toil (y : Relay) (works : List Work) : Relay := works.foldl work y

/-- The payloads that were made of batches, newest first. -/
def made (y : Relay) : List Payload := y.recorder.log.filterMap Event.madePayload?

/-- The attempts that were answered, newest first. -/
def tries (y : Relay) : List (Payload × ResponseClass) := y.recorder.log.filterMap Event.tried?

/-- The payloads that were delivered from the queue, newest first. -/
def resent (y : Relay) : List Payload := y.recorder.log.filterMap Event.resent?

/-! ## Dispatches -/

/-- A delivery along the retrying route, or something that is recorded in between. -/
inductive Dispatch where
  | spans (refs : List SpanRef) (resource : Attributes)
  | payload (p : Payload)
  | record (m : Recorder.Move)

/-- What is recorded has no failure. -/
def dispatch (y : Relay) : Dispatch → DeliveryResult × Relay
  | .spans refs resource => y.deliverSpans .retrying refs resource
  | .payload p => y.deliverPayload .retrying p
  | .record m => (.success, { y with recorder := y.recorder.move m })

def dispatchAll (y : Relay) (ds : List Dispatch) : Relay :=
  ds.foldl (fun y d => (y.dispatch d).2) y

/-- The payload of a delivery that fails and may be tried again. -/
def keeps? (y : Relay) (d : Dispatch) : Option Payload := (y.dispatch d).1.retryablePayload?

/-- The payloads of all such deliveries, in their order. -/
def keptBy (y : Relay) : List Dispatch → List Payload
  | [] => []
  | d :: ds => (y.keeps? d).toList ++ keptBy (y.dispatch d).2 ds

end Relay

/-! ## The probability -/

/-- What an adaptive sampler is set up with. -/
structure ProbabilitySettings where
  fallback : Binary64
  expireAfter : Nanos
  deriving DecidableEq, Repr

def ProbabilitySettings.sampler (c : ProbabilitySettings) : ProbabilitySampler :=
  { ProbabilitySampler.adaptive c.fallback with expireAfter := c.expireAfter }

/-- What happens to a sampler and its state file. -/
inductive ProbabilityMove where
  | update (p : Binary64)
  | restore
  /-- A new process loads the file and starts a sampler of its own. -/
  | restart (c : ProbabilitySettings)
  /-- Anything that neither the sampler nor its file takes part in. -/
  | aside (f : Relay → Relay)

/-- The settings of the sampler that was started last. -/
def ProbabilitySettings.after (c : ProbabilitySettings) (moves : List ProbabilityMove) :
    ProbabilitySettings :=
  moves.foldl (fun c move => match move with | .restart d => d | _ => c) c

namespace Relay

/-- Starts with a sampler that keeps its probability in the file at the address. -/
def startSampler (y : Relay) (a : Address) (s : ProbabilitySampler) : Relay :=
  { y with
    recorder := { y.recorder with sampler := .probability s }
    state := some (.load y.files a) }.restoreProbability

def steer (a : Address) (y : Relay) : ProbabilityMove → Relay
  | .update p => y.updateProbability p
  | .restore => y.restoreProbability
  | .restart c => y.startSampler a c.sampler
  | .aside f => f y

def steerAll (a : Address) (y : Relay) (moves : List ProbabilityMove) : Relay :=
  moves.foldl (steer a) y

/-- The sampler after it has taken the probability, if it takes it. -/
def accepted? (y : Relay) (p : Binary64) : Option ProbabilitySampler :=
  y.recorder.sampler.probability?.bind fun s => s.update? p y.recorder.clock.wallMillis

end Relay
end SpanRelay
