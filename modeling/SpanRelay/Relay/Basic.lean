import SpanRelay.Delivery.Outcome
import SpanRelay.Payload.Encoder
import SpanRelay.Plugin
import SpanRelay.Recorder.Batches
import SpanRelay.Storage.RetryQueue
import SpanRelay.Storage.StateFile

/-!
A recorder together with its stored files and the remote end to which batches go. The remote end is
known by its replies: each request takes the next one, and all are accepted when none is left.
-/
namespace SpanRelay

structure Remote where
  encoder : Encoder
  replies : List Reply
  /-- The probability it tells to those who ask. -/
  offer : Option Binary64
  /-- The sampler has asked to be told. -/
  listening : Bool

structure Relay where
  recorder : Recorder
  files : FileTree
  queue : RetryQueue
  /-- The file that keeps the probability of the sampler. -/
  state : Option StateFile
  remote : Remote
  /-- Payloads put into the retry queue so far. One is put there for a failed request, so that 64 bits
  hold this number up to 2 ^ 64 requests. -/
  queued : Nat
  connected : Bool
  resource : Attributes
  plugins : PluginHost

instance : Signalled Relay where
  signals y := y.recorder.signals
  withSignals y signals := { y with recorder := { y.recorder with signals } }
  signals_withSignals _ _ := rfl

namespace Relay

/-! ## Places of stored files -/

def versionFolder : Path := ["v1"]

def queueFolder : Path := versionFolder ++ ["retry-queue"]

def stateAddress : Address := .ofPath (versionFolder ++ ["persistent-state.json"])

def deviceIdPath : Path := ["device-id"]

/-- A relay whose stored files are listed in the order of `rank`. -/
def start (recorder : Recorder) (files : FileTree) (rank : String → Nat) (maxAge : Nanos)
    (remote : Remote) (connected : Bool) (resource : Attributes) (plugins : List Plugin) :
    Relay where
  recorder
  files
  queue := ⟨queueFolder, maxAge, rank⟩
  state := none
  remote
  queued := 0
  connected
  resource
  plugins := .ofTable plugins

/-- Deletes all stored files but the device id. -/
def clearFiles (y : Relay) : Except StorageError Relay :=
  match y.files.removeFolder versionFolder with
  | .ok files => .ok { y with files }
  | .error fault => .error (.ofFault versionFolder fault)

/-- The relay on the recorder, the files and the remote end of another one. -/
def sharing (y other : Relay) : Relay :=
  { y with
    recorder := other.recorder
    files := other.files
    state := other.state
    remote := other.remote }

/-- Carries out an operation of the recorder. -/
def record (y : Relay) (op : Recorder → α × Recorder) : α × Relay :=
  let (answer, recorder) := op y.recorder
  (answer, { y with recorder })

/-! ## Probability -/

/-- Takes over the stored probability, if one is kept. -/
def restoreProbability (y : Relay) : Relay :=
  match y.state, y.recorder.sampler with
  | some f, .probability s =>
    let sampler := Sampler.probability (s.restore f.values.probability f.values.expiry)
    { y with recorder := { y.recorder with sampler } }
  | _, _ => y

/-- Keeps the probability of the sampler in a file from now on. -/
def attachState (y : Relay) : Relay :=
  { y with state := some (.load y.files stateAddress) }.restoreProbability

def storeState (y : Relay) (v : StateValues) : Relay :=
  match y.state with
  | none => y
  | some f =>
    let (f, files) := f.update y.files v
    { y with state := some f, files }

/-- Sets the probability of an adaptive sampler, in memory and in the file. -/
def updateProbability (y : Relay) (p : Binary64) : Relay :=
  match y.recorder.sampler with
  | .discarding => y
  | .probability s =>
    match s.update? p y.recorder.clock.wallMillis with
    | none => y
    | some s =>
      { y with recorder := { y.recorder with sampler := .probability s } }.storeState ⟨p, s.expiry⟩

/-! ## The retry queue -/

def enqueuePayload (y : Relay) (p : Payload) : Except StorageError Relay :=
  (y.queue.add y.files p).map fun files => { y with files }

def nextPayload (y : Relay) : Option Payload × Relay :=
  let (p, files) := y.queue.next y.files y.recorder.clock.wall
  (p, { y with files })

def removePayload (y : Relay) (timestamp : UInt64) : Relay :=
  { y with files := y.queue.remove y.files timestamp }

def sweepPayloads (y : Relay) : Relay :=
  { y with files := y.queue.sweep y.files y.recorder.clock.wall }

def clearPayloads (y : Relay) : Relay := { y with files := y.queue.clear y.files }

end Relay
end SpanRelay
