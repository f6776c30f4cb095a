import SpanRelay.Config
import SpanRelay.Relay.Tasks
import SpanRelay.Storage.DeviceId

/-!
A relay that runs: plugins are installed first, the worker starts them, names the installation, and
then sends batches, replays stored payloads and keeps the probability up to date.
-/
namespace SpanRelay.Relay

/-- The relay before its worker starts. -/
def ofConfig (config : RelayConfig) (clock : Clock) (files : FileTree) (rank : String → Nat)
    (remote : Remote) (connected : Bool) : Relay :=
  let recorder := Recorder.start clock config.limits true .batch config.sampler config.trigger
    config.batchTimeout
  let y := Relay.start recorder files rank config.maxPayloadAge remote connected .empty
    config.plugins
  if config.isAdaptive then y.attachState else y

def installPlugins (y : Relay) (service : String) : Relay :=
  let (plugins, recorder) := y.plugins.install service y.recorder
  { y with plugins, recorder }

def startPlugins (y : Relay) : Relay := { y with recorder := y.plugins.startAll y.recorder }

/-- Time goes by. -/
def advance (y : Relay) (n : Nanos) : Relay :=
  { y with recorder := { y.recorder with clock := y.recorder.clock.advance n } }

/-- Reads or draws the device id; none if it could not be kept. Waiting for the lock takes time. -/
def loadDeviceId (y : Relay) (lockFree : Bool) (fresh : BitVec 128) : Option String × Relay :=
  match DeviceId.load y.files deviceIdPath lockFree fresh with
  | (.ok id, files) => (some id, { y with files })
  | (.error (.contended _ attempts), files) =>
    (none, { y with files }.advance ((attempts - 1) * DeviceId.lockDelay))
  | (.error _, files) => (none, { y with files })

/-- What the worker does first; it answers the tasks. -/
def startup (config : RelayConfig) (fresh : BitVec 128) (y : Relay) :
    Option (List (Task Relay)) × Relay :=
  let (id, y) := y.startPlugins.loadDeviceId true fresh
  let y := { y with resource := config.resourceAttributes id }
  (some ([sendTask .retrying, replayTask] ++ if config.isAdaptive then [samplerTask] else []), y)

/-- A relay whose worker is about to start. -/
def launch (config : RelayConfig) (fresh : BitVec 128) (y : Relay) : Machine Relay :=
  (Machine.create y (startup config fresh)).start

/-! ## Operations on a running relay -/

/-- The spans that wait now are sent without further delay. -/
def flush (m : Machine Relay) : Machine Relay :=
  { m with world := { m.world with recorder := m.world.recorder.forceCurrentBatch } }.wake

/-- No deadline fires any more. -/
def shutdownDeadlines (y : Relay) : Relay :=
  { y with recorder := { y.recorder with deadlines := y.recorder.deadlines.shutdown } }

def shutdown (m : Machine Relay) : Machine Relay :=
  { m with world := m.world.shutdownDeadlines }.askToStop

end SpanRelay.Relay
