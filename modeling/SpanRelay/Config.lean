import SpanRelay.Attribute.Limits
import SpanRelay.Clock
import SpanRelay.Plugin

/-! Settings of a relay, and the attributes by which it describes where its spans come from. -/
namespace SpanRelay

structure RelayConfig where
  apiKey : String
  endpoint : String
  serviceName : String
  releaseStage : String
  appVersion : Option String
  /-- The stages in which spans are sent; all of them when absent. -/
  enabledStages : Option (List String)
  /-- A probability that never changes; when absent the server sets it. -/
  probability : Option Binary64
  limits : AttributeLimits
  trigger : Nat
  batchTimeout : Nanos
  workerSleep : Nanos
  maxPayloadAge : Nanos
  probabilityExpiry : Nanos
  /-- A folder of its own for stored files; when absent one among temporary files. -/
  folder : Option String
  plugins : List Plugin
  deriving Repr

namespace RelayConfig

def standard (apiKey : String) : RelayConfig where
  apiKey
  endpoint := "https://otlp.bugsnag.com/v1/traces"
  serviceName := "unknown_service"
  releaseStage := "production"
  appVersion := none
  enabledStages := none
  probability := none
  limits := .standard
  trigger := 100
  batchTimeout := .ofSeconds 30
  workerSleep := .ofSeconds 30
  maxPayloadAge := .ofSeconds (24 * 60 * 60)
  probabilityExpiry := ProbabilitySampler.standardExpiry
  folder := none
  plugins := []

def development (apiKey : String) : RelayConfig :=
  { standard apiKey with
    releaseStage := "development"
    workerSleep := .ofSeconds 5
    batchTimeout := .ofSeconds 5 }

/-- A batch has at least one span. -/
def withTrigger (c : RelayConfig) (trigger : Nat) : RelayConfig := { c with trigger := max trigger 1 }

def stageEnabled (c : RelayConfig) : Bool :=
  match c.enabledStages with
  | none => true
  | some stages => stages.contains c.releaseStage

/-- The sampler of a relay before any stored probability is taken over. -/
def sampler (c : RelayConfig) : Sampler :=
  if !c.stageEnabled then .discarding
  else
    match c.probability with
    | some p => .probability (.fixed p)
    | none => .probability { ProbabilitySampler.adaptive .one with expireAfter := c.probabilityExpiry }

/-- Whether the probability comes from the server. -/
def isAdaptive (c : RelayConfig) : Bool := c.stageEnabled && c.probability.isNone

def resourceAttributes (c : RelayConfig) (deviceId : Option String) : Attributes :=
  let entry := fun (key value : String) => (key, AttributeValue.text value)
  Dictionary.ofList (
    [entry "deployment.environment" c.releaseStage, entry "service.name" c.serviceName] ++
    (c.appVersion.map (entry "service.version")).toList ++
    [entry "telemetry.sdk.name" "perfspan", entry "telemetry.sdk.version" "0.1.0",
      entry "os.type" "linux", entry "host.arch" "x86_64"] ++
    (deviceId.map (entry "device.id")).toList)

end RelayConfig
end SpanRelay
