import SpanRelay.Attribute.Limits
import SpanRelay.Hold
import SpanRelay.Span.Context
import SpanRelay.Span.Kind
import SpanRelay.Span.State

/-!
A span and the steps that its operations are made of. Attributes set by a producer count against
the limits and are refused once the span is sealed; those set by the library itself are not.
-/
namespace SpanRelay

structure Span where
  context : SpanContext
  parent : SpanId
  kind : SpanKind
  category : SpanCategory
  start : Ticks
  makesContext : Bool
  metrics : Option SpanMetrics
  limits : AttributeLimits
  name : String
  /-- The time given to the end, or `noEnd`. -/
  endMark : Ticks
  /-- The latest time at which an upgraded hold was released. -/
  extension : Ticks
  state : SpanState
  attributes : Attributes
  customKeys : List String
  dropped : UInt32
  probability : Binary64
  isSealed : Bool
  pending : List Timer
  deriving Repr, Inhabited

namespace Span

/-- The mark of a span without an end time, which is the last tick that can be written. -/
def noEnd : Ticks := UInt64.ofNat (UInt64.size - 1)

def categoryKey : String := "bugsnag.span.category"
def firstClassKey : String := "bugsnag.span.first_class"
def probabilityKey : String := "bugsnag.sampling.p"
def callbacksDurationKey : String := "bugsnag.span.callbacks_duration"

def endTime? (s : Span) : Option Ticks :=
  if s.endMark = noEnd then none else some (max s.endMark s.extension)

def isEnded (s : Span) : Bool := !s.state.isOpen

def isDiscarded (s : Span) : Bool := s.state == .discarded

def samplingValue (s : Span) : Binary64 := s.context.trace.samplingValue

def isFirstClass? (s : Span) : Option Bool :=
  (s.attributes.get? firstClassKey).bind AttributeValue.asBool?

/-- The name is fixed once the span has begun to end. -/
def rename (s : Span) (name : String) : Span := if s.state.isOpen then { s with name } else s

/-! ## Attributes -/

/-- Sets an attribute of the library's own, past the limits and the seal. -/
def setInternal (s : Span) (key : String) (value : AttributeValue) : Span :=
  { s with attributes := s.attributes.insert key value }

def countDropped (s : Span) : Span := { s with dropped := s.dropped + 1 }

/-- Whether a producer's attribute is refused. -/
def refuses (s : Span) (key : String) : Bool :=
  s.isSealed || !AttributeLimits.acceptsKey key ||
    (!s.attributes.contains key && decide (s.limits.count ≤ s.customKeys.length))

def setAttribute (s : Span) (key : String) (value : AttributeValue) : Span :=
  if s.refuses key then s.countDropped
  else
    { s with
      customKeys := if s.attributes.contains key then s.customKeys else s.customKeys ++ [key]
      attributes := s.attributes.insert key (s.limits.clamp value) }

def removeAttribute (s : Span) (key : String) : Option AttributeValue × Span :=
  if s.isSealed then (none, s)
  else
    let (old, attributes) := s.attributes.take key
    (old, { s with attributes, customKeys := s.customKeys.filter fun k => k ≠ key })

def setProbability (s : Span) (p : Binary64) : Span :=
  { s with probability := p }.setInternal probabilityKey (.double p)

def freeze (s : Span) : Span := { s with isSealed := true }

/-! ## Steps of a life -/

def move? (s : Span) (step : SpanState → Option SpanState) : Option Span :=
  (step s.state).map fun state => { s with state }

def beginEnd? (s : Span) : Option Span := s.move? SpanState.beginEnd?

def recordEnd (s : Span) (t : Ticks) : Span := { s with endMark := t }

/-- Completes the end; answers whether the span is to be handed over now. -/
def finishEnd (s : Span) : Bool × Span :=
  match s.move? SpanState.finishEnd? with
  | some t => (s.state == .ending, t)
  | none => (false, s)

def addTimer (s : Span) (timer : Timer) : Span := { s with pending := s.pending ++ [timer] }

def dropTimers (s : Span) : Span := { s with pending := [] }

/-- Answers the timers that are no longer wanted. -/
def discard? (s : Span) : Option (List Timer × Span) :=
  (s.move? SpanState.discard?).map fun t => (t.pending, t.dropTimers)

def process? (s : Span) : Option Span := s.move? SpanState.process?

def hold? (s : Span) (timer : Timer) : Option Span :=
  (s.move? SpanState.hold?).map fun t => t.addTimer timer

def isHeldBy (s : Span) (hold : HoldId) : Bool := s.pending.any fun t => t.hold = hold

/-- Takes out the timer of a hold; the time at which the hold is released may extend the end. -/
def free? (s : Span) (hold : HoldId) (closeTime : Option Ticks) : Option (Timer × Span) :=
  (s.pending.find? fun t => t.hold = hold).map fun timer =>
    (timer,
      { s with
        pending := s.pending.erase timer
        extension := match closeTime with
          | some t => max s.extension t
          | none => s.extension })

/-- What a release found: the timer of the hold, and whether the span is to be handed over now. -/
structure Release where
  timer : Timer
  handOver : Bool
  span : Span

def release? (s : Span) (hold : HoldId) (closeTime : Option Ticks) : Option Release :=
  (s.free? hold closeTime).map fun (timer, freed) =>
    match (if freed.pending.isEmpty then freed.move? SpanState.release? else none) with
    | some t => ⟨timer, s.state == .endedHeld, t⟩
    | none => ⟨timer, false, freed⟩

/-- A new span, open and without attributes but its category. -/
def create (context : SpanContext) (parent : SpanId) (kind : SpanKind) (category : SpanCategory)
    (start : Ticks) (makesContext : Bool) (metrics : Option SpanMetrics) (limits : AttributeLimits)
    (name : String) : Span :=
  let blank : Span :=
    { context, parent, kind, category, start, makesContext, metrics, limits, name
      endMark := noEnd
      extension := 0
      state := .opened
      attributes := .empty
      customKeys := []
      dropped := 0
      probability := .one
      isSealed := false
      pending := [] }
  match category.label? with
  | some label => blank.setInternal categoryKey (.text label)
  | none => blank

end Span

/-! ## Calls for attributes -/

/-- What is done to the attributes of a span: by a producer, by the library, or to seal them. -/
inductive AttributeCall where
  | set (key : String) (value : AttributeValue)
  | remove (key : String)
  | setInternal (key : String) (value : AttributeValue)
  | setProbability (p : Binary64)
  | freeze

namespace Span

def call (s : Span) : AttributeCall → Span
  | .set key value => s.setAttribute key value
  | .remove key => (s.removeAttribute key).2
  | .setInternal key value => s.setInternal key value
  | .setProbability p => s.setProbability p
  | .freeze => s.freeze

def afterCalls (s : Span) (calls : List AttributeCall) : Span := calls.foldl call s

end Span
end SpanRelay
