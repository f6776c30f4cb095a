import SpanRelay.Attribute.Value
import SpanRelay.Delivery.Outcome
import SpanRelay.Hold
import SpanRelay.Span.State

/-! Things that happen where an observer can see them. -/
namespace SpanRelay

inductive Event where
  /-- The end of a span has begun; later ends of it count for nothing. -/
  | ended (span : SpanRef) (time : Ticks)
  /-- A hold let go of its span; the time is there if it counts for the end of the span. -/
  | released (hold : HoldId) (counted : Option Ticks)
  /-- A span was handed over because its end was complete and nothing held it. -/
  | handedOver (span : SpanRef)
  | batched (span : SpanRef)
  /-- Spans left the backlog, before they were sampled again. -/
  | detached (spans : List SpanRef)
  | calledAtStart (callback : String) (span : SpanRef)
  | calledAtEnd (callback : String) (span : SpanRef)
  | claimed (callback : String) (won : Bool)
  | looked (callback name : String) (state : SpanState) (isSealed : Bool) (attributes : Nat)
  | pluginInstalled (plugin service : String)
  | pluginStarted (plugin : String)
  | spansSent (spans : List SpanRef) (resource : Attributes) (payload : Payload) (reply : Reply)
  | payloadSent (payload : Payload) (reply : Reply)
  | probabilityAsked
  deriving Repr

namespace Event

/-- Seen by a remote end or a plugin, not by those who record spans. -/
def isOutside : Event → Bool
  | spansSent .. | payloadSent .. | probabilityAsked | pluginInstalled .. | pluginStarted _ => true
  | _ => false

/-- A step on the way to a hand-over, or from there to a batch, which nobody outside sees. -/
def isInside : Event → Bool
  | ended .. | released .. | batched _ | detached _ => true
  | _ => false

/-- The payload that was made of a batch. -/
def madePayload? : Event → Option Payload
  | spansSent _ _ p _ => some p
  | _ => none

end Event
end SpanRelay
