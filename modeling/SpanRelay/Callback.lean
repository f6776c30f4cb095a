import SpanRelay.Attribute.Value
import SpanRelay.Hold
import SpanRelay.Registry

/-!
What a callback does to the span it is called for, as a list of acts. An end callback answers
whether the span is kept; a veto is remembered while the later acts still run, and a callback that
fails counts as one that keeps.
-/
namespace SpanRelay

inductive Act where
  | set (key : String) (value : AttributeValue)
  /-- Sets `target` to the value of `source`, or to false if there is none. -/
  | copy (source target : String)
  | remove (key : String)
  | rename (name : String)
  /-- Tries to claim the span as processed. -/
  | claim
  /-- Notes what the span looks like. -/
  | look
  | veto
  | vetoNamed (name : String)
  | vetoHaving (key : String)
  /-- Stops here with a failure. -/
  | fail
  /-- Registers another end callback. -/
  | enlist (item : Registration)
  /-- Ends another span. -/
  | finish (span : SpanRef) (time : Ticks)
  deriving Repr

def Act.claims : Act → Bool
  | .claim => true
  | _ => false

structure Callback where
  label : String
  /-- Called for spans that have ended rather than for those that start. -/
  atEnd : Bool
  acts : List Act
  deriving Repr, Inhabited

end SpanRelay
