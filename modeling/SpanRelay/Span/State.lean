/-!
The life of a span. It is opened, ends in two moves (the end time is recorded in between), and is
then processed; holds keep it back in each of the first three stages; it may be discarded until its
end is complete. A move that a state does not allow gives nothing.
-/
namespace SpanRelay

inductive SpanState where
  | opened
  | openedHeld
  | ending
  | endingHeld
  | ended
  | endedHeld
  | discarded
  | processed
  deriving DecidableEq, Repr, Inhabited

namespace SpanState

/-- The name under which a state is shown. -/
def label : SpanState → String
  | opened => "Open"
  | openedHeld => "OpenBlocked"
  | ending => "Ending"
  | endingHeld => "EndingBlocked"
  | ended => "Ended"
  | endedHeld => "EndedBlocked"
  | discarded => "Discarded"
  | processed => "Processed"

def isOpen : SpanState → Bool
  | opened | openedHeld => true
  | _ => false

def isHeld : SpanState → Bool
  | openedHeld | endingHeld | endedHeld => true
  | _ => false

def isFinal : SpanState → Bool
  | discarded | processed => true
  | _ => false

def beginEnd? : SpanState → Option SpanState
  | opened => some ending
  | openedHeld => some endingHeld
  | _ => none

def finishEnd? : SpanState → Option SpanState
  | ending => some ended
  | endingHeld => some endedHeld
  | _ => none

/-- Discarding twice is allowed and changes nothing. -/
def discard? : SpanState → Option SpanState
  | opened | openedHeld | ending | endingHeld | discarded => some discarded
  | _ => none

def process? : SpanState → Option SpanState
  | discarded | processed => none
  | _ => some processed

def hold? : SpanState → Option SpanState
  | opened => some openedHeld
  | ending => some endingHeld
  | openedHeld => some openedHeld
  | endingHeld => some endingHeld
  | endedHeld => some endedHeld
  | _ => none

/-- The move when the last hold is released. -/
def release? : SpanState → Option SpanState
  | openedHeld => some opened
  | endingHeld => some ending
  | endedHeld => some ended
  | _ => none

theorem isHeld_of_hold? {s t : SpanState} (h : hold? s = some t) : t.isHeld = true := by
  cases s <;> simp_all [hold?] <;> subst h <;> rfl

end SpanState
end SpanRelay
