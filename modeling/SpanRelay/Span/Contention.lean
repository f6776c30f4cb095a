import SpanRelay.Span.Basic

/-!
Calls on one span by any number of threads, one atomic step at a time. Every change of the state is
a compare and swap, which is tried again with the state that it found; it may also fail for no
reason. The holds are guarded by a lock, which the end of a span does not take. The receiver of an
ended span may claim it as processed.
-/
namespace SpanRelay

inductive SpanCall where
  | finish (time : Ticks)
  | discard
  | hold (deadline : Nanos)
  | release (hold : HoldId) (closeTime : Option Ticks)
  deriving DecidableEq, Repr

inductive StateMove where
  | beginEnd
  | finishEnd
  | discard
  | process
  | hold
  | release
  deriving DecidableEq, Repr

def StateMove.target? : StateMove → SpanState → Option SpanState
  | beginEnd => SpanState.beginEnd?
  | finishEnd => SpanState.finishEnd?
  | discard => SpanState.discard?
  | process => SpanState.process?
  | hold => SpanState.hold?
  | release => SpanState.release?

/-- The next step of a call. -/
inductive CallPoint where
  | locking
  | loading (move : StateMove)
  | swapping (move : StateMove) (seen : SpanState)
  | recordingEnd
  /-- Taking out the hold that is to be released. -/
  | freeing
  | addingHold
  | clearingHolds
  | unlocking (after : CallPoint)
  | sealing
  | handingOver
  | returned (won : Bool)
  deriving DecidableEq, Repr

namespace SpanCall

def firstPoint : SpanCall → CallPoint
  | finish _ => .loading .beginEnd
  | discard | hold _ | release _ _ => .locking

/-- The first point under the lock. -/
def lockedPoint : SpanCall → CallPoint
  | finish _ => .returned false
  | discard => .loading .discard
  | hold _ => .loading .hold
  | release _ _ => .freeing

end SpanCall

namespace StateMove

/-- Where a call goes on after its move was refused. -/
def refused : StateMove → CallPoint
  | beginEnd => .returned false
  | finishEnd | process => .returned true
  | discard | hold => .unlocking (.returned false)
  | release => .unlocking (.returned true)

/-- Where a call goes on after its move from a state. -/
def taken (origin : SpanState) : StateMove → CallPoint
  | beginEnd => .recordingEnd
  | finishEnd => if origin = .ending then .handingOver else .returned true
  | process => .returned true
  | discard => .clearingHolds
  | hold => .addingHold
  | release => .unlocking (if origin = .endedHeld then .handingOver else .returned true)

/-- Where a call goes on that has just seen a state: a move onto the same state needs no swap. -/
def seen (move : StateMove) (state : SpanState) : CallPoint :=
  match move.target? state with
  | none => move.refused
  | some next => if next = state then move.taken state else .swapping move state

end StateMove

structure SpanContest where
  span : Span
  /-- The receiver claims each span that it gets. -/
  claims : Bool
  /-- The call that holds the lock. -/
  lock : Option Nat
  nextHold : HoldId
  /-- How often the span was handed over. -/
  handOvers : Nat
  /-- The calls so far, by the time of the call. -/
  calls : List (SpanCall × CallPoint)
  deriving Repr

inductive SpanEvent where
  | call (call : SpanCall)
  /-- The next step of a call; a swap fails for no reason if it is spurious. -/
  | step (call : Nat) (spurious : Bool)
  deriving DecidableEq, Repr

namespace SpanContest

/-- A span that nobody has called yet. -/
def start (span : Span) (claims : Bool) : SpanContest := ⟨span, claims, none, 0, 0, []⟩

/-- The step of a call at a point; none if it has returned or waits for the lock. -/
def advance? (c : SpanContest) (index : Nat) (call : SpanCall) (spurious : Bool) :
    CallPoint → Option (SpanContest × CallPoint)
  | .locking =>
    if c.lock = none then some ({ c with lock := some index }, call.lockedPoint) else none
  | .loading move => some (c, move.seen c.span.state)
  | .swapping move seen =>
    if c.span.state = seen ∧ spurious = false then
      some ({ c with span := (c.span.move? move.target?).getD c.span }, move.taken seen)
    else some (c, move.seen c.span.state)
  | .recordingEnd =>
    match call with
    | .finish time => some ({ c with span := c.span.recordEnd time }, .loading .finishEnd)
    | _ => none
  | .freeing =>
    match call with
    | .release hold closeTime =>
      match c.span.free? hold closeTime with
      | none => some (c, .unlocking (.returned false))
      | some (_, span) =>
        some ({ c with span },
          if span.pending.isEmpty then .loading .release else .unlocking (.returned true))
    | _ => none
  | .addingHold =>
    match call with
    | .hold deadline =>
      some
        ({ c with span := c.span.addTimer ⟨deadline, c.nextHold⟩, nextHold := c.nextHold + 1 },
          .unlocking (.returned true))
    | _ => none
  | .clearingHolds => some ({ c with span := c.span.dropTimers }, .unlocking .sealing)
  | .unlocking after => some ({ c with lock := none }, after)
  | .sealing => some ({ c with span := c.span.freeze }, .returned true)
  | .handingOver =>
    some ({ c with handOvers := c.handOvers + 1 },
      if c.claims then .loading .process else .returned true)
  | .returned _ => none

def event? (c : SpanContest) : SpanEvent → Option SpanContest
  | .call call => some { c with calls := c.calls ++ [(call, call.firstPoint)] }
  | .step index spurious =>
    match c.calls[index]? with
    | none => none
    | some (call, point) =>
      (c.advance? index call spurious point).map fun (c, next) =>
        { c with calls := c.calls.set index (call, next) }

/-- All events in turn, as far as each is possible. -/
def run? (c : SpanContest) : List SpanEvent → Option SpanContest
  | [] => some c
  | event :: rest => (c.event? event).bind (run? · rest)

end SpanContest
end SpanRelay
