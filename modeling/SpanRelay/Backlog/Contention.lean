import SpanRelay.Backlog

/-!
Calls on one backlog by any number of threads, one atomic step at a time. A span is linked to the
newest one seen and then becomes the newest by compare and swap, which is tried again with the one
that it found and may fail for no reason. A batch is detached as a whole and walked afterwards. The
counter is changed in a step of its own.
-/
namespace SpanRelay

inductive BacklogCall where
  | add (span : SpanRef)
  | takeBatch
  deriving DecidableEq, Repr

/-- The next step of a call. -/
inductive BacklogPoint where
  | loading
  | linking (seen : Option SpanRef)
  | swapping (seen : Option SpanRef)
  | countingOne
  | added
  | detaching
  /-- What was walked so far is at hand oldest first. -/
  | walking (node : Option SpanRef) (batch : List SpanRef)
  | uncounting (batch : List SpanRef)
  | taken (batch : List SpanRef)
  deriving DecidableEq, Repr

def BacklogCall.firstPoint : BacklogCall → BacklogPoint
  | add _ => .loading
  | takeBatch => .detaching

structure BacklogContest where
  newest : Option SpanRef
  links : Links
  /-- Without a bound, but never further from zero than there are calls; below zero if a batch is
  taken off before its spans are counted. -/
  counter : Int
  /-- The calls so far, by the time of the call. -/
  calls : List (BacklogCall × BacklogPoint)
  /-- Spans in the order in which each became the newest. -/
  arrivals : List SpanRef
  /-- Calls in the order in which they detached a batch. -/
  detachments : List Nat
  deriving DecidableEq, Repr

inductive BacklogEvent where
  | call (call : BacklogCall)
  /-- The next step of a call; a swap fails for no reason if it is spurious. -/
  | step (call : Nat) (spurious : Bool)
  deriving DecidableEq, Repr

namespace BacklogContest

def start : BacklogContest := ⟨none, .empty, 0, [], [], []⟩

def setLink (c : BacklogContest) (span : SpanRef) (before : Option SpanRef) : BacklogContest :=
  { c with links := c.links.set span before }

/-- The step of a call at a point; none if it has returned. -/
def advance? (c : BacklogContest) (index : Nat) (call : BacklogCall) (spurious : Bool)
    (point : BacklogPoint) : Option (BacklogContest × BacklogPoint) :=
  match call, point with
  | .add _, .loading => some (c, .linking c.newest)
  | .add span, .linking seen => some (c.setLink span seen, .swapping seen)
  | .add span, .swapping seen =>
    if c.newest = seen ∧ spurious = false then
      some ({ c with newest := some span, arrivals := c.arrivals ++ [span] }, .countingOne)
    else some (c, .linking c.newest)
  | .add _, .countingOne => some ({ c with counter := c.counter + 1 }, .added)
  | .takeBatch, .detaching =>
    some ({ c with newest := none, detachments := c.detachments ++ [index] },
      .walking c.newest [])
  | .takeBatch, .walking none batch => some (c, .uncounting batch)
  | .takeBatch, .walking (some span) batch =>
    some (c.setLink span none, .walking (c.links.before? span) (span :: batch))
  | .takeBatch, .uncounting batch =>
    some ({ c with counter := c.counter - batch.length }, .taken batch)
  | _, _ => none

def event? (c : BacklogContest) : BacklogEvent → Option BacklogContest
  | .call call => some { c with calls := c.calls ++ [(call, call.firstPoint)] }
  | .step index spurious =>
    match c.calls[index]? with
    | none => none
    | some (call, point) =>
      (c.advance? index call spurious point).map fun (c, next) =>
        { c with calls := c.calls.set index (call, next) }

/-- All events in turn, as far as each is possible. -/
def run? (c : BacklogContest) : List BacklogEvent → Option BacklogContest
  | [] => some c
  | event :: rest => (c.event? event).bind (run? · rest)

end BacklogContest
end SpanRelay
